import Xine.Library.Octets

/-!
# The reassembly of subpicture units

`spudec_reassembly` of `spu.c`: the packets of a subpicture unit are put one behind the other in a
buffer, which grows when a unit does not fit. The first two bytes of a unit are its size, and the next
two the offset of its commands. A byte of the buffer that has not been written is `none`, and a copy
that does not stay inside the buffer has no result.
-/

namespace Xine.Spu

open Octets

structure SpudecSeq where
  buf : List (Option Byte)
  ra_offs : ℕ
  seq_len : ℕ
  buf_len : ℕ
  cmd_offs : ℕ
  finished : Bool
  complete : Bool
  broken : Bool
deriving DecidableEq

/-- `memcpy` into the buffer, if it stays inside. -/
def memcpy (buf : List (Option Byte)) (offset : ℕ) (data : List Byte) : Option (List (Option Byte)) :=
  if offset + data.length ≤ buf.length then
    some (buf.take offset ++ (data.map some ++ buf.drop (offset + data.length)))
  else
    none

/-- A packet that begins a unit. Its first four bytes are read. -/
def SpudecSeq.begin (seq : SpudecSeq) (pkt_data : List Byte) : Option SpudecSeq :=
  match pkt_data with
  | b₀ :: b₁ :: b₂ :: b₃ :: _ =>
    let seq_len := ofBig [b₀, b₁]
    let cmd_offs := ofBig [b₂, b₃]
    some { seq with
      seq_len := seq_len
      cmd_offs := cmd_offs
      broken := decide (seq_len ≤ cmd_offs) || seq.broken
      buf_len := if seq.buf_len < seq_len then seq_len else seq.buf_len
      buf := if seq.buf_len < seq_len then List.replicate seq_len none else seq.buf
      ra_offs := 0 }
  | _ => none

/-- The rest of `spudec_reassembly`. -/
def SpudecSeq.append (seq : SpudecSeq) (pkt_data : List Byte) : Option SpudecSeq := do
  let seq ←
    if seq.ra_offs < seq.seq_len then
      let pkt_data :=
        if seq.seq_len < seq.ra_offs + pkt_data.length then pkt_data.take (seq.seq_len - seq.ra_offs)
        else pkt_data
      let buf ← memcpy seq.buf seq.ra_offs pkt_data
      pure { seq with buf := buf, ra_offs := seq.ra_offs + pkt_data.length }
    else
      pure { seq with broken := true }
  if seq.ra_offs = seq.seq_len then
    pure { seq with finished := false, complete := true }
  else
    pure { seq with complete := false }

def spudecReassembly (seq : SpudecSeq) (pkt_data : List Byte) : Option SpudecSeq := do
  let seq ← if seq.complete then seq.begin pkt_data else pure seq
  seq.append pkt_data

/-- The reassembly of packets, with what it says behind each of them: whether a unit is complete, and
if so the bytes of the unit. -/
def reassemble : SpudecSeq → List (List Byte) → Option (SpudecSeq × List (Option (List (Option Byte))))
  | seq, [] => some (seq, [])
  | seq, pkt :: pkts => do
    let seq ← spudecReassembly seq pkt
    let (seq', reports) ← reassemble seq pkts
    pure (seq', (if seq.complete then some (seq.buf.take seq.seq_len) else none) :: reports)

/-- A sequence behind `open_plugin` or `spudec_reset`. -/
def SpudecSeq.start : SpudecSeq where
  buf := []
  ra_offs := 0
  seq_len := 0
  buf_len := 0
  cmd_offs := 0
  finished := false
  complete := true
  broken := false

/-! ## Units in packets -/

/-- A unit: its first bytes are its size, and the offset of its commands, which is inside the unit. -/
structure Unit (bytes : List Byte) : Prop where
  four : 4 ≤ bytes.length
  size : ofBig (bytes.take 2) = bytes.length
  commands : ofBig ((bytes.drop 2).take 2) < bytes.length

/-- The packets of a unit: its bytes, cut anywhere behind the first four. The last packet has the last
byte. -/
structure Split where
  bytes : List Byte
  first : List Byte
  rest : List (List Byte)
  wellFormed : Unit bytes
  flatten : first ++ rest.flatten = bytes
  four : 4 ≤ first.length
  last : ∀ pkt, rest.getLast? = some pkt → pkt ≠ []

/-- The packets, in their order. -/
def Split.packets (unit : Split) : List (List Byte) := unit.first :: unit.rest

/-- What the reassembly is to say behind the packets of a unit: nothing before the last one, and there
the bytes of the unit. -/
def Split.reports (unit : Split) : List (Option (List (Option Byte))) :=
  List.replicate unit.rest.length none ++ [some (unit.bytes.map some)]

/-- The invariant: the buffer has the length that the sequence says. -/
def SpudecSeq.Allocated (seq : SpudecSeq) : Prop := seq.buf.length = seq.buf_len

variable {seq seq' : SpudecSeq} {buf buf' : List (Option Byte)} {bytes done data : List Byte}

theorem memcpy_append (hpre : done.map some <+: buf) (hle : done.length + data.length ≤ buf.length) :
    ∃ buf', memcpy buf done.length data = some buf' ∧ buf'.length = buf.length ∧
      (done ++ data).map some <+: buf' := by
  obtain ⟨rest, rfl⟩ := hpre
  unfold memcpy
  rw [if_pos hle]
  refine ⟨_, rfl, ?_, ?_⟩
  · simp only [List.length_append, List.length_take, List.length_map, List.length_drop] at hle ⊢
    omega
  · have htake : (done.map some ++ rest).take done.length = done.map some :=
      List.take_left' (List.length_map some)
    rw [htake, List.map_append, ← List.append_assoc]
    exact List.prefix_append _ _

/-- A unit is under way, with some of its bytes in the buffer. -/
structure SpudecSeq.Under (seq : SpudecSeq) (bytes done : List Byte) : Prop where
  allocated : seq.Allocated
  buf_len : bytes.length ≤ seq.buf_len
  seq_len : seq.seq_len = bytes.length
  ra_offs : seq.ra_offs = done.length
  buf : done.map some <+: seq.buf

theorem SpudecSeq.Under.append (h : seq.Under bytes done) (hpre : done ++ data <+: bytes)
    (hlt : done.length < bytes.length) :
    ∃ seq', seq.append data = some seq' ∧ seq'.Under bytes (done ++ data) ∧
      seq'.complete = decide (done ++ data = bytes) ∧ seq'.broken = seq.broken := by
  obtain ⟨halloc, hbuf_len, hseq_len, hra, hbuf⟩ := h
  have hlen := hpre.length_le
  rw [List.length_append] at hlen
  unfold SpudecSeq.Allocated at halloc
  have hroom : done.length + data.length ≤ seq.buf.length := by omega
  obtain ⟨buf', hcopy, hlen', hbuf'⟩ := memcpy_append hbuf hroom
  have hcomplete : (done.length + data.length = bytes.length) ↔ done ++ data = bytes := by
    constructor
    · intro heq
      exact hpre.eq_of_length (by rw [List.length_append, heq])
    · intro heq
      rw [← heq, List.length_append]
  have hfit : ¬bytes.length < done.length + data.length := by omega
  unfold SpudecSeq.append
  simp only [hra, hseq_len, if_pos hlt, if_neg hfit, hcopy, Option.pure_def, Option.bind_eq_bind,
    Option.bind_some]
  by_cases hdone : done.length + data.length = bytes.length
  · rw [if_pos hdone]
    refine ⟨_, rfl, ⟨hlen'.trans halloc, hbuf_len, rfl, ?_, hbuf'⟩, ?_, rfl⟩
    · rw [List.length_append]
    · exact (decide_eq_true (hcomplete.1 hdone)).symm
  · rw [if_neg hdone]
    refine ⟨_, rfl, ⟨hlen'.trans halloc, hbuf_len, rfl, ?_, hbuf'⟩, ?_, rfl⟩
    · rw [List.length_append]
    · exact (decide_eq_false fun hno => hdone (hcomplete.2 hno)).symm

theorem SpudecSeq.begin_under (hunit : Unit bytes) (hallocated : seq.Allocated)
    (hfour : 4 ≤ data.length) (hpre : data <+: bytes) :
    ∃ seq', seq.begin data = some seq' ∧ seq'.Under bytes [] ∧ seq'.broken = seq.broken := by
  obtain ⟨rest, rfl⟩ := hpre
  match data, hfour with
  | b₀ :: b₁ :: b₂ :: b₃ :: tail, _ =>
    have hsize := hunit.size
    have hcommands := hunit.commands
    simp only [List.cons_append, List.take_succ_cons, List.take_zero, List.drop_succ_cons,
      List.drop_zero] at hsize hcommands
    unfold SpudecSeq.begin
    refine ⟨_, rfl, ⟨?_, ?_, hsize, rfl, List.nil_prefix⟩, ?_⟩
    · unfold SpudecSeq.Allocated at hallocated ⊢
      dsimp only
      split
      · exact List.length_replicate
      · exact hallocated
    · dsimp only [List.cons_append]
      rw [hsize]
      split <;> omega
    · dsimp only
      rw [hsize, decide_eq_false (by simpa using hcommands), Bool.false_or]

theorem SpudecSeq.Under.take_buf (h : seq.Under bytes bytes) :
    seq.buf.take seq.seq_len = bytes.map some := by
  obtain ⟨rest, hbuf⟩ := h.buf
  rw [← hbuf, h.seq_len]
  exact List.take_left' (List.length_map some)

theorem flatten_length_pos {rest : List (List Byte)} (hne : rest ≠ [])
    (hlast : ∀ pkt, rest.getLast? = some pkt → pkt ≠ []) : 0 < rest.flatten.length := by
  apply List.length_pos_of_ne_nil
  intro hflatten
  have hmem := List.getLast_mem hne
  exact hlast _ (List.getLast?_eq_getLast_of_ne_nil hne) (List.flatten_eq_nil_iff.1 hflatten _ hmem)

theorem SpudecSeq.Under.reassemble (rest : List (List Byte)) :
    ∀ {seq : SpudecSeq} {done : List Byte}, seq.Under bytes done → seq.complete = false →
      rest ≠ [] → done ++ rest.flatten = bytes → (∀ pkt, rest.getLast? = some pkt → pkt ≠ []) →
      ∃ seq', Spu.reassemble seq rest =
          some (seq', List.replicate (rest.length - 1) none ++ [some (bytes.map some)]) ∧
        seq'.Allocated ∧ seq'.complete = true ∧ seq'.broken = seq.broken := by
  induction rest with
  | nil => exact fun _ _ hne => absurd rfl hne
  | cons pkt rest ih =>
    intro seq done h hcomplete hne hflatten hlast
    have hpos := flatten_length_pos hne hlast
    have hlt : done.length < bytes.length := by
      rw [← hflatten, List.length_append]
      omega
    rw [List.flatten_cons, ← List.append_assoc] at hflatten
    obtain ⟨seq₁, happend, hunder, hcomplete₁, hbroken₁⟩ := h.append ⟨rest.flatten, hflatten⟩ hlt
    have hstep : spudecReassembly seq pkt = some seq₁ := by
      unfold spudecReassembly
      rw [hcomplete]
      exact happend
    match rest with
    | [] =>
      have hdone : done ++ pkt = bytes := by simpa using hflatten
      rw [hdone, decide_eq_true rfl] at hcomplete₁
      rw [hdone] at hunder
      refine ⟨seq₁, ?_, hunder.allocated, hcomplete₁, hbroken₁⟩
      simp [Spu.reassemble, hstep, hcomplete₁, hunder.take_buf]
    | pkt₁ :: rest =>
      have hlast₁ : ∀ pkt', (pkt₁ :: rest).getLast? = some pkt' → pkt' ≠ [] := by
        intro pkt' hpkt'
        exact hlast pkt' (by rw [List.getLast?_cons_cons, hpkt'])
      -- the unit is not complete while there are bytes to come
      have hmore := flatten_length_pos (List.cons_ne_nil pkt₁ rest) hlast₁
      have hnot : done ++ pkt ≠ bytes := by
        intro heq
        have hlen := congrArg List.length hflatten
        rw [heq, List.length_append] at hlen
        omega
      rw [decide_eq_false hnot] at hcomplete₁
      obtain ⟨seq₂, hrun, halloc₂, hcomplete₂, hbroken₂⟩ :=
        ih hunder hcomplete₁ (List.cons_ne_nil _ _) hflatten hlast₁
      refine ⟨seq₂, ?_, halloc₂, hcomplete₂, hbroken₂.trans hbroken₁⟩
      rw [Spu.reassemble, hstep]
      simp only [Option.bind_eq_bind, Option.bind_some, hrun, hcomplete₁, Option.pure_def]
      rfl

theorem reassemble_split (hallocated : seq.Allocated) (hcomplete : seq.complete = true)
    (unit : Split) :
    ∃ seq', reassemble seq unit.packets = some (seq', unit.reports) ∧ seq'.Allocated ∧
      seq'.complete = true ∧ seq'.broken = seq.broken := by
  have hpre : unit.first <+: unit.bytes := ⟨_, unit.flatten⟩
  obtain ⟨seq₁, hbegin, hunder₁, hbroken₁⟩ :=
    SpudecSeq.begin_under unit.wellFormed hallocated unit.four hpre
  have hfour := unit.wellFormed.four
  obtain ⟨seq₂, happend, hunder₂, hcomplete₂, hbroken₂⟩ :=
    hunder₁.append (by simpa using hpre) (by simp; omega)
  rw [List.nil_append] at hunder₂ hcomplete₂
  have hstep : spudecReassembly seq unit.first = some seq₂ := by
    unfold spudecReassembly
    simp only [hcomplete, if_true, hbegin]
    exact happend
  unfold Split.packets Split.reports
  by_cases hrest : unit.rest = []
  · have hdone : unit.first = unit.bytes := by simpa [hrest] using unit.flatten
    rw [hdone, decide_eq_true rfl] at hcomplete₂
    rw [hdone] at hunder₂
    refine ⟨seq₂, ?_, hunder₂.allocated, hcomplete₂, hbroken₂.trans hbroken₁⟩
    rw [hrest]
    simp [reassemble, hstep, hcomplete₂, hunder₂.take_buf]
  · have hmore := flatten_length_pos hrest unit.last
    have hnot : unit.first ≠ unit.bytes := by
      intro heq
      have hlen := congrArg List.length unit.flatten
      rw [heq, List.length_append] at hlen
      omega
    rw [decide_eq_false hnot] at hcomplete₂
    obtain ⟨seq₃, hrun, halloc₃, hcomplete₃, hbroken₃⟩ :=
      hunder₂.reassemble unit.rest hcomplete₂ hrest unit.flatten unit.last
    refine ⟨seq₃, ?_, halloc₃, hcomplete₃, (hbroken₃.trans hbroken₂).trans hbroken₁⟩
    rw [reassemble, hstep]
    simp only [Option.bind_eq_bind, Option.bind_some, hrun, hcomplete₂, Option.pure_def]
    have hlen : unit.rest.length = unit.rest.length - 1 + 1 := by
      have := List.length_pos_of_ne_nil hrest
      omega
    rw [hlen, List.replicate_succ]
    rfl

theorem reassemble_append (pkts₁ pkts₂ : List (List Byte)) :
    ∀ {seq seq₁ seq₂ : SpudecSeq} {said₁ said₂ : List (Option (List (Option Byte)))},
      reassemble seq pkts₁ = some (seq₁, said₁) → reassemble seq₁ pkts₂ = some (seq₂, said₂) →
      reassemble seq (pkts₁ ++ pkts₂) = some (seq₂, said₁ ++ said₂) := by
  induction pkts₁ with
  | nil =>
    intro seq seq₁ seq₂ said₁ said₂ h₁ h₂
    obtain ⟨rfl, rfl⟩ : seq = seq₁ ∧ [] = said₁ := by simpa [reassemble] using h₁
    exact h₂
  | cons pkt pkts ih =>
    intro seq seq₁ seq₂ said₁ said₂ h₁ h₂
    simp only [reassemble, Option.bind_eq_bind, Option.bind_eq_some_iff, Option.pure_def,
      Option.some.injEq, Prod.mk.injEq] at h₁
    obtain ⟨seq', hstep, ⟨seq'', said⟩, hrun, rfl, rfl⟩ := h₁
    rw [List.cons_append, reassemble, hstep]
    simp only [Option.bind_eq_bind, Option.bind_some, ih hrun h₂, Option.pure_def, List.cons_append]

/-- However units are cut into packets, the reassembly says that a unit is complete at its last byte
and nowhere else, its buffer has the bytes of the unit there, and no copy leaves the buffer. -/
theorem reassemble_splits (units : List Split) (hallocated : seq.Allocated)
    (hcomplete : seq.complete = true) :
    ∃ seq', reassemble seq (units.flatMap Split.packets) = some (seq', units.flatMap Split.reports) ∧
      seq'.Allocated ∧ seq'.complete = true ∧ seq'.broken = seq.broken := by
  induction units generalizing seq with
  | nil => exact ⟨seq, rfl, hallocated, hcomplete, rfl⟩
  | cons unit units ih =>
    obtain ⟨seq₁, hrun₁, halloc₁, hcomplete₁, hbroken₁⟩ :=
      reassemble_split hallocated hcomplete unit
    obtain ⟨seq₂, hrun₂, halloc₂, hcomplete₂, hbroken₂⟩ := ih halloc₁ hcomplete₁
    exact ⟨seq₂, reassemble_append _ _ hrun₁ hrun₂, halloc₂, hcomplete₂, hbroken₂.trans hbroken₁⟩

/-- A unit of six bytes, in packets of four bytes, of no byte and of two bytes. -/
def sixBytes : Split where
  bytes := [0, 6, 0, 4, 1, 2]
  first := [0, 6, 0, 4]
  rest := [[], [1, 2]]
  wellFormed := ⟨by decide, by decide, by decide⟩
  flatten := rfl
  four := by decide
  last := by simp

theorem reassemble_splits_sixBytes :
    ∃ seq', reassemble SpudecSeq.start ([sixBytes, sixBytes].flatMap Split.packets) =
        some (seq', [sixBytes, sixBytes].flatMap Split.reports) ∧
      seq'.Allocated ∧ seq'.complete = true ∧ seq'.broken = false :=
  reassemble_splits [sixBytes, sixBytes] rfl rfl

end Xine.Spu
