import Mathlib.Data.List.GetD
import Xine.DemuxTs.Inside

/-!
# The collection of a map table

The calls of the two table handlers one after another, with the memory for the map table of a program. A packet
goes on to the checksum when `section_length` bytes have been collected, although a section has three more, and
every packet starts with a pointer for it, although only the first of a section has one.
-/

namespace Xine.DemuxTs

open Spans

variable {p : Packet} {offset pkt section_length program_number : ℕ} {s t : Section} {r : Reader}
  {pmt : Option Section} {mem : ℕ → Byte}

/-- The memory with which the handler of map tables goes on to the checksum, and the length it uses. -/
def checkedSection (p : Packet) (offset program_number : ℕ) (pmt : Option Section) :
    Option (Section × ℕ) :=
  let pkt := sectionStart p offset
  let check (section_length : ℕ) (s : Section) :=
    let t := s.copy p pkt section_length
    if t.write < section_length then none else some (t, section_length)
  if pkt > pktSize then none
  else if p.payload_unit_start_indicator then
    if skipsSection p pkt program_number then none
    else check (sectionLength p.mem (pkt + 5)) (Section.alloc p)
  else pmt.bind fun s => check (sectionLength s.mem 0) s

/-- A call of one of the handlers. An association table may free the memory of a map table. -/
inductive TableCall where
  | pat (p : Packet) (frees : Bool)
  | pmt (p : Packet) (program_number : ℕ) (r : Reader)

namespace TableCall

/-- The accesses of a call, which is made for a payload that is in the packet. -/
def spans (pmt : Option Section) : TableCall → List (Span Area)
  | .pat p _ => if p.data_offset > pktSize then [] else patSpans p (p.data_offset - 4)
  | .pmt p program_number r =>
    if p.data_offset > pktSize then [] else pmtSpans p (p.data_offset - 4) program_number pmt r

/-- The section that a call checks. -/
def checked (pmt : Option Section) : TableCall → Option (Section × ℕ)
  | .pat .. => none
  | .pmt p program_number _ =>
    if p.data_offset > pktSize then none
    else checkedSection p (p.data_offset - 4) program_number pmt

/-- What a call does to the memory of the map table. -/
def step (pmt : Option Section) : TableCall → Option (Option Section)
  | .pat p frees => some (if p.data_offset > pktSize then pmt else if frees then none else pmt)
  | .pmt p program_number _ =>
    if p.data_offset > pktSize then some pmt
    else
      match collectSection p (p.data_offset - 4) program_number pmt with
      | .ok (pmt, _) => some pmt
      | .error _ => none

end TableCall

/-! ## A packet -/

/-- The end of the packet is not in the last three bytes of the section. -/
def AppendsWhole (pkt section_length write : ℕ) : Prop :=
  section_length + (pkt + 5) ≤ write + pktSize →
    section_length + 3 + (pkt + 5) ≤ write + pktSize

instance {write : ℕ} : Decidable (AppendsWhole pkt section_length write) := by
  unfold AppendsWhole
  infer_instance

/-- What a packet of a map table may be, for the checksum to be that of a whole section. -/
def PmtWhole (p : Packet) (offset program_number : ℕ) (pmt : Option Section) : Prop :=
  sectionStart p offset ≤ pktSize →
    if p.payload_unit_start_indicator then
      ¬skipsSection p (sectionStart p offset) program_number →
        AppendsWhole (sectionStart p offset) (sectionLength p.mem (sectionStart p offset + 5)) 0
    else ∀ s ∈ pmt, AppendsWhole (sectionStart p offset) (sectionLength s.mem 0) s.write

instance : Decidable (PmtWhole p offset program_number pmt) := by
  unfold PmtWhole
  infer_instance

theorem AppendFits.coded_nonneg (h : AppendFits p pkt section_length s r) :
    0 ≤ codedLength pkt section_length s.write := codedLength_nonneg_iff.2 ⟨h.1, h.2.1⟩

theorem AppendFits.copy_le (h : AppendFits p pkt section_length s r) (hlength : section_length < 2 ^ 10) :
    (s.copy p pkt section_length).write ≤ sectionSize := by
  obtain ⟨hle, -, hdone, -⟩ := copy_write (p := p) h.coded_nonneg
  by_cases hreached : section_length + (pkt + 5) ≤ s.write + pktSize
  · exact hle.trans (h.2.2 hreached).2.1
  · have hlt := mt hdone.1 hreached
    unfold sectionSize
    omega

theorem appendSection_eq (h : AppendFits p pkt section_length s r) (hlength : section_length < 2 ^ 10) :
    ∃ accepted, appendSection p pkt section_length s =
      .ok (s.copy p pkt section_length, accepted) := by
  have hpos := h.coded_nonneg
  obtain ⟨-, -, hdone, hsum⟩ := copy_write (p := p) hpos
  have hle := h.copy_le hlength
  obtain ⟨n, hn⟩ := Int.eq_ofNat_of_zero_le hpos
  have hcopy : s.copy p pkt section_length =
      ⟨Memory.memcpy s.mem s.write (fun i => p.mem (pkt + 5 + i)) n, s.write + n⟩ := by
    unfold Section.copy
    rw [coded_toNat hpos codedLength_le, hn]
    rfl
  rw [hcopy] at hle hdone ⊢
  unfold codedLength at hn
  unfold appendSection
  dsimp only at hle hdone ⊢
  rw [hn, Int.toNat_natCast, if_neg (by omega)]
  split_ifs with hlt hzero
  · exact ⟨false, rfl⟩
  · have hreached := hdone.1 (Nat.not_lt.1 hlt)
    exact absurd hzero (h.2.2 hreached).1.ne'
  · exact ⟨_, rfl⟩

/-- The memory after a packet. -/
def nextSection (p : Packet) (offset program_number : ℕ) (pmt : Option Section) : Option Section :=
  let pkt := sectionStart p offset
  if pkt > pktSize then pmt
  else if p.payload_unit_start_indicator then
    if skipsSection p pkt program_number then some (Section.alloc p)
    else some ((Section.alloc p).copy p pkt (sectionLength p.mem (pkt + 5)))
  else pmt.map fun s => s.copy p pkt (sectionLength s.mem 0)

theorem collectSection_eq (h : PmtFits p offset program_number pmt r) :
    ∃ accepted, collectSection p offset program_number pmt =
      .ok (nextSection p offset program_number pmt, accepted) := by
  have hfits := h.2
  unfold collectSection nextSection
  unfold sectionStart at *
  dsimp only
  generalize offset + p.byte (offset + 4) = pkt at *
  by_cases hpkt : pkt > pktSize
  · rw [if_pos hpkt, if_pos hpkt]
    exact ⟨none, rfl⟩
  rw [if_neg hpkt, if_neg hpkt]
  replace hfits := hfits (Nat.not_lt.1 hpkt)
  by_cases hpusi : p.payload_unit_start_indicator = true
  · rw [if_pos hpusi] at hfits
    rw [if_pos hpusi, if_pos hpusi]
    by_cases hskip : skipsSection p pkt program_number
    · rw [if_pos hskip, if_pos hskip]
      exact ⟨none, rfl⟩
    · obtain ⟨accepted, happend⟩ := appendSection_eq (hfits.2 hskip) sectionLength_lt
      rw [if_neg hskip, if_neg hskip, happend]
      exact ⟨_, rfl⟩
  · rw [if_neg hpusi] at hfits
    rw [if_neg hpusi, if_neg hpusi]
    cases pmt with
    | none => exact ⟨none, rfl⟩
    | some s =>
      obtain ⟨accepted, happend⟩ := appendSection_eq (hfits s rfl) sectionLength_lt
      dsimp only
      rw [happend]
      exact ⟨_, rfl⟩

theorem copy_whole_iff (h : AppendFits p pkt section_length s r) :
    (section_length ≤ (s.copy p pkt section_length).write →
        (s.copy p pkt section_length).write = section_length + 3) ↔
      AppendsWhole pkt section_length s.write := by
  obtain ⟨hle, hwhole, hdone, -⟩ := copy_write (p := p) h.coded_nonneg
  unfold AppendsWhole
  rw [hdone, ← hwhole]
  exact imp_congr_right fun _ => ⟨fun heq => heq.ge, fun hge => Nat.le_antisymm hle hge⟩

theorem check_whole_iff {t : Section} :
    (∀ u l, (if t.write < section_length then none else some (t, section_length)) = some (u, l) →
        u.write = l + 3) ↔ (section_length ≤ t.write → t.write = section_length + 3) := by
  by_cases hlt : t.write < section_length
  · rw [if_pos hlt]
    exact iff_of_true (fun u l h => nomatch h) fun hle => absurd hlt (Nat.not_lt.2 hle)
  · rw [if_neg hlt, imp_iff_right (Nat.not_lt.1 hlt)]
    constructor
    · exact fun h => h t section_length rfl
    · intro h u l heq
      obtain ⟨rfl, rfl⟩ := Prod.mk.inj (Option.some.inj heq)
      exact h

theorem checkedSection_whole_iff (h : PmtFits p offset program_number pmt r) :
    (∀ t l, checkedSection p offset program_number pmt = some (t, l) → t.write = l + 3) ↔
      PmtWhole p offset program_number pmt := by
  have hfits := h.2
  unfold checkedSection PmtWhole
  generalize sectionStart p offset = pkt at *
  dsimp only
  by_cases hpkt : pkt > pktSize
  · rw [if_pos hpkt]
    exact iff_of_true (fun t l h => nomatch h) fun hle => absurd hpkt (Nat.not_lt.2 hle)
  rw [if_neg hpkt, imp_iff_right (Nat.not_lt.1 hpkt)]
  replace hfits := hfits (Nat.not_lt.1 hpkt)
  by_cases hpusi : p.payload_unit_start_indicator = true
  · rw [if_pos hpusi] at hfits
    rw [if_pos hpusi, if_pos hpusi]
    by_cases hskip : skipsSection p pkt program_number
    · rw [if_pos hskip]
      exact iff_of_true (fun t l h => nomatch h) fun hno => absurd hskip hno
    · rw [if_neg hskip, imp_iff_right hskip, check_whole_iff]
      exact copy_whole_iff (hfits.2 hskip)
  · rw [if_neg hpusi] at hfits
    rw [if_neg hpusi, if_neg hpusi]
    cases pmt with
    | none => exact iff_of_true (fun t l h => nomatch h) fun s hs => nomatch hs
    | some s =>
      rw [Option.bind_some, check_whole_iff, copy_whole_iff (hfits s rfl)]
      simp only [Option.mem_def, Option.some.injEq, forall_eq']

theorem nextSection_le (h : PmtFits p offset program_number pmt r)
    (hpmt : ∀ s ∈ pmt, s.write ≤ sectionSize) :
    ∀ s ∈ nextSection p offset program_number pmt, s.write ≤ sectionSize := by
  have hfits := h.2
  unfold nextSection
  generalize sectionStart p offset = pkt at *
  dsimp only
  intro s hs
  by_cases hpkt : pkt > pktSize
  · rw [if_pos hpkt] at hs
    exact hpmt s hs
  rw [if_neg hpkt] at hs
  replace hfits := hfits (Nat.not_lt.1 hpkt)
  by_cases hpusi : p.payload_unit_start_indicator = true
  · rw [if_pos hpusi] at hs hfits
    split_ifs at hs with hskip
    · cases hs
      exact Nat.zero_le _
    · cases hs
      exact (hfits.2 hskip).copy_le sectionLength_lt
  · rw [if_neg hpusi] at hs hfits
    obtain ⟨t, ht, rfl⟩ := Option.map_eq_some_iff.1 hs
    exact (hfits t ht).copy_le sectionLength_lt

/-! ## Calls -/

namespace TableCall

variable {call : TableCall} {calls : List TableCall}

/-- What the handlers are made for. -/
def Sound (pmt : Option Section) : TableCall → Prop
  | .pat p _ => p.data_offset ≤ pktSize → PatFits p (p.data_offset - 4)
  | .pmt p program_number r =>
    p.data_offset ≤ pktSize →
      PmtFits p (p.data_offset - 4) program_number pmt r ∧
        PmtWhole p (p.data_offset - 4) program_number pmt

/-- A call stays inside its memory, and the section that it checks is whole. -/
def Handled (pmt : Option Section) (call : TableCall) : Prop :=
  AllInside Area.size (call.spans pmt) ∧
    ∀ s section_length, call.checked pmt = some (s, section_length) → s.write = section_length + 3

/-- What has been written is in the memory. -/
def Written (pmt : Option Section) : Prop := ∀ s ∈ pmt, s.write ≤ sectionSize

theorem handled_iff (hpmt : Written pmt) : call.Handled pmt ↔ call.Sound pmt := by
  cases call with
  | pat p frees =>
    unfold Handled spans checked Sound
    dsimp only
    rw [allInside_if_nil, Nat.not_lt, patSpans_inside_iff]
    exact and_iff_left fun s l h => nomatch h
  | pmt p program_number r =>
    unfold Handled spans checked Sound
    dsimp only
    by_cases hoffset : p.data_offset > pktSize
    · rw [if_pos hoffset, if_pos hoffset]
      exact iff_of_true ⟨allInside_nil, fun s l h => nomatch h⟩
        fun hle => absurd hoffset (Nat.not_lt.2 hle)
    · rw [if_neg hoffset, if_neg hoffset, imp_iff_right (Nat.not_lt.1 hoffset), pmtSpans_inside_iff hpmt]
      exact and_congr_right fun hfits => checkedSection_whole_iff hfits

theorem step_of_sound (hpmt : Written pmt) (h : call.Sound pmt) :
    ∃ next, call.step pmt = some next ∧ Written next := by
  cases call with
  | pat p frees =>
    refine ⟨_, rfl, ?_⟩
    split_ifs
    · exact hpmt
    · exact fun s hs => nomatch hs
    · exact hpmt
  | pmt p program_number r =>
    unfold step
    dsimp only
    by_cases hoffset : p.data_offset > pktSize
    · rw [if_pos hoffset]
      exact ⟨pmt, rfl, hpmt⟩
    · have hfits := (h (Nat.not_lt.1 hoffset)).1
      obtain ⟨accepted, hcollect⟩ := collectSection_eq hfits
      rw [if_neg hoffset, hcollect]
      exact ⟨_, rfl, nextSection_le hfits hpmt⟩

theorem handlers_inside_iff (hpmt : Written pmt) :
    Runs.Guarded (fun pmt call => step pmt call) Sound pmt calls ↔
      ∀ before call after, calls = before ++ call :: after →
        ∃ t, Runs.run (fun pmt call => step pmt call) pmt before = some t ∧ call.Handled t :=
  Runs.guarded_iff_calls (fun _ _ => step_of_sound) (fun _ _ => handled_iff) hpmt

end TableCall

/-! ## Split sections -/

/-- The bytes of a section of the given length, which is a field of the section. -/
structure IsSection (bytes : List Byte) (section_length : ℕ) : Prop where
  length : bytes.length = section_length + 3
  le : section_length + 3 ≤ sectionSize
  field : sectionLength (fun i => bytes.getD i 0) 0 = section_length

/-- The packet has the bytes of the section from `n` on at a place, as many as there are and fit. -/
def HasBytes (p : Packet) (start : ℕ) (bytes : List Byte) (n : ℕ) : Prop :=
  ∀ j < pktSize - start, n + j < bytes.length → p.mem (start + j) = bytes.getD (n + j) 0

/-- The packets continue a section from `n` on: their payloads have its bytes, without a pointer. -/
def Continues (bytes : List Byte) : ℕ → List Packet → Prop
  | _, [] => True
  | n, p :: ps =>
    (p.payload_unit_start_indicator = false ∧ p.data_offset ≤ pktSize ∧ n < bytes.length ∧
      HasBytes p p.data_offset bytes n) ∧ Continues bytes (n + (pktSize - p.data_offset)) ps

/-- The first byte of the section in a packet with a pointer. -/
def Packet.firstByte (p : Packet) : ℕ := sectionStart p (p.data_offset - 4) + 5

/-- A section that is split over packets: the first one has a pointer to it. -/
def Split (bytes : List Byte) : List Packet → Prop
  | [] => False
  | p :: ps =>
    (p.payload_unit_start_indicator = true ∧ p.data_offset ≤ pktSize ∧ p.firstByte < pktSize ∧
      HasBytes p p.firstByte bytes 0) ∧ Continues bytes (pktSize - p.firstByte) ps

/-- No packet but the first one of a section brings it to `section_length` bytes. -/
def TableCall.CompletedFirst (pmt : Option Section) : TableCall → Prop
  | .pat .. => True
  | .pmt p _ _ =>
    p.payload_unit_start_indicator = false → sectionStart p (p.data_offset - 4) ≤ pktSize →
      ∀ s ∈ pmt, sectionLength s.mem 0 + p.firstByte ≤ s.write + pktSize →
        sectionLength s.mem 0 + 3 ≤ s.write

/-- A section whose first packet was skipped or did not complete it. -/
def Section.Pending (s : Section) : Prop :=
  (3 ≤ s.write ∨ sectionLength s.mem 0 = 0) ∧ s.write < sectionLength s.mem 0 + 3

section Splits

variable {bytes : List Byte} {q : Packet} {ps : List Packet}

theorem sectionLength_copy (h : 3 ≤ s.write) :
    sectionLength (s.copy p pkt section_length).mem 0 = sectionLength s.mem 0 := by
  unfold sectionLength Section.copy Memory.memcpy
  dsimp only
  rw [if_neg (by omega), if_neg (by omega)]

theorem Section.Pending.continued (h : s.Pending) (hfits : AppendFits p pkt (sectionLength s.mem 0) s r)
    (hfirst : sectionLength s.mem 0 + (pkt + 5) ≤ s.write + pktSize → sectionLength s.mem 0 + 3 ≤ s.write) :
    (s.copy p pkt (sectionLength s.mem 0)).write < sectionLength s.mem 0 ∧
      (s.copy p pkt (sectionLength s.mem 0)).Pending := by
  obtain ⟨hheader, hwrite⟩ := h
  obtain ⟨-, -, hdone, hsum⟩ := copy_write (p := p) hfits.coded_nonneg
  have hcoded := hfits.coded_nonneg
  have hshort : ¬sectionLength s.mem 0 + (pkt + 5) ≤ s.write + pktSize := fun hle => by
    have hge := hfirst hle
    omega
  have hlt : (s.copy p pkt (sectionLength s.mem 0)).write < sectionLength s.mem 0 := by
    rw [← Nat.not_le, hdone]
    exact hshort
  have hfits := hfits.1
  have hthree : 3 ≤ s.write := hheader.resolve_right fun hzero => by omega
  refine ⟨hlt, ?_⟩
  unfold Section.Pending
  rw [sectionLength_copy hthree]
  omega

theorem IsSection.sectionLength_eq (h : IsSection bytes section_length) {start : ℕ}
    (hbytes : ∀ j < 3, mem (start + j) = bytes.getD j 0) : sectionLength mem start = section_length := by
  rw [← h.field]
  unfold sectionLength
  rw [hbytes 1 (by decide), hbytes 2 (by decide)]

theorem slice_getD (bytes : List Byte) :
    Memory.slice (fun j => bytes.getD j 0) 0 bytes.length = bytes := by
  unfold Memory.slice
  refine List.ext_getElem (by simp) fun j hj hj' => ?_
  rw [List.getElem_map, List.getElem_range, Nat.zero_add]
  exact List.getD_eq_getElem _ _ hj'

/-- The memory has the section, and its length is that of the section. -/
def Section.Is (s : Section) (bytes : List Byte) (section_length : ℕ) : Prop :=
  s.write = section_length + 3 ∧ Memory.slice s.mem 0 s.write = bytes

theorem copy_first (hpos : 0 ≤ codedLength pkt section_length 0) (hS : IsSection bytes section_length)
    (hbytes : HasBytes p (pkt + 5) bytes 0) {j : ℕ}
    (hj : j < ((Section.alloc p).copy p pkt section_length).write) :
    ((Section.alloc p).copy p pkt section_length).mem j = bytes.getD j 0 := by
  obtain ⟨hle, hwhole, -, hsum⟩ := copy_write (s := Section.alloc p) (p := p) hpos
  have hpacket : j < pktSize - (pkt + 5) := by
    have hwrite : (Section.alloc p).write = 0 := rfl
    rw [hwrite] at hsum
    unfold codedLength bodySize at hsum
    unfold pktSize
    omega
  have hlt : 0 + j < bytes.length := by
    rw [hS.length]
    omega
  have hbyte := hbytes j hpacket hlt
  rw [Nat.zero_add] at hbyte
  rw [← hbyte]
  have hcopied : 0 ≤ j ∧ j < 0 + (codedLength pkt section_length 0 % 2 ^ 32).toNat := by
    have hwritten : ((Section.alloc p).copy p pkt section_length).write =
      0 + (codedLength pkt section_length 0 % 2 ^ 32).toNat := rfl
    omega
  change (if 0 ≤ j ∧ j < 0 + (codedLength pkt section_length 0 % 2 ^ 32).toNat then
    p.mem (pkt + 5 + (j - 0)) else _) = _
  rw [if_pos hcopied, Nat.sub_zero]

theorem first_packet (hS : IsSection bytes section_length)
    (hpusi : p.payload_unit_start_indicator = true) (hstart : sectionStart p offset + 5 < pktSize)
    (hbytes : HasBytes p (sectionStart p offset + 5) bytes 0)
    (hfits : PmtFits p offset program_number pmt r) (hwhole : PmtWhole p offset program_number pmt) :
    (∀ s l, checkedSection p offset program_number pmt = some (s, l) →
        l = section_length ∧ s.Is bytes section_length) ∧
      (bytes.length ≤ pktSize - (sectionStart p offset + 5) ∨
        ∃ s, nextSection p offset program_number pmt = some s ∧ s.Pending) := by
  have hfits := hfits.2
  unfold PmtWhole at hwhole
  unfold checkedSection nextSection
  generalize sectionStart p offset = pkt at *
  dsimp only
  have hpkt : ¬pkt > pktSize := by omega
  replace hfits := hfits (Nat.not_lt.1 hpkt)
  replace hwhole := hwhole (Nat.not_lt.1 hpkt)
  rw [if_pos hpusi] at hfits hwhole
  rw [if_neg hpkt, if_neg hpkt, if_pos hpusi, if_pos hpusi]
  by_cases hskip : skipsSection p pkt program_number
  · rw [if_pos hskip, if_pos hskip]
    refine ⟨fun s l h => (nomatch h), .inr ⟨_, rfl, .inr ?_, ?_⟩⟩
    · unfold sectionLength Section.alloc
      dsimp only
      rw [if_pos (by decide), if_pos (by decide)]
      rfl
    · exact Nat.zero_lt_succ _
  rw [if_neg hskip, if_neg hskip]
  have hheader := hfits.1
  have happend := hfits.2 hskip
  have hlength : sectionLength p.mem (pkt + 5) = section_length := by
    refine hS.sectionLength_eq fun j hj => ?_
    have hbyte := hbytes j (by omega) (by rw [hS.length]; omega)
    rwa [Nat.zero_add] at hbyte
  rw [hlength] at happend hwhole ⊢
  have hpos : 0 ≤ codedLength pkt section_length 0 := happend.coded_nonneg
  obtain ⟨hle, hthree, hdone, hsum⟩ := copy_write (s := Section.alloc p) (p := p) hpos
  have hzero : (Section.alloc p).write = 0 := rfl
  have hcopied := fun j hj => copy_first (p := p) hpos hS hbytes (j := j) hj
  rw [hzero] at hthree hdone hsum
  generalize (Section.alloc p).copy p pkt section_length = t at *
  by_cases hreached : section_length + (pkt + 5) ≤ 0 + pktSize
  · have hwrite : t.write = section_length + 3 :=
      Nat.le_antisymm hle (hthree.2 (hwhole hskip hreached))
    rw [if_neg (Nat.not_lt.2 (hdone.2 hreached))]
    constructor
    · intro s l h
      obtain ⟨rfl, rfl⟩ := Prod.mk.inj (Option.some.inj h)
      refine ⟨rfl, hwrite, ?_⟩
      calc Memory.slice t.mem 0 t.write
          = Memory.slice (fun j => bytes.getD j 0) 0 t.write := by
            refine Memory.slice_congr fun j hj => ?_
            rw [Nat.zero_add]
            exact hcopied j hj
        _ = bytes := by
            rw [hwrite, ← hS.length]
            exact slice_getD bytes
    · have hwhole := hwhole hskip hreached
      rw [hS.length]
      omega
  · have hlt : t.write < section_length := Nat.not_le.1 (mt hdone.1 hreached)
    rw [if_pos hlt]
    have hwrite : 3 ≤ t.write := by
      unfold codedLength bodySize at hsum
      unfold pktSize at hheader hreached
      omega
    have hfield : sectionLength t.mem 0 = section_length := by
      refine hS.sectionLength_eq fun j hj => ?_
      rw [Nat.zero_add]
      exact hcopied j (by omega)
    refine ⟨fun s l h => (nomatch h), .inr ⟨t, rfl, .inl hwrite, ?_⟩⟩
    rw [hfield]
    omega

theorem continuing_packet {program_number : ℕ} (hpmt : ∀ s ∈ pmt, s.Pending)
    (hpusi : p.payload_unit_start_indicator = false) (hoffset : p.data_offset ≤ pktSize)
    (hsound : TableCall.Sound pmt (.pmt p program_number r))
    (hfirst : TableCall.CompletedFirst pmt (.pmt p program_number r)) :
    TableCall.checked pmt (.pmt p program_number r) = none ∧
      ∃ next, TableCall.step pmt (.pmt p program_number r) = some next ∧ ∀ s ∈ next, s.Pending := by
  have hfits := (hsound hoffset).1
  obtain ⟨accepted, hcollect⟩ := collectSection_eq hfits
  have hstep : TableCall.step pmt (.pmt p program_number r) =
      some (nextSection p (p.data_offset - 4) program_number pmt) := by
    unfold TableCall.step
    dsimp only
    rw [if_neg (Nat.not_lt.2 hoffset), hcollect]
  have hcontinued : ∀ s ∈ pmt, sectionStart p (p.data_offset - 4) ≤ pktSize →
      (s.copy p (sectionStart p (p.data_offset - 4)) (sectionLength s.mem 0)).write <
          sectionLength s.mem 0 ∧
        (s.copy p (sectionStart p (p.data_offset - 4)) (sectionLength s.mem 0)).Pending := by
    intro s hs hpkt
    have hs' := hfits.2 hpkt
    rw [if_neg (by rw [hpusi]; decide)] at hs'
    exact (hpmt s hs).continued (hs' s hs) (hfirst hpusi hpkt s hs)
  refine ⟨?_, _, hstep, fun t ht => ?_⟩
  · unfold TableCall.checked checkedSection
    dsimp only
    rw [if_neg (Nat.not_lt.2 hoffset)]
    by_cases hpkt : sectionStart p (p.data_offset - 4) > pktSize
    · rw [if_pos hpkt]
    rw [if_neg hpkt, if_neg (by rw [hpusi]; decide)]
    cases pmt with
    | none => rfl
    | some s =>
      rw [Option.bind_some, if_pos (hcontinued s rfl (Nat.not_lt.1 hpkt)).1]
  · unfold nextSection at ht
    dsimp only at ht
    by_cases hpkt : sectionStart p (p.data_offset - 4) > pktSize
    · rw [if_pos hpkt] at ht
      exact hpmt t ht
    rw [if_neg hpkt, if_neg (by rw [hpusi]; decide)] at ht
    obtain ⟨s, hs, rfl⟩ := Option.map_eq_some_iff.1 ht
    exact (hcontinued s hs (Nat.not_lt.1 hpkt)).2

/-- The packets of a section as calls of the handler of map tables. -/
def pmtCalls (program_number : ℕ) (sent : List (Packet × Reader)) : List TableCall :=
  sent.map fun a => .pmt a.1 program_number a.2

/-- The call checks the section, if it checks one. -/
def ChecksSection (bytes : List Byte) (section_length : ℕ) (pmt : Option Section) (call : TableCall) :
    Prop :=
  ∀ s l, call.checked pmt = some (s, l) → l = section_length ∧ s.Is bytes section_length

theorem continuing_packets {n : ℕ} {sent : List (Packet × Reader)} {before : List TableCall}
    {call : TableCall} {after : List TableCall} (hpmt : ∀ s ∈ pmt, s.Pending)
    (hsent : Continues bytes n (sent.map Prod.fst))
    (hok : Runs.Guarded (fun pmt call => TableCall.step pmt call)
      (fun pmt call => call.Sound pmt ∧ call.CompletedFirst pmt) pmt (pmtCalls program_number sent))
    (hcalls : pmtCalls program_number sent = before ++ call :: after) :
    ∃ t, Runs.run (fun pmt call => TableCall.step pmt call) pmt before = some t ∧
      call.checked t = none := by
  induction sent generalizing pmt n before with
  | nil => exact absurd hcalls.symm (by simp [pmtCalls])
  | cons a sent ih =>
    obtain ⟨⟨hpusi, hoffset, -, -⟩, hrest⟩ := hsent
    obtain ⟨⟨hsound, hfirst⟩, hok⟩ := hok
    obtain ⟨hnone, next, hstep, hnext⟩ := continuing_packet hpmt hpusi hoffset hsound hfirst
    cases before with
    | nil =>
      obtain ⟨rfl, -⟩ := List.cons.inj hcalls
      exact ⟨pmt, rfl, hnone⟩
    | cons b before =>
      obtain ⟨rfl, hcalls'⟩ := List.cons.inj hcalls
      obtain ⟨t, ht, hchecked⟩ := ih hnext hrest (hok next hstep) hcalls'
      exact ⟨t, Runs.run_cons_eq_some.2 ⟨next, hstep, ht⟩, hchecked⟩

theorem split_section_checked (hS : IsSection bytes section_length) {sent : List (Packet × Reader)}
    (hsent : Split bytes (sent.map Prod.fst)) {before : List TableCall} {call : TableCall}
    {after : List TableCall}
    (hok : Runs.Guarded (fun pmt call => TableCall.step pmt call)
      (fun pmt call => call.Sound pmt ∧ call.CompletedFirst pmt) pmt (pmtCalls program_number sent))
    (hcalls : pmtCalls program_number sent = before ++ call :: after) :
    ∃ t, Runs.run (fun pmt call => TableCall.step pmt call) pmt before = some t ∧
      ChecksSection bytes section_length t call := by
  cases sent with
  | nil => exact hsent.elim
  | cons a sent =>
    obtain ⟨⟨hpusi, hoffset, hstart, hbytes⟩, hrest⟩ := hsent
    obtain ⟨⟨hsound, -⟩, hok⟩ := hok
    obtain ⟨hfits, hwhole⟩ := hsound hoffset
    obtain ⟨hchecked, hnext⟩ := first_packet hS hpusi hstart hbytes hfits hwhole
    cases before with
    | nil =>
      obtain ⟨rfl, -⟩ := List.cons.inj hcalls
      refine ⟨pmt, rfl, ?_⟩
      unfold ChecksSection TableCall.checked
      dsimp only
      rw [if_neg (Nat.not_lt.2 hoffset)]
      exact hchecked
    | cons b before =>
      obtain ⟨rfl, hcalls'⟩ := List.cons.inj hcalls
      obtain ⟨accepted, hcollect⟩ := collectSection_eq hfits
      have hstep : TableCall.step pmt (.pmt a.1 program_number a.2) =
          some (nextSection a.1 (a.1.data_offset - 4) program_number pmt) := by
        unfold TableCall.step
        dsimp only
        rw [if_neg (Nat.not_lt.2 hoffset), hcollect]
      rcases hnext with hall | ⟨s, hs, hpending⟩
      · -- all bytes are in the first packet, so that it is the only one
        cases sent with
        | nil => exact absurd hcalls'.symm (by simp)
        | cons b sent =>
          obtain ⟨⟨-, -, hlt, -⟩, -⟩ := hrest
          exact absurd hlt (Nat.not_lt.2 hall)
      · have hpmt : ∀ t ∈ nextSection a.1 (a.1.data_offset - 4) program_number pmt, t.Pending := by
          intro t ht
          rw [hs] at ht
          cases ht
          exact hpending
        obtain ⟨t, ht, hnone⟩ := continuing_packets hpmt hrest (hok _ hstep) hcalls'
        refine ⟨t, Runs.run_cons_eq_some.2 ⟨_, hstep, ht⟩, fun u l hu => ?_⟩
        rw [hnone] at hu
        exact nomatch hu

end Splits

/-- In every run the handlers stay inside their memory and check sections with all of their bytes, if and
only if each call meets the condition; and a section that is split over packets is then checked with its own
bytes, when no packet but the first completes it. -/
theorem table_handlers_sound (calls : List TableCall) :
    (Runs.Guarded (fun pmt call => TableCall.step pmt call) TableCall.Sound none calls ↔
      ∀ before call after, calls = before ++ call :: after →
        ∃ t, Runs.run (fun pmt call => TableCall.step pmt call) none before = some t ∧
          call.Handled t) ∧
    ∀ (bytes : List Byte) (section_length : ℕ) (sent : List (Packet × Reader)) (program_number : ℕ)
        (pmt : Option Section), IsSection bytes section_length → Split bytes (sent.map Prod.fst) →
      Runs.Guarded (fun pmt call => TableCall.step pmt call)
        (fun pmt call => call.Sound pmt ∧ call.CompletedFirst pmt) pmt (pmtCalls program_number sent) →
      ∀ before call after, pmtCalls program_number sent = before ++ call :: after →
        ∃ t, Runs.run (fun pmt call => TableCall.step pmt call) pmt before = some t ∧
          ChecksSection bytes section_length t call :=
  ⟨TableCall.handlers_inside_iff fun _ hs => (nomatch hs),
    fun _ _ _ _ _ hS hsent hok _ _ _ => split_section_checked hS hsent hok⟩

/-! ## Packets that do not fit -/

/-- A packet with the given bytes. -/
def packetOf (bytes : List Byte) : Packet := ⟨fun i => bytes.getD i 0xff, 0, fun _ => 0, fun _ => 0⟩

/-- A map table with one video stream. -/
def videoTable : List Byte :=
  [0x02, 0xb0, 18, 0, 1, 0xc1, 0, 0, 0xe1, 0, 0xf0, 0, 0x1b, 0xe1, 0, 0xf0, 0, 0x15, 0xbd, 0x4d, 0x56]

/-- The table in a packet, behind the pointer. -/
def wholeTable : Packet := packetOf ([0x47, 0x41, 0, 0x10, 0] ++ videoTable)

/-- All bytes of the table but the last, behind an adaptation field. -/
def mostOfTable : Packet :=
  packetOf ([0x47, 0x41, 0, 0x30, 162] ++ List.replicate 162 0 ++ [0] ++ videoTable.take 20)

/-- Its last byte. -/
def restOfTable : Packet :=
  packetOf ([0x47, 0x01, 0, 0x31, 182] ++ List.replicate 182 0 ++ videoTable.drop 20)

/-- An association table that says that it is longer than a packet. -/
def longTable : Packet := packetOf [0x47, 0x40, 0, 0x10, 0, 0, 0xb3, 0xff, 0, 1, 0xc0, 0, 0]

/-- The map table in a packet is checked as it is. -/
theorem table_handlers_sound_whole :
    ∃ t, Runs.run (fun pmt call => TableCall.step pmt call) none [] = some t ∧
      ChecksSection videoTable 18 t (.pmt wholeTable 1 ⟨true, 0⟩) :=
  (table_handlers_sound []).2 videoTable 18 [(wholeTable, ⟨true, 0⟩)] 1 none
    ⟨rfl, by decide, by decide⟩ ⟨by unfold HasBytes; decide +kernel, trivial⟩
    ⟨⟨fun _ => ⟨by decide +kernel, by decide +kernel⟩, fun h => absurd h (by decide)⟩, fun _ _ => trivial⟩
    [] _ [] rfl

/-- A table that is split in front of its last byte is checked without it, and an association table is read
behind its packet. -/
theorem section_checked_early :
    (IsSection videoTable 18 ∧ Split videoTable [mostOfTable, restOfTable] ∧
      ((TableCall.pmt mostOfTable 1 ⟨true, 0⟩).checked none).map (fun c => (c.1.write, c.2)) =
        some (20, 18)) ∧
    ¬AllInside Area.size ((TableCall.pat longTable false).spans none) := by
  refine ⟨⟨⟨rfl, by decide, by decide⟩, ⟨?_, ?_, trivial⟩, by decide⟩, by decide⟩
  · unfold HasBytes
    decide
  · unfold HasBytes
    decide

end Xine.DemuxTs
