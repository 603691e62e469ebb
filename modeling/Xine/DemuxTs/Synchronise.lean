import Xine.Library.Runs

/-!
# Synchronisation

`demux_synchronise` of `demux_ts.c`. Its buffer and counters are static, so all demuxers of the process share them. A
byte behind those that were read is `none`.
-/

namespace Xine.DemuxTs.Sync

open Runs (run Guarded)

abbrev Byte := BitVec 8

def PKT_SIZE : ℕ := 188
def SYNC_BYTE : Byte := 0x47
def MIN_SYNCS : ℕ := 3
def NPKT_PER_READ : ℕ := 100

/-- The bytes to come, how many packets each read returns at most, and how many reads in a row had nothing. -/
structure Input where
  bytes : List Byte
  sizes : List ℕ
  zeros : ℕ

def Input.read (this : Input) (n : ℕ) : List Byte × Input :=
  let got := this.bytes.take (min (PKT_SIZE * this.sizes.headD 0) n)
  (got, ⟨this.bytes.drop got.length, this.sizes.tail, if got = [] then this.zeros + 1 else 0⟩)

/-- The static variables; of the buffer, what the current read has filled. -/
structure Statics where
  packet_number : ℕ
  npkt_read : ℕ
  read_zero : ℕ
  buf : List Byte

/-- The loop that looks ahead from an offset. -/
def syncLoop (buf : List Byte) : ℕ → ℕ → Option Bool
  | 0, _ => some true
  | left + 1, offset => buf[offset]?.bind fun b =>
    if b ≠ SYNC_BYTE then some false else syncLoop buf left (offset + PKT_SIZE)

/-- The loops over `p` and `n`, which pass the offsets `n + p * PKT_SIZE` in order. -/
def searchLoop (buf : List Byte) (npkt_read : ℕ) : ℕ → ℕ → Option (Option ℕ)
  | 0, _ => some none
  | left + 1, offset => (syncLoop buf (min MIN_SYNCS (npkt_read - offset / PKT_SIZE)) offset).bind fun sync_ok =>
    if sync_ok then some (some offset) else searchLoop buf npkt_read left (offset + 1)

def syncCorrect (s : Statics) (input : Input) : Option (Bool × Statics × Input) :=
  (searchLoop s.buf s.npkt_read (PKT_SIZE * s.npkt_read) 0).map fun
    | none => (false, s, input)
    | some offset =>
      let (got, input) := input.read offset
      let moved := s.buf.drop offset ++ got
      (decide (got.length = offset), { s with buf := moved ++ s.buf.drop moved.length }, input)

def syncDetect (s : Statics) (input : Input) : Option (Bool × Statics × Input) :=
  (syncLoop s.buf (min MIN_SYNCS s.npkt_read) 0).bind fun sync_ok =>
    if sync_ok then some (true, s, input) else syncCorrect s input

/-- The loop that reads until there is something; `false` finishes the stream. -/
def readLoop : ℕ → Statics → Input → Bool × Statics × Input
  | 0, s, input => (false, s, input)
  | fuel + 1, s, input =>
    let (got, input) := input.read (PKT_SIZE * NPKT_PER_READ)
    if got.length % PKT_SIZE ≠ 0 then (false, { s with buf := got }, input)
    else
      let npkt_read := got.length / PKT_SIZE
      let s := { s with npkt_read, read_zero := if npkt_read = 0 then s.read_zero + 1 else 0, buf := got }
      if 200 < s.read_zero then (false, s, input)
      else if got = [] then readLoop fuel s input
      else (true, s, input)

def nextPacket (s : Statics) : Option (List Byte × Statics) :=
  if PKT_SIZE * (s.packet_number + 1) ≤ s.buf.length then
    some ((s.buf.drop (PKT_SIZE * s.packet_number)).take PKT_SIZE, { s with packet_number := s.packet_number + 1 })
  else none

def demuxSynchronise (s : Statics) (input : Input) : Option (Option (List Byte) × Statics × Input) :=
  if s.npkt_read ≤ s.packet_number then
    let (ok, s, input) := readLoop 202 s input
    if ok then
      (syncDetect { s with packet_number := 0 } input).bind fun (ok, s, input) =>
        if ok then (nextPacket s).map fun (packet, s) => (some packet, s, input) else some (none, s, input)
    else some (none, s, input)
  else (nextPacket s).map fun (packet, s) => (some packet, s, input)

/-! ## Looking for an offset -/

variable {buf : List Byte} {s s' : Statics} {input input' : Input} {offset n fuel : ℕ} {ok : Bool}

/-- The next packets of a buffer, of those that are left, start with the sync byte. -/
def Synced (buf : List Byte) (offset : ℕ) : Prop :=
  ∀ i < min MIN_SYNCS (buf.length / PKT_SIZE - offset / PKT_SIZE), buf[offset + i * PKT_SIZE]? = some SYNC_BYTE

def IsFirst (buf : List Byte) (offset : ℕ) : Prop :=
  offset < buf.length ∧ Synced buf offset ∧ ∀ k < offset, ¬Synced buf k

theorem syncLoop_spec {left : ℕ} (hinside : ∀ j < left, offset + j * PKT_SIZE < buf.length) :
    ∃ ok, syncLoop buf left offset = some ok ∧
      (ok = true ↔ ∀ j < left, buf[offset + j * PKT_SIZE]? = some SYNC_BYTE) := by
  induction left generalizing offset with
  | zero => exact ⟨true, rfl, iff_of_true rfl fun j hj => absurd hj (Nat.not_lt_zero j)⟩
  | succ left ih =>
    have hsucc (j : ℕ) : offset + PKT_SIZE + j * PKT_SIZE = offset + (j + 1) * PKT_SIZE := by
      rw [Nat.succ_mul]
      omega
    have h0 := hinside 0 (Nat.succ_pos left)
    rw [Nat.zero_mul, Nat.add_zero] at h0
    rw [syncLoop, List.getElem?_eq_getElem h0, Option.bind_some]
    by_cases hsync : buf[offset] = SYNC_BYTE
    · rw [if_neg (not_not.2 hsync)]
      obtain ⟨ok, heq, hok⟩ := @ih (offset + PKT_SIZE) fun j hj => by
        rw [hsucc]
        exact hinside (j + 1) (Nat.succ_lt_succ hj)
      simp only [hsucc] at hok
      refine ⟨ok, heq, hok.trans ⟨fun h j hj => ?_, fun h j hj => h (j + 1) (Nat.succ_lt_succ hj)⟩⟩
      cases j with
      | zero => rw [Nat.zero_mul, Nat.add_zero, List.getElem?_eq_getElem h0, hsync]
      | succ j => exact h j (Nat.lt_of_succ_lt_succ hj)
    · rw [if_pos hsync]
      refine ⟨false, rfl, iff_of_false Bool.false_ne_true fun h => hsync ?_⟩
      have hfirst := h 0 (Nat.succ_pos left)
      rw [Nat.zero_mul, Nat.add_zero, List.getElem?_eq_getElem h0] at hfirst
      exact Option.some.inj hfirst

/-- The look ahead from an offset of a buffer of whole packets. -/
theorem syncLoop_iff (hbuf : buf.length = PKT_SIZE * n) (_ : offset < buf.length) :
    ∃ ok, syncLoop buf (min MIN_SYNCS (n - offset / PKT_SIZE)) offset = some ok ∧ (ok = true ↔ Synced buf offset) := by
  have hn : buf.length / PKT_SIZE = n := by
    rw [hbuf]
    exact Nat.mul_div_cancel_left n (by decide)
  unfold Synced
  rw [hn]
  refine syncLoop_spec fun j hj => ?_
  unfold PKT_SIZE at *
  omega

theorem searchLoop_spec (hbuf : buf.length = PKT_SIZE * n) {left : ℕ} (hleft : offset + left = buf.length)
    (hbefore : ∀ k < offset, ¬Synced buf k) : ∃ r, searchLoop buf n left offset = some r ∧
      (∀ k, r = some k → IsFirst buf k) ∧ (r = none → ∀ k < buf.length, ¬Synced buf k) := by
  induction left generalizing offset with
  | zero => exact ⟨none, rfl, nofun, fun _ k hk => hbefore k (by omega)⟩
  | succ left ih =>
    obtain ⟨ok, heq, hok⟩ := syncLoop_iff hbuf (show offset < buf.length by omega)
    rw [searchLoop, heq, Option.bind_some]
    cases ok with
    | true =>
      refine ⟨some offset, rfl, fun k hk => ?_, nofun⟩
      cases hk
      exact ⟨by omega, hok.1 rfl, hbefore⟩
    | false =>
      refine ih (by omega) fun k hk hsynced => ?_
      rcases Nat.lt_succ_iff_lt_or_eq.1 hk with hk | rfl
      · exact hbefore k hk hsynced
      · exact Bool.false_ne_true (hok.2 hsynced)

/-! ## A call -/

/-- The packets that the buffer still holds. -/
def Statics.pending (s : Statics) : List Byte :=
  if s.packet_number < s.npkt_read then s.buf.drop (PKT_SIZE * s.packet_number) else []

def Statics.Whole (s : Statics) : Prop :=
  s.packet_number < s.npkt_read → s.buf.length = PKT_SIZE * s.npkt_read

/-- The sizes of the reads from the first one on that may have something, and what that read returns. -/
def Input.firstSizes (this : Input) : List ℕ := this.sizes.dropWhile (· = 0)
def Input.firstRead (this : Input) : List Byte :=
  this.bytes.take (min (PKT_SIZE * this.firstSizes.headD 0) (PKT_SIZE * NPKT_PER_READ))

/-- A call of a demuxer: its own packets in the buffer and its input, the result, and both behind it. -/
structure Call where
  pending : List Byte
  input : Input
  result : Option (List Byte)
  pending' : List Byte
  input' : Input

/-- The demuxer gets the next of its packets in the buffer. If there is none, it gets the first packet of what the next
read returns, from the first offset on that is synchronised, and as many bytes are read behind; or it finishes, as the
input ends or there is no such offset. -/
def Call.Right (c : Call) : Prop :=
  if c.pending = [] then
    let chunk := c.input.firstRead
    let rest := c.input.bytes.drop chunk.length
    match c.result with
    | some packet => packet.length = PKT_SIZE ∧ ∃ offset, IsFirst chunk offset ∧
        packet ++ c.pending' = chunk.drop offset ++ rest.take offset ∧ offset ≤ rest.length ∧
          c.input'.bytes = rest.drop offset
    | none => chunk.length % PKT_SIZE ≠ 0 ∨ 200 < c.input'.zeros ∨ (∀ k < chunk.length, ¬Synced chunk k) ∧ chunk ≠ [] ∨
        ∃ offset, IsFirst chunk offset ∧ rest.length < offset
  else ∃ packet, c.result = some packet ∧ packet.length = PKT_SIZE ∧ c.pending = packet ++ c.pending' ∧ c.input' = c.input

/-- A call that reads counts the reads without anything from 0 on, or its first read has something; and the read that
makes up for what is dropped is complete, unless the input ends. -/
def Ready (s : Statics) (input : Input) : Prop :=
  s.npkt_read ≤ s.packet_number →
    (s.read_zero = 0 ∨ (input.read (PKT_SIZE * NPKT_PER_READ)).1 ≠ []) ∧
      ∀ offset, IsFirst input.firstRead offset →
        offset ≤ PKT_SIZE * input.firstSizes.tail.headD 0 ∨ (input.bytes.drop input.firstRead.length).length < offset

theorem nextPacket_spec (hwhole : s.Whole) (hlt : s.packet_number < s.npkt_read) :
    ∃ packet s', nextPacket s = some (packet, s') ∧ packet.length = PKT_SIZE ∧ s'.Whole ∧
      packet ++ s'.pending = s.buf.drop (PKT_SIZE * s.packet_number) := by
  have hbuf := hwhole hlt
  have hsize : PKT_SIZE = 188 := rfl
  have hmul : PKT_SIZE * (s.packet_number + 1) ≤ PKT_SIZE * s.npkt_read := Nat.mul_le_mul_left _ hlt
  refine ⟨_, _, if_pos (hbuf ▸ hmul), ?_, fun _ => hbuf, ?_⟩
  · rw [List.length_take, List.length_drop, hbuf]
    rw [Nat.mul_succ] at hmul
    omega
  · unfold Statics.pending
    dsimp only
    split
    · rw [Nat.mul_succ, ← List.drop_drop, List.take_append_drop]
    · have hlast : s.packet_number + 1 = s.npkt_read := by omega
      rw [List.append_nil, List.take_of_length_le]
      rw [List.length_drop, hbuf, ← hlast, Nat.mul_succ]
      omega

theorem read_firstRead (h : (input.read (PKT_SIZE * NPKT_PER_READ)).1 ≠ []) :
    (input.read (PKT_SIZE * NPKT_PER_READ)).1 = input.firstRead ∧ input.firstSizes = input.sizes := by
  unfold Input.read Input.firstRead Input.firstSizes at *
  dsimp only at *
  cases hsizes : input.sizes with
  | nil => exact ⟨rfl, rfl⟩
  | cons size sizes =>
    rw [hsizes] at h
    have hne : size ≠ 0 := by
      rintro rfl
      exact h (by rw [List.headD_cons, Nat.mul_zero, Nat.zero_min, List.take_zero])
    rw [List.dropWhile_cons_of_neg (by simpa using hne)]
    exact ⟨rfl, rfl⟩

/-- A read without anything leaves the first one that has something as it is. -/
theorem read_nothing (h : (input.read (PKT_SIZE * NPKT_PER_READ)).1 = []) (zeros : ℕ) :
    (Input.mk input.bytes input.sizes.tail zeros).firstRead = input.firstRead ∧
      (input.firstRead ≠ [] → (Input.mk input.bytes input.sizes.tail zeros).firstSizes = input.firstSizes) := by
  unfold Input.read Input.firstRead Input.firstSizes at *
  dsimp only at *
  cases hsizes : input.sizes with
  | nil => exact ⟨rfl, fun _ => rfl⟩
  | cons size sizes =>
    by_cases hzero : size = 0
    · rw [List.dropWhile_cons_of_pos (by simpa using hzero)]
      exact ⟨rfl, fun _ => rfl⟩
    · rw [hsizes] at h
      have hbytes : input.bytes = [] := by
        rcases List.take_eq_nil_iff.1 h with hmin | hnil
        · have hsize : PKT_SIZE = 188 := rfl
          have hnpkt : NPKT_PER_READ = 100 := rfl
          rw [List.headD_cons, hsize, hnpkt] at hmin
          omega
        · exact hnil
      rw [hbytes, List.take_nil, List.take_nil]
      exact ⟨rfl, fun hne => absurd rfl hne⟩

/-- The loop ends with what the first read that has something returns, or the input ends. -/
theorem readLoop_spec (hstart : s.read_zero ≤ input.zeros ∧ s.read_zero ≤ 200 ∧ 202 ≤ s.read_zero + fuel ∨
      (input.read (PKT_SIZE * NPKT_PER_READ)).1 ≠ [] ∧ 0 < fuel) :
    ∃ s' input', (readLoop fuel s input = (true, s', input') ∧ s'.buf = input.firstRead ∧ s'.buf ≠ [] ∧
        s'.buf.length = PKT_SIZE * s'.npkt_read ∧ input'.bytes = input.bytes.drop input.firstRead.length ∧
        input'.sizes = input.firstSizes.tail) ∨
      (readLoop fuel s input = (false, s', input') ∧ s'.packet_number = s.packet_number ∧
        (s'.npkt_read = 0 ∨ s'.npkt_read = s.npkt_read) ∧
        (input.firstRead.length % PKT_SIZE ≠ 0 ∨ 200 < input'.zeros)) := by
  induction fuel generalizing s input with
  | zero => omega
  | succ fuel ih =>
    rw [readLoop]
    by_cases hgot : (input.read (PKT_SIZE * NPKT_PER_READ)).1 = []
    · obtain ⟨hzeros, hle, hfuel⟩ := hstart.resolve_right fun h => h.1 hgot
      have hread : input.read (PKT_SIZE * NPKT_PER_READ) = ([], ⟨input.bytes, input.sizes.tail, input.zeros + 1⟩) := by
        unfold Input.read at hgot ⊢
        dsimp only at hgot ⊢
        rw [hgot, if_pos rfl]
        rfl
      simp only [hread, List.length_nil, Nat.zero_mod, ne_eq, not_true, if_false, Nat.zero_div, if_true]
      split
      · exact ⟨_, _, .inr ⟨rfl, rfl, .inl rfl, .inr (show 200 < input.zeros + 1 by omega)⟩⟩
      · rename_i hle'
        obtain ⟨hfirst, hsizes⟩ := read_nothing hgot (input.zeros + 1)
        obtain ⟨s', input', h⟩ := @ih { s with npkt_read := 0, read_zero := s.read_zero + 1, buf := [] }
          ⟨input.bytes, input.sizes.tail, input.zeros + 1⟩ (.inl ⟨Nat.succ_le_succ hzeros, Nat.le_of_not_lt hle', by
            dsimp only
            omega⟩)
        rw [hfirst] at h
        refine ⟨s', input', h.imp ?_ ?_⟩
        · rintro ⟨heq, hbuf, hne, hlen, hbytes, htail⟩
          exact ⟨heq, hbuf, hne, hlen, hbytes, htail.trans (congrArg List.tail (hsizes (hbuf ▸ hne)))⟩
        · rintro ⟨heq, hnumber, hnpkt, hend⟩
          exact ⟨heq, hnumber, .inl (hnpkt.elim id id), hend⟩
    · obtain ⟨hfirst, hsizes⟩ := read_firstRead hgot
      have hbytes : (input.read (PKT_SIZE * NPKT_PER_READ)).2.bytes = input.bytes.drop input.firstRead.length := by
        rw [← hfirst]
        rfl
      have htail : (input.read (PKT_SIZE * NPKT_PER_READ)).2.sizes = input.firstSizes.tail := by
        rw [hsizes]
        rfl
      generalize input.read (PKT_SIZE * NPKT_PER_READ) = r at *
      obtain ⟨got, rest⟩ := r
      dsimp only at hfirst hbytes htail hgot ⊢
      subst hfirst
      by_cases hmod : input.firstRead.length % PKT_SIZE = 0
      · have hlen : input.firstRead.length = PKT_SIZE * (input.firstRead.length / PKT_SIZE) :=
          (Nat.mul_div_cancel' (Nat.dvd_of_mod_eq_zero hmod)).symm
        have hpos : input.firstRead.length / PKT_SIZE ≠ 0 := fun h => hgot (List.eq_nil_of_length_eq_zero (by
          rw [hlen, h, Nat.mul_zero]))
        rw [if_neg (not_not.2 hmod), if_neg hpos, if_neg (by omega), if_neg hgot]
        exact ⟨_, _, .inl ⟨rfl, rfl, hgot, hlen, hbytes, htail⟩⟩
      · rw [if_pos hmod]
        exact ⟨_, _, .inr ⟨rfl, rfl, .inr rfl, .inl hmod⟩⟩

theorem syncDetect_spec (hbuf : s.buf.length = PKT_SIZE * s.npkt_read) (hne : s.buf ≠ [])
    (hrefill : ∀ offset, IsFirst s.buf offset → offset ≤ PKT_SIZE * input.sizes.headD 0 ∨ input.bytes.length < offset) :
    ∃ s' input', s'.packet_number = s.packet_number ∧ s'.npkt_read = s.npkt_read ∧ s'.buf.length = s.buf.length ∧
      ((syncDetect s input = some (true, s', input') ∧ ∃ offset, IsFirst s.buf offset ∧ offset ≤ input.bytes.length ∧
          s'.buf = s.buf.drop offset ++ input.bytes.take offset ∧ input'.bytes = input.bytes.drop offset) ∨
        (syncDetect s input = some (false, s', input') ∧ ((∀ k < s.buf.length, ¬Synced s.buf k) ∨
          ∃ offset, IsFirst s.buf offset ∧ input.bytes.length < offset))) := by
  have hpos : 0 < s.buf.length := List.length_pos_of_ne_nil hne
  obtain ⟨ok, hloop, hok⟩ := syncLoop_iff hbuf hpos
  rw [Nat.zero_div, Nat.sub_zero] at hloop
  unfold syncDetect
  rw [hloop, Option.bind_some]
  cases ok with
  | true =>
    refine ⟨s, input, rfl, rfl, rfl, .inl ⟨rfl, 0, ⟨hpos, hok.1 rfl, fun k hk => absurd hk (Nat.not_lt_zero k)⟩, ?_⟩⟩
    exact ⟨Nat.zero_le _, by rw [List.drop_zero, List.take_zero, List.append_nil], rfl⟩
  | false =>
    obtain ⟨r, hsearch, hsome, hnone⟩ := searchLoop_spec hbuf (Nat.zero_add _) fun k hk => absurd hk (Nat.not_lt_zero k)
    rw [if_neg Bool.false_ne_true]
    unfold syncCorrect
    rw [← hbuf, hsearch, Option.map_some]
    cases r with
    | none => exact ⟨s, input, rfl, rfl, rfl, .inr ⟨rfl, .inl (hnone rfl)⟩⟩
    | some offset =>
      dsimp only
      have hfirst := hsome offset rfl
      have hinside := hfirst.1
      have hgot : (input.read offset).1.length = min (min (PKT_SIZE * input.sizes.headD 0) offset) input.bytes.length :=
        List.length_take
      have hlen : (s.buf.drop offset ++ (input.read offset).1).length ≤ s.buf.length := by
        rw [List.length_append, List.length_drop, hgot]
        omega
      generalize hmoved : s.buf.drop offset ++ (input.read offset).1 = moved at hlen
      refine ⟨{ s with buf := moved ++ s.buf.drop moved.length }, (input.read offset).2, rfl, rfl, ?_, ?_⟩
      · rw [List.length_append, List.length_drop]
        exact Nat.add_sub_cancel' hlen
      · by_cases hall : offset ≤ input.bytes.length
        · have hsize : offset ≤ PKT_SIZE * input.sizes.headD 0 := (hrefill offset hfirst).resolve_right (by omega)
          have hread : (input.read offset).1 = input.bytes.take offset := by
            unfold Input.read
            dsimp only
            rw [Nat.min_eq_right hsize]
          have hfull : (input.read offset).1.length = offset := by rw [hgot]; omega
          refine .inl ⟨by rw [decide_eq_true hfull], offset, hfirst, hall, ?_, ?_⟩
          · rw [List.drop_eq_nil_of_le, List.append_nil, ← hmoved, hread]
            rw [← hmoved, List.length_append, List.length_drop, hfull]
            omega
          · exact congrArg (input.bytes.drop ·) hfull
        · refine .inr ⟨?_, .inr ⟨offset, hfirst, by omega⟩⟩
          rw [decide_eq_false (by rw [hgot]; omega)]

/-- A call of a demuxer whose packets, if any, are those in the buffer. -/
theorem call_right (hwhole : s.Whole) (hready : Ready s input) : ∃ result s' input',
    demuxSynchronise s input = some (result, s', input') ∧ s'.Whole ∧
      Call.Right ⟨s.pending, input, result, s'.pending, input'⟩ := by
  unfold demuxSynchronise
  by_cases hempty : s.npkt_read ≤ s.packet_number
  · have hpending : s.pending = [] := if_neg (Nat.not_lt.2 hempty)
    obtain ⟨hstart, hrefill⟩ := hready hempty
    rw [if_pos hempty]
    obtain ⟨s₁, input₁, ⟨hloop, hbuf, hne, hlen, hbytes, hsizes⟩ | ⟨hloop, hnumber, hnpkt, hend⟩⟩ :=
      @readLoop_spec s input 202 (hstart.imp (fun h => ⟨by omega, by omega, by omega⟩) fun h => ⟨h, by decide⟩)
    · rw [hloop]
      dsimp only
      rw [if_pos rfl]
      rw [← hbytes, ← hbuf, ← hsizes] at hrefill
      obtain ⟨s₂, input₂, hnumber, hnpkt, hlen₂, ⟨hdetect, offset, hfirst, hall, hbuf₂, hbytes₂⟩ | ⟨hdetect, hend⟩⟩ :=
        @syncDetect_spec { s₁ with packet_number := 0 } input₁ hlen hne hrefill
      · have hwhole₂ : s₂.Whole := fun _ => (hlen₂.trans hlen).trans (congrArg _ hnpkt.symm)
        have hpos : s₂.packet_number < s₂.npkt_read := by
          rw [hnumber, hnpkt]
          refine Nat.pos_of_ne_zero fun hzero => hne (List.eq_nil_of_length_eq_zero ?_)
          rw [hlen, show s₁.npkt_read = 0 from hzero, Nat.mul_zero]
        obtain ⟨packet, s₃, hnext, hsize, hwhole₃, heq⟩ := nextPacket_spec hwhole₂ hpos
        rw [hnumber, Nat.mul_zero, List.drop_zero, hbuf₂] at heq
        rw [hdetect, Option.bind_some, if_pos rfl, hnext]
        refine ⟨_, _, _, rfl, hwhole₃, ?_⟩
        rw [Call.Right, if_pos hpending]
        dsimp only
        rw [← hbytes, ← hbuf]
        exact ⟨hsize, offset, hfirst, heq, hall, hbytes₂⟩
      · rw [hdetect]
        refine ⟨_, _, _, rfl, fun _ => (hlen₂.trans hlen).trans (congrArg _ hnpkt.symm), ?_⟩
        rw [Call.Right, if_pos hpending]
        dsimp only
        rw [← hbytes, ← hbuf]
        exact .inr (.inr (hend.imp (fun h => ⟨h, hne⟩) id))
    · rw [hloop]
      refine ⟨_, _, _, rfl, fun hlt => absurd hlt (by omega), ?_⟩
      rw [Call.Right, if_pos hpending]
      exact hend.imp id .inl
  · obtain ⟨packet, s', hnext, hsize, hwhole', heq⟩ := nextPacket_spec hwhole (Nat.not_le.1 hempty)
    have hpending : s.pending = packet ++ s'.pending := (if_pos (Nat.not_le.1 hempty)).trans heq.symm
    have hne : s.pending ≠ [] := by
      rw [hpending]
      exact List.append_ne_nil_of_left_ne_nil (List.ne_nil_of_length_pos (by rw [hsize]; decide)) _
    rw [if_neg hempty, hnext]
    refine ⟨_, _, _, rfl, hwhole', ?_⟩
    rw [Call.Right, if_neg hne]
    exact ⟨packet, rfl, hsize, hpending, rfl⟩

/-! ## Runs of several demuxers -/

/-- The demuxers by their numbers, the one that was called last, and what each has been given. -/
structure World where
  statics : Statics
  owner : Option ℕ
  input : ℕ → Input
  finished : ℕ → Bool
  log : ℕ → List Call

def World.pending (w : World) (d : ℕ) : List Byte := if w.owner = some d then w.statics.pending else []

def World.start (inputs : ℕ → Input) : World := ⟨⟨0, 0, 0, []⟩, none, inputs, fun _ => false, fun _ => []⟩

/-- A call of a demuxer. -/
def step (w : World) (d : ℕ) : Option World :=
  (demuxSynchronise w.statics (w.input d)).map fun (result, s, input) =>
    { statics := s
      owner := some d
      input := Function.update w.input d input
      finished := Function.update w.finished d result.isNone
      log := Function.update w.log d (w.log d ++ [⟨w.pending d, w.input d, result, s.pending, input⟩]) }

/-- The demuxer has not finished, and the buffer holds no packets of another one. -/
def Alone (w : World) (d : ℕ) : Prop :=
  w.finished d = false ∧ (w.owner = some d ∨ w.statics.npkt_read ≤ w.statics.packet_number) ∧
    Ready w.statics (w.input d)

/-- Each call goes on where the one before it ended. -/
def Chained : List Byte × Input → List Call → List Byte × Input → Prop
  | s, [], t => s = t
  | s, c :: calls, t => s = (c.pending, c.input) ∧ Chained (c.pending', c.input') calls t

structure Served (inputs : ℕ → Input) (w : World) : Prop where
  whole : w.statics.Whole
  right : ∀ d, ∀ c ∈ w.log d, c.Right
  chained : ∀ d, Chained ([], inputs d) (w.log d) (w.pending d, w.input d)

theorem Chained.concat {s t : List Byte × Input} {calls : List Call} {c : Call} (h : Chained s calls t)
    (ht : t = (c.pending, c.input)) : Chained s (calls ++ [c]) (c.pending', c.input') := by
  induction calls generalizing s with
  | nil => exact ⟨Eq.trans h ht, rfl⟩
  | cons _ calls ih => exact ⟨h.1, ih h.2⟩

theorem served_step {inputs : ℕ → Input} {w : World} {d : ℕ} (h : Served inputs w) (halone : Alone w d) :
    ∃ w', step w d = some w' ∧ Served inputs w' := by
  obtain ⟨-, howner, hready⟩ := halone
  have hpending (hne : ¬w.owner = some d) : w.statics.pending = [] :=
    if_neg (Nat.not_lt.2 (howner.resolve_left hne))
  have hown : w.pending d = w.statics.pending := by
    unfold World.pending
    split
    · rfl
    · rename_i hne
      exact (hpending hne).symm
  obtain ⟨result, s, input, heq, hwhole, hright⟩ := call_right h.whole hready
  unfold step
  rw [heq, hown]
  refine ⟨_, rfl, hwhole, fun e c hc => ?_, fun e => ?_⟩
  · by_cases he : e = d
    · subst he
      dsimp only at hc
      rw [Function.update_self] at hc
      rcases List.mem_append.1 hc with hc | hc
      · exact h.right e c hc
      · rw [List.mem_singleton.1 hc]
        exact hright
    · dsimp only at hc
      rw [Function.update_of_ne he] at hc
      exact h.right e c hc
  · by_cases he : e = d
    · subst he
      unfold World.pending
      dsimp only
      rw [Function.update_self, Function.update_self, if_pos rfl]
      exact (h.chained e).concat (by rw [hown])
    · have hsame : w.pending e = [] := by
        unfold World.pending
        split
        · rename_i howner'
          exact hpending fun h => he (Option.some.inj (howner'.symm.trans h))
        · rfl
      have hchained := h.chained e
      rw [hsame] at hchained
      unfold World.pending
      dsimp only
      rw [Function.update_of_ne he, Function.update_of_ne he, if_neg fun h => he (Option.some.inj h).symm]
      exact hchained

/-- A demuxer with two packets, and one without any. -/
def twoDemuxers (d : ℕ) : Input :=
  if d = 0 then ⟨(SYNC_BYTE :: List.replicate 187 0) ++ SYNC_BYTE :: List.replicate 187 0, [2], 0⟩ else ⟨[], [], 0⟩

end Xine.DemuxTs.Sync
