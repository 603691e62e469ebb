import Xine.MpegBlock.Pack

/-!
# What becomes of a block

Each block is disposed of once. That its headers are read inside it and that its buffer lies in it has to be promised
by its content: nothing compares a length with the size of the block.
-/

namespace Xine.MpegBlock

open Octets (Byte)

variable {K : ℤ × Demuxer → Option Demuxer} {block : List Byte} {p n a skip l : ℕ} {ds : List Disposal} {this : Demuxer}

/-- What is put lies in a block of `n` bytes. -/
def Buf.Inside (n : ℕ) (buf : Buf) : Prop := 0 ≤ buf.size ∧ buf.content + buf.size ≤ n

def Disposal.Inside (n : ℕ) : Disposal → Prop
  | put _ buf => buf.Inside n
  | freed => True

/-- A handler, and what follows if it goes on, has disposed of the buffer after the disposals `ds`. -/
def Disposes (K : ℤ × Demuxer → Option Demuxer) (n : ℕ) (ds : List Disposal) (x : Option (ℤ × Demuxer)) : Prop :=
  ∃ t d, (x.bind fun r => if r.1 < 0 then some r.2 else K r) = some t ∧ t.disposals = ds ++ [d] ∧ d.Inside n

/-! ## Bytes with a default -/

/-- The byte at an offset. -/
def at' (block : List Byte) (p : ℕ) : ℕ := (block.getD p 0).toNat

def wordAt (block : List Byte) (p : ℕ) : ℕ := at' block p <<< 8 ||| at' block (p + 1)

def clockAt (block : List Byte) (p : ℕ) : Clock :=
  ⟨block.getD p 0, block.getD (p + 1) 0, block.getD (p + 2) 0, block.getD (p + 3) 0, block.getD (p + 4) 0⟩

/-- The number of the bytes from an offset on that are stuffing. -/
def stuffed (block : List Byte) (p : ℕ) : ℕ :=
  ((block.drop p).takeWhile fun b => b.toNat &&& 0x80 = 0x80).length

theorem byte_eq (block : List Byte) (p : ℕ) :
    byte block p = if p < block.length then some (at' block p) else none := by
  unfold byte at'
  rw [List.getD_eq_getElem?_getD]
  split
  · rename_i h
    rw [List.getElem?_eq_getElem h, Option.map_some, Option.getD_some]
  · rename_i h
    rw [List.getElem?_eq_none (Nat.le_of_not_lt h), Option.map_none]

theorem word_eq (block : List Byte) (p : ℕ) :
    word block p = if p + 2 ≤ block.length then some (wordAt block p) else none := by
  unfold word wordAt
  simp only [byte_eq]
  by_cases h : p + 1 < block.length
  · rw [if_pos (by omega), if_pos h, if_pos (show p + 2 ≤ block.length from h)]
    rfl
  · rw [if_neg h, if_neg (show ¬p + 2 ≤ block.length from h)]
    split <;> rfl

theorem clock_eq (block : List Byte) (p : ℕ) :
    clock block p = if p + 5 ≤ block.length then some (clockAt block p) else none := by
  have hget (i : ℕ) : block.getD (p + i) 0 = (block.drop p).getD i 0 := by
    rw [List.getD_eq_getElem?_getD, List.getD_eq_getElem?_getD, List.getElem?_drop]
  have hlength : (block.drop p).length = block.length - p := List.length_drop
  have hzero := hget 0
  rw [Nat.add_zero] at hzero
  unfold clock clockAt
  rw [hzero, hget 1, hget 2, hget 3, hget 4]
  split
  · rename_i b0 b1 b2 b3 b4 rest heq
    rw [heq] at hlength ⊢
    simp only [List.length_cons] at hlength
    rw [if_pos (by omega)]
    rfl
  · rename_i hshort
    refine (if_neg fun h => ?_).symm
    obtain ⟨b0, b1, b2, b3, b4, rest, heq⟩ : ∃ b0 b1 b2 b3 b4 rest, block.drop p = b0 :: b1 :: b2 :: b3 :: b4 :: rest := by
      match block.drop p, hlength with
      | b0 :: b1 :: b2 :: b3 :: b4 :: rest, _ => exact ⟨b0, b1, b2, b3, b4, rest, rfl⟩
      | [], h' | [_], h' | [_, _], h' | [_, _, _], h' | [_, _, _, _], h' =>
        simp only [List.length_cons, List.length_nil] at h'
        omega
    exact hshort _ _ _ _ _ _ heq

theorem stuffing_eq (block : List Byte) (p : ℕ) :
    stuffing (block.drop p) = if p + stuffed block p < block.length then some (stuffed block p) else none := by
  have hlist (bs : List Byte) : stuffing bs =
      if (bs.takeWhile fun b => b.toNat &&& 0x80 = 0x80).length < bs.length then
        some (bs.takeWhile fun b => b.toNat &&& 0x80 = 0x80).length else none := by
    induction bs with
    | nil => rfl
    | cons b bs ih =>
      unfold stuffing
      by_cases hb : b.toNat &&& 0x80 = 0x80
      · rw [if_pos hb, ih, List.takeWhile_cons_of_pos (by exact decide_eq_true hb), List.length_cons, List.length_cons]
        split
        · rw [if_pos (by omega), Option.map_some]
        · rw [if_neg (by omega), Option.map_none]
      · rw [if_neg hb, List.takeWhile_cons_of_neg (by simpa using hb), List.length_nil, List.length_cons,
          if_pos (Nat.succ_pos _)]
  have hlength : (block.drop p).length = block.length - p := List.length_drop
  rw [hlist, hlength]
  unfold stuffed
  by_cases h : p + ((block.drop p).takeWhile fun b => b.toNat &&& 0x80 = 0x80).length < block.length
  · rw [if_pos h, if_pos (by omega)]
  · rw [if_neg h, if_neg (by omega)]

theorem stampIf_eq (block : List Byte) (flag p : ℕ) :
    ∃ v, stampIf block flag p = if flag ≠ 0 → p + 5 ≤ block.length then some v else none := by
  unfold stampIf
  by_cases hflag : flag ≠ 0
  · refine ⟨(clockAt block p).stamp, ?_⟩
    rw [if_pos hflag, clock_eq]
    by_cases h : p + 5 ≤ block.length
    · rw [if_pos h, if_pos fun _ => h, Option.map_some]
    · rw [if_neg h, if_neg fun h' => h (h' hflag), Option.map_none]
  · exact ⟨0, by rw [if_neg hflag, if_pos fun h => absurd h hflag]⟩

/-! ## Handlers -/

theorem not_disposes_none : ¬Disposes K n ds none := fun ⟨_, _, h, _⟩ => Option.some_ne_none _ h.symm

theorem disposes_bind {α : Type} (c : Prop) [Decidable c] (v : α) (f : α → Option (ℤ × Demuxer)) :
    Disposes K n ds ((if c then some v else none).bind f) ↔ c ∧ Disposes K n ds (f v) := by
  by_cases h : c
  · rw [if_pos h, Option.bind_some, and_iff_right h]
  · rw [if_neg h, Option.bind_none]
    exact iff_of_false not_disposes_none fun h' => h h'.1

theorem disposes_ite (c : Prop) [Decidable c] (x y : Option (ℤ × Demuxer)) :
    Disposes K n ds (if c then x else y) ↔ if c then Disposes K n ds x else Disposes K n ds y := by
  split <;> rfl

theorem disposes_free (h : this.disposals = ds) : Disposes K n ds (some (-1, this.free)) :=
  ⟨_, _, rfl, congrArg (· ++ _) h, trivial⟩

theorem disposes_put (h : this.disposals = ds) (fifo : Fifo) (buf : Buf) :
    Disposes K n ds (some (-1, this.put fifo buf)) ↔ buf.Inside n := by
  constructor
  · rintro ⟨t, d, ht, hd, hinside⟩
    obtain rfl := Option.some.inj ht
    have heq : this.disposals ++ [.put fifo buf] = ds ++ [d] := hd
    rw [h, List.append_cancel_left_eq, List.singleton_inj] at heq
    rw [← heq] at hinside
    exact hinside
  · exact fun hinside => ⟨_, _, rfl, congrArg (· ++ _) h, hinside⟩

theorem disposes_putAudio (h : this.disposals = ds) (buf : Buf) :
    Disposes K n ds (some (-1, this.putAudio buf)) ↔ (this.audio_fifo = true → buf.Inside n) := by
  unfold Demuxer.putAudio
  split
  · rename_i haudio
    rw [disposes_put h, imp_iff_right haudio]
  · rename_i haudio
    exact iff_of_true (disposes_free h) fun h' => absurd h' haudio

@[simp] theorem checkNewptsUnlessPreview_disposals (pts : ℤ) (fifo : Fifo) :
    (this.checkNewptsUnlessPreview pts fifo).disposals = this.disposals := by
  unfold Demuxer.checkNewptsUnlessPreview Demuxer.checkNewpts
  dsimp only
  split_ifs <;> rfl

@[simp] theorem checkNewptsUnlessPreview_audio_fifo (pts : ℤ) (fifo : Fifo) :
    (this.checkNewptsUnlessPreview pts fifo).audio_fifo = this.audio_fifo := by
  unfold Demuxer.checkNewptsUnlessPreview Demuxer.checkNewpts
  dsimp only
  split_ifs <;> rfl

theorem inside_packet (hlen : this.packet_len = sub32 l a) (hl : l < 2 ^ 16) (ha : a + skip ≤ 2 ^ 31) (buf : Buf)
    (type : ℕ) : (this.packet buf p skip type).Inside n ↔ a + skip ≤ l ∧ p + (l - a) ≤ n := by
  have hsize : int32 (sub32 this.packet_len skip) = l - a - skip := by
    rw [hlen]
    unfold int32 sub32
    rw [Int.toNat_of_nonneg (Int.emod_nonneg _ (by decide)), Int.toNat_of_nonneg (Int.emod_nonneg _ (by decide)),
      Int.bmod_def]
    split <;> omega
  unfold Buf.Inside Demuxer.packet
  dsimp only
  rw [hsize]
  omega

theorem wordAt_lt (block : List Byte) (p : ℕ) : wordAt block p < 2 ^ 16 := by
  unfold wordAt at'
  refine Nat.or_lt_two_pow ?_ ((BitVec.isLt _).trans (by decide))
  rw [Nat.shiftLeft_eq]
  have h := (block.getD p 0).isLt
  omega

/-! ## What the content promises -/

/-- The rest of a packet lies in the block, `skip` bytes behind a header of `a` bytes that ends at `q`. -/
def Fits (n q a l skip : ℕ) : Prop := a + skip ≤ l ∧ q + (l - a) ≤ n

/-- The bytes of a header of MPEG-1 in front of its clocks. -/
def skipped (block : List Byte) (p : ℕ) : ℕ :=
  let s := stuffed block (p + 6)
  if at' block (p + 6 + s) &&& 0xc0 = 0x40 then s + 2 else s

/-- The bytes of a header of MPEG-1. -/
def pesLength1 (block : List Byte) (p : ℕ) : ℕ :=
  let first := at' block (p + 6 + skipped block p) &&& 0xf0
  skipped block p + if first = 0x20 then 5 else if first = 0x30 then 10 else 1

/-- The header of a packet is read inside the block, and what follows meets a condition. -/
def PesSound (block : List Byte) (mpeg1 : Bool) (p : ℕ) (T : ℕ → ℕ → Prop) : Prop :=
  p + 6 ≤ block.length ∧
    if mpeg1 then p + 6 + pesLength1 block p ≤ block.length ∧ T (p + 6 + pesLength1 block p) (pesLength1 block p)
    else p + 7 ≤ block.length ∧
      (at' block (p + 6) &&& 0xC0 = 0x80 ∧ at' block (p + 6) &&& 0x30 = 0 → p + 9 ≤ block.length ∧
        (at' block (p + 7) &&& 0x80 ≠ 0 → p + 14 ≤ block.length) ∧
        (at' block (p + 7) &&& 0x40 ≠ 0 → p + 19 ≤ block.length) ∧
        T (at' block (p + 8) + 9 + p) (at' block (p + 8) + 3))

/-- A substream of the private stream 1. -/
def SubstreamSound (block : List Byte) (audio : Bool) (l q a : ℕ) : Prop :=
  q < block.length ∧
    let id := at' block q
    let svcd := if id = 0x70 then at' block (q + 1) else 0xFF
    if id &&& 0xE0 = 0x20 then Fits block.length q a l 1
    else (id = 0x70 → q + 1 < block.length) ∧
      if svcd &&& 0xFC = 0 then Fits block.length q a l 1
      else if id &&& 0xFC = 0 then Fits block.length q a l 1
      else if id &&& 0xF0 = 0x80 then q + 4 ≤ block.length ∧ (audio → Fits block.length q a l 4)
      else if id &&& 0xF0 = 0xA0 then q + 7 ≤ block.length ∧ (audio → Fits block.length q a l 7)
      else True

/-- A unit that ends the block. -/
def StreamSound (block : List Byte) (audio timed mpeg1 : Bool) (p : ℕ) : Prop :=
  let id := at' block (p + 3)
  let l := wordAt block (p + 4)
  if id = 0xBD then PesSound block mpeg1 p (SubstreamSound block audio l)
  else if id = 0xBF then
    p + 27 ≤ block.length ∧ (timed → p + 35 ≤ block.length) ∧ p + l ≤ block.length
  else if 0xC0 ≤ id ∧ id < 0xDF then PesSound block mpeg1 p fun q a => audio → Fits block.length q a l 0
  else if 0xE0 ≤ id ∧ id < 0xEF then PesSound block mpeg1 p fun q a => Fits block.length q a l 0
  else True

/-- A header of a pack; the rate is read when there is none. -/
def PackSound (block : List Byte) (rate : ℤ) (p : ℕ) : Prop :=
  p + 9 ≤ block.length ∧
    if at' block (p + 4) &&& 0x40 = 0 then rate = 0 → p + 12 ≤ block.length else p + 14 ≤ block.length

def packLength (block : List Byte) (p : ℕ) : ℕ :=
  if at' block (p + 4) &&& 0x40 = 0 then 12 else 14 + (at' block (p + 13) &&& 0x07)

def packRate (block : List Byte) (rate : ℤ) (p : ℕ) : ℤ :=
  if rate ≠ 0 then rate
  else if at' block (p + 4) &&& 0x40 = 0 then
    ((at' block (p + 9) &&& 0x7F) <<< 15 ||| at' block (p + 10) <<< 7 ||| at' block (p + 11) >>> 1 : ℕ)
  else (at' block (p + 10) <<< 14 ||| at' block (p + 11) <<< 6 ||| at' block (p + 11) >>> 2 : ℕ)

/-- The units of a block from an offset on: those headers that are passed over, and the unit behind them. -/
def Sound (block : List Byte) (audio timed : Bool) : ℕ → Bool → ℤ → ℕ → Prop
  | 0, _, _, _ => True
  | fuel + 1, mpeg1, rate, p => p < block.length →
    (at' block p = 0 → p + 1 < block.length ∧ (at' block (p + 1) = 0 → p + 2 < block.length)) ∧
      (at' block p = 0 ∧ at' block (p + 1) = 0 ∧ at' block (p + 2) = 1 → p + 3 < block.length ∧
        if at' block (p + 3) = 0xBA then PackSound block rate p ∧
          Sound block audio timed fuel (at' block (p + 4) &&& 0x40 = 0) (packRate block rate p)
            (packLength block p + p)
        else if at' block (p + 3) = 0xBB then p + 6 ≤ block.length ∧
          Sound block audio timed fuel mpeg1 rate (6 + wordAt block (p + 4) + p)
        else StreamSound block audio timed mpeg1 p)

/-! ## The handlers meet the conditions -/

theorem skipped_ge (block : List Byte) (p : ℕ) : stuffed block (p + 6) ≤ skipped block p := by
  unfold skipped
  dsimp only
  split <;> omega

theorem parsePesMpeg1_spec (this : Demuxer) (p : ℕ) :
    (p + 6 + pesLength1 block p ≤ block.length ∧ ∃ r pts dts,
      r = (6 + pesLength1 block p : ℤ) ∧ parsePesMpeg1 block this p = some (r,
        { this with packet_len := sub32 this.packet_len (pesLength1 block p), pts, dts })) ∨
    (¬p + 6 + pesLength1 block p ≤ block.length ∧ parsePesMpeg1 block this p = none) := by
  have hge := skipped_ge block p
  have hlt : skipped block p < pesLength1 block p := by
    unfold pesLength1
    dsimp only
    split_ifs <;> omega
  unfold parsePesMpeg1
  by_cases hs : p + 6 + stuffed block (p + 6) < block.length
  · have hskipped : (if at' block (p + 6 + stuffed block (p + 6)) &&& 0xc0 = 0x40 then stuffed block (p + 6) + 2
        else stuffed block (p + 6)) = skipped block p := rfl
    simp only [stuffing_eq, byte_eq, if_pos hs, Option.bind_eq_bind, Option.bind_some, hskipped]
    by_cases hk : p + 6 + skipped block p < block.length
    · simp only [if_pos hk, Option.bind_some, clock_eq]
      by_cases h20 : at' block (p + 6 + skipped block p) &&& 0xf0 = 0x20
      · have hlength : pesLength1 block p = skipped block p + 5 := by
          unfold pesLength1
          dsimp only
          rw [if_pos h20]
        rw [if_pos h20, hlength]
        by_cases hc : p + 6 + skipped block p + 5 ≤ block.length
        · rw [if_pos hc]
          exact .inl ⟨by omega, _, _, _, by omega, rfl⟩
        · rw [if_neg hc]
          exact .inr ⟨by omega, rfl⟩
      · rw [if_neg h20]
        by_cases h30 : at' block (p + 6 + skipped block p) &&& 0xf0 = 0x30
        · have hlength : pesLength1 block p = skipped block p + 10 := by
            unfold pesLength1
            dsimp only
            rw [if_neg h20, if_pos h30]
          rw [if_pos h30, hlength]
          by_cases hc : p + 6 + skipped block p + 5 + 5 ≤ block.length
          · rw [if_pos (show p + 6 + skipped block p + 5 ≤ block.length by omega), if_pos hc]
            exact .inl ⟨by omega, _, _, _, by omega, rfl⟩
          · rw [if_neg hc]
            refine .inr ⟨by omega, ?_⟩
            split <;> rfl
        · have hlength : pesLength1 block p = skipped block p + 1 := by
            unfold pesLength1
            dsimp only
            rw [if_neg h20, if_neg h30]
          rw [if_neg h30, hlength]
          exact .inl ⟨by omega, _, _, _, by omega, rfl⟩
    · rw [if_neg hk]
      exact .inr ⟨by omega, rfl⟩
  · rw [stuffing_eq, if_neg hs]
    exact .inr ⟨by omega, rfl⟩

theorem disposes_behindPes {T : ℕ → ℕ → Prop} {handler : Demuxer → ℕ → Option (ℤ × Demuxer)}
    (hsize : block.length < 2 ^ 31) (hds : this.disposals = ds)
    (hT : ∀ t q a, t.disposals = ds → t.audio_fifo = this.audio_fifo →
      t.packet_len = sub32 (wordAt block (p + 4)) a → a + 7 ≤ 2 ^ 31 →
      (Disposes K block.length ds (handler t q) ↔ T q a)) :
    Disposes K block.length ds (behindPes block this p handler) ↔ PesSound block this.mpeg1 p T := by
  unfold behindPes parsePesForPts PesSound
  simp only [word_eq, Option.bind_eq_bind, Option.bind_assoc, disposes_bind]
  refine and_congr (by omega) ?_
  obtain ⟨this', hthis', hd, haudio, hlen, hm⟩ : ∃ t, estimateTimes { this with packet_len := wordAt block (p + 4) } = t ∧
      t.disposals = ds ∧ t.audio_fifo = this.audio_fifo ∧ t.packet_len = wordAt block (p + 4) ∧ t.mpeg1 = this.mpeg1 :=
    ⟨_, rfl, hds, rfl, rfl, rfl⟩
  rw [hthis', hm]
  by_cases hmpeg : this.mpeg1 = true
  · rw [if_pos hmpeg, if_pos hmpeg]
    obtain ⟨hle, r, pts, dts, hr, heq⟩ | ⟨hle, heq⟩ := @parsePesMpeg1_spec block this' p
    · rw [heq, Option.bind_some, and_iff_right hle]
      dsimp only
      have hplace : p + r.toNat = p + 6 + pesLength1 block p := by omega
      rw [if_neg (by omega), hplace]
      exact hT _ _ _ hd haudio (congrArg (sub32 · _) hlen) (by omega)
    · rw [heq, Option.bind_none]
      exact iff_of_false not_disposes_none fun h => hle h.1
  · rw [if_neg hmpeg, if_neg hmpeg]
    unfold parsePesMpeg2
    simp only [byte_eq, Option.bind_eq_bind, Option.bind_assoc, disposes_bind]
    refine and_congr (by omega) ?_
    by_cases hC0 : at' block (p + 6) &&& 0xC0 = 0x80
    · rw [if_neg (not_not.2 hC0)]
      by_cases h30 : at' block (p + 6) &&& 0x30 = 0
      · rw [if_neg (not_not.2 h30), imp_iff_right ⟨hC0, h30⟩]
        obtain ⟨pts, hpts⟩ := stampIf_eq block (at' block (p + 7) &&& 0x80) (p + 9)
        obtain ⟨dts, hdts⟩ := stampIf_eq block (at' block (p + 7) &&& 0x40) (p + 14)
        simp only [Option.bind_assoc, disposes_bind, hpts, hdts, Option.bind_some]
        have hplace : p + ((at' block (p + 8) : ℤ) + 9).toNat = at' block (p + 8) + 9 + p := by omega
        have hlt := (block.getD (p + 8) 0).isLt
        have hbound : at' block (p + 8) + 3 + 7 ≤ 2 ^ 31 := by unfold at'; omega
        have hrest := hT { this' with pts, dts, packet_len := sub32 this'.packet_len (at' block (p + 8) + 3) }
          (at' block (p + 8) + 9 + p) _ hd haudio (congrArg (sub32 · _) hlen) hbound
        rw [if_neg (by omega), hplace, hrest]
        constructor
        · exact fun ⟨h7, h80, h40, h8, h⟩ => ⟨by omega, h80, h40, h⟩
        · exact fun ⟨h9, h80, h40, h⟩ => ⟨by omega, h80, h40, by omega, h⟩
      · rw [if_pos h30, Option.bind_some]
        exact iff_of_true (disposes_free hd) fun h => absurd h.2 h30
    · rw [if_pos hC0, Option.bind_some]
      exact iff_of_true (disposes_free hd) fun h => absurd h.1 hC0

theorem disposes_parseSubstream {t : Demuxer} {q : ℕ} (hds : t.disposals = ds)
    (hlen : t.packet_len = sub32 l a) (hl : l < 2 ^ 16) (ha : a + 7 ≤ 2 ^ 31) :
    Disposes K block.length ds (parseSubstream block t q) ↔ SubstreamSound block t.audio_fifo l q a := by
  have hput (skip type : ℕ) (buf : Buf) (hskip : skip ≤ 7) :
      Disposes K block.length ds (some (-1, t.put .video (t.packet buf q skip type))) ↔ Fits block.length q a l skip := by
    rw [disposes_put hds, inside_packet hlen hl (by omega)]
    rfl
  have hputAudio (skip type : ℕ) (buf : Buf) (hskip : skip ≤ 7) :
      Disposes K block.length ds (some (-1, (t.checkNewptsUnlessPreview t.pts .audio).putAudio (t.packet buf q skip type)))
        ↔ (t.audio_fifo = true → Fits block.length q a l skip) := by
    rw [disposes_putAudio ((checkNewptsUnlessPreview_disposals _ _).trans hds), checkNewptsUnlessPreview_audio_fifo,
      inside_packet hlen hl (by omega)]
    rfl
  unfold parseSubstream SubstreamSound
  simp only [byte_eq, word_eq, Option.bind_eq_bind, disposes_bind, disposes_ite]
  refine and_congr_right fun hq => ?_
  generalize at' block q = id
  by_cases h20 : id &&& 0xE0 = 0x20
  · rw [if_pos h20, if_pos h20]
    exact hput _ _ _ (by decide)
  rw [if_neg h20, if_neg h20]
  -- the second byte is read for one id only
  have hsvcd : svcdId block id q =
      if id = 0x70 → q + 1 < block.length then some (if id = 0x70 then at' block (q + 1) else 0xFF) else none := by
    unfold svcdId
    rw [byte_eq]
    by_cases h70 : id = 0x70
    · simp only [if_pos h70, imp_iff_right h70]
    · rw [if_neg h70, if_neg h70, if_pos fun h => absurd h h70]
  rw [hsvcd, disposes_bind]
  refine and_congr_right fun _ => ?_
  generalize (if id = 0x70 then at' block (q + 1) else 0xFF) = svcd
  simp only [disposes_ite, disposes_bind, hput 1 _ _ (by decide), hputAudio 4 _ _ (by decide),
    hputAudio 7 _ _ (by decide), iff_true_intro (disposes_free hds)]
  split_ifs
  · rfl
  · rfl
  · exact ⟨fun ⟨h1, h2, h⟩ => ⟨by omega, h⟩, fun ⟨h4, h⟩ => ⟨by omega, by omega, h⟩⟩
  · exact ⟨fun ⟨h1, h3, h4, h5, h6, h⟩ => ⟨by omega, h⟩,
      fun ⟨h7, h⟩ => ⟨by omega, by omega, by omega, by omega, by omega, h⟩⟩
  · rfl

theorem readCellTime_spec (this : Demuxer) (p : ℕ) : ∃ t, readCellTime block this p =
      (if this.buf.extra_info.input_time ≠ 0 → p + 35 ≤ block.length then some t else none) ∧
    t.disposals = this.disposals := by
  unfold readCellTime
  by_cases htime : this.buf.extra_info.input_time = 0
  · exact ⟨this, by rw [if_pos htime, if_pos fun h => absurd htime h], rfl⟩
  · simp only [if_neg htime, byte_eq, imp_iff_right htime]
    by_cases h : p + 35 ≤ block.length
    · simp only [if_pos (show p + 7 + 0x18 < block.length by omega), if_pos (show p + 7 + 0x19 < block.length by omega),
        if_pos (show p + 7 + 0x1a < block.length by omega), if_pos (show p + 7 + 0x1b < block.length by omega), if_pos h]
      exact ⟨_, rfl, rfl⟩
    · refine ⟨this, ?_, rfl⟩
      rw [if_neg h, if_neg (show ¬p + 7 + 0x1b < block.length by omega)]
      split <;> split <;> split <;> rfl

theorem disposes_parsePrivateStream2 (hds : this.disposals = ds) :
    Disposes K block.length ds (parsePrivateStream2 block this p) ↔ p + 27 ≤ block.length ∧
      (this.buf.extra_info.input_time ≠ 0 → p + 35 ≤ block.length) ∧ p + wordAt block (p + 4) ≤ block.length := by
  obtain ⟨t, hread, ht⟩ := @readCellTime_spec block { this with packet_len := wordAt block (p + 4) } p
  unfold parsePrivateStream2 long
  simp only [word_eq, Option.bind_eq_bind, Option.bind_assoc, disposes_bind, Option.bind_some, hread]
  rw [disposes_put]
  · unfold Buf.Inside
    dsimp only
    constructor
    · exact fun ⟨h4, h19, h21, h23, h25, htime, hinside⟩ => ⟨by omega, htime, by omega⟩
    · exact fun ⟨h27, htime, hinside⟩ => ⟨by omega, by omega, by omega, by omega, by omega, htime, by omega⟩
  · dsimp only
    split
    · exact ht.trans hds
    · exact ht.trans hds

theorem parsePack_spec (this : Demuxer) (p : ℕ) :
    (PackSound block this.rate p ∧ ∃ scr, parseProgramStreamPackHeader block this p = some ((packLength block p : ℤ),
      { this with mpeg1 := at' block (p + 4) &&& 0x40 = 0, scr, rate := packRate block this.rate p })) ∨
    (¬PackSound block this.rate p ∧ parseProgramStreamPackHeader block this p = none) := by
  unfold parseProgramStreamPackHeader PackSound packLength packRate
  rw [clock_eq]
  by_cases h9 : p + 9 ≤ block.length
  · have hb0 : (clockAt block (p + 4)).b0.toNat = at' block (p + 4) := rfl
    rw [if_pos (show p + 4 + 5 ≤ block.length from h9), and_iff_right h9]
    simp only [Option.bind_eq_bind, Option.bind_some, hb0, byte_eq]
    by_cases h40 : at' block (p + 4) &&& 0x40 = 0
    · simp only [if_pos h40, decide_eq_true h40]
      by_cases hrate : this.rate = 0
      · simp only [if_pos hrate, if_neg (not_not.2 hrate), imp_iff_right hrate]
        by_cases h12 : p + 12 ≤ block.length
        · rw [if_pos (show p + 9 < block.length by omega), if_pos (show p + 10 < block.length by omega),
            if_pos (show p + 11 < block.length by omega)]
          exact .inl ⟨h12, _, rfl⟩
        · rw [if_neg (show ¬p + 11 < block.length by omega)]
          refine .inr ⟨h12, ?_⟩
          split <;> split <;> rfl
      · simp only [if_neg hrate, if_pos hrate]
        exact .inl ⟨fun h => absurd h hrate, _, rfl⟩
    · simp only [if_neg h40, decide_eq_false h40]
      by_cases h14 : p + 14 ≤ block.length
      · simp only [if_pos (show p + 0xD < block.length from h14), if_pos (show p + 0xA < block.length by omega),
          if_pos (show p + 0xB < block.length by omega), Option.bind_some]
        refine .inl ⟨h14, (clockAt block (p + 4)).scr2, ?_⟩
        by_cases hrate : this.rate = 0
        · rw [if_pos hrate, if_neg (not_not.2 hrate)]
        · rw [if_neg hrate, if_pos hrate]
      · rw [if_neg (show ¬p + 0xD < block.length from h14)]
        exact .inr ⟨h14, rfl⟩
  · rw [if_neg (show ¬p + 4 + 5 ≤ block.length from h9)]
    exact .inr ⟨fun h => h9 h.1, rfl⟩

theorem disposes_parseStream (hsize : block.length < 2 ^ 31) (hds : this.disposals = ds)
    (hid : this.stream_id = at' block (p + 3)) (hBA : this.stream_id ≠ 0xBA) (hBB : this.stream_id ≠ 0xBB) :
    Disposes K block.length ds (parseStream block this p) ↔
      StreamSound block this.audio_fifo (this.buf.extra_info.input_time ≠ 0) this.mpeg1 p := by
  have hl := wordAt_lt block (p + 4)
  unfold parseStream StreamSound
  dsimp only
  rw [← hid, if_neg hBA, if_neg hBB, decide_eq_true_iff]
  simp only [disposes_ite]
  split_ifs
  · exact disposes_behindPes hsize hds fun t q a ht haudio hlen ha => haudio ▸ disposes_parseSubstream ht hlen hl ha
  · exact disposes_parsePrivateStream2 hds
  · refine disposes_behindPes hsize hds fun t q a ht haudio hlen ha => ?_
    rw [disposes_putAudio ((checkNewptsUnlessPreview_disposals _ _).trans ht), checkNewptsUnlessPreview_audio_fifo,
      inside_packet hlen hl (by omega), haudio]
    rfl
  · refine disposes_behindPes hsize hds fun t q a ht haudio hlen ha => ?_
    rw [disposes_put ((checkNewptsUnlessPreview_disposals _ _).trans ht), inside_packet hlen hl (by omega)]
    rfl
  · exact iff_true_intro (disposes_free hds)

/-! ## A block -/

/-- The block has been disposed of, once. -/
def Disposed (n : ℕ) (x : Option Demuxer) : Prop := ∃ t d, x = some t ∧ t.disposals = [d] ∧ d.Inside n

theorem disposed_free (h : this.disposals = []) : Disposed n (some this.free) :=
  ⟨_, _, rfl, congrArg (· ++ _) h, trivial⟩

theorem startsUnit_spec (block : List Byte) (p : ℕ) :
    startsUnit block p = if p < block.length ∧ (at' block p = 0 → p + 1 < block.length ∧
      (at' block (p + 1) = 0 → p + 2 < block.length)) then
        some (decide (at' block p = 0 ∧ at' block (p + 1) = 0 ∧ at' block (p + 2) = 1)) else none := by
  unfold startsUnit
  simp only [byte_eq]
  by_cases h0 : p < block.length
  · by_cases hz0 : at' block p = 0
    · by_cases h1 : p + 1 < block.length
      · by_cases hz1 : at' block (p + 1) = 0
        · by_cases h2 : p + 2 < block.length <;> simp [h0, hz0, h1, hz1, h2]
        · simp [h0, hz0, h1, hz1]
      · simp [h0, hz0, h1]
    · simp [h0, hz0]
  · simp [h0]

theorem disposed_parseUnits (hsize : block.length < 2 ^ 31) (fuel : ℕ) (this : Demuxer) (p : ℕ)
    (hds : this.disposals = []) :
    Disposed block.length (parseUnits block fuel this p) ↔
      Sound block this.audio_fifo (this.buf.extra_info.input_time ≠ 0) fuel this.mpeg1 this.rate p := by
  induction fuel generalizing this p with
  | zero => exact iff_true_intro (disposed_free hds)
  | succ fuel ih =>
    have hnone : ¬Disposed block.length none := fun ⟨_, _, h, _⟩ => Option.some_ne_none _ h.symm
    unfold parseUnits Sound
    by_cases hp : p < block.length
    · rw [if_pos hp, imp_iff_right hp, startsUnit_spec]
      by_cases hlook : at' block p = 0 → p + 1 < block.length ∧ (at' block (p + 1) = 0 → p + 2 < block.length)
      · rw [if_pos ⟨hp, hlook⟩, and_iff_right hlook, Option.bind_eq_bind, Option.bind_some]
        by_cases hstart : at' block p = 0 ∧ at' block (p + 1) = 0 ∧ at' block (p + 2) = 1
        · rw [decide_eq_true hstart, if_pos rfl, imp_iff_right hstart, byte_eq]
          by_cases h3 : p + 3 < block.length
          · rw [if_pos h3, and_iff_right h3, Option.bind_eq_bind, Option.bind_some]
            generalize hid : at' block (p + 3) = id
            by_cases hBA : id = 0xBA
            · have hhandler : parseStream block { this with stream_id := id } p =
                  parseProgramStreamPackHeader block { this with stream_id := id } p := if_pos hBA
              rw [if_pos hBA, hhandler]
              obtain ⟨hsound, scr, heq⟩ | ⟨hsound, heq⟩ := @parsePack_spec block { this with stream_id := id } p
              · rw [heq, Option.bind_eq_bind, Option.bind_some, and_iff_right hsound]
                dsimp only
                rw [if_neg (by omega), Int.toNat_natCast, Nat.add_comm p (packLength block p)]
                exact ih _ _ hds
              · rw [heq]
                exact iff_of_false hnone fun h => hsound h.1
            · rw [if_neg hBA]
              by_cases hBB : id = 0xBB
              · have hhandler : parseStream block { this with stream_id := id } p =
                    parseProgramStreamSystemHeader block { this with stream_id := id } p :=
                  (if_neg hBA).trans (if_pos hBB)
                rw [if_pos hBB, hhandler]
                unfold parseProgramStreamSystemHeader
                rw [word_eq]
                by_cases h6 : p + 6 ≤ block.length
                · rw [if_pos (show p + 4 + 2 ≤ block.length from h6), and_iff_right h6]
                  simp only [Option.bind_eq_bind, Option.bind_some]
                  have hplace : p + (6 + (wordAt block (p + 4) : ℤ)).toNat = 6 + wordAt block (p + 4) + p := by omega
                  rw [if_neg (by omega), hplace]
                  exact ih _ _ hds
                · rw [if_neg (show ¬p + 4 + 2 ≤ block.length from h6)]
                  exact iff_of_false hnone fun h => h6 h.1
              · rw [if_neg hBB]
                exact @disposes_parseStream _ block p [] { this with stream_id := id } hsize hds hid.symm hBA hBB
          · rw [if_neg h3]
            exact iff_of_false hnone fun h => h3 h.1
        · rw [decide_eq_false hstart]
          exact iff_of_true (disposed_free hds) fun h => absurd h hstart
      · rw [if_neg fun h => hlook h.2]
        exact iff_of_false hnone fun h => hlook h.1
    · rw [if_neg hp]
      exact iff_of_true (disposed_free hds) fun h => absurd h hp

theorem disposed_demuxBlock (hsize : block.length < 2 ^ 31) (this : Demuxer) (preview_mode : Bool) {buf : Buf}
    (htype : buf.type = BUF_DEMUX_BLOCK) (current_pos length : ℤ) :
    Disposed block.length (demuxMpegBlockParsePack block this preview_mode (some buf) current_pos length) ↔
      Sound block this.audio_fifo (buf.extra_info.input_time ≠ 0) block.length this.mpeg1 this.rate 0 := by
  unfold demuxMpegBlockParsePack
  dsimp only
  rw [if_neg (not_not.2 htype), disposed_parseUnits hsize block.length _ 0 rfl]
  dsimp only
  split <;> rfl

/-- A block of at most `2 ^ 31 - 1` bytes, which is an `int`, is disposed of once, by what lies in it, with every byte
that is looked at in the block, if and only if its units are sound. -/
theorem demuxMpegBlockParsePack_disposed_iff (hsize : block.length < 2 ^ 31) (this : Demuxer) (preview_mode : Bool)
    (buf : Buf) (current_pos length : ℤ) :
    Disposed block.length (demuxMpegBlockParsePack block this preview_mode (some buf) current_pos length) ↔
      if buf.type ≠ BUF_DEMUX_BLOCK then buf.Inside block.length
      else Sound block this.audio_fifo (buf.extra_info.input_time ≠ 0) block.length this.mpeg1 this.rate 0 := by
  by_cases htype : buf.type = BUF_DEMUX_BLOCK
  · rw [if_neg (not_not.2 htype)]
    exact disposed_demuxBlock hsize this preview_mode htype current_pos length
  · unfold demuxMpegBlockParsePack
    dsimp only
    rw [if_pos htype, if_pos htype]
    constructor
    · rintro ⟨t, d, ht, hd, hinside⟩
      obtain rfl := Option.some.inj ht
      have heq : [Disposal.put .video buf] = [d] := hd
      rw [List.singleton_inj] at heq
      rw [← heq] at hinside
      exact hinside
    · exact fun hinside => ⟨_, _, rfl, rfl, hinside⟩

/-- A demuxer for MPEG-2, and a block whose packet is longer than the block. -/
def longDemuxer : Demuxer :=
  { finished := false, audio_fifo := true, rate := 0, nav_last_end_pts := 0, nav_last_start_pts := 0
    last_pts := fun _ => 0, send_newpts := false, preview_mode := false, buf_flag_seek := false, scr := 0
    packet_len := 0, pts := 0, dts := 0, stream_id := 0, mpeg1 := false, last_cell_time := 0, last_cell_pos := 0
    last_begin_time := 0, buf := ⟨0, 0, 0, 0, fun _ => 0, 0, ⟨0, 0, 0, 0⟩⟩, disposals := [], newpts := [] }

def longBuf : Buf := { longDemuxer.buf with type := BUF_DEMUX_BLOCK }

def longBlock (rest : List Byte) : List Byte := [0, 0, 1, 0xE0, 0xFF, 0xFF, 0x80, 0, 0] ++ rest

theorem length_longBlock : (longBlock (List.replicate 2039 0)).length = 2048 := by
  unfold longBlock
  rw [List.length_append, List.length_replicate]
  rfl

theorem not_sound_longBlock {rest : List Byte} (h : (longBlock rest).length = 2048) :
    ¬Sound (longBlock rest) longDemuxer.audio_fifo false (longBlock rest).length longDemuxer.mpeg1 longDemuxer.rate 0 := by
  intro hsound
  rw [h] at hsound
  have hunit := (hsound (by rw [h]; decide)).2 ⟨rfl, rfl, rfl⟩
  have hpes : PesSound (longBlock rest) false 0 fun q a =>
      Fits (longBlock rest).length q a (wordAt (longBlock rest) 4) 0 := hunit.2
  have h6 : at' (longBlock rest) (0 + 6) = 0x80 := rfl
  have h8 : at' (longBlock rest) (0 + 8) = 0 := rfl
  have hlen : wordAt (longBlock rest) 4 = 0xFFFF := by
    have h4 : at' (longBlock rest) 4 = 0xFF := rfl
    have h5 : at' (longBlock rest) (4 + 1) = 0xFF := rfl
    unfold wordAt
    rw [h4, h5]
    decide
  have hend := (hpes.2.2 (by rw [h6]; decide)).2.2.2.2
  rw [h, h8, hlen] at hend
  exact absurd hend (by decide)

theorem timed_longBuf : decide (longBuf.extra_info.input_time ≠ 0) = false := rfl

theorem demuxMpegBlockParsePack_disposed_iff_longBlock :
    ¬Disposed (longBlock (List.replicate 2039 0)).length
      (demuxMpegBlockParsePack (longBlock (List.replicate 2039 0)) longDemuxer false (some longBuf) 0 0) := by
  have hsize : (longBlock (List.replicate 2039 0)).length < 2 ^ 31 := by rw [length_longBlock]; decide
  rw [demuxMpegBlockParsePack_disposed_iff hsize, if_neg (show ¬longBuf.type ≠ BUF_DEMUX_BLOCK from not_not.2 rfl),
    timed_longBuf]
  exact not_sound_longBlock length_longBlock

/-- Not every block is disposed of by a buffer that lies in it. -/
theorem not_demuxMpegBlockParsePack_disposed : ¬∀ (block : List Byte) (this : Demuxer) (preview_mode : Bool) (buf : Buf)
    (current_pos length : ℤ), block.length < 2 ^ 31 → buf.type = BUF_DEMUX_BLOCK →
    Disposed block.length (demuxMpegBlockParsePack block this preview_mode (some buf) current_pos length) := by
  intro h
  have hunsound := not_sound_longBlock length_longBlock
  have hsize : (longBlock (List.replicate 2039 0)).length < 2 ^ 31 := by rw [length_longBlock]; decide
  generalize longBlock (List.replicate 2039 0) = block at hunsound hsize
  have hdisposed := h block longDemuxer false longBuf 0 0 hsize rfl
  rw [@disposed_demuxBlock block hsize longDemuxer false longBuf rfl, timed_longBuf] at hdisposed
  exact hunsound hdisposed

end Xine.MpegBlock
