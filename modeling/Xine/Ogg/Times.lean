import Mathlib.Algebra.Group.Int.Defs
import Mathlib.Algebra.Group.Nat.Defs
import Mathlib.Data.List.Basic
import Mathlib.Data.Nat.Size

/-!
# The length of an Ogg stream, and seeking by time

`get_pts`, `get_stream_length` and `demux_ogg_seek` of `demux_ogg.c`. What overflows a signed type, and a division by
zero, is `none`.
-/

namespace Xine.Ogg

/-- A number that is computed as a signed one of 32 or 64 bits. -/
def signed (bits : ℕ) (n : ℤ) : Option ℤ := if -2 ^ (bits - 1) ≤ n ∧ n < 2 ^ (bits - 1) then some n else none

/-- The conversion to an `int`. -/
def toInt (n : ℤ) : ℤ := n.bmod (2 ^ 32)

/-- What the demuxer knows of a stream. -/
structure Stream where
  serialno : ℤ
  theora : Bool
  header_granulepos : ℤ
  factor : ℤ
  quotient : ℤ

structure Demuxer where
  streams : List Stream
  keyframe_frequency_force : ℤ
  frame_duration : ℤ

structure Page where
  serialno : ℤ
  granulepos : ℤ

/-- `intlog`: the number of bits. -/
def intlog (num : ℤ) : ℕ := num.toNat.size

section Pts

variable (check : ℤ → Option ℤ) (this : Demuxer) (stream : Stream) (granulepos : ℤ)

/-- `get_pts`, with a check of what may overflow. -/
def ptsWith : Option ℤ :=
  if granulepos < 0 then some (if 0 ≤ stream.header_granulepos then 1 else 0)
  else if stream.theora then
    let shift := intlog (this.keyframe_frequency_force - 1)
    let iframe := granulepos / 2 ^ shift
    let pframe := granulepos - iframe * 2 ^ shift
    (check ((iframe + pframe) * this.frame_duration)).bind fun n => check (1 + n)
  else if stream.quotient ≠ 0 then
    (check (granulepos * stream.factor)).bind fun n => check (1 + n.tdiv stream.quotient)
  else some 0

end Pts

def getPts : Demuxer → Stream → ℤ → Option ℤ := ptsWith (signed 64)

def getStream (this : Demuxer) (serno : ℤ) : Option Stream := this.streams.find? fun stream => stream.serialno = serno

/-- A page in the loop of `get_stream_length`. The time is compared with that of a 90th of the position. -/
def pageStep (this : Demuxer) (time_length : ℤ) (page : Page) : Option ℤ :=
  match getStream this page.serialno with
  | none => some time_length
  | some stream => (getPts this stream (page.granulepos.tdiv 90)).bind fun limit =>
    if time_length < limit then (getPts this stream page.granulepos).map fun pts => toInt (pts.tdiv 90)
    else some time_length

/-- `get_stream_length` of a seekable input: the time, the bitrate for the user and the average bitrate. -/
def getStreamLength (this : Demuxer) (avg_bitrate length : ℤ) (pages : List Page) : Option (ℤ × Option ℤ × ℤ) :=
  let filelength := toInt length
  if filelength = -1 then some (-1, none, avg_bitrate)
  else (pages.foldlM (pageStep this) (-1)).bind fun time_length =>
    if time_length ≠ 0 then
      (signed 32 (8000 * filelength)).map fun bits =>
        (time_length, some ((8000 * filelength).tdiv time_length), bits.tdiv time_length)
    else some (time_length, none, avg_bitrate)

/-- What `demux_ogg_seek` reads. -/
structure SeekState where
  time_length : ℤ
  avg_bitrate : ℤ
  last_pts_video : ℤ
  last_pts_audio : ℤ
  current_pos : ℤ
  length : ℤ

def SeekState.currentTime (this : SeekState) : ℤ :=
  if this.last_pts_video ≠ 0 then toInt (this.last_pts_video.tdiv 90000)
  else if this.last_pts_audio ≠ 0 then toInt (this.last_pts_audio.tdiv 90000)
  else -1

/-- The position that `demux_ogg_seek` seeks to. -/
def seekPosition (this : SeekState) (start_pos start_time : ℤ) : Option ℤ :=
  let start_time := start_time.tdiv 1000
  if start_pos = 0 ∧ start_time ≠ 0 then
    if this.time_length ≠ -1 then
      if start_time < this.currentTime then
        (signed 64 (start_time * this.current_pos)).map fun n => n.tdiv this.currentTime
      else
        (signed 32 (start_time - this.currentTime)).bind fun ahead =>
          (signed 64 (ahead * (this.length - this.current_pos))).bind fun n =>
            (signed 32 (this.time_length.tdiv 1000 - this.currentTime)).bind fun rest =>
              if rest = 0 then none else signed 64 (this.current_pos + n.tdiv rest)
    else (signed 64 (start_time * this.avg_bitrate)).map fun n => n.tdiv 8
  else some start_pos

/-! ## The length -/

variable {this : Demuxer} {stream : Stream} {page : Page} {L n pts g : ℤ} {bits : ℕ}

/-- The time of a page in milliseconds. -/
def pageTime (this : Demuxer) (page : Page) : Option ℤ :=
  (getStream this page.serialno).bind fun stream => (ptsWith some this stream page.granulepos).map fun pts => pts.tdiv 90

/-- The largest time, when there was `L` before the page. -/
def later (this : Demuxer) (L : ℤ) (page : Page) : ℤ := (pageTime this page).elim L (max L)

/-- After each page the length is the largest time, and at the end the average bitrate is positive. -/
def LengthRight (this : Demuxer) (avg_bitrate length : ℤ) (pages : List Page) : Prop :=
  (∀ k, (pages.take k).foldlM (pageStep this) (-1) = some ((pages.take k).foldl (later this) (-1))) ∧
    ∃ bitrate avg, getStreamLength this avg_bitrate length pages = some (pages.foldl (later this) (-1), bitrate, avg) ∧
      0 < avg

/-- The page is of no stream; or its pts and that of a 90th of its position do not overflow, and where the latter is
above the largest time so far, the time of the page is an `int` that is not below it, and otherwise not above it. -/
def PageRight (this : Demuxer) (L : ℤ) (page : Page) : Prop :=
  ∀ stream, getStream this page.serialno = some stream →
    ∃ limit, getPts this stream (page.granulepos.tdiv 90) = some limit ∧
      if L < limit then ∃ pts, getPts this stream page.granulepos = some pts ∧ toInt (pts.tdiv 90) = max L (pts.tdiv 90)
      else ∀ t, pageTime this page = some t → t ≤ L

def PagesRight (this : Demuxer) : ℤ → List Page → Prop
  | _, [] => True
  | L, page :: pages => PageRight this L page ∧ PagesRight this (later this L page) pages

/-- The file is so small that its bits fit in an `int`, and it has a time to divide them by. -/
def BitrateRight (avg_bitrate length L : ℤ) : Prop :=
  if toInt length = -1 then L = -1 ∧ 0 < avg_bitrate
  else if L ≠ 0 then (signed 32 (8000 * toInt length)).isSome ∧ 0 < (8000 * toInt length).tdiv L
  else 0 < avg_bitrate

theorem signed_eq_some (h : signed bits n = some L) : n = L := by
  unfold signed at h
  split at h
  · exact Option.some.inj h
  · cases h

/-- What does not overflow is the exact number. -/
theorem ptsWith_some (h : getPts this stream g = some pts) : ptsWith some this stream g = some pts := by
  unfold getPts ptsWith at *
  dsimp only at *
  split_ifs at *
  · exact h
  · exact h
  · obtain ⟨n, hn, hpts⟩ := Option.bind_eq_some_iff.1 h
    rw [Option.bind_some, signed_eq_some hn, signed_eq_some hpts]
  · obtain ⟨n, hn, hpts⟩ := Option.bind_eq_some_iff.1 h
    rw [Option.bind_some, signed_eq_some hn, signed_eq_some hpts]
  · exact h

theorem exists_ptsWith (this : Demuxer) (stream : Stream) (g : ℤ) : ∃ pts, ptsWith some this stream g = some pts := by
  unfold ptsWith
  dsimp only
  split_ifs <;> exact ⟨_, rfl⟩

theorem pageStep_iff : pageStep this L page = some (later this L page) ↔ PageRight this L page := by
  unfold pageStep later PageRight pageTime
  cases getStream this page.serialno with
  | none => exact iff_of_true rfl nofun
  | some stream =>
    obtain ⟨exact_pts, hexact⟩ := exists_ptsWith this stream page.granulepos
    simp only [Option.bind_some, hexact, Option.map_some, Option.elim_some, Option.some.injEq, forall_eq']
    cases hlimit : getPts this stream (page.granulepos.tdiv 90) with
    | none => exact iff_of_false nofun fun ⟨_, h, _⟩ => nomatch h
    | some limit =>
      simp only [Option.bind_some, Option.some.injEq, exists_eq_left']
      split
      · constructor
        · intro h
          obtain ⟨pts, hpts, htime⟩ := Option.map_eq_some_iff.1 h
          cases (ptsWith_some hpts).symm.trans hexact
          exact ⟨_, hpts, htime⟩
        · rintro ⟨pts, hpts, htime⟩
          cases (ptsWith_some hpts).symm.trans hexact
          rw [hpts, Option.map_some, htime]
      · rw [Option.some.injEq]
        omega

theorem pages_iff (pages : List Page) :
    (∀ k, (pages.take k).foldlM (pageStep this) L = some ((pages.take k).foldl (later this) L)) ↔
      PagesRight this L pages := by
  induction pages generalizing L with
  | nil => exact iff_of_true (fun k => by rw [List.take_nil]; rfl) trivial
  | cons page pages ih =>
    unfold PagesRight
    rw [← ih, ← pageStep_iff]
    constructor
    · intro h
      have hstep : pageStep this L page = some (later this L page) := by
        have hone := h 1
        rw [List.take_succ_cons, List.take_zero, List.foldlM_cons] at hone
        cases hpage : pageStep this L page with
        | none => rw [hpage] at hone; cases hone
        | some t => rw [hpage] at hone; exact hone
      refine ⟨hstep, fun k => ?_⟩
      have hk := h (k + 1)
      rw [List.take_succ_cons, List.foldlM_cons, hstep] at hk
      exact hk
    · rintro ⟨hstep, h⟩ k
      cases k with
      | zero => rfl
      | succ k =>
        rw [List.take_succ_cons, List.foldlM_cons, hstep]
        exact h k

theorem lengthRight_iff {avg_bitrate length : ℤ} {pages : List Page} : LengthRight this avg_bitrate length pages ↔
    PagesRight this (-1) pages ∧ BitrateRight avg_bitrate length (pages.foldl (later this) (-1)) := by
  unfold LengthRight
  rw [pages_iff]
  refine and_congr_right fun hpages => ?_
  have hall := (pages_iff pages).2 hpages pages.length
  rw [List.take_length] at hall
  unfold getStreamLength BitrateRight
  dsimp only
  rw [hall, Option.bind_some]
  generalize pages.foldl (later this) (-1) = L
  split
  · constructor
    · rintro ⟨bitrate, avg, heq, hpos⟩
      cases heq
      exact ⟨rfl, hpos⟩
    · rintro ⟨rfl, hpos⟩
      exact ⟨_, _, rfl, hpos⟩
  · split
    · cases hsigned : signed 32 (8000 * toInt length) with
      | none => exact iff_of_false (fun ⟨_, _, h, _⟩ => nomatch h) fun h => nomatch h.1
      | some bits =>
        rw [signed_eq_some hsigned]
        constructor
        · rintro ⟨bitrate, avg, heq, hpos⟩
          cases heq
          exact ⟨rfl, hpos⟩
        · exact fun h => ⟨_, _, rfl, h.2⟩
    · constructor
      · rintro ⟨bitrate, avg, heq, hpos⟩
        cases heq
        exact hpos
      · exact fun hpos => ⟨_, _, rfl, hpos⟩

/-! ## Seeking by time -/

section Seek

variable {state : SeekState} {c T pos len s t : ℤ}

/-- The position for `s` seconds, when it is `c` now and the length is `T`. -/
def positionAt (c T pos len s : ℤ) : ℤ :=
  if s = 0 then 0 else if s < c then s * pos / c else pos + (s - c) * (len - pos) / (T - c)

/-- Every seek to a time of the stream goes to a position of the file, and later times to later positions. -/
def SeekRight (this : SeekState) : Prop :=
  (∀ start_time, 0 ≤ start_time → start_time ≤ this.time_length →
    ∃ p, seekPosition this 0 start_time = some p ∧ 0 ≤ p ∧ p ≤ this.length) ∧
  ∀ start_time start_time' p p', 0 ≤ start_time → start_time ≤ start_time' → start_time' ≤ this.time_length →
    seekPosition this 0 start_time = some p → seekPosition this 0 start_time' = some p' → p ≤ p'

/-- The stream is shorter than a second; or now is not its last second, and the products do not overflow. -/
def Interpolates (c T pos len : ℤ) : Prop :=
  1 ≤ T → (c ≤ T → c ≠ T ∧ T - c < 2 ^ 31 ∧ (T - c) * (len - pos) < 2 ^ 63) ∧ (1 < c → min (c - 1) T * pos < 2 ^ 63)

theorem signed_of_lt (hn : 0 ≤ n) (h : n < 2 ^ (bits - 1)) : signed bits n = some n :=
  if_pos ⟨Int.le_trans (Int.neg_nonpos_of_nonneg (Int.pow_nonneg (by decide))) hn, h⟩

theorem signed_isSome (h : (signed bits n).isSome) : n < 2 ^ (bits - 1) := by
  unfold signed at h
  split at h
  · rename_i hn
    exact hn.2
  · cases h

theorem positionAt_before (hc : s < c) : positionAt c T pos len s = s * pos / c := by
  unfold positionAt
  rw [if_pos hc]
  split
  · rename_i hzero
    rw [hzero, Int.zero_mul, Int.zero_ediv]
  · rfl

theorem positionAt_bounds (hpos : 0 ≤ pos) (hlen : pos ≤ len) (hs : 0 ≤ s) (hT : s ≤ T)
    (hcT : s ≠ 0 → c ≤ T → c ≠ T) :
    0 ≤ positionAt c T pos len s ∧ positionAt c T pos len s ≤ if s < c then pos else len := by
  by_cases hc : s < c
  · rw [positionAt_before hc, if_pos hc]
    refine ⟨Int.ediv_nonneg (Int.mul_nonneg hs hpos) (by omega), Int.ediv_le_of_le_mul (by omega) ?_⟩
    rw [Int.mul_comm pos]
    exact Int.mul_le_mul_of_nonneg_right (Int.le_of_lt hc) hpos
  · unfold positionAt
    rw [if_neg hc, if_neg hc]
    split
    · omega
    · have hrest : 0 < T - c := by have := hcT (by omega) (by omega); omega
      have hlow : 0 ≤ (s - c) * (len - pos) / (T - c) :=
        Int.ediv_nonneg (Int.mul_nonneg (by omega) (by omega)) (by omega)
      have hhigh : (s - c) * (len - pos) / (T - c) ≤ len - pos := by
        refine Int.ediv_le_of_le_mul hrest ?_
        rw [Int.mul_comm (len - pos)]
        exact Int.mul_le_mul_of_nonneg_right (by omega) (by omega)
      omega

theorem positionAt_mono (hpos : 0 ≤ pos) (hlen : pos ≤ len) (hs : 0 ≤ s) (hst : s ≤ t) (hT : t ≤ T)
    (hcT : t ≠ 0 → c ≤ T → c ≠ T) : positionAt c T pos len s ≤ positionAt c T pos len t := by
  by_cases hc : t < c
  · rw [positionAt_before (show s < c by omega), positionAt_before hc]
    exact Int.ediv_le_ediv (by omega) (Int.mul_le_mul_of_nonneg_right hst hpos)
  · by_cases hzero : s = 0
    · have hleft : positionAt c T pos len s = 0 := if_pos hzero
      rw [hleft]
      exact (positionAt_bounds hpos hlen (by omega) hT hcT).1
    · have hrest : 0 < T - c := by have := hcT (by omega) (by omega); omega
      have ht : positionAt c T pos len t = pos + (t - c) * (len - pos) / (T - c) := by
        unfold positionAt
        rw [if_neg (show ¬t = 0 by omega), if_neg hc]
      by_cases hsc : s < c
      · have hle := (positionAt_bounds hpos hlen hs (show s ≤ T by omega) fun _ => hcT (by omega)).2
        rw [if_pos hsc] at hle
        have hlow : 0 ≤ (t - c) * (len - pos) / (T - c) :=
          Int.ediv_nonneg (Int.mul_nonneg (by omega) (by omega)) (by omega)
        omega
      · have hs' : positionAt c T pos len s = pos + (s - c) * (len - pos) / (T - c) := by
          unfold positionAt
          rw [if_neg hzero, if_neg hsc]
        rw [hs', ht]
        exact Int.add_le_add_left (Int.ediv_le_ediv hrest (Int.mul_le_mul_of_nonneg_right (by omega) (by omega))) pos

/-- A seek that overflows nowhere goes to the position for the second. -/
theorem seekPosition_eq {start_time : ℤ} (hpos : 0 ≤ state.current_pos) (hlen : state.current_pos ≤ state.length)
    (hlength : state.length < 2 ^ 63) (hstart : 0 ≤ start_time) (hend : start_time ≤ state.time_length)
    (h : Interpolates state.currentTime (state.time_length.tdiv 1000) state.current_pos state.length) :
    seekPosition state 0 start_time = some (positionAt state.currentTime (state.time_length.tdiv 1000) state.current_pos
      state.length (start_time.tdiv 1000)) := by
  have hs : 0 ≤ start_time.tdiv 1000 := Int.tdiv_nonneg hstart (by decide)
  have hT : start_time.tdiv 1000 ≤ state.time_length.tdiv 1000 := Int.tdiv_le_tdiv (by decide) hend
  unfold seekPosition
  dsimp only
  generalize start_time.tdiv 1000 = s at *
  generalize state.time_length.tdiv 1000 = T at *
  generalize state.currentTime = c at *
  by_cases hzero : s = 0
  · rw [if_neg fun h => h.2 hzero]
    exact congrArg some (if_pos hzero).symm
  · obtain ⟨hafter, hbefore⟩ := h (by omega)
    rw [if_pos ⟨rfl, hzero⟩, if_pos (by omega)]
    unfold positionAt
    rw [if_neg hzero]
    split
    · rename_i hc
      have hle : s * state.current_pos ≤ min (c - 1) T * state.current_pos :=
        Int.mul_le_mul_of_nonneg_right (by omega) hpos
      have hn := Int.mul_nonneg hs hpos
      rw [signed_of_lt hn (Int.lt_of_le_of_lt hle (hbefore (by omega))), Option.map_some, Int.tdiv_eq_ediv_of_nonneg hn]
    · rename_i hc
      obtain ⟨hne, hrest, hprod⟩ := hafter (by omega)
      have hle : (s - c) * (state.length - state.current_pos) ≤ (T - c) * (state.length - state.current_pos) :=
        Int.mul_le_mul_of_nonneg_right (by omega) (by omega)
      have hn : 0 ≤ (s - c) * (state.length - state.current_pos) := Int.mul_nonneg (by omega) (by omega)
      have hbounds := positionAt_bounds (c := c) (T := T) hpos hlen hs hT fun _ _ => hne
      unfold positionAt at hbounds
      rw [if_neg hzero, if_neg hc, if_neg hc] at hbounds
      rw [signed_of_lt (by omega) (show s - c < 2 ^ 31 by omega), Option.bind_some,
        signed_of_lt hn (Int.lt_of_le_of_lt hle hprod), Option.bind_some, signed_of_lt (by omega) hrest, Option.bind_some,
        if_neg (by omega), Int.tdiv_eq_ediv_of_nonneg hn]
      exact signed_of_lt hbounds.1 (Int.lt_of_le_of_lt hbounds.2 hlength)

theorem seekRight_iff (hpos : 0 ≤ state.current_pos) (hlen : state.current_pos ≤ state.length)
    (hlength : state.length < 2 ^ 63) : SeekRight state ↔
      Interpolates state.currentTime (state.time_length.tdiv 1000) state.current_pos state.length := by
  constructor
  · rintro ⟨hlands, -⟩ hT
    -- The seek to a second in the stream overflows nowhere.
    have hseek (s : ℤ) (hs : 1 ≤ s) (hsT : s ≤ state.time_length.tdiv 1000) :
        ∃ p, (if s < state.currentTime then
            (signed 64 (s * state.current_pos)).map fun n => n.tdiv state.currentTime
          else (signed 32 (s - state.currentTime)).bind fun ahead =>
            (signed 64 (ahead * (state.length - state.current_pos))).bind fun n =>
              (signed 32 (state.time_length.tdiv 1000 - state.currentTime)).bind fun rest =>
                if rest = 0 then none else signed 64 (state.current_pos + n.tdiv rest)) = some p := by
      have htime : 0 ≤ state.time_length := Int.not_lt.1 fun hneg => by
        have hle : state.time_length.tdiv 1000 ≤ 0 := Int.tdiv_le_tdiv (by decide) (Int.le_of_lt hneg)
        omega
      rw [Int.tdiv_eq_ediv_of_nonneg htime] at hsT
      obtain ⟨p, hp, -, -⟩ := hlands (1000 * s) (by omega) (by omega)
      have hsec : (1000 * s).tdiv 1000 = s := Int.mul_tdiv_cancel_left s (by decide)
      unfold seekPosition at hp
      dsimp only at hp
      rw [hsec, if_pos ⟨rfl, by omega⟩, if_pos (by omega)] at hp
      exact ⟨p, hp⟩
    generalize state.time_length.tdiv 1000 = T at *
    generalize state.currentTime = c at *
    constructor
    · intro hcT
      obtain ⟨p, hp⟩ := hseek T hT (Int.le_refl T)
      rw [if_neg (by omega)] at hp
      obtain ⟨ahead, hahead, hp⟩ := Option.bind_eq_some_iff.1 hp
      obtain ⟨m, hm, hp⟩ := Option.bind_eq_some_iff.1 hp
      rw [hahead, Option.bind_some] at hp
      rw [← signed_eq_some hahead] at hp hm
      split at hp
      · cases hp
      · rename_i hrest
        exact ⟨by omega, signed_isSome (Option.isSome_of_eq_some hahead), signed_isSome (Option.isSome_of_eq_some hm)⟩
    · intro hc
      obtain ⟨p, hp⟩ := hseek (min (c - 1) T) (by omega) (by omega)
      rw [if_pos (by omega)] at hp
      obtain ⟨m, hm, -⟩ := Option.map_eq_some_iff.1 hp
      exact signed_isSome (Option.isSome_of_eq_some hm)
  · intro h
    have heq {start_time : ℤ} (hstart : 0 ≤ start_time) (hend : start_time ≤ state.time_length) :=
      seekPosition_eq hpos hlen hlength hstart hend h
    have hsec {start_time : ℤ} (hstart : 0 ≤ start_time) (hend : start_time ≤ state.time_length) :
        0 ≤ start_time.tdiv 1000 ∧ start_time.tdiv 1000 ≤ state.time_length.tdiv 1000 :=
      ⟨Int.tdiv_nonneg hstart (by decide), Int.tdiv_le_tdiv (by decide) hend⟩
    have hcT {s : ℤ} (hs : 0 ≤ s) (hsT : s ≤ state.time_length.tdiv 1000) (hzero : s ≠ 0)
        (hc : state.currentTime ≤ state.time_length.tdiv 1000) : state.currentTime ≠ state.time_length.tdiv 1000 :=
      ((h (by omega)).1 hc).1
    constructor
    · intro start_time hstart hend
      obtain ⟨hs, hsT⟩ := hsec hstart hend
      obtain ⟨hlow, hhigh⟩ := positionAt_bounds hpos hlen hs hsT (hcT hs hsT)
      refine ⟨_, heq hstart hend, hlow, Int.le_trans hhigh ?_⟩
      split <;> omega
    · intro start_time start_time' p p' hstart hle hend hp hp'
      cases (heq hstart (by omega)).symm.trans hp
      cases (heq (by omega) hend).symm.trans hp'
      obtain ⟨hs, hsT⟩ := hsec (Int.le_trans hstart hle) hend
      exact positionAt_mono hpos hlen (hsec hstart (by omega)).1 (Int.tdiv_le_tdiv (by decide) hle) hsT (hcT hs hsT)

end Seek

/-- The length of a stream is found and its times can be sought if and only if the comparisons of the pages go right,
the bits of the file fit in an `int` and have a time, and the interpolation divides by no zero and does not overflow. -/
theorem times_iff (this : Demuxer) (avg_bitrate length : ℤ) (pages : List Page) {state : SeekState}
    (hpos : 0 ≤ state.current_pos) (hlen : state.current_pos ≤ state.length) (hlength : state.length < 2 ^ 63) :
    LengthRight this avg_bitrate length pages ∧ SeekRight state ↔
      (PagesRight this (-1) pages ∧ BitrateRight avg_bitrate length (pages.foldl (later this) (-1))) ∧
        Interpolates state.currentTime (state.time_length.tdiv 1000) state.current_pos state.length :=
  and_congr lengthRight_iff (seekRight_iff hpos hlen hlength)

/-- A stream of a minute in a file of a million bytes, of which half a minute has been played. -/
def minute : SeekState := ⟨60000, 1, 2700000, 0, 500000, 1000000⟩

def secondsStream : Demuxer := ⟨[⟨7, false, -1, 90000, 1⟩], 0, 0⟩

theorem times_iff_minute : LengthRight secondsStream 1 200000 [⟨7, 60⟩] ∧ SeekRight minute ↔
    (PagesRight secondsStream (-1) [⟨7, 60⟩] ∧ BitrateRight 1 200000 ([⟨7, 60⟩].foldl (later secondsStream) (-1))) ∧
      Interpolates 30 60 500000 1000000 :=
  @times_iff secondsStream 1 200000 [⟨7, 60⟩] minute (by decide) (by decide) (by decide)

/-- A file of a million bytes has too many bits for an `int`. -/
theorem not_times : ¬∀ this avg_bitrate length pages (state : SeekState), 0 < avg_bitrate → 0 ≤ state.current_pos →
    state.current_pos ≤ state.length → state.length < 2 ^ 63 →
      LengthRight this avg_bitrate length pages ∧ SeekRight state := by
  intro h
  obtain ⟨⟨-, bitrate, avg, heq, -⟩, -⟩ :=
    h secondsStream 1 1000000 [⟨7, 60⟩] minute (by decide) (by decide) (by decide) (by decide)
  have hnone : getStreamLength secondsStream 1 1000000 [⟨7, 60⟩] = none := by decide
  rw [hnone] at heq
  cases heq

end Xine.Ogg
