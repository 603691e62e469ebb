import Xine.Library.Searches
import Xine.Qt.FrameTable

/-!
# Seeking in a trak

`binary_seek` of `demux_qt.c`. Its two loops halve the frame table in the same way, and both
keep a bracket around the target, whatever the order of the frames is. What can go wrong is the arithmetic
of `int`: the start time in units of 1/90000 s, and the sum of two indexes.
-/

namespace Xine.Qt

open Bisection Walks

/-- An `int`, unless what is computed is none. -/
def int (i : ℤ) : Option ℤ := if -2 ^ 31 ≤ i ∧ i < 2 ^ 31 then some i else none

/-- `(left + right + 1) / 2`. -/
def middleOf (left right : ℤ) : Option ℤ := do
  let sum ← int (left + right)
  let sum ← int (sum + 1)
  return sum.tdiv 2

/-- What `binary_seek` comes to: `DEMUX_FINISHED`, or `DEMUX_OK` with a new current frame. -/
inductive Sought where
  | finished
  | ok (current_frame : ℤ)

namespace FrameTable

/-- The condition of the loop that looks for an offset. The next frame is not read if this one is behind the
offset. -/
def found (t : FrameTable) (start_pos middle : ℤ) : Option Bool := do
  let frame ← t.frame middle
  if start_pos ≥ frame.offset then do
    let next ← t.frame (middle + 1)
    some (start_pos < next.offset)
  else some false

/-- The loop that looks for an offset. It fails where an index is outside of the table. -/
def offsetLoop (t : FrameTable) (start_pos : ℤ) : ℕ → ℤ × ℤ → Option ℤ
  | 0, _ => none
  | fuel + 1, (left, right) => do
    let middle ← middleOf left right
    if ← t.found start_pos middle then some middle
    else
      let frame ← t.frame middle
      if start_pos < frame.offset then offsetLoop t start_pos fuel (left, middle - 1)
      else offsetLoop t start_pos fuel (middle, right)

/-- The loop that looks for a time. -/
def timeLoop (t : FrameTable) (pts : ℤ) : ℕ → ℤ × ℤ → Option ℤ
  | 0, _ => none
  | fuel + 1, (left, right) => do
    let middle ← middleOf left right
    let frame ← t.frame middle
    let range := if pts < frame.pts then (left, middle - 1) else (middle, right)
    if range.1 < range.2 then timeLoop t pts fuel range else some range.1

def binarySeek (t : FrameTable) (start_pos start_time : ℤ) (fuel : ℕ) : Option Sought :=
  if start_pos ≠ 0 then do
    let first ← t.frame 0
    if start_pos ≤ first.offset then some (.ok 0)
    else
      let last ← t.frame (t.frame_count - 1)
      if start_pos ≥ last.offset then some .finished
      else (t.offsetLoop start_pos fuel (0, t.frame_count - 1)).map .ok
  else do
    let pts ← int (90 * start_time)
    let first ← t.frame 0
    if pts ≤ first.pts then some (.ok 0)
    else
      let last ← t.frame (t.frame_count - 1)
      if pts ≥ last.pts then some .finished
      else (t.timeLoop pts fuel (0, t.frame_count - 1)).map .ok

variable {t : FrameTable} {start_pos start_time pts target : ℤ} {key : ℕ → ℤ} {n fuel : ℕ} {r : ℕ × ℕ}

/-! ## The loops -/

/-- The sum of the ends of a range and one is an `int`. -/
def SumFits (r : ℕ × ℕ) : Prop := r.1 + r.2 + 1 < 2 ^ 31

/-- The loop that looks for an offset stops at a range with the place it looks for in the middle. -/
def Found (key : ℕ → ℤ) (target : ℤ) (n : ℕ) (r : ℕ × ℕ) : Prop := Between key target n (middle r)

/-- The loop that looks for a time stops at a range with a half of one place. -/
def Narrow (key : ℕ → ℤ) (target : ℤ) (r : ℕ × ℕ) : Prop :=
  ¬(half key target r).1 < (half key target r).2

instance : DecidablePred (Found key target n) := fun r => by
  unfold Found Between
  infer_instance

instance : DecidablePred (Narrow key target) := fun r => by
  unfold Narrow
  infer_instance

theorem int_eq_some {i : ℤ} (h : -2 ^ 31 ≤ i) (h' : i < 2 ^ 31) : int i = some i := if_pos ⟨h, h'⟩

theorem middleOf_eq_some (h : SumFits r) : middleOf r.1 r.2 = some (middle r : ℤ) := by
  unfold SumFits at h
  unfold middleOf middle
  rw [int_eq_some (by omega) (by omega), Option.bind_eq_bind, Option.bind_some,
    int_eq_some (by omega) (by omega)]
  refine congrArg some ?_
  rw [Int.tdiv_eq_ediv_of_nonneg (by omega)]
  push_cast
  rfl

theorem middleOf_eq_none (h : ¬SumFits r) : middleOf r.1 r.2 = none := by
  unfold SumFits at h
  unfold middleOf int
  by_cases hsum : -2 ^ 31 ≤ (r.1 : ℤ) + r.2 ∧ (r.1 : ℤ) + r.2 < 2 ^ 31
  · rw [if_pos hsum, Option.bind_eq_bind, Option.bind_some, if_neg (by omega)]
    rfl
  · rw [if_neg hsum]
    rfl

theorem found_eq (h : Bracket (t.key QtFrame.offset) start_pos t.frame_count r) :
    t.found start_pos (middle r) =
      some (decide (Found (t.key QtFrame.offset) start_pos t.frame_count r)) := by
  obtain ⟨frame, hframe, hoffset⟩ := exists_frame h.middle_lt QtFrame.offset
  unfold found
  rw [hframe, Option.bind_eq_bind, Option.bind_some, hoffset]
  by_cases hle : start_pos ≥ t.key QtFrame.offset (middle r)
  · have hnext := h.succ_lt h.middle_lt hle
    obtain ⟨next, hget, hkey⟩ := exists_frame hnext QtFrame.offset
    rw [if_pos hle, ← Nat.cast_succ, hget, Option.bind_some, hkey]
    refine congrArg some (decide_eq_decide.2 ?_)
    exact ⟨fun hlt => ⟨hnext, hle, hlt⟩, fun hfound => hfound.2.2⟩
  · rw [if_neg hle]
    exact congrArg some (decide_eq_false fun hfound => hle hfound.2.1).symm

theorem half_cast (hpos : target < key (middle r) → 0 < middle r) :
    (((half key target r).1 : ℤ), ((half key target r).2 : ℤ)) =
      if target < key (middle r) then ((r.1 : ℤ), (middle r : ℤ) - 1)
      else ((middle r : ℤ), (r.2 : ℤ)) := by
  unfold half
  split_ifs with hbelow
  · rw [Nat.cast_sub (hpos hbelow)]
    rfl
  · rfl

theorem offsetLoop_succ (h : Bracket (t.key QtFrame.offset) start_pos t.frame_count r)
    (hsum : SumFits r) :
    t.offsetLoop start_pos (fuel + 1) (r.1, r.2) =
      if Found (t.key QtFrame.offset) start_pos t.frame_count r then some (middle r : ℤ)
      else t.offsetLoop start_pos fuel
        ((half (t.key QtFrame.offset) start_pos r).1, (half (t.key QtFrame.offset) start_pos r).2) := by
  obtain ⟨frame, hframe, hoffset⟩ := exists_frame h.middle_lt QtFrame.offset
  have hpos : start_pos < t.key QtFrame.offset (middle r) → 0 < middle r := by
    intro hbelow
    by_contra hzero
    have hfirst : r.1 = middle r := le_antisymm (middle_le h.ordered).1 (by omega)
    exact (hfirst ▸ h.low).not_gt hbelow
  rw [offsetLoop, middleOf_eq_some hsum, Option.bind_eq_bind, Option.bind_some, found_eq h,
    Option.bind_eq_bind, Option.bind_some, hframe, Option.bind_eq_bind, Option.bind_some, hoffset,
    half_cast hpos]
  simp only [decide_eq_true_eq]
  split_ifs <;> rfl

theorem timeLoop_succ (h : Bracket (t.key QtFrame.pts) pts t.frame_count r) (hlt : r.1 < r.2)
    (hsum : SumFits r) :
    t.timeLoop pts (fuel + 1) (r.1, r.2) =
      if Narrow (t.key QtFrame.pts) pts r then some ((half (t.key QtFrame.pts) pts r).1 : ℤ)
      else t.timeLoop pts fuel
        ((half (t.key QtFrame.pts) pts r).1, (half (t.key QtFrame.pts) pts r).2) := by
  obtain ⟨frame, hframe, hpts⟩ := exists_frame h.middle_lt QtFrame.pts
  have hpos : 0 < middle r := (Nat.zero_le _).trans_lt (lt_middle hlt)
  rw [timeLoop, middleOf_eq_some hsum, Option.bind_eq_bind, Option.bind_some, hframe,
    Option.bind_eq_bind, Option.bind_some, hpts]
  dsimp only
  rw [← half_cast fun _ => hpos]
  unfold Narrow
  rw [ite_not]
  simp only [Nat.cast_lt]

theorem lt_of_not_found (h : Bracket key target n r) (hfound : ¬Found key target n r) : r.1 < r.2 := by
  refine h.ordered.lt_of_ne fun heq => hfound ?_
  obtain ⟨hge, hle⟩ := middle_le h.ordered
  have hmiddle : middle r = r.1 := le_antisymm (heq ▸ hle) hge
  unfold Found
  rw [hmiddle]
  exact h.between heq

theorem lt_of_not_narrow (h : r.1 ≤ r.2) (hnarrow : ¬Narrow key target r) : r.1 < r.2 := by
  refine h.lt_of_ne fun heq => hnarrow ?_
  obtain ⟨hge, hle⟩ := middle_le h
  unfold Narrow half
  split_ifs <;> dsimp only <;> omega

theorem rounds_offset :
    Rounds (fun fuel (r : ℕ × ℕ) => t.offsetLoop start_pos fuel (r.1, r.2))
      (halving (t.key QtFrame.offset) start_pos (Found (t.key QtFrame.offset) start_pos t.frame_count))
      SumFits (Bracket (t.key QtFrame.offset) start_pos t.frame_count) (fun r => (middle r : ℤ))
      (fun r => r.2 - r.1) where
  fails r hr hsum fuel := by
    rw [offsetLoop, middleOf_eq_none hsum]
    rfl
  stops r hr hsum hstop fuel := by
    rw [offsetLoop_succ hr hsum, if_pos (halving_eq_none_iff.1 hstop)]
  goes r hr hsum s hs fuel := by
    obtain ⟨hfound, rfl⟩ := halving_eq_some_iff.1 hs
    rw [offsetLoop_succ hr hsum, if_neg hfound]
  keeps r hr s hs := by
    obtain ⟨hfound, rfl⟩ := halving_eq_some_iff.1 hs
    have hlt := lt_of_not_found hr hfound
    exact ⟨hr.half hlt, half_lt hlt⟩

theorem rounds_time :
    Rounds (fun fuel (r : ℕ × ℕ) => t.timeLoop pts fuel (r.1, r.2))
      (halving (t.key QtFrame.pts) pts (Narrow (t.key QtFrame.pts) pts)) SumFits
      (fun r => Bracket (t.key QtFrame.pts) pts t.frame_count r ∧ r.1 < r.2)
      (fun r => ((half (t.key QtFrame.pts) pts r).1 : ℤ)) (fun r => r.2 - r.1) where
  fails r hr hsum fuel := by
    rw [timeLoop, middleOf_eq_none hsum]
    rfl
  stops r hr hsum hstop fuel := by
    rw [timeLoop_succ hr.1 hr.2 hsum, if_pos (halving_eq_none_iff.1 hstop)]
  goes r hr hsum s hs fuel := by
    obtain ⟨hnarrow, rfl⟩ := halving_eq_some_iff.1 hs
    rw [timeLoop_succ hr.1 hr.2 hsum, if_neg hnarrow]
  keeps r hr s hs := by
    obtain ⟨hnarrow, rfl⟩ := halving_eq_some_iff.1 hs
    exact ⟨⟨hr.1.half hr.2, not_not.1 hnarrow⟩, half_lt hr.2⟩

/-! ## The whole search -/

/-- What the search should come to for `n` keys: the end, if the target is at or behind the last of them and
behind the first; the first place, if it is not behind the first; a place with the target between its key and
the next one in all other cases. -/
def Correct (key : ℕ → ℤ) (target : ℤ) (n : ℕ) : Sought → Prop
  | .finished => key 0 < target ∧ key (n - 1) ≤ target
  | .ok current_frame =>
    target ≤ key 0 ∧ current_frame = 0 ∨
      key 0 < target ∧ target < key (n - 1) ∧ ∃ k : ℕ, current_frame = k ∧ Between key target n k

/-- The search with its tests of the boundaries. -/
def bounded (key : ℕ → ℤ) (target : ℤ) (n : ℕ) (loop : ℕ → Option ℤ) (fuel : ℕ) : Option Sought :=
  if target ≤ key 0 then some (.ok 0)
  else if target ≥ key (n - 1) then some .finished
  else (loop fuel).map .ok

theorem bounded_iff {loop : ℕ → Option ℤ} {fits : Prop}
    (hloop : key 0 < target → target < key (n - 1) → ((∃ v, Fuel.Settles loop (some v)) ↔ fits))
    (hbetween : key 0 < target → target < key (n - 1) → ∀ v, Fuel.Settles loop (some v) →
      ∃ k : ℕ, v = k ∧ Between key target n k) :
    (∃ result, Fuel.Settles (bounded key target n loop) (some result) ∧ Correct key target n result) ↔
      (key 0 < target → target < key (n - 1) → fits) := by
  by_cases hfirst : target ≤ key 0
  · have hconst : bounded key target n loop = fun _ => some (.ok 0) :=
      funext fun _ => if_pos hfirst
    rw [hconst]
    exact iff_of_true ⟨_, Fuel.Settles.const _, .inl ⟨hfirst, rfl⟩⟩ fun h => absurd hfirst h.not_ge
  by_cases hlast : target ≥ key (n - 1)
  · have hconst : bounded key target n loop = fun _ => some .finished :=
      funext fun _ => (if_neg hfirst).trans (if_pos hlast)
    rw [hconst]
    exact iff_of_true ⟨_, Fuel.Settles.const _, lt_of_not_ge hfirst, hlast⟩
      fun _ h => absurd hlast h.not_ge
  have hmap : bounded key target n loop = fun fuel => (loop fuel).map .ok :=
    funext fun _ => (if_neg hfirst).trans (if_neg hlast)
  have hgt := lt_of_not_ge hfirst
  have hlt := lt_of_not_ge hlast
  rw [hmap]
  constructor
  · rintro ⟨result, hsettles, -⟩ - -
    obtain ⟨v, hv, -⟩ := hsettles.of_map fun _ _ => Sought.ok.inj
    exact (hloop hgt hlt).1 ⟨v, hv⟩
  · intro hfits
    obtain ⟨v, hv⟩ := (hloop hgt hlt).2 (hfits hgt hlt)
    exact ⟨.ok v, hv.map Sought.ok, .inr ⟨hgt, hlt, hbetween hgt hlt v hv⟩⟩

/-- No range that halving all frames comes to has ends with a sum that is too large for an `int`. -/
def SumsFit (key : ℕ → ℤ) (target : ℤ) (n : ℕ) (stop : ℕ × ℕ → Prop) [DecidablePred stop] : Prop :=
  key 0 < target → target < key (n - 1) →
    ∀ r, Reaches (halving key target stop) (0, n - 1) r → SumFits r

theorem binarySeek_offset (hne : 0 < t.frame_count) (hpos : start_pos ≠ 0) (start_time : ℤ) :
    t.binarySeek start_pos start_time =
      bounded (t.key QtFrame.offset) start_pos t.frame_count
        fun fuel => t.offsetLoop start_pos fuel ((0 : ℕ), (t.frame_count - 1 : ℕ)) := by
  obtain ⟨first, hfirst, hfirstkey⟩ := exists_frame hne QtFrame.offset
  obtain ⟨last, hlast, hlastkey⟩ := exists_frame (Nat.sub_one_lt_of_lt hne) QtFrame.offset
  rw [Nat.cast_sub hne] at hlast
  funext fuel
  unfold binarySeek bounded
  rw [if_pos hpos, ← hfirstkey, ← hlastkey, Nat.cast_sub hne]
  erw [hfirst]
  rw [Option.bind_eq_bind, Option.bind_some]
  erw [hlast]
  rfl

theorem binarySeek_time (hne : 0 < t.frame_count) {start_time : ℤ}
    (hint : int (90 * start_time) = some pts) :
    t.binarySeek 0 start_time =
      bounded (t.key QtFrame.pts) pts t.frame_count
        fun fuel => t.timeLoop pts fuel ((0 : ℕ), (t.frame_count - 1 : ℕ)) := by
  obtain ⟨first, hfirst, hfirstkey⟩ := exists_frame hne QtFrame.pts
  obtain ⟨last, hlast, hlastkey⟩ := exists_frame (Nat.sub_one_lt_of_lt hne) QtFrame.pts
  rw [Nat.cast_sub hne] at hlast
  funext fuel
  unfold binarySeek bounded
  rw [if_neg (not_not.2 rfl), hint, ← hfirstkey, ← hlastkey, Nat.cast_sub hne]
  erw [hfirst]
  rw [Option.bind_eq_bind, Option.bind_some]
  erw [hlast]
  rfl

/-- The computations of `binary_seek` are such of an `int`: that of the time, which is made if the start
position is zero, and those of the sums of two indexes. -/
def SeekFits (t : FrameTable) (start_pos start_time : ℤ) : Prop :=
  if start_pos ≠ 0 then
    SumsFit (t.key QtFrame.offset) start_pos t.frame_count
      (Found (t.key QtFrame.offset) start_pos t.frame_count)
  else
    (-2 ^ 31 ≤ 90 * start_time ∧ 90 * start_time < 2 ^ 31) ∧
      SumsFit (t.key QtFrame.pts) (90 * start_time) t.frame_count
        (Narrow (t.key QtFrame.pts) (90 * start_time))

/-- The search comes to an end inside of the table, and to what it should. -/
def Seeks (t : FrameTable) (start_pos start_time : ℤ) : Prop :=
  ∃ result, Fuel.Settles (t.binarySeek start_pos start_time) (some result) ∧
    if start_pos ≠ 0 then Correct (t.key QtFrame.offset) start_pos t.frame_count result
    else Correct (t.key QtFrame.pts) (90 * start_time) t.frame_count result

theorem seeks_offset_iff (hne : 0 < t.frame_count) (hpos : start_pos ≠ 0) (start_time : ℤ) :
    t.Seeks start_pos start_time ↔ t.SeekFits start_pos start_time := by
  unfold Seeks SeekFits
  rw [if_pos hpos, binarySeek_offset hne hpos]
  simp only [if_pos hpos]
  refine bounded_iff ?_ ?_
  · intro hfirst hlast
    exact rounds_offset.settles_iff (Bracket.whole hne hfirst.le hlast)
  · intro hfirst hlast v hv
    have hwhole := Bracket.whole hne hfirst.le hlast
    obtain ⟨r, -, hstop, hr⟩ := rounds_offset.settles hwhole fun _ => rounds_offset.ok hwhole hv
    exact ⟨middle r, Option.some.inj (hv.unique hr), halving_eq_none_iff.1 hstop⟩

theorem seeks_time_iff (hne : 0 < t.frame_count) (start_time : ℤ) :
    t.Seeks 0 start_time ↔ t.SeekFits 0 start_time := by
  have hzero : ¬(0 : ℤ) ≠ 0 := not_not.2 rfl
  unfold Seeks SeekFits
  rw [if_neg hzero]
  simp only [if_neg hzero]
  by_cases hint : -2 ^ 31 ≤ 90 * start_time ∧ 90 * start_time < 2 ^ 31
  · rw [binarySeek_time hne (int_eq_some hint.1 hint.2), and_iff_right hint]
    -- there are two frames, since the keys of the first and the last one differ
    have hlt : t.key QtFrame.pts 0 < 90 * start_time →
        90 * start_time < t.key QtFrame.pts (t.frame_count - 1) → 0 < t.frame_count - 1 := by
      intro hfirst hlast
      by_contra hend
      rw [Nat.eq_zero_of_not_pos hend] at hlast
      exact hfirst.not_gt hlast
    refine bounded_iff ?_ ?_
    · intro hfirst hlast
      exact rounds_time.settles_iff ⟨Bracket.whole hne hfirst.le hlast, hlt hfirst hlast⟩
    · intro hfirst hlast v hv
      have hwhole := Bracket.whole hne hfirst.le hlast
      have hinv := And.intro hwhole (hlt hfirst hlast)
      obtain ⟨r, hreach, hstop, hr⟩ := rounds_time.settles hinv fun _ => rounds_time.ok hinv hv
      obtain ⟨hbracket, hrange⟩ := rounds_time.inv hinv hreach
      have hhalf := hbracket.half hrange
      have heq := le_antisymm hhalf.ordered (not_lt.1 (halving_eq_none_iff.1 hstop))
      exact ⟨_, Option.some.inj (hv.unique hr), hhalf.between heq⟩
  · refine iff_of_false ?_ fun h => hint h.1
    rintro ⟨result, hsettles, -⟩
    have hnone : t.binarySeek 0 start_time = fun _ => none := by
      funext fuel
      unfold binarySeek int
      rw [if_neg hzero, if_neg hint]
      rfl
    rw [hnone] at hsettles
    exact Option.some_ne_none result (hsettles.unique (Fuel.Settles.const none))

theorem sumsFit_of_le (hle : n ≤ 2 ^ 30) (hne : 0 < n) {stop : ℕ × ℕ → Prop} [DecidablePred stop]
    (hlt : ∀ r, Bracket key target n r → ¬stop r → r.1 < r.2) : SumsFit key target n stop := by
  intro hfirst hlast r hr
  have hbracket : Bracket key target n r := by
    refine hr.invariant (Bracket.whole hne hfirst.le hlast) ?_
    intro u _ hu v hv
    obtain ⟨hstop, rfl⟩ := halving_eq_some_iff.1 hv
    exact hu.half (hlt u hu hstop)
  have hordered := hbracket.ordered
  have hinside := hbracket.inside
  unfold SumFits
  omega

theorem seekFits_of_le (hle : t.frame_count ≤ 2 ^ 30) (hne : 0 < t.frame_count) {start_time : ℤ}
    (hint : start_pos = 0 → -2 ^ 31 ≤ 90 * start_time ∧ 90 * start_time < 2 ^ 31) :
    t.SeekFits start_pos start_time := by
  unfold SeekFits
  split_ifs with hpos
  · exact sumsFit_of_le hle hne fun r hr => lt_of_not_found hr
  · exact ⟨hint (not_not.1 hpos), sumsFit_of_le hle hne fun r hr => lt_of_not_narrow hr.ordered⟩

/-- In a table with frames, `binary_seek` ends, reads no frame outside of the table and comes to the end or to
the frame that it should come to if and only if its computations are such of an `int`. -/
theorem seeks_iff_seekFits (t : FrameTable) (hne : t.frames ≠ []) (start_pos start_time : ℤ) :
    t.Seeks start_pos start_time ↔ t.SeekFits start_pos start_time := by
  have hcount : 0 < t.frame_count := List.length_pos_iff.2 hne
  by_cases hpos : start_pos = 0
  · rw [hpos]
    exact seeks_time_iff hcount start_time
  · exact seeks_offset_iff hcount hpos start_time

/-- Frames that are not in the order of their times, the last of which is eight hours in. -/
def longTable : FrameTable where
  frames := [⟨40, 10, 0, true, 1⟩, ⟨50, 10, 7200, false, 1⟩, ⟨60, 10, 3600, false, 1⟩,
    ⟨70, 10, 2592000000, false, 1⟩]
  length_le := by decide

theorem longTable_seeks : longTable.Seeks 0 60 :=
  (seeks_iff_seekFits longTable (by decide) 0 60).2
    (seekFits_of_le (by decide) (by decide) fun _ => by decide)

/-- A time of more than 6 hours and 37 minutes is not an `int` in units of 1/90000 s. -/
theorem longTable_not_seeks : ¬longTable.Seeks 0 24000000 := by
  rw [seeks_time_iff (by decide)]
  intro h
  unfold SeekFits at h
  rw [if_neg (by decide)] at h
  exact absurd h.1.2 (by decide)

end FrameTable

end Xine.Qt
