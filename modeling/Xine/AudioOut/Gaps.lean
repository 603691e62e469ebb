import Mathlib.Algebra.Order.Field.Rat
import Mathlib.Algebra.Order.Ring.Abs
import Mathlib.Tactic.Ring
import Xine.AudioOut.System
import Xine.Library.Runs

/-!
# The gap between a buffer and the clock

What `ao_loop` of `audio_out.c` decides by the gap between the vpts of a buffer and the time
at the end of the hardware buffer, and what `resample_rate_adjust` makes of the gap when the drift of the
sound card is corrected by resampling. Both take the magnitude of the gap with `abs`, whose argument is
converted to `int`, while the gap has 64 bits.

The functions take the magnitude as an argument. `absInt` is that of the code, and `magnitude` the true one.
The factors are exact rationals, and a division by zero, which is an infinity in the source, is zero.
-/

namespace Xine.AudioOut

/-- `abs`, whose argument is converted to `int`. It is undefined for the least `int`. -/
def absInt (x : ℤ) : Option ℤ := if (BitVec.ofInt 32 x).toInt = -2 ^ 31 then none else some (cAbs x)

/-- The magnitude of a number. -/
def magnitude (x : ℤ) : Option ℤ := some |x|

/-! ## The correction of the drift -/

/-- `resample_sync_t`, and the `resample_sync_factor` of the port. -/
structure ResampleSync where
  last_factor : ℚ
  window : ℤ
  reduce_gap : Bool
  window_duration : BitVec 64
  last_vpts : BitVec 64
  recent_gap : List ℤ
  last_avg_gap : ℤ
  valid : Bool
  resample_sync_factor : ℚ

namespace ResampleSync

/-- As the port is set up. -/
def start : ResampleSync := ⟨0, 0, false, 0, 0, List.replicate 8 0, 0, false, 0⟩

/-- A gap becomes the most recent one. -/
def record (s : ResampleSync) (gap : ℤ) : ResampleSync := { s with recent_gap := s.recent_gap.tail ++ [gap] }

/-- The average of the recent gaps. -/
def avgGap (s : ResampleSync) : ℤ := (s.recent_gap.foldl (fun sum gap => sum + gap) 0).tdiv 8

/-- The start of a measurement, if there is none. -/
def begin (s : ResampleSync) (gap : ℤ) : ResampleSync :=
  if s.valid then s
  else { s with
    resample_sync_factor := 1
    window := 0
    reduce_gap := false
    last_avg_gap := gap
    last_factor := 0
    window_duration := 0
    last_vpts := 0
    valid := true }

/-- What is done about an average gap and its magnitude. -/
def adjust (s : ResampleSync) (avg_gap abs_gap : ℤ) (vpts : BitVec 64) : ResampleSync :=
  if abs_gap > 200 ∧ s.reduce_gap = false then
    { s with reduce_gap := true, resample_sync_factor := if avg_gap < 0 then 0.995 else 1.005 }
  else if s.reduce_gap = true ∧ abs_gap < 50 then { s with reduce_gap := false, valid := false }
  else if s.reduce_gap = true then
    { s with
      resample_sync_factor :=
        if abs_gap > 300 then (if avg_gap < 0 then 0.995 else 1.005)
        else (if avg_gap < 0 then 0.998 else 1.002) }
  else if s.window > 50 then
    let gap_diff := avg_gap - s.last_avg_gap
    if gap_diff < 150 then
      let duration := s.window_duration.toInt + s.last_factor.num.tdiv s.last_factor.den
      let factor : ℚ := gap_diff / duration
      { s with
        last_factor := factor
        resample_sync_factor := 1 + factor
        last_avg_gap := avg_gap
        window_duration := 0
        window := 0 }
    else { s with valid := false }
  else
    { s with
      window_duration := if s.window > 0 then s.window_duration + (vpts - s.last_vpts) else s.window_duration
      last_vpts := vpts
      window := s.window + 1 }

/-- `resample_rate_adjust`, with the value that it returns. -/
def resampleRateAdjust (abs : ℤ → Option ℤ) (s : ResampleSync) (gap : ℤ) (vpts : BitVec 64) :
    Option (ResampleSync × ℤ) :=
  (abs gap).bind fun abs_gap =>
    if abs_gap > aoMaxGap then some ({ s with valid := false }, -1)
    else
      let s := (s.begin gap).record gap
      (abs s.avgGap).map fun abs_avg => (s.adjust s.avgGap abs_avg vpts, 0)

end ResampleSync

/-! ## The decision -/

/-- What `ao_loop` does with a buffer. -/
inductive GapAction where
  | drop
  | feedback (adjustment : ℤ)
  | silence (gap : ℤ)
  | play
  deriving DecidableEq

/-- What a round of `ao_loop` has when it has computed the gap. -/
structure Round where
  gap : ℤ
  vpts : BitVec 64
  num_frames : ℤ
  cur_time : ℤ
  last_sync_time : ℤ
  bufs_since_sync : ℤ
  gap_tolerance : ℤ
  resample_sync_method : Bool

namespace Round

/-- The metronoms may be given a gap again. -/
def Due (r : Round) : Prop :=
  r.cur_time > r.last_sync_time + syncTimeInterval ∧ r.bufs_since_sync ≥ syncBufInterval ∧
    r.resample_sync_method = false

instance (r : Round) : Decidable r.Due := inferInstanceAs (Decidable (_ ∧ _ ∧ _))

/-- The choice by the gap. -/
def gapAction (abs : ℤ → Option ℤ) (r : Round) : Option GapAction :=
  if r.gap < -aoMaxGap ∨ r.num_frames = 0 then some .drop
  else (abs r.gap).map fun abs_gap =>
    if abs_gap < aoMaxGap ∧ abs_gap > r.gap_tolerance ∧ r.Due then .feedback ((-r.gap).tdiv 4)
    else if r.gap > aoMaxGap then .silence r.gap
    else .play

end Round

/-- A round of `ao_loop` from the gap on: the state of the correction, and what is done with the buffer. -/
def gapRound (abs : ℤ → Option ℤ) (s : ResampleSync) (r : Round) : Option (ResampleSync × GapAction) :=
  (if r.resample_sync_method then (s.resampleRateAdjust abs r.gap r.vpts).map Prod.fst
    else some { s with resample_sync_factor := 1 }).bind fun s =>
      (r.gapAction abs).map fun action => (s, action)

/-! ## The truncated magnitude -/

/-- The gap as an `int`. -/
def Round.low (r : Round) : ℤ := (BitVec.ofInt 32 r.gap).toInt

/-- The truncated magnitude is taken for the true one. Where the drift is corrected by resampling, the gap is
an `int`, or is far from zero as one. Otherwise a gap that is no `int` is negative, or the buffer is empty,
so that it is dropped before; or as an `int` it is no gap that is given to the metronoms. -/
def Round.Fits (r : Round) : Prop :=
  if r.resample_sync_method then
    -2 ^ 31 < r.gap ∧ r.gap < 2 ^ 31 ∨ r.low ≠ -2 ^ 31 ∧ aoMaxGap < |r.low|
  else
    r.gap < 2 ^ 31 ∨ r.num_frames = 0 ∨
      r.low ≠ -2 ^ 31 ∧ ¬(|r.low| < aoMaxGap ∧ |r.low| > r.gap_tolerance ∧ r.Due)

instance (r : Round) : Decidable r.Fits := by
  unfold Round.Fits
  infer_instance

variable {s s' : ResampleSync} {r : Round} {x gap : ℤ}

theorem absInt_eq_magnitude (hlow : -2 ^ 31 < x) (hhigh : x < 2 ^ 31) : absInt x = magnitude x := by
  have hx : (BitVec.ofInt 32 x).toInt = x := BitVec.toInt_ofInt_eq_self (by decide) hlow.le hhigh
  unfold absInt cAbs magnitude
  rw [hx, if_neg hlow.ne']

namespace ResampleSync

/-- The recent gaps are small ones. -/
structure Recorded (s : ResampleSync) : Prop where
  length_eq : s.recent_gap.length = 8
  small : ∀ gap ∈ s.recent_gap, |gap| ≤ aoMaxGap

theorem recorded_start : start.Recorded :=
  ⟨List.length_replicate, fun gap hgap => by rw [List.eq_of_mem_replicate hgap]; decide⟩

theorem Recorded.of_eq (h : s.Recorded) (heq : s'.recent_gap = s.recent_gap) : s'.Recorded :=
  ⟨heq ▸ h.length_eq, heq ▸ h.small⟩

theorem begin_recent_gap : (s.begin gap).recent_gap = s.recent_gap := by
  unfold begin
  split_ifs <;> rfl

theorem adjust_recent_gap {avg_gap abs_gap : ℤ} {vpts : BitVec 64} :
    (s.adjust avg_gap abs_gap vpts).recent_gap = s.recent_gap := by
  unfold adjust
  simp only
  split_ifs <;> rfl

theorem Recorded.record (h : s.Recorded) (hgap : |gap| ≤ aoMaxGap) : (s.record gap).Recorded := by
  refine ⟨?_, fun g hg => ?_⟩
  · rw [ResampleSync.record, List.length_append, List.length_tail, h.length_eq]
    rfl
  · rcases List.mem_append.1 hg with hg | hg
    · exact h.small g (List.mem_of_mem_tail hg)
    · rw [List.mem_singleton.1 hg]
      exact hgap

theorem abs_sum_le (gaps : List ℤ) (h : ∀ gap ∈ gaps, |gap| ≤ aoMaxGap) (sum : ℤ) :
    |gaps.foldl (fun sum gap => sum + gap) sum| ≤ |sum| + gaps.length * aoMaxGap := by
  induction gaps generalizing sum with
  | nil => simp
  | cons gap gaps ih =>
    have hgap := h gap List.mem_cons_self
    calc |gaps.foldl (fun sum gap => sum + gap) (sum + gap)|
        ≤ |sum + gap| + gaps.length * aoMaxGap := ih (fun g hg => h g (List.mem_cons_of_mem _ hg)) _
      _ ≤ |sum| + |gap| + gaps.length * aoMaxGap := Int.add_le_add_right (abs_add_le _ _) _
      _ ≤ |sum| + aoMaxGap + gaps.length * aoMaxGap :=
          Int.add_le_add_right (Int.add_le_add_left hgap _) _
      _ = |sum| + (gap :: gaps).length * aoMaxGap := by
          rw [List.length_cons]
          push_cast
          ring

theorem Recorded.avgGap_lt (h : s.Recorded) : -2 ^ 31 < s.avgGap ∧ s.avgGap < 2 ^ 31 := by
  have hsum := abs_sum_le s.recent_gap h.small 0
  rw [h.length_eq, abs_zero, zero_add] at hsum
  have hbound : ((8 : ℕ) : ℤ) * aoMaxGap = 120000 := rfl
  rw [hbound] at hsum
  obtain ⟨hge, hle⟩ := abs_le.1 hsum
  have habs : (s.avgGap).natAbs ≤ 120000 := by
    unfold avgGap
    rw [Int.natAbs_tdiv]
    exact (Nat.div_le_self _ _).trans (by omega)
  omega

theorem resampleRateAdjust_magnitude (h : s.Recorded) (vpts : BitVec 64) :
    ∃ s' code, s.resampleRateAdjust magnitude gap vpts = some (s', code) ∧ s'.Recorded := by
  unfold resampleRateAdjust magnitude
  rw [Option.bind_some]
  split_ifs with hgap
  · exact ⟨_, _, rfl, h.of_eq rfl⟩
  · have hrecord := (h.of_eq (@begin_recent_gap s gap)).record (not_lt.1 hgap)
    exact ⟨_, _, rfl, hrecord.of_eq adjust_recent_gap⟩

theorem resampleRateAdjust_eq (h : s.Recorded) (vpts : BitVec 64) (hlow : -2 ^ 31 < gap)
    (hhigh : gap < 2 ^ 31) :
    s.resampleRateAdjust absInt gap vpts = s.resampleRateAdjust magnitude gap vpts := by
  unfold resampleRateAdjust
  rw [absInt_eq_magnitude hlow hhigh, magnitude, Option.bind_some, Option.bind_some]
  split_ifs with hgap
  · rfl
  · have hrecord := (h.of_eq (@begin_recent_gap s gap)).record (not_lt.1 hgap)
    simp only [absInt_eq_magnitude hrecord.avgGap_lt.1 hrecord.avgGap_lt.2]

theorem resampleRateAdjust_eq_iff (h : s.Recorded) (vpts : BitVec 64)
    (hlarge : ¬(-2 ^ 31 < gap ∧ gap < 2 ^ 31)) :
    (s.resampleRateAdjust absInt gap vpts).map Prod.fst = (s.resampleRateAdjust magnitude gap vpts).map Prod.fst ↔
      (BitVec.ofInt 32 gap).toInt ≠ -2 ^ 31 ∧ aoMaxGap < |(BitVec.ofInt 32 gap).toInt| := by
  have habs : |gap| > aoMaxGap := by
    change |gap| > 15000
    rcases abs_cases gap with ⟨heq, hsign⟩ | ⟨heq, hsign⟩ <;> rw [heq] <;> omega
  have htrue : s.resampleRateAdjust magnitude gap vpts = some ({ s with valid := false }, -1) := by
    unfold resampleRateAdjust magnitude
    rw [Option.bind_some, if_pos habs]
  rw [htrue]
  unfold resampleRateAdjust absInt
  by_cases hmin : (BitVec.ofInt 32 gap).toInt = -2 ^ 31
  · rw [if_pos hmin]
    exact ⟨fun heq => absurd heq.symm (Option.some_ne_none _), fun hne => absurd hmin hne.1⟩
  · rw [if_neg hmin, Option.bind_some]
    unfold cAbs
    by_cases hfar : |(BitVec.ofInt 32 gap).toInt| > aoMaxGap
    · rw [if_pos hfar]
      exact iff_of_true rfl ⟨hmin, hfar⟩
    · rw [if_neg hfar]
      refine iff_of_false (fun heq => ?_) fun hne => hfar hne.2
      -- the gap has been recorded, and is none of those before
      obtain ⟨t, ht, heq⟩ := Option.map_eq_some_iff.1 heq
      obtain ⟨abs_avg, -, rfl⟩ := Option.map_eq_some_iff.1 ht
      have hgaps := congrArg recent_gap heq
      rw [adjust_recent_gap, ResampleSync.record, begin_recent_gap] at hgaps
      have hmem : gap ∈ s.recent_gap := by
        change _ = s.recent_gap at hgaps
        rw [← hgaps]
        exact List.mem_append_right _ List.mem_cons_self
      exact absurd (h.small gap hmem) (not_le.2 habs)

end ResampleSync

theorem gapAction_eq_iff :
    r.gapAction absInt = r.gapAction magnitude ↔
      r.gap < 2 ^ 31 ∨ r.num_frames = 0 ∨
        r.low ≠ -2 ^ 31 ∧ ¬(|r.low| < aoMaxGap ∧ |r.low| > r.gap_tolerance ∧ r.Due) := by
  unfold Round.gapAction
  by_cases hdrop : r.gap < -aoMaxGap ∨ r.num_frames = 0
  · rw [if_pos hdrop, if_pos hdrop]
    refine iff_of_true rfl ?_
    rcases hdrop with hgap | hframes
    · have hmax : aoMaxGap = 15000 := rfl
      exact Or.inl (by omega)
    · exact Or.inr (Or.inl hframes)
  · rw [if_neg hdrop, if_neg hdrop]
    obtain ⟨hgap, hframes⟩ := not_or.1 hdrop
    have hmax : aoMaxGap = 15000 := rfl
    by_cases hint : r.gap < 2 ^ 31
    · rw [absInt_eq_magnitude (by omega) hint]
      exact iff_of_true rfl (Or.inl hint)
    · have habs : |r.gap| = r.gap := abs_of_nonneg (by omega)
      have htrue : ¬(|r.gap| < aoMaxGap ∧ |r.gap| > r.gap_tolerance ∧ r.Due) := fun h => by omega
      have hsilence : r.gap > aoMaxGap := by omega
      have hlow : absInt r.gap = if r.low = -2 ^ 31 then none else some |r.low| := rfl
      simp only [hlow, magnitude, Option.map_some, htrue, hsilence, hint, hframes, if_true, if_false, false_or]
      by_cases hmin : r.low = -2 ^ 31
      · rw [if_pos hmin, Option.map_none]
        exact iff_of_false (fun h => absurd h.symm (Option.some_ne_none _)) fun h => h.1 hmin
      · rw [if_neg hmin, Option.map_some]
        by_cases hfeedback : |r.low| < aoMaxGap ∧ |r.low| > r.gap_tolerance ∧ r.Due
        · rw [if_pos hfeedback, Option.some.injEq]
          exact iff_of_false (fun h => GapAction.noConfusion h) fun h => h.2 hfeedback
        · rw [if_neg hfeedback]
          exact iff_of_true rfl ⟨hmin, hfeedback⟩

theorem gapAction_resample (hresample : r.resample_sync_method = true) {abs_gap : ℤ}
    (habs : absInt r.gap = some abs_gap) : r.gapAction absInt = r.gapAction magnitude := by
  have hnot : ∀ m : ℤ, ¬(m < aoMaxGap ∧ m > r.gap_tolerance ∧ r.Due) := fun m h =>
    Bool.noConfusion (hresample.symm.trans h.2.2.2.2)
  unfold Round.gapAction
  simp only [habs, magnitude, Option.map_some, hnot, if_false]

theorem gapAction_magnitude (r : Round) : ∃ action, r.gapAction magnitude = some action := by
  unfold Round.gapAction
  by_cases hdrop : r.gap < -aoMaxGap ∨ r.num_frames = 0
  · exact ⟨_, if_pos hdrop⟩
  · rw [if_neg hdrop]
    exact ⟨_, rfl⟩

theorem gapRound_magnitude (h : s.Recorded) (r : Round) :
    ∃ s' action, gapRound magnitude s r = some (s', action) ∧ s'.Recorded := by
  obtain ⟨action, haction⟩ := gapAction_magnitude r
  unfold gapRound
  split_ifs with hresample
  · obtain ⟨s', code, hadjust, hs'⟩ := @ResampleSync.resampleRateAdjust_magnitude s r.gap h r.vpts
    exact ⟨s', action, by rw [hadjust, haction]; rfl, hs'⟩
  · exact ⟨{ s with resample_sync_factor := 1 }, action, by rw [haction]; rfl, h.of_eq rfl⟩

theorem gapRound_action (abs : ℤ → Option ℤ) (hoff : r.resample_sync_method = false) :
    (gapRound abs s r).map Prod.snd = r.gapAction abs := by
  unfold gapRound
  simp only [hoff, Bool.false_eq_true, if_false, Option.bind_some, Option.map_map]
  exact Option.map_id'

theorem gapRound_eq_iff (h : s.Recorded) : gapRound absInt s r = gapRound magnitude s r ↔ r.Fits := by
  unfold gapRound Round.Fits
  by_cases hresample : r.resample_sync_method = true
  · simp only [hresample, if_true]
    by_cases hint : -2 ^ 31 < r.gap ∧ r.gap < 2 ^ 31
    · rw [ResampleSync.resampleRateAdjust_eq h r.vpts hint.1 hint.2,
        gapAction_resample hresample (absInt_eq_magnitude hint.1 hint.2)]
      exact iff_of_true rfl (Or.inl hint)
    · have hiff := ResampleSync.resampleRateAdjust_eq_iff h r.vpts hint
      constructor
      · intro heq
        -- what has been done is what is done with the true magnitude
        obtain ⟨s', code, hadjust, -⟩ := @ResampleSync.resampleRateAdjust_magnitude s r.gap h r.vpts
        obtain ⟨action, haction⟩ := gapAction_magnitude r
        rw [hadjust, haction] at heq
        obtain ⟨t, ht, hround⟩ := Option.bind_eq_some_iff.1 heq
        obtain ⟨action', -, hpair⟩ := Option.map_eq_some_iff.1 hround
        obtain rfl : t = s' := congrArg Prod.fst hpair
        refine Or.inr (hiff.1 ?_)
        rw [ht, hadjust]
        rfl
      · intro hfits
        have hfar := hfits.resolve_left hint
        have habs : absInt r.gap = some (cAbs r.gap) := if_neg hfar.1
        rw [hiff.2 hfar, gapAction_resample hresample habs]
  · have hoff := Bool.eq_false_iff.2 hresample
    simp only [hoff, Bool.false_eq_true, if_false]
    rw [← gapAction_eq_iff]
    constructor
    · intro heq
      rw [← @gapRound_action s r absInt hoff, ← @gapRound_action s r magnitude hoff]
      unfold gapRound
      simp only [hoff, Bool.false_eq_true, if_false, heq]
    · intro heq
      rw [heq]

/-! ## Runs of rounds -/

open Runs

/-- The state of the correction after a round. -/
def gapStep (s : ResampleSync) (r : Round) : Option ResampleSync := (gapRound absInt s r).map Prod.fst

/-- The rounds of a run all do what the true magnitude of the gap says, which is one of the actions, if and
only if the truncated magnitude fits in each of them. -/
theorem gapRounds_iff (rounds : List Round) :
    Guarded gapStep (fun _ r => r.Fits) ResampleSync.start rounds ↔
      ∀ before r after, rounds = before ++ r :: after →
        ∃ s, run gapStep ResampleSync.start before = some s ∧ gapRound absInt s r = gapRound magnitude s r ∧
          ∃ s' action, gapRound absInt s r = some (s', action) := by
  have hdecided : ∀ s r, s.Recorded → ((gapRound absInt s r = gapRound magnitude s r ∧
      ∃ s' action, gapRound absInt s r = some (s', action)) ↔ r.Fits) := by
    intro s r h
    rw [← gapRound_eq_iff h]
    refine ⟨fun heq => heq.1, fun heq => ⟨heq, ?_⟩⟩
    obtain ⟨s', action, hround, -⟩ := gapRound_magnitude h r
    exact ⟨s', action, heq.trans hround⟩
  refine guarded_iff_calls (fun s r h hfits => ?_) hdecided ResampleSync.recorded_start
  -- a round whose gap fits keeps the recent gaps small
  obtain ⟨s', action, hround, hs'⟩ := gapRound_magnitude h r
  exact ⟨s', by rw [gapStep, (gapRound_eq_iff h).2 hfits, hround]; rfl, hs'⟩

/-- A buffer for half a day later. The `int` that is left of the gap is small enough to be
given to the metronoms. -/
def farAhead : Round where
  gap := 2 ^ 32 + 10000
  vpts := 0
  num_frames := 1024
  cur_time := 100000
  last_sync_time := 0
  bufs_since_sync := 16
  gap_tolerance := 5000
  resample_sync_method := false

theorem gapRound_farAhead :
    farAhead.gapAction absInt = some (.feedback (-(2 ^ 30 + 2500))) ∧
      farAhead.gapAction magnitude = some (.silence (2 ^ 32 + 10000)) ∧
      gapRound absInt ResampleSync.start farAhead ≠ gapRound magnitude ResampleSync.start farAhead := by
  have hfeedback : farAhead.gapAction absInt = some (.feedback (-(2 ^ 30 + 2500))) := by decide
  have hsilence : farAhead.gapAction magnitude = some (.silence (2 ^ 32 + 10000)) := by decide
  refine ⟨hfeedback, hsilence, fun heq => ?_⟩
  have hactions := congrArg (Option.map Prod.snd) heq
  rw [gapRound_action absInt rfl, gapRound_action magnitude rfl, hfeedback, hsilence] at hactions
  exact absurd (Option.some.inj hactions) (by decide)

/-! ## The output thread -/

variable {τ : Type*}

end Xine.AudioOut
