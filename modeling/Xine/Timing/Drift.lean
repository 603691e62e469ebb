import Mathlib.Algebra.BigOperators.Group.List.Basic
import Mathlib.Tactic.Ring
import Xine.Timing.Video

/-!
# The drift of the video

A frame with a new pts starts a drift, which it and the frames behind it without a new pts take away, each one
step of it. `Remaining` counts the frames that it takes.
-/

namespace Xine.Timing

/-- The drift is taken away by `k` steps, the last of which reaches zero or goes beyond. -/
structure Remaining (drift step : ℤ) (k : ℕ) : Prop where
  before : ∀ j : ℕ, j < k → (drift - j * step) * step > 0
  after : ¬(drift - k * step) * step > 0

section Remaining

variable {drift step a : ℤ} {k : ℕ}

theorem Remaining.zero (h : Remaining drift step 0) : correction drift step = 0 := by
  have hafter := h.after
  rw [Int.natCast_zero, Int.zero_mul, Int.sub_zero] at hafter
  exact if_neg hafter

theorem Remaining.succ (h : Remaining drift step (k + 1)) :
    correction drift step = step ∧ Remaining (drift - step) step k := by
  have hshift : ∀ j : ℕ, drift - step - j * step = drift - (j + 1 : ℕ) * step := fun j => by
    push_cast
    ring
  refine ⟨?_, fun j hj => ?_, ?_⟩
  · have hfirst := h.before 0 (Nat.succ_pos k)
    rw [Int.natCast_zero, Int.zero_mul, Int.sub_zero] at hfirst
    exact if_pos hfirst
  · rw [hshift]
    exact h.before (j + 1) (Nat.succ_lt_succ hj)
  · rw [hshift]
    exact h.after

theorem exists_remaining (a : ℤ) : ∃ k ≤ 59, Remaining a (a.tdiv 30) k := by
  have hlast : ¬(a - (59 : ℕ) * a.tdiv 30) * a.tdiv 30 > 0 := by
    intro hpos
    rcases tdiv_thirty a with ⟨hnonneg, hle, hlt⟩ | ⟨hneg, hle, hlt⟩
    · -- thirty steps leave less than thirty, and the step is at least one
      rcases Int.lt_or_eq_of_le (show 0 ≤ a.tdiv 30 by omega) with hstep | hstep
      · have hleft : 0 < a - (59 : ℕ) * a.tdiv 30 := (mul_pos_iff_of_pos_right hstep).1 hpos
        push_cast at hleft
        omega
      · rw [← hstep, Int.mul_zero] at hpos
        exact absurd hpos (lt_irrefl 0)
    · rcases Int.lt_or_eq_of_le (show a.tdiv 30 ≤ 0 by omega) with hstep | hstep
      · have hleft : a - (59 : ℕ) * a.tdiv 30 < 0 := neg_of_mul_pos_left hpos hstep.le
        push_cast at hleft
        omega
      · rw [hstep, Int.mul_zero] at hpos
        exact absurd hpos (lt_irrefl 0)
  have hexists : ∃ k : ℕ, ¬(a - k * a.tdiv 30) * a.tdiv 30 > 0 := ⟨59, hlast⟩
  refine ⟨Nat.find hexists, Nat.find_min' hexists hlast, fun j hj => ?_, Nat.find_spec hexists⟩
  exact not_not.1 (Nat.find_min hexists hj)

theorem Remaining.total (h : Remaining a (a.tdiv 30) k) :
    (|a| < 30 → (k : ℤ) * a.tdiv 30 = 0) ∧ (30 ≤ |a| → 0 < a * (k * a.tdiv 30)) ∧
      |k * a.tdiv 30 - a| < |a.tdiv 30| + 30 := by
  have hdiv := tdiv_thirty a
  by_cases hsmall : |a| < 30
  · obtain ⟨hlow, hhigh⟩ := abs_lt.1 hsmall
    have hzero : a.tdiv 30 = 0 := by omega
    rw [hzero, Int.mul_zero, Int.zero_sub, abs_neg, abs_zero, Int.zero_add]
    exact ⟨fun _ => rfl, fun hle => absurd hsmall (not_lt.2 hle), hsmall⟩
  · have hlarge : 30 ≤ |a| := not_lt.1 hsmall
    -- the first step is taken, and the last one is taken from something of its sign
    have hsign : 0 < a * a.tdiv 30 := by
      rcases hdiv with ⟨hnonneg, -, hlt⟩ | ⟨hneg, -, hlt⟩
      · rw [abs_of_nonneg hnonneg] at hlarge
        exact Int.mul_pos (by omega) (by omega)
      · rw [abs_of_neg hneg] at hlarge
        exact Int.mul_pos_of_neg_of_neg hneg (by omega)
    obtain ⟨n, rfl⟩ : ∃ n, k = n + 1 := by
      refine ⟨k - 1, (Nat.sub_add_cancel (Nat.pos_of_ne_zero fun hzero => ?_)).symm⟩
      subst hzero
      have hafter := h.after
      rw [Int.natCast_zero, Int.zero_mul, Int.sub_zero] at hafter
      exact hafter hsign
    refine ⟨fun hlt => absurd hlt hsmall, fun _ => ?_, ?_⟩
    · have hcomm : a * ((n + 1 : ℕ) * a.tdiv 30) = (n + 1 : ℕ) * (a * a.tdiv 30) := by ring
      rw [hcomm]
      exact Int.mul_pos (by omega) hsign
    · have hbefore := h.before n (Nat.lt_succ_self n)
      have hafter := h.after
      have hnext : ((n + 1 : ℕ) : ℤ) * a.tdiv 30 = n * a.tdiv 30 + a.tdiv 30 := by
        push_cast
        ring
      rw [hnext] at hafter ⊢
      generalize (n : ℤ) * a.tdiv 30 = taken at hbefore hafter ⊢
      rcases hdiv with ⟨hnonneg, -, hlt⟩ | ⟨hneg, -, hlt⟩
      · have hstep : 0 < a.tdiv 30 := by
          rw [abs_of_nonneg hnonneg] at hlarge
          omega
        have hleft := (mul_pos_iff_of_pos_right hstep).1 hbefore
        have hover : ¬0 < a - (taken + a.tdiv 30) := fun hpos =>
          hafter ((mul_pos_iff_of_pos_right hstep).2 hpos)
        rw [abs_of_pos hstep, abs_of_nonneg (by omega)]
        omega
      · have hstep : a.tdiv 30 < 0 := by
          rw [abs_of_neg hneg] at hlarge
          omega
        have hleft := neg_of_mul_pos_left hbefore hstep.le
        have hover : ¬a - (taken + a.tdiv 30) < 0 := fun hlt =>
          hafter (Int.mul_pos_of_neg_of_neg hlt hstep)
        rw [abs_of_neg hstep, abs_of_nonpos (by omega)]
        omega

/-- The amounts that `n` frames are shortened by, when `k` of them are shortened. -/
def corrections (k n : ℕ) (step : ℤ) : List ℤ :=
  List.replicate (min k n) step ++ List.replicate (n - k) 0

theorem corrections_zero_succ (n : ℕ) (step : ℤ) :
    corrections 0 (n + 1) step = 0 :: corrections 0 n step := by
  simp [corrections, List.replicate_succ]

theorem corrections_succ_succ (k n : ℕ) (step : ℤ) :
    corrections (k + 1) (n + 1) step = step :: corrections k n step := by
  simp [corrections, List.replicate_succ]

theorem sum_corrections {n : ℕ} (hk : k ≤ n) (step : ℤ) : (corrections k n step).sum = k * step := by
  simp [corrections, Nat.min_eq_left hk]

end Remaining

/-! ## Frames -/

/-- One frame, with its pts and its duration. -/
def frameStep (m : Metronom) (f : ℤ × ℤ) : Option Metronom :=
  (gotVideoFrame m f.1 f.2).map Prod.fst

/-- The frames are shortened by these amounts, one after the other. -/
def ShortenedBy : Metronom → List (ℤ × ℤ) → List ℤ → Prop
  | _, [], cs => cs = []
  | m, f :: fs, cs => ∃ given c rest m' vpts, cs = c :: rest ∧
      givenDuration m f.1 f.2 = some given ∧
      gotVideoFrame m f.1 f.2 = some (m', vpts, shorten given c) ∧ ShortenedBy m' fs rest

section Frames

variable {m m' : Metronom} {pts duration step : ℤ} {k : ℕ} {fs : List (ℤ × ℤ)}

theorem shortenedBy_old (hfs : ∀ f ∈ fs, f.1 = 0 ∨ f.1 = m.last_video_pts)
    (hstep : m.video_drift_step = step) (hk : Remaining m.video_drift step k)
    (hrun : Runs.run frameStep m fs = some m') :
    ShortenedBy m fs (corrections k fs.length step) := by
  induction fs generalizing m k with
  | nil => simp [ShortenedBy, corrections]
  | cons f fs ih =>
    obtain ⟨m₁, h₁, hrest⟩ := Runs.run_cons_eq_some.1 hrun
    obtain ⟨⟨m₂, vpts, d⟩, hframe, rfl⟩ := Option.map_eq_some_iff.1 h₁
    have hnew : ¬NewPts m f.1 := fun hnew => by
      rcases hfs f List.mem_cons_self with hzero | hlast
      · exact hnew.1 hzero
      · exact hnew.2 hlast
    obtain ⟨-, hd, hm₂⟩ := gotVideoFrame_old hnew hframe
    have hlast : m₂.last_video_pts = m.last_video_pts := by rw [hm₂]
    have hstep₂ : m₂.video_drift_step = step := by rw [hm₂]; exact hstep
    have hdrift : m₂.video_drift = m.video_drift - correction m.video_drift step := by
      rw [hm₂, ← hstep]
    have hold : ∀ g ∈ fs, g.1 = 0 ∨ g.1 = m₂.last_video_pts := fun g hg => by
      rw [hlast]
      exact hfs g (List.mem_cons_of_mem f hg)
    rw [hstep] at hd
    rw [List.length_cons]
    cases k with
    | zero =>
      rw [hk.zero] at hd hdrift
      rw [Int.sub_zero] at hdrift
      rw [corrections_zero_succ]
      refine ⟨_, 0, _, m₂, vpts, rfl, givenDuration_old hnew, by rw [← hd]; exact hframe, ?_⟩
      exact ih hold hstep₂ (hdrift.symm ▸ hk) hrest
    | succ k =>
      obtain ⟨hcorrection, hleft⟩ := hk.succ
      rw [hcorrection] at hd hdrift
      rw [corrections_succ_succ]
      refine ⟨_, step, _, m₂, vpts, rfl, givenDuration_old hnew, by rw [← hd]; exact hframe, ?_⟩
      exact ih hold hstep₂ (hdrift.symm ▸ hleft) hrest

theorem shortenedBy_new (hnew : NewPts m pts) (hjump : ¬Jumps m pts)
    (hfs : ∀ f ∈ fs, f.1 = 0 ∨ f.1 = pts) (hk : Remaining (ahead m pts) ((ahead m pts).tdiv 30) k)
    (hrun : Runs.run frameStep m ((pts, duration) :: fs) = some m') :
    ShortenedBy m ((pts, duration) :: fs) (corrections k (fs.length + 1) ((ahead m pts).tdiv 30)) := by
  obtain ⟨m₁, h₁, hrest⟩ := Runs.run_cons_eq_some.1 hrun
  obtain ⟨⟨m₂, vpts, d⟩, hframe, rfl⟩ := Option.map_eq_some_iff.1 h₁
  obtain ⟨-, -, ⟨given, hgiven, -, hd⟩, hm₂⟩ := gotVideoFrame_new hnew hjump hframe
  have hstep : m₂.video_drift_step = (ahead m pts).tdiv 30 := by rw [hm₂]
  have hdrift : m₂.video_drift =
      ahead m pts - correction (ahead m pts) ((ahead m pts).tdiv 30) := by rw [hm₂]
  have hold : ∀ g ∈ fs, g.1 = 0 ∨ g.1 = m₂.last_video_pts := fun g hg => by
    rw [hm₂]
    exact hfs g hg
  cases k with
  | zero =>
    rw [hk.zero] at hd hdrift
    rw [Int.sub_zero] at hdrift
    rw [corrections_zero_succ]
    refine ⟨given, 0, _, m₂, vpts, rfl, hgiven, by rw [← hd]; exact hframe, ?_⟩
    exact shortenedBy_old hold hstep (hdrift.symm ▸ hk) hrest
  | succ k =>
    obtain ⟨hcorrection, hleft⟩ := hk.succ
    rw [hcorrection] at hd hdrift
    rw [corrections_succ_succ]
    refine ⟨given, _, _, m₂, vpts, rfl, hgiven, by rw [← hd]; exact hframe, ?_⟩
    exact shortenedBy_old hold hstep (hdrift.symm ▸ hleft) hrest

end Frames

/-- A drift within the tolerance, which a frame with a new pts starts, is compensated in this frame and
the ones behind it without a new pts: at most 59 of them are shortened, each by a thirtieth of the
drift, and none after them. Together, this is nothing of a drift below 30; otherwise it has the sign
of the drift, and it differs from it by less than a step and the divisor. -/
theorem drift_converges {m : Metronom} {pts : ℤ} (hnew : NewPts m pts) (hjump : ¬Jumps m pts) :
    ∃ k ≤ 59,
      (∀ duration fs m', (∀ f ∈ fs, f.1 = 0 ∨ f.1 = pts) →
        Runs.run frameStep m ((pts, duration) :: fs) = some m' →
          ShortenedBy m ((pts, duration) :: fs)
            (corrections k (fs.length + 1) ((ahead m pts).tdiv 30))) ∧
      ∀ n ≥ k, ∃ total, (corrections k n ((ahead m pts).tdiv 30)).sum = total ∧
        (|ahead m pts| < 30 → total = 0) ∧ (30 ≤ |ahead m pts| → 0 < ahead m pts * total) ∧
        |total - ahead m pts| < |(ahead m pts).tdiv 30| + 30 := by
  obtain ⟨k, hle, hk⟩ := exists_remaining (ahead m pts)
  refine ⟨k, hle, fun duration fs m' hfs hrun => shortenedBy_new hnew hjump hfs hk hrun,
    fun n hn => ⟨_, sum_corrections hn _, hk.total⟩⟩

/-- The predicted vpts is 4000 ahead of the pts. -/
theorem drift_converges_ahead : NewPts (init 1 12000).metronom 8000 ∧ ∃ k ≤ 59, ∀ n ≥ k,
    0 < 4000 * (corrections k n 133).sum := by
  have hnew : NewPts (init 1 12000).metronom 8000 := by decide
  have hjump : ¬Jumps (init 1 12000).metronom 8000 := by decide
  obtain ⟨k, hle, -, htotal⟩ := drift_converges hnew hjump
  refine ⟨hnew, k, hle, fun n hn => ?_⟩
  obtain ⟨total, hsum, -, hsign, -⟩ := htotal n hn
  have hahead : ahead (init 1 12000).metronom 8000 = 4000 := by decide
  rw [hahead] at hsum hsign
  have hstep : (4000 : ℤ).tdiv 30 = 133 := by decide
  rw [hstep] at hsum
  rw [hsum]
  exact hsign (by decide)

/-- A drift of 29 stays as it is: none of the frames is shortened. -/
theorem small_drift_stays : NewPts (init 1 12000).metronom 11971 ∧
    ¬Jumps (init 1 12000).metronom 11971 ∧ ahead (init 1 12000).metronom 11971 = 29 ∧
    ∀ duration fs m', (∀ f ∈ fs, f.1 = 0 ∨ f.1 = 11971) →
      Runs.run frameStep (init 1 12000).metronom ((11971, duration) :: fs) = some m' →
        ShortenedBy (init 1 12000).metronom ((11971, duration) :: fs)
          (List.replicate (fs.length + 1) 0) := by
  have hnew : NewPts (init 1 12000).metronom 11971 := by decide
  have hjump : ¬Jumps (init 1 12000).metronom 11971 := by decide
  have hahead : ahead (init 1 12000).metronom 11971 = 29 := by decide
  refine ⟨hnew, hjump, hahead, fun duration fs m' hfs hrun => ?_⟩
  have hk : Remaining (ahead (init 1 12000).metronom 11971)
      ((ahead (init 1 12000).metronom 11971).tdiv 30) 0 := by
    rw [hahead]
    exact ⟨fun j hj => absurd hj (Nat.not_lt_zero j), by decide⟩
  have hshortened := shortenedBy_new hnew hjump hfs hk hrun
  rwa [corrections, Nat.zero_min, List.replicate_zero, List.nil_append, Nat.sub_zero] at hshortened

end Xine.Timing
