import Mathlib.Algebra.Order.Ring.Abs
import Mathlib.Tactic.Ring
import Xine.Timing.Effects

/-!
# The timestamps of the audio

What `metronom_got_audio_samples` computes. The audio vpts goes on by the samples at their rate, in whole ticks:
the rest of each call is dropped. The drift of the audio goes to the offset of the video, at a step that is
clamped to a quarter of the rate where it is computed.
-/

namespace Xine.Timing

/-- The samples come with a pts that is not the last one. -/
def NewAudioPts (m : Metronom) (pts : ℤ) : Prop := pts ≠ 0 ∧ pts ≠ m.last_audio_pts

instance (m : Metronom) (pts : ℤ) : Decidable (NewAudioPts m pts) := instDecidableAnd

section Samples

variable {m m' : Metronom} {pts nsamples vpts : ℤ}

theorem audioDriftStep_clamped {diff : ℤ} (h : audioDriftStep m diff = some m') :
    4 * |m'.audio_drift_step| ≤ |m.pts_per_smpls| := by
  simp only [audioDriftStep, Option.bind_eq_bind, Option.bind_eq_some_iff, Option.some.injEq] at h
  obtain ⟨scaled, -, samples, -, quotient, -, negative, hnegative, rfl⟩ := h
  obtain rfl := (int64_eq_some hnegative).1
  dsimp only
  rw [Int.neg_tdiv]
  generalize hquarter : m.pts_per_smpls.tdiv 4 = quarter
  have hbound : 4 * |quarter| ≤ |m.pts_per_smpls| := by
    rcases Int.le_total 0 m.pts_per_smpls with hpos | hneg
    · rw [Int.tdiv_eq_ediv_of_nonneg hpos] at hquarter
      rw [abs_of_nonneg hpos, abs_of_nonneg (by omega)]
      omega
    · have hdiv := Int.tdiv_eq_ediv_of_nonneg (show 0 ≤ -m.pts_per_smpls by omega) (b := 4)
      rw [Int.neg_tdiv, hquarter] at hdiv
      rw [abs_of_nonpos hneg, abs_of_nonpos (by omega)]
      omega
  have hclamped : |if (if quotient > quarter then quarter else quotient) < -quarter then -quarter
      else if quotient > quarter then quarter else quotient| ≤ |quarter| := by
    split_ifs
    · exact (abs_neg quarter).le
    · exact le_refl _
    · exact (abs_neg quarter).le
    · exact abs_le_abs (by omega) (by omega)
  omega

theorem audioPts_old (hnew : ¬NewAudioPts m pts) : audioPts m pts = some m := if_neg hnew

theorem audioPts_new (hnew : NewAudioPts m pts) (h : audioPts m pts = some m') :
    m'.audio_samples = 0 ∧ m'.pts_per_smpls = m.pts_per_smpls ∧ m'.vpts_offset = m.vpts_offset ∧
      (m'.audio_drift_step = m.audio_drift_step ∨
        4 * |m'.audio_drift_step| ≤ |m.pts_per_smpls|) := by
  have hcond : pts ≠ 0 ∧ pts ≠ m.last_audio_pts := hnew
  unfold audioPts at h
  rw [if_pos hcond] at h
  obtain ⟨m₁, h₁, rfl⟩ := Option.map_eq_some_iff.1 h
  have honly := compareAudio_only h₁
  refine ⟨rfl, by dsimp only; rw [honly], by dsimp only; rw [honly], ?_⟩
  dsimp only
  simp only [compareAudio, Option.bind_eq_bind, Option.bind_eq_some_iff] at h₁
  obtain ⟨_, -, _, -, _, -, h₁⟩ := h₁
  split_ifs at h₁
  · -- the vpts jumps
    cases h₁
    dsimp only
    rw [abs_zero, Int.mul_zero]
    exact Or.inr (abs_nonneg _)
  · have hclamped := audioDriftStep_clamped h₁
    exact Or.inr hclamped
  · cases h₁
    exact Or.inl rfl

theorem gotAudioSamples_spec (h : gotAudioSamples m pts nsamples = some (m', vpts)) :
    m'.pts_per_smpls = m.pts_per_smpls ∧
      m'.audio_vpts = vpts + (nsamples * m.pts_per_smpls).tdiv audioSampleNum ∧
      m'.vpts_offset = m.vpts_offset + (nsamples * m'.audio_drift_step).tdiv audioSampleNum ∧
      m'.audio_samples = (if NewAudioPts m pts then 0 else m.audio_samples) + nsamples ∧
      (m'.audio_drift_step = m.audio_drift_step ∨
        4 * |m'.audio_drift_step| ≤ |m.pts_per_smpls|) ∧
      (¬NewAudioPts m pts → vpts = m.audio_vpts ∧ m'.last_audio_pts = m.last_audio_pts) := by
  simp only [gotAudioSamples, Option.bind_eq_bind, Option.bind_eq_some_iff, Option.some.injEq,
    Prod.mk.injEq] at h
  obtain ⟨m₁, h₁, advance, hadvance, next, hnext, samples, hsamples, drift, hdrift, offset, hoffset,
    rfl, rfl⟩ := h
  obtain rfl := (int64_eq_some hadvance).1
  obtain rfl := (int64_eq_some hnext).1
  obtain rfl := (int32_eq_some hsamples).1
  obtain rfl := (int64_eq_some hdrift).1
  obtain rfl := (int64_eq_some hoffset).1
  dsimp only
  by_cases hnew : NewAudioPts m pts
  · obtain ⟨hzero, hrate, hoffset₁, hstep⟩ := audioPts_new hnew h₁
    rw [if_pos hnew, hrate, hzero, hoffset₁]
    exact ⟨rfl, rfl, rfl, rfl, hstep, fun hnot => absurd hnew hnot⟩
  · rw [audioPts_old hnew] at h₁
    cases h₁
    rw [if_neg hnew]
    exact ⟨rfl, rfl, rfl, rfl, Or.inl rfl, fun _ => ⟨rfl, rfl⟩⟩

end Samples

/-! ## The step of the drift -/

/-- The step is at most a quarter of the rate. -/
def Quarter (s : State) : Prop := 4 * |s.metronom.audio_drift_step| ≤ s.metronom.pts_per_smpls

/-- A call moves the offset by no more than the audio vpts, so the corrected vpts does not run
backwards within it. -/
def Forward (s : State) : Prop := ∀ pts nsamples m' vpts, 0 ≤ nsamples →
  gotAudioSamples s.metronom pts nsamples = some (m', vpts) →
    |m'.vpts_offset - s.metronom.vpts_offset| ≤ m'.audio_vpts - vpts

/-- A new rate is at least four times the step. -/
def KeepsQuarter (s : State) : Action → Prop
  | .setAudioRate pts_per_smpls => 4 * |s.metronom.audio_drift_step| ≤ pts_per_smpls
  | _ => True

instance (s : State) : ∀ a, Decidable (KeepsQuarter s a)
  | .setAudioRate pts_per_smpls =>
    inferInstanceAs (Decidable (4 * |s.metronom.audio_drift_step| ≤ pts_per_smpls))
  | .videoCall .. | .videoWake .. | .audioCall | .audioWake | .gotVideoFrame .. | .gotSpuPacket _
  | .gotAudioSamples .. | .setOption .. => isTrue trivial

section Step

variable {s s' : State} {a : Action}

theorem abs_tdiv_scale_le {x y : ℤ} (h : |x| ≤ y) :
    |x.tdiv audioSampleNum| ≤ y.tdiv audioSampleNum := by
  unfold audioSampleNum
  have hy : 0 ≤ y := (abs_nonneg x).trans h
  rw [Int.tdiv_eq_ediv_of_nonneg hy]
  rcases Int.le_total 0 x with hpos | hneg
  · rw [abs_of_nonneg hpos] at h
    rw [Int.tdiv_eq_ediv_of_nonneg hpos, abs_of_nonneg (by omega)]
    omega
  · rw [abs_of_nonpos hneg] at h
    have hdiv := Int.tdiv_eq_ediv_of_nonneg (show 0 ≤ -x by omega) (b := 32768)
    rw [Int.neg_tdiv] at hdiv
    rw [abs_of_nonpos (by omega)]
    omega

theorem Quarter.forward (h : Quarter s) : Forward s := by
  intro pts nsamples m' vpts hn hm
  obtain ⟨-, hvpts, hoffset, -, hstep, -⟩ := gotAudioSamples_spec hm
  have hrate : 0 ≤ s.metronom.pts_per_smpls := by
    have hnonneg := abs_nonneg s.metronom.audio_drift_step
    unfold Quarter at h
    omega
  -- the step of this call is one that was there, or one that is clamped now
  have hbound : 4 * |m'.audio_drift_step| ≤ s.metronom.pts_per_smpls := by
    rcases hstep with hsame | hclamped
    · rw [hsame]
      exact h
    · rwa [abs_of_nonneg hrate] at hclamped
  have hproduct : |nsamples * m'.audio_drift_step| ≤ nsamples * s.metronom.pts_per_smpls := by
    rw [abs_mul, abs_of_nonneg hn]
    have hnonneg := abs_nonneg m'.audio_drift_step
    exact Int.mul_le_mul_of_nonneg_left (by omega) hn
  have hleft : m'.vpts_offset - s.metronom.vpts_offset =
      (nsamples * m'.audio_drift_step).tdiv audioSampleNum := by omega
  have hright : m'.audio_vpts - vpts =
      (nsamples * s.metronom.pts_per_smpls).tdiv audioSampleNum := by omega
  rw [hleft, hright]
  exact abs_tdiv_scale_le hproduct

theorem quarter_step (h : Quarter s) (hok : KeepsQuarter s a) (hs : step s a = some s') :
    Quarter s' := by
  unfold Quarter at h ⊢
  cases a with
  | videoCall type disc_off video audio =>
    obtain ⟨-, hrate, hstep, -⟩ := videoDiscontinuity_only (Or.inl ⟨_, _, _, _, rfl⟩) hs
    rw [hrate, hstep]
    exact h
  | videoWake video audio =>
    obtain ⟨-, hrate, hstep, -⟩ := videoDiscontinuity_only (Or.inr ⟨_, _, rfl⟩) hs
    rw [hrate, hstep]
    exact h
  | audioCall | audioWake =>
    obtain ⟨m, hm, hm'⟩ := audioDiscontinuity_only (by simp) hs
    have hnonneg := abs_nonneg s.metronom.audio_drift_step
    rcases hm' with hm' | hm' <;> rw [hm'] <;> rcases hm with rfl | rfl
    · exact h
    · exact h
    all_goals
      dsimp only
      rw [abs_zero]
      omega
  | setAudioRate pts_per_smpls =>
    cases hs
    exact hok
  | gotSpuPacket pts =>
    obtain ⟨⟨m, vpts⟩, hm, rfl⟩ := Option.map_eq_some_iff.1 hs
    dsimp only
    rw [gotSpuPacket_only hm]
    exact h
  | gotVideoFrame pts duration =>
    obtain ⟨⟨m, vpts, d⟩, hm, rfl⟩ := Option.map_eq_some_iff.1 hs
    dsimp only
    rw [gotVideoFrame_only hm]
    exact h
  | gotAudioSamples pts nsamples =>
    obtain ⟨⟨m, vpts⟩, hm, rfl⟩ := Option.map_eq_some_iff.1 hs
    obtain ⟨hrate, -, -, -, hstep, -⟩ := gotAudioSamples_spec hm
    dsimp only
    rw [hrate]
    rcases hstep with hsame | hclamped
    · rw [hsame]
      exact h
    · have hnonneg := abs_nonneg s.metronom.audio_drift_step
      have hpos : 0 ≤ s.metronom.pts_per_smpls := by omega
      rwa [abs_of_nonneg hpos] at hclamped
  | setOption option value =>
    obtain ⟨m, hm, rfl⟩ := Option.map_eq_some_iff.1 hs
    dsimp only
    rw [(setOption_only hm).1]
    exact h

theorem not_quarter_step (hok : ¬KeepsQuarter s a) (hs : step s a = some s') : ¬Quarter s' := by
  cases a with
  | setAudioRate pts_per_smpls =>
    cases hs
    exact hok
  | _ => exact absurd trivial hok

/-- In a run of the metronom, the step is at most a quarter of the rate in every state, and the
corrected vpts never runs backwards within a call, exactly if each new rate is at least four times
the step. -/
theorem audio_run_quarter_iff {have_audio prebuffer : ℤ} {as : List Action}
    (hrun : Runs.run step (init have_audio prebuffer) as = some s) :
    Runs.Guarded step KeepsQuarter (init have_audio prebuffer) as ↔
      ∀ bs t, bs <+: as → Runs.run step (init have_audio prebuffer) bs = some t →
        Quarter t ∧ Forward t := by
  have hinit : Quarter (init have_audio prebuffer) := by
    change 4 * |(0 : ℤ)| ≤ 0
    decide
  exact Runs.guarded_iff (fun _ h => ⟨h, h.forward⟩) (fun _ _ _ h hok hs => quarter_step h hok hs)
    (fun _ _ _ _ hok hs h => not_quarter_step hok hs h.1) hinit hrun

end Step

/-- A stereo stream at 48000, whose pts fall behind its samples by a millisecond. -/
def slowRun : List Action :=
  [.setAudioRate 61440, .gotAudioSamples 12000 4800, .gotAudioSamples 20910 4800]

theorem audio_run_quarter_iff_slow : ∃ s, Runs.run step (init 1 12000) slowRun = some s ∧
    s.metronom.audio_drift_step = 153 ∧ Quarter s ∧ Forward s := by
  have hsome : (Runs.run step (init 1 12000) slowRun).any
      (fun s => s.metronom.audio_drift_step == 153) := by
    decide
  obtain ⟨s, hs, hstep⟩ := (Option.any_eq_true _ _).1 hsome
  exact ⟨s, hs, beq_iff_eq.1 hstep,
    (audio_run_quarter_iff hs).1 (by decide) slowRun s List.prefix_rfl hs⟩

/-- A stream at 8000 with a drift goes on at 48000. -/
def fasterRun : List Action :=
  [.setAudioRate 368640, .gotAudioSamples 12000 800, .gotAudioSamples 12001 800,
    .setAudioRate 61440]

/-- The step stays above the new rate, and the next call moves the offset by more than the vpts. -/
theorem setAudioRate_keeps_step : ∃ s m' vpts, Runs.run step (init 1 12000) fasterRun = some s ∧
    s.metronom.audio_drift_step = 92149 ∧ s.metronom.pts_per_smpls = 61440 ∧ ¬Quarter s ∧
    gotAudioSamples s.metronom 0 4800 = some (m', vpts) ∧ m'.audio_vpts = vpts + 9000 ∧
    m'.vpts_offset = s.metronom.vpts_offset + 13498 := by
  have hsome : (Runs.run step (init 1 12000) fasterRun).any (fun s =>
      s.metronom.audio_drift_step == 92149 && s.metronom.pts_per_smpls == 61440 &&
        (gotAudioSamples s.metronom 0 4800).any fun r =>
          r.1.audio_vpts == r.2 + 9000 && r.1.vpts_offset == s.metronom.vpts_offset + 13498) := by
    decide
  obtain ⟨s, hs, hlast⟩ := (Option.any_eq_true _ _).1 hsome
  simp only [Bool.and_eq_true, beq_iff_eq] at hlast
  obtain ⟨⟨hstep, hrate⟩, hcall⟩ := hlast
  obtain ⟨⟨m', vpts⟩, hm', heq⟩ := (Option.any_eq_true _ _).1 hcall
  simp only [Bool.and_eq_true, beq_iff_eq] at heq
  have hquarter : ¬Quarter s := by
    unfold Quarter
    rw [hstep, hrate]
    decide
  exact ⟨s, m', vpts, hs, hstep, hrate, hquarter, hm', heq⟩

/-! ## Whole ticks -/

/-- A rate of at least one sample a second, and samples whose counter, and whose timestamps, are far
from the limits of their types. -/
def Moderate (s : State) : Action → Prop
  | .setAudioRate pts_per_smpls => 0 ≤ pts_per_smpls ∧ pts_per_smpls < 2 ^ 32
  | .gotAudioSamples pts nsamples =>
    0 ≤ nsamples ∧ nsamples < 2 ^ 29 ∧
      (¬NewAudioPts s.metronom pts → s.metronom.audio_samples + nsamples < 2 ^ 29) ∧
      |pts| < 2 ^ 60 ∧ |s.metronom.audio_vpts| < 2 ^ 60 ∧ |s.metronom.vpts_offset| < 2 ^ 60
  | _ => True

instance (s : State) : ∀ a, Decidable (Moderate s a)
  | .setAudioRate pts_per_smpls =>
    inferInstanceAs (Decidable (0 ≤ pts_per_smpls ∧ pts_per_smpls < 2 ^ 32))
  | .gotAudioSamples pts nsamples =>
    inferInstanceAs (Decidable (0 ≤ nsamples ∧ nsamples < 2 ^ 29 ∧
      (¬NewAudioPts s.metronom pts → s.metronom.audio_samples + nsamples < 2 ^ 29) ∧
      |pts| < 2 ^ 60 ∧ |s.metronom.audio_vpts| < 2 ^ 60 ∧ |s.metronom.vpts_offset| < 2 ^ 60))
  | .videoCall .. | .videoWake .. | .audioCall | .audioWake | .gotVideoFrame .. | .gotSpuPacket _
  | .setOption .. => isTrue trivial

/-- What moderate actions keep of the audio. -/
structure Modest (m : Metronom) : Prop where
  rate_nonneg : 0 ≤ m.pts_per_smpls
  rate_lt : m.pts_per_smpls < 2 ^ 32
  step_le : |m.audio_drift_step| ≤ 2 ^ 30
  samples_nonneg : 0 ≤ m.audio_samples
  samples_lt : m.audio_samples < 2 ^ 29

/-- Between two corrections: rates, samples without a new pts, and discontinuities of the audio. -/
def Uncorrected (last_audio_pts : ℤ) : Action → Prop
  | .setAudioRate pts_per_smpls => 0 ≤ pts_per_smpls
  | .gotAudioSamples pts nsamples => (pts = 0 ∨ pts = last_audio_pts) ∧ 0 ≤ nsamples
  | .audioCall | .audioWake => True
  | _ => False

/-- What is due to the audio vpts, in parts of a tick, from some rate on. -/
def due (pts_per_smpls : ℤ) : List Action → ℤ
  | [] => 0
  | .setAudioRate pts_per_smpls :: as => due pts_per_smpls as
  | .gotAudioSamples _ nsamples :: as => nsamples * pts_per_smpls + due pts_per_smpls as
  | _ :: as => due pts_per_smpls as

section Rounding

variable {s s' : State} {a : Action} {m m' : Metronom} {pts nsamples vpts : ℤ}

theorem int64_of_abs_lt {v : ℤ} (h : |v| < 2 ^ 63) : int64 v = some v := by
  obtain ⟨hlow, hhigh⟩ := abs_lt.1 h
  exact if_pos (by omega)

theorem int32_of_abs_lt {v : ℤ} (h : |v| < 2 ^ 31) : int32 v = some v := by
  obtain ⟨hlow, hhigh⟩ := abs_lt.1 h
  exact if_pos (by omega)

theorem abs_mul_lt {x y a b : ℤ} (hx : |x| < a) (hy : |y| ≤ b) (hb : 0 < b) : |x * y| < a * b := by
  rw [abs_mul]
  calc |x| * |y| ≤ |x| * b := Int.mul_le_mul_of_nonneg_left hy (abs_nonneg x)
    _ < a * b := Int.mul_lt_mul_of_pos_right hx hb

theorem abs_tdiv_le_abs (x y : ℤ) : |x.tdiv y| ≤ |x| := by
  rw [← Int.natCast_natAbs, ← Int.natCast_natAbs, Int.natAbs_tdiv]
  exact Int.ofNat_le.2 (Nat.div_le_self _ _)

theorem audioDriftStep_some (h : Modest m) {diff : ℤ} (hdiff : |diff| ≤ audioDriftTolerance) :
    ∃ m', audioDriftStep m diff = some m' := by
  have hpos := h.samples_nonneg
  have hlt := h.samples_lt
  have hscaled : |diff * audioSampleNum| < 2 ^ 63 := by
    have hdiff' : |diff| < 45001 := by
      have hle : |diff| ≤ 45000 := hdiff
      omega
    exact (abs_mul_lt hdiff' (le_refl |audioSampleNum|) (by decide)).trans (by decide)
  have hcount : |m.audio_samples * 4| < 2 ^ 31 := by
    rw [abs_of_nonneg (by omega)]
    omega
  have hquotient : |(diff * audioSampleNum).tdiv (m.audio_samples * 4)| < 2 ^ 63 :=
    (abs_tdiv_le_abs _ _).trans_lt hscaled
  have hnegative : |-m.pts_per_smpls| < 2 ^ 63 := by
    have hrate := h.rate_nonneg
    have hrate' := h.rate_lt
    rw [abs_neg, abs_of_nonneg hrate]
    omega
  unfold audioDriftStep
  rw [int64_of_abs_lt hscaled, int32_of_abs_lt hcount, int64_of_abs_lt hnegative]
  simp only [Option.bind_eq_bind, Option.bind_some]
  rw [int64_of_abs_lt hquotient]
  exact ⟨_, rfl⟩

theorem compareAudio_some (h : Modest m) (hpts : |pts| < 2 ^ 60) (hvpts : |m.audio_vpts| < 2 ^ 60)
    (hoffset : |m.vpts_offset| < 2 ^ 60) :
    ∃ m₁, compareAudio m pts = some m₁ ∧ |m₁.audio_vpts| < 2 ^ 61 := by
  obtain ⟨hlow, hhigh⟩ := abs_lt.1 hpts
  obtain ⟨hlow', hhigh'⟩ := abs_lt.1 hvpts
  obtain ⟨hlow'', hhigh''⟩ := abs_lt.1 hoffset
  have hgiven : |pts + m.vpts_offset| < 2 ^ 61 := abs_lt.2 (by omega)
  have hdiff : |m.audio_vpts - (pts + m.vpts_offset)| < 2 ^ 63 := abs_lt.2 (by omega)
  unfold compareAudio
  simp only [Option.bind_eq_bind]
  rw [int64_of_abs_lt (hgiven.trans (by decide)), Option.bind_some, int64_of_abs_lt hdiff,
    Option.bind_some]
  generalize m.audio_vpts - (pts + m.vpts_offset) = diff at hdiff
  have habsolute : (if diff < 0 then -diff else diff) = |diff| := by
    split_ifs with hneg
    · exact (abs_of_neg hneg).symm
    · exact (abs_of_nonneg (not_lt.1 hneg)).symm
  rw [habsolute, int64_of_abs_lt (by rwa [abs_abs]), Option.bind_some]
  split_ifs with hjump
  · exact ⟨_, rfl, hgiven⟩
  · -- the step is computed
    have hsmall : |diff| ≤ audioDriftTolerance := not_lt.1 fun hlt => hjump (Or.inl hlt)
    have hmodest : Modest { m with last_audio_pts := pts } :=
      ⟨h.rate_nonneg, h.rate_lt, h.step_le, h.samples_nonneg, h.samples_lt⟩
    obtain ⟨m₁, h₁⟩ := audioDriftStep_some hmodest hsmall
    refine ⟨m₁, h₁, ?_⟩
    rw [audioDriftStep_only h₁]
    exact hvpts.trans (by decide)
  · exact ⟨_, rfl, hvpts.trans (by decide)⟩

theorem audioPts_some (h : Modest m) (hpts : |pts| < 2 ^ 60) (hvpts : |m.audio_vpts| < 2 ^ 60)
    (hoffset : |m.vpts_offset| < 2 ^ 60) :
    ∃ m₁, audioPts m pts = some m₁ ∧ |m₁.audio_vpts| < 2 ^ 61 := by
  by_cases hnew : NewAudioPts m pts
  · have hcond : pts ≠ 0 ∧ pts ≠ m.last_audio_pts := hnew
    obtain ⟨m₁, h₁, hlt⟩ := compareAudio_some h hpts hvpts hoffset
    refine ⟨{ m₁ with audio_samples := 0 }, ?_, hlt⟩
    unfold audioPts
    rw [if_pos hcond, h₁]
    rfl
  · exact ⟨m, audioPts_old hnew, hvpts.trans (by decide)⟩

theorem modest_audioPts (h : Modest m) (hm : audioPts m pts = some m') : Modest m' := by
  by_cases hnew : NewAudioPts m pts
  · obtain ⟨hzero, hrate, -, hstep⟩ := audioPts_new hnew hm
    have hnonneg := h.rate_nonneg
    have hlt := h.rate_lt
    refine ⟨by rw [hrate]; exact hnonneg, by rw [hrate]; exact hlt, ?_, by rw [hzero],
      by rw [hzero]; decide⟩
    rcases hstep with hsame | hclamped
    · rw [hsame]
      exact h.step_le
    · rw [abs_of_nonneg hnonneg] at hclamped
      omega
  · obtain rfl := Option.some.inj ((audioPts_old hnew).symm.trans hm)
    exact h

theorem gotAudioSamples_some (h : Modest s.metronom) (ha : Moderate s (.gotAudioSamples pts nsamples)) :
    ∃ m' vpts, gotAudioSamples s.metronom pts nsamples = some (m', vpts) := by
  obtain ⟨hn, hn', hcount, hpts, hvpts, hoffset⟩ := ha
  obtain ⟨m₁, h₁, hvpts₁⟩ := audioPts_some h hpts hvpts hoffset
  have hmodest := modest_audioPts h h₁
  have hrate : |m₁.pts_per_smpls| ≤ 2 ^ 32 := by
    rw [abs_of_nonneg hmodest.rate_nonneg]
    exact hmodest.rate_lt.le
  have hsamples : |nsamples| < 2 ^ 29 := by rwa [abs_of_nonneg hn]
  have hadvance : |nsamples * m₁.pts_per_smpls| < 2 ^ 29 * 2 ^ 32 :=
    abs_mul_lt hsamples hrate (by decide)
  have hdrift : |nsamples * m₁.audio_drift_step| < 2 ^ 29 * 2 ^ 30 :=
    abs_mul_lt hsamples hmodest.step_le (by decide)
  have hticks := (abs_tdiv_le_abs (nsamples * m₁.pts_per_smpls) audioSampleNum).trans_lt hadvance
  have hmoved := (abs_tdiv_le_abs (nsamples * m₁.audio_drift_step) audioSampleNum).trans_lt hdrift
  have hnext : |m₁.audio_vpts + (nsamples * m₁.pts_per_smpls).tdiv audioSampleNum| < 2 ^ 63 :=
    (abs_add_le _ _).trans_lt (by omega)
  have htotal : |m₁.audio_samples + nsamples| < 2 ^ 31 := by
    have hnonneg := hmodest.samples_nonneg
    have hlt := hmodest.samples_lt
    rw [abs_of_nonneg (by omega)]
    omega
  have hoffset₁ : |m₁.vpts_offset| < 2 ^ 60 := by
    by_cases hnew : NewAudioPts s.metronom pts
    · rw [(audioPts_new hnew h₁).2.2.1]
      exact hoffset
    · obtain rfl := Option.some.inj ((audioPts_old hnew).symm.trans h₁)
      exact hoffset
  have hnext' : |m₁.vpts_offset + (nsamples * m₁.audio_drift_step).tdiv audioSampleNum| < 2 ^ 63 :=
    (abs_add_le _ _).trans_lt (by omega)
  unfold gotAudioSamples
  rw [h₁]
  simp only [Option.bind_eq_bind, Option.bind_some]
  rw [int64_of_abs_lt (hadvance.trans (by decide)), Option.bind_some, int64_of_abs_lt hnext,
    Option.bind_some, int32_of_abs_lt htotal, Option.bind_some,
    int64_of_abs_lt (hdrift.trans (by decide)), Option.bind_some, int64_of_abs_lt hnext',
    Option.bind_some]
  exact ⟨_, _, rfl⟩

theorem modest_gotAudioSamples (h : Modest m) (hn : 0 ≤ nsamples) (hlt : nsamples < 2 ^ 29)
    (hcount : ¬NewAudioPts m pts → m.audio_samples + nsamples < 2 ^ 29)
    (hm : gotAudioSamples m pts nsamples = some (m', vpts)) : Modest m' := by
  obtain ⟨hrate, -, -, hsamples, hstep, -⟩ := gotAudioSamples_spec hm
  have hnonneg := h.rate_nonneg
  have hrate' := h.rate_lt
  have hpos := h.samples_nonneg
  refine ⟨by rw [hrate]; exact hnonneg, by rw [hrate]; exact hrate', ?_, ?_, ?_⟩
  · rcases hstep with hsame | hclamped
    · rw [hsame]
      exact h.step_le
    · rw [abs_of_nonneg hnonneg] at hclamped
      omega
  · rw [hsamples]
    split_ifs <;> omega
  · rw [hsamples]
    split_ifs with hnew
    · omega
    · exact hcount hnew

theorem modest_step (h : Modest s.metronom) (hok : Moderate s a) (hs : step s a = some s') :
    Modest s'.metronom := by
  cases a with
  | videoCall type disc_off video audio =>
    obtain ⟨-, hrate, hstep, hsamples⟩ := videoDiscontinuity_only (Or.inl ⟨_, _, _, _, rfl⟩) hs
    exact ⟨by rw [hrate]; exact h.rate_nonneg, by rw [hrate]; exact h.rate_lt,
      by rw [hstep]; exact h.step_le, by rw [hsamples]; exact h.samples_nonneg,
      by rw [hsamples]; exact h.samples_lt⟩
  | videoWake video audio =>
    obtain ⟨-, hrate, hstep, hsamples⟩ := videoDiscontinuity_only (Or.inr ⟨_, _, rfl⟩) hs
    exact ⟨by rw [hrate]; exact h.rate_nonneg, by rw [hrate]; exact h.rate_lt,
      by rw [hstep]; exact h.step_le, by rw [hsamples]; exact h.samples_nonneg,
      by rw [hsamples]; exact h.samples_lt⟩
  | audioCall | audioWake =>
    obtain ⟨m, hm, hm'⟩ := audioDiscontinuity_only (by simp) hs
    have hmodest : Modest m := by
      rcases hm with rfl | rfl
      · exact h
      · exact ⟨h.rate_nonneg, h.rate_lt, h.step_le, h.samples_nonneg, h.samples_lt⟩
    rcases hm' with hm' | hm'
    · rw [hm']
      exact hmodest
    · rw [hm']
      exact ⟨hmodest.rate_nonneg, hmodest.rate_lt, by change |(0 : ℤ)| ≤ 2 ^ 30; decide, le_refl _,
        by change (0 : ℤ) < 2 ^ 29; decide⟩
  | setAudioRate pts_per_smpls =>
    cases hs
    exact ⟨hok.1, hok.2, h.step_le, h.samples_nonneg, h.samples_lt⟩
  | gotSpuPacket pts =>
    obtain ⟨⟨m, vpts⟩, hm, rfl⟩ := Option.map_eq_some_iff.1 hs
    dsimp only
    rw [gotSpuPacket_only hm]
    exact ⟨h.rate_nonneg, h.rate_lt, h.step_le, h.samples_nonneg, h.samples_lt⟩
  | gotVideoFrame pts duration =>
    obtain ⟨⟨m, vpts, d⟩, hm, rfl⟩ := Option.map_eq_some_iff.1 hs
    dsimp only
    rw [gotVideoFrame_only hm]
    exact ⟨h.rate_nonneg, h.rate_lt, h.step_le, h.samples_nonneg, h.samples_lt⟩
  | gotAudioSamples pts nsamples =>
    obtain ⟨⟨m, vpts⟩, hm, rfl⟩ := Option.map_eq_some_iff.1 hs
    exact modest_gotAudioSamples h hok.1 hok.2.1 hok.2.2.1 hm
  | setOption option value =>
    obtain ⟨m, hm, rfl⟩ := Option.map_eq_some_iff.1 hs
    dsimp only
    rw [(setOption_only hm).1]
    exact ⟨h.rate_nonneg, h.rate_lt, h.step_le, h.samples_nonneg, h.samples_lt⟩

theorem tdiv_scale {v : ℤ} (h : 0 ≤ v) :
    audioSampleNum * v.tdiv audioSampleNum ≤ v ∧
      v ≤ audioSampleNum * v.tdiv audioSampleNum + (audioSampleNum - 1) := by
  rw [Int.tdiv_eq_ediv_of_nonneg h]
  unfold audioSampleNum
  omega

theorem run_uncorrected {as : List Action} (hrate : 0 ≤ s.metronom.pts_per_smpls)
    (has : ∀ a ∈ as, Uncorrected s.metronom.last_audio_pts a) (hrun : Runs.run step s as = some s') :
    let gap := due s.metronom.pts_per_smpls as -
      audioSampleNum * (s'.metronom.audio_vpts - s.metronom.audio_vpts)
    0 ≤ gap ∧ gap ≤ (audioSampleNum - 1) * as.length := by
  induction as generalizing s with
  | nil =>
    cases hrun
    simp [due]
  | cons a as ih =>
    obtain ⟨t, ht, hrest⟩ := Runs.run_cons_eq_some.1 hrun
    have ha := has a List.mem_cons_self
    have has' := fun b hb => has b (List.mem_cons_of_mem a hb)
    have hscale : (0 : ℤ) ≤ audioSampleNum - 1 := by decide
    have hlength : (audioSampleNum - 1) * ((a :: as).length : ℤ) =
        (audioSampleNum - 1) * as.length + (audioSampleNum - 1) := by
      rw [List.length_cons]
      push_cast
      ring
    dsimp only
    rw [hlength]
    cases a with
    | videoCall | videoWake | gotSpuPacket | gotVideoFrame | setOption => exact ha.elim
    | audioCall | audioWake =>
      -- neither the vpts nor the rate changes
      obtain ⟨m, hm, hm'⟩ := audioDiscontinuity_only (by simp) ht
      have hsame : t.metronom.pts_per_smpls = s.metronom.pts_per_smpls ∧
          t.metronom.audio_vpts = s.metronom.audio_vpts ∧
          t.metronom.last_audio_pts = s.metronom.last_audio_pts := by
        rcases hm' with hm' | hm' <;> rw [hm'] <;> rcases hm with rfl | rfl
        all_goals exact ⟨rfl, rfl, rfl⟩
      obtain ⟨hrate₁, hvpts₁, hlast₁⟩ := hsame
      obtain ⟨hlow, hhigh⟩ := ih (by rw [hrate₁]; exact hrate)
        (by rw [hlast₁]; exact has') hrest
      rw [hrate₁, hvpts₁] at hlow hhigh
      unfold due
      exact ⟨hlow, hhigh.trans (by omega)⟩
    | setAudioRate pts_per_smpls =>
      cases ht
      have hrate₁ : 0 ≤ (setAudioRate s.metronom pts_per_smpls).pts_per_smpls := ha
      obtain ⟨hlow, hhigh⟩ :=
        @ih { s with metronom := setAudioRate s.metronom pts_per_smpls } hrate₁ has' hrest
      unfold due
      exact ⟨hlow, hhigh.trans (by omega)⟩
    | gotAudioSamples pts nsamples =>
      obtain ⟨⟨m, vpts⟩, hm, rfl⟩ := Option.map_eq_some_iff.1 ht
      obtain ⟨hold, hn⟩ := ha
      have hnew : ¬NewAudioPts s.metronom pts := fun hnew => by
        rcases hold with hzero | hlast
        · exact hnew.1 hzero
        · exact hnew.2 hlast
      obtain ⟨hrate₁, hvpts₁, -, -, -, hsame⟩ := gotAudioSamples_spec hm
      obtain ⟨rfl, hlast₁⟩ := hsame hnew
      obtain ⟨hlow, hhigh⟩ := ih (by dsimp only; rw [hrate₁]; exact hrate)
        (by dsimp only; rw [hlast₁]; exact has') hrest
      dsimp only at hlow hhigh
      rw [hrate₁, hvpts₁] at hlow hhigh
      obtain ⟨hdiv, hdiv'⟩ := tdiv_scale (Int.mul_nonneg hn hrate)
      have hsplit : audioSampleNum * (s'.metronom.audio_vpts - s.metronom.audio_vpts) =
          audioSampleNum * (s'.metronom.audio_vpts - (s.metronom.audio_vpts +
            (nsamples * s.metronom.pts_per_smpls).tdiv audioSampleNum)) +
          audioSampleNum * (nsamples * s.metronom.pts_per_smpls).tdiv audioSampleNum := by ring
      unfold due
      rw [hsplit]
      constructor
      · omega
      · omega

/-- In a run whose rates, timestamps and counts of samples are moderate, the calls for samples never
overflow or divide by zero, and each moves the audio vpts on by its samples at their rate, rounded
down to whole ticks. The rest is not kept: between two corrections the audio vpts falls behind what is
due to it, by less than a tick for each call. -/
theorem audio_run_rounds {have_audio prebuffer : ℤ} {as : List Action}
    (hrun : Runs.run step (init have_audio prebuffer) as = some s)
    (hok : Runs.Guarded step Moderate (init have_audio prebuffer) as) :
    (s.metronom.audio_samples ≠ 0 →
      0 < s.metronom.audio_samples * 4 ∧ s.metronom.audio_samples * 4 < 2 ^ 31) ∧
    (∀ pts nsamples, Moderate s (.gotAudioSamples pts nsamples) → ∃ m' vpts,
      gotAudioSamples s.metronom pts nsamples = some (m', vpts) ∧
        m'.audio_vpts = vpts + (nsamples * s.metronom.pts_per_smpls) / audioSampleNum ∧
        (¬NewAudioPts s.metronom pts → vpts = s.metronom.audio_vpts)) ∧
    ∀ calls t, (∀ a ∈ calls, Uncorrected s.metronom.last_audio_pts a) →
      Runs.run step s calls = some t →
        audioSampleNum * (t.metronom.audio_vpts - s.metronom.audio_vpts) ≤
            due s.metronom.pts_per_smpls calls ∧
          due s.metronom.pts_per_smpls calls -
              audioSampleNum * (t.metronom.audio_vpts - s.metronom.audio_vpts) ≤
            (audioSampleNum - 1) * calls.length := by
  have hinit : Modest (init have_audio prebuffer).metronom :=
    ⟨le_refl _, by change (0 : ℤ) < 2 ^ 32; decide, by change |(0 : ℤ)| ≤ 2 ^ 30; decide, le_refl _,
      by change (0 : ℤ) < 2 ^ 29; decide⟩
  have h : Modest s.metronom := Runs.guarded_invariant
    (fun _ _ _ (hinv : Modest _) hok hs => modest_step hinv hok hs) hinit hok hrun
  refine ⟨fun hne => ?_, fun pts nsamples ha => ?_, fun calls t hcalls hrun' => ?_⟩
  · have hnonneg := h.samples_nonneg
    have hlt := h.samples_lt
    omega
  · obtain ⟨m', vpts, hm'⟩ := gotAudioSamples_some h ha
    obtain ⟨-, hvpts, -, -, -, hsame⟩ := gotAudioSamples_spec hm'
    rw [Int.tdiv_eq_ediv_of_nonneg (Int.mul_nonneg ha.1 h.rate_nonneg)] at hvpts
    exact ⟨m', vpts, hm', hvpts, fun hnew => (hsame hnew).1⟩
  · obtain ⟨hlow, hhigh⟩ := run_uncorrected h.rate_nonneg hcalls hrun'
    exact ⟨by omega, hhigh⟩

end Rounding

/-- A stream at 44100. -/
def roundedRun : List Action := [.setAudioRate 66873]

/-- Frames of 1536 samples, without a pts. -/
def roundedCalls : List Action := List.replicate 3 (.gotAudioSamples 0 1536)

theorem audio_run_rounds_44100 : ∃ s t, Runs.run step (init 1 12000) roundedRun = some s ∧
    Runs.run step s roundedCalls = some t ∧ t.metronom.audio_vpts = 21402 ∧
    audioSampleNum * (t.metronom.audio_vpts - s.metronom.audio_vpts) ≤
      due s.metronom.pts_per_smpls roundedCalls := by
  have hsome : ((Runs.run step (init 1 12000) roundedRun).bind fun s =>
      Runs.run step s roundedCalls).any (fun t => t.metronom.audio_vpts == 21402) := by
    decide
  obtain ⟨t, ht, hvpts⟩ := (Option.any_eq_true _ _).1 hsome
  obtain ⟨s, hs, ht⟩ := Option.bind_eq_some_iff.1 ht
  have hcalls : ∀ a ∈ roundedCalls, Uncorrected s.metronom.last_audio_pts a := by
    intro a ha
    obtain rfl := List.eq_of_mem_replicate ha
    exact ⟨Or.inl rfl, by decide⟩
  exact ⟨s, t, hs, ht, beq_iff_eq.1 hvpts,
    ((audio_run_rounds hs (by decide)).2.2 roundedCalls t hcalls ht).1⟩

/-- Three calls lose more than a whole tick: the vpts is 9402 further, and more than 9403 are due. -/
theorem gotAudioSamples_loses : ∃ s t, Runs.run step (init 1 12000) roundedRun = some s ∧
    Runs.run step s roundedCalls = some t ∧
    t.metronom.audio_vpts = s.metronom.audio_vpts + 9402 ∧
    audioSampleNum * 9403 < due s.metronom.pts_per_smpls roundedCalls := by
  have hsome : (Runs.run step (init 1 12000) roundedRun).any (fun s =>
      decide (audioSampleNum * 9403 < due s.metronom.pts_per_smpls roundedCalls) &&
        (Runs.run step s roundedCalls).any fun t =>
          t.metronom.audio_vpts == s.metronom.audio_vpts + 9402) := by
    decide
  obtain ⟨s, hs, hlast⟩ := (Option.any_eq_true _ _).1 hsome
  simp only [Bool.and_eq_true, decide_eq_true_eq] at hlast
  obtain ⟨hdue, hcalls⟩ := hlast
  obtain ⟨t, ht, hvpts⟩ := (Option.any_eq_true _ _).1 hcalls
  exact ⟨s, t, hs, ht, beq_iff_eq.1 hvpts, hdue⟩

end Xine.Timing
