import Mathlib.Algebra.Order.Ring.Int
import Mathlib.Algebra.Order.Group.Abs
import Xine.Timing.Effects

/-!
# The timestamps of the video

What `metronom_got_video_frame` gives a frame. The drift of the video, which is how far the predicted vpts is
ahead of the given one, is compensated by a constant step a frame, a thirtieth of it. The step is subtracted from
the duration of the frame, and it is not compared with that.
-/

namespace Xine.Timing

/-- The frame has a pts that is not the last one. -/
def NewPts (m : Metronom) (pts : ℤ) : Prop := pts ≠ 0 ∧ pts ≠ m.last_video_pts

instance (m : Metronom) (pts : ℤ) : Decidable (NewPts m pts) := instDecidableAnd

/-- How far the predicted vpts is ahead of the given one. -/
def ahead (m : Metronom) (pts : ℤ) : ℤ := m.video_vpts - (pts + m.vpts_offset)

/-- The frame makes the vpts jump. -/
def Jumps (m : Metronom) (pts : ℤ) : Prop :=
  NewPts m pts ∧ (|ahead m pts| > videoDriftTolerance ∨ m.force_video_jump = true)

section Frame

variable {m m' : Metronom} {pts duration duration' vpts : ℤ}

theorem frameDuration_of_ne (hduration : duration ≠ 0) :
    frameDuration m duration = ({ m with img_duration := duration }, duration) := if_neg hduration

theorem compareVideo_drift (h : compareVideo m pts = some m')
    (hjump : ¬(|ahead m pts| > videoDriftTolerance ∨ m.force_video_jump = true)) :
    |ahead m pts| ≤ videoDriftTolerance ∧
      m' = { m with video_drift := ahead m pts, video_drift_step := (ahead m pts).tdiv 30 } := by
  simp only [compareVideo, Option.bind_eq_bind, Option.bind_eq_some_iff] at h
  obtain ⟨given, hgiven, diff, hdiff, absolute, habsolute, h⟩ := h
  obtain rfl := (int64_eq_some hgiven).1
  obtain rfl := (int64_eq_some hdiff).1
  have habs : absolute = |ahead m pts| := by
    rw [(int64_eq_some habsolute).1]
    unfold ahead
    split_ifs with hneg
    · exact (abs_of_neg hneg).symm
    · exact (abs_of_nonneg (not_lt.1 hneg)).symm
  rw [habs, if_neg hjump] at h
  exact ⟨not_lt.1 fun hlt => hjump (Or.inl hlt), (Option.some.inj h).symm⟩

theorem videoPts_old (hnew : ¬NewPts m pts) (h : videoPts m pts duration = some (m', duration')) :
    (m', duration') = frameDuration m duration := by
  have hcond : ¬(pts ≠ 0 ∧ pts ≠ m.last_video_pts) := hnew
  unfold videoPts at h
  rw [if_neg hcond] at h
  exact (Option.some.inj h).symm

theorem videoPts_new (hnew : NewPts m pts) (hjump : ¬Jumps m pts)
    (h : videoPts m pts duration = some (m', duration')) :
    |ahead m pts| ≤ videoDriftTolerance ∧
      m' = { m with
        img_duration := m'.img_duration, img_cpt := 0, last_video_pts := pts
        video_drift := ahead m pts, video_drift_step := (ahead m pts).tdiv 30 } ∧
      (duration ≠ 0 → duration' = duration) := by
  have hcond : pts ≠ 0 ∧ pts ≠ m.last_video_pts := hnew
  unfold videoPts at h
  rw [if_pos hcond] at h
  simp only [Option.bind_eq_some_iff, Option.map_eq_some_iff, Prod.mk.injEq] at h
  obtain ⟨m₁, h₁, m₂, h₂, rfl, rfl⟩ := h
  -- neither the duration nor the counters of the frame matter to the comparison
  have hframe : (frameDuration m₁ duration).1 =
      { m with img_duration := (frameDuration m₁ duration).1.img_duration } :=
    (frameDuration_only m₁ duration).trans (by rw [computeDuration_only h₁])
  have hsecond : duration ≠ 0 → (frameDuration m₁ duration).2 = duration := fun hduration => by
    rw [frameDuration_of_ne hduration]
  generalize frameDuration m₁ duration = r at h₂ hframe hsecond
  obtain ⟨f, d⟩ := r
  dsimp only at h₂ hframe hsecond ⊢
  have hahead : ahead { f with img_cpt := 0, last_video_pts := pts } pts = ahead m pts := by
    unfold ahead
    rw [hframe]
  have hnot : ¬(|ahead { f with img_cpt := 0, last_video_pts := pts } pts| > videoDriftTolerance ∨
      f.force_video_jump = true) := by
    rw [hahead, hframe]
    exact fun h => hjump ⟨hnew, h⟩
  obtain ⟨hle, heq⟩ := compareVideo_drift h₂ hnot
  rw [hahead] at hle heq
  refine ⟨hle, ?_, hsecond⟩
  rw [heq, hframe]

/-- The amount by which a frame is shortened. -/
def correction (drift step : ℤ) : ℤ := if drift * step > 0 then step else 0

/-- The duration of a frame that is shortened, which is converted to `int`. -/
def shorten (given c : ℤ) : ℤ := if c = 0 then given else toInt (given - c)

theorem compensateDrift_spec (h : compensateDrift m duration = some (m', duration')) :
    duration' = shorten duration (correction m.video_drift m.video_drift_step) ∧
      m' = { m with
        video_drift := m.video_drift - correction m.video_drift m.video_drift_step } := by
  simp only [compensateDrift, Option.bind_eq_bind, Option.bind_eq_some_iff] at h
  obtain ⟨product, hproduct, h⟩ := h
  obtain rfl := (int64_eq_some hproduct).1
  unfold shorten correction
  by_cases hpos : m.video_drift * m.video_drift_step > 0
  · rw [if_pos hpos] at h
    simp only [Option.bind_eq_some_iff, Option.some.injEq, Prod.mk.injEq] at h
    obtain ⟨shortened, hshortened, drift, hdrift, rfl, rfl⟩ := h
    obtain rfl := (int64_eq_some hshortened).1
    obtain rfl := (int64_eq_some hdrift).1
    have hne : m.video_drift_step ≠ 0 := fun hzero => by
      rw [hzero, Int.mul_zero] at hpos
      exact lt_irrefl _ hpos
    rw [if_pos hpos, if_neg hne]
    exact ⟨rfl, rfl⟩
  · rw [if_neg hpos] at h
    obtain ⟨rfl, rfl⟩ := Prod.mk.inj (Option.some.inj h)
    rw [if_neg hpos, if_pos rfl, Int.sub_zero]
    exact ⟨rfl, rfl⟩

/-- The duration that a frame has before it is shortened. -/
def givenDuration (m : Metronom) (pts duration : ℤ) : Option ℤ :=
  (videoPts { m with img_cpt := m.img_cpt + 1 } pts duration).map Prod.snd

theorem givenDuration_old (hnew : ¬NewPts m pts) :
    givenDuration m pts duration = some (frameDuration m duration).2 := by
  have hcond : ¬(pts ≠ 0 ∧ pts ≠ m.last_video_pts) := hnew
  unfold givenDuration videoPts
  rw [if_neg hcond, Option.map_some]
  unfold frameDuration
  split_ifs
  · rfl
  · rfl

theorem gotVideoFrame_old (hnew : ¬NewPts m pts)
    (h : gotVideoFrame m pts duration = some (m', vpts, duration')) :
    vpts = m.video_vpts + m.av_offset ∧
      duration' = shorten (frameDuration m duration).2
        (correction m.video_drift m.video_drift_step) ∧
      m' = { m with
        img_cpt := m.img_cpt + 1, img_duration := m'.img_duration
        video_drift := m.video_drift - correction m.video_drift m.video_drift_step
        video_vpts := m.video_vpts + duration' } := by
  simp only [gotVideoFrame, Option.bind_eq_bind, Option.bind_eq_some_iff, Option.some.injEq,
    Prod.mk.injEq] at h
  obtain ⟨img_cpt, hcpt, ⟨m₁, d₁⟩, h₁, vpts', hvpts, ⟨m₂, d₂⟩, h₂, next, hnext, rfl, rfl, rfl⟩ := h
  obtain rfl := (int32_eq_some hcpt).1
  obtain rfl := (int64_eq_some hvpts).1
  obtain rfl := (int64_eq_some hnext).1
  have hnew' : ¬NewPts { m with img_cpt := m.img_cpt + 1 } pts := hnew
  have hold := videoPts_old hnew' h₁
  obtain ⟨hd₂, hm₂⟩ := compensateDrift_spec h₂
  have hm₁ : m₁ = (frameDuration { m with img_cpt := m.img_cpt + 1 } duration).1 :=
    congrArg Prod.fst hold
  have hd₁ : d₁ = (frameDuration m duration).2 := by
    have hsecond : d₁ = (frameDuration { m with img_cpt := m.img_cpt + 1 } duration).2 :=
      congrArg Prod.snd hold
    rw [hsecond]
    unfold frameDuration
    split_ifs
    · rfl
    · rfl
  rw [frameDuration_only] at hm₁
  rw [hm₁] at hd₂ hm₂
  dsimp only at hd₂ hm₂ hvpts ⊢
  rw [hm₁]
  refine ⟨rfl, ?_, ?_⟩
  · rw [hd₂, hd₁]
  · rw [hm₂]

theorem gotVideoFrame_new (hnew : NewPts m pts) (hjump : ¬Jumps m pts)
    (h : gotVideoFrame m pts duration = some (m', vpts, duration')) :
    |ahead m pts| ≤ videoDriftTolerance ∧ vpts = m.video_vpts + m.av_offset ∧
      (∃ given, givenDuration m pts duration = some given ∧ (duration ≠ 0 → given = duration) ∧
        duration' = shorten given (correction (ahead m pts) ((ahead m pts).tdiv 30))) ∧
      m' = { m with
        img_cpt := 0, img_duration := m'.img_duration, last_video_pts := pts
        video_drift := ahead m pts - correction (ahead m pts) ((ahead m pts).tdiv 30)
        video_drift_step := (ahead m pts).tdiv 30
        video_vpts := m.video_vpts + duration' } := by
  simp only [gotVideoFrame, Option.bind_eq_bind, Option.bind_eq_some_iff, Option.some.injEq,
    Prod.mk.injEq] at h
  obtain ⟨img_cpt, hcpt, ⟨m₁, d₁⟩, h₁, vpts', hvpts, ⟨m₂, d₂⟩, h₂, next, hnext, rfl, rfl, rfl⟩ := h
  obtain rfl := (int32_eq_some hcpt).1
  obtain rfl := (int64_eq_some hvpts).1
  obtain rfl := (int64_eq_some hnext).1
  have hnew' : NewPts { m with img_cpt := m.img_cpt + 1 } pts := hnew
  have hjump' : ¬Jumps { m with img_cpt := m.img_cpt + 1 } pts := hjump
  have hgiven : givenDuration m pts duration = some d₁ := by
    unfold givenDuration
    rw [h₁]
    rfl
  obtain ⟨hle, hm₁, hd₁⟩ := videoPts_new hnew' hjump' h₁
  obtain ⟨hd₂, hm₂⟩ := compensateDrift_spec h₂
  have hahead : ahead { m with img_cpt := m.img_cpt + 1 } pts = ahead m pts := rfl
  rw [hahead] at hle hm₁
  rw [hm₁] at hd₂ hm₂
  dsimp only at hd₂ hm₂ ⊢
  refine ⟨hle, ?_, ⟨d₁, hgiven, hd₁, hd₂⟩, ?_⟩
  · rw [hm₁]
  · rw [hm₂]

/-! ## The duration of a frame -/

theorem toInt_pos_iff {v : ℤ} (hlow : -2 ^ 31 ≤ v) (hhigh : v < 2 ^ 32) :
    0 < toInt v ↔ 0 < v ∧ v < 2 ^ 31 := by
  unfold toInt
  rw [Int.bmod_def]
  omega

theorem shorten_pos_iff {given c : ℤ} (hc : |c| ≤ 1500) (hpos : 0 < given) (hint : given < 2 ^ 31) :
    0 < shorten given c ↔ c < given ∧ given - c < 2 ^ 31 := by
  obtain ⟨hlow, hhigh⟩ := abs_le.1 hc
  unfold shorten
  split_ifs with hzero
  · rw [hzero, Int.sub_zero]
    exact iff_of_true hpos ⟨hpos, hint⟩
  · rw [toInt_pos_iff (by omega) (by omega), Int.sub_pos]

theorem tdiv_thirty (a : ℤ) :
    (0 ≤ a ∧ 30 * a.tdiv 30 ≤ a ∧ a < 30 * a.tdiv 30 + 30) ∨
      (a < 0 ∧ a ≤ 30 * a.tdiv 30 ∧ 30 * a.tdiv 30 < a + 30) := by
  by_cases hneg : a < 0
  · have hdiv : a.tdiv 30 = -((-a) / 30) := by
      rw [← Int.tdiv_eq_ediv_of_nonneg (by omega), Int.neg_tdiv, Int.neg_neg]
    right
    omega
  · have hdiv : a.tdiv 30 = a / 30 := Int.tdiv_eq_ediv_of_nonneg (by omega)
    left
    omega

theorem abs_tdiv_le {a : ℤ} (h : |a| ≤ videoDriftTolerance) : |a.tdiv 30| ≤ 1500 := by
  have hle : |a| ≤ 45000 := h
  obtain ⟨hlow, hhigh⟩ := abs_le.1 hle
  have hdiv := tdiv_thirty a
  exact abs_le.2 (by omega)

theorem correction_tdiv (a : ℤ) : correction a (a.tdiv 30) = a.tdiv 30 := by
  unfold correction
  split_ifs with hpos
  · rfl
  · -- the step is zero, since it has the sign of the drift
    by_contra hne
    rcases tdiv_thirty a with ⟨hnonneg, hle, hlt⟩ | ⟨hneg, hle, hlt⟩
    · exact hpos (Int.mul_pos (by omega) (by omega))
    · exact hpos (Int.mul_pos_of_neg_of_neg hneg (by omega))

/-- The frame is longer than the step by which it is shortened, and fits an `int` afterwards: with a
new pts, it is ahead of it by less than thirty of its durations, and otherwise it is longer than the
step of the drift in progress. -/
def Shortenable (m : Metronom) (pts duration : ℤ) : Prop :=
  if NewPts m pts then
    ahead m pts < 30 * duration ∧ -ahead m pts < 30 * (2 ^ 31 - duration)
  else
    m.video_drift * m.video_drift_step > 0 →
      m.video_drift_step < duration ∧ duration - m.video_drift_step < 2 ^ 31

theorem gotVideoFrame_advances (hstep : |m.video_drift_step| ≤ 1500) (hpos : 0 < duration)
    (hint : duration < 2 ^ 31) (hjump : ¬Jumps m pts)
    (h : gotVideoFrame m pts duration = some (m', vpts, duration')) :
    vpts = m.video_vpts + m.av_offset ∧ m'.video_vpts = m.video_vpts + duration' ∧
      m'.av_offset = m.av_offset ∧ (0 < duration' ↔ Shortenable m pts duration) := by
  by_cases hnew : NewPts m pts
  · obtain ⟨hle, hvpts, ⟨given, -, hgiven, hduration'⟩, hm'⟩ := gotVideoFrame_new hnew hjump h
    obtain rfl := hgiven (by omega)
    rw [correction_tdiv] at hduration'
    refine ⟨hvpts, by rw [hm'], by rw [hm'], ?_⟩
    have hdiv := tdiv_thirty (ahead m pts)
    rw [hduration', shorten_pos_iff (abs_tdiv_le hle) hpos hint]
    unfold Shortenable
    rw [if_pos hnew]
    omega
  · obtain ⟨hvpts, hduration', hm'⟩ := gotVideoFrame_old hnew h
    rw [frameDuration_of_ne (by omega)] at hduration'
    refine ⟨hvpts, by rw [hm'], by rw [hm'], ?_⟩
    unfold Shortenable
    rw [if_neg hnew, hduration']
    unfold correction
    split_ifs with hproduct
    · rw [shorten_pos_iff hstep hpos hint]
      exact ⟨fun h _ => h, fun h => h hproduct⟩
    · exact iff_of_true hpos fun hgt => absurd hgt hproduct

theorem gotVideoFrame_vpts (hjump : ¬Jumps m pts)
    (h : gotVideoFrame m pts duration = some (m', vpts, duration')) :
    vpts = m.video_vpts + m.av_offset := by
  by_cases hnew : NewPts m pts
  · exact (gotVideoFrame_new hnew hjump h).2.1
  · exact (gotVideoFrame_old hnew h).1

theorem compareVideo_step (h : compareVideo m pts = some m') :
    m'.video_drift_step = m.video_drift_step ∨ |m'.video_drift_step| ≤ 1500 := by
  by_cases hjump : |ahead m pts| > videoDriftTolerance ∨ m.force_video_jump = true
  · -- the vpts jumps, and the step is not touched
    simp only [compareVideo, Option.bind_eq_bind, Option.bind_eq_some_iff] at h
    obtain ⟨given, hgiven, diff, hdiff, absolute, habsolute, h⟩ := h
    split_ifs at h with hbig
    · cases h
      exact Or.inl rfl
    · cases h
      have hsmall : |diff| ≤ videoDriftTolerance := by
        have hle := not_lt.1 fun hlt => hbig (Or.inl hlt)
        rw [(int64_eq_some habsolute).1] at hle
        split_ifs at hle with hneg
        · rwa [abs_of_neg hneg]
        · rwa [abs_of_nonneg (not_lt.1 hneg)]
      exact Or.inr (abs_tdiv_le hsmall)
  · obtain ⟨hle, hm'⟩ := compareVideo_drift h hjump
    rw [hm']
    exact Or.inr (abs_tdiv_le hle)

theorem gotVideoFrame_step (h : gotVideoFrame m pts duration = some (m', vpts, duration')) :
    m'.video_drift_step = m.video_drift_step ∨ |m'.video_drift_step| ≤ 1500 := by
  simp only [gotVideoFrame, Option.bind_eq_bind, Option.bind_eq_some_iff, Option.some.injEq,
    Prod.mk.injEq] at h
  obtain ⟨img_cpt, -, ⟨m₁, d₁⟩, h₁, _, -, ⟨m₂, d₂⟩, h₂, _, -, rfl, -⟩ := h
  rw [compensateDrift_only h₂]
  dsimp only
  unfold videoPts at h₁
  split_ifs at h₁
  · simp only [Option.bind_eq_some_iff, Option.map_eq_some_iff, Prod.mk.injEq] at h₁
    obtain ⟨m₃, h₃, m₄, h₄, rfl, -⟩ := h₁
    have hframe : (frameDuration m₃ duration).1.video_drift_step = m.video_drift_step := by
      rw [frameDuration_only, computeDuration_only h₃]
    have hcompared := compareVideo_step h₄
    dsimp only at hcompared
    rwa [hframe] at hcompared
  · have heq : (frameDuration { m with img_cpt } duration).1 = m₁ :=
      congrArg Prod.fst (Option.some.inj h₁)
    rw [← heq, frameDuration_only]
    exact Or.inl rfl

end Frame

/-! ## Runs -/

/-- An action between two frames that moves neither the video clock nor its offset from the audio. -/
def Between : Action → Prop
  | .gotVideoFrame .. | .videoCall .. | .videoWake .. | .setOption .avOffset _ => False
  | _ => True

/-- A frame with a duration, which does not jump, can be shortened by the step. -/
def Steady (s : State) : Action → Prop
  | .gotVideoFrame pts duration =>
    0 < duration → duration < 2 ^ 31 → ¬Jumps s.metronom pts → Shortenable s.metronom pts duration
  | _ => True

instance (m : Metronom) (pts : ℤ) : Decidable (Jumps m pts) :=
  inferInstanceAs (Decidable (NewPts m pts ∧
    (|ahead m pts| > videoDriftTolerance ∨ m.force_video_jump = true)))

instance (m : Metronom) (pts duration : ℤ) : Decidable (Shortenable m pts duration) :=
  if hnew : NewPts m pts then
    decidable_of_iff (ahead m pts < 30 * duration ∧ -ahead m pts < 30 * (2 ^ 31 - duration))
      (by unfold Shortenable; rw [if_pos hnew])
  else
    decidable_of_iff (m.video_drift * m.video_drift_step > 0 →
        m.video_drift_step < duration ∧ duration - m.video_drift_step < 2 ^ 31)
      (by unfold Shortenable; rw [if_neg hnew])

instance (s : State) : ∀ a, Decidable (Steady s a)
  | .gotVideoFrame pts duration =>
    inferInstanceAs (Decidable (0 < duration → duration < 2 ^ 31 → ¬Jumps s.metronom pts →
      Shortenable s.metronom pts duration))
  | .videoCall .. | .videoWake .. | .audioCall | .audioWake | .setAudioRate _ | .gotSpuPacket _
  | .gotAudioSamples .. | .setOption .. => isTrue trivial

/-- Such a frame gets a positive duration, and the next frame that does not jump has the vpts of this
one plus its duration. -/
def Advances (s : State) : Action → Prop
  | .gotVideoFrame pts duration =>
    0 < duration → duration < 2 ^ 31 → ¬Jumps s.metronom pts → ∀ m' vpts duration',
      gotVideoFrame s.metronom pts duration = some (m', vpts, duration') →
        0 < duration' ∧ ∀ as t, (∀ a ∈ as, Between a) →
          Runs.run step { s with metronom := m' } as = some t →
            ∀ pts₂ duration₂ m₂ vpts₂ duration₂', ¬Jumps t.metronom pts₂ →
              gotVideoFrame t.metronom pts₂ duration₂ = some (m₂, vpts₂, duration₂') →
                vpts₂ = vpts + duration' ∧ vpts < vpts₂
  | _ => True

section Run

variable {s s' : State} {a : Action}

theorem step_between (ha : Between a) (hs : step s a = some s') :
    s'.metronom.video_vpts = s.metronom.video_vpts ∧
      s'.metronom.av_offset = s.metronom.av_offset := by
  cases a with
  | videoCall | videoWake | gotVideoFrame => exact ha.elim
  | audioCall | audioWake =>
    obtain ⟨m, hm, hm'⟩ := audioDiscontinuity_only (by simp) hs
    rcases hm' with hm' | hm' <;> rw [hm'] <;> rcases hm with rfl | rfl
    all_goals exact ⟨rfl, rfl⟩
  | setAudioRate pts_per_smpls =>
    cases hs
    exact ⟨rfl, rfl⟩
  | gotSpuPacket pts =>
    obtain ⟨⟨m, vpts⟩, hm, rfl⟩ := Option.map_eq_some_iff.1 hs
    dsimp only
    rw [gotSpuPacket_only hm]
    exact ⟨rfl, rfl⟩
  | gotAudioSamples pts nsamples =>
    obtain ⟨⟨m, vpts⟩, hm, rfl⟩ := Option.map_eq_some_iff.1 hs
    dsimp only
    rw [gotAudioSamples_only hm]
    exact ⟨rfl, rfl⟩
  | setOption option value =>
    obtain ⟨m, hm, rfl⟩ := Option.map_eq_some_iff.1 hs
    obtain ⟨hm', hoffset⟩ := setOption_only hm
    refine ⟨by dsimp only; rw [hm'], hoffset ?_⟩
    rintro rfl
    exact ha

theorem run_between {as : List Action} (has : ∀ a ∈ as, Between a)
    (hrun : Runs.run step s as = some s') :
    s'.metronom.video_vpts = s.metronom.video_vpts ∧
      s'.metronom.av_offset = s.metronom.av_offset := by
  induction as generalizing s with
  | nil =>
    cases hrun
    exact ⟨rfl, rfl⟩
  | cons a as ih =>
    obtain ⟨t, ht, hrest⟩ := Runs.run_cons_eq_some.1 hrun
    obtain ⟨hvpts, hoffset⟩ := step_between (has a List.mem_cons_self) ht
    obtain ⟨hvpts', hoffset'⟩ := ih (fun b hb => has b (List.mem_cons_of_mem a hb)) hrest
    exact ⟨hvpts'.trans hvpts, hoffset'.trans hoffset⟩

/-- The step of the drift of the video is bounded. -/
def SmallStep (s : State) : Prop := |s.metronom.video_drift_step| ≤ 1500

theorem smallStep_step (h : SmallStep s) (hs : step s a = some s') : SmallStep s' := by
  unfold SmallStep at h ⊢
  cases a with
  | videoCall type disc_off video audio =>
    rw [(videoDiscontinuity_only (Or.inl ⟨_, _, _, _, rfl⟩) hs).1]
    exact h
  | videoWake video audio =>
    rw [(videoDiscontinuity_only (Or.inr ⟨_, _, rfl⟩) hs).1]
    exact h
  | audioCall | audioWake =>
    obtain ⟨m, hm, hm'⟩ := audioDiscontinuity_only (by simp) hs
    rcases hm' with hm' | hm' <;> rw [hm'] <;> rcases hm with rfl | rfl
    all_goals exact h
  | setAudioRate pts_per_smpls =>
    cases hs
    exact h
  | gotSpuPacket pts =>
    obtain ⟨⟨m, vpts⟩, hm, rfl⟩ := Option.map_eq_some_iff.1 hs
    dsimp only
    rw [gotSpuPacket_only hm]
    exact h
  | gotVideoFrame pts duration =>
    obtain ⟨⟨m, vpts, d⟩, hm, rfl⟩ := Option.map_eq_some_iff.1 hs
    rcases gotVideoFrame_step hm with hsame | hsmall
    · dsimp only
      rw [hsame]
      exact h
    · exact hsmall
  | gotAudioSamples pts nsamples =>
    obtain ⟨⟨m, vpts⟩, hm, rfl⟩ := Option.map_eq_some_iff.1 hs
    dsimp only
    rw [gotAudioSamples_only hm]
    exact h
  | setOption option value =>
    obtain ⟨m, hm, rfl⟩ := Option.map_eq_some_iff.1 hs
    dsimp only
    rw [(setOption_only hm).1]
    exact h

theorem steady_iff_advances (h : SmallStep s) (hs : step s a = some s') :
    Steady s a ↔ Advances s a := by
  cases a with
  | gotVideoFrame pts duration =>
    unfold Steady Advances
    refine forall_congr' fun hpos => forall_congr' fun hint => forall_congr' fun hjump => ?_
    obtain ⟨⟨m, vpts, d⟩, hm, -⟩ := Option.map_eq_some_iff.1 hs
    obtain ⟨hvpts, hnext, hoffset, hiff⟩ := gotVideoFrame_advances h hpos hint hjump hm
    constructor
    · intro hshort m' vpts' d' hm'
      obtain ⟨rfl, hpair⟩ := Prod.mk.inj (Option.some.inj (hm.symm.trans hm'))
      obtain ⟨rfl, rfl⟩ := Prod.mk.inj hpair
      have hd := hiff.2 hshort
      refine ⟨hd, fun as t has hrun pts₂ duration₂ m₂ vpts₂ duration₂' hjump₂ h₂ => ?_⟩
      obtain ⟨hclock, hav⟩ := run_between has hrun
      have heq : vpts₂ = vpts + d :=
        calc vpts₂ = t.metronom.video_vpts + t.metronom.av_offset := gotVideoFrame_vpts hjump₂ h₂
          _ = m.video_vpts + m.av_offset := by rw [hclock, hav]
          _ = vpts + d := by rw [hnext, hoffset, hvpts]; omega
      exact ⟨heq, by omega⟩
    · intro hall
      exact hiff.1 (hall m vpts d hm).1
  | _ => exact Iff.rfl

/-- In a run of the metronom, every frame with a duration that does not jump keeps a positive duration
and is followed by the vpts that is so much later, exactly if each such frame is longer than the step
by which it is shortened. -/
theorem video_run_advances_iff {have_audio prebuffer : ℤ} {as : List Action}
    (hrun : Runs.run step (init have_audio prebuffer) as = some s) :
    Runs.Guarded step Steady (init have_audio prebuffer) as ↔
      Runs.Guarded step Advances (init have_audio prebuffer) as := by
  have hinit : SmallStep (init have_audio prebuffer) := by
    change |(0 : ℤ)| ≤ 1500
    decide
  exact Runs.guarded_congr (fun _ _ _ h hs => smallStep_step h hs)
    (fun _ _ _ h hs => steady_iff_advances h hs) hinit hrun

end Run

/-- The predicted vpts is 4000 ahead of the second frame. -/
def aheadRun : List Action :=
  [.gotVideoFrame 0 3000, .gotVideoFrame 11000 3000, .gotAudioSamples 0 1152, .gotVideoFrame 0 3000]

theorem video_run_advances_iff_ahead : ∃ s, Runs.run step (init 1 12000) aheadRun = some s ∧
    s.metronom.video_drift = 3734 ∧ Runs.Guarded step Advances (init 1 12000) aheadRun := by
  have hsome : (Runs.run step (init 1 12000) aheadRun).any
      (fun s => s.metronom.video_drift == 3734) := by
    decide
  obtain ⟨s, hs, hdrift⟩ := (Option.any_eq_true _ _).1 hsome
  exact ⟨s, hs, beq_iff_eq.1 hdrift, (video_run_advances_iff hs).1 (by decide)⟩

/-- Frames of a sixtieth of a second without a pts, and then one that is half a second behind. -/
def behindRun : List Action := List.replicate 23 (.gotVideoFrame 0 1500)

/-- The last frame does not jump, and is left with no duration. -/
theorem gotVideoFrame_stands : ∃ s m' vpts, Runs.run step (init 1 12000) behindRun = some s ∧
    ¬Jumps s.metronom 1500 ∧ gotVideoFrame s.metronom 1500 1500 = some (m', vpts, 0) ∧
      m'.video_vpts + m'.av_offset = vpts := by
  have hsome : (Runs.run step (init 1 12000) behindRun).any (fun s =>
      !decide (Jumps s.metronom 1500) && (gotVideoFrame s.metronom 1500 1500).any fun r =>
        r.2.2 == 0 && r.1.video_vpts + r.1.av_offset == r.2.1) := by
    decide
  obtain ⟨s, hs, hlast⟩ := (Option.any_eq_true _ _).1 hsome
  simp only [Bool.and_eq_true, Bool.not_eq_true', decide_eq_false_iff_not] at hlast
  obtain ⟨hjump, hframe⟩ := hlast
  obtain ⟨⟨m', vpts, d⟩, hm', heq⟩ := (Option.any_eq_true _ _).1 hframe
  simp only [Bool.and_eq_true, beq_iff_eq] at heq
  obtain ⟨rfl, hnext⟩ := heq
  exact ⟨s, m', vpts, hs, hjump, hm', hnext⟩

end Xine.Timing
