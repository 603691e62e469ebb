import Xine.Timing.Rendezvous

/-!
# What the calls leave alone

Each call on the metronom changes a few of its fields. The lemmas here say which ones, as an equation between the
metronom before and after.
-/

namespace Xine.Timing

theorem int32_eq_some {v w : ℤ} (h : int32 v = some w) : w = v ∧ -2 ^ 31 ≤ v ∧ v < 2 ^ 31 := by
  unfold int32 at h
  split_ifs at h with hfits
  exact ⟨(Option.some.inj h).symm, hfits⟩

theorem int64_eq_some {v w : ℤ} (h : int64 v = some w) : w = v ∧ -2 ^ 63 ≤ v ∧ v < 2 ^ 63 := by
  unfold int64 at h
  split_ifs at h with hfits
  exact ⟨(Option.some.inj h).symm, hfits⟩

section Calls

variable {m m' : Metronom}

theorem gotSpuPacket_only {pts vpts : ℤ} (h : gotSpuPacket m pts = some (m', vpts)) :
    m' = { m with spu_vpts := m'.spu_vpts } := by
  simp only [gotSpuPacket, Option.bind_eq_bind, Option.bind_eq_some_iff, Option.some.injEq,
    Prod.mk.injEq] at h
  obtain ⟨_, -, _, -, rfl, -⟩ := h
  rfl

theorem computeDuration_only {pts duration : ℤ} (h : computeDuration m pts duration = some m') :
    m' = { m with img_duration := m'.img_duration } := by
  unfold computeDuration at h
  split_ifs at h
  · obtain ⟨_, -, rfl⟩ := Option.map_eq_some_iff.1 h
    rfl
  · cases h
    rfl

theorem frameDuration_only (m : Metronom) (duration : ℤ) :
    (frameDuration m duration).1 = { m with img_duration := (frameDuration m duration).1.img_duration } := by
  unfold frameDuration
  split_ifs
  · rfl
  · rfl

theorem compareVideo_only {pts : ℤ} (h : compareVideo m pts = some m') :
    m' = { m with
      video_vpts := m'.video_vpts, video_drift := m'.video_drift
      video_drift_step := m'.video_drift_step, force_video_jump := m'.force_video_jump } := by
  simp only [compareVideo, Option.bind_eq_bind, Option.bind_eq_some_iff] at h
  obtain ⟨_, -, _, -, _, -, h⟩ := h
  split_ifs at h
  · cases h
    rfl
  · cases h
    rfl

theorem videoPts_only {pts duration duration' : ℤ}
    (h : videoPts m pts duration = some (m', duration')) :
    m' = { m with
      video_vpts := m'.video_vpts, video_drift := m'.video_drift
      video_drift_step := m'.video_drift_step, force_video_jump := m'.force_video_jump
      img_duration := m'.img_duration, img_cpt := m'.img_cpt
      last_video_pts := m'.last_video_pts } := by
  unfold videoPts at h
  split_ifs at h
  · simp only [Option.bind_eq_some_iff, Option.map_eq_some_iff, Prod.mk.injEq] at h
    obtain ⟨m₁, h₁, m₂, h₂, rfl, -⟩ := h
    have hcompared := compareVideo_only h₂
    rw [frameDuration_only m₁ duration, computeDuration_only h₁] at hcompared
    rw [hcompared]
  · have heq : (frameDuration m duration).1 = m' := congrArg Prod.fst (Option.some.inj h)
    rw [← heq, frameDuration_only m duration]

theorem compensateDrift_only {duration duration' : ℤ}
    (h : compensateDrift m duration = some (m', duration')) :
    m' = { m with video_drift := m'.video_drift } := by
  simp only [compensateDrift, Option.bind_eq_bind, Option.bind_eq_some_iff] at h
  obtain ⟨_, -, h⟩ := h
  split_ifs at h
  · simp only [Option.bind_eq_some_iff, Option.some.injEq, Prod.mk.injEq] at h
    obtain ⟨_, -, _, -, rfl, -⟩ := h
    rfl
  · obtain ⟨rfl, -⟩ := Prod.mk.inj (Option.some.inj h)
    rfl

theorem gotVideoFrame_only {pts duration vpts duration' : ℤ}
    (h : gotVideoFrame m pts duration = some (m', vpts, duration')) :
    m' = { m with
      video_vpts := m'.video_vpts, video_drift := m'.video_drift
      video_drift_step := m'.video_drift_step, force_video_jump := m'.force_video_jump
      img_duration := m'.img_duration, img_cpt := m'.img_cpt
      last_video_pts := m'.last_video_pts } := by
  simp only [gotVideoFrame, Option.bind_eq_bind, Option.bind_eq_some_iff, Option.some.injEq,
    Prod.mk.injEq] at h
  obtain ⟨img_cpt, -, ⟨m₁, d₁⟩, h₁, _, -, ⟨m₂, d₂⟩, h₂, _, -, rfl, -⟩ := h
  have hcompensated := compensateDrift_only h₂
  rw [videoPts_only h₁] at hcompensated
  dsimp only at hcompensated ⊢
  rw [hcompensated]

theorem audioDriftStep_only {diff : ℤ} (h : audioDriftStep m diff = some m') :
    m' = { m with audio_drift_step := m'.audio_drift_step } := by
  simp only [audioDriftStep, Option.bind_eq_bind, Option.bind_eq_some_iff, Option.some.injEq] at h
  obtain ⟨_, -, _, -, _, -, _, -, rfl⟩ := h
  rfl

theorem compareAudio_only {pts : ℤ} (h : compareAudio m pts = some m') :
    m' = { m with
      audio_vpts := m'.audio_vpts, audio_drift_step := m'.audio_drift_step
      force_audio_jump := m'.force_audio_jump, last_audio_pts := m'.last_audio_pts } := by
  simp only [compareAudio, Option.bind_eq_bind, Option.bind_eq_some_iff] at h
  obtain ⟨_, -, _, -, _, -, h⟩ := h
  split_ifs at h
  · cases h
    rfl
  · rw [audioDriftStep_only h]
  · cases h
    rfl

theorem gotAudioSamples_only {pts nsamples vpts : ℤ}
    (h : gotAudioSamples m pts nsamples = some (m', vpts)) :
    m' = { m with
      audio_vpts := m'.audio_vpts, audio_drift_step := m'.audio_drift_step
      force_audio_jump := m'.force_audio_jump, last_audio_pts := m'.last_audio_pts
      audio_samples := m'.audio_samples, vpts_offset := m'.vpts_offset } := by
  simp only [gotAudioSamples, Option.bind_eq_bind, Option.bind_eq_some_iff, Option.some.injEq,
    Prod.mk.injEq] at h
  obtain ⟨m₁, h₁, _, -, _, -, _, -, _, -, _, -, rfl, -⟩ := h
  unfold audioPts at h₁
  split_ifs at h₁
  · obtain ⟨m₂, h₂, rfl⟩ := Option.map_eq_some_iff.1 h₁
    dsimp only
    rw [compareAudio_only h₂]
  · cases h₁
    rfl

theorem setOption_only {value : ℤ} {option : MetronomOption}
    (h : setOption m value option = some m') :
    m' = { m with
        av_offset := m'.av_offset, spu_offset := m'.spu_offset, audio_vpts := m'.audio_vpts } ∧
      (option ≠ .avOffset → m'.av_offset = m.av_offset) := by
  cases option with
  | avOffset =>
    cases h
    exact ⟨rfl, fun hne => absurd rfl hne⟩
  | spuOffset =>
    cases h
    exact ⟨rfl, fun _ => rfl⟩
  | adjVptsOffset =>
    obtain ⟨_, -, rfl⟩ := Option.map_eq_some_iff.1 h
    exact ⟨rfl, fun _ => rfl⟩

theorem switchOffset_only {disc_off : ℤ} {type : DiscType}
    (h : switchOffset m disc_off type = some m') :
    m' = { m with
      vpts_offset := m'.vpts_offset, audio_vpts := m'.audio_vpts, video_vpts := m'.video_vpts
      force_audio_jump := m'.force_audio_jump, force_video_jump := m'.force_video_jump
      video_drift := m'.video_drift } := by
  cases type with
  | streamstart =>
    cases h
    rfl
  | relative | absolute | streamseek =>
    obtain ⟨_, -, rfl⟩ := Option.map_eq_some_iff.1 h
    rfl

theorem applyDiscontinuity_only {type : DiscType} {disc_off : ℤ} {video audio : Readings}
    (h : applyDiscontinuity m type disc_off video audio = some m') :
    m' = { m with
      vpts_offset := m'.vpts_offset, audio_vpts := m'.audio_vpts, video_vpts := m'.video_vpts
      force_audio_jump := m'.force_audio_jump, force_video_jump := m'.force_video_jump
      video_drift := m'.video_drift, last_video_pts := 0, last_audio_pts := 0
      discontinuity_handled_count := m'.discontinuity_handled_count } := by
  simp only [applyDiscontinuity, Option.bind_eq_bind, Option.bind_eq_some_iff,
    Option.some.injEq] at h
  obtain ⟨_, -, _, -, m₁, h₁, rfl⟩ := h
  dsimp only
  rw [switchOffset_only h₁]

end Calls

section Actions

variable {s s' : State}

theorem videoLoop_only {type : DiscType} {disc_off : ℤ} {video audio : Readings}
    (hs : videoLoop s type disc_off video audio = some s') :
    s'.metronom.video_drift_step = s.metronom.video_drift_step ∧
      s'.metronom.pts_per_smpls = s.metronom.pts_per_smpls ∧
      s'.metronom.audio_drift_step = s.metronom.audio_drift_step ∧
      s'.metronom.audio_samples = s.metronom.audio_samples := by
  unfold videoLoop at hs
  split_ifs at hs
  · cases hs
    exact ⟨rfl, rfl, rfl, rfl⟩
  · obtain ⟨m, happly, rfl⟩ := Option.map_eq_some_iff.1 hs
    dsimp only
    rw [applyDiscontinuity_only happly]
    exact ⟨rfl, rfl, rfl, rfl⟩

theorem audioLoop_only (s : State) :
    (audioLoop s).metronom = s.metronom ∨
      (audioLoop s).metronom = { s.metronom with audio_samples := 0, audio_drift_step := 0 } := by
  unfold audioLoop
  split_ifs
  · exact Or.inl rfl
  · exact Or.inr rfl

theorem audioDiscontinuity_only {a : Action} (ha : a = .audioCall ∨ a = .audioWake)
    (hs : step s a = some s') :
    ∃ m : Metronom, (m = s.metronom ∨ m = { s.metronom with
        audio_discontinuity_count := s.metronom.audio_discontinuity_count + 1 }) ∧
      (s'.metronom = m ∨ s'.metronom = { m with audio_samples := 0, audio_drift_step := 0 }) := by
  rcases ha with rfl | rfl
  · simp only [step] at hs
    split at hs
    · cases hs
      exact ⟨_, Or.inr rfl, audioLoop_only _⟩
    · exact absurd hs.symm (Option.some_ne_none s')
  · simp only [step] at hs
    split at hs
    · exact absurd hs.symm (Option.some_ne_none s')
    · cases hs
      exact ⟨_, Or.inl rfl, audioLoop_only _⟩

theorem videoDiscontinuity_only {a : Action}
    (ha : (∃ type disc_off video audio, a = .videoCall type disc_off video audio) ∨
      ∃ video audio, a = .videoWake video audio) (hs : step s a = some s') :
    s'.metronom.video_drift_step = s.metronom.video_drift_step ∧
      s'.metronom.pts_per_smpls = s.metronom.pts_per_smpls ∧
      s'.metronom.audio_drift_step = s.metronom.audio_drift_step ∧
      s'.metronom.audio_samples = s.metronom.audio_samples := by
  rcases ha with ⟨type, disc_off, video, audio, rfl⟩ | ⟨video, audio, rfl⟩
  · simp only [step] at hs
    split at hs
    · obtain ⟨hdrift, hrate, hstep, hsamples⟩ := videoLoop_only hs
      exact ⟨hdrift, hrate, hstep, hsamples⟩
    · exact absurd hs.symm (Option.some_ne_none s')
  · simp only [step] at hs
    split at hs
    · exact absurd hs.symm (Option.some_ne_none s')
    · exact videoLoop_only hs

end Actions

end Xine.Timing
