import Mathlib.Algebra.Group.Int.Defs
import Mathlib.Algebra.Group.Nat.Defs
import Mathlib.Tactic.Common

/-!
# The metronom

The timestamps of a stream, from `metronom.c`: the functions that the decoders and the
output threads call, each of which runs under `lock`, as functions on `metronom_t`. Signed overflow is
undefined in C, and a function is `none` when one of its values does not fit its type; `toInt` is the
conversion to `int`, which wraps around. The counters of discontinuities are unbounded here.

The two functions that handle a discontinuity wait in between, and are split at the waits:
`applyDiscontinuity` is what the one for video does after the wait. What they do to the threads is in
`Xine.Timing.Rendezvous`. The cue points, which the former recalculates, are not part of the
metronom.
-/

namespace Xine.Timing

/-- `metronom_t`, without its mutex and its conditions. -/
structure Metronom where
  pts_per_smpls : ℤ
  video_vpts : ℤ
  spu_vpts : ℤ
  audio_vpts : ℤ
  vpts_offset : ℤ
  video_drift : ℤ
  video_drift_step : ℤ
  audio_samples : ℤ
  audio_drift_step : ℤ
  av_offset : ℤ
  spu_offset : ℤ
  have_audio : ℤ
  video_discontinuity_count : ℤ
  audio_discontinuity_count : ℤ
  discontinuity_handled_count : ℤ
  force_video_jump : Bool
  force_audio_jump : Bool
  img_duration : ℤ
  img_cpt : ℤ
  last_video_pts : ℤ
  last_audio_pts : ℤ

def audioSampleNum : ℤ := 32768

def videoDriftTolerance : ℤ := 45000

def audioDriftTolerance : ℤ := 45000

/-- A value of type `int`. -/
def int32 (v : ℤ) : Option ℤ := if -2 ^ 31 ≤ v ∧ v < 2 ^ 31 then some v else none

/-- A value of type `int64_t`. -/
def int64 (v : ℤ) : Option ℤ := if -2 ^ 63 ≤ v ∧ v < 2 ^ 63 then some v else none

/-- The conversion to `int`. -/
def toInt (v : ℤ) : ℤ := v.bmod (2 ^ 32)

def metronomInit (have_audio prebuffer : ℤ) : Metronom where
  pts_per_smpls := 0
  video_vpts := prebuffer
  spu_vpts := 0
  audio_vpts := prebuffer
  vpts_offset := 0
  video_drift := 0
  video_drift_step := 0
  audio_samples := 0
  audio_drift_step := 0
  av_offset := 0
  spu_offset := 0
  have_audio := have_audio
  video_discontinuity_count := 0
  audio_discontinuity_count := 0
  discontinuity_handled_count := 0
  force_video_jump := false
  force_audio_jump := false
  img_duration := 3000
  img_cpt := 0
  last_video_pts := 0
  last_audio_pts := 0

/-! ## Timestamps -/

/-- `metronom_set_audio_rate`. -/
def setAudioRate (m : Metronom) (pts_per_smpls : ℤ) : Metronom := { m with pts_per_smpls }

/-- `metronom_got_spu_packet`, with the vpts that it returns. -/
def gotSpuPacket (m : Metronom) (pts : ℤ) : Option (Metronom × ℤ) := do
  let sum ← int64 (pts + m.vpts_offset)
  let vpts ← int64 (sum + m.spu_offset)
  -- no vpts going backwards please
  let vpts := if vpts < m.spu_vpts then m.spu_vpts else vpts
  some ({ m with spu_vpts := vpts }, vpts)

/-- `metronom_got_video_frame` computes the frame duration if it is not provided by the decoder. -/
def computeDuration (m : Metronom) (pts duration : ℤ) : Option Metronom :=
  if duration = 0 ∧ m.last_video_pts ≠ 0 ∧ m.img_cpt ≠ 0 then
    (int64 (pts - m.last_video_pts)).map fun gap =>
      { m with img_duration := gap.tdiv m.img_cpt }
  else some m

/-- The duration of a frame, which is the last one when it is not provided. -/
def frameDuration (m : Metronom) (duration : ℤ) : Metronom × ℤ :=
  if duration = 0 then (m, toInt m.img_duration) else ({ m with img_duration := duration }, duration)

/-- `metronom_got_video_frame` compares the predicted vpts with the given one: for small differences
the drift is compensated over about a second, and for big ones the vpts jumps. -/
def compareVideo (m : Metronom) (pts : ℤ) : Option Metronom := do
  let vpts ← int64 (pts + m.vpts_offset)
  let diff ← int64 (m.video_vpts - vpts)
  let absolute ← int64 (if diff < 0 then -diff else diff)
  if absolute > videoDriftTolerance ∨ m.force_video_jump then
    some { m with force_video_jump := false, video_vpts := vpts, video_drift := 0 }
  else some { m with video_drift := diff, video_drift_step := diff.tdiv 30 }

/-- What `metronom_got_video_frame` does with the pts, with the duration. -/
def videoPts (m : Metronom) (pts duration : ℤ) : Option (Metronom × ℤ) :=
  if pts ≠ 0 ∧ pts ≠ m.last_video_pts then
    (computeDuration m pts duration).bind fun m =>
      let r := frameDuration m duration
      (compareVideo { r.1 with img_cpt := 0, last_video_pts := pts } pts).map fun m => (m, r.2)
  else some (frameDuration m duration)

/-- The drift compensation at the end of `metronom_got_video_frame`. -/
def compensateDrift (m : Metronom) (duration : ℤ) : Option (Metronom × ℤ) := do
  let product ← int64 (m.video_drift * m.video_drift_step)
  if product > 0 then
    let shortened ← int64 (duration - m.video_drift_step)
    let video_drift ← int64 (m.video_drift - m.video_drift_step)
    some ({ m with video_drift }, toInt shortened)
  else some (m, duration)

/-- `metronom_got_video_frame`, with the vpts and the duration that it gives the frame. -/
def gotVideoFrame (m : Metronom) (pts duration : ℤ) : Option (Metronom × ℤ × ℤ) := do
  let img_cpt ← int32 (m.img_cpt + 1)
  let (m, duration) ← videoPts { m with img_cpt } pts duration
  let vpts ← int64 (m.video_vpts + m.av_offset)
  let (m, duration) ← compensateDrift m duration
  let video_vpts ← int64 (m.video_vpts + duration)
  some ({ m with video_vpts }, vpts, duration)

/-- The drift step in `metronom_got_audio_samples`, to recover vpts errors. -/
def audioDriftStep (m : Metronom) (diff : ℤ) : Option Metronom := do
  let scaled ← int64 (diff * audioSampleNum)
  let samples ← int32 (m.audio_samples * 4)
  let diff ← int64 (scaled.tdiv samples)
  let negative ← int64 (-m.pts_per_smpls)
  -- drift_step is not allowed to change rate by more than 25%
  let diff := if diff > m.pts_per_smpls.tdiv 4 then m.pts_per_smpls.tdiv 4 else diff
  let diff := if diff < negative.tdiv 4 then negative.tdiv 4 else diff
  some { m with audio_drift_step := diff }

/-- `metronom_got_audio_samples` compares the predicted vpts with the given one. -/
def compareAudio (m : Metronom) (pts : ℤ) : Option Metronom := do
  let vpts ← int64 (pts + m.vpts_offset)
  let diff ← int64 (m.audio_vpts - vpts)
  let m := { m with last_audio_pts := pts }
  let absolute ← int64 (if diff < 0 then -diff else diff)
  if absolute > audioDriftTolerance ∨ m.force_audio_jump then
    some { m with force_audio_jump := false, audio_vpts := vpts, audio_drift_step := 0 }
  else if m.audio_samples ≠ 0 then audioDriftStep m diff
  else some m

/-- What `metronom_got_audio_samples` does with the pts. -/
def audioPts (m : Metronom) (pts : ℤ) : Option Metronom :=
  if pts ≠ 0 ∧ pts ≠ m.last_audio_pts then
    (compareAudio m pts).map fun m => { m with audio_samples := 0 }
  else some m

/-- `metronom_got_audio_samples`, with the vpts that it returns. -/
def gotAudioSamples (m : Metronom) (pts nsamples : ℤ) : Option (Metronom × ℤ) := do
  let m ← audioPts m pts
  let vpts := m.audio_vpts
  let advance ← int64 (nsamples * m.pts_per_smpls)
  let audio_vpts ← int64 (m.audio_vpts + advance.tdiv audioSampleNum)
  let audio_samples ← int32 (m.audio_samples + nsamples)
  let drift ← int64 (nsamples * m.audio_drift_step)
  let vpts_offset ← int64 (m.vpts_offset + drift.tdiv audioSampleNum)
  some ({ m with audio_vpts, audio_samples, vpts_offset }, vpts)

/-- The options that `metronom_set_option` knows. -/
inductive MetronomOption where
  | avOffset
  | spuOffset
  | adjVptsOffset

/-- `metronom_set_option`. -/
def setOption (m : Metronom) (value : ℤ) : MetronomOption → Option Metronom
  | .avOffset => some { m with av_offset := value }
  | .spuOffset => some { m with spu_offset := value }
  | .adjVptsOffset => (int64 (m.audio_vpts + value)).map fun audio_vpts => { m with audio_vpts }

/-! ## Discontinuities -/

/-- The types of discontinuities. -/
inductive DiscType where
  | streamstart
  | relative
  | absolute
  | streamseek
  deriving DecidableEq

/-- What `metronom_handle_video_discontinuity` reads of the clock and the stream, in this order: the
time that it compares the vpts of a track with, the one that it takes when this is over, and
`metronom_prebuffer`. -/
structure Readings where
  now : ℤ
  later : ℤ
  prebuffer : ℤ

/-- The vpts of a track, which must not be in the past, and starts anew with a stream or a seek. -/
def adjustVpts (type : DiscType) (vpts : ℤ) (r : Readings) : Option ℤ :=
  if vpts < r.now ∨ type = .streamstart ∨ type = .streamseek then int64 (r.prebuffer + r.later)
  else some vpts

/-- The new offset in `metronom_handle_video_discontinuity`. -/
def switchOffset (m : Metronom) (disc_off : ℤ) : DiscType → Option Metronom
  | .streamstart =>
    let vpts := if m.video_vpts > m.audio_vpts then m.video_vpts else m.audio_vpts
    some { m with
      vpts_offset := vpts, audio_vpts := vpts, video_vpts := vpts
      force_audio_jump := true, force_video_jump := true, video_drift := 0 }
  | .absolute => (int64 (m.video_vpts - disc_off)).map fun vpts_offset =>
    { m with vpts_offset, force_audio_jump := false, force_video_jump := false }
  | .relative => (int64 (m.vpts_offset - disc_off)).map fun vpts_offset =>
    { m with vpts_offset, force_audio_jump := false, force_video_jump := false }
  | .streamseek => (int64 (m.video_vpts - disc_off)).map fun vpts_offset =>
    { m with vpts_offset, force_audio_jump := true, force_video_jump := true, video_drift := 0 }

/-- `metronom_handle_video_discontinuity` after the wait. -/
def applyDiscontinuity (m : Metronom) (type : DiscType) (disc_off : ℤ) (video audio : Readings) :
    Option Metronom := do
  let video_vpts ← adjustVpts type m.video_vpts video
  let audio_vpts ← adjustVpts type m.audio_vpts audio
  let m ← switchOffset { m with video_vpts, audio_vpts } disc_off type
  some { m with
    last_video_pts := 0, last_audio_pts := 0
    discontinuity_handled_count := m.discontinuity_handled_count + 1 }

/-! ## Counters

The three counters of discontinuities change only where the discontinuities are handled. -/

/-- The counters of discontinuities, and whether there is audio. -/
def Metronom.counters (m : Metronom) : ℤ × ℤ × ℤ × ℤ :=
  (m.have_audio, m.video_discontinuity_count, m.audio_discontinuity_count,
    m.discontinuity_handled_count)

section Counters

variable {m m' : Metronom}

theorem gotSpuPacket_counters {pts vpts : ℤ} (h : gotSpuPacket m pts = some (m', vpts)) :
    m'.counters = m.counters := by
  simp only [gotSpuPacket, Option.bind_eq_bind, Option.bind_eq_some_iff, Option.some.injEq,
    Prod.mk.injEq] at h
  obtain ⟨_, -, _, -, rfl, -⟩ := h
  rfl

theorem computeDuration_counters {pts duration : ℤ} (h : computeDuration m pts duration = some m') :
    m'.counters = m.counters := by
  unfold computeDuration at h
  split_ifs at h
  · obtain ⟨_, -, rfl⟩ := Option.map_eq_some_iff.1 h
    rfl
  · cases h
    rfl

theorem frameDuration_counters (m : Metronom) (duration : ℤ) :
    (frameDuration m duration).1.counters = m.counters := by
  unfold frameDuration
  split <;> rfl

theorem compareVideo_counters {pts : ℤ} (h : compareVideo m pts = some m') :
    m'.counters = m.counters := by
  simp only [compareVideo, Option.bind_eq_bind, Option.bind_eq_some_iff] at h
  obtain ⟨_, -, _, -, _, -, h⟩ := h
  split_ifs at h
  all_goals
    cases h
    rfl

theorem videoPts_counters {pts duration duration' : ℤ}
    (h : videoPts m pts duration = some (m', duration')) : m'.counters = m.counters := by
  unfold videoPts at h
  split_ifs at h
  · simp only [Option.bind_eq_some_iff, Option.map_eq_some_iff, Prod.mk.injEq] at h
    obtain ⟨m₁, h₁, m₂, h₂, rfl, -⟩ := h
    exact (compareVideo_counters h₂).trans
      ((frameDuration_counters m₁ duration).trans (computeDuration_counters h₁))
  · obtain ⟨rfl, -⟩ := Prod.mk.inj (Option.some.inj h)
    exact frameDuration_counters m duration

theorem compensateDrift_counters {duration duration' : ℤ}
    (h : compensateDrift m duration = some (m', duration')) : m'.counters = m.counters := by
  simp only [compensateDrift, Option.bind_eq_bind, Option.bind_eq_some_iff] at h
  obtain ⟨_, -, h⟩ := h
  split_ifs at h
  · simp only [Option.bind_eq_some_iff, Option.some.injEq, Prod.mk.injEq] at h
    obtain ⟨_, -, _, -, rfl, -⟩ := h
    rfl
  · obtain ⟨rfl, -⟩ := Prod.mk.inj (Option.some.inj h)
    rfl

theorem gotVideoFrame_counters {pts duration vpts duration' : ℤ}
    (h : gotVideoFrame m pts duration = some (m', vpts, duration')) : m'.counters = m.counters := by
  simp only [gotVideoFrame, Option.bind_eq_bind, Option.bind_eq_some_iff, Option.some.injEq,
    Prod.mk.injEq] at h
  obtain ⟨img_cpt, -, ⟨m₁, d₁⟩, h₁, _, -, ⟨m₂, d₂⟩, h₂, _, -, rfl, -⟩ := h
  have hm₁ : m₁.counters = m.counters := (videoPts_counters h₁).trans rfl
  have hm₂ : m₂.counters = m₁.counters := compensateDrift_counters h₂
  exact hm₂.trans hm₁

theorem audioDriftStep_counters {diff : ℤ} (h : audioDriftStep m diff = some m') :
    m'.counters = m.counters := by
  simp only [audioDriftStep, Option.bind_eq_bind, Option.bind_eq_some_iff, Option.some.injEq] at h
  obtain ⟨_, -, _, -, _, -, _, -, rfl⟩ := h
  rfl

theorem compareAudio_counters {pts : ℤ} (h : compareAudio m pts = some m') :
    m'.counters = m.counters := by
  simp only [compareAudio, Option.bind_eq_bind, Option.bind_eq_some_iff] at h
  obtain ⟨_, -, _, -, _, -, h⟩ := h
  split_ifs at h
  · cases h
    rfl
  · exact (audioDriftStep_counters h).trans rfl
  · cases h
    rfl

theorem gotAudioSamples_counters {pts nsamples vpts : ℤ}
    (h : gotAudioSamples m pts nsamples = some (m', vpts)) : m'.counters = m.counters := by
  simp only [gotAudioSamples, Option.bind_eq_bind, Option.bind_eq_some_iff, Option.some.injEq,
    Prod.mk.injEq] at h
  obtain ⟨m₁, h₁, _, -, _, -, _, -, _, -, _, -, rfl, -⟩ := h
  unfold audioPts at h₁
  split_ifs at h₁
  · obtain ⟨m₂, h₂, rfl⟩ := Option.map_eq_some_iff.1 h₁
    have hm₂ : m₂.counters = m.counters := compareAudio_counters h₂
    exact hm₂
  · cases h₁
    rfl

theorem setOption_counters {value : ℤ} {option : MetronomOption}
    (h : setOption m value option = some m') : m'.counters = m.counters := by
  cases option with
  | avOffset | spuOffset =>
    cases h
    rfl
  | adjVptsOffset =>
    obtain ⟨_, -, rfl⟩ := Option.map_eq_some_iff.1 h
    rfl

theorem switchOffset_counters {disc_off : ℤ} {type : DiscType}
    (h : switchOffset m disc_off type = some m') : m'.counters = m.counters := by
  cases type with
  | streamstart =>
    cases h
    rfl
  | relative | absolute | streamseek =>
    obtain ⟨_, -, rfl⟩ := Option.map_eq_some_iff.1 h
    rfl

theorem applyDiscontinuity_counters {type : DiscType} {disc_off : ℤ} {video audio : Readings}
    (h : applyDiscontinuity m type disc_off video audio = some m') :
    m'.have_audio = m.have_audio ∧ m'.video_discontinuity_count = m.video_discontinuity_count ∧
      m'.audio_discontinuity_count = m.audio_discontinuity_count ∧
      m'.discontinuity_handled_count = m.discontinuity_handled_count + 1 := by
  simp only [applyDiscontinuity, Option.bind_eq_bind, Option.bind_eq_some_iff,
    Option.some.injEq] at h
  obtain ⟨_, -, _, -, m₁, h₁, rfl⟩ := h
  have hm₁ := switchOffset_counters h₁
  simp only [Metronom.counters, Prod.mk.injEq] at hm₁
  obtain ⟨hhave, hvideo, haudio, hhandled⟩ := hm₁
  exact ⟨hhave, hvideo, haudio, by dsimp only; rw [hhandled]⟩

end Counters

end Xine.Timing
