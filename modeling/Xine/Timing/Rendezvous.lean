import Xine.Timing.Metronom
import Xine.Library.Runs

/-!
# The rendezvous of the decoders at a discontinuity

The decoder threads meet in `metronom_handle_video_discontinuity` and `metronom_handle_audio_discontinuity`: the
video decoder waits until the audio decoder has come to the same discontinuity and applies the new offset, and the
audio decoder waits until it has. Both wait on a condition of their own, which nobody else waits on, and a signal
is lost when its waiter does not wait.

An action is what a thread does while it holds `lock`: a call up to its first wait or its end, a return from a
wait up to the next wait or the end, and the calls of the other functions, by any thread. A wait may return
without a signal. `signalled` is whether a signal has come since the wait began. The numbers of the calls and of
the returns are counted apart from the counters of the code.
-/

namespace Xine.Timing

/-- Where the video decoder is. -/
inductive VideoPc where
  | outside
  /-- Waiting for `audio_discontinuity_reached`, with the arguments of the call. -/
  | waiting (type : DiscType) (disc_off : ℤ) (signalled : Bool)

/-- Where the audio decoder is. -/
inductive AudioPc where
  | outside
  /-- Waiting for `video_discontinuity_reached`. -/
  | waiting (signalled : Bool)

/-- `pthread_cond_signal` on `audio_discontinuity_reached`. -/
def VideoPc.signal : VideoPc → VideoPc
  | .outside => .outside
  | .waiting type disc_off _ => .waiting type disc_off true

/-- `pthread_cond_signal` on `video_discontinuity_reached`. -/
def AudioPc.signal : AudioPc → AudioPc
  | .outside => .outside
  | .waiting _ => .waiting true

/-- The metronom, the places of the two decoders, and the calls and returns so far. -/
structure State where
  metronom : Metronom
  video : VideoPc
  audio : AudioPc
  video_calls : ℕ
  /-- The calls by the video decoder that have applied their offset. -/
  video_applied : ℕ
  audio_calls : ℕ
  audio_returned : ℕ

/-- A new metronom, before the decoders run. -/
def init (have_audio prebuffer : ℤ) : State where
  metronom := metronomInit have_audio prebuffer
  video := .outside
  audio := .outside
  video_calls := 0
  video_applied := 0
  audio_calls := 0
  audio_returned := 0

/-- The loop of `metronom_handle_video_discontinuity`, up to the next wait or to the end. -/
def videoLoop (s : State) (type : DiscType) (disc_off : ℤ) (video audio : Readings) :
    Option State :=
  if s.metronom.have_audio ≠ 0 ∧
      s.metronom.audio_discontinuity_count < s.metronom.video_discontinuity_count then
    some { s with video := .waiting type disc_off false }
  else
    (applyDiscontinuity s.metronom type disc_off video audio).map fun metronom =>
      { s with
        metronom, video := .outside, audio := s.audio.signal, video_applied := s.video_applied + 1 }

/-- The loop of `metronom_handle_audio_discontinuity`, up to the next wait or to the end. -/
def audioLoop (s : State) : State :=
  if s.metronom.audio_discontinuity_count > s.metronom.discontinuity_handled_count then
    { s with audio := .waiting false }
  else
    { s with
      metronom := { s.metronom with audio_samples := 0, audio_drift_step := 0 }
      audio := .outside, audio_returned := s.audio_returned + 1 }

/-- What a thread does while it holds the lock, and what it reads outside the metronom. -/
inductive Action where
  /-- `metronom_handle_video_discontinuity`. -/
  | videoCall (type : DiscType) (disc_off : ℤ) (video audio : Readings)
  /-- The wait in it returns, after a signal or without one. -/
  | videoWake (video audio : Readings)
  /-- `metronom_handle_audio_discontinuity`. -/
  | audioCall
  /-- The wait in it returns. -/
  | audioWake
  | setAudioRate (pts_per_smpls : ℤ)
  | gotSpuPacket (pts : ℤ)
  | gotVideoFrame (pts duration : ℤ)
  | gotAudioSamples (pts nsamples : ℤ)
  | setOption (option : MetronomOption) (value : ℤ)

/-- One action of one thread. -/
def step (s : State) : Action → Option State
  | .videoCall type disc_off video audio =>
    match s.video with
    | .outside =>
      videoLoop
        { s with
          metronom := { s.metronom with
            video_discontinuity_count := s.metronom.video_discontinuity_count + 1 }
          audio := s.audio.signal, video_calls := s.video_calls + 1 }
        type disc_off video audio
    | .waiting .. => none
  | .videoWake video audio =>
    match s.video with
    | .outside => none
    | .waiting type disc_off _ => videoLoop s type disc_off video audio
  | .audioCall =>
    match s.audio with
    | .outside =>
      some (audioLoop
        { s with
          metronom := { s.metronom with
            audio_discontinuity_count := s.metronom.audio_discontinuity_count + 1 }
          video := s.video.signal, audio_calls := s.audio_calls + 1 })
    | .waiting _ => none
  | .audioWake =>
    match s.audio with
    | .outside => none
    | .waiting _ => some (audioLoop s)
  | .setAudioRate pts_per_smpls =>
    some { s with metronom := setAudioRate s.metronom pts_per_smpls }
  | .gotSpuPacket pts => (gotSpuPacket s.metronom pts).map fun r => { s with metronom := r.1 }
  | .gotVideoFrame pts duration =>
    (gotVideoFrame s.metronom pts duration).map fun r => { s with metronom := r.1 }
  | .gotAudioSamples pts nsamples =>
    (gotAudioSamples s.metronom pts nsamples).map fun r => { s with metronom := r.1 }
  | .setOption option value =>
    (setOption s.metronom value option).map fun metronom => { s with metronom }

/-! ## The invariant -/

/-- One, while the video decoder is in a call. -/
def VideoPc.inside : VideoPc → ℕ
  | .outside => 0
  | .waiting .. => 1

/-- One, while the audio decoder is in a call. -/
def AudioPc.inside : AudioPc → ℕ
  | .outside => 0
  | .waiting _ => 1

/-- What the three counters of the code count, and in what order things happen. -/
structure Counted (s : State) : Prop where
  have_audio : s.metronom.have_audio ≠ 0
  video : s.metronom.video_discontinuity_count = s.video_calls
  audio : s.metronom.audio_discontinuity_count = s.audio_calls
  handled : s.metronom.discontinuity_handled_count = s.video_applied
  /-- An offset is applied after the audio decoder has come to it. -/
  applied_le : s.video_applied ≤ s.audio_calls
  /-- The audio decoder returns after the offset is applied. -/
  returned_le : s.audio_returned ≤ s.video_applied

/-- The invariant of the rendezvous. -/
structure Inv (s : State) : Prop extends Counted s where
  /-- A call of the video decoder that is over has applied its offset. -/
  video_calls : s.video_calls = s.video_applied + s.video.inside
  audio_calls : s.audio_calls = s.audio_returned + s.audio.inside
  /-- While the video decoder has not been signalled, the audio decoder has not come. -/
  video_waiting : ∀ type disc_off, s.video = .waiting type disc_off false →
    s.audio_calls < s.video_calls
  /-- While the audio decoder has not been signalled, the offset is not applied. -/
  audio_waiting : s.audio = .waiting false → s.video_applied < s.audio_calls

section Step

variable {s s' : State}

@[simp] theorem VideoPc.inside_signal (pc : VideoPc) : pc.signal.inside = pc.inside := by
  cases pc <;> rfl

@[simp] theorem AudioPc.inside_signal (pc : AudioPc) : pc.signal.inside = pc.inside := by
  cases pc <;> rfl

theorem VideoPc.signal_ne (pc : VideoPc) (type : DiscType) (disc_off : ℤ) :
    pc.signal ≠ .waiting type disc_off false := by
  cases pc <;> simp [VideoPc.signal]

theorem AudioPc.signal_ne (pc : AudioPc) : pc.signal ≠ .waiting false := by
  cases pc <;> simp [AudioPc.signal]

theorem inv_videoLoop {type : DiscType} {disc_off : ℤ} {video audio : Readings} (h : Counted s)
    (hcall : s.video_calls = s.video_applied + 1)
    (hcalls : s.audio_calls = s.audio_returned + s.audio.inside)
    (haudio : s.audio = .waiting false → s.video_applied < s.audio_calls)
    (hs : videoLoop s type disc_off video audio = some s') : Inv s' := by
  have happlied := h.applied_le
  have hreturned := h.returned_le
  unfold videoLoop at hs
  by_cases hwait : s.metronom.have_audio ≠ 0 ∧
      s.metronom.audio_discontinuity_count < s.metronom.video_discontinuity_count
  · rw [if_pos hwait] at hs
    cases hs
    have hlt := hwait.2
    rw [h.audio, h.video] at hlt
    exact
      { h with
        video_calls := hcall
        audio_calls := hcalls
        video_waiting := fun _ _ _ => by dsimp only; omega
        audio_waiting := haudio }
  · -- The audio decoder has come, since there is audio.
    rw [if_neg hwait] at hs
    obtain ⟨metronom, happly, rfl⟩ := Option.map_eq_some_iff.1 hs
    obtain ⟨hhave, hvideo, haudio', hhandled⟩ := applyDiscontinuity_counters happly
    have hle : s.video_calls ≤ s.audio_calls := by
      have hnlt : ¬s.metronom.audio_discontinuity_count < s.metronom.video_discontinuity_count :=
        fun hlt => hwait ⟨h.have_audio, hlt⟩
      rw [h.audio, h.video] at hnlt
      omega
    exact
      { have_audio := by dsimp only; rw [hhave]; exact h.have_audio
        video := hvideo.trans h.video
        audio := haudio'.trans h.audio
        handled := by dsimp only; rw [hhandled, h.handled]; push_cast; rfl
        applied_le := by dsimp only; omega
        returned_le := by dsimp only; omega
        video_calls := hcall
        audio_calls := by simpa using hcalls
        video_waiting := fun _ _ hw => by simp at hw
        audio_waiting := fun hw => absurd hw (AudioPc.signal_ne _) }

theorem inv_audioLoop (h : Counted s) (hcall : s.audio_calls = s.audio_returned + 1)
    (hcalls : s.video_calls = s.video_applied + s.video.inside)
    (hvideo : ∀ type disc_off, s.video = .waiting type disc_off false →
      s.audio_calls < s.video_calls) : Inv (audioLoop s) := by
  have hreturned := h.returned_le
  unfold audioLoop
  by_cases hwait : s.metronom.audio_discontinuity_count > s.metronom.discontinuity_handled_count
  · rw [if_pos hwait]
    rw [h.audio, h.handled] at hwait
    exact
      { h with
        video_calls := hcalls
        audio_calls := hcall
        video_waiting := hvideo
        audio_waiting := fun _ => by dsimp only; omega }
  · -- The offset is applied.
    rw [if_neg hwait]
    rw [h.audio, h.handled] at hwait
    exact
      { h with
        returned_le := by dsimp only; omega
        video_calls := hcalls
        audio_calls := hcall
        video_waiting := hvideo
        audio_waiting := fun hw => by simp at hw }

theorem inv_congr (h : Inv s) {m : Metronom} (hm : m.counters = s.metronom.counters) :
    Inv { s with metronom := m } := by
  simp only [Metronom.counters, Prod.mk.injEq] at hm
  obtain ⟨hhave, hvideo, haudio, hhandled⟩ := hm
  exact
    { h with
      have_audio := by dsimp only; rw [hhave]; exact h.have_audio
      video := hvideo.trans h.video
      audio := haudio.trans h.audio
      handled := hhandled.trans h.handled }

theorem counted_videoCall (h : Inv s) :
    Counted
      { s with
        metronom := { s.metronom with
          video_discontinuity_count := s.metronom.video_discontinuity_count + 1 }
        audio := s.audio.signal, video_calls := s.video_calls + 1 } :=
  { h.toCounted with video := by dsimp only; rw [h.video]; push_cast; rfl }

theorem counted_audioCall (h : Inv s) :
    Counted
      { s with
        metronom := { s.metronom with
          audio_discontinuity_count := s.metronom.audio_discontinuity_count + 1 }
        video := s.video.signal, audio_calls := s.audio_calls + 1 } :=
  { h.toCounted with
    audio := by dsimp only; rw [h.audio]; push_cast; rfl
    applied_le := Nat.le_succ_of_le h.applied_le }

theorem inv_step {a : Action} (h : Inv s) (hs : step s a = some s') : Inv s' := by
  have hvideo := h.video_calls
  have haudio := h.audio_calls
  cases a with
  | videoCall type disc_off video audio =>
    simp only [step] at hs
    split at hs
    · rename_i hpc
      rw [hpc] at hvideo
      refine inv_videoLoop (counted_videoCall h) (congrArg (· + 1) hvideo) ?_ ?_ hs
      · simpa using haudio
      · exact fun hw => absurd hw (AudioPc.signal_ne _)
    · simp at hs
  | videoWake video audio =>
    simp only [step] at hs
    split at hs
    · simp at hs
    · rename_i hpc
      rw [hpc] at hvideo
      exact inv_videoLoop h.toCounted hvideo haudio h.audio_waiting hs
  | audioCall =>
    simp only [step] at hs
    split at hs
    · rename_i hpc
      rw [hpc] at haudio
      cases hs
      refine inv_audioLoop (counted_audioCall h) (congrArg (· + 1) haudio) ?_ ?_
      · simpa using hvideo
      · exact fun type disc_off hw => absurd hw (VideoPc.signal_ne _ type disc_off)
    · simp at hs
  | audioWake =>
    simp only [step] at hs
    split at hs
    · simp at hs
    · rename_i hpc
      rw [hpc] at haudio
      cases hs
      exact inv_audioLoop h.toCounted haudio hvideo h.video_waiting
  | setAudioRate pts_per_smpls =>
    cases hs
    exact inv_congr h rfl
  | gotSpuPacket pts =>
    obtain ⟨⟨m, vpts⟩, hm, rfl⟩ := Option.map_eq_some_iff.1 hs
    exact inv_congr h (gotSpuPacket_counters hm)
  | gotVideoFrame pts duration =>
    obtain ⟨⟨m, vpts, d⟩, hm, rfl⟩ := Option.map_eq_some_iff.1 hs
    exact inv_congr h (gotVideoFrame_counters hm)
  | gotAudioSamples pts nsamples =>
    obtain ⟨⟨m, vpts⟩, hm, rfl⟩ := Option.map_eq_some_iff.1 hs
    exact inv_congr h (gotAudioSamples_counters hm)
  | setOption option value =>
    obtain ⟨m, hm, rfl⟩ := Option.map_eq_some_iff.1 hs
    exact inv_congr h (setOption_counters hm)

theorem init_inv {have_audio prebuffer : ℤ} (h : have_audio ≠ 0) : Inv (init have_audio prebuffer) where
  have_audio := h
  video := rfl
  audio := rfl
  handled := rfl
  applied_le := Nat.le_refl 0
  returned_le := Nat.le_refl 0
  video_calls := rfl
  audio_calls := rfl
  video_waiting := fun _ _ hw => by simp [init] at hw
  audio_waiting := fun hw => by simp [init] at hw

theorem inv_run {as : List Action} (h : Inv s) (hrun : Runs.run step s as = some s') : Inv s' :=
  Runs.run_invariant (fun _ _ _ hinv hstep => inv_step hinv hstep) h hrun

end Step

/-! ## Every interleaving -/

/-- Over every interleaving of the decoder threads, and of any threads in the other functions, when
there is audio: the audio decoder's calls that have returned are no more than the video decoder's that
have applied their offset, and these are no more than the audio decoder's that are counted, so that
the `k`-th of each comes after the `k`-th of the next; the counters of the code count the calls, and
agree when no decoder is in a call; and the decoders never both wait without a signal. -/
theorem discontinuity_run_in_order {prebuffer : ℤ} {s : State} {as : List Action}
    (hrun : Runs.run step (init 1 prebuffer) as = some s) :
    s.audio_returned ≤ s.video_applied ∧ s.video_applied ≤ s.audio_calls ∧
      s.metronom.video_discontinuity_count = s.video_calls ∧
      s.metronom.audio_discontinuity_count = s.audio_calls ∧
      s.metronom.discontinuity_handled_count = s.video_applied ∧
      (s.video = .outside → s.audio = .outside →
        s.metronom.video_discontinuity_count = s.metronom.audio_discontinuity_count) ∧
      ¬∃ type disc_off, s.video = .waiting type disc_off false ∧ s.audio = .waiting false := by
  have h := inv_run (init_inv (by decide)) hrun
  have happlied := h.applied_le
  have hreturned := h.returned_le
  have hvideo := h.video_calls
  have haudio := h.audio_calls
  refine ⟨hreturned, happlied, h.video, h.audio, h.handled, fun hv ha => ?_, ?_⟩
  · rw [hv] at hvideo
    rw [ha] at haudio
    have heq : s.video_calls = s.audio_calls := by
      simp only [VideoPc.inside, AudioPc.inside] at hvideo haudio
      omega
    rw [h.video, h.audio, heq]
  · rintro ⟨type, disc_off, hv, ha⟩
    have hlt := h.video_waiting type disc_off hv
    have hlt' := h.audio_waiting ha
    rw [hv] at hvideo
    simp only [VideoPc.inside] at hvideo
    omega

/-- The video decoder comes first and waits, and then the audio decoder waits. -/
theorem discontinuity_run_in_order_both : ∃ s : State,
    Runs.run step (init 1 12000) [.videoCall .absolute 900 ⟨5, 5, 12000⟩ ⟨5, 5, 12000⟩, .audioCall,
      .audioWake, .videoWake ⟨6, 6, 12000⟩ ⟨6, 6, 12000⟩, .audioWake] = some s ∧
      s.audio_returned ≤ s.video_applied ∧ s.video_applied ≤ s.audio_calls := by
  have hsome : (Runs.run step (init 1 12000) [.videoCall .absolute 900 ⟨5, 5, 12000⟩ ⟨5, 5, 12000⟩,
      .audioCall, .audioWake, .videoWake ⟨6, 6, 12000⟩ ⟨6, 6, 12000⟩, .audioWake]).isSome := by
    decide
  obtain ⟨s, hrun⟩ := Option.isSome_iff_exists.1 hsome
  obtain ⟨hreturned, happlied, -⟩ := discontinuity_run_in_order hrun
  exact ⟨s, hrun, hreturned, happlied⟩

end Xine.Timing
