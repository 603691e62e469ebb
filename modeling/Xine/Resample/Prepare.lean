import Xine.Resample.Frames

/-!
# The preparation of audio buffers

`prepare_samples` of `audio_out.c` from the conversion to 16 bits on: it converts the
frames of a buffer to the format of the driver and resamples them, each time from one of its buffers
to another. `ao_change_settings` sets the two formats. The number of output frames, which is computed
in floating point from the rates, is an argument, and the filters, which work in place, are left out.

A buffer holds as many samples as its frames have, and a conversion counts as done only if it has
written each cell of its frames; a function is `none` otherwise, where a conversion is, and where an
`int` overflows.
-/

namespace Xine.Resample

/-- The modes of a port, `AO_CAP_MODE_*`. -/
inductive Mode where
  | a52
  | ac5
  | mono
  | stereo
  | fourChannel
  | fourOneChannel
  | fiveChannel
  | fiveOneChannel
  deriving DecidableEq

def modeChannels : Mode → ℕ
  | .mono => 1
  | .stereo => 2
  | .fourChannel => 4
  | .fourOneChannel | .fiveChannel | .fiveOneChannel => 6
  | .a52 | .ac5 => 0

/-- The numbers of bits of a sample. -/
inductive Bits where
  | eight
  | sixteen
  deriving DecidableEq

/-- The format of samples. -/
structure Format where
  bits : Bits
  mode : Mode

/-- The capabilities of a driver that `ao_change_settings` asks for. -/
structure Capabilities where
  eightBits : Bool
  mono : Bool
  stereo : Bool

/-- The settings of the port that `prepare_samples` reads. -/
structure Settings where
  input : Format
  output : Format
  do_resample : Bool
  resample_sync_method : Bool

/-- `ao_change_settings`, which asks no driver when the frames are only grabbed. -/
def aoChangeSettings (driver : Option Capabilities) (bits : Bits) (mode : Mode)
    (do_resample resample_sync_method : Bool) : Settings where
  input := ⟨bits, mode⟩
  output :=
    match driver with
    | none => ⟨bits, mode⟩
    | some driver =>
      ⟨if bits = .eight ∧ driver.eightBits = false then .sixteen else bits,
        if mode = .mono ∧ driver.mono = false then .stereo
        else if mode = .stereo ∧ driver.stereo = false then .mono
        else mode⟩
  do_resample := do_resample
  resample_sync_method := resample_sync_method

/-- The samples in the memory of a buffer. -/
inductive Memory where
  | eight (samples : List (BitVec 8))
  | sixteen (samples : List Sample)

/-- `audio_buffer_t`, as far as it is read here. -/
structure AudioBuffer where
  mem : Memory
  num_frames : ℤ

/-- A value of type `int`. -/
def int32 (v : ℤ) : Option ℤ := if -2 ^ 31 ≤ v ∧ v < 2 ^ 31 then some v else none

/-- `ensure_buffer_size`, for samples of `bytes` bytes: memory for the frames, not written yet. -/
def ensureBufferSize {α : Type} (bytes : ℕ) (bytes_per_frame frames : ℤ) : Option (List (Option α)) :=
  (int32 (bytes_per_frame * frames)).map fun size => List.replicate (size.toNat / bytes) none

/-- The cells of a buffer, all of which have been written. -/
def allWritten {α : Type} : List (Option α) → Option (List α)
  | [] => some []
  | none :: _ => none
  | some x :: cells => (allWritten cells).map fun xs => x :: xs

/-- The frames are resampled. -/
def Settings.resamples (s : Settings) : Bool := s.resample_sync_method || s.do_resample

/-- 8 bit samples have to be converted. -/
def Settings.Converts (s : Settings) : Prop :=
  s.input.bits = .eight ∧ (s.resamples = true ∨ s.output.bits ≠ .eight ∨ s.input.mode ≠ s.output.mode)

instance (s : Settings) : Decidable s.Converts := by
  unfold Settings.Converts
  infer_instance

/-- The conversion of 8 bit samples as needed. -/
def convertTo16 (s : Settings) (buf : AudioBuffer) : Option AudioBuffer :=
  if s.Converts then
    match buf.mem with
    | .sixteen _ => none
    | .eight samples =>
      (ensureBufferSize 2 (2 * modeChannels s.input.mode) buf.num_frames).bind fun out =>
        ((int32 (modeChannels s.input.mode * buf.num_frames)).bind fun count =>
            audioOutResample8to16 samples out (BitVec.ofInt 32 count)).bind fun out =>
          (allWritten out).map fun out => ⟨.sixteen out, buf.num_frames⟩
  else some buf

/-- The resampler of a mode, with the number of bytes of a frame. -/
def resamplerOf : Mode → Option (Resampler × ℕ)
  | .mono => some (audioOutResampleMono, 2)
  | .stereo => some (audioOutResampleStereo, 4)
  | .fourChannel => some (audioOutResample4channel, 8)
  | .fourOneChannel | .fiveChannel | .fiveOneChannel => some (audioOutResample6channel, 12)
  -- pass-through modes: no resampling
  | .a52 | .ac5 => none

/-- The resampling, which may be skipped. -/
def resampleBuffer (s : Settings) (num_output_frames : ℤ) (buf : AudioBuffer) : Option AudioBuffer :=
  if s.resamples = true ∧ buf.num_frames ≠ num_output_frames then
    match resamplerOf s.input.mode, buf.mem with
    | none, _ => some buf
    | some _, .eight _ => none
    | some (resampler, bytes_per_frame), .sixteen samples =>
      (ensureBufferSize 2 bytes_per_frame num_output_frames).bind fun out =>
        (resampler samples (BitVec.ofInt 32 buf.num_frames) out
            (BitVec.ofInt 32 num_output_frames)).bind fun out =>
          (allWritten out).map fun out => ⟨.sixteen out, num_output_frames⟩
  else some buf

/-- The conversion between mono and stereo. -/
def convertMode (s : Settings) (buf : AudioBuffer) : Option AudioBuffer :=
  match s.input.mode, s.output.mode, buf.mem with
  | .mono, .stereo, .sixteen samples =>
    (ensureBufferSize 2 4 buf.num_frames).bind fun out =>
      (audioOutResampleMonotostereo samples out (BitVec.ofInt 32 buf.num_frames)).bind fun out =>
        (allWritten out).map fun out => ⟨.sixteen out, buf.num_frames⟩
  | .stereo, .mono, .sixteen samples =>
    (ensureBufferSize 2 2 buf.num_frames).bind fun out =>
      (audioOutResampleStereotomono samples out (BitVec.ofInt 32 buf.num_frames)).bind fun out =>
        (allWritten out).map fun out => ⟨.sixteen out, buf.num_frames⟩
  | .mono, .stereo, .eight _ | .stereo, .mono, .eight _ => none
  | _, _, _ => some buf

/-- The conversion back to 8 bits after resampling. -/
def convertTo8 (s : Settings) (buf : AudioBuffer) : Option AudioBuffer :=
  if s.output.bits = .eight ∧ (s.resamples = true ∨ s.input.mode ≠ s.output.mode) then
    match buf.mem with
    | .eight _ => none
    | .sixteen samples =>
      (ensureBufferSize 1 (1 * modeChannels s.output.mode) buf.num_frames).bind fun out =>
        ((int32 (modeChannels s.output.mode * buf.num_frames)).bind fun count =>
            audioOutResample16to8 samples out (BitVec.ofInt 32 count)).bind fun out =>
          (allWritten out).map fun out => ⟨.eight out, buf.num_frames⟩
  else some buf

def prepareSamples (s : Settings) (num_output_frames : ℤ) (buf : AudioBuffer) : Option AudioBuffer :=
  (convertTo16 s buf).bind fun buf => (resampleBuffer s num_output_frames buf).bind fun buf =>
    (convertMode s buf).bind (convertTo8 s)

end Xine.Resample
