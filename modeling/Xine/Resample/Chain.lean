import Mathlib.Tactic.NormNum
import Xine.Resample.Faults

/-!
# The chain of conversions

The buffers that `prepare_samples` of `audio_out.c` goes through: each conversion writes to the
second one of the buffers of the port, which is then swapped with the first one. `prepareSamplesIn` follows the
buffers through the conversions of `prepareSamples`, and `Conversion` says which buffer a conversion reads, which
one it writes, and the bytes that it writes and that there are.

`Port` has the rates with the settings, so that the number of output frames is computed here, in exact rationals
where the code has floating point.
-/

namespace Xine.Resample

/-! ## The buffers -/

/-- The two buffers for conversions that `ao_new_port` allocates. -/
inductive FrameBuf where
  | first
  | second
  deriving DecidableEq

/-- A buffer that is read: the one of the fifo, or one of the port. -/
inductive Source where
  | in_buf
  | frame_buf (buf : FrameBuf)

/-- `frame_buf`, with the sizes of their memory. -/
structure FrameBufs where
  frame_buf0 : FrameBuf
  frame_buf1 : FrameBuf
  distinct : frame_buf0 ≠ frame_buf1
  mem_size : FrameBuf → ℤ
  nonneg : ∀ buf, 0 ≤ mem_size buf

/-- As the port is set up. -/
def FrameBufs.start : FrameBufs := ⟨.first, .second, FrameBuf.noConfusion, fun _ => 4 * 32768, fun _ => by decide⟩

/-- The second buffer, after `ensure_buffer_size` for a size. -/
def FrameBufs.ensure (bufs : FrameBufs) (size : ℤ) : FrameBufs :=
  { bufs with
    mem_size := fun buf =>
      if buf = bufs.frame_buf1 ∧ bufs.mem_size buf < size then size else bufs.mem_size buf
    nonneg := fun buf => by
      have h := bufs.nonneg buf
      split_ifs <;> omega }

/-- `swap_frame_buffers`. -/
def FrameBufs.swap (bufs : FrameBufs) : FrameBufs :=
  ⟨bufs.frame_buf1, bufs.frame_buf0, bufs.distinct.symm, bufs.mem_size, bufs.nonneg⟩

/-- A conversion: the buffers that it reads and writes, the samples that it writes, and the size of the memory
that it writes them to. -/
structure Conversion where
  source : Source
  target : FrameBuf
  written : Memory
  mem_size : ℤ

/-- The buffers in a call of `prepare_samples`, `buf` and the conversions so far. -/
structure Chain where
  bufs : FrameBufs
  buf : Source
  conversions : List Conversion

namespace Chain

/-- A conversion that writes frames to the second buffer, which becomes the first one. -/
def convert (c : Chain) (bytes_per_frame frames : ℤ) (written : Memory) : Option Chain :=
  (int32 (bytes_per_frame * frames)).map fun size =>
    let bufs := c.bufs.ensure size
    ⟨bufs.swap, .frame_buf bufs.swap.frame_buf0,
      c.conversions ++ [⟨c.buf, bufs.frame_buf1, written, bufs.mem_size bufs.frame_buf1⟩]⟩

/-- The buffers of `convertTo16`, which converts `buf` to samples. -/
def to16 (s : Settings) (buf : AudioBuffer) (written : Memory) (c : Chain) : Option Chain :=
  if s.Converts then c.convert (2 * modeChannels s.input.mode) buf.num_frames written else some c

/-- The buffers of `resampleBuffer`. -/
def resampled (s : Settings) (num_output_frames : ℤ) (buf : AudioBuffer) (written : Memory) (c : Chain) :
    Option Chain :=
  if s.resamples = true ∧ buf.num_frames ≠ num_output_frames then
    match resamplerOf s.input.mode with
    | none => some c
    | some (_, bytes_per_frame) => c.convert bytes_per_frame num_output_frames written
  else some c

/-- The buffers of `convertMode`. -/
def toMode (s : Settings) (buf : AudioBuffer) (written : Memory) (c : Chain) : Option Chain :=
  match s.input.mode, s.output.mode with
  | .mono, .stereo => c.convert 4 buf.num_frames written
  | .stereo, .mono => c.convert 2 buf.num_frames written
  | _, _ => some c

/-- The buffers of `convertTo8`. -/
def to8 (s : Settings) (buf : AudioBuffer) (written : Memory) (c : Chain) : Option Chain :=
  if s.output.bits = .eight ∧ (s.resamples = true ∨ s.input.mode ≠ s.output.mode) then
    c.convert (1 * modeChannels s.output.mode) buf.num_frames written
  else some c

end Chain

/-- `prepareSamples`, with the buffers. -/
def prepareSamplesIn (s : Settings) (num_output_frames : ℤ) (c : Chain) (buf : AudioBuffer) :
    Option (Chain × AudioBuffer) :=
  (convertTo16 s buf).bind fun buf16 => (c.to16 s buf buf16.mem).bind fun c =>
    (resampleBuffer s num_output_frames buf16).bind fun buf =>
      (c.resampled s num_output_frames buf16 buf.mem).bind fun c =>
        (convertMode s buf).bind fun bufMode => (c.toMode s buf bufMode.mem).bind fun c =>
          (convertTo8 s bufMode).bind fun buf8 => (c.to8 s bufMode buf8.mem).map fun c => (c, buf8)

/-! ## The port -/

/-- What `ao_change_settings` sets. -/
structure Port where
  settings : Settings
  input_rate : ℕ
  output_rate : ℕ
  frame_rate_factor : ℚ

/-- A driver: its capabilities, and the rate that `open` gives, which is zero when it fails. -/
structure Driver where
  capabilities : Capabilities
  openRate : Bits → ℕ → Mode → ℕ

/-- `output_sample_rate`: the driver is opened with the output format, unless the frames are only grabbed. -/
def outputSampleRate (driver : Option Driver) (force_rate : ℕ) (bits : Bits) (rate : ℕ) (mode : Mode) : ℕ :=
  match driver with
  | none => rate
  | some driver =>
    let output := (aoChangeSettings (some driver.capabilities) bits mode false false).output
    driver.openRate output.bits (if force_rate ≠ 0 then force_rate else rate) output.mode

/-- The choice of `do_resample`: forced off, forced on, or automatic. -/
def doResample (resample_conf : ℤ) (output_rate input_rate : ℕ) : Bool :=
  if resample_conf = 1 then false else if resample_conf = 2 then true else decide (output_rate ≠ input_rate)

/-- `ao_change_settings`, with the value that it returns. It is `none` where `audio_step` is divided by a
rate of zero. -/
def Port.changeSettings (p : Port) (driver : Option Driver) (resample_conf : ℤ) (force_rate : ℕ)
    (bits : Bits) (rate : ℕ) (mode : Mode) : Option (Port × ℕ) :=
  let output_rate := outputSampleRate driver force_rate bits rate mode
  if output_rate = 0 then
    some ({ p with settings := { p.settings with input := ⟨bits, mode⟩ }, input_rate := rate }, 0)
  else if rate = 0 then none
  else
    some (⟨aoChangeSettings (driver.map Driver.capabilities) bits mode
        (doResample resample_conf output_rate rate) p.settings.resample_sync_method,
      rate, output_rate, output_rate / rate⟩, output_rate)

/-- The number of output frames, and `output_frame_excess`. -/
def Port.outputFrames (p : Port) (resample_sync_factor output_frame_excess : ℚ) (num_frames : ℤ) : ℤ × ℚ :=
  let acc_output_frames := num_frames * p.frame_rate_factor * resample_sync_factor + output_frame_excess
  let num_output_frames := acc_output_frames.num.tdiv acc_output_frames.den
  let excess := acc_output_frames - num_output_frames
  (num_output_frames, if excess ≠ 0 ∧ p.settings.resamples = false then 0 else excess)

/-- `prepare_samples` from the number of output frames on, with the new `output_frame_excess`. -/
def Port.prepareSamples (p : Port) (resample_sync_factor output_frame_excess : ℚ) (c : Chain)
    (buf : AudioBuffer) : Option (ℚ × Chain × AudioBuffer) :=
  let frames := p.outputFrames resample_sync_factor output_frame_excess buf.num_frames
  (int32 frames.1).bind fun num_output_frames =>
    (prepareSamplesIn p.settings num_output_frames c buf).map fun r => (frames.2, r)

/-- The frames of a buffer are resampled, which they are not in a pass-through mode. -/
def Port.Scales (p : Port) : Prop := p.settings.resamples = true ∧ modeChannels p.settings.input.mode ≠ 0

instance (p : Port) : Decidable p.Scales := inferInstanceAs (Decidable (_ ∧ _))

/-! ## Memory -/

open Filling

/-- The bytes of the samples. -/
def Memory.bytes (mem : Memory) : ℕ := mem.bits.bytes * mem.length

theorem length_of_resampleFrame {channels : ℕ} {input : List Sample} {isample : BitVec 32} {osample : ℕ}
    {cs : List ℕ} {mem mem' : List (Option Sample)}
    (h : resampleFrame channels input isample osample cs mem = some mem') : mem'.length = mem.length := by
  induction cs generalizing mem with
  | nil =>
    obtain rfl : mem = mem' := Option.some.inj h
    rfl
  | cons c cs ih =>
    obtain ⟨next, hnext, hrest⟩ := Option.bind_eq_some_iff.1 h
    simp only [resampleSample, Option.bind_eq_some_iff] at hnext
    obtain ⟨s1, -, s2, -, o, -, hwrite⟩ := hnext
    exact (ih hrest).trans (length_of_write hwrite)

theorem length_of_resampleLoop {channels k osample : ℕ} {input : List Sample} {step isample : BitVec 32}
    {mem mem' : List (Option Sample)}
    (h : resampleLoop channels input step k isample osample mem = some mem') : mem'.length = mem.length := by
  induction k generalizing isample osample mem with
  | zero =>
    obtain rfl : mem = mem' := Option.some.inj h
    rfl
  | succ k ih =>
    obtain ⟨next, hnext, hrest⟩ := Option.bind_eq_some_iff.1 h
    exact (ih hrest).trans (length_of_resampleFrame hnext)

theorem length_of_copyLast {channels : ℕ} {input : List Sample} {in_samples out_samples : BitVec 32}
    {cs : List ℕ} {mem mem' : List (Option Sample)}
    (h : copyLast channels input in_samples out_samples cs mem = some mem') : mem'.length = mem.length := by
  induction cs generalizing mem with
  | nil =>
    obtain rfl : mem = mem' := Option.some.inj h
    rfl
  | cons c cs ih =>
    obtain ⟨s, -, h⟩ := Option.bind_eq_some_iff.1 h
    obtain ⟨next, hnext, hrest⟩ := Option.bind_eq_some_iff.1 h
    exact (ih hrest).trans (length_of_write hnext)

theorem length_of_resample {channels : ℕ} {input : List Sample} {in_samples out_samples : BitVec 32}
    {mem mem' : List (Option Sample)} (h : resample channels input in_samples mem out_samples = some mem') :
    mem'.length = mem.length := by
  unfold resample at h
  split_ifs at h
  obtain ⟨next, hloop, hlast⟩ := Option.bind_eq_some_iff.1 h
  exact (length_of_copyLast hlast).trans (length_of_resampleLoop hloop)

theorem length_of_allWritten {α : Type} {cells : List (Option α)} {xs : List α}
    (h : allWritten cells = some xs) : xs.length = cells.length := by
  induction cells generalizing xs with
  | nil =>
    obtain rfl : [] = xs := Option.some.inj h
    rfl
  | cons cell cells ih =>
    cases cell with
    | none => exact absurd h.symm (Option.some_ne_none _)
    | some x =>
      obtain ⟨ys, hys, rfl⟩ := Option.map_eq_some_iff.1 h
      rw [List.length_cons, List.length_cons, ih hys]

theorem bytes_of_convert {α : Type} {bytes : ℕ} {bytes_per_frame n m : ℤ} {bits : Bits} (mk : List α → Memory)
    (hbits : ∀ xs, (mk xs).bits = bits) (hlength : ∀ xs, (mk xs).length = xs.length)
    (hbytes : bits.bytes = bytes) {f : List (Option α) → Option (List (Option α))}
    (hf : ∀ out out', f out = some out' → out'.length = out.length) {buf : AudioBuffer}
    (h : ((ensureBufferSize bytes bytes_per_frame n).bind fun out => (f out).bind fun out =>
        (allWritten out).map fun out => ⟨mk out, m⟩) = some buf) :
    ∃ size, int32 (bytes_per_frame * n) = some size ∧ buf.mem.bytes ≤ size.toNat := by
  obtain ⟨cells, hcells, h⟩ := Option.bind_eq_some_iff.1 h
  obtain ⟨size, hsize, rfl⟩ := Option.map_eq_some_iff.1 hcells
  obtain ⟨out, hout, h⟩ := Option.bind_eq_some_iff.1 h
  obtain ⟨xs, hxs, rfl⟩ := Option.map_eq_some_iff.1 h
  refine ⟨size, hsize, ?_⟩
  have hxs_length : xs.length = size.toNat / bytes := by
    rw [length_of_allWritten hxs, hf _ _ hout, List.length_replicate]
  unfold Memory.bytes
  rw [hbits, hlength, hbytes, hxs_length]
  exact Nat.mul_div_le _ _

/-! ## Conversions from one buffer to another -/

namespace Chain

/-- The buffer that is read next is not the one that is written next, and the conversions so far have gone
from one buffer to another that is large enough. -/
structure Sound (c : Chain) : Prop where
  buf : c.buf ≠ .frame_buf c.bufs.frame_buf1
  conversions : ∀ conv ∈ c.conversions,
    conv.source ≠ .frame_buf conv.target ∧ (conv.written.bytes : ℤ) ≤ conv.mem_size

theorem sound_start (bufs : FrameBufs) : (⟨bufs, .in_buf, []⟩ : Chain).Sound :=
  ⟨Source.noConfusion, fun _ h => absurd h List.not_mem_nil⟩

variable {c : Chain} {s : Settings} {buf buf' : AudioBuffer} {written : Memory} {bytes_per_frame n : ℤ}

theorem Sound.convert (h : c.Sound)
    (hwritten : ∃ size, int32 (bytes_per_frame * n) = some size ∧ written.bytes ≤ size.toNat) :
    ∃ c', c.convert bytes_per_frame n written = some c' ∧ c'.Sound := by
  obtain ⟨size, hsize, hfits⟩ := hwritten
  unfold Chain.convert
  rw [hsize, Option.map_some]
  refine ⟨_, rfl, ?_⟩
  constructor
  · intro heq
    exact c.bufs.distinct.symm (Source.frame_buf.inj heq)
  · intro conv hconv
    rcases List.mem_append.1 hconv with hconv | hconv
    · exact h.conversions conv hconv
    · obtain rfl := List.mem_singleton.1 hconv
      refine ⟨h.buf, ?_⟩
      -- the memory has been enlarged if it was too small
      have hnonneg := c.bufs.nonneg c.bufs.frame_buf1
      change (written.bytes : ℤ) ≤ if c.bufs.frame_buf1 = c.bufs.frame_buf1 ∧
        c.bufs.mem_size c.bufs.frame_buf1 < size then size else c.bufs.mem_size c.bufs.frame_buf1
      split_ifs with hsmall
      · omega
      · have hlarge : ¬c.bufs.mem_size c.bufs.frame_buf1 < size := fun hlt => hsmall ⟨rfl, hlt⟩
        omega

theorem Sound.to16 (h : c.Sound) (hbuf : convertTo16 s buf = some buf') :
    ∃ c', c.to16 s buf buf'.mem = some c' ∧ c'.Sound := by
  unfold Chain.to16
  unfold convertTo16 at hbuf
  split_ifs at hbuf ⊢ with hconverts
  · obtain ⟨mem, num_frames⟩ := buf
    cases mem with
    | sixteen samples => exact absurd hbuf.symm (Option.some_ne_none _)
    | eight samples =>
      refine h.convert (bytes_of_convert .sixteen (fun _ => rfl) (fun _ => rfl) rfl ?_ hbuf)
      intro out out' hout
      obtain ⟨count, -, hrun⟩ := Option.bind_eq_some_iff.1 hout
      refine length_of_loop (fun i mem mem' hbody => ?_) hrun
      obtain ⟨os, -, hwrite⟩ := Option.bind_eq_some_iff.1 hbody
      exact length_of_write hwrite
  · exact ⟨c, rfl, h⟩

theorem Sound.resampled (h : c.Sound) (hbuf : resampleBuffer s n buf = some buf') :
    ∃ c', c.resampled s n buf buf'.mem = some c' ∧ c'.Sound := by
  unfold Chain.resampled
  unfold resampleBuffer at hbuf
  split_ifs at hbuf ⊢ with hresample
  · obtain ⟨hnone, -⟩ | ⟨resampler, hsome, hmem⟩ := resamplerOf_cases s.input.mode
    · rw [hnone]
      exact ⟨c, rfl, h⟩
    · obtain ⟨rfl, -, -⟩ := mem_resamplers hmem
      rw [hsome] at hbuf ⊢
      obtain ⟨mem, num_frames⟩ := buf
      cases mem with
      | eight samples => exact absurd hbuf.symm (Option.some_ne_none _)
      | sixteen samples =>
        refine h.convert (bytes_of_convert .sixteen (fun _ => rfl) (fun _ => rfl) rfl ?_ hbuf)
        exact fun out out' hout => length_of_resample hout
  · exact ⟨c, rfl, h⟩

theorem Sound.toMode (h : c.Sound) (hbuf : convertMode s buf = some buf') :
    ∃ c', c.toMode s buf buf'.mem = some c' ∧ c'.Sound := by
  unfold Chain.toMode
  unfold convertMode at hbuf
  obtain ⟨mem, num_frames⟩ := buf
  split
  · next hin hout =>
    rw [hin, hout] at hbuf
    cases mem with
    | eight samples => exact absurd hbuf.symm (Option.some_ne_none _)
    | sixteen samples =>
      refine h.convert (bytes_of_convert .sixteen (fun _ => rfl) (fun _ => rfl) rfl ?_ hbuf)
      intro out out' hrun
      refine length_of_loop (fun i mem mem' hbody => ?_) hrun
      obtain ⟨os, -, hbody⟩ := Option.bind_eq_some_iff.1 hbody
      obtain ⟨next, hleft, hright⟩ := Option.bind_eq_some_iff.1 hbody
      exact (length_of_write hright).trans (length_of_write hleft)
  · next hin hout =>
    rw [hin, hout] at hbuf
    cases mem with
    | eight samples => exact absurd hbuf.symm (Option.some_ne_none _)
    | sixteen samples =>
      refine h.convert (bytes_of_convert .sixteen (fun _ => rfl) (fun _ => rfl) rfl ?_ hbuf)
      intro out out' hrun
      refine length_of_loop (fun i mem mem' hbody => ?_) hrun
      obtain ⟨left, -, hbody⟩ := Option.bind_eq_some_iff.1 hbody
      obtain ⟨right, -, hwrite⟩ := Option.bind_eq_some_iff.1 hbody
      exact length_of_write hwrite
  · exact ⟨c, rfl, h⟩

theorem Sound.to8 (h : c.Sound) (hbuf : convertTo8 s buf = some buf') :
    ∃ c', c.to8 s buf buf'.mem = some c' ∧ c'.Sound := by
  unfold Chain.to8
  unfold convertTo8 at hbuf
  split_ifs at hbuf ⊢ with hconverts
  · obtain ⟨mem, num_frames⟩ := buf
    cases mem with
    | eight samples => exact absurd hbuf.symm (Option.some_ne_none _)
    | sixteen samples =>
      refine h.convert (bytes_of_convert .eight (fun _ => rfl) (fun _ => rfl) rfl ?_ hbuf)
      intro out out' hout
      obtain ⟨count, -, hrun⟩ := Option.bind_eq_some_iff.1 hout
      refine length_of_loop (fun i mem mem' hbody => ?_) hrun
      obtain ⟨os, -, hwrite⟩ := Option.bind_eq_some_iff.1 hbody
      exact length_of_write hwrite
  · exact ⟨c, rfl, h⟩

theorem Sound.prepareSamples (h : c.Sound) (hbuf : prepareSamples s n buf = some buf') :
    ∃ c', prepareSamplesIn s n c buf = some (c', buf') ∧ c'.Sound := by
  obtain ⟨buf16, h16, hbuf⟩ := Option.bind_eq_some_iff.1 hbuf
  obtain ⟨bufn, hn, hbuf⟩ := Option.bind_eq_some_iff.1 hbuf
  obtain ⟨bufMode, hMode, h8⟩ := Option.bind_eq_some_iff.1 hbuf
  obtain ⟨c₁, hc₁, hs₁⟩ := h.to16 h16
  obtain ⟨c₂, hc₂, hs₂⟩ := hs₁.resampled hn
  obtain ⟨c₃, hc₃, hs₃⟩ := hs₂.toMode hMode
  obtain ⟨c₄, hc₄, hs₄⟩ := hs₃.to8 h8
  refine ⟨c₄, ?_, hs₄⟩
  unfold prepareSamplesIn
  simp only [h16, hc₁, hn, hc₂, hMode, hc₃, h8, hc₄, Option.bind_some, Option.map_some]

end Chain

theorem prepareSamples_of_in {s : Settings} {n : ℤ} {c c' : Chain} {buf buf' : AudioBuffer}
    (h : prepareSamplesIn s n c buf = some (c', buf')) : prepareSamples s n buf = some buf' := by
  simp only [prepareSamplesIn, Option.bind_eq_some_iff, Option.map_eq_some_iff, Prod.mk.injEq] at h
  obtain ⟨buf16, h16, -, -, bufn, hn, -, -, bufMode, hMode, -, -, buf8, h8, -, -, -, rfl⟩ := h
  unfold prepareSamples
  rw [h16, Option.bind_some, hn, Option.bind_some, hMode, Option.bind_some, h8]

/-! ## What comes out of the chain -/

section Result

variable {s : Settings} {buf buf' : AudioBuffer} {n : ℤ} {bits : Bits} {channels : ℕ}

theorem Outcome.of_some {r : Option AudioBuffer} {condition : Prop} (h : Outcome r condition n bits channels)
    (hr : r = some buf) : buf.num_frames = n ∧ buf.Holds bits channels := by
  have hc : condition := not_not.1 fun hnot =>
    absurd (hr.symm.trans (h.failed hnot)) (Option.some_ne_none buf)
  obtain ⟨b, hb, hframes, hholds⟩ := h.done hc
  obtain rfl : buf = b := Option.some.inj (hr.symm.trans hb)
  exact ⟨hframes, hholds⟩

theorem convertTo8_bits (h : convertTo8 s buf = some buf') :
    buf'.mem.bits = if s.output.bits = .eight ∧ (s.resamples = true ∨ s.input.mode ≠ s.output.mode)
      then .eight else buf.mem.bits := by
  unfold convertTo8 at h
  split_ifs at h ⊢
  · obtain ⟨mem, num_frames⟩ := buf
    cases mem with
    | eight samples => exact absurd h.symm (Option.some_ne_none _)
    | sixteen samples =>
      obtain ⟨out, -, h⟩ := Option.bind_eq_some_iff.1 h
      obtain ⟨out, -, h⟩ := Option.bind_eq_some_iff.1 h
      obtain ⟨xs, -, rfl⟩ := Option.map_eq_some_iff.1 h
      rfl
  · cases h
    rfl

theorem prepareSamples_holds (hvalid : s.Valid) (hbuf : buf.Holds s.input.bits (modeChannels s.input.mode))
    (h : prepareSamples s n buf = some buf') :
    buf'.Holds s.output.bits (modeChannels s.output.mode) ∧
      buf'.num_frames = if s.resamples = true ∧ modeChannels s.input.mode ≠ 0 then n else buf.num_frames := by
  obtain ⟨buf16, h16, h⟩ := Option.bind_eq_some_iff.1 h
  obtain ⟨bufn, hn, h⟩ := Option.bind_eq_some_iff.1 h
  obtain ⟨bufMode, hMode, h8⟩ := Option.bind_eq_some_iff.1 h
  have hresampled : s.resamples = true → (if s.Converts then Bits.sixteen else s.input.bits) = .sixteen := by
    intro hres
    cases hbits : s.input.bits with
    | eight => rw [if_pos ⟨hbits, Or.inl hres⟩]
    | sixteen => exact ite_self _
  have hmode : s.input.mode ≠ s.output.mode →
      (if s.Converts then Bits.sixteen else s.input.bits) = .sixteen := by
    intro hne
    cases hbits : s.input.bits with
    | eight => rw [if_pos ⟨hbits, Or.inr (Or.inr hne)⟩]
    | sixteen => exact ite_self _
  obtain ⟨hframes16, hholds16⟩ := (convertTo16_outcome hbuf).of_some h16
  obtain ⟨hframesn, hholdsn⟩ := (resampleBuffer_outcome hholds16 hresampled).of_some hn
  obtain ⟨hframesMode, hholdsMode⟩ := (convertMode_outcome hvalid hholdsn hmode).of_some hMode
  obtain ⟨bits', hout⟩ := convertTo8_outcome hholdsMode fun _ hconvert => hconvert.elim hresampled hmode
  obtain ⟨hframes8, hholds8⟩ := hout.of_some h8
  refine ⟨?_, ?_⟩
  · -- the bits are those of the output, with the conversion back and without it
    have hbits : bits' = s.output.bits := by
      rw [← hholds8.bits_eq, convertTo8_bits h8, hholdsMode.bits_eq]
      split_ifs with hback hconverts
      · exact hback.1.symm
      · cases hout : s.output.bits with
        | sixteen => rfl
        | eight =>
          -- samples of 8 bits that have been converted are converted back
          obtain ⟨-, hres | hne | hne⟩ := hconverts
          · exact absurd ⟨hout, Or.inl hres⟩ hback
          · exact absurd hout hne
          · exact absurd ⟨hout, Or.inr hne⟩ hback
      · cases hout : s.output.bits with
        | eight => exact hvalid.bits hout
        | sixteen =>
          cases hin : s.input.bits with
          | sixteen => rfl
          | eight => exact absurd ⟨hin, Or.inr (Or.inl (by rw [hout]; exact Bits.noConfusion))⟩ hconverts
    rw [hbits] at hholds8
    exact hholds8
  · rw [hframes8, hframesMode, hframesn, hframes16]

end Result

/-- The settings after the method of synchronization has been chosen. -/
def Port.withSync (p : Port) (resample_sync_method : Bool) : Port :=
  { p with settings := { p.settings with resample_sync_method := resample_sync_method } }

section Port

variable {p p' : Port} {driver : Option Driver} {resample_conf : ℤ} {force_rate rate rate' : ℕ}
  {bits : Bits} {mode : Mode} {sync : Bool} {resample_sync_factor excess excess' : ℚ}
  {c' : Chain} {bufs : FrameBufs} {buf buf' : AudioBuffer}

theorem changeSettings_opened
    (h : p.changeSettings driver resample_conf force_rate bits rate mode = some (p', rate')) (hopen : rate' ≠ 0) :
    p'.settings.input = ⟨bits, mode⟩ ∧ p'.settings.Valid := by
  unfold Port.changeSettings at h
  simp only at h
  split_ifs at h
  · obtain ⟨-, rfl⟩ := Prod.mk.inj (Option.some.inj h)
    exact absurd rfl hopen
  · obtain ⟨rfl, -⟩ := Prod.mk.inj (Option.some.inj h)
    refine ⟨?_, aoChangeSettings_valid _ _ _ _ _⟩
    cases driver <;> rfl

/-- After `ao_change_settings` has opened the driver, whichever way the sound is synchronized, a buffer that
`prepare_samples` returns has the bits and the mode of the output. It has as many frames as the input, or
as its frames give with the factors, rounded down with the excess of the buffers before, if frames are
resampled in a mode with channels. Each conversion writes from one buffer
to another one, whose memory is large enough. -/
theorem prepareSamples_chain
    (h : p.changeSettings driver resample_conf force_rate bits rate mode = some (p', rate')) (hopen : rate' ≠ 0)
    (hbuf : buf.Holds bits (modeChannels mode))
    (hrun : (p'.withSync sync).prepareSamples resample_sync_factor excess ⟨bufs, .in_buf, []⟩ buf =
      some (excess', c', buf')) :
    buf'.Holds p'.settings.output.bits (modeChannels p'.settings.output.mode) ∧
      buf'.num_frames = (if (p'.withSync sync).Scales then
        ((p'.withSync sync).outputFrames resample_sync_factor excess buf.num_frames).1 else buf.num_frames) ∧
      ∀ conv ∈ c'.conversions, conv.source ≠ .frame_buf conv.target ∧
        (conv.written.bytes : ℤ) ≤ conv.mem_size := by
  obtain ⟨hinput, hvalid⟩ := changeSettings_opened h hopen
  obtain ⟨n, hn, hrun⟩ := Option.bind_eq_some_iff.1 hrun
  obtain ⟨⟨c, b⟩, hin, heq⟩ := Option.map_eq_some_iff.1 hrun
  obtain ⟨-, rfl, rfl⟩ : _ ∧ c = c' ∧ b = buf' := by simpa only [Prod.mk.injEq] using heq
  have hframes : n = ((p'.withSync sync).outputFrames resample_sync_factor excess buf.num_frames).1 := by
    unfold int32 at hn
    split_ifs at hn
    exact (Option.some.inj hn).symm
  -- the samples, and the buffers that they have been in
  have hsamples := prepareSamples_of_in hin
  obtain ⟨c', hc', hsound⟩ := (Chain.sound_start bufs).prepareSamples hsamples
  obtain rfl : c = c' := congrArg Prod.fst (Option.some.inj (hin.symm.trans hc'))
  have hholds : buf.Holds (p'.withSync sync).settings.input.bits
      (modeChannels (p'.withSync sync).settings.input.mode) := by
    change buf.Holds p'.settings.input.bits (modeChannels p'.settings.input.mode)
    rw [hinput]
    exact hbuf
  have hvalid' : (p'.withSync sync).settings.Valid := ⟨hvalid.mode, hvalid.bits⟩
  obtain ⟨hout, hcount⟩ := prepareSamples_holds hvalid' hholds hsamples
  refine ⟨hout, ?_, hsound.conversions⟩
  rw [hcount, hframes]
  rfl

end Port

/-- A port before the first buffer. -/
def Port.start : Port := ⟨⟨⟨.sixteen, .stereo⟩, ⟨.sixteen, .stereo⟩, false, false⟩, 0, 0, 0⟩

/-- A driver for stereo samples of 16 bits at 16000 Hz. -/
def stereoDriver : Driver := ⟨⟨false, false, true⟩, fun _ _ _ => 16000⟩

/-- The port after the driver has been opened for mono samples of 8 bits at 8000 Hz. -/
def openedPort : Port :=
  ⟨⟨⟨.eight, .mono⟩, ⟨.sixteen, .stereo⟩, true, false⟩, 8000, 16000, (16000 : ℕ) / (8000 : ℕ)⟩

/-- Four mono frames of 8 bits become eight stereo frames of 16 bits, by three conversions. -/
theorem prepareSamples_chain_mono :
    ∃ excess c buf, (openedPort.withSync false).prepareSamples 1 0 ⟨.start, .in_buf, []⟩
        ⟨.eight [128, 130, 126, 128], 4⟩ = some (excess, c, buf) ∧
      buf.Holds .sixteen 2 ∧ buf.num_frames = 8 ∧ c.conversions.length = 3 := by
  have hopened : Port.start.changeSettings (some stereoDriver) 0 0 .eight 8000 .mono =
      some (openedPort, 16000) := rfl
  have hbuf : (⟨.eight [128, 130, 126, 128], 4⟩ : AudioBuffer).Holds .eight 1 :=
    ⟨by decide, by decide, rfl, fun _ => rfl, by decide⟩
  have hsome : ((openedPort.withSync false).prepareSamples 1 0 ⟨.start, .in_buf, []⟩
      ⟨.eight [128, 130, 126, 128], 4⟩).any (fun r => r.2.1.conversions.length == 3) = true := by
    decide +kernel
  obtain ⟨⟨excess, c, buf⟩, hrun, hlength⟩ := (Option.any_eq_true _ _).1 hsome
  obtain ⟨hholds, hframes, -⟩ := prepareSamples_chain hopened (by decide) hbuf hrun
  exact ⟨excess, c, buf, hrun, hholds, hframes.trans (by decide +kernel), eq_of_beq hlength⟩

/-- A driver for mono samples. -/
def monoDriver : Driver := ⟨⟨true, true, false⟩, fun _ _ _ => 16000⟩

/-- With resampling forced off, three frames at half the rate of the device stay three frames. -/
theorem prepareSamples_unscaled :
    ∃ p excess c buf, Port.start.changeSettings (some monoDriver) 1 0 .sixteen 8000 .mono = some (p, 16000) ∧
      p.prepareSamples 1 0 ⟨.start, .in_buf, []⟩ threeFrames = some (excess, c, buf) ∧
      buf.num_frames = 3 ∧ 3 * p.frame_rate_factor = 6 := by
  refine ⟨⟨⟨⟨.sixteen, .mono⟩, ⟨.sixteen, .mono⟩, false, false⟩, 8000, 16000, (16000 : ℕ) / (8000 : ℕ)⟩,
    0, ⟨.start, .in_buf, []⟩, threeFrames, rfl, ?_, rfl, by norm_num⟩
  have hframes : Port.outputFrames ⟨⟨⟨.sixteen, .mono⟩, ⟨.sixteen, .mono⟩, false, false⟩, 8000, 16000,
      (16000 : ℕ) / (8000 : ℕ)⟩ 1 0 3 = (6, 0) := by decide +kernel
  unfold Port.prepareSamples
  simp only [show threeFrames.num_frames = 3 from rfl, hframes]
  rfl

end Xine.Resample
