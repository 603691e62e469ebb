import Xine.Library.Interleave
import Xine.Resample.Faults

/-!
# Resampling is channel by channel

The resamplers of `resample.c` are written out for each number of channels, with offsets of their
own for the two samples that are read, the one that is written, and the samples of the last frame. `Layout` holds
the offsets, and the layouts below are those of the source. They follow one pattern, `Layout.ofChannels`.
-/

namespace Xine.Resample

open Filling Channels

/-- The offsets of one sample that a round of the loop writes: those of the samples before and behind it,
from `(isample >> 16) * channels`, and its own one, from `osample * channels`. -/
structure Tap where
  s1 : ℕ
  s2 : ℕ
  os : ℕ
  deriving DecidableEq

/-- The offsets of a resampler. The last samples are counted from the end of the memory. -/
structure Layout where
  channels : ℕ
  taps : List Tap
  last : List ℕ
  deriving DecidableEq

namespace Layout

/-- The offsets of `audio_out_resample_mono`. -/
def mono : Layout := ⟨1, [⟨0, 1, 0⟩], [1]⟩

/-- The offsets of `audio_out_resample_stereo`. -/
def stereo : Layout := ⟨2, [⟨0, 2, 0⟩, ⟨1, 3, 1⟩], [2, 1]⟩

/-- The offsets of `audio_out_resample_4channel`. -/
def fourChannel : Layout := ⟨4, [⟨0, 4, 0⟩, ⟨1, 5, 1⟩, ⟨2, 6, 2⟩, ⟨3, 7, 3⟩], [4, 3, 2, 1]⟩

/-- The offsets of `audio_out_resample_5channel`. -/
def fiveChannel : Layout :=
  ⟨5, [⟨0, 5, 0⟩, ⟨1, 6, 1⟩, ⟨2, 7, 2⟩, ⟨3, 8, 3⟩, ⟨4, 9, 4⟩], [5, 4, 3, 2, 1]⟩

/-- The offsets of `audio_out_resample_6channel`. -/
def sixChannel : Layout :=
  ⟨6, [⟨0, 6, 0⟩, ⟨1, 7, 1⟩, ⟨2, 8, 2⟩, ⟨3, 9, 3⟩, ⟨4, 10, 4⟩, ⟨5, 11, 5⟩], [6, 5, 4, 3, 2, 1]⟩

/-- The layouts of the resamplers for several channels. -/
def several : List Layout := [stereo, fourChannel, fiveChannel, sixChannel]

section Resampler

variable (channels : ℕ) (input_samples : List Sample)

/-- The samples of a round, which are left to do. -/
def resampleTaps (isample : BitVec 32) (osample : ℕ) :
    List Tap → List (Option Sample) → Option (List (Option Sample))
  | [], output_samples => some output_samples
  | tap :: taps, output_samples =>
    let i := (isample >>> 16).toNat * channels
    (input_samples[i + tap.s1]?.bind fun s1 => input_samples[i + tap.s2]?.bind fun s2 =>
      (outputIndex channels osample tap.os).bind fun o =>
        write output_samples o (interpolate s1 s2 (isample &&& 0xffff))).bind
          (resampleTaps isample osample taps)

/-- The rounds of the loop, from one of them on. -/
def resampleRounds (taps : List Tap) (istep : BitVec 32) :
    ℕ → BitVec 32 → ℕ → List (Option Sample) → Option (List (Option Sample))
  | 0, _, _, output_samples => some output_samples
  | k + 1, isample, osample, output_samples =>
    (resampleTaps channels input_samples isample osample taps output_samples).bind
      (resampleRounds taps istep k (isample + istep) (osample + 1))

/-- The samples behind the loop: `output_samples[out_samples*2-2] = input_samples[in_samples*2-2]`. -/
def copyBehind (in_samples out_samples : BitVec 32) :
    List ℕ → List (Option Sample) → Option (List (Option Sample))
  | [], output_samples => some output_samples
  | behind :: last, output_samples =>
    let i := in_samples * BitVec.ofNat 32 channels - BitVec.ofNat 32 behind
    let o := out_samples * BitVec.ofNat 32 channels - BitVec.ofNat 32 behind
    input_samples[i.toNat]?.bind fun s =>
      (write output_samples o.toNat s).bind (copyBehind in_samples out_samples last)

end Resampler

/-- The function with the offsets of a layout. -/
def resampleBy (layout : Layout) : Resampler := fun input_samples in_samples output_samples out_samples =>
  if out_samples - 2 = 0 then none
  else
    (resampleRounds layout.channels input_samples layout.taps (istep in_samples out_samples)
      (out_samples - 1).toNat 0 0 output_samples).bind
        (copyBehind layout.channels input_samples in_samples out_samples layout.last)

/-- The pattern of the offsets. -/
def ofChannels (channels : ℕ) : Layout :=
  ⟨channels, (List.range channels).map fun c => ⟨c, channels + c, c⟩,
    (List.range channels).map fun c => channels - c⟩

theorem mem_several {layout : Layout} (h : layout ∈ several) :
    layout = ofChannels layout.channels ∧ 0 < layout.channels ∧ layout.channels ≤ 6 := by
  simp only [several, List.mem_cons, List.not_mem_nil, or_false] at h
  obtain rfl | rfl | rfl | rfl := h
  all_goals exact ⟨by decide, by decide, by decide⟩

theorem mono_eq : mono = ofChannels 1 := by decide

variable {channels : ℕ} {input : List Sample} {in_samples out_samples : BitVec 32}

theorem resampleTaps_map (isample : BitVec 32) (osample : ℕ) (cs : List ℕ)
    (output_samples : List (Option Sample)) :
    resampleTaps channels input isample osample (cs.map fun c => ⟨c, channels + c, c⟩) output_samples =
      resampleFrame channels input isample osample cs output_samples := by
  induction cs generalizing output_samples with
  | nil => rfl
  | cons c cs ih =>
    have hrest : resampleTaps channels input isample osample (cs.map fun c => ⟨c, channels + c, c⟩) =
        resampleFrame channels input isample osample cs := funext ih
    rw [List.map_cons, resampleTaps, resampleFrame, hrest]
    simp only [resampleSample, ← Nat.add_assoc]

theorem resampleRounds_ofChannels (step : BitVec 32) (k : ℕ) (isample : BitVec 32) (osample : ℕ)
    (output_samples : List (Option Sample)) :
    resampleRounds channels input (ofChannels channels).taps step k isample osample output_samples =
      resampleLoop channels input step k isample osample output_samples := by
  induction k generalizing isample osample output_samples with
  | zero => rfl
  | succ k ih =>
    rw [resampleRounds, resampleLoop, ofChannels, resampleTaps_map]
    exact congrArg _ (funext fun mem => ih _ _ mem)

theorem copyBehind_map (cs : List ℕ) (output_samples : List (Option Sample)) :
    copyBehind channels input in_samples out_samples (cs.map fun c => channels - c) output_samples =
      copyLast channels input in_samples out_samples cs output_samples := by
  induction cs generalizing output_samples with
  | nil => rfl
  | cons c cs ih =>
    have hrest : copyBehind channels input in_samples out_samples (cs.map fun c => channels - c) =
        copyLast channels input in_samples out_samples cs := funext ih
    rw [List.map_cons, copyBehind, copyLast, hrest]

theorem resample_ofChannels : resampleBy (ofChannels channels) = resample channels := by
  funext input in_samples output_samples out_samples
  have hrounds := fun step k => @resampleRounds_ofChannels channels input step k 0 0
  unfold resampleBy resample
  simp only [hrounds, show (ofChannels channels).channels = channels from rfl]
  split_ifs
  · rfl
  · exact congrArg _ (funext fun mem => copyBehind_map _ mem)

end Layout

/-! ## The channels of what is written -/

section Channel

variable {n : ℕ} {c : Fin n} {input block : List Sample} {in_samples out_samples : BitVec 32}

theorem interpolated_channel {isample : BitVec 32} {m : ℕ} {s : Sample} (hlength : input.length = n * m)
    (h : Interpolated n input isample c s) : Interpolated 1 (channel c input) isample 0 s := by
  obtain ⟨s1, s2, hs1, hs2, hs⟩ := h
  obtain ⟨hlt, -⟩ := List.getElem?_eq_some_iff.1 hs2
  have hn : 0 < n := Fin.pos c
  have hmul : (isample >>> 16).toNat * n + n = n * ((isample >>> 16).toNat + 1) := by ring
  -- both frames lie in the memory
  have hframe : (isample >>> 16).toNat + 1 < m := by
    apply Nat.lt_of_mul_lt_mul_left
    calc n * ((isample >>> 16).toNat + 1) ≤ n * ((isample >>> 16).toNat + 1) + c := Nat.le_add_right _ _
      _ < n * m := by rw [← hmul, ← hlength]; exact hlt
  refine ⟨s1, s2, ?_, ?_, hs⟩
  · rw [Nat.mul_one, Nat.add_zero, getElem?_channel hlength (by omega), Nat.mul_comm]
    exact hs1
  · rw [Nat.mul_one, Nat.add_zero, getElem?_channel hlength hframe, ← hmul]
    exact hs2

theorem loopSample_channel {isample step : BitVec 32} {m i : ℕ} {s : Sample}
    (hlength : input.length = n * m) (h : LoopSample n input isample step 0 (n * i + c) s) :
    LoopSample 1 (channel c input) isample step 0 i s := by
  obtain ⟨hs, hlt⟩ := h
  have hn : 0 < n := Fin.pos c
  rw [Nat.mul_add_div hn, Nat.div_eq_of_lt c.isLt, Nat.add_zero, Nat.mul_add_mod,
    Nat.mod_eq_of_lt c.isLt] at hs
  have hle : i ≤ n * i := Nat.le_mul_of_pos_left i hn
  unfold LoopSample
  rw [Nat.div_one, Nat.mod_one]
  exact ⟨interpolated_channel hlength hs, by omega⟩

theorem Block.channel {m : ℕ} {P Q : ℕ → Sample → Prop} (h : Block (n * m) P block)
    (hPQ : ∀ i < m, ∀ s, P (n * i + c) s → Q i s) : Block m Q (channel c block) := by
  refine ⟨?_, fun i hi => ?_⟩
  · rw [length_channel, h.1, Nat.mul_div_cancel_left m (Fin.pos c)]
  · have hplace : n * i + c < n * m :=
      calc n * i + c < n * i + n := Nat.add_lt_add_left c.isLt _
        _ = n * (i + 1) := rfl
        _ ≤ n * m := Nat.mul_le_mul_left n hi
    obtain ⟨s, hs, hP⟩ := h.2 _ hplace
    exact ⟨s, by rw [getElem?_channel h.1 hi]; exact hs, hPQ i hi s hP⟩

end Channel

/-- The numbers of frames with which a resampler does without fault, and reads its last frame at the end
of the input. -/
structure Admissible (channels in_samples out_samples : ℕ) : Prop where
  counts : out_samples = 1 ∧ 1 ≤ in_samples ∨
    3 ≤ out_samples ∧ 2 ≤ in_samples ∧ channels * (out_samples - 1) ≤ 2 ^ 31
  fits : channels * in_samples < 2 ^ 32

/-- A resampler for several channels writes all of its output, and each channel of it is what the mono
resampler writes of the channel of the input. -/
theorem resampleBy_channel {layout : Layout} (hlayout : layout ∈ Layout.several) {input : List Sample}
    {in_samples out_samples : BitVec 32} (hlength : input.length = layout.channels * in_samples.toNat)
    (hadmissible : Admissible layout.channels in_samples.toNat out_samples.toNat) :
    ∃ output : List Sample, output.length = layout.channels * out_samples.toNat ∧
      layout.resampleBy input in_samples
        (List.replicate (layout.channels * out_samples.toNat) none) out_samples =
          some (output.map some) ∧
      ∀ c : Fin layout.channels, Layout.mono.resampleBy (channel c input) in_samples
        (List.replicate out_samples.toNat none) out_samples = some ((channel c output).map some) := by
  obtain ⟨heq, hchannels, hle⟩ := Layout.mem_several hlayout
  have hresample : layout.resampleBy = resample layout.channels := by
    rw [heq]
    exact Layout.resample_ofChannels
  have hmono : Layout.mono.resampleBy = resample 1 := by
    rw [Layout.mono_eq]
    exact Layout.resample_ofChannels
  obtain ⟨output, hrun, houtput⟩ := (resample_some_iff hchannels hle hlength).2 hadmissible.counts
  refine ⟨output, houtput, by rw [hresample, hrun, filled_zero], fun c => ?_⟩
  -- the output is made of the blocks of the loop and the last frame
  rw [← filled_nil] at hrun
  obtain ⟨htwo, hone, block, last, hblock, hlast, hmem⟩ := (resample_iff hchannels hle).1 hrun
  rw [filled_zero, filled_zero] at hmem
  obtain rfl : output = block ++ last :=
    List.map_injective_iff.2 (Option.some_injective _) hmem
  have hin : 0 < in_samples.toNat := by
    rcases hadmissible.counts with ⟨-, h⟩ | ⟨-, h, -⟩ <;> omega
  have hwhole : last.length = layout.channels * 1 := by rw [hlast.1, Nat.mul_one]
  have hfitone : 1 * in_samples.toNat < 2 ^ 32 := by rw [Nat.one_mul]; exact in_samples.isLt
  rw [hmono, channel_append hblock.1 hwhole, ← filled_zero, ← Nat.one_mul out_samples.toNat,
    ← filled_nil]
  apply (resample_iff Nat.one_pos (by decide)).2
  refine ⟨htwo, hone, channel c block, channel c last, ?_, ?_, rfl⟩
  · rw [Nat.one_mul]
    exact hblock.channel fun i _ s hs => loopSample_channel hlength hs
  · -- the frame behind the loop is the last one of the input
    have hlast' : Block (layout.channels * 1)
        (fun c s => input[lastIndex layout.channels in_samples c]? = some s) last := by
      rw [Nat.mul_one]
      exact hlast
    refine hlast'.channel fun i hi s hs => ?_
    obtain rfl : i = 0 := Nat.lt_one_iff.1 hi
    rw [Nat.mul_zero, Nat.zero_add, lastIndex_eq hadmissible.fits hin c.isLt] at hs
    rw [lastIndex_eq hfitone hin Nat.one_pos, Nat.one_mul, Nat.add_zero,
      getElem?_channel hlength (by omega)]
    exact hs

/-- Three stereo frames become five. -/
theorem resampleBy_channel_five :
    ∃ output : List Sample, Layout.stereo.resampleBy [0, 9, 300, 6, 600, 3] 3 (List.replicate 10 none) 5 =
        some (output.map some) ∧
      Layout.mono.resampleBy [9, 6, 3] 3 (List.replicate 5 none) 5 =
        some ((channel (Fin.last 1) output).map some) := by
  have hadmissible : Admissible 2 3 5 := ⟨by decide, by decide⟩
  obtain ⟨output, -, hrun, hchannel⟩ := @resampleBy_channel Layout.stereo (by decide)
    [0, 9, 300, 6, 600, 3] 3 5 rfl hadmissible
  exact ⟨output, hrun, hchannel (Fin.last 1)⟩

end Xine.Resample
