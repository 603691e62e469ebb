import Mathlib.Algebra.Order.Ring.Int
import Mathlib.Data.BitVec
import Mathlib.Tactic.Ring
import Xine.Library.Filling

/-!
# The audio resamplers

The functions of `resample.c`. Samples in memory are lists, the channels of a frame
one after the other, and the memory for the output consists of cells that have not been written yet.
A function is `none` where it reads or writes outside of the memory that it is given, divides by
zero, or computes an `int` that overflows; unsigned values of 32 bits wrap around.

The resamplers for different numbers of channels differ only in this number, and are `resample`.
-/

namespace Xine.Resample

open Filling

/-- A sample of 16 bits. -/
abbrev Sample := BitVec 16

/-- The value between two samples, in fixed point: `(s1 * (0x10000-t)+ s2 * t) >> 16`, where the
samples are converted to the type of `t`, and the result to that of a sample. -/
def interpolate (s1 s2 : Sample) (t : BitVec 32) : Sample :=
  ((s1.signExtend 32 * (0x10000 - t) + s2.signExtend 32 * t) >>> 16).setWidth 16

/-- The step between the positions of two output frames, in 16 + 16 bits fixed point. -/
def istep (in_samples out_samples : BitVec 32) : BitVec 32 :=
  ((in_samples - 2) <<< 16) / (out_samples - 2)

/-- An index of the output, which is computed as an `int`. -/
def outputIndex (channels osample c : ℕ) : Option ℕ :=
  if osample * channels + c < 2 ^ 31 then some (osample * channels + c) else none

section Channels

variable (channels : ℕ) (input_samples : List Sample)

/-- One channel of an output frame. -/
def resampleSample (isample : BitVec 32) (osample c : ℕ) (output_samples : List (Option Sample)) :
    Option (List (Option Sample)) :=
  let i := (isample >>> 16).toNat * channels
  input_samples[i + c]?.bind fun s1 => input_samples[i + channels + c]?.bind fun s2 =>
    (outputIndex channels osample c).bind fun o =>
      write output_samples o (interpolate s1 s2 (isample &&& 0xffff))

/-- The last channels of an output frame, which are left to do. -/
def resampleFrame (isample : BitVec 32) (osample : ℕ) :
    List ℕ → List (Option Sample) → Option (List (Option Sample))
  | [], output_samples => some output_samples
  | c :: cs, output_samples =>
    (resampleSample channels input_samples isample osample c output_samples).bind
      (resampleFrame isample osample cs)

/-- The loop over the output frames but the last, from one of them on. -/
def resampleLoop (istep : BitVec 32) :
    ℕ → BitVec 32 → ℕ → List (Option Sample) → Option (List (Option Sample))
  | 0, _, _, output_samples => some output_samples
  | k + 1, isample, osample, output_samples =>
    (resampleFrame channels input_samples isample osample (List.range channels) output_samples).bind
      (resampleLoop istep k (isample + istep) (osample + 1))

/-- The last output frame is the last input frame. -/
def copyLast (in_samples out_samples : BitVec 32) :
    List ℕ → List (Option Sample) → Option (List (Option Sample))
  | [], output_samples => some output_samples
  | c :: cs, output_samples =>
    let behind : BitVec 32 := BitVec.ofNat 32 (channels - c)
    let i := in_samples * BitVec.ofNat 32 channels - behind
    let o := out_samples * BitVec.ofNat 32 channels - behind
    input_samples[i.toNat]?.bind fun s =>
      (write output_samples o.toNat s).bind (copyLast in_samples out_samples cs)

/-- The resampler for a number of channels. -/
def resample (in_samples : BitVec 32) (output_samples : List (Option Sample))
    (out_samples : BitVec 32) : Option (List (Option Sample)) :=
  if out_samples - 2 = 0 then none
  else
    (resampleLoop channels input_samples (istep in_samples out_samples) (out_samples - 1).toNat 0 0
      output_samples).bind
        (copyLast channels input_samples in_samples out_samples (List.range channels))

end Channels

/-- A resampler, as a function of `input_samples`, `in_samples`, `output_samples` and
`out_samples`. -/
abbrev Resampler :=
  List Sample → BitVec 32 → List (Option Sample) → BitVec 32 → Option (List (Option Sample))

def audioOutResampleMono : Resampler := resample 1

def audioOutResampleStereo : Resampler := resample 2

def audioOutResample4channel : Resampler := resample 4

def audioOutResample5channel : Resampler := resample 5

def audioOutResample6channel : Resampler := resample 6

/-- The resamplers, with their numbers of channels. -/
def resamplers : List (ℕ × Resampler) :=
  [(1, audioOutResampleMono), (2, audioOutResampleStereo), (4, audioOutResample4channel),
    (5, audioOutResample5channel), (6, audioOutResample6channel)]

/-! ## Conversions -/

def audioOutResample8to16 (input_samples : List (BitVec 8)) (output_samples : List (Option Sample))
    (samples : BitVec 32) : Option (List (Option Sample)) :=
  loop (fun i output_samples => input_samples[i]?.bind fun os =>
    write output_samples i ((os.signExtend 16 - 0x80) <<< 8)) samples.toNat 0 output_samples

def audioOutResample16to8 (input_samples : List Sample) (output_samples : List (Option (BitVec 8)))
    (samples : BitVec 32) : Option (List (Option (BitVec 8))) :=
  loop (fun i output_samples => input_samples[i]?.bind fun os =>
    write output_samples i ((os.sshiftRight 8 + 0x80).setWidth 8)) samples.toNat 0 output_samples

def audioOutResampleMonotostereo (input_samples : List Sample) (output_samples : List (Option Sample))
    (frames : BitVec 32) : Option (List (Option Sample)) :=
  loop (fun i output_samples => input_samples[i]?.bind fun os =>
    (write output_samples (2 * i) os).bind fun output_samples =>
      write output_samples (2 * i + 1) os) frames.toNat 0 output_samples

def audioOutResampleStereotomono (input_samples : List Sample) (output_samples : List (Option Sample))
    (frames : BitVec 32) : Option (List (Option Sample)) :=
  loop (fun i output_samples =>
    input_samples[2 * i]?.bind fun left => input_samples[2 * i + 1]?.bind fun right =>
      write output_samples i (left.sshiftRight 1 + right.sshiftRight 1)) frames.toNat 0 output_samples

end Xine.Resample

/-!
## What the resamplers write

Each function that writes a part of the output is described by the samples that it appends to the cells that have
been written. The descriptions are exact, in that a function is `none` where there are no such samples.
-/

namespace Xine.Resample

open Filling

variable {channels : ℕ} {input : List Sample} {isample step : BitVec 32} {osample : ℕ}
  {w : List Sample} {rest : ℕ} {mem : List (Option Sample)}

/-- The sample of a channel between two frames of the input, which both lie in the memory. -/
def Interpolated (channels : ℕ) (input : List Sample) (isample : BitVec 32) (c : ℕ) (s : Sample) :
    Prop :=
  ∃ s1 s2, input[(isample >>> 16).toNat * channels + c]? = some s1 ∧
    input[(isample >>> 16).toNat * channels + channels + c]? = some s2 ∧
    s = interpolate s1 s2 (isample &&& 0xffff)

/-- A block of samples, each of which has a property that depends on its place. -/
def Block (m : ℕ) (P : ℕ → Sample → Prop) (block : List Sample) : Prop :=
  block.length = m ∧ ∀ i < m, ∃ s, block[i]? = some s ∧ P i s

theorem block_nil (P : ℕ → Sample → Prop) : Block 0 P [] :=
  ⟨rfl, fun i hi => absurd hi (Nat.not_lt_zero i)⟩

theorem block_zero {P : ℕ → Sample → Prop} {block : List Sample} (h : Block 0 P block) : block = [] :=
  List.eq_nil_of_length_eq_zero h.1

theorem Block.append {m n : ℕ} {P : ℕ → Sample → Prop} {block block' : List Sample}
    (h : Block m P block) (h' : Block n (fun i => P (m + i)) block') :
    Block (m + n) P (block ++ block') := by
  refine ⟨by rw [List.length_append, h.1, h'.1], fun i hi => ?_⟩
  by_cases hlt : i < m
  · rw [List.getElem?_append_left (by rw [h.1]; exact hlt)]
    exact h.2 i hlt
  · obtain ⟨s, hs, hP⟩ := h'.2 (i - m) (by omega)
    rw [Nat.add_sub_cancel' (by omega)] at hP
    rw [List.getElem?_append_right (by rw [h.1]; omega), h.1]
    exact ⟨s, hs, hP⟩

theorem Block.split {m n : ℕ} {P : ℕ → Sample → Prop} {block : List Sample}
    (h : Block (m + n) P block) :
    ∃ first last, block = first ++ last ∧ Block m P first ∧ Block n (fun i => P (m + i)) last := by
  refine ⟨block.take m, block.drop m, (List.take_append_drop m block).symm, ⟨?_, ?_⟩, ?_, ?_⟩
  · rw [List.length_take, h.1]
    omega
  · intro i hi
    rw [List.getElem?_take_of_lt hi]
    exact h.2 i (by omega)
  · rw [List.length_drop, h.1]
    omega
  · intro i hi
    rw [List.getElem?_drop]
    exact h.2 (m + i) (by omega)

theorem exists_block {m : ℕ} {P : ℕ → Sample → Prop} (h : ∀ i < m, ∃ s, P i s) :
    ∃ block, Block m P block := by
  induction m with
  | zero => exact ⟨[], block_nil P⟩
  | succ m ih =>
    obtain ⟨block, hblock⟩ := ih fun i hi => h i (by omega)
    obtain ⟨s, hs⟩ := h m (by omega)
    refine ⟨block ++ [s], hblock.append ⟨rfl, fun i hi => ⟨s, ?_, ?_⟩⟩⟩
    · rw [Nat.lt_one_iff.1 hi]
      rfl
    · rw [Nat.lt_one_iff.1 hi]
      exact hs

theorem outputIndex_eq_some {o c : ℕ} :
    outputIndex channels osample c = some o ↔
      o = osample * channels + c ∧ osample * channels + c < 2 ^ 31 := by
  unfold outputIndex
  split_ifs with h
  · rw [Option.some.injEq]
    exact ⟨fun ho => ⟨ho.symm, h⟩, fun ho => ho.1.symm⟩
  · exact ⟨fun ho => ho.elim, fun ho => absurd ho.2 h⟩

theorem write_filled_iff {i : ℕ} {s : Sample} (hi : i = w.length) :
    write (filled w rest) i s = some mem ↔ ∃ r, rest = 1 + r ∧ mem = filled (w ++ [s]) r := by
  cases rest with
  | zero =>
    rw [write_length _ _ (by rw [length_filled, hi]; rfl)]
    exact ⟨fun h => absurd h.symm (Option.some_ne_none _), fun ⟨_, h, _⟩ => absurd h (by omega)⟩
  | succ rest =>
    rw [write_filled hi, Option.some.injEq]
    constructor
    · rintro rfl
      exact ⟨rest, Nat.add_comm _ _, rfl⟩
    · rintro ⟨r, hr, rfl⟩
      obtain rfl : rest = r := by omega
      rfl

theorem resampleSample_iff {c : ℕ} (hw : w.length = osample * channels + c) :
    resampleSample channels input isample osample c (filled w rest) = some mem ↔
      ∃ s r, Interpolated channels input isample c s ∧ osample * channels + c < 2 ^ 31 ∧
        rest = 1 + r ∧ mem = filled (w ++ [s]) r := by
  simp only [resampleSample, Option.bind_eq_some_iff, outputIndex_eq_some]
  constructor
  · rintro ⟨s1, hs1, s2, hs2, o, ⟨rfl, hlt⟩, hwrite⟩
    obtain ⟨r, hr, hmem⟩ := (write_filled_iff hw.symm).1 hwrite
    exact ⟨_, r, ⟨s1, s2, hs1, hs2, rfl⟩, hlt, hr, hmem⟩
  · rintro ⟨s, r, ⟨s1, s2, hs1, hs2, rfl⟩, hlt, hr, hmem⟩
    exact ⟨s1, hs1, s2, hs2, _, ⟨rfl, hlt⟩, (write_filled_iff hw.symm).2 ⟨r, hr, hmem⟩⟩

theorem resampleFrame_iff {m c : ℕ} (hw : w.length = osample * channels + c) :
    resampleFrame channels input isample osample (List.range' c m) (filled w rest) = some mem ↔
      ∃ block r, Block m (fun i s => Interpolated channels input isample (c + i) s ∧
          osample * channels + (c + i) < 2 ^ 31) block ∧
        rest = m + r ∧ mem = filled (w ++ block) r := by
  induction m generalizing c w rest with
  | zero =>
    rw [List.range'_zero, resampleFrame, Option.some.injEq]
    constructor
    · rintro rfl
      exact ⟨[], rest, block_nil _, (Nat.zero_add rest).symm, by rw [List.append_nil]⟩
    · rintro ⟨block, r, hblock, hr, rfl⟩
      rw [block_zero hblock, List.append_nil, hr, Nat.zero_add]
  | succ m ih =>
    have hnext : ∀ s : Sample, (w ++ [s]).length = osample * channels + (c + 1) := fun s => by
      rw [List.length_append, hw]
      rfl
    have hplace : ∀ i, c + 1 + i = c + (1 + i) := fun i => by omega
    rw [List.range'_succ, resampleFrame, Option.bind_eq_some_iff]
    constructor
    · rintro ⟨mem', hfirst, hothers⟩
      obtain ⟨s, r, hs, hlt, rfl, rfl⟩ := (resampleSample_iff hw).1 hfirst
      obtain ⟨block, r', hblock, rfl, rfl⟩ := (ih (hnext s)).1 hothers
      simp only [hplace] at hblock
      refine ⟨[s] ++ block, r', ?_, by omega, by rw [List.append_assoc]⟩
      rw [Nat.add_comm m 1]
      refine Block.append ⟨rfl, fun i hi => ?_⟩ hblock
      rw [Nat.lt_one_iff.1 hi]
      exact ⟨s, rfl, hs, hlt⟩
    · rintro ⟨block, r, hblock, rfl, rfl⟩
      rw [Nat.add_comm m 1] at hblock
      obtain ⟨first, others, rfl, hone, hothers⟩ := hblock.split
      obtain ⟨s, rfl⟩ := List.length_eq_one_iff.1 hone.1
      obtain ⟨s', hs', hs, hlt⟩ := hone.2 0 Nat.one_pos
      obtain rfl : s = s' := Option.some.inj hs'
      refine ⟨filled (w ++ [s]) (m + r), (resampleSample_iff hw).2
        ⟨s, m + r, hs, hlt, by omega, rfl⟩, (ih (hnext s)).2 ⟨others, r, ?_, rfl, ?_⟩⟩
      · simp only [hplace]
        exact hothers
      · rw [List.append_assoc]

/-- What the loop writes at a place: a sample of its frame, at an index that is an `int`. -/
def LoopSample (channels : ℕ) (input : List Sample) (isample step : BitVec 32) (osample i : ℕ)
    (s : Sample) : Prop :=
  Interpolated channels input (isample + BitVec.ofNat 32 (i / channels) * step) (i % channels) s ∧
    osample * channels + i < 2 ^ 31

theorem loopSample_next (hchannels : 0 < channels) {i : ℕ} {s : Sample} :
    LoopSample channels input (isample + step) step (osample + 1) i s ↔
      LoopSample channels input isample step osample (channels + i) s := by
  unfold LoopSample
  have hdiv : (channels + i) / channels = i / channels + 1 := by
    rw [Nat.add_div_left _ hchannels]
  have hmod : (channels + i) % channels = i % channels := Nat.add_mod_left _ _
  have hpos : isample + BitVec.ofNat 32 (i / channels + 1) * step =
      isample + step + BitVec.ofNat 32 (i / channels) * step := by
    have hsucc : BitVec.ofNat 32 (i / channels + 1) = BitVec.ofNat 32 (i / channels) + 1 :=
      BitVec.ofNat_add _ _
    rw [hsucc]
    ring
  have hindex : (osample + 1) * channels + i = osample * channels + (channels + i) := by ring
  rw [hdiv, hmod, hpos, hindex]

theorem loopSample_first {i : ℕ} {s : Sample} (hi : i < channels) :
    LoopSample channels input isample step osample i s ↔
      Interpolated channels input isample (0 + i) s ∧ osample * channels + (0 + i) < 2 ^ 31 := by
  unfold LoopSample
  have hzero : isample + BitVec.ofNat 32 0 * step = isample := by
    rw [BitVec.zero_mul, BitVec.add_zero]
  rw [Nat.div_eq_of_lt hi, Nat.mod_eq_of_lt hi, hzero, Nat.zero_add]

theorem Block.congr {m : ℕ} {P Q : ℕ → Sample → Prop} {block : List Sample}
    (h : Block m P block) (hPQ : ∀ i < m, ∀ s, P i s → Q i s) : Block m Q block := by
  refine ⟨h.1, fun i hi => ?_⟩
  obtain ⟨s, hs, hP⟩ := h.2 i hi
  exact ⟨s, hs, hPQ i hi s hP⟩

theorem resampleLoop_iff (hchannels : 0 < channels) {k : ℕ} (hw : w.length = osample * channels) :
    resampleLoop channels input step k isample osample (filled w rest) = some mem ↔
      ∃ block r, Block (channels * k) (LoopSample channels input isample step osample) block ∧
        rest = channels * k + r ∧ mem = filled (w ++ block) r := by
  induction k generalizing isample osample w rest with
  | zero =>
    rw [resampleLoop, Option.some.injEq, Nat.mul_zero]
    constructor
    · rintro rfl
      exact ⟨[], rest, block_nil _, (Nat.zero_add rest).symm, by rw [List.append_nil]⟩
    · rintro ⟨block, r, hblock, hr, rfl⟩
      rw [block_zero hblock, List.append_nil, hr, Nat.zero_add]
  | succ k ih =>
    have hnext : ∀ first : List Sample, first.length = channels →
        (w ++ first).length = (osample + 1) * channels := fun first hfirst => by
      rw [List.length_append, hw, hfirst]
      ring
    have hsize : channels * (k + 1) = channels + channels * k := by ring
    rw [resampleLoop, Option.bind_eq_some_iff, List.range_eq_range', hsize]
    constructor
    · rintro ⟨mem', hfirst, hothers⟩
      obtain ⟨first, r, hblock, rfl, rfl⟩ := (resampleFrame_iff hw).1 hfirst
      obtain ⟨others, r', hblock', rfl, rfl⟩ := (ih (hnext first hblock.1)).1 hothers
      refine ⟨first ++ others, r', ?_, by omega, by rw [List.append_assoc]⟩
      exact (hblock.congr fun i hi s hs => (loopSample_first hi).2 hs).append
        (hblock'.congr fun i _ s hs => (loopSample_next hchannels).1 hs)
    · rintro ⟨block, r, hblock, rfl, rfl⟩
      obtain ⟨first, others, rfl, hfirst, hothers⟩ := hblock.split
      refine ⟨filled (w ++ first) (channels * k + r), (resampleFrame_iff hw).2
        ⟨first, channels * k + r, hfirst.congr fun i hi s hs => (loopSample_first hi).1 hs, by omega,
          rfl⟩, (ih (hnext first hfirst.1)).2 ⟨others, r, ?_, rfl, by rw [List.append_assoc]⟩⟩
      exact hothers.congr fun i _ s hs => (loopSample_next hchannels).2 hs

/-- The index of a channel of the last of `frames` frames, as the code computes it. -/
def lastIndex (channels : ℕ) (frames : BitVec 32) (c : ℕ) : ℕ :=
  (frames * BitVec.ofNat 32 channels - BitVec.ofNat 32 (channels - c)).toNat

theorem lastIndex_eq {frames : BitVec 32} {c : ℕ} (hfit : channels * frames.toNat < 2 ^ 32)
    (hframes : 0 < frames.toNat) (hc : c < channels) :
    lastIndex channels frames c = channels * (frames.toNat - 1) + c := by
  have hmul : channels * (frames.toNat - 1) + channels = channels * frames.toNat := by
    obtain ⟨n, hn⟩ : ∃ n, frames.toNat = n + 1 := ⟨frames.toNat - 1, by omega⟩
    rw [hn, Nat.add_sub_cancel, Nat.mul_succ]
  have hchannels : channels < 2 ^ 32 := by omega
  unfold lastIndex
  rw [BitVec.toNat_sub, BitVec.toNat_mul, BitVec.toNat_ofNat, BitVec.toNat_ofNat,
    Nat.mod_eq_of_lt hchannels, Nat.mod_eq_of_lt (by omega : channels - c < 2 ^ 32),
    Nat.mul_comm frames.toNat, Nat.mod_eq_of_lt hfit]
  omega

theorem copyLast_iff {in_samples out_samples : BitVec 32} {m c : ℕ}
    (hindex : ∀ i < m, lastIndex channels out_samples (c + i) = w.length + i) :
    copyLast channels input in_samples out_samples (List.range' c m) (filled w rest) = some mem ↔
      ∃ block r, Block m (fun i s => input[lastIndex channels in_samples (c + i)]? = some s) block ∧
        rest = m + r ∧ mem = filled (w ++ block) r := by
  induction m generalizing c w rest with
  | zero =>
    rw [List.range'_zero, copyLast, Option.some.injEq]
    constructor
    · rintro rfl
      exact ⟨[], rest, block_nil _, (Nat.zero_add rest).symm, by rw [List.append_nil]⟩
    · rintro ⟨block, r, hblock, hr, rfl⟩
      rw [block_zero hblock, List.append_nil, hr, Nat.zero_add]
  | succ m ih =>
    have hplace : ∀ i, c + 1 + i = c + (1 + i) := fun i => by omega
    have hfirst : lastIndex channels out_samples c = w.length := hindex 0 (Nat.succ_pos m)
    have hnext : ∀ s : Sample, ∀ i < m, lastIndex channels out_samples (c + 1 + i) =
        (w ++ [s]).length + i := fun s i hi => by
      rw [hplace, hindex (1 + i) (by omega), List.length_append, List.length_singleton,
        Nat.add_assoc]
    rw [List.range'_succ, copyLast]
    simp only [Option.bind_eq_some_iff]
    constructor
    · rintro ⟨s, hs, mem', hwrite, hothers⟩
      obtain ⟨r, rfl, rfl⟩ := (write_filled_iff hfirst).1 hwrite
      obtain ⟨block, r', hblock, rfl, rfl⟩ := (ih (hnext s)).1 hothers
      simp only [hplace] at hblock
      refine ⟨[s] ++ block, r', ?_, by omega, by rw [List.append_assoc]⟩
      rw [Nat.add_comm m 1]
      refine Block.append ⟨rfl, fun i hi => ?_⟩ hblock
      rw [Nat.lt_one_iff.1 hi]
      exact ⟨s, rfl, hs⟩
    · rintro ⟨block, r, hblock, rfl, rfl⟩
      rw [Nat.add_comm m 1] at hblock
      obtain ⟨first, others, rfl, hone, hothers⟩ := hblock.split
      obtain ⟨s, rfl⟩ := List.length_eq_one_iff.1 hone.1
      obtain ⟨s', hs', hs⟩ := hone.2 0 Nat.one_pos
      obtain rfl : s = s' := Option.some.inj hs'
      refine ⟨s, hs, filled (w ++ [s]) (m + r), (write_filled_iff hfirst).2 ⟨m + r, by omega, rfl⟩,
        (ih (hnext s)).2 ⟨others, r, ?_, rfl, ?_⟩⟩
      · simp only [hplace]
        exact hothers
      · rw [List.append_assoc]

theorem mem_resamplers {resampler : Resampler} (h : (channels, resampler) ∈ resamplers) :
    resampler = resample channels ∧ 0 < channels ∧ channels ≤ 6 := by
  simp only [resamplers, List.mem_cons, Prod.mk.injEq, List.not_mem_nil, or_false] at h
  obtain ⟨rfl, rfl⟩ | ⟨rfl, rfl⟩ | ⟨rfl, rfl⟩ | ⟨rfl, rfl⟩ | ⟨rfl, rfl⟩ := h
  all_goals exact ⟨rfl, by decide, by decide⟩

theorem resample_iff {in_samples out_samples : BitVec 32} (hchannels : 0 < channels)
    (hle : channels ≤ 6) :
    resample channels input in_samples (filled [] (channels * out_samples.toNat)) out_samples =
        some mem ↔
      out_samples.toNat ≠ 2 ∧ 1 ≤ out_samples.toNat ∧ ∃ block last,
        Block (channels * (out_samples.toNat - 1))
          (LoopSample channels input 0 (istep in_samples out_samples) 0) block ∧
        Block channels (fun c s => input[lastIndex channels in_samples c]? = some s) last ∧
        mem = filled (block ++ last) 0 := by
  have htwo : out_samples - 2 = 0 ↔ out_samples.toNat = 2 := by
    have hlt := out_samples.isLt
    rw [← BitVec.toNat_inj, BitVec.toNat_sub]
    change (2 ^ 32 - 2 + out_samples.toNat) % 2 ^ 32 = 0 ↔ _
    omega
  have hpred : (out_samples - 1).toNat =
      if out_samples.toNat = 0 then 2 ^ 32 - 1 else out_samples.toNat - 1 := by
    have hlt := out_samples.isLt
    rw [BitVec.toNat_sub]
    change (2 ^ 32 - 1 + out_samples.toNat) % 2 ^ 32 = _
    split_ifs <;> omega
  -- the memory, behind the frames of the loop
  have hframe : 1 ≤ out_samples.toNat →
      channels * out_samples.toNat = channels * (out_samples.toNat - 1) + channels := fun hpos => by
    rw [← Nat.mul_succ]
    congr 1
    omega
  -- the indices of the last frame
  have hlast : ∀ block, 1 ≤ out_samples.toNat → Block (channels * (out_samples.toNat - 1))
      (LoopSample channels input 0 (istep in_samples out_samples) 0) block →
      ∀ i < channels, lastIndex channels out_samples (0 + i) = block.length + i := by
    intro block hpos hblock i hi
    have hfit : channels * (out_samples.toNat - 1) ≤ 2 ^ 31 := by
      by_contra hmany
      obtain ⟨s, -, -, hlt⟩ := hblock.2 (channels * (out_samples.toNat - 1) - 1) (by omega)
      omega
    rw [Nat.zero_add, hblock.1]
    exact lastIndex_eq (by rw [hframe hpos]; omega) hpos hi
  have hstart : ([] : List Sample).length = 0 * channels := (Nat.zero_mul channels).symm
  unfold resample
  simp only [htwo, hpred]
  constructor
  · intro h
    split_ifs at h with hout hzero
    · obtain ⟨mem', hloop, -⟩ := Option.bind_eq_some_iff.1 h
      obtain ⟨block, r, -, hsize, -⟩ := (resampleLoop_iff hchannels hstart).1 hloop
      rw [hzero, Nat.mul_zero] at hsize
      omega
    · have hpos : 1 ≤ out_samples.toNat := by omega
      obtain ⟨mem', hloop, hcopy⟩ := Option.bind_eq_some_iff.1 h
      obtain ⟨block, r, hblock, hsize, rfl⟩ :=
        (resampleLoop_iff hchannels hstart).1 hloop
      rw [List.nil_append, List.range_eq_range'] at hcopy
      obtain ⟨last, r', hlast', hsize', rfl⟩ := (copyLast_iff (hlast block hpos hblock)).1 hcopy
      have hnone : r' = 0 := by
        rw [hframe hpos] at hsize
        omega
      simp only [Nat.zero_add] at hlast'
      rw [hnone]
      exact ⟨hout, hpos, block, last, hblock, hlast', rfl⟩
  · rintro ⟨hout, hpos, block, last, hblock, hlast', rfl⟩
    rw [if_neg hout, if_neg (by omega), Option.bind_eq_some_iff, List.range_eq_range']
    refine ⟨filled block channels, (resampleLoop_iff hchannels hstart).2
      ⟨block, channels, hblock, hframe hpos, rfl⟩, (copyLast_iff (hlast block hpos hblock)).2
      ⟨last, 0, ?_, rfl, rfl⟩⟩
    simp only [Nat.zero_add]
    exact hlast'

end Xine.Resample

/-!
## The interpolated samples are exact

The resamplers multiply signed samples with weights in unsigned arithmetic of 32 bits. What wraps
around there comes back when the result is converted to a sample: `interpolate` is the weighted mean
of the two samples, rounded down, and so lies between them
(`weighted_between`).
-/

namespace Xine.Resample

open Filling

variable {s1 s2 : Sample} {t : BitVec 32}

theorem setWidth_ofInt (x : ℤ) :
    ((BitVec.ofInt 32 x) >>> 16).setWidth 16 = BitVec.ofInt 16 (x / 2 ^ 16) := by
  apply BitVec.eq_of_toNat_eq
  rw [BitVec.toNat_setWidth, BitVec.toNat_ushiftRight, BitVec.toNat_ofInt, BitVec.toNat_ofInt,
    Nat.shiftRight_eq_div_pow]
  omega

/-- The weighted mean of two samples, times the scale of the weights. -/
def weighted (s1 s2 : Sample) (t : ℕ) : ℤ := s1.toInt * (2 ^ 16 - t) + s2.toInt * t

theorem interpolate_eq : interpolate s1 s2 t = BitVec.ofInt 16 (weighted s1 s2 t.toNat / 2 ^ 16) := by
  have ht : BitVec.ofInt 32 t.toNat = t := by
    rw [BitVec.ofInt_natCast, BitVec.ofNat_toNat, BitVec.setWidth_eq]
  have hrest : BitVec.ofInt 32 (2 ^ 16 - t.toNat) = 0x10000 - t := by
    rw [Int.sub_eq_add_neg, BitVec.ofInt_add, BitVec.ofInt_neg, ht, ← BitVec.sub_eq_add_neg]
    rfl
  unfold interpolate weighted
  rw [BitVec.signExtend, BitVec.signExtend, ← setWidth_ofInt, BitVec.ofInt_add, BitVec.ofInt_mul,
    BitVec.ofInt_mul, hrest, ht]

theorem weighted_between {n : ℕ} (hn : n ≤ 2 ^ 16) :
    min s1.toInt s2.toInt ≤ weighted s1 s2 n / 2 ^ 16 ∧
      weighted s1 s2 n / 2 ^ 16 ≤ max s1.toInt s2.toInt := by
  have hweight : (0 : ℤ) ≤ 2 ^ 16 - n := by omega
  have hsum : ∀ m : ℤ, m * (2 ^ 16 - n) + m * n = m * 2 ^ 16 := fun m => by ring
  unfold weighted
  constructor
  · rw [Int.le_ediv_iff_mul_le (by decide), ← hsum]
    exact add_le_add (mul_le_mul_of_nonneg_right (min_le_left _ _) hweight)
      (mul_le_mul_of_nonneg_right (min_le_right _ _) (Int.natCast_nonneg n))
  · -- the mean is below the next number after the greater sample
    refine Int.le_of_lt_add_one ((Int.ediv_lt_iff_lt_mul (by decide)).2 (lt_of_le_of_lt ?_
      (mul_lt_mul_of_pos_right (Int.lt_succ _) (by decide : (0 : ℤ) < 2 ^ 16))))
    rw [← hsum]
    exact add_le_add (mul_le_mul_of_nonneg_right (le_max_left _ _) hweight)
      (mul_le_mul_of_nonneg_right (le_max_right _ _) (Int.natCast_nonneg n))

theorem toInt_interpolate (ht : t.toNat ≤ 2 ^ 16) :
    (interpolate s1 s2 t).toInt = weighted s1 s2 t.toNat / 2 ^ 16 := by
  obtain ⟨hmin, hmax⟩ := @weighted_between s1 s2 _ ht
  have h1 := s1.toInt_lt
  have h1' := s1.le_toInt
  have h2 := s2.toInt_lt
  have h2' := s2.le_toInt
  rw [interpolate_eq]
  apply BitVec.toInt_ofInt_eq_self (by decide) <;> omega

theorem fraction_lt (position : BitVec 32) : (position &&& 0xffff).toNat < 2 ^ 16 := by
  rw [BitVec.toNat_and]
  exact Nat.lt_of_le_of_lt Nat.and_le_right (by decide)

/-- A sample is the mean of two others with weights in 16 bits fixed point, rounded down, and lies
between them. -/
structure IsMean (s1 s2 : Sample) (t : ℕ) (s : Sample) : Prop where
  toInt_eq : s.toInt = (s1.toInt * (2 ^ 16 - t) + s2.toInt * t) / 2 ^ 16
  min_le : min s1.toInt s2.toInt ≤ s.toInt
  le_max : s.toInt ≤ max s1.toInt s2.toInt

theorem isMean_interpolate (ht : t.toNat < 2 ^ 16) : IsMean s1 s2 t.toNat (interpolate s1 s2 t) := by
  have heq := @toInt_interpolate s1 s2 _ ht.le
  obtain ⟨hmin, hmax⟩ := @weighted_between s1 s2 _ ht.le
  exact ⟨heq, by rw [heq]; exact hmin, by rw [heq]; exact hmax⟩

/-- What a resampler computes of two samples is their weighted mean, rounded down, and lies between
them; and each sample of the output but those of the last frame, which is the last input frame, is
what it computes of the samples in the frames of the input around its position. -/
theorem resampled_isMean {channels : ℕ} {resampler : Resampler}
    (hresampler : (channels, resampler) ∈ resamplers) {input_samples : List Sample}
    {in_samples out_samples : BitVec 32} {output_samples : List (Option Sample)}
    (h : resampler input_samples in_samples (List.replicate (channels * out_samples.toNat) none)
      out_samples = some output_samples) :
    (∀ s1 s2 (t : BitVec 32), t.toNat < 2 ^ 16 → IsMean s1 s2 t.toNat (interpolate s1 s2 t)) ∧
    (∀ osample < out_samples.toNat - 1, ∀ c < channels,
      let isample := BitVec.ofNat 32 osample * istep in_samples out_samples
      let i := (isample >>> 16).toNat
      ∃ s1 s2 s, input_samples[i * channels + c]? = some s1 ∧
        input_samples[(i + 1) * channels + c]? = some s2 ∧
        output_samples[osample * channels + c]? = some (some s) ∧
        IsMean s1 s2 (isample &&& 0xffff).toNat s) ∧
    (channels * in_samples.toNat < 2 ^ 32 → 0 < in_samples.toNat → ∀ c < channels,
      output_samples[(out_samples.toNat - 1) * channels + c]? =
        (input_samples[(in_samples.toNat - 1) * channels + c]?).map some) := by
  obtain ⟨rfl, hchannels, hle⟩ := mem_resamplers hresampler
  rw [← filled_nil] at h
  obtain ⟨-, -, block, last, hblock, hlast, rfl⟩ := (resample_iff hchannels hle).1 h
  rw [filled_zero]
  refine ⟨fun s1 s2 t ht => isMean_interpolate ht, fun osample hosample c hc => ?_,
    fun hfit hin c hc => ?_⟩
  · -- the place of the sample in the frames of the loop
    have hplace : osample * channels + c < channels * (out_samples.toNat - 1) :=
      calc osample * channels + c < osample * channels + channels := by omega
        _ = channels * (osample + 1) := by ring
        _ ≤ channels * (out_samples.toNat - 1) := Nat.mul_le_mul_left _ hosample
    obtain ⟨s, hs, ⟨s1, s2, hs1, hs2, rfl⟩, -⟩ := hblock.2 _ hplace
    have hdiv : (osample * channels + c) / channels = osample := by
      rw [Nat.add_comm, Nat.add_mul_div_right _ _ hchannels, Nat.div_eq_of_lt hc, Nat.zero_add]
    have hmod : (osample * channels + c) % channels = c := by
      rw [Nat.mul_add_mod', Nat.mod_eq_of_lt hc]
    rw [hdiv, hmod, zero_add] at hs1 hs2
    rw [hdiv, zero_add] at hs
    rw [← Nat.succ_mul] at hs2
    refine ⟨s1, s2, _, hs1, hs2, ?_, isMean_interpolate (fraction_lt _)⟩
    rw [List.getElem?_map, List.getElem?_append_left (by rw [hblock.1]; exact hplace), hs]
    rfl
  · obtain ⟨s, hs, hinput⟩ := hlast.2 c hc
    rw [lastIndex_eq hfit hin hc, Nat.mul_comm channels] at hinput
    have hbehind : (out_samples.toNat - 1) * channels + c - block.length = c := by
      rw [hblock.1, Nat.mul_comm channels, Nat.add_sub_cancel_left]
    rw [List.getElem?_map, List.getElem?_append_right (by rw [hblock.1, Nat.mul_comm]; omega),
      hbehind, hs, hinput]

/-- Three frames become five, at the ends of the range of the samples. -/
theorem resampled_isMean_five :
    audioOutResampleMono [-32768, 32767, -1] 3 (List.replicate 5 none) 5 =
        some [some (-32768), some (-10924), some 10921, some 32766, some (-1)] ∧
      IsMean (-32768) 32767 21845 (-10924) := by
  refine ⟨by decide, ?_⟩
  have h : audioOutResampleMono [-32768, 32767, -1] 3 (List.replicate 5 none) 5 =
      some [some (-32768), some (-10924), some 10921, some 32766, some (-1)] := by decide
  obtain ⟨-, hmean, -⟩ := @resampled_isMean 1 _ List.mem_cons_self _ _ _ _ h
  obtain ⟨s1, s2, s, hs1, hs2, hs, hmean⟩ := hmean 1 (by decide) 0 (by decide)
  obtain rfl : -32768 = s1 := Option.some.inj hs1
  obtain rfl : 32767 = s2 := Option.some.inj hs2
  obtain rfl : -10924 = s := Option.some.inj (Option.some.inj hs)
  exact hmean

end Xine.Resample
