import Xine.Resample.Prepare

/-!
# Which counts of frames the resamplers can do with

A resampler divides by the number of output frames less two, reads two input frames for each output frame but the
last, and counts its output frames but the last in unsigned arithmetic. It does without fault if there is one
output frame, and one input frame to copy, or if there are at least three output frames and two input frames, in
memory that an `int` can index.
-/

namespace Xine.Resample

open Filling

/-! ## The resamplers -/

section Resamplers

variable {channels : ℕ} {input : List Sample} {in_samples out_samples : BitVec 32}

theorem mul_istep_le (hout : 3 ≤ out_samples.toNat) (hin : 2 ≤ in_samples.toNat) :
    (out_samples.toNat - 2) * (istep in_samples out_samples).toNat ≤
      ((in_samples.toNat - 2) * 2 ^ 16) % 2 ^ 32 := by
  have htwo : ∀ x : BitVec 32, 2 ≤ x.toNat → (x - 2).toNat = x.toNat - 2 := fun x hx => by
    have hlt := x.isLt
    rw [BitVec.toNat_sub]
    change (2 ^ 32 - 2 + x.toNat) % 2 ^ 32 = _
    omega
  unfold istep
  rw [BitVec.toNat_udiv, BitVec.toNat_shiftLeft, htwo _ hin, htwo _ (by omega), Nat.shiftLeft_eq]
  exact Nat.mul_div_le _ _

theorem position_le (hout : 3 ≤ out_samples.toNat) (hin : 2 ≤ in_samples.toNat) {osample : ℕ}
    (hosample : osample ≤ out_samples.toNat - 2) :
    ((BitVec.ofNat 32 osample * istep in_samples out_samples) >>> 16).toNat ≤
      in_samples.toNat - 2 := by
  have hle : osample * (istep in_samples out_samples).toNat ≤
      ((in_samples.toNat - 2) * 2 ^ 16) % 2 ^ 32 :=
    calc osample * (istep in_samples out_samples).toNat
        ≤ (out_samples.toNat - 2) * (istep in_samples out_samples).toNat :=
          Nat.mul_le_mul_right _ hosample
      _ ≤ _ := mul_istep_le hout hin
  have hlt := Nat.mod_lt ((in_samples.toNat - 2) * 2 ^ 16) (show 0 < 2 ^ 32 by decide)
  have hmod := Nat.mod_le ((in_samples.toNat - 2) * 2 ^ 16) (2 ^ 32)
  have hsmall := out_samples.isLt
  rw [BitVec.toNat_ushiftRight, BitVec.toNat_mul, BitVec.toNat_ofNat,
    Nat.mod_eq_of_lt (by omega : osample < 2 ^ 32), Nat.mod_eq_of_lt (by omega),
    Nat.shiftRight_eq_div_pow]
  omega

theorem lastIndex_lt {c : ℕ} (hin : 1 ≤ in_samples.toNat) (hc : c < channels) :
    lastIndex channels in_samples c < channels * in_samples.toNat := by
  by_cases hfit : channels * in_samples.toNat < 2 ^ 32
  · rw [lastIndex_eq hfit hin hc]
    calc channels * (in_samples.toNat - 1) + c < channels * (in_samples.toNat - 1) + channels := by
          omega
      _ = channels * (in_samples.toNat - 1 + 1) := (Nat.mul_succ _ _).symm
      _ = channels * in_samples.toNat := by rw [Nat.sub_add_cancel hin]
  · exact Nat.lt_of_lt_of_le (BitVec.isLt _) (Nat.le_of_not_lt hfit)

theorem exists_interpolated {isample : BitVec 32} {c : ℕ}
    (hlength : input.length = channels * in_samples.toNat) (hc : c < channels)
    (hpos : (isample >>> 16).toNat + 2 ≤ in_samples.toNat) :
    ∃ s, Interpolated channels input isample c s := by
  have hlt : (isample >>> 16).toNat * channels + channels + c < input.length :=
    calc (isample >>> 16).toNat * channels + channels + c
        < (isample >>> 16).toNat * channels + channels + channels := by omega
      _ = channels * ((isample >>> 16).toNat + 2) := by ring
      _ ≤ input.length := by rw [hlength]; exact Nat.mul_le_mul_left _ hpos
  exact ⟨_, _, _, List.getElem?_eq_getElem (by omega), List.getElem?_eq_getElem hlt, rfl⟩

theorem resample_some_iff (hchannels : 0 < channels) (hle : channels ≤ 6)
    (hlength : input.length = channels * in_samples.toNat) :
    (∃ output, resample channels input in_samples
        (List.replicate (channels * out_samples.toNat) none) out_samples =
          some (filled output 0) ∧ output.length = channels * out_samples.toNat) ↔
      out_samples.toNat = 1 ∧ 1 ≤ in_samples.toNat ∨
        3 ≤ out_samples.toNat ∧ 2 ≤ in_samples.toNat ∧
          channels * (out_samples.toNat - 1) ≤ 2 ^ 31 := by
  rw [← filled_nil]
  have hnext : 1 ≤ out_samples.toNat →
      channels * out_samples.toNat = channels * (out_samples.toNat - 1) + channels := fun hpos => by
    rw [← Nat.mul_succ]
    congr 1
    omega
  constructor
  · rintro ⟨output, h, -⟩
    obtain ⟨hout, hpos, block, last, hblock, hlast, -⟩ := (resample_iff hchannels hle).1 h
    by_cases hone : out_samples.toNat = 1
    · -- the last input frame is read
      obtain ⟨s, -, hs⟩ := hlast.2 0 hchannels
      obtain ⟨hlt, -⟩ := List.getElem?_eq_some_iff.1 hs
      rw [hlength] at hlt
      exact Or.inl ⟨hone, Nat.pos_of_mul_pos_left (Nat.zero_lt_of_lt hlt)⟩
    · have hmany : channels * 2 ≤ channels * (out_samples.toNat - 1) :=
        Nat.mul_le_mul_left _ (by omega)
      -- the first output frame is computed of the first two input frames
      obtain ⟨s, -, ⟨-, s2, -, hs2, -⟩, -⟩ := hblock.2 0 (by omega)
      obtain ⟨hlt, -⟩ := List.getElem?_eq_some_iff.1 hs2
      have hin : channels * 1 < channels * in_samples.toNat := by
        rw [← hlength]
        exact Nat.lt_of_le_of_lt (by omega) hlt
      -- the last index that the loop writes is an `int`
      obtain ⟨s', -, -, hindex⟩ := hblock.2 (channels * (out_samples.toNat - 1) - 1) (by omega)
      exact Or.inr ⟨by omega, Nat.lt_of_mul_lt_mul_left hin, by omega⟩
  · intro hcounts
    have hpos : 1 ≤ out_samples.toNat := by omega
    have hin : 1 ≤ in_samples.toNat := by omega
    have hloop : ∃ block, Block (channels * (out_samples.toNat - 1))
        (LoopSample channels input 0 (istep in_samples out_samples) 0) block := by
      apply exists_block
      intro i hi
      have hdiv : i / channels < out_samples.toNat - 1 := Nat.div_lt_of_lt_mul hi
      obtain ⟨hone, -⟩ | ⟨hout, hin, hfit⟩ := hcounts
      · rw [hone] at hdiv
        exact absurd hdiv (Nat.not_lt_zero _)
      · have hposition := @position_le _ _ hout hin (i / channels) (by omega)
        rw [← zero_add (BitVec.ofNat 32 (i / channels) * _)] at hposition
        obtain ⟨s, hs⟩ := @exists_interpolated _ _ _
          (0 + BitVec.ofNat 32 (i / channels) * istep in_samples out_samples) _ hlength
          (Nat.mod_lt i hchannels) (by omega)
        exact ⟨s, hs, by omega⟩
    have hcopy : ∃ last, Block channels
        (fun c s => input[lastIndex channels in_samples c]? = some s) last :=
      exists_block fun c hc => ⟨_, List.getElem?_eq_getElem (by
        rw [hlength]
        exact lastIndex_lt hin hc)⟩
    obtain ⟨block, hblock⟩ := hloop
    obtain ⟨last, hlast⟩ := hcopy
    refine ⟨block ++ last, (resample_iff hchannels hle).2
      ⟨by omega, hpos, block, last, hblock, hlast, rfl⟩, ?_⟩
    rw [List.length_append, hblock.1, hlast.1, hnext hpos]

end Resamplers

/-! ## The conversions -/

section Conversions

variable {samples : BitVec 32}

theorem loop_some {α : Type} {body : ℕ → List (Option α) → Option (List (Option α))}
    (blocks : ℕ → List α) {b k size : ℕ} (hsize : size = b * k) (hlength : ∀ i, (blocks i).length = b)
    (hbody : ∀ i w r, i < k → w.length = b * i →
      body i (filled w (b + r)) = some (filled (w ++ blocks i) r)) :
    ∃ output, loop body k 0 (List.replicate size none) = some (filled output 0) ∧
      output.length = size := by
  subst hsize
  refine ⟨(List.range k).flatMap blocks, ?_, length_blocks hlength⟩
  rw [← filled_nil]
  change loop body k 0 (filled [] (b * k + 0)) = _
  exact loop_filled hlength hbody

theorem audioOutResample8to16_some {input : List (BitVec 8)} (h : samples.toNat ≤ input.length) :
    ∃ output, audioOutResample8to16 input (List.replicate samples.toNat none) samples =
      some (filled output 0) ∧ output.length = samples.toNat := by
  apply loop_some (fun i => [((input.getD i 0).signExtend 16 - 0x80) <<< 8]) (Nat.one_mul _).symm
    fun _ => rfl
  intro i w r hi hw
  have hread : input[i]? = some (input.getD i 0) := by
    rw [List.getD_eq_getElem?_getD, List.getElem?_eq_getElem (by omega)]
    rfl
  rw [hread, Option.bind_some, Nat.add_comm, write_filled (by omega)]

theorem audioOutResample16to8_some {input : List Sample} (h : samples.toNat ≤ input.length) :
    ∃ output, audioOutResample16to8 input (List.replicate samples.toNat none) samples =
      some (filled output 0) ∧ output.length = samples.toNat := by
  apply loop_some (fun i => [((input.getD i 0).sshiftRight 8 + 0x80).setWidth 8])
    (Nat.one_mul _).symm fun _ => rfl
  intro i w r hi hw
  have hread : input[i]? = some (input.getD i 0) := by
    rw [List.getD_eq_getElem?_getD, List.getElem?_eq_getElem (by omega)]
    rfl
  rw [hread, Option.bind_some, Nat.add_comm, write_filled (by omega)]

theorem audioOutResampleMonotostereo_some {input : List Sample} (h : samples.toNat ≤ input.length) :
    ∃ output, audioOutResampleMonotostereo input (List.replicate (2 * samples.toNat) none) samples =
      some (filled output 0) ∧ output.length = 2 * samples.toNat := by
  apply loop_some (fun i => [input.getD i 0, input.getD i 0]) rfl fun _ => rfl
  intro i w r hi hw
  have hread : input[i]? = some (input.getD i 0) := by
    rw [List.getD_eq_getElem?_getD, List.getElem?_eq_getElem (by omega)]
    rfl
  have hsize : 2 + r = r + 1 + 1 := by omega
  rw [hread, Option.bind_some, hsize, write_filled (by omega), Option.bind_some, write_filled (by
    rw [List.length_append, hw]
    rfl), List.append_assoc]
  rfl

theorem audioOutResampleStereotomono_some {input : List Sample}
    (h : 2 * samples.toNat ≤ input.length) :
    ∃ output, audioOutResampleStereotomono input (List.replicate samples.toNat none) samples =
      some (filled output 0) ∧ output.length = samples.toNat := by
  apply loop_some (fun i =>
    [(input.getD (2 * i) 0).sshiftRight 1 + (input.getD (2 * i + 1) 0).sshiftRight 1])
    (Nat.one_mul _).symm fun _ => rfl
  intro i w r hi hw
  have hread : ∀ j < input.length, input[j]? = some (input.getD j 0) := fun j hj => by
    rw [List.getD_eq_getElem?_getD, List.getElem?_eq_getElem hj]
    rfl
  rw [hread _ (by omega), Option.bind_some, hread _ (by omega), Option.bind_some, Nat.add_comm,
    write_filled (by omega)]

end Conversions

/-! ## Buffers -/

/-- The bits of the samples. -/
def Memory.bits : Memory → Bits
  | .eight _ => .eight
  | .sixteen _ => .sixteen

/-- The number of the samples. -/
def Memory.length : Memory → ℕ
  | .eight samples => samples.length
  | .sixteen samples => samples.length

/-- The bytes of a sample. -/
def Bits.bytes : Bits → ℕ
  | .eight => 1
  | .sixteen => 2

/-- A buffer that holds the samples of its frames, with a size that is an `int`. What it holds in a
pass-through mode has no channels. -/
structure AudioBuffer.Holds (buf : AudioBuffer) (bits : Bits) (channels : ℕ) : Prop where
  nonneg : 0 ≤ buf.num_frames
  lt : buf.num_frames < 2 ^ 31
  bits_eq : buf.mem.bits = bits
  length_eq : channels ≠ 0 → (buf.mem.length : ℤ) = channels * buf.num_frames
  fits : bits.bytes * channels * buf.num_frames < 2 ^ 31

/-- A conversion fails unless a condition holds, and otherwise gives a buffer with these frames. -/
structure Outcome (r : Option AudioBuffer) (condition : Prop) (num_frames : ℤ) (bits : Bits)
    (channels : ℕ) : Prop where
  done : condition → ∃ buf, r = some buf ∧ buf.num_frames = num_frames ∧ buf.Holds bits channels
  failed : ¬condition → r = none

variable {buf : AudioBuffer} {s : Settings} {bits : Bits} {channels : ℕ}

theorem Outcome.same (h : buf.Holds bits channels) :
    Outcome (some buf) True buf.num_frames bits channels :=
  ⟨fun _ => ⟨buf, rfl, rfl, h⟩, fun hnot => absurd trivial hnot⟩

theorem Outcome.congr {r : Option AudioBuffer} {condition condition' : Prop} {num_frames : ℤ}
    (h : Outcome r condition num_frames bits channels) (hiff : condition ↔ condition') :
    Outcome r condition' num_frames bits channels :=
  ⟨fun hc => h.done (hiff.2 hc), fun hc => h.failed fun hc' => hc (hiff.1 hc')⟩

theorem allWritten_filled {α : Type} (written : List α) : allWritten (filled written 0) = some written := by
  rw [filled_zero]
  induction written with
  | nil => rfl
  | cons x written ih => rw [List.map_cons, allWritten, ih, Option.map_some]

theorem ensureBufferSize_eq {α : Type} {bytes n : ℕ} {bytes_per_frame : ℤ} (hbytes : 0 < bytes)
    (hframe : bytes_per_frame = bytes * channels) :
    ensureBufferSize bytes bytes_per_frame n =
      if (bytes * channels * n : ℤ) < 2 ^ 31 then
        some (List.replicate (channels * n) (none : Option α)) else none := by
  have hsize : (bytes * channels * n : ℤ) = (bytes * (channels * n) : ℕ) := by
    push_cast
    ring
  unfold ensureBufferSize int32
  rw [hframe, hsize]
  by_cases hfit : ((bytes * (channels * n) : ℕ) : ℤ) < 2 ^ 31
  · rw [if_pos ⟨by omega, hfit⟩, if_pos hfit, Option.map_some, Int.toNat_natCast,
      Nat.mul_div_cancel_left _ hbytes]
  · rw [if_neg fun h => hfit h.2, if_neg hfit]
    rfl

theorem toNat_ofInt_natCast {n : ℕ} (h : (n : ℤ) < 2 ^ 31) : (BitVec.ofInt 32 n).toNat = n := by
  rw [BitVec.ofInt_natCast, BitVec.toNat_ofNat]
  omega

theorem int32_natCast {n : ℕ} (h : (n : ℤ) < 2 ^ 31) : int32 n = some (n : ℤ) :=
  if_pos ⟨by omega, h⟩

theorem outcome_convert {α : Type} {bytes n : ℕ} {bytes_per_frame : ℤ} (mk : List α → Memory)
    (hbits : ∀ xs, (mk xs).bits = bits) (hlength : ∀ xs, (mk xs).length = xs.length)
    (hbytes : bits.bytes = bytes) (hn : (n : ℤ) < 2 ^ 31)
    (hframe : bytes_per_frame = bytes * channels)
    {f : List (Option α) → Option (List (Option α))}
    (hf : (bytes * channels * n : ℤ) < 2 ^ 31 → ∃ output,
      f (List.replicate (channels * n) none) = some (filled output 0) ∧ output.length = channels * n) :
    Outcome ((ensureBufferSize bytes bytes_per_frame n).bind fun out => (f out).bind fun out =>
        (allWritten out).map fun out => ⟨mk out, n⟩)
      ((bytes * channels * n : ℤ) < 2 ^ 31) n bits channels := by
  have hpos : 0 < bytes := by
    rw [← hbytes]
    cases bits <;> decide
  rw [ensureBufferSize_eq hpos hframe]
  constructor
  · intro hfit
    obtain ⟨output, hrun, houtput⟩ := hf hfit
    rw [if_pos hfit, Option.bind_some, hrun, Option.bind_some, allWritten_filled, Option.map_some]
    refine ⟨_, rfl, rfl, Int.natCast_nonneg n, hn, hbits output, fun _ => ?_, ?_⟩
    · rw [hlength, houtput, Nat.cast_mul]
    · rw [hbytes]
      exact hfit
  · intro hfit
    rw [if_neg hfit]
    rfl

theorem convertTo16_outcome (hbuf : buf.Holds s.input.bits (modeChannels s.input.mode)) :
    Outcome (convertTo16 s buf)
      (s.Converts → (2 * modeChannels s.input.mode * buf.num_frames : ℤ) < 2 ^ 31) buf.num_frames
      (if s.Converts then .sixteen else s.input.bits) (modeChannels s.input.mode) := by
  unfold convertTo16
  by_cases hconverts : s.Converts
  · rw [if_pos hconverts, if_pos hconverts]
    obtain ⟨mem, num_frames⟩ := buf
    obtain ⟨n, rfl⟩ := Int.eq_ofNat_of_zero_le hbuf.nonneg
    have hbits := hbuf.bits_eq.trans hconverts.1
    cases mem with
    | sixteen samples => exact Bits.noConfusion hbits
    | eight samples =>
      refine (outcome_convert Memory.sixteen (fun _ => rfl) (fun _ => rfl) rfl hbuf.lt rfl
        fun hfit => ?_).congr ⟨fun h _ => h, fun h => h hconverts⟩
      have hcount : ((modeChannels s.input.mode * n : ℕ) : ℤ) < 2 ^ 31 := by
        change (2 * modeChannels s.input.mode * n : ℤ) < 2 ^ 31 at hfit
        have hdouble : (2 * modeChannels s.input.mode * n : ℤ) =
            2 * (modeChannels s.input.mode * n : ℕ) := by
          push_cast
          ring
        omega
      have hsamples : modeChannels s.input.mode * n ≤ samples.length := by
        by_cases hchannels : modeChannels s.input.mode = 0
        · rw [hchannels, Nat.zero_mul]
          exact Nat.zero_le _
        · exact Int.ofNat_le.1 (hbuf.length_eq hchannels).ge
      have hrun := @audioOutResample8to16_some (BitVec.ofInt 32 (modeChannels s.input.mode * n : ℕ))
        samples (by rw [toNat_ofInt_natCast hcount]; exact hsamples)
      rw [toNat_ofInt_natCast hcount] at hrun
      dsimp only
      rw [← Nat.cast_mul, int32_natCast hcount, Option.bind_some]
      exact hrun
  · rw [if_neg hconverts, if_neg hconverts]
    exact (Outcome.same hbuf).congr ⟨fun _ h => absurd h hconverts, fun _ => trivial⟩

theorem resample_nil {input : List Sample} {in_samples out_samples : BitVec 32}
    (hchannels : 0 < channels) : resample channels input in_samples [] out_samples = none := by
  have hstart : ([] : List Sample).length = 0 * channels := (Nat.zero_mul channels).symm
  unfold resample
  split_ifs with htwo
  · rfl
  · rw [Option.bind_eq_none_iff]
    intro mem hloop
    change resampleLoop channels input _ _ _ _ (filled [] 0) = some mem at hloop
    obtain ⟨block, r, hblock, hsize, rfl⟩ := (resampleLoop_iff hchannels hstart).1 hloop
    obtain rfl : r = 0 := by omega
    obtain ⟨n, rfl⟩ : ∃ n, channels = n + 1 := ⟨channels - 1, by omega⟩
    have hnone : block = [] := List.eq_nil_of_length_eq_zero (by rw [hblock.1]; omega)
    subst hnone
    rw [List.range_succ_eq_map, copyLast, Option.bind_eq_none_iff]
    intro s _
    rw [write_length _ _ (Nat.zero_le _)]
    rfl

/-- The numbers of frames that a resampler can do with. -/
def CountsFit (in_frames out_frames : ℤ) : Prop :=
  out_frames = 1 ∧ 1 ≤ in_frames ∨ 3 ≤ out_frames ∧ 2 ≤ in_frames

theorem resamplerOf_cases (mode : Mode) :
    resamplerOf mode = none ∧ modeChannels mode = 0 ∨
      ∃ resampler, resamplerOf mode = some (resampler, 2 * modeChannels mode) ∧
        (modeChannels mode, resampler) ∈ resamplers := by
  cases mode with
  | a52 | ac5 => exact Or.inl ⟨rfl, rfl⟩
  | mono => exact Or.inr ⟨_, rfl, List.mem_cons_self⟩
  | stereo => exact Or.inr ⟨_, rfl, List.mem_cons_of_mem _ List.mem_cons_self⟩
  | fourChannel => exact Or.inr ⟨_, rfl, by simp [resamplers, modeChannels]⟩
  | fourOneChannel | fiveChannel | fiveOneChannel =>
    exact Or.inr ⟨_, rfl, by simp [resamplers, modeChannels]⟩

theorem resample_outcome {input : List Sample} {n m : ℕ} (hchannels : 0 < channels)
    (hle : channels ≤ 6) (hn : (n : ℤ) < 2 ^ 31) (hlength : input.length = channels * n)
    (hfit : (2 * channels * m : ℤ) < 2 ^ 31) :
    (CountsFit n m → ∃ output, resample channels input (BitVec.ofInt 32 n)
        (List.replicate (channels * m) none) (BitVec.ofInt 32 m) = some (filled output 0) ∧
          output.length = channels * m) ∧
      (¬CountsFit n m → resample channels input (BitVec.ofInt 32 n)
        (List.replicate (channels * m) none) (BitVec.ofInt 32 m) = none) := by
  have hsize : ((channels * m : ℕ) : ℤ) * 2 < 2 ^ 31 := by
    push_cast
    rwa [mul_comm, ← mul_assoc]
  have hm : (m : ℤ) < 2 ^ 31 := by
    have hmul : m * 1 ≤ m * channels := Nat.mul_le_mul_left m hchannels
    rw [Nat.mul_comm m channels] at hmul
    omega
  have hpred : channels * (m - 1) ≤ channels * m := Nat.mul_le_mul_left _ (Nat.sub_le m 1)
  have hiff := @resample_some_iff channels input (BitVec.ofInt 32 n) (BitVec.ofInt 32 m) hchannels hle
  rw [toNat_ofInt_natCast hn, toNat_ofInt_natCast hm] at hiff
  have hcounts : CountsFit n m ↔
      m = 1 ∧ 1 ≤ n ∨ 3 ≤ m ∧ 2 ≤ n ∧ channels * (m - 1) ≤ 2 ^ 31 := by
    unfold CountsFit
    omega
  rw [hcounts]
  refine ⟨fun h => (hiff hlength).2 h, fun h => ?_⟩
  rw [Option.eq_none_iff_forall_ne_some]
  intro mem hmem
  -- a resampler that does without fault has written the memory
  have hrun := @resample_iff channels input mem (BitVec.ofInt 32 n) (BitVec.ofInt 32 m) hchannels hle
  rw [toNat_ofInt_natCast hm, filled_nil] at hrun
  obtain ⟨-, hpos, block, last, hblock, hlast, rfl⟩ := hrun.1 hmem
  refine h ((hiff hlength).1 ⟨block ++ last, hmem, ?_⟩)
  rw [List.length_append, hblock.1, hlast.1, ← Nat.mul_succ]
  congr 1
  omega

theorem resampleTo_outcome {samples : List Sample} {n : ℕ} {out : ℤ} (hchannels : 0 < channels)
    (hle : channels ≤ 6) (hn : (n : ℤ) < 2 ^ 31) (hlength : samples.length = channels * n) :
    Outcome ((ensureBufferSize 2 (2 * channels : ℕ) out).bind fun mem =>
        (resample channels samples (BitVec.ofInt 32 n) mem (BitVec.ofInt 32 out)).bind fun mem =>
          (allWritten mem).map fun mem => ⟨.sixteen mem, out⟩)
      (CountsFit n out ∧ (2 * channels * out : ℤ) < 2 ^ 31) out .sixteen channels := by
  have hensure : ∀ m : ℕ, ensureBufferSize 2 (2 * channels : ℕ) m =
      if (2 * channels * m : ℤ) < 2 ^ 31 then
        some (List.replicate (channels * m) (none : Option Sample)) else none :=
    fun m => ensureBufferSize_eq (by decide) (Nat.cast_mul 2 channels)
  constructor
  · rintro ⟨hcounts, hfit⟩
    obtain ⟨m, rfl⟩ := Int.eq_ofNat_of_zero_le (a := out) (by unfold CountsFit at hcounts; omega)
    obtain ⟨output, hrun, houtput⟩ := (resample_outcome hchannels hle hn hlength hfit).1 hcounts
    rw [hensure, if_pos hfit, Option.bind_some, hrun, Option.bind_some, allWritten_filled,
      Option.map_some]
    have hm : (m : ℤ) ≤ (channels * m : ℕ) :=
      Int.ofNat_le.2 (Nat.le_mul_of_pos_left m hchannels)
    have hdouble : (2 * channels * m : ℤ) = 2 * (channels * m : ℕ) := by
      push_cast
      ring
    refine ⟨_, rfl, rfl, Int.natCast_nonneg m, ?_, rfl, fun _ => ?_, hfit⟩
    · dsimp only
      omega
    · dsimp only [Memory.length]
      rw [houtput, Nat.cast_mul]
  · intro hnot
    by_cases hnonneg : 0 ≤ out
    · obtain ⟨m, rfl⟩ := Int.eq_ofNat_of_zero_le hnonneg
      rw [hensure]
      by_cases hfit : (2 * channels * m : ℤ) < 2 ^ 31
      · rw [if_pos hfit, Option.bind_some,
          (resample_outcome hchannels hle hn hlength hfit).2 fun hcounts => hnot ⟨hcounts, hfit⟩]
        rfl
      · rw [if_neg hfit]
        rfl
    · -- the memory for a negative number of frames is empty
      rw [Option.bind_eq_none_iff]
      intro mem hmem
      obtain ⟨size, hsize, rfl⟩ := Option.map_eq_some_iff.1 hmem
      have hneg : size ≤ 0 := by
        unfold int32 at hsize
        split_ifs at hsize
        cases hsize
        exact Int.mul_nonpos_of_nonneg_of_nonpos (Int.natCast_nonneg _) (by omega)
      rw [Int.toNat_of_nonpos hneg, Nat.zero_div, List.replicate_zero, resample_nil hchannels]
      rfl

theorem resampleBuffer_outcome {out : ℤ} (hbuf : buf.Holds bits (modeChannels s.input.mode))
    (hbits : s.resamples = true → bits = .sixteen) :
    Outcome (resampleBuffer s out buf)
      (s.resamples = true → modeChannels s.input.mode ≠ 0 → buf.num_frames ≠ out →
        CountsFit buf.num_frames out ∧ (2 * modeChannels s.input.mode * out : ℤ) < 2 ^ 31)
      (if s.resamples = true ∧ modeChannels s.input.mode ≠ 0 then out else buf.num_frames) bits
      (modeChannels s.input.mode) := by
  unfold resampleBuffer
  by_cases hskip : s.resamples = true ∧ buf.num_frames ≠ out
  · rw [if_pos hskip]
    obtain ⟨hres, hne⟩ := hskip
    obtain ⟨hnone, hzero⟩ | ⟨resampler, hsome, hmem⟩ := resamplerOf_cases s.input.mode
    · rw [hnone, if_neg fun h => h.2 hzero]
      exact (Outcome.same hbuf).congr ⟨fun _ _ h => absurd hzero h, fun _ => trivial⟩
    · obtain ⟨rfl, hchannels, hle⟩ := mem_resamplers hmem
      obtain rfl := hbits hres
      obtain ⟨mem, num_frames⟩ := buf
      obtain ⟨n, rfl⟩ := Int.eq_ofNat_of_zero_le hbuf.nonneg
      rw [hsome, if_pos ⟨hres, hchannels.ne'⟩]
      cases mem with
      | eight samples => exact Bits.noConfusion hbuf.bits_eq
      | sixteen samples =>
        have hlength := Int.ofNat_inj.1 ((hbuf.length_eq hchannels.ne').trans (Nat.cast_mul _ _).symm)
        exact (resampleTo_outcome hchannels hle hbuf.lt hlength).congr
          ⟨fun h _ _ _ => h, fun h => h hres hchannels.ne' hne⟩
  · rw [if_neg hskip]
    by_cases hres : s.resamples = true ∧ modeChannels s.input.mode ≠ 0
    · have heq : buf.num_frames = out := not_not.1 fun hne => hskip ⟨hres.1, hne⟩
      rw [if_pos hres, ← heq]
      exact (Outcome.same hbuf).congr ⟨fun _ _ _ h => absurd rfl h, fun _ => trivial⟩
    · rw [if_neg hres]
      exact (Outcome.same hbuf).congr ⟨fun _ h h' => absurd ⟨h, h'⟩ hres, fun _ => trivial⟩

/-- The formats that `ao_change_settings` sets differ in the mode only between mono and stereo, and in
the bits only if the input has 8 of them. -/
structure Settings.Valid (s : Settings) : Prop where
  mode : s.output.mode = s.input.mode ∨ s.input.mode = .mono ∧ s.output.mode = .stereo ∨
    s.input.mode = .stereo ∧ s.output.mode = .mono
  bits : s.output.bits = .eight → s.input.bits = .eight

theorem aoChangeSettings_valid (driver : Option Capabilities) (bits : Bits) (mode : Mode)
    (do_resample resample_sync_method : Bool) :
    (aoChangeSettings driver bits mode do_resample resample_sync_method).Valid := by
  cases driver with
  | none => exact ⟨Or.inl rfl, id⟩
  | some driver =>
    constructor
    · dsimp only [aoChangeSettings]
      split_ifs with hmono hstereo
      · exact Or.inr (Or.inl ⟨hmono.1, rfl⟩)
      · exact Or.inr (Or.inr ⟨hstereo.1, rfl⟩)
      · exact Or.inl rfl
    · dsimp only [aoChangeSettings]
      split_ifs with hbits
      · exact False.elim
      · exact id

theorem convertMode_outcome (hvalid : s.Valid) (hbuf : buf.Holds bits (modeChannels s.input.mode))
    (hbits : s.input.mode ≠ s.output.mode → bits = .sixteen) :
    Outcome (convertMode s buf)
      (s.input.mode = .mono → s.output.mode = .stereo → (4 * buf.num_frames : ℤ) < 2 ^ 31)
      buf.num_frames bits (modeChannels s.output.mode) := by
  obtain ⟨mem, num_frames⟩ := buf
  obtain ⟨n, rfl⟩ := Int.eq_ofNat_of_zero_le hbuf.nonneg
  unfold convertMode
  obtain hsame | ⟨hmono, hstereo⟩ | ⟨hstereo, hmono⟩ := hvalid.mode
  · have hskip : convertMode s ⟨mem, n⟩ = some ⟨mem, n⟩ := by
      unfold convertMode
      rw [hsame]
      cases s.input.mode <;> rfl
    unfold convertMode at hskip
    rw [hskip, hsame]
    refine (Outcome.same hbuf).congr ⟨fun _ h h' => ?_, fun _ => trivial⟩
    rw [h] at h'
    exact Mode.noConfusion h'
  · obtain rfl := hbits (by rw [hmono, hstereo]; decide)
    rw [hmono] at hbuf
    rw [hmono, hstereo]
    cases mem with
    | eight samples => exact Bits.noConfusion hbuf.bits_eq
    | sixteen samples =>
      have hlength : (samples.length : ℤ) = 1 * n := hbuf.length_eq (by decide)
      refine (@outcome_convert _ 2 _ 2 _ _ Memory.sixteen (fun _ => rfl)
        (fun _ => rfl) rfl hbuf.lt rfl _ fun hfit => ?_).congr ⟨fun h _ _ => h, fun h => h rfl rfl⟩
      have hrun := @audioOutResampleMonotostereo_some (BitVec.ofInt 32 n) samples
        (by rw [toNat_ofInt_natCast hbuf.lt]; omega)
      rwa [toNat_ofInt_natCast hbuf.lt] at hrun
  · obtain rfl := hbits (by rw [hmono, hstereo]; decide)
    rw [hstereo] at hbuf
    rw [hmono, hstereo]
    cases mem with
    | eight samples => exact Bits.noConfusion hbuf.bits_eq
    | sixteen samples =>
      have hlength : (samples.length : ℤ) = 2 * n := hbuf.length_eq (by decide)
      have hfits : (2 * 2 * n : ℤ) < 2 ^ 31 := hbuf.fits
      refine (@outcome_convert _ 1 _ 2 _ _ Memory.sixteen (fun _ => rfl)
        (fun _ => rfl) rfl hbuf.lt rfl _ fun hfit => ?_).congr
          ⟨fun _ h => Mode.noConfusion h, fun _ => ?_⟩
      · have hrun := @audioOutResampleStereotomono_some (BitVec.ofInt 32 n) samples
          (by rw [toNat_ofInt_natCast hbuf.lt]; omega)
        rw [toNat_ofInt_natCast hbuf.lt] at hrun
        rw [Nat.one_mul]
        exact hrun
      · change (2 * 1 * n : ℤ) < 2 ^ 31
        omega

theorem convertTo8_outcome (hbuf : buf.Holds bits (modeChannels s.output.mode))
    (hbits : s.output.bits = .eight → (s.resamples = true ∨ s.input.mode ≠ s.output.mode) →
      bits = .sixteen) :
    ∃ bits', Outcome (convertTo8 s buf) True buf.num_frames bits' (modeChannels s.output.mode) := by
  unfold convertTo8
  by_cases hback : s.output.bits = .eight ∧ (s.resamples = true ∨ s.input.mode ≠ s.output.mode)
  · rw [if_pos hback]
    obtain rfl := hbits hback.1 hback.2
    obtain ⟨mem, num_frames⟩ := buf
    obtain ⟨n, rfl⟩ := Int.eq_ofNat_of_zero_le hbuf.nonneg
    cases mem with
    | eight samples => exact Bits.noConfusion hbuf.bits_eq
    | sixteen samples =>
      have hfits : (2 * modeChannels s.output.mode * n : ℤ) < 2 ^ 31 := hbuf.fits
      have hdouble : (2 * modeChannels s.output.mode * n : ℤ) =
          2 * (modeChannels s.output.mode * n : ℕ) := by
        push_cast
        ring
      have hcount : ((modeChannels s.output.mode * n : ℕ) : ℤ) < 2 ^ 31 := by omega
      refine ⟨.eight, (@outcome_convert _ _ _ 1 _ _ Memory.eight (fun _ => rfl) (fun _ => rfl) rfl
        hbuf.lt rfl _ fun _ => ?_).congr ⟨fun _ => trivial, fun _ => ?_⟩⟩
      · have hsamples : modeChannels s.output.mode * n ≤ samples.length := by
          by_cases hchannels : modeChannels s.output.mode = 0
          · rw [hchannels, Nat.zero_mul]
            exact Nat.zero_le _
          · exact Int.ofNat_le.1 (hbuf.length_eq hchannels).ge
        have hrun := @audioOutResample16to8_some (BitVec.ofInt 32 (modeChannels s.output.mode * n : ℕ))
          samples (by rw [toNat_ofInt_natCast hcount]; exact hsamples)
        rw [toNat_ofInt_natCast hcount] at hrun
        dsimp only
        rw [← Nat.cast_mul, int32_natCast hcount, Option.bind_some]
        exact hrun
      · rw [Nat.cast_one, one_mul, ← Nat.cast_mul]
        exact hcount
  · rw [if_neg hback]
    exact ⟨bits, Outcome.same hbuf⟩

/-- What `prepare_samples` needs of the numbers of input and output frames. -/
structure Fits (s : Settings) (num_frames num_output_frames : ℤ) : Prop where
  to16 : s.Converts → 2 * modeChannels s.input.mode * num_frames < 2 ^ 31
  counts : s.resamples = true → modeChannels s.input.mode ≠ 0 → num_frames ≠ num_output_frames →
    CountsFit num_frames num_output_frames ∧
      2 * modeChannels s.input.mode * num_output_frames < 2 ^ 31
  toStereo : s.input.mode = .mono → s.output.mode = .stereo →
    4 * (if s.resamples = true ∧ modeChannels s.input.mode ≠ 0 then num_output_frames
      else num_frames) < 2 ^ 31

theorem prepareSamples_some_iff (hvalid : s.Valid) (num_output_frames : ℤ)
    (hbuf : buf.Holds s.input.bits (modeChannels s.input.mode)) :
    (∃ buf', prepareSamples s num_output_frames buf = some buf') ↔
      Fits s buf.num_frames num_output_frames := by
  have hresampled : s.resamples = true → (if s.Converts then Bits.sixteen else s.input.bits) = .sixteen := by
    intro hres
    cases hbits : s.input.bits with
    | eight => rw [if_pos ⟨hbits, Or.inl hres⟩]
    | sixteen => exact ite_self _
  have hmode : s.input.mode ≠ s.output.mode →
      (if s.Converts then Bits.sixteen else s.input.bits) = .sixteen := by
    intro hne
    cases hbits : s.input.bits with
    | eight => rw [if_pos ⟨hbits, Or.inr (Or.inr hne)⟩]
    | sixteen => exact ite_self _
  -- the conversion back to 8 bits comes after another one
  have hto8 : ∀ b (hb : b.Holds (if s.Converts then Bits.sixteen else s.input.bits)
      (modeChannels s.output.mode)), ∃ bits',
        Outcome (convertTo8 s b) True b.num_frames bits' (modeChannels s.output.mode) := fun b hb =>
    convertTo8_outcome hb fun _ hconvert => hconvert.elim hresampled hmode
  have h16 := convertTo16_outcome hbuf
  constructor
  · rintro ⟨buf', h⟩
    obtain ⟨b₁, h₁, h⟩ := Option.bind_eq_some_iff.1 h
    obtain ⟨b₂, h₂, h⟩ := Option.bind_eq_some_iff.1 h
    obtain ⟨b₃, h₃, -⟩ := Option.bind_eq_some_iff.1 h
    -- the condition of each conversion that has been done
    have hc₁ := not_not.1 fun hnot => absurd (h16.failed hnot) (by rw [h₁]; exact Option.some_ne_none _)
    obtain ⟨b, hb, hframes₁, hholds₁⟩ := h16.done hc₁
    obtain rfl : b₁ = b := Option.some.inj (h₁.symm.trans hb)
    have hresample := @resampleBuffer_outcome _ _ _ num_output_frames hholds₁ hresampled
    have hc₂ := not_not.1 fun hnot =>
      absurd (hresample.failed hnot) (by rw [h₂]; exact Option.some_ne_none _)
    obtain ⟨b, hb, hframes₂, hholds₂⟩ := hresample.done hc₂
    obtain rfl : b₂ = b := Option.some.inj (h₂.symm.trans hb)
    have hc₃ := not_not.1 fun hnot => absurd ((convertMode_outcome hvalid hholds₂ hmode).failed hnot)
      (by rw [h₃]; exact Option.some_ne_none _)
    rw [hframes₁] at hc₂ hframes₂
    rw [hframes₂] at hc₃
    exact ⟨hc₁, hc₂, hc₃⟩
  · rintro ⟨hc₁, hc₂, hc₃⟩
    obtain ⟨b₁, h₁, hframes₁, hholds₁⟩ := h16.done hc₁
    rw [← hframes₁] at hc₂ hc₃
    obtain ⟨b₂, h₂, hframes₂, hholds₂⟩ := (resampleBuffer_outcome hholds₁ hresampled).done hc₂
    rw [← hframes₂] at hc₃
    obtain ⟨b₃, h₃, -, hholds₃⟩ := (convertMode_outcome hvalid hholds₂ hmode).done hc₃
    obtain ⟨bits', h8⟩ := hto8 b₃ hholds₃
    obtain ⟨b₄, h₄, -⟩ := h8.done trivial
    refine ⟨b₄, ?_⟩
    unfold prepareSamples
    rw [h₁, Option.bind_some, h₂, Option.bind_some, h₃, Option.bind_some, h₄]

/-- With the formats that `ao_change_settings` sets, `prepare_samples` converts a buffer without fault
exactly if the numbers of frames fit, and likewise each resampler. -/
theorem prepareSamples_faultless_iff (driver : Option Capabilities) (bits : Bits) (mode : Mode)
    (do_resample resample_sync_method : Bool) (num_output_frames : ℤ)
    (hbuf : buf.Holds bits (modeChannels mode)) :
    ((∃ buf', prepareSamples (aoChangeSettings driver bits mode do_resample resample_sync_method)
        num_output_frames buf = some buf') ↔
      Fits (aoChangeSettings driver bits mode do_resample resample_sync_method) buf.num_frames
        num_output_frames) ∧
    ∀ channels resampler, (channels, resampler) ∈ resamplers →
      ∀ (input : List Sample) (in_samples out_samples : BitVec 32),
        input.length = channels * in_samples.toNat →
        ((∃ output : List Sample, resampler input in_samples
            (List.replicate (channels * out_samples.toNat) none) out_samples =
              some (output.map some) ∧ output.length = channels * out_samples.toNat) ↔
          out_samples.toNat = 1 ∧ 1 ≤ in_samples.toNat ∨
            3 ≤ out_samples.toNat ∧ 2 ≤ in_samples.toNat ∧
              channels * (out_samples.toNat - 1) ≤ 2 ^ 31) := by
  constructor
  · exact prepareSamples_some_iff (aoChangeSettings_valid _ _ _ _ _) num_output_frames hbuf
  · intro channels resampler hresampler input in_samples out_samples hlength
    obtain ⟨rfl, hchannels, hle⟩ := mem_resamplers hresampler
    simp only [← filled_zero]
    exact resample_some_iff hchannels hle hlength

/-- A buffer of three mono frames. -/
def threeFrames : AudioBuffer := ⟨.sixteen [1, 2, 3], 3⟩

theorem threeFrames_holds : threeFrames.Holds .sixteen 1 :=
  ⟨by decide, by decide, rfl, fun _ => rfl, by decide⟩

/-- It is resampled to four frames. -/
theorem prepareSamples_faultless_iff_threeFrames :
    (∃ buf', prepareSamples (aoChangeSettings none .sixteen .mono true false) 4 threeFrames =
        some buf') ∧
      Fits (aoChangeSettings none .sixteen .mono true false) 3 4 := by
  have hfits : Fits (aoChangeSettings none .sixteen .mono true false) 3 4 :=
    ⟨fun h => Bits.noConfusion h.1, fun _ _ _ => ⟨Or.inr (by decide), by decide⟩,
      fun _ h => Mode.noConfusion h⟩
  exact ⟨(prepareSamples_faultless_iff none .sixteen .mono true false 4 threeFrames_holds).1.2 hfits,
    hfits⟩

/-- For two output frames it divides by zero. -/
theorem prepareSamples_divides_by_zero :
    prepareSamples (aoChangeSettings none .sixteen .mono true false) 2 threeFrames = none :=
  rfl

/-! ## The same format -/

theorem loop_map {α β : Type} (f : α → β) (input : List α) :
    loop (fun i out => input[i]?.bind fun x => write out i (f x)) input.length 0 (List.replicate input.length none) =
      some (filled (input.map f) 0) := by
  -- the rounds over what is left of the input
  have hrounds : ∀ rest done w, input = done ++ rest → w = done.map f →
      loop (fun i out => input[i]?.bind fun x => write out i (f x)) rest.length done.length (filled w rest.length) =
        some (filled (w ++ rest.map f) 0) := by
    intro rest
    induction rest with
    | nil =>
      intro done w _ _
      rw [List.map_nil, List.append_nil]
      rfl
    | cons x rest ih =>
      rintro done _ hinput rfl
      have hread : input[done.length]? = some x := by
        rw [hinput, List.getElem?_append_right (Nat.le_refl _), Nat.sub_self, List.getElem?_cons_zero]
      have hnext := ih (done ++ [x]) (done.map f ++ [f x]) (by rw [hinput, List.append_assoc]; rfl)
        (by rw [List.map_append]; rfl)
      rw [List.length_append, List.append_assoc] at hnext
      rw [List.length_cons, loop, hread, Option.bind_some, write_filled (List.length_map _).symm, Option.bind_some]
      exact hnext
  exact hrounds input [] [] rfl rfl

theorem convert_map {α β : Type} {bytes n : ℕ} {bytes_per_frame : ℤ} {input : List α} (mk : List β → Memory) (f : α → β)
    (hbytes : 0 < bytes) (hframe : bytes_per_frame = bytes * channels) (hlength : input.length = channels * n)
    (hfit : (bytes * channels * n : ℤ) < 2 ^ 31) :
    ((ensureBufferSize bytes bytes_per_frame n).bind fun out =>
      ((int32 (channels * n)).bind fun count => loop (fun i out => input[i]?.bind fun x => write out i (f x))
        (BitVec.ofInt 32 count).toNat 0 out).bind fun out => (allWritten out).map fun out =>
          (⟨mk out, n⟩ : AudioBuffer)) = some ⟨mk (input.map f), n⟩ := by
  have hcount : ((channels * n : ℕ) : ℤ) < 2 ^ 31 := by
    have hle : channels * n ≤ bytes * channels * n := by
      rw [Nat.mul_assoc]
      exact Nat.le_mul_of_pos_left _ hbytes
    exact lt_of_le_of_lt (by exact_mod_cast hle) hfit
  rw [ensureBufferSize_eq hbytes hframe, if_pos hfit, Option.bind_some, ← Nat.cast_mul, int32_natCast hcount,
    Option.bind_some, toNat_ofInt_natCast hcount, ← hlength, loop_map, Option.bind_some, allWritten_filled, Option.map_some]

/-- A buffer whose format the driver takes, and whose frames are not to become more or less, stays as it is, also when it is
converted to 16 bits and back. -/
theorem prepareSamples_same (hformat : s.output = s.input) (hchannels : modeChannels s.input.mode ≠ 0)
    (hbuf : buf.Holds s.input.bits (modeChannels s.input.mode))
    (hfit : 2 * modeChannels s.input.mode * buf.num_frames < 2 ^ 31) :
    prepareSamples s buf.num_frames buf = some buf := by
  obtain ⟨mem, num_frames⟩ := buf
  obtain ⟨n, rfl⟩ := Int.eq_ofNat_of_zero_le hbuf.nonneg
  have hresample : ∀ mem, resampleBuffer s n ⟨mem, n⟩ = some ⟨mem, n⟩ := fun mem => if_neg fun h => h.2 rfl
  have hmode : ∀ buf, convertMode s buf = some buf := fun buf => by
    unfold convertMode
    rw [hformat]
    cases s.input.mode <;> rfl
  have hconverts : s.Converts ↔ s.input.bits = .eight ∧ s.resamples = true := by
    unfold Settings.Converts
    rw [hformat]
    refine and_congr_right fun hbits => or_iff_left ?_
    rintro (hne | hne)
    · exact hne hbits
    · exact hne rfl
  unfold prepareSamples
  by_cases h : s.Converts
  · obtain ⟨hbits, hresamples⟩ := hconverts.1 h
    cases mem with
    | sixteen samples => exact absurd (hbuf.bits_eq.trans hbits) Bits.noConfusion
    | eight samples =>
      have hlength : samples.length = modeChannels s.input.mode * n := Int.ofNat.inj (hbuf.length_eq hchannels)
      have hup : convertTo16 s ⟨.eight samples, n⟩ =
          some ⟨.sixteen (samples.map fun os : BitVec 8 => (os.signExtend 16 - 0x80) <<< 8), n⟩ := by
        unfold convertTo16 audioOutResample8to16
        rw [if_pos h]
        exact convert_map Memory.sixteen _ Nat.two_pos rfl hlength hfit
      have hback : ∀ os : BitVec 8, (((os.signExtend 16 - 0x80) <<< 8).sshiftRight 8 + 0x80).setWidth 8 = os := by decide
      have hdown : convertTo8 s ⟨.sixteen (samples.map fun os : BitVec 8 => (os.signExtend 16 - 0x80) <<< 8), n⟩ =
          some ⟨.eight samples, n⟩ := by
        unfold convertTo8 audioOutResample16to8
        rw [hformat, if_pos ⟨hbits, .inl hresamples⟩]
        refine (convert_map Memory.eight _ Nat.one_pos rfl ((List.length_map _).trans hlength) ?_).trans ?_
        · have hfits := hbuf.fits
          rwa [hbits] at hfits
        · simp only [List.map_map, Function.comp_def, hback, List.map_id']
      rw [hup, Option.bind_some, hresample, Option.bind_some, hmode, Option.bind_some, hdown]
  · unfold convertTo16 convertTo8
    rw [if_neg h, Option.bind_some, hresample, Option.bind_some, hmode, Option.bind_some, if_neg]
    rw [hformat]
    simpa [hconverts] using h

/-- Three frames of 8 bits, which are converted to 16 bits and back. -/
theorem prepareSamples_same_eight :
    prepareSamples (aoChangeSettings none .eight .mono true false) 3 ⟨.eight [1, 2, 255], 3⟩ =
      some ⟨.eight [1, 2, 255], 3⟩ :=
  @prepareSamples_same ⟨.eight [1, 2, 255], 3⟩ _ rfl (by decide) ⟨by decide, by decide, rfl, fun _ => rfl, by decide⟩
    (by decide)

end Xine.Resample
