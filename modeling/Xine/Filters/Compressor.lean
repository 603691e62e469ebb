import Mathlib.Tactic.Linarith
import Mathlib.Tactic.Positivity
import Xine.Library.Runs
import Xine.Resample.Prepare

/-!
# The compressor

`audio_filter_compress` of `audio_out.c` makes quiet audio louder, with a factor that follows the
peaks of the buffers and that a property of the port limits; it also applies the amplification that another
property sets. The factors are exact rationals here, and a function is `none` where a scaled sample is not the
value of an `int16_t`.
-/

namespace Xine.Filters

open Xine.Resample Runs

/-- `int16_t sample = abs(mem[i])`. -/
def absSample (x : Sample) : ℤ := (BitVec.ofInt 16 x.toInt.natAbs).toInt

/-- The loop that measures the peak of the samples, from a value of `maxs` on. -/
def measure : List Sample → ℤ → ℤ
  | [], maxs => maxs
  | x :: xs, maxs => measure xs (if absSample x > maxs then absSample x else maxs)

/-- The conversion of a number to `int16_t`, which rounds towards zero. -/
def toInt16 (v : ℚ) : Option Sample :=
  let n := v.num.tdiv v.den
  if -32768 ≤ n ∧ n ≤ 32767 then some (BitVec.ofInt 16 n) else none

/-- The fields of the port that the compressor uses. -/
structure Compressor where
  compression_factor : ℚ
  compression_factor_max : ℚ
  do_compress : Bool
  amp_factor : ℚ

namespace Compressor

/-- The compressor as it is set up. -/
def start : Compressor := ⟨2, 0, false, 1⟩

/-- The factor for a buffer with a peak. -/
def adapt (c : Compressor) (maxs : ℤ) : ℚ :=
  if maxs > 0 then
    let f_max : ℚ := 32767 / maxs
    let factor := c.compression_factor * 0.999 + f_max * 0.001
    let factor := if factor > f_max then f_max else factor
    if factor > c.compression_factor_max then c.compression_factor_max else factor
  else c.compression_factor

/-- The loop that scales the samples. -/
def scale (factor amp_factor : ℚ) : List Sample → Option (List Sample)
  | [] => some []
  | x :: xs => (toInt16 (x.toInt * 0.98 * factor * amp_factor)).bind fun y =>
      (scale factor amp_factor xs).map fun ys => y :: ys

/-- `audio_filter_compress`, for the samples of a buffer. -/
def audioFilterCompress (c : Compressor) (mode : Mode) (mem : List Sample) :
    Option (Compressor × List Sample) :=
  if modeChannels mode = 0 then some (c, mem)
  else
    let factor := c.adapt (measure mem 0)
    (scale factor c.amp_factor mem).map fun mem => ({ c with compression_factor := factor }, mem)

end Compressor

/-- What is done with the compressor: `ao_set_property` of `AO_PROP_COMPRESSOR` and of `AO_PROP_AMP`, and
`prepare_samples` of a buffer with samples of 16 bits. -/
inductive CompressorCall where
  | compressor (value : ℤ)
  | amp (value : ℤ)
  | prepare (mode : Mode) (mem : List Sample)

/-- One call. -/
def compressorStep (c : Compressor) : CompressorCall → Option Compressor
  | .compressor value => some
      { c with
        compression_factor_max := value / 100
        do_compress := decide ((value : ℚ) / 100 > 1) }
  | .amp value => some { c with amp_factor := value / 100 }
  | .prepare mode mem =>
    if c.do_compress then (c.audioFilterCompress mode mem).map Prod.fst else some c

/-! ## The peak -/

theorem absSample_eq {x : Sample} (hx : x ≠ -32768) : absSample x = |x.toInt| := by
  have hlt := x.toInt_lt
  have hle := x.le_toInt
  have hne : x.toInt ≠ -32768 := fun h => hx (BitVec.eq_of_toInt_eq (h.trans rfl))
  unfold absSample
  rw [Int.natCast_natAbs]
  apply BitVec.toInt_ofInt_eq_self (by decide)
  · exact le_trans (by decide) (abs_nonneg _)
  · rcases abs_cases x.toInt with ⟨h, -⟩ | ⟨h, -⟩ <;> rw [h] <;> omega

theorem absSample_le (x : Sample) : absSample x ≤ 32767 := by
  have hlt := (BitVec.ofInt 16 x.toInt.natAbs).toInt_lt
  unfold absSample
  omega

theorem le_measure (mem : List Sample) (maxs : ℤ) :
    maxs ≤ measure mem maxs ∧ ∀ x ∈ mem, absSample x ≤ measure mem maxs := by
  induction mem generalizing maxs with
  | nil => exact ⟨le_refl _, fun x hx => absurd hx List.not_mem_nil⟩
  | cons x xs ih =>
    obtain ⟨hmaxs, hall⟩ := ih (if absSample x > maxs then absSample x else maxs)
    have hboth : maxs ≤ (if absSample x > maxs then absSample x else maxs) ∧
        absSample x ≤ if absSample x > maxs then absSample x else maxs := by
      split_ifs <;> omega
    refine ⟨hboth.1.trans hmaxs, fun y hy => ?_⟩
    rcases List.mem_cons.1 hy with rfl | hy
    · exact hboth.2.trans hmaxs
    · exact hall y hy

theorem measure_le (mem : List Sample) {maxs : ℤ} (h : maxs ≤ 32767) : measure mem maxs ≤ 32767 := by
  induction mem generalizing maxs with
  | nil => exact h
  | cons x xs ih =>
    apply ih
    have hx := absSample_le x
    split_ifs <;> omega

theorem le_measure_iff {mem : List Sample} :
    (∀ x ∈ mem, |x.toInt| ≤ measure mem 0) ↔ (-32768 : Sample) ∉ mem := by
  constructor
  · intro h hmem
    have hpeak : |(-32768 : Sample).toInt| ≤ measure mem 0 := h _ hmem
    have hle := measure_le mem (by decide : (0 : ℤ) ≤ 32767)
    exact absurd (hpeak.trans hle) (by decide)
  · intro hmem x hx
    rw [← absSample_eq fun h => hmem (h ▸ hx)]
    exact (le_measure mem 0).2 x hx

/-! ## The scaled samples -/

theorem toInt16_some {v : ℚ} (h : |v| ≤ 32767) : ∃ y, toInt16 v = some y := by
  have hnum : |(v.num : ℚ)| ≤ 32767 * v.den := by
    rw [← Rat.mul_den_eq_num, abs_mul, Nat.abs_cast]
    exact mul_le_mul_of_nonneg_right h (Nat.cast_nonneg _)
  have habs : v.num.natAbs ≤ 32767 * v.den := by
    have hcast : ((v.num.natAbs : ℕ) : ℚ) = |(v.num : ℚ)| := by
      rw [Nat.cast_natAbs, Int.cast_abs]
    exact_mod_cast hcast.le.trans hnum
  -- the conversion makes the magnitude no greater
  have htdiv : (v.num.tdiv v.den).natAbs ≤ 32767 := by
    rw [Int.natAbs_tdiv, Int.natAbs_natCast]
    exact Nat.div_le_of_le_mul (by rw [Nat.mul_comm]; exact habs)
  unfold toInt16
  exact ⟨_, if_pos (by omega)⟩

theorem toInt16_none {v : ℚ} (h : 32769 ≤ |v|) : toInt16 v = none := by
  have hnum : (32769 : ℚ) * v.den ≤ |(v.num : ℚ)| := by
    rw [← Rat.mul_den_eq_num, abs_mul, Nat.abs_cast]
    exact mul_le_mul_of_nonneg_right h (Nat.cast_nonneg _)
  have habs : 32769 * v.den ≤ v.num.natAbs := by
    have hcast : ((v.num.natAbs : ℕ) : ℚ) = |(v.num : ℚ)| := by
      rw [Nat.cast_natAbs, Int.cast_abs]
    exact_mod_cast hnum.trans hcast.ge
  have htdiv : 32769 ≤ (v.num.tdiv v.den).natAbs := by
    rw [Int.natAbs_tdiv, Int.natAbs_natCast]
    exact (Nat.le_div_iff_mul_le v.den_pos).2 habs
  unfold toInt16
  exact if_neg (by omega)

namespace Compressor

theorem scale_some {factor amp_factor : ℚ} {mem : List Sample}
    (h : ∀ x ∈ mem, |(x.toInt : ℚ) * 0.98 * factor * amp_factor| ≤ 32767) :
    ∃ ys, scale factor amp_factor mem = some ys := by
  induction mem with
  | nil => exact ⟨[], rfl⟩
  | cons x xs ih =>
    obtain ⟨y, hy⟩ := toInt16_some (h x List.mem_cons_self)
    obtain ⟨ys, hys⟩ := ih fun x hx => h x (List.mem_cons_of_mem _ hx)
    exact ⟨y :: ys, by rw [scale, hy, Option.bind_some, hys, Option.map_some]⟩

/-- What the settings and the buffers before keep: the factor is no number below zero, and neither is the
limit of a compressor that is turned on. -/
structure Sound (c : Compressor) : Prop where
  factor : 0 ≤ c.compression_factor
  limit : c.do_compress = true → 0 ≤ c.compression_factor_max

theorem sound_start : start.Sound := ⟨by decide, fun h => absurd h Bool.false_ne_true⟩

theorem adapt_bounds {c : Compressor} (hfactor : 0 ≤ c.compression_factor)
    (hlimit : 0 ≤ c.compression_factor_max) (maxs : ℤ) :
    0 ≤ c.adapt maxs ∧ (0 < maxs → maxs * c.adapt maxs ≤ 32767) := by
  unfold adapt
  by_cases hmaxs : maxs > 0
  · have hpos : (0 : ℚ) < maxs := by exact_mod_cast hmaxs
    have hmax : (0 : ℚ) ≤ 32767 / maxs := by positivity
    have hpeak : ∀ f : ℚ, f ≤ 32767 / maxs → maxs * f ≤ 32767 := fun f hf => by
      rw [mul_comm]
      exact (le_div_iff₀ hpos).1 hf
    simp only [if_pos hmaxs]
    -- the factor that follows the peaks, cut to the one that the peak allows
    have hsmooth : 0 ≤ c.compression_factor * 0.999 + 32767 / (maxs : ℚ) * 0.001 := by positivity
    have hcut : 0 ≤ (if c.compression_factor * 0.999 + 32767 / (maxs : ℚ) * 0.001 > 32767 / maxs then
        32767 / (maxs : ℚ) else c.compression_factor * 0.999 + 32767 / (maxs : ℚ) * 0.001) ∧
        (if c.compression_factor * 0.999 + 32767 / (maxs : ℚ) * 0.001 > 32767 / maxs then
          32767 / (maxs : ℚ) else c.compression_factor * 0.999 + 32767 / (maxs : ℚ) * 0.001) ≤
            32767 / maxs := by
      split_ifs with hgt
      · exact ⟨hmax, le_refl _⟩
      · exact ⟨hsmooth, not_lt.1 hgt⟩
    split_ifs at hcut ⊢ with hgt hlim hlim
    · exact ⟨hlimit, fun _ => hpeak _ (hlim.le.trans hcut.2)⟩
    · exact ⟨hcut.1, fun _ => hpeak _ hcut.2⟩
    · exact ⟨hlimit, fun _ => hpeak _ (hlim.le.trans hcut.2)⟩
    · exact ⟨hcut.1, fun _ => hpeak _ hcut.2⟩
  · rw [if_neg hmaxs]
    exact ⟨hfactor, fun h => absurd h hmaxs⟩

theorem scaled_le {x factor amp_factor maxs : ℚ} (hx : |x| ≤ maxs) (hfactor : 0 ≤ factor)
    (hpeak : maxs * factor ≤ 32767) (hamp : |amp_factor| ≤ 1.02) :
    |x * 0.98 * factor * amp_factor| ≤ 32767 := by
  have hxf : |x| * factor ≤ 32767 := (mul_le_mul_of_nonneg_right hx hfactor).trans hpeak
  have hroom : 0.98 * |amp_factor| ≤ 1 := by linarith
  calc |x * 0.98 * factor * amp_factor| = |x| * factor * (0.98 * |amp_factor|) := by
        rw [abs_mul, abs_mul, abs_mul, abs_of_nonneg hfactor, abs_of_pos (by norm_num : (0 : ℚ) < 0.98)]
        ring
    _ ≤ |x| * factor * 1 :=
        mul_le_mul_of_nonneg_left hroom (mul_nonneg (abs_nonneg x) hfactor)
    _ ≤ 32767 := by rw [mul_one]; exact hxf

theorem compress_some {c : Compressor} (hc : c.Sound) (hlimit : 0 ≤ c.compression_factor_max) {mode : Mode}
    {mem : List Sample} (hroomy : modeChannels mode ≠ 0 →
      (∀ x ∈ mem, |x.toInt| ≤ measure mem 0) ∧ |c.amp_factor| ≤ 1.02) :
    ∃ r, c.audioFilterCompress mode mem = some r ∧ r.1.Sound := by
  unfold audioFilterCompress
  by_cases hzero : modeChannels mode = 0
  · exact ⟨_, if_pos hzero, hc⟩
  · obtain ⟨hmem, hamp⟩ := hroomy hzero
    obtain ⟨hnonneg, hpeak⟩ := adapt_bounds hc.factor hlimit (measure mem 0)
    have hscaled : ∀ x ∈ mem,
        |(x.toInt : ℚ) * 0.98 * c.adapt (measure mem 0) * c.amp_factor| ≤ 32767 := by
      intro x hx
      have hle : |(x.toInt : ℚ)| ≤ measure mem 0 := by exact_mod_cast hmem x hx
      rcases (le_measure mem 0).1.lt_or_eq with hpos | hsilent
      · exact scaled_le hle hnonneg (hpeak hpos) hamp
      · -- all samples are zero
        rw [← hsilent, Int.cast_zero] at hle
        have hx0 : (x.toInt : ℚ) = 0 := abs_eq_zero.1 (le_antisymm hle (abs_nonneg _))
        rw [hx0, zero_mul, zero_mul, zero_mul, abs_zero]
        norm_num
    obtain ⟨ys, hys⟩ := scale_some hscaled
    refine ⟨({ c with compression_factor := c.adapt (measure mem 0) }, ys), ?_,
      ⟨hnonneg, hc.limit⟩⟩
    simp only [if_neg hzero, hys, Option.map_some]

end Compressor

/-! ## Runs -/

/-- A buffer that is compressed does without the sample -32768, and the amplification is two percent at
most. -/
def Roomy (c : Compressor) : CompressorCall → Prop
  | .compressor _ | .amp _ => True
  | .prepare mode mem => c.do_compress = true → modeChannels mode ≠ 0 →
      (-32768 : Sample) ∉ mem ∧ |c.amp_factor| ≤ 1.02

instance instDecidableRoomy (c : Compressor) : ∀ call, Decidable (Roomy c call)
  | .compressor _ | .amp _ => isTrue trivial
  | .prepare mode mem => inferInstanceAs (Decidable (c.do_compress = true → modeChannels mode ≠ 0 →
      (-32768 : Sample) ∉ mem ∧ |c.amp_factor| ≤ 1.02))

/-- The peak of a buffer that is compressed is at least the magnitude of each sample, and each scaled
sample is in the range of the samples. -/
def Unclipped (c : Compressor) : CompressorCall → Prop
  | .compressor _ | .amp _ => True
  | .prepare mode mem => c.do_compress = true → modeChannels mode ≠ 0 →
      (∀ x ∈ mem, |x.toInt| ≤ measure mem 0) ∧ ∃ r, c.audioFilterCompress mode mem = some r

theorem compressorStep_sound {c : Compressor} {call : CompressorCall} (hc : c.Sound)
    (hroomy : Roomy c call) : ∃ c', compressorStep c call = some c' ∧ c'.Sound := by
  cases call with
  | compressor value =>
    refine ⟨_, rfl, hc.factor, fun h => ?_⟩
    have hone : (value : ℚ) / 100 > 1 := of_decide_eq_true h
    exact zero_le_one.trans hone.le
  | amp value => exact ⟨_, rfl, hc.factor, hc.limit⟩
  | prepare mode mem =>
    rw [compressorStep]
    split_ifs with hcompress
    · obtain ⟨r, hr, hsound⟩ := @Compressor.compress_some c hc (hc.limit hcompress) mode mem
        fun hchannels => ⟨le_measure_iff.2 (hroomy hcompress hchannels).1, (hroomy hcompress hchannels).2⟩
      exact ⟨r.1, by rw [hr, Option.map_some], hsound⟩
    · exact ⟨c, rfl, hc⟩

theorem unclipped_of_roomy {c : Compressor} {call : CompressorCall} (hc : c.Sound) (hroomy : Roomy c call) :
    Unclipped c call := by
  cases call with
  | compressor value => trivial
  | amp value => trivial
  | prepare mode mem =>
    intro hcompress hchannels
    obtain ⟨hmem, hamp⟩ := hroomy hcompress hchannels
    have hpeak := le_measure_iff.2 hmem
    obtain ⟨r, hr, -⟩ := @Compressor.compress_some c hc (hc.limit hcompress) mode mem
      fun _ => ⟨hpeak, hamp⟩
    exact ⟨hpeak, r, hr⟩

theorem compress_clips {value : ℤ} (hvalue : 102 < |value|) :
    run compressorStep Compressor.start [.compressor 200, .amp value, .prepare .mono [32767]] = none := by
  have hfactor : (⟨2, 200 / 100, true, value / 100⟩ : Compressor).adapt 32767 = 1 := by
    unfold Compressor.adapt
    norm_num
  have hamp : (103 : ℚ) ≤ |(value : ℚ)| := by exact_mod_cast hvalue
  have hlarge : 32769 ≤ |(32767 : ℤ) * 0.98 * 1 * ((value : ℚ) / 100)| := by
    have heq : (32767 : ℤ) * 0.98 * 1 * ((value : ℚ) / 100) = 321.1166 * value := by
      push_cast
      ring
    rw [heq, abs_mul, abs_of_pos (by norm_num : (0 : ℚ) < 321.1166)]
    linarith
  have hclip : (⟨2, 200 / 100, true, value / 100⟩ : Compressor).audioFilterCompress .mono [32767] = none := by
    have hscale : Compressor.scale 1 (value / 100) [32767] = none := by
      rw [Compressor.scale, show (32767 : Sample).toInt = 32767 by decide, toInt16_none hlarge]
      rfl
    unfold Compressor.audioFilterCompress
    simp only [show modeChannels .mono ≠ 0 by decide, if_false, show measure [32767] 0 = 32767 by decide,
      hfactor, hscale, Option.map_none]
  have hon : decide (((200 : ℤ) : ℚ) / 100 > 1) = true := by norm_num
  simp only [run, compressorStep, Compressor.start, Option.bind_some, hon, if_true]
  rw [show ((200 : ℤ) : ℚ) = 200 from rfl, hclip]
  rfl

/-- Before each call of a run of roomy calls the compressor has been reached, and the call does not clip.
The conditions are needed: where -32768 occurs the peak is too small, and more amplification clips. -/
theorem compress_run (calls : List CompressorCall) :
    (Guarded compressorStep Roomy Compressor.start calls → ∀ before call after,
      calls = before ++ call :: after → ∃ c, run compressorStep Compressor.start before = some c ∧
        Unclipped c call) ∧
    (∀ mem : List Sample, (-32768 : Sample) ∈ mem → ∃ x ∈ mem, measure mem 0 < |x.toInt|) ∧
    ∀ value : ℤ, 102 < |value| → run compressorStep Compressor.start
      [.compressor 200, .amp value, .prepare .mono [32767]] = none := by
  refine ⟨?_, fun mem hmem => ?_, fun value hvalue => ?_⟩
  · rintro hok before call after rfl
    exact guarded_calls (fun c call => compressorStep_sound) (fun c call => unclipped_of_roomy)
      Compressor.sound_start hok
  · have hnot := mt le_measure_iff.1 (not_not.2 hmem)
    simpa only [not_forall, not_le, exists_prop] using hnot
  · exact compress_clips hvalue

/-- A loud buffer after a quiet one, with the limit at two and the amplification at its greatest. -/
theorem compress_run_loud :
    ∃ c, run compressorStep Compressor.start
        [.compressor 200, .amp 102, .prepare .mono [100, -50]] = some c ∧
      Unclipped c (.prepare .mono [32767, -32767]) :=
  (compress_run [.compressor 200, .amp 102, .prepare .mono [100, -50],
    .prepare .mono [32767, -32767]]).1 (by decide +kernel)
    [.compressor 200, .amp 102, .prepare .mono [100, -50]] _ [] rfl

/-- A buffer that holds -32768 alone has no peak, and clips. -/
theorem compress_minimum :
    measure [-32768] 0 < |(-32768 : Sample).toInt| ∧
      run compressorStep Compressor.start [.compressor 200, .prepare .mono [-32768]] = none := by
  refine ⟨by decide, ?_⟩
  apply Option.isNone_iff_eq_none.1
  decide +kernel

end Xine.Filters
