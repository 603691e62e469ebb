import Mathlib.Data.Fin.VecNotation
import Xine.Resample.Prepare

/-!
# The equalizer

`audio_filter_equalize` of `audio_out.c`, which filters the samples of a buffer in place, with a
history of its own for each channel.

Values of type `int` and `int64_t` wrap around in the filter. A function is `none` where it accesses a sample
outside of the memory or a history that does not exist, or computes a length that overflows.
-/

namespace Xine.Filters

open Xine.Resample

/-! ## The filter of one sample -/

/-- `EQ_REAL`, of the decimal `m / 10 ^ e`: a fixed point number with `FP_FRBITS` fraction bits. -/
def eqReal (m : ℤ) (e : ℕ) : ℤ := (m * 2 ^ 28).tdiv (10 ^ e)

/-- `sIIRCoefficients`. -/
structure IIRCoefficients where
  beta : ℤ
  alpha : ℤ
  gamma : ℤ

def iirCf : Fin 10 → IIRCoefficients := ![
  ⟨eqReal 99691562441 11, eqReal 15421877947 13, eqReal 19968961468 10⟩,
  ⟨eqReal 99384077546 11, eqReal 30796122698 13, eqReal 19937629855 10⟩,
  ⟨eqReal 98774277725 11, eqReal 61286113769 13, eqReal 19874275518 10⟩,
  ⟨eqReal 97522112569 11, eqReal 12389437156 12, eqReal 19739682661 10⟩,
  ⟨eqReal 95105628526 11, eqReal 24471857368 12, eqReal 19461077269 10⟩,
  ⟨eqReal 90450844499 11, eqReal 47745777504 12, eqReal 18852109613 10⟩,
  ⟨eqReal 81778971701 11, eqReal 91105141497 12, eqReal 17444877599 10⟩,
  ⟨eqReal 66857185264 11, eqReal 16571407368 11, eqReal 14048592171 10⟩,
  ⟨eqReal 44861333678 11, eqReal 27569333161 11, eqReal 60518718075 11⟩,
  ⟨eqReal 24201241845 11, eqReal 37899379077 11, eqReal (-80847117831) 11⟩]

/-- `sXYData`, the history of a filter. -/
structure XYData where
  x : Fin 3 → BitVec 32
  y : Fin 3 → BitVec 32

/-- The places in a history of the current values and of those one and two frames before. Exactly one of
them starts again in a round. -/
structure Places where
  eq_i : ℕ
  eq_j : ℕ
  eq_k : ℕ
  valid : eq_i < 3 ∧ eq_j = (eq_i + 2) % 3 ∧ eq_k = (eq_i + 1) % 3

namespace Places

def i (p : Places) : Fin 3 := ⟨p.eq_i, p.valid.1⟩

def j (p : Places) : Fin 3 := ⟨p.eq_j, by have h := p.valid; omega⟩

def k (p : Places) : Fin 3 := ⟨p.eq_k, by have h := p.valid; omega⟩

/-- The places as they are set up. -/
def start : Places := ⟨0, 2, 1, by decide⟩

/-- The places for the next frame. -/
def next (p : Places) : Places :=
  if hi : p.eq_i + 1 = 3 then ⟨0, p.eq_j + 1, p.eq_k + 1, by have h := p.valid; omega⟩
  else if hj : p.eq_j + 1 = 3 then ⟨p.eq_i + 1, 0, p.eq_k + 1, by have h := p.valid; omega⟩
  else ⟨p.eq_i + 1, p.eq_j + 1, 0, by have h := p.valid; omega⟩

end Places

/-- The fields of the port that the equalizer uses. -/
structure Equalizer where
  eq_gain : Fin 10 → BitVec 32
  places : Places
  eq_data_history : Fin 10 → Fin 8 → XYData

/-- The product of two `int`s, as an `int64_t`. -/
def product (a b : BitVec 32) : BitVec 64 := a.signExtend 64 * b.signExtend 64

/-- `(int)(l >> FP_FRBITS)`. -/
def shiftBack (l : BitVec 64) : BitVec 32 := (l.sshiftRight 28).setWidth 32

/-- One band: the new history, and what the band adds to the sample. -/
def filterBand (cf : IIRCoefficients) (gain : BitVec 32) (p : Places) (scaledpcm : BitVec 32)
    (history : XYData) : XYData × BitVec 32 :=
  let x := Function.update history.x p.i scaledpcm
  let l := product (BitVec.ofInt 32 cf.alpha) (x p.i - x p.k)
    + product (BitVec.ofInt 32 cf.gamma) (history.y p.j)
    - product (BitVec.ofInt 32 cf.beta) (history.y p.k)
  let y := Function.update history.y p.i (shiftBack l)
  (⟨x, y⟩, shiftBack (product (y p.i) gain))

/-- A sample, limited to 16 bits. -/
def limitOutput (out : BitVec 32) : Sample :=
  if out.toInt < -32768 then -32768
  else if out.toInt > 32767 then 32767
  else out.setWidth 16

/-- One sample of a channel, with the new histories of the channel. -/
def filterSample (e : Equalizer) (channel : Fin 8) (pcm : Sample) : Equalizer × Sample :=
  let scaledpcm := pcm.signExtend 32 <<< 11
  let bands := fun band =>
    filterBand (iirCf band) (e.eq_gain band) e.places scaledpcm (e.eq_data_history band channel)
  let out := (List.finRange 10).foldl (fun out band => out + (bands band).2) 0 + scaledpcm.sshiftRight 2
  ({ e with eq_data_history := fun band => Function.update (e.eq_data_history band) channel (bands band).1 },
    limitOutput (out.sshiftRight 12))

/-! ## The loop over the buffer -/

/-- The equalizer and the memory. `visits` are the samples that have been processed, each with the
channel whose histories were used; the source has no such thing. -/
structure Equalization where
  equalizer : Equalizer
  data : List Sample
  visits : List (ℕ × ℕ)

/-- The channels of a round, which are left to do. -/
def equalizeFrame (index : ℕ) : List ℕ → Equalization → Option Equalization
  | [], s => some s
  | channel :: channels, s =>
    if hchannel : channel < 8 then
      s.data[index + channel]?.bind fun pcm =>
        let filtered := filterSample s.equalizer ⟨channel, hchannel⟩ pcm
        equalizeFrame index channels
          ⟨filtered.1, s.data.set (index + channel) filtered.2, s.visits ++ [(index + channel, channel)]⟩
    else none

/-- The rounds of the loop, from an index on. -/
def equalizeFrames (num_channels : ℕ) : ℕ → ℕ → Equalization → Option Equalization
  | 0, _, s => some s
  | k + 1, index, s =>
    (equalizeFrame index (List.range num_channels) s).bind fun s =>
      equalizeFrames num_channels k (index + 2)
        { s with equalizer := { s.equalizer with places := s.equalizer.places.next } }

def audioFilterEqualize (e : Equalizer) (mode : Mode) (data : List Sample) (num_frames : ℕ) :
    Option Equalization :=
  let num_channels := modeChannels mode
  if num_channels = 0 then some ⟨e, data, []⟩
  else
    (int32 (num_frames * 2)).bind fun halflength => (int32 (num_frames * 4)).bind fun _length =>
      -- `for (index = 0; index < halflength; index+=2)`
      equalizeFrames num_channels ((halflength.toNat + 1) / 2) 0 ⟨e, data, []⟩

/-! ## Which samples are processed -/

/-- The samples that a part of the loop processes, which are the only ones that it changes. -/
structure Processes (s r : Equalization) (visits : List (ℕ × ℕ)) : Prop where
  visits_eq : r.visits = s.visits ++ visits
  length_eq : r.data.length = s.data.length
  outside : ∀ i, i ∉ visits.map Prod.fst → r.data[i]? = s.data[i]?

theorem Processes.refl (s : Equalization) : Processes s s [] :=
  ⟨(List.append_nil _).symm, rfl, fun _ _ => rfl⟩

theorem Processes.trans {s t r : Equalization} {visits visits' : List (ℕ × ℕ)}
    (h : Processes s t visits) (h' : Processes t r visits') : Processes s r (visits ++ visits') := by
  refine ⟨?_, h'.length_eq.trans h.length_eq, fun i hi => ?_⟩
  · rw [h'.visits_eq, h.visits_eq, List.append_assoc]
  · rw [List.map_append, List.mem_append, not_or] at hi
    exact (h'.outside i hi.2).trans (h.outside i hi.1)

/-- The places of a frame, with the channels. -/
def framePlaces (index : ℕ) (channels : List ℕ) : List (ℕ × ℕ) :=
  channels.map fun channel => (index + channel, channel)

/-- The places of the rounds from an index on. -/
def roundPlaces (num_channels k index : ℕ) : List (ℕ × ℕ) :=
  (List.range k).flatMap fun round => framePlaces (index + 2 * round) (List.range num_channels)

theorem roundPlaces_succ (num_channels k index : ℕ) :
    roundPlaces num_channels (k + 1) index =
      framePlaces index (List.range num_channels) ++ roundPlaces num_channels k (index + 2) := by
  have hnext : ∀ round, index + 2 * (round + 1) = index + 2 + 2 * round := fun round => by omega
  unfold roundPlaces
  rw [List.range_succ_eq_map, List.flatMap_cons, List.flatMap_map]
  simp only [hnext, Nat.mul_zero, Nat.add_zero, Nat.succ_eq_add_one]

variable {s r : Equalization} {index num_channels k : ℕ} {channels : List ℕ}

theorem equalizeFrame_processes (h : equalizeFrame index channels s = some r) :
    Processes s r (framePlaces index channels) := by
  induction channels generalizing s with
  | nil =>
    obtain rfl : s = r := Option.some.inj h
    exact Processes.refl s
  | cons channel channels ih =>
    rw [equalizeFrame] at h
    split_ifs at h with hchannel
    obtain ⟨pcm, -, hrest⟩ := Option.bind_eq_some_iff.1 h
    -- the sample of the channel, and then the others
    have hothers := ih hrest
    have hone := @Processes.trans s _ r [(index + channel, channel)] _
      ⟨rfl, List.length_set, fun i hi => ?_⟩ hothers
    · exact hone
    · have hne : index + channel ≠ i := fun heq => hi (List.mem_singleton.2 heq.symm)
      exact List.getElem?_set_ne hne

theorem equalizeFrames_processes (h : equalizeFrames num_channels k index s = some r) :
    Processes s r (roundPlaces num_channels k index) := by
  induction k generalizing index s with
  | zero =>
    obtain rfl : s = r := Option.some.inj h
    exact Processes.refl s
  | succ k ih =>
    rw [equalizeFrames] at h
    obtain ⟨t, hframe, hrest⟩ := Option.bind_eq_some_iff.1 h
    have hothers := ih hrest
    rw [roundPlaces_succ]
    -- the next places of the histories are no part of the memory
    exact (equalizeFrame_processes hframe).trans ⟨hothers.visits_eq, hothers.length_eq, hothers.outside⟩

theorem equalizeFrame_some (h : ∀ channel ∈ channels, channel < 8 ∧ index + channel < s.data.length) :
    ∃ r, equalizeFrame index channels s = some r := by
  induction channels generalizing s with
  | nil => exact ⟨s, rfl⟩
  | cons channel channels ih =>
    obtain ⟨hchannel, hlt⟩ := h channel List.mem_cons_self
    rw [equalizeFrame, dif_pos hchannel, List.getElem?_eq_getElem hlt, Option.bind_some]
    apply ih
    intro c hc
    rw [List.length_set]
    exact h c (List.mem_cons_of_mem _ hc)

theorem equalizeFrames_some (hchannels : num_channels ≤ 8)
    (h : ∀ round < k, index + 2 * round + num_channels ≤ s.data.length) :
    ∃ r, equalizeFrames num_channels k index s = some r := by
  induction k generalizing index s with
  | zero => exact ⟨s, rfl⟩
  | succ k ih =>
    have hfirst := h 0 (Nat.succ_pos k)
    obtain ⟨t, ht⟩ := @equalizeFrame_some s index (List.range num_channels) fun channel hchannel => by
      rw [List.mem_range] at hchannel
      omega
    rw [equalizeFrames, ht, Option.bind_some]
    apply ih
    intro round hround
    rw [show (Equalization.data _).length = s.data.length from (equalizeFrame_processes ht).length_eq]
    have hlast := h (round + 1) (by omega)
    omega

theorem modeChannels_le (mode : Mode) : modeChannels mode ≤ 6 := by cases mode <;> decide

theorem int32_frames {n c : ℕ} {v : ℤ} : int32 (n * c) = some v ↔ v = n * c ∧ n * c < 2 ^ 31 := by
  unfold int32
  have hcast : (n : ℤ) * c = (n * c : ℕ) := by push_cast; rfl
  rw [hcast]
  split_ifs with h
  · rw [Option.some.injEq]
    omega
  · simp only [false_iff]
    omega

theorem audioFilterEqualize_visits {e : Equalizer} {mode : Mode} {data : List Sample} {num_frames : ℕ}
    (h : audioFilterEqualize e mode data num_frames = some r) :
    Processes ⟨e, data, []⟩ r (roundPlaces (modeChannels mode) num_frames 0) := by
  unfold audioFilterEqualize at h
  simp only at h
  split_ifs at h with hzero
  · cases h
    have hnone : roundPlaces (modeChannels mode) num_frames 0 = [] := by
      rw [hzero]
      exact List.flatMap_eq_nil_iff.2 fun _ _ => rfl
    rw [hnone]
    exact Processes.refl _
  · obtain ⟨halflength, hhalf, h⟩ := Option.bind_eq_some_iff.1 h
    obtain ⟨-, -, h⟩ := Option.bind_eq_some_iff.1 h
    obtain ⟨rfl, -⟩ := (@int32_frames num_frames 2 _).1 hhalf
    have hrounds : (((num_frames : ℤ) * (2 : ℕ)).toNat + 1) / 2 = num_frames := by omega
    rw [hrounds] at h
    exact equalizeFrames_processes h

/-- The equalizer processes each sample of the frames once, in their order and with the histories of its
channel, and changes no other sample. -/
structure Covers (num_channels num_frames : ℕ) (data : List Sample) (r : Equalization) : Prop where
  visits_eq : r.visits = (List.range (num_frames * num_channels)).map fun i => (i, i % num_channels)
  outside : ∀ i, num_frames * num_channels ≤ i → r.data[i]? = data[i]?

theorem samplePlaces_eq (num_channels num_frames : ℕ) :
    (List.range (num_frames * num_channels)).map (fun i => (i, i % num_channels)) =
      (List.range num_frames).flatMap fun frame =>
        framePlaces (num_channels * frame) (List.range num_channels) := by
  induction num_frames with
  | zero => rw [Nat.zero_mul]; rfl
  | succ n ih =>
    have hsize : (n + 1) * num_channels = n * num_channels + num_channels := by rw [Nat.succ_mul]
    rw [hsize, List.range_add, List.map_append, ih, List.range_succ, List.flatMap_append,
      List.flatMap_singleton, List.map_map, framePlaces, Nat.mul_comm]
    congr 1
    apply List.map_congr_left
    intro c hc
    have hmod : (num_channels * n + c) % num_channels = c := by
      rw [Nat.mul_add_mod, Nat.mod_eq_of_lt (List.mem_range.1 hc)]
    simp only [Function.comp_apply, hmod]

theorem roundPlaces_eq_iff {num_frames : ℕ} (hchannels : 0 < num_channels) :
    roundPlaces num_channels num_frames 0 =
        (List.range (num_frames * num_channels)).map (fun i => (i, i % num_channels)) ↔
      num_channels = 2 ∨ num_frames ≤ 1 := by
  constructor
  · intro h
    by_contra hnot
    obtain ⟨n, rfl⟩ : ∃ n, num_frames = n + 1 + 1 := ⟨num_frames - 2, by omega⟩
    -- the first sample of the second round
    have hfirst : (framePlaces 0 (List.range num_channels)).length = num_channels := by
      rw [framePlaces, List.length_map, List.length_range]
    have hround : (roundPlaces num_channels (n + 1 + 1) 0)[num_channels]? = some (2, 0) := by
      rw [roundPlaces_succ, List.getElem?_append_right hfirst.le, hfirst, Nat.sub_self, roundPlaces_succ,
        List.getElem?_append_left]
      · rw [framePlaces, List.getElem?_map, List.getElem?_range hchannels]
        rfl
      · rw [framePlaces, List.length_map, List.length_range]
        exact hchannels
    have hlt : num_channels < (n + 1 + 1) * num_channels := by
      calc num_channels = 1 * num_channels := (Nat.one_mul _).symm
        _ < (n + 1 + 1) * num_channels := Nat.mul_lt_mul_of_pos_right (by omega) hchannels
    rw [h, List.getElem?_map, List.getElem?_range hlt] at hround
    have heq : num_channels = 2 := congrArg Prod.fst (Option.some.inj hround)
    exact hnot (Or.inl heq)
  · intro h
    rw [samplePlaces_eq]
    unfold roundPlaces
    rcases h with rfl | hone
    · simp only [Nat.zero_add]
    · have hframes : num_frames = 0 ∨ num_frames = 1 := by omega
      rcases hframes with rfl | rfl <;> rfl

/-- The equalizer covers the samples of the frames exactly with two channels, with one frame at most, and
without channels, where there is nothing to do. -/
theorem audioFilterEqualize_covers_iff (e : Equalizer) (mode : Mode) (data : List Sample) (num_frames : ℕ)
    (hlength : num_frames * modeChannels mode ≤ data.length) :
    (∃ r, audioFilterEqualize e mode data num_frames = some r ∧
        Covers (modeChannels mode) num_frames data r) ↔
      modeChannels mode = 0 ∨ (modeChannels mode = 2 ∨ num_frames ≤ 1) ∧ num_frames * 4 < 2 ^ 31 := by
  constructor
  · rintro ⟨r, hr, hcovers⟩
    by_cases hzero : modeChannels mode = 0
    · exact Or.inl hzero
    · refine Or.inr ⟨?_, ?_⟩
      · have hvisits := (audioFilterEqualize_visits hr).visits_eq
        rw [List.nil_append, hcovers.visits_eq] at hvisits
        exact (roundPlaces_eq_iff (Nat.pos_of_ne_zero hzero)).1 hvisits.symm
      · unfold audioFilterEqualize at hr
        simp only [if_neg hzero] at hr
        obtain ⟨halflength, -, hr⟩ := Option.bind_eq_some_iff.1 hr
        obtain ⟨length, hlength, -⟩ := Option.bind_eq_some_iff.1 hr
        exact ((@int32_frames num_frames 4 _).1 hlength).2
  · rintro h
    -- the loop stays in the memory
    have hrun : ∃ r, audioFilterEqualize e mode data num_frames = some r := by
      unfold audioFilterEqualize
      by_cases hzero : modeChannels mode = 0
      · exact ⟨_, if_pos hzero⟩
      · obtain ⟨hcase, hint⟩ := h.resolve_left hzero
        have hhalf := (@int32_frames num_frames 2 _).2 ⟨rfl, by omega⟩
        have hfull := (@int32_frames num_frames 4 _).2 ⟨rfl, hint⟩
        simp only [if_neg hzero]
        rw [show int32 (num_frames * 2) = _ from hhalf, Option.bind_some,
          show int32 (num_frames * 4) = _ from hfull, Option.bind_some]
        apply equalizeFrames_some (by have hle := modeChannels_le mode; omega)
        intro round hround
        have hframes : round < num_frames := by omega
        change 0 + 2 * round + modeChannels mode ≤ data.length
        rcases hcase with htwo | hone
        · rw [htwo] at hlength ⊢
          omega
        · obtain rfl : num_frames = 1 := by omega
          omega
    obtain ⟨r, hr⟩ := hrun
    have hprocesses := audioFilterEqualize_visits hr
    have hplaces : roundPlaces (modeChannels mode) num_frames 0 =
        (List.range (num_frames * modeChannels mode)).map (fun i => (i, i % modeChannels mode)) := by
      rcases Nat.eq_zero_or_pos (modeChannels mode) with hzero | hpos
      · rw [samplePlaces_eq, hzero]
        exact (List.flatMap_eq_nil_iff.2 fun _ _ => rfl).trans (List.flatMap_eq_nil_iff.2 fun _ _ => rfl).symm
      · exact (roundPlaces_eq_iff hpos).2 ((h.resolve_left hpos.ne').1)
    rw [hplaces] at hprocesses
    refine ⟨r, hr, by rw [hprocesses.visits_eq, List.nil_append], fun i hi => hprocesses.outside i ?_⟩
    intro hmem
    rw [List.map_map, List.mem_map] at hmem
    obtain ⟨j, hj, rfl⟩ := hmem
    exact absurd (List.mem_range.1 hj) (Nat.not_lt.2 hi)

/-- An equalizer with one band turned up, as it is set up. -/
def oneBand : Equalizer where
  eq_gain := fun band => if band.val = 0 then BitVec.ofInt 32 (eqReal 50 2) else 0
  places := Places.start
  eq_data_history := fun _ _ => ⟨fun _ => 0, fun _ => 0⟩

/-- One stereo frame. -/
theorem audioFilterEqualize_covers_one :
    ∃ r, audioFilterEqualize oneBand .stereo [100, -100] 1 = some r ∧ Covers 2 1 [100, -100] r :=
  (audioFilterEqualize_covers_iff oneBand .stereo [100, -100] 1 (by decide)).2 (by decide)

/-- Two mono frames, in memory for four samples: the second one is left out, and the third sample, which
belongs to no frame, is processed. -/
theorem audioFilterEqualize_mono :
    (audioFilterEqualize oneBand .mono [1000, 2000, 3000, 4000] 2).map Equalization.visits =
        some [(0, 0), (2, 0)] ∧
      ¬ ∃ r, audioFilterEqualize oneBand .mono [1000, 2000, 3000, 4000] 2 = some r ∧
        Covers 1 2 [1000, 2000, 3000, 4000] r := by
  have hvisits : (audioFilterEqualize oneBand .mono [1000, 2000, 3000, 4000] 2).map Equalization.visits =
      some [(0, 0), (2, 0)] := by decide
  refine ⟨hvisits, ?_⟩
  rintro ⟨r, hr, hcovers⟩
  rw [hr, Option.map_some, hcovers.visits_eq] at hvisits
  exact absurd (Option.some.inj hvisits) (by decide)

end Xine.Filters
