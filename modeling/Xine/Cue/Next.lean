import Xine.Cue.Schedule

/-!
# The next cue point

`xine_recalculate_next_cue_point` looks for the earliest time, behind the current one, at which a cue point comes,
and stores it as a presentation time. `SchedulesNext` says that it finds this time, and that no number on the way
is too large for its type.
-/

namespace Xine.Cue

open Recurring

variable {stream : XineStream} {cues : List CuePoint} {c : CuePoint} {now t m cur_time clock : ℤ}
  {next : ℤ × Option CuePoint}

/-! ## What the loop should find -/

/-- The values of an `int`. -/
def IsInt (n : ℤ) : Prop := -2^31 ≤ n ∧ n < 2^31

instance (n : ℤ) : Decidable (IsInt n) := inferInstanceAs (Decidable (_ ∧ _))

/-- The time that the loop starts with. -/
def noTime : ℤ := 0x7FFFFFFF

/-- The current time of the call, in milliseconds. -/
def XineStream.callTime (stream : XineStream) (cur_time clock : ℤ) : ℤ :=
  stream.playTime (if cur_time = 0 then clock else cur_time)

/-- The time that the loop ends with. -/
def XineStream.nextTime (stream : XineStream) (now : ℤ) : ℤ :=
  (stream.cue_points.foldl (earlierCue now) (noTime, stream.next_cue_data)).1

/-- A time, behind the current one, at which one of the cue points comes. -/
def Ahead (cues : List CuePoint) (now t : ℤ) : Prop :=
  ∃ c ∈ cues, now < t ∧ Occurs c.cuetime c.frequency t

/-- The time that the loop considers for a cue point, if any. -/
def CuePoint.comes (c : CuePoint) (now : ℤ) : Option ℤ :=
  if c.cuetime > now then some c.cuetime
  else if c.frequency ≠ 0 ∧ c.cuetime < now then
    some (c.frequency - (now - c.cuetime).tmod c.frequency + now)
  else none

/-- The call stores the earliest time at which a cue point comes, and every number is one of its type. -/
structure SchedulesNext (stream : XineStream) (cur_time clock : ℤ) : Prop where
  /-- What the loop may take for the next time is an `int`. -/
  stored : ∀ c ∈ stream.cue_points, ∀ t, c.comes (stream.callTime cur_time clock) = some t →
    t < noTime → IsInt t
  /-- The next time is the earliest, or stands for none. -/
  least : IsLeast {t | Ahead stream.cue_points (stream.callTime cur_time clock) t}
      (stream.nextTime (stream.callTime cur_time clock)) ∨
    (∀ t, ¬Ahead stream.cue_points (stream.callTime cur_time clock) t) ∧
      stream.nextTime (stream.callTime cur_time clock) = noTime
  /-- The conversion to 90 kHz does not overflow. -/
  product : IsInt (stream.nextTime (stream.callTime cur_time clock) * 90)
  /-- The presentation time is stored. -/
  next_cue_time : ((xineRecalculateNextCuePoint stream cur_time clock).next_cue_time : ℤ) =
    stream.nextTime (stream.callTime cur_time clock) * 90 + stream.vpts_offset

/-- No cue point behind the current time has a negative frequency, and some cue point, whose first time is
another one than the current time, comes no later than the others, at a time that can be converted. -/
structure FitsNext (stream : XineStream) (cur_time clock : ℤ) : Prop where
  nonneg : ∀ c ∈ stream.cue_points, c.cuetime < stream.callTime cur_time clock → 0 ≤ c.frequency
  first : ∃ c ∈ stream.cue_points, c.cuetime ≠ stream.callTime cur_time clock ∧ ∃ t,
    stream.callTime cur_time clock < t ∧ Occurs c.cuetime c.frequency t ∧
    (∀ u, Ahead stream.cue_points (stream.callTime cur_time clock) u → t ≤ u) ∧
    IsInt (t * 90) ∧ 0 ≤ t * 90 + stream.vpts_offset ∧ t * 90 + stream.vpts_offset < 2^32

/-! ## One cue point -/

theorem isLeast_comes (hfreq : c.cuetime < now → 0 ≤ c.frequency) (h : c.comes now = some t) :
    IsLeast {t | now < t ∧ Occurs c.cuetime c.frequency t} t := by
  unfold CuePoint.comes at h
  split_ifs at h with hlater hbehind
  · cases h
    exact isLeast_first hlater
  · cases h
    have hpos : 0 < c.frequency := lt_of_le_of_ne (hfreq hbehind.2) hbehind.1.symm
    have hnonneg : 0 ≤ now - c.cuetime := by omega
    rw [Int.tmod_eq_emod_of_nonneg hnonneg, add_comm]
    exact isLeast_occurs hpos (by omega)

theorem not_occurs_of_comes (hne : c.cuetime ≠ now) (h : c.comes now = none) (hlt : now < t) :
    ¬Occurs c.cuetime c.frequency t := by
  unfold CuePoint.comes at h
  split_ifs at h with hlater hbehind
  have hzero : c.frequency = 0 := by
    by_contra hfreq
    exact hbehind ⟨hfreq, by omega⟩
  rw [hzero, occurs_zero_iff]
  omega

theorem ne_of_comes (h : c.comes now = some t) : c.cuetime ≠ now := by
  rintro rfl
  unfold CuePoint.comes at h
  simp at h

theorem comes_of_neg (hbehind : c.cuetime < now) (hneg : c.frequency < 0) :
    ∃ t, c.comes now = some t ∧ t < now := by
  refine ⟨c.frequency - (now - c.cuetime).tmod c.frequency + now, ?_, ?_⟩
  · unfold CuePoint.comes
    rw [if_neg (by omega), if_pos ⟨hneg.ne, hbehind⟩]
  · have hmod := Int.tmod_nonneg c.frequency (by omega : 0 ≤ now - c.cuetime)
    omega

theorem earlierCue_fst (hnext : next.1 ≤ noTime)
    (hstored : ∀ t, c.comes now = some t → t < noTime → IsInt t) :
    (earlierCue now next c).1 = (c.comes now).elim next.1 (min next.1) := by
  unfold earlierCue CuePoint.comes at *
  by_cases hlater : c.cuetime > now
  · rw [if_pos hlater]
    by_cases hlt : c.cuetime < next.1
    · rw [if_pos ⟨hlater, hlt⟩, Option.elim_some, min_eq_right hlt.le]
    · rw [if_neg fun h => hlt h.2, if_neg (by omega), Option.elim_some, min_eq_left (not_lt.1 hlt)]
  · simp only [if_neg hlater] at hstored ⊢
    rw [if_neg fun h => hlater h.1]
    by_cases hbehind : c.frequency ≠ 0 ∧ c.cuetime < now
    · rw [if_pos hbehind] at hstored ⊢
      generalize c.frequency - (now - c.cuetime).tmod c.frequency = left at hstored ⊢
      rw [Option.elim_some]
      by_cases hlt : left < next.1 - now
      · have hint := hstored _ rfl (by omega)
        have hkeep : toInt32 (left + now) = left + now :=
          Int.bmod_eq_of_le (by have := hint.1; omega) (by have := hint.2; omega)
        rw [if_pos ⟨hbehind.1, hbehind.2, hlt⟩, hkeep, min_eq_right (by omega)]
      · rw [if_neg fun h => hlt h.2.2, min_eq_left (by omega)]
    · rw [if_neg hbehind, if_neg fun h => hbehind ⟨h.1, h.2.1⟩, Option.elim_none]

/-! ## The loop -/

theorem foldl_earlierCue (hnext : next.1 ≤ noTime)
    (hstored : ∀ c ∈ cues, ∀ t, c.comes now = some t → t < noTime → IsInt t) :
    (cues.foldl (earlierCue now) next).1 ≤ next.1 ∧
    (∀ c ∈ cues, ∀ t, c.comes now = some t → (cues.foldl (earlierCue now) next).1 ≤ t) ∧
    ((cues.foldl (earlierCue now) next).1 = next.1 ∨
      ∃ c ∈ cues, c.comes now = some (cues.foldl (earlierCue now) next).1) := by
  induction cues generalizing next with
  | nil => exact ⟨le_refl _, fun c hc => absurd hc List.not_mem_nil, Or.inl rfl⟩
  | cons c cues ih =>
    obtain ⟨hc, hcues⟩ := List.forall_mem_cons.1 hstored
    have hround := earlierCue_fst hnext hc
    rw [List.foldl_cons]
    generalize earlierCue now next c = next' at hround ⊢
    cases hcomes : c.comes now with
    | none =>
      -- the round leaves the time
      rw [hcomes, Option.elim_none] at hround
      obtain ⟨hle, hall, hend⟩ := ih (hround ▸ hnext) hcues
      refine ⟨hround ▸ hle, List.forall_mem_cons.2 ⟨fun t ht => ?_, hall⟩, ?_⟩
      · rw [hcomes] at ht
        exact absurd ht.symm (Option.some_ne_none t)
      · rcases hend with hend | ⟨b, hb, hend⟩
        · exact Or.inl (hend.trans hround)
        · exact Or.inr ⟨b, List.mem_cons_of_mem c hb, hend⟩
    | some t =>
      rw [hcomes, Option.elim_some] at hround
      have hle' : next'.1 ≤ next.1 := hround ▸ min_le_left _ _
      have ht' : next'.1 ≤ t := hround ▸ min_le_right _ _
      obtain ⟨hle, hall, hend⟩ := ih (hle'.trans hnext) hcues
      refine ⟨hle.trans hle', List.forall_mem_cons.2 ⟨fun u hu => ?_, hall⟩, ?_⟩
      · rw [hcomes] at hu
        cases hu
        exact hle.trans ht'
      · rcases hend with hend | ⟨b, hb, hend⟩
        · rcases min_choice next.1 t with hmin | hmin
          · exact Or.inl (hend.trans (hround.trans hmin))
          · refine Or.inr ⟨c, List.mem_cons_self, ?_⟩
            rw [hcomes, hend, hround, hmin]
        · exact Or.inr ⟨b, List.mem_cons_of_mem c hb, hend⟩

theorem nextTime_spec
    (hstored : ∀ c ∈ stream.cue_points, ∀ t, c.comes now = some t → t < noTime → IsInt t) :
    (∀ c ∈ stream.cue_points, ∀ t, c.comes now = some t → stream.nextTime now ≤ t) ∧
    (stream.nextTime now = noTime ∨
      ∃ c ∈ stream.cue_points, c.comes now = some (stream.nextTime now)) :=
  (@foldl_earlierCue stream.cue_points now (noTime, stream.next_cue_data) (le_refl noTime) hstored).2

theorem next_cue_time_eq_iff : ((xineRecalculateNextCuePoint stream cur_time clock).next_cue_time : ℤ) =
      stream.nextTime (stream.callTime cur_time clock) * 90 + stream.vpts_offset ↔
    0 ≤ stream.nextTime (stream.callTime cur_time clock) * 90 + stream.vpts_offset ∧
      stream.nextTime (stream.callTime cur_time clock) * 90 + stream.vpts_offset < 2^32 := by
  change ((((stream.nextTime (stream.callTime cur_time clock) * 90 + stream.vpts_offset) % 2^32).toNat : ℕ) :
    ℤ) = _ ↔ _
  generalize stream.nextTime (stream.callTime cur_time clock) * 90 + stream.vpts_offset = vpts
  rw [Int.toNat_of_nonneg (Int.emod_nonneg _ (by decide))]
  constructor
  · intro heq
    rw [← heq]
    exact ⟨Int.emod_nonneg _ (by decide), Int.emod_lt_of_pos _ (by decide)⟩
  · rintro ⟨hnonneg, hlt⟩
    exact Int.emod_eq_of_lt hnonneg hlt

theorem not_isInt_noTime : ¬IsInt (noTime * 90) := by decide

theorem SchedulesNext.fitsNext (h : SchedulesNext stream cur_time clock) :
    FitsNext stream cur_time clock := by
  obtain ⟨hall, hend⟩ := nextTime_spec h.stored
  have hproduct := h.product
  have hleast := h.least
  have hstored := next_cue_time_eq_iff.1 h.next_cue_time
  generalize stream.nextTime (stream.callTime cur_time clock) = n at *
  have hne : n ≠ noTime := by
    rintro rfl
    exact not_isInt_noTime hproduct
  replace hleast := hleast.resolve_right fun hnone => hne hnone.2
  obtain ⟨c, hc, hcomes⟩ := hend.resolve_left hne
  obtain ⟨-, -, hlt, -⟩ := hleast.1
  have hnonneg : ∀ b ∈ stream.cue_points, b.cuetime < stream.callTime cur_time clock →
      0 ≤ b.frequency := by
    intro b hb hbehind
    by_contra hneg
    -- the time of this cue point is before the current one
    obtain ⟨t, ht, htlt⟩ := comes_of_neg hbehind (not_le.1 hneg)
    have hle := hall b hb t ht
    omega
  refine ⟨hnonneg, c, hc, ne_of_comes hcomes, n, hlt, ?_, hleast.2, hproduct, hstored⟩
  exact (isLeast_comes (hnonneg c hc) hcomes).1.2

theorem FitsNext.schedulesNext (h : FitsNext stream cur_time clock)
    (hint : ∀ c ∈ stream.cue_points, IsInt c.cuetime) : SchedulesNext stream cur_time clock := by
  obtain ⟨c, hc, hne, t, hlt, hoccurs, hfirst, hproduct, hvpts⟩ := h.first
  have hstored : ∀ c ∈ stream.cue_points, ∀ t, c.comes (stream.callTime cur_time clock) = some t →
      t < noTime → IsInt t := by
    intro b hb u hu hu'
    have hcuetime := (hint b hb).1
    have hle := (isLeast_comes (h.nonneg b hb) hu).1.2.1
    unfold noTime at hu'
    exact ⟨by omega, by omega⟩
  obtain ⟨hall, hend⟩ := nextTime_spec hstored
  -- the loop considers the first time for its cue point, and nothing before it
  have hle : stream.nextTime (stream.callTime cur_time clock) ≤ t := by
    cases hcomes : c.comes (stream.callTime cur_time clock) with
    | none => exact absurd hoccurs (not_occurs_of_comes hne hcomes hlt)
    | some u =>
      calc stream.nextTime (stream.callTime cur_time clock) ≤ u := hall c hc u hcomes
        _ ≤ t := (isLeast_comes (h.nonneg c hc) hcomes).2 ⟨hlt, hoccurs⟩
  have heq : stream.nextTime (stream.callTime cur_time clock) = t := by
    rcases hend with hend | ⟨b, hb, hend⟩
    · have hlarge := hproduct.2
      rw [hend] at hle
      unfold noTime at hle
      omega
    · obtain ⟨hblt, hboccurs⟩ := (isLeast_comes (h.nonneg b hb) hend).1
      exact le_antisymm hle (hfirst _ ⟨b, hb, hblt, hboccurs⟩)
  refine ⟨hstored, Or.inl ?_, ?_, ?_⟩
  · rw [heq]
    exact ⟨⟨c, hc, hlt, hoccurs⟩, fun u hu => hfirst u hu⟩
  · rw [heq]
    exact hproduct
  · rw [next_cue_time_eq_iff, heq]
    exact hvpts

/-- For every list of cue points, whose times are of the type `int`, and every current time, the call finds
the next time if and only if it fits. -/
theorem schedulesNext_iff (stream : XineStream) (cur_time clock : ℤ)
    (hint : ∀ c ∈ stream.cue_points, IsInt c.cuetime) :
    SchedulesNext stream cur_time clock ↔ FitsNext stream cur_time clock :=
  ⟨SchedulesNext.fitsNext, fun h => h.schedulesNext hint⟩

/-- A cue point one second from the start is found. -/
theorem schedulesNext_second : SchedulesNext (xineEventCreateCuePoint xineStreamNew 1000 0) 90 0 := by
  refine (schedulesNext_iff _ 90 0 (by decide)).2 ⟨by decide, ⟨0, 1000, 0⟩, by decide, by decide, 1000,
    by decide, by decide, ?_, by decide, by decide, by decide⟩
  rintro u ⟨c, hc, -, hle, -⟩
  obtain rfl := List.mem_singleton.1 hc
  exact hle

/-- The time of a cue point, 6 hours and 40 minutes from the start, is too large for the conversion. -/
theorem schedulesNext_late_cue :
    ¬SchedulesNext (xineEventCreateCuePoint xineStreamNew 24000000 0) 90 0 := by
  intro h
  exact absurd h.product (by decide)

end Xine.Cue
