import Xine.Library.Agenda
import Xine.Library.Runs

/-!
# Cue points

The cue points of a stream (`events.c`) and the check for them in the video loop.
`next_cue_time` is the presentation time from which on the loop sends the events that are due, as an
unsigned number of 32 bits. Times are integers; a time that the source converts to an `int` is
reduced here in the same way.
-/

namespace Xine.Cue

/-- The conversion of a time to an `int`. -/
def toInt32 (t : ℤ) : ℤ := Int.bmod t (2^32)

/-- `xine_cue_point_data_t`, without the data of its user. -/
structure CuePoint where
  currtime : ℤ
  cuetime : ℤ
  frequency : ℤ
deriving DecidableEq

/-- What `xine_stream_t` keeps about its cue points, and the offset of its metronom. -/
structure XineStream where
  cue_points : List CuePoint
  next_cue_time : ℕ
  org_next_cue_time : ℤ
  next_cue_data : Option CuePoint
  vpts_offset : ℤ

/-- A new stream. -/
def xineStreamNew : XineStream where
  cue_points := []
  next_cue_time := 0x7FFFFFFF
  org_next_cue_time := 0
  next_cue_data := none
  vpts_offset := 0

def xineEventCreateCuePoint (stream : XineStream) (cuetime frequency : ℤ) : XineStream :=
  { stream with cue_points := stream.cue_points ++ [⟨0, cuetime, frequency⟩] }

/-- The time of the stream, in milliseconds, at a presentation time. -/
def XineStream.playTime (stream : XineStream) (vpts : ℤ) : ℤ := (vpts - stream.vpts_offset).tdiv 90

/-- One round of the loop of `xine_recalculate_next_cue_point`: the next time and its cue point. -/
def earlierCue (cur_time : ℤ) (next : ℤ × Option CuePoint) (cue_point : CuePoint) :
    ℤ × Option CuePoint :=
  let left := cue_point.frequency - (cur_time - cue_point.cuetime).tmod cue_point.frequency
  if cue_point.cuetime > cur_time ∧ cue_point.cuetime < next.1 then
    (cue_point.cuetime, some cue_point)
  else if cue_point.frequency ≠ 0 ∧ cue_point.cuetime < cur_time ∧ left < next.1 - cur_time then
    (toInt32 (left + cur_time), some cue_point)
  else
    next

/-- `xine_recalculate_next_cue_point`. The time 0 stands for that of the clock. -/
def xineRecalculateNextCuePoint (stream : XineStream) (cur_time clock : ℤ) : XineStream :=
  let cur_time := stream.playTime (if cur_time = 0 then clock else cur_time)
  let next := stream.cue_points.foldl (earlierCue cur_time) (0x7FFFFFFF, stream.next_cue_data)
  { stream with
    next_cue_data := next.2
    -- the product, an `int`, is reduced with the sum
    next_cue_time := ((next.1 * 90 + stream.vpts_offset) % 2^32).toNat }

/-- The cue point as it is sent. -/
def CuePoint.at (cue_point : CuePoint) (cur_time : ℤ) : CuePoint :=
  { cue_point with currtime := cur_time }

/-- One round of the loop of `xine_cue_point_event`: the event that is sent, if any. There is no
result when it divides by zero. -/
def cueEvent (cur_time next_time : ℤ) (cue_point : CuePoint) : Option (Option CuePoint) :=
  if cue_point.cuetime ≤ cur_time ∧ cue_point.cuetime ≥ next_time then
    some (some (cue_point.at cur_time))
  else if cue_point.frequency = 0 then
    -- the remainder is taken before the frequency is compared with 0
    none
  else
    let next_freq :=
      cue_point.frequency - (next_time - cue_point.cuetime).tmod cue_point.frequency
    let next_freq := if next_freq = cue_point.frequency then 0 else next_freq
    if cue_point.frequency ≠ 0 ∧ cue_point.cuetime < cur_time ∧
        next_freq ≤ cur_time - next_time then
      some (some (cue_point.at cur_time))
    else
      some none

/-- `xine_cue_point_event`: the stream behind it, and for each of its cue points the event that is
sent, if any. There is no result when it divides by zero. -/
def xineCuePointEvent (stream : XineStream) (in_cur_time clock : ℤ) :
    Option (XineStream × List (Option CuePoint)) :=
  let cur_time := toInt32 (stream.playTime in_cur_time)
  let next_time := stream.org_next_cue_time
  if cur_time < next_time then
    some (stream, stream.cue_points.map fun _ => none)
  else
    (stream.cue_points.mapM (cueEvent cur_time next_time)).map fun sent =>
      let cue_points := stream.cue_points.zipWith (fun cue_point event => event.getD cue_point) sent
      (xineRecalculateNextCuePoint { stream with cue_points := cue_points } in_cur_time clock, sent)

/-- A frame is displayed: the presentation time that the video loop has taken for it, and the time of
the clock later on. -/
structure Display where
  vpts : ℤ
  clock : ℤ

/-- The check for cue points of `video_out_loop`. -/
def videoOutLoopCue (stream : XineStream) (d : Display) :
    Option (XineStream × List (Option CuePoint)) :=
  if d.vpts ≥ stream.next_cue_time then
    xineCuePointEvent stream d.vpts d.clock
  else
    some (stream, stream.cue_points.map fun _ => none)

end Xine.Cue

/-!
## Cue points on time

A cue point is a recurring time of the stream: its first occurrence is `cuetime`, and `frequency` is
the period. The frames that the video loop displays give the times at which occurrences are found to
be reached. At each of them the events that should be sent are one for each occurrence since the last
frame. `org_next_cue_time`, which the sender takes for the end of what has been sent, is always 0, so
that the sender counts from the start of the stream, and gives at most one event.
-/

namespace Xine.Cue

open Recurring Runs

variable {s : XineStream} {c : CuePoint} {cues : List CuePoint} {cur_time a b : ℤ} {d : Display}

/-! ## Occurrences of a cue point -/

/-- The number of times that the cue point comes behind one time of the stream and up to another. -/
def CuePoint.count (c : CuePoint) (a b : ℤ) : ℕ := Recurring.count c.cuetime c.frequency a b

/-- The events of the cue point for what it comes behind one time and up to another, as they are at
the second. -/
def CuePoint.due (a b : ℤ) (c : CuePoint) : List CuePoint :=
  List.replicate (c.count a b) (c.at (toInt32 b))

/-- The event that the sender gives for a cue point, from the start of the stream on. -/
def CuePoint.firing (cur_time : ℤ) (c : CuePoint) : Option CuePoint :=
  if 0 < c.count (-1) cur_time then some (c.at cur_time) else none

theorem CuePoint.toList_firing (cur_time : ℤ) (c : CuePoint) :
    (c.firing cur_time).toList = List.replicate (min 1 (c.count (-1) cur_time)) (c.at cur_time) := by
  unfold firing
  split_ifs with hpos
  · rw [min_eq_left hpos]
    rfl
  · rw [Nat.eq_zero_of_not_pos hpos]
    rfl

theorem CuePoint.count_pos_iff :
    0 < c.count (-1) cur_time ↔ ∃ t, 0 ≤ t ∧ t ≤ cur_time ∧ Occurs c.cuetime c.frequency t := by
  unfold count
  rw [Recurring.count_pos_iff]
  constructor
  · rintro ⟨t, hlt, ht⟩
    exact ⟨t, by omega, ht⟩
  · rintro ⟨t, hle, ht⟩
    exact ⟨t, by omega, ht⟩

/-! ## The events of one call -/

/-- A cue point without a period has its time between the start of the stream and the current time,
so that the sender does not divide by its period. -/
def CuePoint.Divides (cur_time : ℤ) (c : CuePoint) : Prop :=
  c.frequency = 0 → 0 ≤ c.cuetime ∧ c.cuetime ≤ cur_time

instance : Decidable (c.Divides cur_time) := by
  unfold CuePoint.Divides
  infer_instance

theorem cueEvent_eq_none (h : ¬c.Divides cur_time) : cueEvent cur_time 0 c = none := by
  unfold CuePoint.Divides at h
  push Not at h
  obtain ⟨hfreq, hout⟩ := h
  unfold cueEvent
  rw [if_neg (by omega), if_pos hfreq]

theorem next_freq_eq {cuetime frequency : ℤ} (hneg : cuetime < 0) (hfreq : 0 < frequency) :
    (if frequency - (0 - cuetime).tmod frequency = frequency then 0
      else frequency - (0 - cuetime).tmod frequency) = cuetime % frequency := by
  have hnonneg : 0 ≤ 0 - cuetime := by omega
  rw [Int.tmod_eq_emod_of_nonneg hnonneg]
  have hdiv := Int.emod_add_mul_ediv (0 - cuetime) frequency
  have hmod := Int.emod_nonneg (0 - cuetime) hfreq.ne'
  have hlt := Int.emod_lt_of_pos (0 - cuetime) hfreq
  generalize (0 - cuetime) % frequency = r at hdiv hmod hlt ⊢
  generalize (0 - cuetime) / frequency = q at hdiv
  split_ifs with heq
  · have hq : cuetime = frequency * -q := by
      rw [mul_neg]
      omega
    rw [hq, Int.mul_emod_right]
  · have hq : cuetime = frequency - r + frequency * (-q - 1) := by
      rw [mul_sub, mul_neg, mul_one]
      omega
    rw [hq, Int.add_mul_emod_self_left]
    exact (Int.emod_eq_of_lt (by omega) (by omega)).symm

theorem cueEvent_eq_some (hcur : 0 ≤ cur_time) (hfreq : 0 ≤ c.frequency) (h : c.Divides cur_time) :
    cueEvent cur_time 0 c = some (c.firing cur_time) := by
  unfold cueEvent CuePoint.firing
  by_cases hin : c.cuetime ≤ cur_time ∧ c.cuetime ≥ 0
  · -- its first time is an occurrence
    rw [if_pos hin, if_pos (CuePoint.count_pos_iff.2 ⟨c.cuetime, hin.2, hin.1, occurs_first⟩)]
  · have hzero : c.frequency ≠ 0 := by
      intro hzero
      have hdiv := h hzero
      omega
    rw [if_neg hin, if_neg hzero]
    by_cases hlater : cur_time < c.cuetime
    · have hnone : ¬0 < c.count (-1) cur_time := by
        rw [CuePoint.count_pos_iff]
        rintro ⟨t, -, hle, hfirst, -⟩
        omega
      rw [if_neg hnone]
      exact if_neg (by omega)
    · -- the first time is before the start, and the next one after the rest of a period
      have hneg : c.cuetime < 0 := by omega
      have hiff : 0 < c.count (-1) cur_time ↔ c.cuetime % c.frequency ≤ cur_time := by
        rw [CuePoint.count_pos_iff, exists_occurs_iff (by omega) (by omega), sub_zero, zero_add]
      simp only [next_freq_eq hneg (by omega : 0 < c.frequency), hiff, sub_zero]
      by_cases hle : c.cuetime % c.frequency ≤ cur_time
      · rw [if_pos hle]
        exact if_pos ⟨hzero, by omega, hle⟩
      · rw [if_neg hle]
        exact if_neg (fun hand => hle hand.2.2)

theorem mapM_cueEvent_eq_some (hcur : 0 ≤ cur_time)
    (h : ∀ c ∈ cues, 0 ≤ c.frequency ∧ c.Divides cur_time) :
    cues.mapM (cueEvent cur_time 0) = some (cues.map (CuePoint.firing cur_time)) := by
  induction cues with
  | nil => rfl
  | cons c cues ih =>
    obtain ⟨hc, hcues⟩ := List.forall_mem_cons.1 h
    rw [List.mapM_cons, cueEvent_eq_some hcur hc.1 hc.2, ih hcues]
    rfl

theorem mapM_cueEvent_eq_none (hc : c ∈ cues) (h : ¬c.Divides cur_time) :
    cues.mapM (cueEvent cur_time 0) = none := by
  induction cues with
  | nil => exact absurd hc List.not_mem_nil
  | cons b cues ih =>
    rw [List.mapM_cons]
    rcases List.mem_cons.1 hc with rfl | hmem
    · rw [cueEvent_eq_none h]
      rfl
    · rw [ih hmem]
      cases cueEvent cur_time 0 b <;> rfl

end Xine.Cue

/-!
## The video loop and the cue points

The video loop displays frames at times that do not decrease, and checks for cue points at each of
them. A run is the list of the frames; its state holds what was sent at each, and whether the sender
has divided by zero, behind which there is no step. `OnTime` says that at each frame each cue point
was sent once for each of its times since the frame before.
-/

namespace Xine.Cue

open Runs

variable {s : XineStream} {c : CuePoint} {a b : ℤ} {d : Display}

/-- A frame that was displayed at the time `time` of the stream, with the frame before it at `since`,
and for each cue point the event that was sent at it, if any. -/
structure Frame where
  since : ℤ
  time : ℤ
  sent : List (Option CuePoint)

/-- The stream, the last frame as a time of the stream and as a presentation time, the frames so far,
and whether there was a division by zero. -/
structure World where
  stream : XineStream
  since : ℤ
  vpts : ℤ
  frames : List Frame
  crashed : Bool

/-- The loop displays a frame. -/
def step (w : World) (d : Display) : Option World :=
  if w.crashed ∨ d.vpts < w.vpts then
    none
  else
    let time := w.stream.playTime d.vpts
    match videoOutLoopCue w.stream d with
    | none => some { w with crashed := true }
    | some (stream, sent) =>
      some { w with
        stream := stream, since := time, vpts := d.vpts
        frames := w.frames ++ [⟨w.since, time, sent⟩] }

/-- The stream gets its cue points, each a time and a period, and the metronom sets its offset and
has the next cue point found. What comes behind `since` is what the frames are to reach. -/
def start (cues : List (ℤ × ℤ)) (vpts_offset vpts since : ℤ) : World where
  stream :=
    let stream := cues.foldl (fun stream cue => xineEventCreateCuePoint stream cue.1 cue.2) xineStreamNew
    xineRecalculateNextCuePoint { stream with vpts_offset := vpts_offset } 0 vpts
  since := since
  vpts := vpts
  frames := []
  crashed := false

/-- Each cue point was sent at each frame once for each of its times that the frame has reached. -/
def OnTime (w : World) : Prop :=
  w.crashed = false ∧
    ∀ f ∈ w.frames, f.sent.map Option.toList = w.stream.cue_points.map (CuePoint.due f.since f.time)

instance (w : World) : Decidable (OnTime w) := by
  unfold OnTime
  infer_instance

/-- The sender goes through the cue points at this frame. -/
def Called (w : World) (d : Display) : Prop :=
  w.stream.next_cue_time ≤ d.vpts ∧ 0 ≤ toInt32 (w.stream.playTime d.vpts)

instance (w : World) (d : Display) : Decidable (Called w d) := by
  unfold Called
  infer_instance

/-- At a frame at which the sender goes through the cue points, those without a period have their
time between the start of the stream and now, and each cue point comes since the last frame once if
it comes at all since the start of the stream. At another frame no cue point comes since the last
one. -/
def Scheduled (w : World) (d : Display) : Prop :=
  let time := w.stream.playTime d.vpts
  if Called w d then
    ∀ c ∈ w.stream.cue_points, c.Divides (toInt32 time) ∧
      c.count w.since time = min 1 (c.count (-1) (toInt32 time))
  else
    ∀ c ∈ w.stream.cue_points, c.count w.since time = 0

instance (w : World) (d : Display) : Decidable (Scheduled w d) := by
  unfold Scheduled
  infer_instance

/-! ## The check at one frame -/

/-- The events at a frame, when there is no division by zero. -/
def sentAt (w : World) (d : Display) : List (Option CuePoint) :=
  if Called w d then
    w.stream.cue_points.map (CuePoint.firing (toInt32 (w.stream.playTime d.vpts)))
  else
    w.stream.cue_points.map fun _ => none

theorem due_getD_firing (t : ℤ) : ((c.firing t).getD c).due a b = c.due a b := by
  unfold CuePoint.firing
  split_ifs <;> rfl

theorem frequency_getD_firing (t : ℤ) : ((c.firing t).getD c).frequency = c.frequency := by
  unfold CuePoint.firing
  split_ifs <;> rfl

/-- The stream behind the check at a frame is as before it, up to the next cue point and the times at
which cue points were sent. -/
structure Checked (s t : XineStream) : Prop where
  org_eq : t.org_next_cue_time = s.org_next_cue_time
  due_eq : ∀ a b, t.cue_points.map (CuePoint.due a b) = s.cue_points.map (CuePoint.due a b)
  frequency_eq : t.cue_points.map CuePoint.frequency = s.cue_points.map CuePoint.frequency

theorem videoOutLoopCue_eq_some {w : World} (horg : w.stream.org_next_cue_time = 0)
    (hfreq : ∀ c ∈ w.stream.cue_points, 0 ≤ c.frequency)
    (hdiv : Called w d → ∀ c ∈ w.stream.cue_points, c.Divides (toInt32 (w.stream.playTime d.vpts))) :
    ∃ t, videoOutLoopCue w.stream d = some (t, sentAt w d) ∧ Checked w.stream t := by
  unfold videoOutLoopCue sentAt
  split_ifs with hdue hcalled hcalled
  · have hcur : ¬toInt32 (w.stream.playTime d.vpts) < 0 := by
      have := hcalled.2
      omega
    have hsent := mapM_cueEvent_eq_some hcalled.2 fun c hc => ⟨hfreq c hc, hdiv hcalled c hc⟩
    unfold xineCuePointEvent
    simp only [horg, hcur, if_false, hsent, Option.map_some, List.zipWith_map_right,
      List.zipWith_self]
    refine ⟨_, rfl, horg.symm, fun a b => ?_, ?_⟩
    · unfold xineRecalculateNextCuePoint
      simp only [List.map_map]
      exact List.map_congr_left fun c _ => due_getD_firing _
    · unfold xineRecalculateNextCuePoint
      simp only [List.map_map]
      exact List.map_congr_left fun c _ => frequency_getD_firing _
  · -- the time is negative, and the sender returns at once
    have hcur : toInt32 (w.stream.playTime d.vpts) < 0 := by
      unfold Called at hcalled
      omega
    unfold xineCuePointEvent
    simp only [horg, hcur, if_true]
    exact ⟨_, rfl, rfl, fun a b => rfl, rfl⟩
  · exact absurd hcalled.1 hdue
  · exact ⟨_, rfl, rfl, fun a b => rfl, rfl⟩

theorem videoOutLoopCue_eq_none {w : World} (horg : w.stream.org_next_cue_time = 0)
    (hcalled : Called w d) (hc : c ∈ w.stream.cue_points)
    (hdiv : ¬c.Divides (toInt32 (w.stream.playTime d.vpts))) : videoOutLoopCue w.stream d = none := by
  have hcur : ¬toInt32 (w.stream.playTime d.vpts) < 0 := by
    have := hcalled.2
    omega
  unfold videoOutLoopCue xineCuePointEvent
  simp only [ge_iff_le, hcalled.1, if_true, horg, hcur, if_false, mapM_cueEvent_eq_none hc hdiv,
    Option.map_none]

theorem sentAt_eq_due_iff {w : World} :
    (sentAt w d).map Option.toList =
        w.stream.cue_points.map (CuePoint.due w.since (w.stream.playTime d.vpts)) ↔
      ∀ c ∈ w.stream.cue_points, c.count w.since (w.stream.playTime d.vpts) =
        if Called w d then min 1 (c.count (-1) (toInt32 (w.stream.playTime d.vpts))) else 0 := by
  unfold sentAt
  split_ifs with hcalled
  · rw [List.map_map, List.map_inj_left]
    refine forall₂_congr fun c _ => ?_
    unfold CuePoint.due
    rw [Function.comp_apply, CuePoint.toList_firing, List.replicate_left_inj, eq_comm]
  · rw [List.map_map, List.map_inj_left]
    refine forall₂_congr fun c _ => ?_
    unfold CuePoint.due
    rw [Function.comp_apply, Option.toList_none, eq_comm, List.replicate_eq_nil_iff]

/-! ## Runs -/

/-- The invariant of the runs in which the events are on time. -/
structure Good (w : World) : Prop where
  org_eq : w.stream.org_next_cue_time = 0
  frequency_nonneg : ∀ c ∈ w.stream.cue_points, 0 ≤ c.frequency
  on_time : OnTime w

theorem step_of_checked {w t : World} (hgood : Good w)
    (hdiv : Called w d → ∀ c ∈ w.stream.cue_points, c.Divides (toInt32 (w.stream.playTime d.vpts)))
    (h : step w d = some t) :
    Checked w.stream t.stream ∧ t.crashed = false ∧
      t.frames = w.frames ++ [⟨w.since, w.stream.playTime d.vpts, sentAt w d⟩] := by
  obtain ⟨s, hs, hchecked⟩ := videoOutLoopCue_eq_some hgood.org_eq hgood.frequency_nonneg hdiv
  unfold step at h
  split_ifs at h
  simp only [hs] at h
  cases h
  exact ⟨hchecked, hgood.on_time.1, rfl⟩

theorem onTime_step_iff {w t : World} (hgood : Good w)
    (hdiv : Called w d → ∀ c ∈ w.stream.cue_points, c.Divides (toInt32 (w.stream.playTime d.vpts)))
    (h : step w d = some t) :
    OnTime t ↔ ∀ c ∈ w.stream.cue_points, c.count w.since (w.stream.playTime d.vpts) =
      if Called w d then min 1 (c.count (-1) (toInt32 (w.stream.playTime d.vpts))) else 0 := by
  obtain ⟨hchecked, hcrashed, hframes⟩ := step_of_checked hgood hdiv h
  rw [← sentAt_eq_due_iff]
  unfold OnTime
  simp only [hcrashed, hframes, hchecked.due_eq, true_and, List.forall_mem_append,
    List.forall_mem_singleton]
  exact and_iff_right hgood.on_time.2

theorem Good.step {w t : World} (hgood : Good w) (hok : Scheduled w d) (h : step w d = some t) :
    Good t := by
  have hdiv : Called w d →
      ∀ c ∈ w.stream.cue_points, c.Divides (toInt32 (w.stream.playTime d.vpts)) := by
    intro hcalled c hc
    unfold Scheduled at hok
    rw [if_pos hcalled] at hok
    exact (hok c hc).1
  obtain ⟨hchecked, -, -⟩ := step_of_checked hgood hdiv h
  constructor
  · exact hchecked.org_eq.trans hgood.org_eq
  · -- the periods are those before the frame
    intro c hc
    have hmem : c.frequency ∈ t.stream.cue_points.map CuePoint.frequency := List.mem_map_of_mem hc
    rw [hchecked.frequency_eq] at hmem
    obtain ⟨b, hb, heq⟩ := List.mem_map.1 hmem
    rw [← heq]
    exact hgood.frequency_nonneg b hb
  · rw [onTime_step_iff hgood hdiv h]
    intro c hc
    unfold Scheduled at hok
    split_ifs at hok ⊢ with hcalled
    · exact (hok c hc).2
    · exact hok c hc

theorem Good.not_onTime {w t : World} (hgood : Good w) (hok : ¬Scheduled w d)
    (h : Cue.step w d = some t) : ¬OnTime t := by
  by_cases hdiv : Called w d →
      ∀ c ∈ w.stream.cue_points, c.Divides (toInt32 (w.stream.playTime d.vpts))
  · rw [onTime_step_iff hgood hdiv h]
    intro hall
    refine hok ?_
    unfold Scheduled
    split_ifs at hall ⊢ with hcalled
    · exact fun c hc => ⟨hdiv hcalled c hc, hall c hc⟩
    · exact hall
  · push Not at hdiv
    obtain ⟨hcalled, c, hc, hbad⟩ := hdiv
    unfold Cue.step at h
    rw [videoOutLoopCue_eq_none hgood.org_eq hcalled hc hbad] at h
    split_ifs at h
    cases h
    rintro ⟨hcrashed, -⟩
    exact Bool.noConfusion hcrashed

theorem foldl_create (cues : List (ℤ × ℤ)) (s : XineStream) :
    cues.foldl (fun stream cue => xineEventCreateCuePoint stream cue.1 cue.2) s =
      { s with cue_points := s.cue_points ++ cues.map fun cue => ⟨0, cue.1, cue.2⟩ } := by
  induction cues generalizing s with
  | nil => simp
  | cons cue cues ih =>
    rw [List.foldl_cons, ih]
    simp [xineEventCreateCuePoint]

theorem Good.start {cues : List (ℤ × ℤ)} (hfreq : ∀ cue ∈ cues, 0 ≤ cue.2)
    (vpts_offset vpts since : ℤ) : Good (start cues vpts_offset vpts since) := by
  constructor
  · unfold Cue.start
    rw [foldl_create]
    rfl
  · unfold Cue.start
    rw [foldl_create]
    intro c hc
    obtain ⟨cue, hcue, rfl⟩ := List.mem_map.1 hc
    exact hfreq cue hcue
  · exact ⟨rfl, fun f hf => absurd hf List.not_mem_nil⟩

/-- The events are on time in every state of a run if and only if each of its frames is one of the
scheduled cases. -/
theorem cue_points_on_time_iff {cues : List (ℤ × ℤ)} {vpts_offset vpts since : ℤ}
    {frames : List Display} {w : World} (hfreq : ∀ cue ∈ cues, 0 ≤ cue.2)
    (h : run step (start cues vpts_offset vpts since) frames = some w) :
    Guarded step Scheduled (start cues vpts_offset vpts since) frames ↔
      ∀ shown t, shown <+: frames →
        run step (start cues vpts_offset vpts since) shown = some t → OnTime t :=
  guarded_iff (fun _ hgood => hgood.on_time) (fun _ _ _ hgood hok ht => hgood.step hok ht)
    (fun _ _ _ hgood hok ht => hgood.not_onTime hok ht) (Good.start hfreq vpts_offset vpts since) h

/-- A cue point that comes at 2 ms and then each 2 ms, and frames at 1 and 2 ms. -/
theorem cue_points_on_time_iff_first :
    Guarded step Scheduled (start [(2, 2)] 0 45 0) [⟨90, 91⟩, ⟨180, 181⟩] ∧
      ∀ shown t, shown <+: [⟨90, 91⟩, ⟨180, 181⟩] →
        run step (start [(2, 2)] 0 45 0) shown = some t → OnTime t := by
  have hguarded : Guarded step Scheduled (start [(2, 2)] 0 45 0) [⟨90, 91⟩, ⟨180, 181⟩] := by decide
  exact ⟨hguarded, (cue_points_on_time_iff (by decide) rfl).1 hguarded⟩

/-- Two cue points that come once, and a frame when the first of them has come but not the second:
the sender divides by zero. -/
theorem cue_points_divide_by_zero :
    ∃ t, run step (start [(100, 0), (200, 0)] 0 900 0) [⟨9000, 9001⟩] = some t ∧
      t.crashed = true ∧ ¬OnTime t :=
  ⟨_, rfl, rfl, fun h => Bool.noConfusion h.1⟩

end Xine.Cue
