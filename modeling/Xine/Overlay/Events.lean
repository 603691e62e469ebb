import Xine.Overlay.Operations
import Xine.Library.Runs

/-!
# The processing of the due events

`video_overlay_event` processes the due events one after the other from the front of the queue. An
event that frees its handle removes the other events of this handle before their turn, so it processes
those of the due events that come behind no due event which frees their handle, and what is
left are those of the others that no due event frees.

The callers of the manager give the events a type, the handle of an object where the event is about an
object, and menu buttons an overlay.
-/

namespace Xine.Overlay

open Chain Places

/-- What the callers of `video_overlay_add_event` keep to. -/
structure VideoOverlayEvent.WellFormed (event : VideoOverlayEvent) : Prop where
  type : event.event_type ≠ overlayEventNull
  handle : event.event_type = overlayEventShow ∨ event.event_type = overlayEventMenuButton ∨
    event.event_type = overlayEventFreeHandle → IsHandle event.handle
  overlay : event.event_type = overlayEventMenuButton → event.overlay ≠ none

/-- The event `a` frees the handle of `c`. -/
def Frees (a c : VideoOverlayEvent) : Prop :=
  a.event_type = overlayEventFreeHandle ∧ c.handle = a.handle

instance (a c : VideoOverlayEvent) : Decidable (Frees a c) :=
  inferInstanceAs (Decidable (_ ∧ _))

/-- Whether one of the events in the slots `before` frees the handle of the event in the slot `c`. -/
def freed (events : ℕ → EventSlot) (before : List ℕ) (c : ℕ) : Bool :=
  before.any fun a => decide (Frees (events a).toVideoOverlayEvent (events c).toVideoOverlayEvent)

/-- Those of the events in the slots `xs` whose handle no event before them frees, in `xs` or in
`before`. -/
def served (events : ℕ → EventSlot) : List ℕ → List ℕ → List ℕ
  | _, [] => []
  | before, b :: xs =>
    if freed events before b then served events (b :: before) xs
    else b :: served events (b :: before) xs

/-- Whether the event in a slot is due. -/
def due (events : ℕ → EventSlot) (vpts : ℤ) (i : ℕ) : Bool := decide (IsDue vpts (events i).vpts)

/-- The events in the slots `xs` that are processed at a time. -/
def processedAt (events : ℕ → EventSlot) (vpts : ℤ) (xs : List ℕ) : List ℕ :=
  served events [] (xs.filter (due events vpts))

/-- Those that stay. -/
def leftAt (events : ℕ → EventSlot) (vpts : ℤ) (xs : List ℕ) : List ℕ :=
  (xs.filter fun i => !due events vpts i).filter fun i =>
    !freed events (xs.filter (due events vpts)) i

section Served

variable {events events' : ℕ → EventSlot} {vpts : ℤ} {xs before before' : List ℕ} {b c d : ℕ} {p : ℕ → Prop}

theorem freed_eq_true : freed events before c = true ↔
    ∃ a ∈ before, Frees (events a).toVideoOverlayEvent (events c).toVideoOverlayEvent := by
  simp [freed]

theorem freed_cons : freed events (b :: before) c = (freed events [b] c || freed events before c) := by
  simp [freed]

theorem freed_cons_cons : freed events (b :: c :: before) d = freed events (c :: b :: before) d := by
  simp [freed, Bool.or_left_comm]

theorem freed_congr_handle (h : (events c).handle = (events d).handle) :
    freed events before c = freed events before d := by
  rw [Bool.eq_iff_iff, freed_eq_true, freed_eq_true]
  simp only [Frees, h]

theorem freed_filter (hc : freed events [b] c = false) :
    freed events (xs.filter fun i => !freed events [b] i) c = freed events xs c := by
  rw [Bool.eq_iff_iff, freed_eq_true, freed_eq_true]
  constructor
  · rintro ⟨a, ha, hfrees⟩
    exact ⟨a, List.mem_of_mem_filter ha, hfrees⟩
  · rintro ⟨a, ha, hfrees⟩
    have hac : freed events [b] a = freed events [b] c := freed_congr_handle hfrees.2.symm
    exact ⟨a, List.mem_filter.2 ⟨ha, by simp [hac, hc]⟩, hfrees⟩

theorem freed_congr (hc : (events' c).toVideoOverlayEvent = (events c).toVideoOverlayEvent)
    (hbefore : ∀ i ∈ before, (events' i).toVideoOverlayEvent = (events i).toVideoOverlayEvent) :
    freed events' before c = freed events before c := by
  rw [Bool.eq_iff_iff, freed_eq_true, freed_eq_true, hc]
  refine exists_congr fun a => and_congr_right fun ha => ?_
  rw [hbefore a ha]

theorem served_congr (hxs : ∀ i ∈ xs, (events' i).toVideoOverlayEvent = (events i).toVideoOverlayEvent)
    (hbefore : ∀ i ∈ before, (events' i).toVideoOverlayEvent = (events i).toVideoOverlayEvent) :
    served events' before xs = served events before xs := by
  induction xs generalizing before with
  | nil => rfl
  | cons b xs ih =>
    have hb := hxs b (by simp)
    have hfreed : freed events' before b = freed events before b := freed_congr hb hbefore
    have hrest : served events' (b :: before) xs = served events (b :: before) xs := by
      refine ih (fun i hi => hxs i (by simp [hi])) fun i hi => ?_
      rcases List.mem_cons.1 hi with rfl | hi
      · exact hb
      · exact hbefore i hi
    rw [served, served, hfreed, hrest]

theorem served_congr_before (h : ∀ i ∈ xs, freed events before i = freed events before' i) :
    served events before xs = served events before' xs := by
  induction xs generalizing before before' with
  | nil => rfl
  | cons b xs ih =>
    have hrest : served events (b :: before) xs = served events (b :: before') xs := by
      refine ih fun i hi => ?_
      have hi' : freed events before i = freed events before' i := h i (by simp [hi])
      rw [freed_cons, hi', ← freed_cons]
    rw [served, served, h b (by simp), hrest]

theorem served_cons_before :
    served events (b :: before) xs = served events before (xs.filter fun i => !freed events [b] i) := by
  induction xs generalizing before with
  | nil => rfl
  | cons c xs ih =>
    have hrest : served events (c :: b :: before) xs =
        served events (c :: before) (xs.filter fun i => !freed events [b] i) := by
      rw [← ih]
      exact served_congr_before fun i _ => freed_cons_cons
    cases hc : freed events [b] c with
    | true =>
      rw [served, freed_cons, hc, hrest, List.filter_cons_of_neg (by simp [hc])]
      -- what `c` frees `b` has freed
      refine served_congr_before fun i hi => ?_
      have hi' : freed events [b] i = false := by simpa using (List.mem_filter.1 hi).2
      have hci : freed events [c] i = false := by
        rw [← Bool.not_eq_true, freed_eq_true]
        rintro ⟨a, ha, hfrees⟩
        obtain rfl := List.mem_singleton.1 ha
        rw [freed_congr_handle hfrees.2, hc] at hi'
        exact absurd hi' (by decide)
      rw [freed_cons, hci, Bool.false_or]
    | false =>
      rw [served, freed_cons, hc, hrest, Bool.false_or, List.filter_cons_of_pos (by simp [hc]), served]

theorem processedAt_congr (vpts : ℤ)
    (h : ∀ i ∈ xs, (events' i).toVideoOverlayEvent = (events i).toVideoOverlayEvent) :
    processedAt events' vpts xs = processedAt events vpts xs ∧
      leftAt events' vpts xs = leftAt events vpts xs := by
  have hdue : ∀ i ∈ xs, due events' vpts i = due events vpts i := fun i hi => by
    rw [due, due, h i hi]
  have hfilter : xs.filter (due events' vpts) = xs.filter (due events vpts) := List.filter_congr hdue
  have hnot : (xs.filter fun i => !due events' vpts i) = xs.filter fun i => !due events vpts i :=
    List.filter_congr fun i hi => by rw [hdue i hi]
  have hmem : ∀ i ∈ xs.filter (due events vpts),
      (events' i).toVideoOverlayEvent = (events i).toVideoOverlayEvent :=
    fun i hi => h i (List.mem_of_mem_filter hi)
  constructor
  · rw [processedAt, processedAt, hfilter]
    exact served_congr hmem fun i hi => absurd hi List.not_mem_nil
  · rw [leftAt, leftAt, hfilter, hnot]
    refine List.filter_congr fun i hi => ?_
    rw [freed_congr (h i (List.mem_of_mem_filter hi)) hmem]

theorem served_subset : served events before xs ⊆ xs := by
  induction xs generalizing before with
  | nil => exact List.Subset.refl []
  | cons b xs ih =>
    rw [served]
    split_ifs
    · exact List.subset_cons_of_subset b ih
    · exact List.cons_subset_cons b ih

theorem processedAt_subset : processedAt events vpts xs ⊆ xs :=
  List.Subset.trans served_subset fun _ hi => List.mem_of_mem_filter hi

theorem leftAt_subset : leftAt events vpts xs ⊆ xs :=
  fun _ hi => List.mem_of_mem_filter (List.mem_of_mem_filter hi)

theorem served_eq_self (hfreed : ∀ before, (∀ a ∈ before, p a) → ∀ c, freed events before c = false)
    (h : ∀ i ∈ xs, p i) : served events [] xs = xs := by
  suffices hall : ∀ before, (∀ a ∈ before, p a) → served events before xs = xs from
    hall [] fun a ha => absurd ha List.not_mem_nil
  induction xs with
  | nil => exact fun _ _ => rfl
  | cons b xs ih =>
    intro before hbefore
    have hcons : ∀ a ∈ b :: before, p a := fun a ha => by
      rcases List.mem_cons.1 ha with rfl | ha
      · exact h a List.mem_cons_self
      · exact hbefore a ha
    rw [served, hfreed before hbefore b, if_neg Bool.false_ne_true,
      ih (fun i hi => h i (List.mem_cons_of_mem b hi)) (b :: before) hcons]

theorem processedAt_cons (hb : due events vpts b = true) :
    processedAt events vpts (b :: xs) =
      b :: processedAt events vpts (xs.filter fun i => !freed events [b] i) := by
  have hcomm : (xs.filter (due events vpts)).filter (fun i => !freed events [b] i) =
      (xs.filter fun i => !freed events [b] i).filter (due events vpts) := by
    rw [List.filter_filter, List.filter_filter]
    exact List.filter_congr fun i _ => Bool.and_comm _ _
  rw [processedAt, List.filter_cons_of_pos hb, served, served_cons_before, hcomm]
  rfl

theorem leftAt_cons (hb : due events vpts b = true) :
    leftAt events vpts (b :: xs) = leftAt events vpts (xs.filter fun i => !freed events [b] i) := by
  unfold leftAt
  have hcomm : (xs.filter fun i => !freed events [b] i).filter (due events vpts) =
      (xs.filter (due events vpts)).filter fun i => !freed events [b] i := by
    rw [List.filter_filter, List.filter_filter]
    exact List.filter_congr fun i _ => Bool.and_comm _ _
  rw [List.filter_cons_of_pos hb, List.filter_cons_of_neg (by simp [hb]), hcomm, List.filter_filter,
    List.filter_filter, List.filter_filter]
  refine List.filter_congr fun i _ => ?_
  rw [freed_cons]
  cases hi : freed events [b] i with
  | true => simp
  | false => rw [freed_filter hi]; simp

theorem processedAt_of_not_due (h : ∀ i ∈ xs, due events vpts i = false) :
    processedAt events vpts xs = [] ∧ leftAt events vpts xs = xs := by
  have hnil : xs.filter (due events vpts) = [] := List.filter_eq_nil_iff.2 fun i hi => by simp [h i hi]
  have hself : (xs.filter fun i => !due events vpts i) = xs :=
    List.filter_eq_self.2 fun i hi => by simp [h i hi]
  rw [processedAt, leftAt, hnil, hself]
  exact ⟨rfl, List.filter_eq_self.2 fun i _ => rfl⟩

end Served

section Processing

variable {this this' : VideoOverlay} {xs rest : List ℕ} {b : ℕ} {vpts : ℤ}

/-- The state changes, as far as the queue looks at it, in the overlay of the event in slot `b`. -/
def OnlyOverlay (b : ℕ) (this this' : VideoOverlay) : Prop :=
  ∃ overlay, this'.events = Function.update this.events b { this.events b with overlay } ∧
    this'.accepted = this.accepted ∧ this'.processed = this.processed ∧ this'.removed = this.removed

theorem OnlyOverlay.refl (b : ℕ) (this : VideoOverlay) : OnlyOverlay b this this :=
  ⟨(this.events b).overlay, (Function.update_eq_self b this.events).symm, rfl, rfl, rfl⟩

theorem OnlyOverlay.inv (h : OnlyOverlay b this this') (hinv : Inv this xs) : Inv this' xs := by
  obtain ⟨overlay, hevents, haccepted, hprocessed, hremoved⟩ := h
  refine hinv.congr (fun i => ?_) haccepted hprocessed hremoved
  rw [hevents]
  by_cases hi : i = b
  · subst hi
    simp
  · simp [hi]

theorem OnlyOverlay.same (h : OnlyOverlay b this this') (hb : b ∉ xs) : SameEvents xs this this' := by
  obtain ⟨overlay, hevents, -⟩ := h
  intro i hi
  have hib : i ≠ b := ne_of_mem_of_not_mem hi hb
  rw [hevents, Function.update_of_ne hib]
  exact ⟨rfl, rfl⟩

theorem OnlyOverlay.serial (h : OnlyOverlay b this this') :
    (this'.events b).serial = (this.events b).serial := by
  obtain ⟨overlay, hevents, -⟩ := h
  rw [hevents, Function.update_self]

theorem eventCase_onlyOverlay (hwf : (this.events b).toVideoOverlayEvent.WellFormed)
    (htype : (this.events b).event_type ≠ overlayEventFreeHandle) :
    ∃ this', eventCase this b = some this' ∧ OnlyOverlay b this this' := by
  unfold eventCase
  by_cases hshow : (this.events b).event_type = overlayEventShow
  · rw [if_pos hshow]
    cases hoverlay : (this.events b).overlay with
    | none => exact ⟨this, rfl, OnlyOverlay.refl b this⟩
    | some overlay =>
      obtain ⟨showing, hadd⟩ :=
        addShowingHandle_frame (showObject this b overlay) (this.events b).handle
      refine ⟨_, if_pos (hwf.handle (.inl hshow)), ?_⟩
      rw [hadd]
      exact ⟨none, rfl, rfl, rfl, rfl⟩
  · rw [if_neg hshow]
    by_cases hhide : (this.events b).event_type = overlayEventHide
    · rw [if_pos hhide]
      exact ⟨_, rfl, none, rfl, rfl, rfl, rfl⟩
    · rw [if_neg hhide, if_neg htype]
      by_cases hmenu : (this.events b).event_type = overlayEventMenuButton
      · rw [if_pos hmenu]
        obtain ⟨event_overlay, hoverlay⟩ := Option.ne_none_iff_exists'.1 (hwf.overlay hmenu)
        rw [hoverlay]
        simp only [if_pos (hwf.handle (.inr (.inl hmenu)))]
        cases (this.objects (this.events b).handle).overlay with
        | none => exact ⟨_, rfl, none, rfl, rfl, rfl, rfl⟩
        | some overlay =>
          obtain ⟨showing, hadd⟩ := addShowingHandle_frame
            (this.setObject (this.events b).handle fun o => { o with
              handle := (this.events b).handle, overlay := some (mixOverlay overlay event_overlay) })
            (this.events b).handle
          refine ⟨_, rfl, ?_⟩
          rw [hadd]
          exact ⟨none, rfl, rfl, rfl, rfl⟩
      · rw [if_neg hmenu]
        exact ⟨this, rfl, OnlyOverlay.refl b this⟩

theorem clearHandle_spec (hinv : Inv this xs) :
    Inv (clearHandle this b) xs ∧ ((clearHandle this b).events b).handle = -1 ∧
      ((clearHandle this b).events b).serial = (this.events b).serial ∧
      ∀ i, i ≠ b → (clearHandle this b).events i = this.events i := by
  have hother : ∀ i, i ≠ b → (clearHandle this b).events i = this.events i := fun i hi => by
    simp [clearHandle, dropOverlay, VideoOverlay.setEvent, hi]
  refine ⟨hinv.congr (fun i => ?_) rfl rfl rfl,
    by simp [clearHandle, dropOverlay, VideoOverlay.setEvent],
    by simp [clearHandle, dropOverlay, VideoOverlay.setEvent], hother⟩
  by_cases hi : i = b
  · subst hi
    simp [clearHandle, dropOverlay, VideoOverlay.setEvent]
  · simp [hother i hi]

theorem eventCase_freeHandle (h : Inv this (b :: rest))
    (hwf : (this.events b).toVideoOverlayEvent.WellFormed)
    (htype : (this.events b).event_type = overlayEventFreeHandle) :
    ∃ this', eventCase this b = some this' ∧
      Inv this' (b :: rest.filter fun i => !freed this.events [b] i) ∧
      SameEvents (b :: rest.filter fun i => !freed this.events [b] i) (clearHandle this b) this' ∧
      this'.accepted = this.accepted ∧ this'.processed = this.processed ∧
      this'.removed = this.removed ++
        (rest.filter (freed this.events [b])).map fun i => (this.events i).serial := by
  have hhandle := hwf.handle (.inr (.inr htype))
  obtain ⟨hmem, -⟩ := List.nodup_cons.1 h.nodup.2
  obtain ⟨hinv, hnone, -, hother⟩ := clearHandle_spec (b := b) h
  obtain ⟨this', hfree, hinv', hsame, haccepted, hprocessed, hremoved⟩ := freeHandle_spec hinv hhandle
  have hb : hasHandle (clearHandle this b) (this.events b).handle b = false := by
    have hnonneg := hhandle.1
    rw [hasHandle, hnone]
    exact decide_eq_false (by omega)
  have hrest : ∀ i ∈ rest, hasHandle (clearHandle this b) (this.events b).handle i =
      freed this.events [b] i := by
    intro i hi
    rw [hasHandle, hother i (ne_of_mem_of_not_mem hi hmem)]
    simp [freed, Frees, htype]
  have hkept : ((b :: rest).filter fun i =>
      !hasHandle (clearHandle this b) (this.events b).handle i) =
      b :: rest.filter fun i => !freed this.events [b] i := by
    rw [List.filter_cons_of_pos (by simp [hb])]
    exact congrArg (b :: ·) (List.filter_congr fun i hi => by rw [hrest i hi])
  have hgone : ((b :: rest).filter (hasHandle (clearHandle this b) (this.events b).handle)).map
      (fun i => ((clearHandle this b).events i).serial) =
      (rest.filter (freed this.events [b])).map fun i => (this.events i).serial := by
    rw [List.filter_cons_of_neg (by simp [hb]), List.filter_congr hrest]
    refine List.map_congr_left fun i hi => ?_
    rw [hother i (ne_of_mem_of_not_mem (List.mem_of_mem_filter hi) hmem)]
  rw [hkept] at hinv' hsame
  rw [hgone] at hremoved
  refine ⟨this', ?_, hinv', hsame, haccepted, hprocessed, hremoved⟩
  rw [eventCase, htype]
  exact hfree

theorem eventCase_spec (h : Inv this (b :: rest))
    (hwf : (this.events b).toVideoOverlayEvent.WellFormed) :
    ∃ this', eventCase this b = some this' ∧
      Inv this' (b :: rest.filter fun i => !freed this.events [b] i) ∧
      SameEvents (rest.filter fun i => !freed this.events [b] i) this this' ∧
      (this'.events b).serial = (this.events b).serial ∧
      this'.accepted = this.accepted ∧ this'.processed = this.processed ∧
      this'.removed = this.removed ++
        (rest.filter (freed this.events [b])).map fun i => (this.events i).serial := by
  obtain ⟨hmem, -⟩ := List.nodup_cons.1 h.nodup.2
  by_cases htype : (this.events b).event_type = overlayEventFreeHandle
  · obtain ⟨this', hcase, hinv, hsame, haccepted, hprocessed, hremoved⟩ :=
      eventCase_freeHandle h hwf htype
    obtain ⟨-, -, hserial, hother⟩ := clearHandle_spec (b := b) h
    refine ⟨this', hcase, hinv, fun i hi => ?_, ?_, haccepted, hprocessed, hremoved⟩
    · have hib := ne_of_mem_of_not_mem (List.mem_of_mem_filter hi) hmem
      rw [← hother i hib]
      exact hsame i (List.mem_cons_of_mem b hi)
    · exact (hsame b (List.mem_cons_self)).2.trans hserial
  · obtain ⟨this', hcase, honly⟩ := eventCase_onlyOverlay hwf htype
    have hfreed : ∀ i, freed this.events [b] i = false := fun i => by simp [freed, Frees, htype]
    have hkept : (rest.filter fun i => !freed this.events [b] i) = rest :=
      List.filter_eq_self.2 fun i _ => by simp [hfreed i]
    have hnone : rest.filter (freed this.events [b]) = [] :=
      List.filter_eq_nil_iff.2 fun i _ => by simp [hfreed i]
    rw [hkept, hnone]
    obtain ⟨-, -, haccepted, hprocessed, hremoved⟩ := id honly
    exact ⟨this', hcase, honly.inv h, honly.same hmem, honly.serial, haccepted, hprocessed,
      by simpa using hremoved⟩

theorem finishEvent_spec (h : Inv this (b :: rest)) :
    Inv (finishEvent this b) rest ∧ SameEvents rest this (finishEvent this b) := by
  obtain ⟨hmem, -⟩ := List.nodup_cons.1 h.nodup.2
  have hother : ∀ i, i ≠ b → ((finishEvent this b).events i).toVideoOverlayEvent =
      (this.events i).toVideoOverlayEvent ∧
      ((finishEvent this b).events i).serial = (this.events i).serial := by
    intro i hi
    by_cases hzero : i = 0
    · subst hzero
      simp [finishEvent, VideoOverlay.setEvent, hi]
    · simp [finishEvent, VideoOverlay.setEvent, hi, hzero]
  have hxs : Inv this ([] ++ b :: rest) := h
  constructor
  · refine hxs.unlink (List.nil_append [0]) ?_ (fun i hi => ?_) ?_ rfl fun n => ?_
    · have hfreed : (finishEvent this b).nexts =
          ((this.setEvent 0 fun e => { e with next_event := (this.events b).next_event }).setEvent b
            fun e => { e with next_event := 0, event_type := 0 }).nexts := rfl
      rw [hfreed, VideoOverlay.nexts_setEvent, VideoOverlay.nexts_setEvent]
      rfl
    · exact ⟨congrArg VideoOverlayEvent.event_type (hother i hi).1,
        congrArg VideoOverlayEvent.vpts (hother i hi).1, (hother i hi).2⟩
    · simp [finishEvent, VideoOverlay.setEvent]
    · have hlog : (finishEvent this b).processed = this.processed ++ [(this.events b).serial] := rfl
      have hremoved : (finishEvent this b).removed = this.removed := rfl
      rw [hlog, hremoved, count_append_one]
      omega
  · exact fun i hi => hother i (ne_of_mem_of_not_mem hi hmem)

/-- Every queued event is well formed. -/
def QueueWellFormed (this : VideoOverlay) (xs : List ℕ) : Prop :=
  ∀ i ∈ xs, (this.events i).toVideoOverlayEvent.WellFormed

theorem QueueWellFormed.same {ys : List ℕ} (hwf : QueueWellFormed this xs)
    (hsame : SameEvents ys this this') (hsub : ys ⊆ xs) : QueueWellFormed this' ys := by
  intro i hi
  rw [(hsame i hi).1]
  exact hwf i (hsub hi)

theorem eventLoop_spec (vpts : ℤ) {fuel n : ℕ} (h : Inv this xs)
    (hwf : QueueWellFormed this xs) (hfuel : xs.length < fuel) :
    ∃ this', eventLoop vpts fuel this n =
        some (this', n + (processedAt this.events vpts xs).length) ∧
      Inv this' (leftAt this.events vpts xs) ∧ SameEvents (leftAt this.events vpts xs) this this' ∧
      this'.accepted = this.accepted ∧
      this'.processed = this.processed ++
        (processedAt this.events vpts xs).map (fun i => (this.events i).serial) ∧
      ∀ serial ∈ this'.removed, serial ∈ this.removed ∨
        ∃ c ∈ xs, (this.events c).serial = serial ∧
          freed this.events (processedAt this.events vpts xs) c = true := by
  induction fuel generalizing this xs n with
  | zero => exact absurd hfuel (Nat.not_lt_zero _)
  | succ fuel ih =>
    have hxs : Inv this ([] ++ xs) := h
    have hnext := hxs.next_event (List.nil_append [0])
    cases xs with
    | nil =>
      have hzero : (this.events 0).next_event = 0 := ptr_eq_none.1 hnext
      refine ⟨this, ?_, h, SameEvents.refl [] this, rfl, by simp [processedAt, served],
        fun n hn => .inl hn⟩
      rw [eventLoop, if_neg fun hboth => hboth.1 hzero]
      rfl
    | cons b rest =>
      obtain ⟨hb, hzero⟩ := ptr_eq_some.1 hnext
      by_cases hdue : IsDue vpts (this.events b).vpts
      · have hdue' : due this.events vpts b = true := decide_eq_true hdue
        obtain ⟨this₁, hcase, hinv₁, hsame₁, hserial₁, haccepted₁, hprocessed₁, hremoved₁⟩ :=
          eventCase_spec h (hwf b List.mem_cons_self)
        obtain ⟨hinv₂, hsame₂⟩ := finishEvent_spec hinv₁
        have hsame := hsame₁.trans hsame₂
        have hsub : (rest.filter fun i => !freed this.events [b] i) ⊆ b :: rest :=
          fun i hi => List.mem_cons_of_mem b (List.mem_of_mem_filter hi)
        have hlen : (rest.filter fun i => !freed this.events [b] i).length < fuel :=
          (List.length_filter_le _ rest).trans_lt (by simpa using hfuel)
        obtain ⟨this', hloop, hinv', hsame', haccepted', hprocessed', hremoved'⟩ :=
          ih (n := n + 1) hinv₂ (hwf.same hsame hsub) hlen
        -- the rest of the loop sees the events that `b` does not free as they were
        have hevents := fun i hi => (hsame i hi).1
        obtain ⟨hserved, hleft⟩ := processedAt_congr vpts hevents
        rw [hserved] at hloop hprocessed' hremoved'
        rw [hleft] at hinv' hsame'
        rw [processedAt_cons hdue', leftAt_cons hdue']
        have hserials : ∀ i ∈ processedAt this.events vpts (rest.filter fun i =>
            !freed this.events [b] i), ((finishEvent this₁ b).events i).serial =
              (this.events i).serial :=
          fun i hi => (hsame i (processedAt_subset hi)).2
        refine ⟨this', ?_, hinv', (hsame.subset leftAt_subset).trans hsame', ?_, ?_, ?_⟩
        · rw [eventLoop, hb, if_pos ⟨hzero, hdue⟩, hcase, Option.bind_some, hloop, List.length_cons]
          congr 2
          omega
        · exact haccepted'.trans haccepted₁
        · have hlog : (finishEvent this₁ b).processed = this.processed ++ [(this.events b).serial] := by
            rw [← hserial₁, ← hprocessed₁]
            rfl
          rw [hprocessed', hlog, List.map_congr_left hserials, List.map_cons, List.append_assoc,
            List.singleton_append]
        · intro serial hserial
          rcases hremoved' serial hserial with hold | ⟨c, hc, heq, hfreed⟩
          · have hlog : (finishEvent this₁ b).removed = this₁.removed := rfl
            rw [hlog, hremoved₁, List.mem_append] at hold
            refine hold.imp_right fun hgone => ?_
            obtain ⟨c, hc, rfl⟩ := List.mem_map.1 hgone
            obtain ⟨hc, hfreed⟩ := List.mem_filter.1 hc
            exact ⟨c, List.mem_cons_of_mem b hc, rfl, by rw [freed_cons, hfreed, Bool.true_or]⟩
          · right
            refine ⟨c, hsub hc, (hsame c hc).2.symm.trans heq, ?_⟩
            rw [freed_cons, ← freed_congr (hevents c hc) fun i hi => hevents i (processedAt_subset hi),
              hfreed, Bool.or_true]
      · -- then nothing in the agenda is due
        have hnot : ∀ i ∈ b :: rest, due this.events vpts i = false := by
          intro i hi
          refine decide_eq_false fun hi' => hdue ?_
          rcases List.mem_cons.1 hi with rfl | hi
          · exact hi'
          · exact hi'.imp_left fun hlt => (h.ordered.key_le hi).trans_lt hlt
        obtain ⟨hnone, hself⟩ := processedAt_of_not_due hnot
        rw [hnone, hself]
        refine ⟨this, ?_, h, SameEvents.refl _ this, rfl, by simp, fun serial hs => .inl hs⟩
        rw [eventLoop, hb, if_neg fun hboth => hdue hboth.2]
        rfl

end Processing

/-! ## Every sequence of calls -/

/-- A call to the manager that concerns the queue. -/
inductive Call where
  | addEvent (event : VideoOverlayEvent)
  | freeHandle (handle : ℤ)
  | process (vpts : ℤ)

/-- What the callers keep to. -/
def Call.WellFormed : Call → Prop
  | .addEvent event => event.WellFormed
  | .freeHandle handle => IsHandle handle
  | .process _ => True

/-- The state after a call. -/
def call (this : VideoOverlay) : Call → Option VideoOverlay
  | .addEvent event => (videoOverlayAddEvent this event).map Prod.fst
  | .freeHandle handle => videoOverlayFreeHandle this handle
  | .process vpts => (videoOverlayEvent this vpts).map Prod.fst

section Calls

variable {this this' : VideoOverlay} {xs : List ℕ}

theorem init_inv : Inv videoOverlayInit [] where
  chain := by
    refine linked_cons.2 ⟨rfl, ?_⟩
    exact linked_nil.2 rfl
  used := fun i => by simp [videoOverlayInit]
  ordered := List.Pairwise.nil
  place := fun n => by simp [videoOverlayInit, one]

theorem addEvent_queue (event : VideoOverlayEvent) (h : Inv this xs) (hwf : QueueWellFormed this xs)
    (hevent : event.WellFormed) :
    (videoOverlayAddEvent this event = some (this, -1) ∧ ∀ i, i ≠ 0 → i < maxEvents → i ∈ xs) ∨
    ∃ (this' : VideoOverlay) (b : ℕ), videoOverlayAddEvent this event = some (this', (b : ℤ)) ∧
      (this'.events b).toVideoOverlayEvent = event ∧ SameEvents xs this this' ∧
      Inv this' (Agenda.insert (fun i => (this.events i).vpts) event.vpts b xs) ∧
      QueueWellFormed this' (Agenda.insert (fun i => (this.events i).vpts) event.vpts b xs) ∧
      this'.accepted = this.accepted + 1 ∧ this'.processed = this.processed ∧
      this'.removed = this.removed := by
  rcases addEvent_spec event h hevent.type with ⟨hadd, hfull⟩ | ⟨l, n, b, hadd, hinv, hbxs⟩
  · exact .inl ⟨hadd, fun i hi hlt => (h.used i).2 ⟨hlt, hfull i hi hlt⟩⟩
  · obtain ⟨hnew, -, hother⟩ := insertEvent_events this event (l := l) (n := n) b
    have hsame : SameEvents xs this (insertEvent this event l n b) :=
      fun i hi => hother i (ne_of_mem_of_not_mem hi hbxs)
    refine .inr ⟨insertEvent this event l n b, b, hadd, hnew, hsame, hinv, fun i hi => ?_, rfl, rfl,
      rfl⟩
    rcases Agenda.mem_insert.1 hi with rfl | hi
    · rw [hnew]
      exact hevent
    · rw [(hsame i hi).1]
      exact hwf i hi

theorem call_spec (c : Call) (h : Inv this xs) (hwf : QueueWellFormed this xs) (hc : c.WellFormed) :
    ∃ this' xs', call this c = some this' ∧ Inv this' xs' ∧ QueueWellFormed this' xs' := by
  cases c with
  | addEvent event =>
    rcases addEvent_queue event h hwf hc with ⟨hadd, -⟩ | ⟨this', b, hadd, -, -, hinv, hwf', -⟩
    · exact ⟨this, xs, by rw [call, hadd]; rfl, h, hwf⟩
    · exact ⟨this', _, by rw [call, hadd]; rfl, hinv, hwf'⟩
  | freeHandle handle =>
    obtain ⟨this', hfree, hinv, hsame, -⟩ := freeHandle_spec h hc
    exact ⟨this', _, hfree, hinv, hwf.same hsame (List.filter_subset_self xs)⟩
  | process vpts =>
    obtain ⟨this', hloop, hinv, hsame, -⟩ := eventLoop_spec vpts (n := 0) h hwf h.length_lt
    exact ⟨this', _, by rw [call, videoOverlayEvent, hloop]; rfl, hinv,
      hwf.same hsame leftAt_subset⟩

theorem calls_spec {calls : List Call} (hcalls : ∀ c ∈ calls, c.WellFormed) (h : Inv this xs)
    (hwf : QueueWellFormed this xs) :
    ∃ this' xs', Runs.run call this calls = some this' ∧ Inv this' xs' ∧ QueueWellFormed this' xs' := by
  induction calls generalizing this xs with
  | nil => exact ⟨this, xs, rfl, h, hwf⟩
  | cons c calls ih =>
    obtain ⟨this₁, xs₁, hcall, hinv₁, hwf₁⟩ := call_spec c h hwf (hcalls c List.mem_cons_self)
    obtain ⟨this', xs', hrun, hinv', hwf'⟩ :=
      ih (fun c hc => hcalls c (List.mem_cons_of_mem _ hc)) hinv₁ hwf₁
    exact ⟨this', xs', Runs.run_cons_eq_some.2 ⟨this₁, hcall, hrun⟩, hinv', hwf'⟩

theorem processedAt_of_not_free {vpts : ℤ} (h : Inv this xs)
    (htype : ∀ i ∈ xs, due this.events vpts i = true →
      (this.events i).event_type ≠ overlayEventFreeHandle) :
    processedAt this.events vpts xs = xs.takeWhile (due this.events vpts) ∧
      leftAt this.events vpts xs = xs.dropWhile (due this.events vpts) := by
  have hdown : ∀ b c, (this.events b).vpts ≤ (this.events c).vpts →
      due this.events vpts c → due this.events vpts b := fun b c hbc hc =>
    decide_eq_true ((of_decide_eq_true hc).imp_left fun hlt => hbc.trans_lt hlt)
  obtain ⟨htake, hdrop⟩ := h.ordered.takeWhile_eq_filter hdown
  have hfreed : ∀ before, (∀ a ∈ before, (this.events a).event_type ≠ overlayEventFreeHandle) →
      ∀ c, freed this.events before c = false := by
    intro before hbefore c
    rw [← Bool.not_eq_true, freed_eq_true]
    rintro ⟨a, ha, hfrees⟩
    exact hbefore a ha hfrees.1
  have hfilter : ∀ i ∈ xs.filter (due this.events vpts),
      (this.events i).event_type ≠ overlayEventFreeHandle := fun i hi =>
    htype i (List.mem_filter.1 hi).1 (List.mem_filter.1 hi).2
  constructor
  · rw [processedAt, htake]
    exact served_eq_self hfreed fun i hi => hfilter i hi
  · rw [leftAt, hdrop]
    exact List.filter_eq_self.2 fun i _ => by rw [hfreed _ hfilter, Bool.not_false]

end Calls

/-- After every sequence of calls the slots in use are those of the queue, which is an agenda, and
each accepted event is queued, processed or removed; and whatever is called next, an event is entered
into the queue, unless all slots are in use, freeing a handle removes its events, and processing takes
the due events in their order, each once, but for those whose handle an event before them frees. -/
theorem queue_run_in_order {calls : List Call} (hcalls : ∀ c ∈ calls, c.WellFormed) :
    ∃ this xs, Runs.run call videoOverlayInit calls = some this ∧ Inv this xs ∧
      (∀ event : VideoOverlayEvent, event.WellFormed →
        (videoOverlayAddEvent this event = some (this, -1) ∧ ∀ i, i ≠ 0 → i < maxEvents → i ∈ xs) ∨
        ∃ (this' : VideoOverlay) (b : ℕ), videoOverlayAddEvent this event = some (this', (b : ℤ)) ∧
          (this'.events b).toVideoOverlayEvent = event ∧ SameEvents xs this this' ∧
          Inv this' (Agenda.insert (fun i => (this.events i).vpts) event.vpts b xs) ∧
          this'.accepted = this.accepted + 1 ∧ this'.processed = this.processed ∧
          this'.removed = this.removed) ∧
      (∀ handle, IsHandle handle → ∃ this', videoOverlayFreeHandle this handle = some this' ∧
        Inv this' (xs.filter fun i => !hasHandle this handle i) ∧
        SameEvents (xs.filter fun i => !hasHandle this handle i) this this' ∧
        this'.accepted = this.accepted ∧ this'.processed = this.processed ∧
        this'.removed = this.removed ++
          (xs.filter (hasHandle this handle)).map fun i => (this.events i).serial) ∧
      ∀ vpts, ∃ this', videoOverlayEvent this vpts =
          some (this', (processedAt this.events vpts xs).length) ∧
        Inv this' (leftAt this.events vpts xs) ∧ SameEvents (leftAt this.events vpts xs) this this' ∧
        this'.accepted = this.accepted ∧
        this'.processed = this.processed ++
          (processedAt this.events vpts xs).map (fun i => (this.events i).serial) ∧
        (∀ serial ∈ this'.removed, serial ∈ this.removed ∨
          ∃ c ∈ xs, (this.events c).serial = serial ∧
            freed this.events (processedAt this.events vpts xs) c = true) ∧
        ((∀ i ∈ xs, due this.events vpts i = true →
            (this.events i).event_type ≠ overlayEventFreeHandle) →
          processedAt this.events vpts xs = xs.takeWhile (due this.events vpts) ∧
            leftAt this.events vpts xs = xs.dropWhile (due this.events vpts)) := by
  obtain ⟨this, xs, hrun, h, hwf⟩ :=
    calls_spec hcalls init_inv fun i hi => absurd hi List.not_mem_nil
  refine ⟨this, xs, hrun, h, fun event hevent => ?_, fun handle hhandle => freeHandle_spec h hhandle,
    fun vpts => ?_⟩
  · rcases addEvent_queue event h hwf hevent with hfull | ⟨this', b, hadd, hnew, hsame, hinv, -, hlog⟩
    · exact .inl hfull
    · exact .inr ⟨this', b, hadd, hnew, hsame, hinv, hlog⟩
  · obtain ⟨this', hloop, hinv, hsame, haccepted, hprocessed, hremoved⟩ :=
      eventLoop_spec vpts (n := 0) h hwf h.length_lt
    refine ⟨this', ?_, hinv, hsame, haccepted, hprocessed, hremoved, processedAt_of_not_free h⟩
    rw [videoOverlayEvent, hloop, Nat.zero_add]

/-- The event that frees handle 0 at the time 10. -/
def freeAtTen : VideoOverlayEvent := ⟨overlayEventFreeHandle, 10, 0, 0, none⟩

/-- The event that hides handle 0 at the time 20. -/
def hideAtTwenty : VideoOverlayEvent := ⟨overlayEventHide, 20, 0, 0, none⟩

/-- Both events are accepted. -/
theorem queue_run_in_order_freed : ∃ this xs,
    Runs.run call videoOverlayInit [.addEvent freeAtTen, .addEvent hideAtTwenty] = some this ∧
      Inv this xs := by
  have hfree : freeAtTen.WellFormed := ⟨by decide, fun _ => by decide, by decide⟩
  have hhide : hideAtTwenty.WellFormed := ⟨by decide, fun _ => by decide, by decide⟩
  have hcalls : ∀ c ∈ [Call.addEvent freeAtTen, .addEvent hideAtTwenty], c.WellFormed := by
    intro c hc
    rcases List.mem_cons.1 hc with rfl | hc
    · exact hfree
    · obtain rfl := List.mem_singleton.1 hc
      exact hhide
  obtain ⟨this, xs, hrun, hinv, -⟩ := queue_run_in_order hcalls
  exact ⟨this, xs, hrun, hinv⟩

/-- Both are due at the time 30, but only the one that frees the handle is processed. -/
theorem due_event_not_processed : ∃ this this' : VideoOverlay,
    Runs.run call videoOverlayInit [.addEvent freeAtTen, .addEvent hideAtTwenty] = some this ∧
      Linked this.nexts (some 0) [0, 1, 2] ∧ (∀ i ∈ [1, 2], due this.events 30 i = true) ∧
      videoOverlayEvent this 30 = some (this', 1) ∧
      this'.processed ≠ [1, 2].map fun i => (this.events i).serial := by
  have hrun : (Runs.run call videoOverlayInit [.addEvent freeAtTen, .addEvent hideAtTwenty]).bind
      (fun this => (videoOverlayEvent this 30).map fun r =>
        ([0, 1, 2].map this.nexts, [1, 2].map (due this.events 30),
          [1, 2].map fun i => (this.events i).serial, r.2, r.1.processed)) =
      some ([some 1, some 2, none], [true, true], [0, 1], 1, [0]) := rfl
  obtain ⟨this, hthis, hevent⟩ := Option.bind_eq_some_iff.1 hrun
  obtain ⟨⟨this', n⟩, hevent, heq⟩ := Option.map_eq_some_iff.1 hevent
  simp only [List.map_cons, List.map_nil, Prod.mk.injEq, List.cons.injEq, and_true] at heq
  obtain ⟨⟨h0, h1, h2⟩, ⟨hdue1, hdue2⟩, ⟨hserial1, hserial2⟩, rfl, hprocessed⟩ := heq
  refine ⟨this, this', hthis, by simp [h0, h1, h2], by simp [hdue1, hdue2], hevent, ?_⟩
  simp [hprocessed, hserial1, hserial2]

end Xine.Overlay
