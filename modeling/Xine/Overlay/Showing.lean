import Xine.Overlay.Events
import Xine.Overlay.Threads

/-!
# The showing handles

A showing handle names an object that has an overlay, and no two entries of the table name the same. This fails
when the video thread shows a handle that another thread is about to free: the handle is out of the table after
the first section of `video_overlay_free_handle`, the processed event puts it in again, and the last section takes
the overlay.
-/

namespace Xine.Overlay

section Frames

variable {this this' : VideoOverlay}

theorem removeEventsLoop_frame {handle : ℤ} {fuel last : ℕ}
    (h : removeEventsLoop handle fuel this last = some this') :
    this'.objects = this.objects ∧ this'.showing = this.showing := by
  induction fuel generalizing this last with
  | zero => exact absurd h (Option.some_ne_none _).symm
  | succ fuel ih =>
    rw [removeEventsLoop] at h
    split_ifs at h
    · cases h
      exact ⟨rfl, rfl⟩
    · have hrest := ih h
      exact hrest
    · exact ih h

theorem addEvent_frame {event : VideoOverlayEvent} {slot : ℤ}
    (h : videoOverlayAddEvent this event = some (this', slot)) :
    this'.objects = this.objects ∧ this'.showing = this.showing := by
  unfold videoOverlayAddEvent at h
  split at h
  · obtain ⟨place, -, heq⟩ := Option.map_eq_some_iff.1 h
    obtain ⟨rfl, -⟩ := Prod.mk.inj heq
    exact ⟨rfl, rfl⟩
  · obtain ⟨rfl, -⟩ := Prod.mk.inj (Option.some.inj h)
    exact ⟨rfl, rfl⟩

theorem getHandle_frame (this : VideoOverlay) (object_type handle : ℤ) :
    ((videoOverlayGetHandle this object_type).1.objects handle).overlay =
      (this.objects handle).overlay ∧
    (videoOverlayGetHandle this object_type).1.showing = this.showing := by
  unfold videoOverlayGetHandle
  split
  · rename_i n _
    refine ⟨?_, rfl⟩
    by_cases h : handle = n
    · subst h
      simp [VideoOverlay.setObject]
    · simp [VideoOverlay.setObject, h]
  · exact ⟨rfl, rfl⟩

theorem internalFreeHandle_frame {handle : ℤ} (h : internalFreeHandle this handle = some this') :
    this'.showing = this.showing ∧
      ∀ other, other ≠ handle → this'.objects other = this.objects other := by
  obtain ⟨-, heq⟩ := Option.ite_none_right_eq_some.1 h
  cases heq
  exact ⟨rfl, fun other hother => by simp [VideoOverlay.setObject, hother]⟩

/-- No two entries of the table name the same object. -/
def Distinct (showing : Fin maxShowing → ℤ) : Prop :=
  ∀ i j, 0 ≤ showing i → showing i = showing j → i = j

theorem removeShowingHandle_distinct (handle : ℤ) (h : Distinct this.showing) :
    Distinct (removeShowingHandle this handle).showing ∧
      ∀ i, 0 ≤ (removeShowingHandle this handle).showing i →
        (removeShowingHandle this handle).showing i = this.showing i ∧
          (removeShowingHandle this handle).showing i ≠ handle := by
  have hkept : ∀ i, 0 ≤ (removeShowingHandle this handle).showing i →
      (removeShowingHandle this handle).showing i = this.showing i ∧
        (removeShowingHandle this handle).showing i ≠ handle := by
    intro i hi
    simp only [removeShowingHandle] at hi ⊢
    split_ifs at hi ⊢ with hif
    · exact absurd hi (by decide)
    · exact ⟨rfl, hif⟩
  refine ⟨fun i j hi hij => ?_, hkept⟩
  obtain ⟨hsame, -⟩ := hkept i hi
  obtain ⟨hsame', -⟩ := hkept j (hij ▸ hi)
  exact h i j (hsame ▸ hi) (hsame ▸ hsame' ▸ hij)

theorem addShowingHandle_distinct (handle : ℤ) (h : Distinct this.showing) :
    Distinct (addShowingHandle this handle).showing ∧
      ∀ i, (addShowingHandle this handle).showing i = this.showing i ∨
        (addShowingHandle this handle).showing i = handle := by
  unfold addShowingHandle
  split_ifs with hshown
  · exact ⟨h, fun _ => .inl rfl⟩
  · split
    · rename_i i _
      rw [not_exists] at hshown
      refine ⟨fun j k hj hjk => ?_, fun j => ?_⟩
      · simp only [Function.update_apply] at hj hjk
        split_ifs at hj hjk with hji hki hki
        · exact hji.trans hki.symm
        · exact absurd hjk.symm (hshown k)
        · exact absurd hjk (hshown j)
        · exact h j k hj hjk
      · simp only [Function.update_apply]
        split_ifs
        · exact .inr rfl
        · exact .inl rfl
    · exact ⟨h, fun _ => .inl rfl⟩

end Frames

variable {τ : Type*}

/-- Another thread has begun to free the handle, and has not freed the object yet. -/
def Freeing (pc : τ → Pc) (handle : ℤ) : Prop :=
  ∃ t, pc t = .freeEvents handle ∨ pc t = .freeObject handle

/-- The handle that the next section of the video thread is about, when it shows a handle. -/
def showsNext (s : State τ) : Option ℤ :=
  match s.video with
  | .loop vpts =>
    let event := s.this.events (s.this.events 0).next_event
    if (s.this.events 0).next_event ≠ 0 ∧ IsDue vpts event.vpts ∧
        (event.event_type = overlayEventShow ∨ event.event_type = overlayEventMenuButton) then
      some event.handle
    else none
  | .addShowing _ _ handle => some handle
  | _ => none

/-- The video thread does not show a handle that another thread has begun to free. -/
def Undisturbed (s : State τ) : Action τ → Prop
  | .video => ∀ handle, showsNext s = some handle → ¬Freeing s.pc handle
  | _ => True

/-- The showing handles have overlays, and are not being freed. -/
structure Shown (s : State τ) : Prop where
  distinct : Distinct s.this.showing
  shown : ∀ i, 0 ≤ s.this.showing i → IsHandle (s.this.showing i) ∧
    (s.this.objects (s.this.showing i)).overlay ≠ none ∧ ¬Freeing s.pc (s.this.showing i)
  blended : ∀ overlay ∈ s.blended, overlay ≠ none

/-- What holds between the sections of the video thread. -/
def VideoInv (s : State τ) : Prop :=
  match s.video with
  | .addShowing _ _ handle => IsHandle handle ∧ (s.this.objects handle).overlay ≠ none ∧
      ∀ t, s.pc t ≠ .freeObject handle
  | .freeEvents _ _ handle | .freeObject _ _ handle =>
    ∀ i, 0 ≤ s.this.showing i → s.this.showing i ≠ handle
  | _ => True

section Steps

variable {s s' : State τ}

theorem Shown.congr (h : Shown s) (hdistinct : Distinct s'.this.showing)
    (hshown : ∀ i, 0 ≤ s'.this.showing i → s'.this.showing i = s.this.showing i ∧
      ((s.this.objects (s.this.showing i)).overlay ≠ none →
        (s'.this.objects (s.this.showing i)).overlay ≠ none) ∧
      (Freeing s'.pc (s.this.showing i) → Freeing s.pc (s.this.showing i)))
    (hblended : ∀ overlay ∈ s'.blended, overlay ≠ none) : Shown s' where
  distinct := hdistinct
  shown := fun i hi => by
    obtain ⟨hsame, hoverlay, hfreeing⟩ := hshown i hi
    rw [hsame] at hi ⊢
    obtain ⟨hhandle, hsome, hfree⟩ := h.shown i hi
    exact ⟨hhandle, hoverlay hsome, fun hf => hfree (hfreeing hf)⟩
  blended := hblended

theorem Shown.of_same (h : Shown s) (hshowing : s'.this.showing = s.this.showing)
    (hoverlay : ∀ handle, (s.this.objects handle).overlay ≠ none →
      (s'.this.objects handle).overlay ≠ none)
    (hpc : s'.pc = s.pc) (hblended : s'.blended = s.blended) : Shown s' := by
  refine h.congr (hshowing ▸ h.distinct) (fun i _ => ⟨congrFun hshowing i, hoverlay _, ?_⟩) ?_
  · rw [hpc]
    exact id
  · rw [hblended]
    exact h.blended

theorem VideoInv.of_same (h : VideoInv s) (hvideo : s'.video = s.video)
    (hshowing : ∀ i, 0 ≤ s'.this.showing i → s'.this.showing i = s.this.showing i)
    (hoverlay : ∀ vpts this_event handle, s.video = .addShowing vpts this_event handle →
      (s.this.objects handle).overlay ≠ none → (s'.this.objects handle).overlay ≠ none)
    (hpc : ∀ vpts this_event handle t, s.video = .addShowing vpts this_event handle →
      s'.pc t = .freeObject handle → s.pc t = .freeObject handle) : VideoInv s' := by
  have hkept : ∀ handle, (∀ i, 0 ≤ s.this.showing i → s.this.showing i ≠ handle) →
      ∀ i, 0 ≤ s'.this.showing i → s'.this.showing i ≠ handle := by
    intro handle hne i hi
    have hsame := hshowing i hi
    rw [hsame] at hi ⊢
    exact hne i hi
  unfold VideoInv at h ⊢
  rw [hvideo]
  cases hv : s.video with
  | addShowing vpts this_event handle =>
    rw [hv] at h
    obtain ⟨hhandle, hsome, hfree⟩ := h
    exact ⟨hhandle, hoverlay vpts this_event handle hv hsome,
      fun t ht => hfree t (hpc vpts this_event handle t hv ht)⟩
  | freeEvents vpts this_event handle =>
    rw [hv] at h
    exact hkept handle h
  | freeObject vpts this_event handle =>
    rw [hv] at h
    exact hkept handle h
  | _ => trivial

/-- Where the first section of a case leads to: to showing the handle of a `OVERLAY_EVENT_SHOW` or
`OVERLAY_EVENT_MENU_BUTTON` whose object has an overlay then, but not into freeing a handle. -/
def StartedAt (event : VideoOverlayEvent) (this : VideoOverlay) : VideoPc → Prop
  | .addShowing _ _ handle => IsHandle handle ∧ (this.objects handle).overlay ≠ none ∧
      handle = event.handle ∧
      (event.event_type = overlayEventShow ∨ event.event_type = overlayEventMenuButton)
  | .freeEvents .. | .freeObject .. => False
  | _ => True

theorem caseStart_spec {this this' : VideoOverlay} {vpts : ℤ} {this_event : ℕ} {pc : VideoPc}
    (h : caseStart this vpts this_event = some (this', pc)) :
    this'.showing = this.showing ∧
      (∀ handle, (this.objects handle).overlay ≠ none → (this'.objects handle).overlay ≠ none) ∧
      StartedAt (this.events this_event).toVideoOverlayEvent this' pc := by
  have hset : ∀ (handle : ℤ) (f : VideoOverlayObject → VideoOverlayObject),
      (f (this.objects handle)).overlay ≠ none → ∀ other, (this.objects other).overlay ≠ none →
        ((this.setObject handle f).objects other).overlay ≠ none := by
    intro handle f hf other hother
    by_cases heq : other = handle
    · subst heq
      simpa [VideoOverlay.setObject] using hf
    · simpa [VideoOverlay.setObject, heq] using hother
  unfold caseStart at h
  simp only at h
  by_cases hshow : (this.events this_event).event_type = overlayEventShow
  · rw [if_pos hshow] at h
    cases hoverlay : (this.events this_event).overlay with
    | none =>
      rw [hoverlay] at h
      obtain ⟨rfl, rfl⟩ := Prod.mk.inj (Option.some.inj h)
      exact ⟨rfl, fun _ hsome => hsome, trivial⟩
    | some overlay =>
      rw [hoverlay] at h
      obtain ⟨hhandle, heq⟩ := Option.ite_none_right_eq_some.1 h
      obtain ⟨rfl, rfl⟩ := Prod.mk.inj (Option.some.inj heq)
      have hkept := hset (this.events this_event).handle (fun o => { o with
        handle := (this.events this_event).handle
        overlay := some overlay
        pts := (this.events this_event).pts }) (Option.some_ne_none overlay)
      refine ⟨rfl, hkept, hhandle, ?_, rfl, .inl hshow⟩
      simp [showObject, VideoOverlay.setObject, VideoOverlay.setEvent]
  rw [if_neg hshow] at h
  by_cases hhide : (this.events this_event).event_type = overlayEventHide
  · rw [if_pos hhide] at h
    obtain ⟨rfl, rfl⟩ := Prod.mk.inj (Option.some.inj h)
    exact ⟨rfl, fun _ hsome => hsome, trivial⟩
  rw [if_neg hhide] at h
  by_cases hfree : (this.events this_event).event_type = overlayEventFreeHandle
  · rw [if_pos hfree] at h
    obtain ⟨rfl, rfl⟩ := Prod.mk.inj (Option.some.inj h)
    exact ⟨rfl, fun _ hsome => hsome, trivial⟩
  rw [if_neg hfree] at h
  by_cases hmenu : (this.events this_event).event_type = overlayEventMenuButton
  · rw [if_pos hmenu] at h
    cases hoverlay : (this.events this_event).overlay with
    | none =>
      rw [hoverlay] at h
      exact absurd h (Option.some_ne_none _).symm
    | some event_overlay =>
      rw [hoverlay] at h
      obtain ⟨hhandle, heq⟩ := Option.ite_none_right_eq_some.1 h
      cases hobject : (this.objects (this.events this_event).handle).overlay with
      | none =>
        rw [hobject] at heq
        obtain ⟨rfl, rfl⟩ := Prod.mk.inj (Option.some.inj heq)
        exact ⟨rfl, fun _ hsome => hsome, trivial⟩
      | some overlay =>
        rw [hobject] at heq
        obtain ⟨rfl, rfl⟩ := Prod.mk.inj (Option.some.inj heq)
        refine ⟨rfl, hset _ _ (Option.some_ne_none _), hhandle, ?_, rfl, .inr hmenu⟩
        simp [VideoOverlay.setObject]
  rw [if_neg hmenu] at h
  obtain ⟨rfl, rfl⟩ := Prod.mk.inj (Option.some.inj h)
  exact ⟨rfl, fun _ hsome => hsome, trivial⟩

theorem videoStep_inv (h : Shown s) (hvideo : VideoInv s) (hok : Undisturbed s .video)
    (hs : videoStep s = some s') : Shown s' ∧ VideoInv s' := by
  unfold videoStep at hs
  cases hv : s.video with
  | outside =>
    rw [hv] at hs
    exact absurd hs (Option.some_ne_none _).symm
  | loop vpts =>
    rw [hv] at hs
    simp only at hs
    split_ifs at hs with hdue
    · obtain ⟨⟨this', pc⟩, hcase, rfl⟩ := Option.map_eq_some_iff.1 hs
      obtain ⟨hshowing, hoverlay, hpc⟩ := caseStart_spec hcase
      refine ⟨h.of_same hshowing hoverlay rfl rfl, ?_⟩
      cases pc with
      | addShowing vpts' this_event handle =>
        obtain ⟨hhandle, hsome, heq, htype⟩ := hpc
        refine ⟨hhandle, hsome, fun t ht => hok handle ?_ ⟨t, .inr ht⟩⟩
        simp only [showsNext, hv]
        rw [if_pos ⟨hdue.1, hdue.2, htype⟩, heq]
      | freeEvents => exact hpc.elim
      | freeObject => exact hpc.elim
      | _ => trivial
    · cases hs
      exact ⟨h.of_same rfl (fun _ hsome => hsome) rfl rfl, trivial⟩
  | addShowing vpts this_event handle =>
    rw [hv] at hs
    cases hs
    obtain ⟨hhandle, hsome, -⟩ : IsHandle handle ∧ (s.this.objects handle).overlay ≠ none ∧
        ∀ t, s.pc t ≠ .freeObject handle := by simpa only [VideoInv, hv] using hvideo
    obtain ⟨hdistinct, hshowing⟩ := addShowingHandle_distinct handle h.distinct
    have hfree : ¬Freeing s.pc handle := hok handle (by simp only [showsNext, hv])
    obtain ⟨showing, hadd⟩ := addShowingHandle_frame s.this handle
    have hobjects : (addShowingHandle s.this handle).objects = s.this.objects := by rw [hadd]
    have hdrop : ∀ this : VideoOverlay, Distinct this.showing → (∀ i, 0 ≤ this.showing i →
        IsHandle (this.showing i) ∧ (this.objects (this.showing i)).overlay ≠ none ∧
          ¬Freeing s.pc (this.showing i)) →
        Shown { s with this, video := .finish vpts this_event } :=
      fun this hd hall => ⟨hd, hall, h.blended⟩
    have hall : ∀ i, 0 ≤ (addShowingHandle s.this handle).showing i →
        IsHandle ((addShowingHandle s.this handle).showing i) ∧
          ((addShowingHandle s.this handle).objects
            ((addShowingHandle s.this handle).showing i)).overlay ≠ none ∧
          ¬Freeing s.pc ((addShowingHandle s.this handle).showing i) := by
      intro i hi
      rw [hobjects]
      rcases hshowing i with hsame | hnew
      · rw [hsame] at hi ⊢
        exact h.shown i hi
      · rw [hnew]
        exact ⟨hhandle, hsome, hfree⟩
    split_ifs
    · exact ⟨hdrop _ hdistinct hall, trivial⟩
    · exact ⟨hdrop _ hdistinct hall, trivial⟩
  | hide vpts this_event handle =>
    rw [hv] at hs
    cases hs
    obtain ⟨hdistinct, hkept⟩ := removeShowingHandle_distinct handle h.distinct
    exact ⟨h.congr hdistinct (fun i hi => ⟨(hkept i hi).1, id, id⟩) h.blended, trivial⟩
  | freeShowing vpts this_event handle =>
    rw [hv] at hs
    cases hs
    obtain ⟨hdistinct, hkept⟩ := removeShowingHandle_distinct handle h.distinct
    exact ⟨h.congr hdistinct (fun i hi => ⟨(hkept i hi).1, id, id⟩) h.blended,
      fun i hi => (hkept i hi).2⟩
  | freeEvents vpts this_event handle =>
    rw [hv] at hs
    obtain ⟨this', hremove, rfl⟩ := Option.map_eq_some_iff.1 hs
    obtain ⟨hobjects, hshowing⟩ := removeEventsLoop_frame hremove
    have hkept : ∀ i, 0 ≤ s.this.showing i → s.this.showing i ≠ handle := by
      simpa only [VideoInv, hv] using hvideo
    refine ⟨h.of_same hshowing (fun other hsome => ?_) rfl rfl, ?_⟩
    · rw [hobjects]
      exact hsome
    · simp only [VideoInv, hshowing]
      exact hkept
  | freeObject vpts this_event handle =>
    rw [hv] at hs
    obtain ⟨this', hfree, rfl⟩ := Option.map_eq_some_iff.1 hs
    obtain ⟨hshowing, hobjects⟩ := internalFreeHandle_frame hfree
    have hkept : ∀ i, 0 ≤ s.this.showing i → s.this.showing i ≠ handle := by
      simpa only [VideoInv, hv] using hvideo
    refine ⟨h.congr (hshowing ▸ h.distinct) (fun i hi => ⟨congrFun hshowing i, ?_, id⟩) h.blended,
      trivial⟩
    rw [hobjects _ (hkept i (congrFun hshowing i ▸ hi))]
    exact id
  | finish vpts this_event =>
    rw [hv] at hs
    cases hs
    exact ⟨h.of_same rfl (fun _ hsome => hsome) rfl rfl, trivial⟩
  | blending i =>
    rw [hv] at hs
    simp only at hs
    split_ifs at hs with hi hhandle
    · cases hs
      refine ⟨h.congr h.distinct (fun _ _ => ⟨rfl, id, id⟩) fun overlay ho => ?_, trivial⟩
      rcases List.mem_append.1 ho with ho | ho
      · exact h.blended overlay ho
      · obtain rfl := List.mem_singleton.1 ho
        exact (h.shown ⟨i, hi⟩ hhandle).2.1
    · cases hs
      exact ⟨h.of_same rfl (fun _ hsome => hsome) rfl rfl, trivial⟩
    · cases hs
      exact ⟨h.of_same rfl (fun _ hsome => hsome) rfl rfl, trivial⟩

theorem init_shown : Shown (init : State τ) ∧ VideoInv (init : State τ) :=
  ⟨⟨fun i _ hi => absurd hi (by simp [init, videoOverlayInit]), by simp [init, videoOverlayInit],
    by simp [init]⟩, trivial⟩

variable [DecidableEq τ]

theorem Freeing.of_update {pc : τ → Pc} {t : τ} {next : Pc} {handle : ℤ}
    (h : Freeing (Function.update pc t next) handle) :
    next = .freeEvents handle ∨ next = .freeObject handle ∨ Freeing pc handle := by
  obtain ⟨u, hu⟩ := h
  by_cases hut : u = t
  · subst hut
    rw [Function.update_self] at hu
    exact hu.imp_right .inl
  · rw [Function.update_of_ne hut] at hu
    exact .inr (.inr ⟨u, hu⟩)

theorem of_update_eq {pc : τ → Pc} {t u : τ} {next at' : Pc} (hne : next ≠ at')
    (h : Function.update pc t next u = at') : pc u = at' := by
  by_cases hut : u = t
  · subst hut
    rw [Function.update_self] at h
    exact absurd h hne
  · rwa [Function.update_of_ne hut] at h

theorem step_inv {a : Action τ} (h : Shown s ∧ VideoInv s) (hok : Undisturbed s a)
    (hs : step s a = some s') : Shown s' ∧ VideoInv s' := by
  obtain ⟨hshown, hvideo⟩ := h
  cases a with
  | addEvent t event =>
    obtain ⟨-, hs⟩ := Option.ite_none_right_eq_some.1 hs
    obtain ⟨⟨this', slot⟩, hadd, rfl⟩ := Option.map_eq_some_iff.1 hs
    obtain ⟨hobjects, hshowing⟩ := addEvent_frame hadd
    have hoverlay : ∀ handle, (s.this.objects handle).overlay ≠ none →
        (this'.objects handle).overlay ≠ none := fun handle hsome => by
      rw [hobjects]
      exact hsome
    exact ⟨hshown.of_same hshowing hoverlay rfl rfl,
      hvideo.of_same rfl (fun i _ => congrFun hshowing i) (fun _ _ handle _ => hoverlay handle)
        fun _ _ _ _ _ ht => ht⟩
  | getHandle t object_type =>
    obtain ⟨-, hs⟩ := Option.ite_none_right_eq_some.1 hs
    cases hs
    have hframe := getHandle_frame s.this object_type
    have hoverlay : ∀ handle, (s.this.objects handle).overlay ≠ none →
        ((videoOverlayGetHandle s.this object_type).1.objects handle).overlay ≠ none :=
      fun handle hsome => by
        rw [(hframe handle).1]
        exact hsome
    exact ⟨hshown.of_same (hframe 0).2 hoverlay rfl rfl,
      hvideo.of_same rfl (fun i _ => congrFun (hframe 0).2 i) (fun _ _ handle _ => hoverlay handle)
        fun _ _ _ _ _ ht => ht⟩
  | freeHandle t handle =>
    obtain ⟨-, hs⟩ := Option.ite_none_right_eq_some.1 hs
    cases hs
    obtain ⟨hdistinct, hkept⟩ := removeShowingHandle_distinct handle hshown.distinct
    constructor
    · -- the handle that is freed from now on is not showing any more
      refine hshown.congr hdistinct (fun i hi => ⟨(hkept i hi).1, id, ?_⟩) hshown.blended
      obtain ⟨hsame, hne⟩ := hkept i hi
      intro hfreeing
      rcases Freeing.of_update hfreeing with heq | heq | hold
      · exact absurd (hsame.trans (Pc.freeEvents.inj heq).symm) hne
      · cases heq
      · exact hold
    · exact hvideo.of_same rfl (fun i hi => (hkept i hi).1) (fun _ _ _ _ hsome => hsome)
        fun _ _ _ _ _ hu => of_update_eq (by simp) hu
  | freeEvents t =>
    simp only [step] at hs
    split at hs
    · rename_i handle hpc
      obtain ⟨hholds, hs⟩ := Option.ite_none_right_eq_some.1 hs
      obtain ⟨this', hremove, rfl⟩ := Option.map_eq_some_iff.1 hs
      obtain ⟨hobjects, hshowing⟩ := removeEventsLoop_frame hremove
      constructor
      · refine hshown.congr (hshowing ▸ hshown.distinct)
          (fun i hi => ⟨congrFun hshowing i, ?_, ?_⟩) hshown.blended
        · rw [hobjects]
          exact id
        · intro hfreeing
          rcases Freeing.of_update hfreeing with heq | heq | hold
          · cases heq
          · exact ⟨t, .inl (Pc.freeObject.inj heq ▸ hpc)⟩
          · exact hold
      · -- the video thread is not in `video_overlay_event`
        unfold VideoInv
        cases hv : s.video <;> simp [hv, VideoPc.HoldsEvents] at hholds ⊢
    · exact absurd hs (Option.some_ne_none _).symm
  | freeObject t =>
    simp only [step] at hs
    split at hs
    · rename_i handle hpc
      obtain ⟨this', hfree, rfl⟩ := Option.map_eq_some_iff.1 hs
      obtain ⟨hshowing, hobjects⟩ := internalFreeHandle_frame hfree
      constructor
      · refine hshown.congr (hshowing ▸ hshown.distinct)
          (fun i hi => ⟨congrFun hshowing i, ?_, fun hfreeing => ?_⟩) hshown.blended
        · have hi' : 0 ≤ s.this.showing i := congrFun hshowing i ▸ hi
          have hne : s.this.showing i ≠ handle := fun heq =>
            (hshown.shown i hi').2.2 ⟨t, .inr (heq ▸ hpc)⟩
          rw [hobjects _ hne]
          exact id
        · rcases Freeing.of_update hfreeing with heq | heq | hold
          · cases heq
          · cases heq
          · exact hold
      · refine hvideo.of_same rfl (fun i _ => congrFun hshowing i) ?_ ?_
        · intro vpts this_event other hv hsome
          have hother : ∀ u, s.pc u ≠ .freeObject other := by
            simp only [VideoInv, hv] at hvideo
            exact hvideo.2.2
          have hne : other ≠ handle := fun heq => hother t (heq ▸ hpc)
          rw [hobjects other hne]
          exact hsome
        · exact fun _ _ _ _ _ hu => of_update_eq (by simp) hu
    · exact absurd hs (Option.some_ne_none _).symm
  | events vpts =>
    obtain ⟨-, hs⟩ := Option.ite_none_right_eq_some.1 hs
    cases hs
    exact ⟨hshown.of_same rfl (fun _ hsome => hsome) rfl rfl, trivial⟩
  | blend enabled =>
    obtain ⟨-, hs⟩ := Option.ite_none_right_eq_some.1 hs
    cases hs
    exact ⟨hshown.of_same rfl (fun _ hsome => hsome) rfl rfl, trivial⟩
  | video => exact videoStep_inv hshown hvideo hok hs

end Steps

/-! ## Every interleaving -/

variable [DecidableEq τ]

/-- In every interleaving in which the video thread does not show a handle that another thread has
begun to free: no two entries of the table of showing handles name the same object, each names an
object that has an overlay, and the blend loop has read no null pointer. -/
theorem showing_run_has_overlays {s : State τ} {as : List (Action τ)}
    (hok : Runs.Guarded step Undisturbed init as) (hrun : Runs.run step init as = some s) :
    (∀ i j, 0 ≤ s.this.showing i → s.this.showing i = s.this.showing j → i = j) ∧
      (∀ i, 0 ≤ s.this.showing i → IsHandle (s.this.showing i) ∧
        (s.this.objects (s.this.showing i)).overlay ≠ none) ∧
      ∀ overlay ∈ s.blended, overlay ≠ none := by
  have hinv : Shown s ∧ VideoInv s :=
    Runs.guarded_invariant (fun _ _ _ hinv hok hs => step_inv hinv hok hs) init_shown hok hrun
  obtain ⟨hshown, -⟩ := hinv
  exact ⟨hshown.distinct, fun i hi => ⟨(hshown.shown i hi).1, (hshown.shown i hi).2.1⟩,
    hshown.blended⟩

/-- The event that shows an overlay for handle 0 at the time 10. -/
def showAtTen : VideoOverlayEvent :=
  ⟨overlayEventShow, 10, 0, 0, some ⟨none, 0, 0, 0, 0, fun _ => 0, fun _ => 0, 0⟩⟩

instance (s : State Unit) (a : Action Unit) : Decidable (Undisturbed s a) := by
  unfold Undisturbed Freeing
  cases a <;> infer_instance

instance : NeZero maxShowing := ⟨by decide⟩

/-- The overlay is shown, blended, and freed. -/
theorem showing_run_has_overlays_freed : ∃ s : State Unit,
    Runs.run step init [.getHandle () 0, .addEvent () showAtTen, .events 20, .video, .video, .video,
      .video, .blend true, .video, .video, .video, .video, .video, .video, .freeHandle () 0,
      .freeEvents (), .freeObject ()] = some s ∧ s.blended ≠ [] ∧
      ∀ overlay ∈ s.blended, overlay ≠ none := by
  have hsome : (Runs.run step (init : State Unit) [.getHandle () 0, .addEvent () showAtTen,
      .events 20, .video, .video, .video, .video, .blend true, .video, .video, .video, .video, .video,
      .video, .freeHandle () 0, .freeEvents (), .freeObject ()]).any fun s => s.blended.length == 1 := by
    decide
  obtain ⟨s, hrun, hlength⟩ := (Option.any_eq_true _ _).1 hsome
  obtain ⟨-, -, hblended⟩ := showing_run_has_overlays (by decide) hrun
  refine ⟨s, hrun, ?_, hblended⟩
  rintro hnil
  simp [hnil] at hlength

/-- Between the first and the second section of `video_overlay_free_handle` the video thread processes
the event that shows the handle. After the last section it blends a null pointer. -/
theorem showing_run_blends_freed_overlay : ∃ s : State Unit,
    Runs.run step init [.getHandle () 0, .addEvent () showAtTen, .freeHandle () 0, .events 20, .video,
      .video, .video, .video, .freeEvents (), .freeObject (), .blend true, .video] = some s ∧
      s.this.showing 0 = 0 ∧ (s.this.objects 0).overlay = none ∧ none ∈ s.blended := by
  have hrun : (Runs.run step (init : State Unit) [.getHandle () 0, .addEvent () showAtTen,
      .freeHandle () 0, .events 20, .video, .video, .video, .video, .freeEvents (), .freeObject (),
      .blend true, .video]).any fun s => s.this.showing 0 == 0 && (s.this.objects 0).overlay.isNone &&
        s.blended.any Option.isNone := by
    decide
  obtain ⟨s, hrun, hs⟩ := (Option.any_eq_true _ _).1 hrun
  simp only [Bool.and_eq_true, beq_iff_eq, Option.isNone_iff_eq_none, List.any_eq_true] at hs
  obtain ⟨⟨hshowing, hoverlay⟩, overlay, hmem, rfl⟩ := hs
  exact ⟨s, hrun, hshowing, hoverlay, hmem⟩

end Xine.Overlay
