import Xine.Overlay.Events

/-!
# The memory of the overlays

What the functions of `video_overlay.c` allocate and free. `video_overlay_add_event` copies the
overlay that it gets into a block of its own and takes the rle array over; a block is known by the number of its
event, and an rle array by its address. The manager is as in `Xine.Overlay.Manager`; what is new are the block
that the overlay of each object is in, and the logs of what has been allocated, handed in and freed.

Following a null pointer is `none`.
-/

namespace Xine.Overlay

/-- The manager, and what has become of the memory. -/
structure Store where
  manager : VideoOverlay
  /-- The block that the overlay of an object is in. -/
  block : ℤ → ℕ
  allocated : List ℕ
  handed : List ℕ
  freed : List ℕ
  freed_rle : List ℕ

/-- A new manager has no memory. -/
def storeInit : Store := ⟨videoOverlayInit, fun _ => 0, [], [], [], []⟩

namespace Store

variable (s : Store)

/-- Frees the rle array of an overlay, if any, and the overlay. -/
def release (block : ℕ) (overlay : VoOverlay) : Store :=
  { s with freed_rle := s.freed_rle ++ overlay.rle.toList, freed := s.freed ++ [block] }

/-- Frees the overlay of an event with its rle array, if there is one. -/
def releaseEvent (this_event : ℕ) : Store :=
  match (s.manager.events this_event).overlay with
  | some overlay => s.release (s.manager.events this_event).serial overlay
  | none => s

/-- Frees the overlay of an event, if there is one, and leaves its rle array alone. -/
def freeEvent (this_event : ℕ) : Store :=
  match (s.manager.events this_event).overlay with
  | some _ => { s with freed := s.freed ++ [(s.manager.events this_event).serial] }
  | none => s

/-- Frees the overlay of an object with its rle array, if there is one. -/
def releaseObject (handle : ℤ) : Store :=
  match (s.manager.objects handle).overlay with
  | some overlay => s.release (s.block handle) overlay
  | none => s

end Store

/-- The two loops of `remove_events_handle`, which free the overlays of the events. -/
def storeRemoveEventsLoop (handle : ℤ) : ℕ → Store → ℕ → Option Store
  | 0, _, _ => none
  | fuel + 1, s, last_event =>
    let this_event := (s.manager.events last_event).next_event
    if this_event = 0 then some s
    else if (s.manager.events this_event).handle = handle then
      storeRemoveEventsLoop handle fuel
        { s.releaseEvent this_event with manager := removeEvent s.manager last_event this_event }
        last_event
    else storeRemoveEventsLoop handle fuel s this_event

/-- `internal_video_overlay_free_handle`. -/
def storeInternalFreeHandle (s : Store) (handle : ℤ) : Option Store :=
  (internalFreeHandle s.manager handle).map fun manager =>
    { s.releaseObject handle with manager }

/-- `video_overlay_free_handle`. -/
def storeFreeHandle (s : Store) (handle : ℤ) : Option Store :=
  (storeRemoveEventsLoop handle maxEvents
      { s with manager := removeShowingHandle s.manager handle } 0).bind fun s =>
    storeInternalFreeHandle s handle

/-- `video_overlay_add_event`. The caller keeps the overlay if no slot is free. -/
def storeAddEvent (s : Store) (event : VideoOverlayEvent) : Option Store :=
  (videoOverlayAddEvent s.manager event).map fun r =>
    if r.2 = -1 then { s with manager := r.1 }
    else
      match event.overlay with
      | some overlay =>
        { s with
          manager := r.1
          allocated := s.allocated ++ [s.manager.accepted]
          handed := s.handed ++ overlay.rle.toList }
      | none => { s with manager := r.1 }

/-- The case of `video_overlay_event` for the type of the event. -/
def storeEventCase (s : Store) (this_event : ℕ) : Option Store :=
  let event := s.manager.events this_event
  if event.event_type = overlayEventShow then
    match event.overlay with
    | some overlay =>
      if IsHandle event.handle then
        -- the overlay of the object is about to be overwritten, and the block of the event moves there
        some { s.releaseObject event.handle with
          manager := addShowingHandle (showObject s.manager this_event overlay) event.handle
          block := Function.update s.block event.handle event.serial }
      else none
    | none => some s
  else if event.event_type = overlayEventHide then
    some { s.freeEvent this_event with
      manager := removeShowingHandle (dropOverlay s.manager this_event) event.handle }
  else if event.event_type = overlayEventFreeHandle then
    storeFreeHandle { s.freeEvent this_event with manager := clearHandle s.manager this_event }
      event.handle
  else if event.event_type = overlayEventMenuButton then
    match event.overlay with
    | some event_overlay =>
      if IsHandle event.handle then
        match (s.manager.objects event.handle).overlay with
        | some overlay =>
          some { s.releaseEvent this_event with
            manager := dropOverlay
              (addShowingHandle
                (s.manager.setObject event.handle fun o =>
                  { o with
                    handle := event.handle, overlay := some (mixOverlay overlay event_overlay) })
                event.handle)
              this_event }
        | none => some { s.releaseEvent this_event with manager := dropOverlay s.manager this_event }
      else none
    | none => none
  else some s

/-- One round of the loop of `video_overlay_event`, if the first event is due. -/
def storeProcess (s : Store) (vpts : ℤ) : Option Store :=
  let this_event := (s.manager.events 0).next_event
  if this_event ≠ 0 ∧ IsDue vpts (s.manager.events this_event).vpts then
    (storeEventCase s this_event).map fun s =>
      { s with manager := finishEvent s.manager this_event }
  else some s

/-- What happens to the manager. -/
inductive StoreAction where
  | addEvent (event : VideoOverlayEvent)
  | getHandle (object_type : ℤ)
  | freeHandle (handle : ℤ)
  /-- The first event is processed if it is due. -/
  | process (vpts : ℤ)

/-- One action. -/
def storeStep (s : Store) : StoreAction → Option Store
  | .addEvent event => storeAddEvent s event
  | .getHandle object_type =>
    some { s with manager := (videoOverlayGetHandle s.manager object_type).1 }
  | .freeHandle handle => storeFreeHandle s handle
  | .process vpts => storeProcess s vpts

/-! ## The manager under the memory -/

section Manager

variable {s s' : Store} {handle vpts : ℤ} {fuel last b : ℕ}

theorem storeRemoveEventsLoop_manager (handle : ℤ) (fuel : ℕ) (s : Store) (last : ℕ) :
    (storeRemoveEventsLoop handle fuel s last).map Store.manager =
      removeEventsLoop handle fuel s.manager last := by
  induction fuel generalizing s last with
  | zero => rfl
  | succ fuel ih =>
    rw [storeRemoveEventsLoop, removeEventsLoop]
    split_ifs
    · rfl
    · rw [ih]
    · rw [ih]

theorem storeFreeHandle_manager (s : Store) (handle : ℤ) :
    (storeFreeHandle s handle).map Store.manager = videoOverlayFreeHandle s.manager handle := by
  unfold storeFreeHandle videoOverlayFreeHandle removeEventsHandle
  have hloop := storeRemoveEventsLoop_manager handle maxEvents
    { s with manager := removeShowingHandle s.manager handle } 0
  dsimp only at hloop
  rw [← hloop]
  cases storeRemoveEventsLoop handle maxEvents
      { s with manager := removeShowingHandle s.manager handle } 0 with
  | none => rfl
  | some s₁ =>
    rw [Option.bind_some, Option.map_some, Option.bind_some, storeInternalFreeHandle, Option.map_map]
    exact congrFun Option.map_id _

theorem storeEventCase_manager (s : Store) (b : ℕ) :
    (storeEventCase s b).map Store.manager = eventCase s.manager b := by
  unfold storeEventCase eventCase
  dsimp only
  by_cases hshow : (s.manager.events b).event_type = overlayEventShow
  · rw [if_pos hshow, if_pos hshow]
    cases (s.manager.events b).overlay with
    | none => rfl
    | some overlay =>
      dsimp only
      split_ifs
      · rfl
      · rfl
  rw [if_neg hshow, if_neg hshow]
  by_cases hhide : (s.manager.events b).event_type = overlayEventHide
  · rw [if_pos hhide, if_pos hhide]
    rfl
  rw [if_neg hhide, if_neg hhide]
  by_cases hfree : (s.manager.events b).event_type = overlayEventFreeHandle
  · rw [if_pos hfree, if_pos hfree]
    exact storeFreeHandle_manager _ _
  rw [if_neg hfree, if_neg hfree]
  by_cases hmenu : (s.manager.events b).event_type = overlayEventMenuButton
  · rw [if_pos hmenu, if_pos hmenu]
    cases (s.manager.events b).overlay with
    | none => rfl
    | some event_overlay =>
      dsimp only
      by_cases hhandle : IsHandle (s.manager.events b).handle
      · rw [if_pos hhandle, if_pos hhandle]
        cases (s.manager.objects (s.manager.events b).handle).overlay with
        | none => rfl
        | some overlay => rfl
      · rw [if_neg hhandle, if_neg hhandle]
        rfl
  · rw [if_neg hmenu, if_neg hmenu]
    rfl

end Manager

end Xine.Overlay

/-!
## The owners of the overlays

An account of the memory of the overlays: for each block, the events and objects that point to it and
the times that it has been freed make up the times that it has been allocated, and the same for the rle
arrays. A `Ledger` has only the pointers of the events and of the objects, and the logs; what each case
of the code does to it is one of a few operations, which keep the account, except for `dropEvent`,
which loses the rle array, and `put` into an event that has an overlay.
-/

namespace Xine.Overlay

open Holders

/-- A pointer to an overlay: its block, and the rle array in it. -/
structure Ptr where
  block : ℕ
  rle : Option ℕ

/-- The pointers to overlays, and the logs. -/
structure Ledger where
  events : ℕ → Option Ptr
  objects : ℕ → Option Ptr
  allocated : List ℕ
  handed : List ℕ
  freed : List ℕ
  freed_rle : List ℕ

namespace Ledger

/-- The owners of a block, and the times that it has been freed. -/
def blocks (l : Ledger) (n : ℕ) : ℕ :=
  held (fun i => (l.events i).map Ptr.block) n maxEvents +
    held (fun i => (l.objects i).map Ptr.block) n maxObjects + l.freed.count n

/-- The owners of an rle array, and the times that it has been freed. -/
def rles (l : Ledger) (r : ℕ) : ℕ :=
  held (fun i => (l.events i).bind Ptr.rle) r maxEvents +
    held (fun i => (l.objects i).bind Ptr.rle) r maxObjects + l.freed_rle.count r

/-- Each block and each rle array has an owner or has been freed, once for each time that it has been
allocated or handed in. -/
structure Balanced (l : Ledger) : Prop where
  blocks : ∀ n, l.blocks n = l.allocated.count n
  rles : ∀ r, l.rles r = l.handed.count r

/-- Frees an overlay and its rle array. -/
def release (l : Ledger) (p : Option Ptr) : Ledger :=
  { l with
    freed := l.freed ++ (p.map Ptr.block).toList
    freed_rle := l.freed_rle ++ (p.bind Ptr.rle).toList }

/-- Frees the overlay of an event with its rle array. -/
def clearEvent (l : Ledger) (i : ℕ) : Ledger :=
  { l.release (l.events i) with events := Function.update l.events i none }

/-- Frees the overlay of an event, and forgets its rle array. -/
def dropEvent (l : Ledger) (i : ℕ) : Ledger :=
  { l with
    events := Function.update l.events i none
    freed := l.freed ++ ((l.events i).map Ptr.block).toList }

/-- Frees the overlay of an object with its rle array. -/
def clearObject (l : Ledger) (h : ℕ) : Ledger :=
  { l.release (l.objects h) with objects := Function.update l.objects h none }

/-- Gives the overlay of an event to an object that has none. -/
def moveEvent (l : Ledger) (i h : ℕ) : Ledger :=
  { l with
    objects := Function.update l.objects h (l.events i)
    events := Function.update l.events i none }

/-- A new overlay, or none, for an event. -/
def put (l : Ledger) (i : ℕ) (p : Option Ptr) : Ledger :=
  { l with
    events := Function.update l.events i p
    allocated := l.allocated ++ (p.map Ptr.block).toList
    handed := l.handed ++ (p.bind Ptr.rle).toList }

section Account

variable {l : Ledger} {i h n r : ℕ} {p : Option Ptr}

theorem events_update (hi : i < maxEvents) (p : Option Ptr) :
    (∀ n, held (fun j => (Function.update l.events i p j).map Ptr.block) n maxEvents +
        ((l.events i).map Ptr.block).toList.count n =
      held (fun j => (l.events j).map Ptr.block) n maxEvents +
        (p.map Ptr.block).toList.count n) ∧
    ∀ r, held (fun j => (Function.update l.events i p j).bind Ptr.rle) r maxEvents +
        ((l.events i).bind Ptr.rle).toList.count r =
      held (fun j => (l.events j).bind Ptr.rle) r maxEvents + (p.bind Ptr.rle).toList.count r := by
  constructor
  · intro n
    rw [map_update (Option.map Ptr.block)]
    exact held_update _ hi
  · intro r
    rw [map_update fun p : Option Ptr => p.bind Ptr.rle]
    exact held_update _ hi

theorem objects_update (hh : h < maxObjects) (p : Option Ptr) :
    (∀ n, held (fun j => (Function.update l.objects h p j).map Ptr.block) n maxObjects +
        ((l.objects h).map Ptr.block).toList.count n =
      held (fun j => (l.objects j).map Ptr.block) n maxObjects +
        (p.map Ptr.block).toList.count n) ∧
    ∀ r, held (fun j => (Function.update l.objects h p j).bind Ptr.rle) r maxObjects +
        ((l.objects h).bind Ptr.rle).toList.count r =
      held (fun j => (l.objects j).bind Ptr.rle) r maxObjects + (p.bind Ptr.rle).toList.count r := by
  constructor
  · intro n
    rw [map_update (Option.map Ptr.block)]
    exact held_update _ hh
  · intro r
    rw [map_update fun p : Option Ptr => p.bind Ptr.rle]
    exact held_update _ hh

/-- Nothing is lost from one ledger to the next, and nothing comes in. -/
structure SameAccount (l l' : Ledger) : Prop where
  blocks : ∀ n, l'.blocks n = l.blocks n
  rles : ∀ r, l'.rles r = l.rles r
  allocated : l'.allocated = l.allocated
  handed : l'.handed = l.handed

theorem SameAccount.refl (l : Ledger) : SameAccount l l :=
  ⟨fun _ => rfl, fun _ => rfl, rfl, rfl⟩

theorem SameAccount.trans {l₁ l₂ l₃ : Ledger} (h : SameAccount l₁ l₂) (h' : SameAccount l₂ l₃) :
    SameAccount l₁ l₃ :=
  ⟨fun n => (h'.blocks n).trans (h.blocks n), fun r => (h'.rles r).trans (h.rles r),
    h'.allocated.trans h.allocated, h'.handed.trans h.handed⟩

theorem SameAccount.balanced_iff {l' : Ledger} (h : SameAccount l l') :
    l'.Balanced ↔ l.Balanced := by
  constructor
  · intro hbal
    refine ⟨fun n => ?_, fun r => ?_⟩
    · rw [← h.blocks, ← h.allocated]
      exact hbal.blocks n
    · rw [← h.rles, ← h.handed]
      exact hbal.rles r
  · intro hbal
    refine ⟨fun n => ?_, fun r => ?_⟩
    · rw [h.blocks, h.allocated]
      exact hbal.blocks n
    · rw [h.rles, h.handed]
      exact hbal.rles r

/-- Only the events of the table have overlays. -/
def Within (l : Ledger) : Prop := ∀ i, maxEvents ≤ i → l.events i = none

theorem Within.lt (hw : l.Within) (hp : l.events i ≠ none) : i < maxEvents := by
  by_contra hle
  exact hp (hw i (not_lt.1 hle))

theorem Within.update (hw : l.Within) {l' : Ledger} (p : Option Ptr)
    (hevents : l'.events = Function.update l.events i p) (hp : p = none ∨ i < maxEvents) :
    l'.Within := by
  intro j hj
  rw [hevents]
  by_cases hji : j = i
  · subst hji
    rw [Function.update_self]
    exact hp.resolve_right (not_lt.2 hj)
  · rw [Function.update_of_ne hji]
    exact hw j hj

theorem sameAccount_clearEvent (hw : l.Within) (i : ℕ) : SameAccount l (l.clearEvent i) := by
  by_cases hi : i < maxEvents
  · obtain ⟨hblock, hrle⟩ := @events_update l i hi none
    refine ⟨fun n => ?_, fun r => ?_, rfl, rfl⟩
    · have hn := hblock n
      simp only [blocks, clearEvent, release, List.count_append, Option.map_none, Option.toList_none,
        List.count_nil] at hn ⊢
      omega
    · have hr := hrle r
      simp only [rles, clearEvent, release, List.count_append, Option.bind_none, Option.toList_none,
        List.count_nil] at hr ⊢
      omega
  · -- outside of the table there is none
    have hnone := hw i (not_lt.1 hi)
    have hsame : Function.update l.events i none = l.events := by
      rw [← hnone]
      exact Function.update_eq_self i l.events
    unfold clearEvent release
    rw [hnone, hsame]
    simp only [Option.map_none, Option.bind_none, Option.toList_none, List.append_nil]
    exact SameAccount.refl l

theorem sameAccount_clearObject (hh : h < maxObjects) : SameAccount l (l.clearObject h) := by
  obtain ⟨hblock, hrle⟩ := @objects_update l h hh none
  refine ⟨fun n => ?_, fun r => ?_, rfl, rfl⟩
  · have hn := hblock n
    simp only [blocks, clearObject, release, List.count_append, Option.map_none, Option.toList_none,
      List.count_nil] at hn ⊢
    omega
  · have hr := hrle r
    simp only [rles, clearObject, release, List.count_append, Option.bind_none, Option.toList_none,
      List.count_nil] at hr ⊢
    omega

theorem sameAccount_moveEvent (hi : i < maxEvents) (hh : h < maxObjects)
    (hnone : l.objects h = none) : SameAccount l (l.moveEvent i h) := by
  obtain ⟨hblock, hrle⟩ := @events_update l i hi none
  obtain ⟨hblock', hrle'⟩ := @objects_update l h hh (l.events i)
  refine ⟨fun n => ?_, fun r => ?_, rfl, rfl⟩
  · have hn := hblock n
    have hn' := hblock' n
    simp only [blocks, moveEvent, hnone, Option.map_none, Option.toList_none, List.count_nil]
      at hn hn' ⊢
    omega
  · have hr := hrle r
    have hr' := hrle' r
    simp only [rles, moveEvent, hnone, Option.bind_none, Option.toList_none, List.count_nil]
      at hr hr' ⊢
    omega

theorem balanced_dropEvent_iff (hbal : l.Balanced) (hw : l.Within) (i : ℕ) :
    (l.dropEvent i).Balanced ↔ (l.events i).bind Ptr.rle = none := by
  by_cases hp : l.events i = none
  · -- there is nothing to drop
    have hsame : Function.update l.events i none = l.events := by
      rw [← hp]
      exact Function.update_eq_self i l.events
    unfold dropEvent
    rw [hp, hsame]
    simp only [Option.map_none, Option.bind_none, Option.toList_none, List.append_nil]
    exact iff_of_true hbal trivial
  obtain ⟨hblock, hrle⟩ := @events_update l i (hw.lt hp) none
  constructor
  · intro hdrop
    cases hr : (l.events i).bind Ptr.rle with
    | none => rfl
    | some r =>
      have hcount := hrle r
      have hbefore := hbal.rles r
      have hafter := hdrop.rles r
      rw [hr] at hcount
      simp only [rles, dropEvent, Option.bind_none, Option.toList_none, Option.toList_some,
        List.count_nil, List.count_singleton_self] at hcount hbefore hafter
      omega
  · intro hnone
    rw [hnone] at hrle
    refine ⟨fun n => ?_, fun r => ?_⟩
    · have hn := hblock n
      have hbefore := hbal.blocks n
      simp only [blocks, dropEvent, List.count_append, Option.map_none, Option.toList_none,
        List.count_nil] at hn hbefore ⊢
      omega
    · have hr := hrle r
      have hbefore := hbal.rles r
      simp only [rles, dropEvent, Option.bind_none, Option.toList_none, List.count_nil]
        at hr hbefore ⊢
      omega

theorem balanced_put_iff (hbal : l.Balanced) (hi : i < maxEvents) (p : Option Ptr) :
    (l.put i p).Balanced ↔ l.events i = none := by
  obtain ⟨hblock, hrle⟩ := @events_update l i hi p
  constructor
  · intro hput
    cases hold : l.events i with
    | none => rfl
    | some old =>
      have hn := hblock old.block
      have hbefore := hbal.blocks old.block
      have hafter := hput.blocks old.block
      rw [hold] at hn
      simp only [blocks, put, List.count_append, Option.map_some, Option.toList_some,
        List.count_singleton_self] at hn hbefore hafter
      omega
  · intro hnone
    rw [hnone] at hblock hrle
    refine ⟨fun n => ?_, fun r => ?_⟩
    · have hn := hblock n
      have hbefore := hbal.blocks n
      simp only [blocks, put, List.count_append, Option.map_none, Option.toList_none,
        List.count_nil] at hn hbefore ⊢
      omega
    · have hr := hrle r
      have hbefore := hbal.rles r
      simp only [rles, put, List.count_append, Option.bind_none, Option.toList_none,
        List.count_nil] at hr hbefore ⊢
      omega

end Account

end Ledger

end Xine.Overlay
