import Mathlib.Data.BitVec

/-!
# The overlay manager

The overlay manager of `video_overlay.c`: the table of events, linked in the order of
their time from slot 0, the objects, which are the overlays that handles stand for, and the handles
that are showing. A slot with the event type 0 is free.

An access outside a table and a null pointer that is followed are `none`. The loops over the events
have as much fuel as there are slots. Freeing an overlay is dropping it; what becomes of its memory is
not part of the model, and neither is the picture in it.

`serial`, `accepted`, `processed` and `removed` are not in the code: an accepted event gets a number,
and the numbers are logged in the order in which the events are processed or removed with their
handle.
-/

namespace Xine.Overlay

def maxObjects : ℕ := 50

def maxEvents : ℕ := 50

def maxShowing : ℕ := 5

def overlayEventNull : ℕ := 0

def overlayEventShow : ℕ := 1

def overlayEventHide : ℕ := 2

def overlayEventMenuButton : ℕ := 3

def overlayEventFreeHandle : ℕ := 8

/-- `vo_overlay_t`, as far as the manager looks at it. -/
structure VoOverlay where
  rle : Option ℕ
  clip_top : ℤ
  clip_bottom : ℤ
  clip_left : ℤ
  clip_right : ℤ
  clip_color : ℕ → BitVec 32
  clip_trans : ℕ → BitVec 8
  clip_rgb_clut : ℤ

structure VideoOverlayObject where
  handle : ℤ
  object_type : ℤ
  pts : ℤ
  overlay : Option VoOverlay

/-- `video_overlay_event_t`, with the fields of its object that `video_overlay_add_event` reads. -/
structure VideoOverlayEvent where
  event_type : ℕ
  vpts : ℤ
  handle : ℤ
  pts : ℤ
  overlay : Option VoOverlay

/-- A slot of the table of events. -/
structure EventSlot extends VideoOverlayEvent where
  next_event : ℕ
  serial : ℕ

structure VideoOverlay where
  events : ℕ → EventSlot
  objects : ℤ → VideoOverlayObject
  showing : Fin maxShowing → ℤ
  showing_changed : ℕ
  accepted : ℕ
  processed : List ℕ
  removed : List ℕ

/-- The manager after `video_overlay_init`. -/
def videoOverlayInit : VideoOverlay where
  events := fun _ => ⟨⟨0, 0, 0, 0, none⟩, 0, 0⟩
  objects := fun _ => ⟨-1, 0, 0, none⟩
  showing := fun _ => -1
  showing_changed := 0
  accepted := 0
  processed := []
  removed := []

namespace VideoOverlay

variable (this : VideoOverlay)

/-- Assignments to the fields of a slot. -/
def setEvent (i : ℕ) (f : EventSlot → EventSlot) : VideoOverlay :=
  { this with events := Function.update this.events i (f (this.events i)) }

/-- Assignments to the fields of an object. -/
def setObject (handle : ℤ) (f : VideoOverlayObject → VideoOverlayObject) : VideoOverlay :=
  { this with objects := Function.update this.objects handle (f (this.objects handle)) }

end VideoOverlay

/-- The handles of objects. -/
def IsHandle (handle : ℤ) : Prop := 0 ≤ handle ∧ handle < maxObjects

instance (handle : ℤ) : Decidable (IsHandle handle) :=
  inferInstanceAs (Decidable (_ ∧ _))

/-! ## Handles -/

def addShowingHandle (this : VideoOverlay) (handle : ℤ) : VideoOverlay :=
  let changed := { this with showing_changed := this.showing_changed + 1 }
  if ∃ i, this.showing i = handle then changed
  else
    match (List.finRange maxShowing).find? fun i => decide (this.showing i < 0) with
    | some i => { changed with showing := Function.update this.showing i handle }
    | none => changed

theorem addShowingHandle_frame (this : VideoOverlay) (handle : ℤ) :
    ∃ showing, addShowingHandle this handle =
      { this with showing, showing_changed := this.showing_changed + 1 } := by
  unfold addShowingHandle
  split_ifs
  · exact ⟨_, rfl⟩
  · split <;> exact ⟨_, rfl⟩

def removeShowingHandle (this : VideoOverlay) (handle : ℤ) : VideoOverlay :=
  { this with
    showing_changed := this.showing_changed + 1
    showing := fun i => if this.showing i = handle then -1 else this.showing i }

/-- `video_overlay_get_handle`, with the handle that it returns, or -1. -/
def videoOverlayGetHandle (this : VideoOverlay) (object_type : ℤ) : VideoOverlay × ℤ :=
  match (List.range maxObjects).find? fun n => decide ((this.objects n).handle ≤ -1) with
  | some n => (this.setObject n fun o => { o with handle := n, object_type }, n)
  | none => (this, -1)

/-- `internal_video_overlay_free_handle`. -/
def internalFreeHandle (this : VideoOverlay) (handle : ℤ) : Option VideoOverlay :=
  if IsHandle handle then some (this.setObject handle fun o => { o with overlay := none, handle := -1 })
  else none

/-! ## Events -/

/-- `remove_events_handle` removes `this_event`, which comes after `last_event`. -/
def removeEvent (this : VideoOverlay) (last_event this_event : ℕ) : VideoOverlay :=
  let unlinked := this.setEvent last_event fun e =>
    { e with next_event := (this.events this_event).next_event }
  let freed := unlinked.setEvent this_event fun e =>
    { e with overlay := none, next_event := 0, event_type := overlayEventNull }
  { freed with removed := this.removed ++ [(this.events this_event).serial] }

/-- The two loops of `remove_events_handle`, after `last_event`. -/
def removeEventsLoop (handle : ℤ) : ℕ → VideoOverlay → ℕ → Option VideoOverlay
  | 0, _, _ => none
  | fuel + 1, this, last_event =>
    let this_event := (this.events last_event).next_event
    if this_event = 0 then some this
    else if (this.events this_event).handle = handle then
      removeEventsLoop handle fuel (removeEvent this last_event this_event) last_event
    else removeEventsLoop handle fuel this this_event

def removeEventsHandle (this : VideoOverlay) (handle : ℤ) : Option VideoOverlay :=
  removeEventsLoop handle maxEvents this 0

def videoOverlayFreeHandle (this : VideoOverlay) (handle : ℤ) : Option VideoOverlay :=
  (removeEventsHandle (removeShowingHandle this handle) handle).bind fun this =>
    internalFreeHandle this handle

/-- The loop of `video_overlay_add_event` that finds where to insert the event: the slot before the
place and the slot after it. -/
def findPlace (events : ℕ → EventSlot) (vpts : ℤ) : ℕ → ℕ → Option (ℕ × ℕ)
  | 0, _ => none
  | fuel + 1, last_event =>
    let this_event := (events last_event).next_event
    if this_event ≠ 0 ∧ (events this_event).vpts ≤ vpts then findPlace events vpts fuel this_event
    else some (last_event, this_event)

/-- `video_overlay_add_event` links a free slot in between, and copies the event into it. -/
def insertEvent (this : VideoOverlay) (event : VideoOverlayEvent)
    (last_event this_event new_event : ℕ) : VideoOverlay :=
  let linked := this.setEvent last_event fun e => { e with next_event := new_event }
  let added := linked.setEvent new_event fun _ =>
    { event with next_event := this_event, serial := this.accepted }
  { added with accepted := this.accepted + 1 }

/-- `video_overlay_add_event`, with the slot that it returns, or -1. -/
def videoOverlayAddEvent (this : VideoOverlay) (event : VideoOverlayEvent) :
    Option (VideoOverlay × ℤ) :=
  -- slot 0 is a pointer to the first event
  match (List.range' 1 (maxEvents - 1)).find? fun i => decide ((this.events i).event_type = 0) with
  | some new_event =>
    (findPlace this.events event.vpts maxEvents 0).map fun place =>
      (insertEvent this event place.1 place.2 new_event, (new_event : ℤ))
  | none => some (this, -1)

/-- `OVERLAY_EVENT_SHOW` gives the event's overlay to the object. -/
def showObject (this : VideoOverlay) (this_event : ℕ) (overlay : VoOverlay) : VideoOverlay :=
  let event := this.events this_event
  (this.setObject event.handle fun o =>
    { o with handle := event.handle, overlay := some overlay, pts := event.pts }).setEvent this_event
      fun e => { e with overlay := none }

/-- `OVERLAY_EVENT_MENU_BUTTON` mixes palette and copies clip coordinates. -/
def mixOverlay (overlay event_overlay : VoOverlay) : VoOverlay :=
  { overlay with
    clip_top := event_overlay.clip_top
    clip_bottom := event_overlay.clip_bottom
    clip_left := event_overlay.clip_left
    clip_right := event_overlay.clip_right
    clip_color := fun i => if i < 4 then event_overlay.clip_color i else overlay.clip_color i
    clip_trans := fun i => if i < 4 then event_overlay.clip_trans i else overlay.clip_trans i
    clip_rgb_clut := event_overlay.clip_rgb_clut }

/-- Freeing the overlay of an event. -/
def dropOverlay (this : VideoOverlay) (this_event : ℕ) : VideoOverlay :=
  this.setEvent this_event fun e => { e with overlay := none }

/-- `OVERLAY_EVENT_FREE_HANDLE` takes the handle from the event, so that it is not removed with the
others. -/
def clearHandle (this : VideoOverlay) (this_event : ℕ) : VideoOverlay :=
  (dropOverlay this this_event).setEvent this_event fun e => { e with handle := -1 }

/-- The case of `video_overlay_event` for the type of the event. -/
def eventCase (this : VideoOverlay) (this_event : ℕ) : Option VideoOverlay :=
  let event := this.events this_event
  if event.event_type = overlayEventShow then
    match event.overlay with
    | some overlay =>
      if IsHandle event.handle then
        some (addShowingHandle (showObject this this_event overlay) event.handle)
      else none
    | none => some this
  else if event.event_type = overlayEventHide then
    some (removeShowingHandle (dropOverlay this this_event) event.handle)
  else if event.event_type = overlayEventFreeHandle then
    videoOverlayFreeHandle (clearHandle this this_event) event.handle
  else if event.event_type = overlayEventMenuButton then
    match event.overlay with
    | some event_overlay =>
      if IsHandle event.handle then
        match (this.objects event.handle).overlay with
        | some overlay =>
          some (dropOverlay
            (addShowingHandle
              (this.setObject event.handle fun o =>
                { o with handle := event.handle, overlay := some (mixOverlay overlay event_overlay) })
              event.handle)
            this_event)
        | none => some (dropOverlay this this_event)
      else none
    -- the test for rle data follows the pointer
    | none => none
  else some this

/-- `video_overlay_event` takes the first event out of the queue. -/
def finishEvent (this : VideoOverlay) (this_event : ℕ) : VideoOverlay :=
  let unlinked := this.setEvent 0 fun e =>
    { e with next_event := (this.events this_event).next_event }
  let freed := unlinked.setEvent this_event fun e => { e with next_event := 0, event_type := 0 }
  { freed with processed := this.processed ++ [(this.events this_event).serial] }

/-- Whether an event is to be processed at a time, or at once. -/
def IsDue (vpts event_vpts : ℤ) : Prop := vpts > event_vpts ∨ vpts = 0

instance (vpts event_vpts : ℤ) : Decidable (IsDue vpts event_vpts) :=
  inferInstanceAs (Decidable (_ ∨ _))

/-- The loop of `video_overlay_event`. -/
def eventLoop (vpts : ℤ) : ℕ → VideoOverlay → ℕ → Option (VideoOverlay × ℕ)
  | 0, _, _ => none
  | fuel + 1, this, processed =>
    let this_event := (this.events 0).next_event
    if this_event ≠ 0 ∧ IsDue vpts (this.events this_event).vpts then
      (eventCase this this_event).bind fun this =>
        eventLoop vpts fuel (finishEvent this this_event) (processed + 1)
    else some (this, processed)

/-- `video_overlay_event`, with the number of events that it has processed. -/
def videoOverlayEvent (this : VideoOverlay) (vpts : ℤ) : Option (VideoOverlay × ℕ) :=
  eventLoop vpts maxEvents this 0

end Xine.Overlay
