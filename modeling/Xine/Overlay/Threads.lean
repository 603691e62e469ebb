import Xine.Overlay.Manager
import Xine.Library.Runs

/-!
# Threads on the overlay manager

The functions of the manager in their locked sections. Any number of threads add events, allocate handles and free
them; the video thread processes events and blends. `video_overlay_free_handle` is three sections, under
`showing_mutex`, `events_mutex` and `objects_mutex`, and other threads come in between. The video thread holds
`events_mutex` while it processes events, but what it does to an object, to the table of showing handles and to
the queue are separate sections too. While it blends it holds `showing_mutex`, and reads one entry of the table
after the other.

An action whose lock is held by another thread is not enabled. `blended` is not in the code: it is the log of the
overlays that the blend loop reads.
-/

namespace Xine.Overlay

variable {τ : Type*} [DecidableEq τ]

/-- Where the video thread is. Except outside and in `blending` it is in `video_overlay_event` and
holds `events_mutex`. -/
inductive VideoPc where
  | outside
  /-- At the condition of the loop. -/
  | loop (vpts : ℤ)
  /-- Before `add_showing_handle`. -/
  | addShowing (vpts : ℤ) (this_event : ℕ) (handle : ℤ)
  /-- Before `remove_showing_handle` of `OVERLAY_EVENT_HIDE`. -/
  | hide (vpts : ℤ) (this_event : ℕ) (handle : ℤ)
  /-- Before the three sections of `OVERLAY_EVENT_FREE_HANDLE`. -/
  | freeShowing (vpts : ℤ) (this_event : ℕ) (handle : ℤ)
  | freeEvents (vpts : ℤ) (this_event : ℕ) (handle : ℤ)
  | freeObject (vpts : ℤ) (this_event : ℕ) (handle : ℤ)
  /-- Behind the cases. -/
  | finish (vpts : ℤ) (this_event : ℕ)
  /-- In the blend loop, with `showing_mutex`. -/
  | blending (i : ℕ)
  deriving DecidableEq

/-- The video thread holds `events_mutex`. -/
def VideoPc.HoldsEvents : VideoPc → Prop
  | .outside | .blending _ => False
  | _ => True

instance : DecidablePred VideoPc.HoldsEvents := fun pc => by
  cases pc <;> unfold VideoPc.HoldsEvents <;> infer_instance

/-- The video thread holds `showing_mutex`. -/
def VideoPc.HoldsShowing : VideoPc → Prop
  | .blending _ => True
  | _ => False

instance : DecidablePred VideoPc.HoldsShowing := fun pc => by
  cases pc <;> unfold VideoPc.HoldsShowing <;> infer_instance

/-- Where another thread is. -/
inductive Pc where
  | idle
  /-- In `video_overlay_free_handle`, before `remove_events_handle`. -/
  | freeEvents (handle : ℤ)
  /-- Before `internal_video_overlay_free_handle`. -/
  | freeObject (handle : ℤ)
  deriving DecidableEq

/-- The manager and its threads. -/
structure State (τ : Type*) where
  this : VideoOverlay
  video : VideoPc
  pc : τ → Pc
  blended : List (Option VoOverlay)

/-- A new manager. -/
def init : State τ := ⟨videoOverlayInit, .outside, fun _ => .idle, []⟩

/-- What a thread does next. -/
inductive Action (τ : Type*) where
  | addEvent (t : τ) (event : VideoOverlayEvent)
  | getHandle (t : τ) (object_type : ℤ)
  /-- The three sections of `video_overlay_free_handle`. -/
  | freeHandle (t : τ) (handle : ℤ)
  | freeEvents (t : τ)
  | freeObject (t : τ)
  /-- The video thread calls `video_overlay_event`. -/
  | events (vpts : ℤ)
  /-- It begins to blend, if this is enabled and the driver can blend. -/
  | blend (enabled : Bool)
  /-- Its next section. -/
  | video

/-- The case for the type of the event, up to the first section that takes a lock. -/
def caseStart (this : VideoOverlay) (vpts : ℤ) (this_event : ℕ) : Option (VideoOverlay × VideoPc) :=
  let event := this.events this_event
  if event.event_type = overlayEventShow then
    match event.overlay with
    | some overlay =>
      if IsHandle event.handle then
        some (showObject this this_event overlay, .addShowing vpts this_event event.handle)
      else none
    | none => some (this, .finish vpts this_event)
  else if event.event_type = overlayEventHide then
    some (dropOverlay this this_event, .hide vpts this_event event.handle)
  else if event.event_type = overlayEventFreeHandle then
    some (clearHandle this this_event, .freeShowing vpts this_event event.handle)
  else if event.event_type = overlayEventMenuButton then
    match event.overlay with
    | some event_overlay =>
      if IsHandle event.handle then
        match (this.objects event.handle).overlay with
        | some overlay =>
          some
            (this.setObject event.handle fun o =>
              { o with handle := event.handle, overlay := some (mixOverlay overlay event_overlay) },
              .addShowing vpts this_event event.handle)
        | none => some (dropOverlay this this_event, .finish vpts this_event)
      else none
    | none => none
  else some (this, .finish vpts this_event)

/-- The next section of the video thread. -/
def videoStep (s : State τ) : Option (State τ) :=
  match s.video with
  | .outside => none
  | .loop vpts =>
    let this_event := (s.this.events 0).next_event
    if this_event ≠ 0 ∧ IsDue vpts (s.this.events this_event).vpts then
      (caseStart s.this vpts this_event).map fun r => { s with this := r.1, video := r.2 }
    else some { s with video := .outside }
  | .addShowing vpts this_event handle =>
    let this := addShowingHandle s.this handle
    let this :=
      -- a menu button has kept its overlay until now
      if (this.events this_event).event_type = overlayEventMenuButton then dropOverlay this this_event
      else this
    some { s with this, video := .finish vpts this_event }
  | .hide vpts this_event handle =>
    some { s with this := removeShowingHandle s.this handle, video := .finish vpts this_event }
  | .freeShowing vpts this_event handle =>
    some { s with
      this := removeShowingHandle s.this handle
      video := .freeEvents vpts this_event handle }
  | .freeEvents vpts this_event handle =>
    (removeEventsHandle s.this handle).map fun this =>
      { s with this, video := .freeObject vpts this_event handle }
  | .freeObject vpts this_event handle =>
    (internalFreeHandle s.this handle).map fun this =>
      { s with this, video := .finish vpts this_event }
  | .finish vpts this_event =>
    some { s with this := finishEvent s.this this_event, video := .loop vpts }
  | .blending i =>
    if h : i < maxShowing then
      let handle := s.this.showing ⟨i, h⟩
      let next := { s with video := .blending (i + 1) }
      if 0 ≤ handle then
        some { next with blended := s.blended ++ [(s.this.objects handle).overlay] }
      else some next
    else some { s with this := { s.this with showing_changed := 0 }, video := .outside }

def step (s : State τ) : Action τ → Option (State τ)
  | .addEvent t event =>
    if s.pc t = .idle ∧ ¬s.video.HoldsEvents then
      (videoOverlayAddEvent s.this event).map fun r => { s with this := r.1 }
    else none
  | .getHandle t object_type =>
    if s.pc t = .idle then some { s with this := (videoOverlayGetHandle s.this object_type).1 }
    else none
  | .freeHandle t handle =>
    if s.pc t = .idle ∧ ¬s.video.HoldsShowing then
      some { s with
        this := removeShowingHandle s.this handle
        pc := Function.update s.pc t (.freeEvents handle) }
    else none
  | .freeEvents t =>
    match s.pc t with
    | .freeEvents handle =>
      if ¬s.video.HoldsEvents then
        (removeEventsHandle s.this handle).map fun this =>
          { s with this, pc := Function.update s.pc t (.freeObject handle) }
      else none
    | _ => none
  | .freeObject t =>
    match s.pc t with
    | .freeObject handle =>
      (internalFreeHandle s.this handle).map fun this =>
        { s with this, pc := Function.update s.pc t .idle }
    | _ => none
  | .events vpts => if s.video = .outside then some { s with video := .loop vpts } else none
  | .blend enabled =>
    if s.video = .outside then some { s with video := .blending (if enabled then 0 else maxShowing) }
    else none
  | .video => videoStep s

/-! ## The sections of an event together

When no other thread comes in between, the sections of the video thread are `video_overlay_event`. -/

section Sections

variable {s : State τ} {this' : VideoOverlay} {vpts : ℤ} {b : ℕ}

end Sections

end Xine.Overlay
