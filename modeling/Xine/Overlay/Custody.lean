import Xine.Overlay.Ownership

/-!
# The overlays and their owners

What each function of the overlay manager does to the account of the memory: the ledger of a memory has the
pointers of the manager, and each function is one or two operations on it.

A hide event and an event that frees its handle lose the rle array of their overlay, a menu button without an
overlay follows a null pointer, and an event of another type leaves its overlay in its slot, where the next event
is put on top of it.
-/

namespace Xine.Overlay

open Ledger

/-- The pointer to an overlay in a block. -/
def pointer (block : ℕ) (overlay : Option VoOverlay) : Option Ptr :=
  overlay.map fun overlay => ⟨block, overlay.rle⟩

/-- The pointers of the events. -/
def eventPtr (this : VideoOverlay) (i : ℕ) : Option Ptr :=
  pointer (this.events i).serial (this.events i).overlay

/-- The pointers of the objects. -/
def objectPtr (this : VideoOverlay) (block : ℤ → ℕ) (h : ℕ) : Option Ptr :=
  pointer (block h) (this.objects h).overlay

/-- The account of a memory. -/
def Store.ledger (s : Store) : Ledger :=
  ⟨eventPtr s.manager, objectPtr s.manager s.block, s.allocated, s.handed, s.freed, s.freed_rle⟩

section Pointers

variable {this : VideoOverlay} {i n : ℕ} {f : EventSlot → EventSlot}
  {g : VideoOverlayObject → VideoOverlayObject} {block : ℤ → ℕ}

theorem pointer_eq_none {block : ℕ} {overlay : Option VoOverlay} :
    pointer block overlay = none ↔ overlay = none :=
  Option.map_eq_none_iff

theorem pointer_bind_rle (block : ℕ) (overlay : Option VoOverlay) :
    (pointer block overlay).bind Ptr.rle = overlay.bind VoOverlay.rle := by
  cases overlay with
  | none => rfl
  | some overlay => rfl

theorem eventPtr_setEvent (this : VideoOverlay) (i : ℕ) (f : EventSlot → EventSlot) :
    eventPtr (this.setEvent i f) = Function.update (eventPtr this) i
      (pointer (f (this.events i)).serial (f (this.events i)).overlay) := by
  funext j
  unfold eventPtr VideoOverlay.setEvent
  by_cases hj : j = i
  · subst hj
    simp only [Function.update_self]
  · simp only [Function.update_of_ne hj]

theorem eventPtr_setEvent_none (h : (f (this.events i)).overlay = none) :
    eventPtr (this.setEvent i f) = Function.update (eventPtr this) i none := by
  rw [eventPtr_setEvent, h]
  rfl

theorem eventPtr_setEvent_same (h : (f (this.events i)).overlay = (this.events i).overlay)
    (hserial : (f (this.events i)).serial = (this.events i).serial) :
    eventPtr (this.setEvent i f) = eventPtr this := by
  rw [eventPtr_setEvent, h, hserial]
  exact Function.update_eq_self i (eventPtr this)

theorem objectPtr_setObject (this : VideoOverlay) (block : ℤ → ℕ) (n b : ℕ)
    (g : VideoOverlayObject → VideoOverlayObject) :
    objectPtr (this.setObject n g) (Function.update block n b) =
      Function.update (objectPtr this block) n (pointer b (g (this.objects n)).overlay) := by
  funext j
  unfold objectPtr VideoOverlay.setObject
  by_cases hj : j = n
  · subst hj
    simp only [Function.update_self]
  · have hcast : (j : ℤ) ≠ (n : ℤ) := fun h => hj (Int.ofNat.inj h)
    simp only [Function.update_of_ne hj, Function.update_of_ne hcast]

theorem objectPtr_setObject_block (this : VideoOverlay) (block : ℤ → ℕ) (n : ℕ)
    (g : VideoOverlayObject → VideoOverlayObject) :
    objectPtr (this.setObject n g) block =
      Function.update (objectPtr this block) n (pointer (block n) (g (this.objects n)).overlay) := by
  rw [← objectPtr_setObject, Function.update_eq_self]

theorem objectPtr_setObject_same {handle : ℤ}
    (h : (g (this.objects handle)).overlay = (this.objects handle).overlay) :
    objectPtr (this.setObject handle g) block = objectPtr this block := by
  funext j
  unfold objectPtr VideoOverlay.setObject
  by_cases hj : (j : ℤ) = handle
  · subst hj
    simp only [Function.update_self, h]
  · simp only [Function.update_of_ne hj]

theorem addShowingHandle_ptrs (this : VideoOverlay) (handle : ℤ) (block : ℤ → ℕ) :
    eventPtr (addShowingHandle this handle) = eventPtr this ∧
      objectPtr (addShowingHandle this handle) block = objectPtr this block := by
  obtain ⟨showing, hadd⟩ := addShowingHandle_frame this handle
  rw [hadd]
  exact ⟨rfl, rfl⟩

theorem eventPtr_dropOverlay (this : VideoOverlay) (b : ℕ) :
    eventPtr (dropOverlay this b) = Function.update (eventPtr this) b none :=
  eventPtr_setEvent_none rfl

theorem eventPtr_showObject (this : VideoOverlay) (b : ℕ) (overlay : VoOverlay) :
    eventPtr (showObject this b overlay) = Function.update (eventPtr this) b none := by
  unfold showObject
  exact eventPtr_setEvent_none rfl

theorem objectPtr_showObject {overlay : VoOverlay} (block : ℤ → ℕ)
    (hhandle : (this.events i).handle = n) :
    objectPtr (showObject this i overlay) (Function.update block n (this.events i).serial) =
      Function.update (objectPtr this block) n (pointer (this.events i).serial (some overlay)) := by
  rw [← objectPtr_setObject this block n _ fun o =>
    { o with handle := n, overlay := some overlay, pts := (this.events i).pts }]
  unfold showObject
  dsimp only
  rw [hhandle]
  rfl

theorem eventPtr_removeEvent (this : VideoOverlay) (last b : ℕ) :
    eventPtr (removeEvent this last b) = Function.update (eventPtr this) b none := by
  have hlast : eventPtr (this.setEvent last fun e =>
      { e with next_event := (this.events b).next_event }) = eventPtr this :=
    eventPtr_setEvent_same rfl rfl
  have hfreed : eventPtr (removeEvent this last b) =
      eventPtr ((this.setEvent last fun e =>
        { e with next_event := (this.events b).next_event }).setEvent b
          fun e => { e with overlay := none, next_event := 0, event_type := overlayEventNull }) := rfl
  rw [hfreed, eventPtr_setEvent_none rfl, hlast]

theorem eventPtr_finishEvent (this : VideoOverlay) (b : ℕ) :
    eventPtr (finishEvent this b) = eventPtr this := by
  have hfirst : eventPtr (this.setEvent 0 fun e =>
      { e with next_event := (this.events b).next_event }) = eventPtr this :=
    eventPtr_setEvent_same rfl rfl
  have hfreed : eventPtr (finishEvent this b) =
      eventPtr ((this.setEvent 0 fun e =>
        { e with next_event := (this.events b).next_event }).setEvent b
          fun e => { e with next_event := 0, event_type := 0 }) := rfl
  rw [hfreed, eventPtr_setEvent_same rfl rfl, hfirst]

theorem eventPtr_insertEvent (this : VideoOverlay) (event : VideoOverlayEvent) (l n b : ℕ) :
    eventPtr (insertEvent this event l n b) =
      Function.update (eventPtr this) b (pointer this.accepted event.overlay) := by
  have hlinked : eventPtr (this.setEvent l fun e => { e with next_event := b }) = eventPtr this :=
    eventPtr_setEvent_same rfl rfl
  have hadded : eventPtr (insertEvent this event l n b) =
      eventPtr ((this.setEvent l fun e => { e with next_event := b }).setEvent b fun _ =>
        { event with next_event := n, serial := this.accepted }) := rfl
  rw [hadded, eventPtr_setEvent, hlinked]

end Pointers

/-! ## The functions as operations on the account -/

section Operations

variable {s s' : Store} {this : VideoOverlay} {b last fuel n : ℕ} {handle : ℤ}

theorem releaseEvent_ledger (hevents : eventPtr this = Function.update (eventPtr s.manager) b none)
    (hobjects : objectPtr this s.block = objectPtr s.manager s.block) :
    ({ s.releaseEvent b with manager := this } : Store).ledger = s.ledger.clearEvent b := by
  unfold Store.releaseEvent Store.ledger clearEvent Ledger.release
  dsimp only
  rw [hevents, eventPtr]
  cases (s.manager.events b).overlay with
  | some overlay =>
    dsimp only [Store.release]
    rw [hobjects]
    rfl
  | none =>
    dsimp only
    rw [hobjects]
    simp [pointer]

theorem freeEvent_ledger (hevents : eventPtr this = Function.update (eventPtr s.manager) b none)
    (hobjects : objectPtr this s.block = objectPtr s.manager s.block) :
    ({ s.freeEvent b with manager := this } : Store).ledger = s.ledger.dropEvent b := by
  unfold Store.freeEvent Store.ledger dropEvent
  dsimp only
  rw [hevents, eventPtr]
  cases (s.manager.events b).overlay with
  | some overlay =>
    dsimp only
    rw [hobjects]
    rfl
  | none =>
    dsimp only
    rw [hobjects]
    simp [pointer]

theorem releaseObject_block (s : Store) (handle : ℤ) :
    (s.releaseObject handle).block = s.block := by
  unfold Store.releaseObject
  split <;> rfl

theorem releaseObject_ledger (s : Store) (this : VideoOverlay) (n : ℕ) (block : ℤ → ℕ) :
    ({ s.releaseObject n with manager := this, block } : Store).ledger =
      { s.ledger.clearObject n with events := eventPtr this, objects := objectPtr this block } := by
  unfold Store.releaseObject Store.ledger clearObject Ledger.release
  dsimp only
  rw [objectPtr]
  cases (s.manager.objects n).overlay with
  | some overlay => rfl
  | none => simp [pointer]

theorem within_clear {l l' : Ledger} (hw : l.Within)
    (hevents : l'.events = Function.update l.events b none) : l'.Within :=
  hw.update none hevents (.inl rfl)

theorem storeRemoveEventsLoop_ledger (h : storeRemoveEventsLoop handle fuel s last = some s')
    (hw : s.ledger.Within) : SameAccount s.ledger s'.ledger ∧ s'.ledger.Within := by
  induction fuel generalizing s last with
  | zero => exact absurd h.symm (Option.some_ne_none s')
  | succ fuel ih =>
    rw [storeRemoveEventsLoop] at h
    split_ifs at h with hzero hhandle
    · cases h
      exact ⟨SameAccount.refl _, hw⟩
    · -- one event is freed, and then those behind it
      have hledger := @releaseEvent_ledger s
        (removeEvent s.manager last (s.manager.events last).next_event) _
        (eventPtr_removeEvent s.manager last _) rfl
      have hsame := sameAccount_clearEvent hw (s.manager.events last).next_event
      have hw' := @within_clear (s.manager.events last).next_event s.ledger
        (s.ledger.clearEvent (s.manager.events last).next_event) hw rfl
      rw [← hledger] at hsame hw'
      obtain ⟨hrest, hwithin⟩ := ih h hw'
      exact ⟨hsame.trans hrest, hwithin⟩
    · exact ih h hw

theorem storeFreeHandle_ledger (h : storeFreeHandle s handle = some s') (hw : s.ledger.Within) :
    SameAccount s.ledger s'.ledger ∧ s'.ledger.Within := by
  obtain ⟨s₁, hloop, hfree⟩ := Option.bind_eq_some_iff.1 h
  have hshowing : ({ s with manager := removeShowingHandle s.manager handle } : Store).ledger =
      s.ledger := rfl
  obtain ⟨hsame, hwithin⟩ := storeRemoveEventsLoop_ledger hloop (by rwa [hshowing])
  rw [hshowing] at hsame
  unfold storeInternalFreeHandle internalFreeHandle at hfree
  by_cases hhandle : IsHandle handle
  · rw [if_pos hhandle, Option.map_some] at hfree
    obtain ⟨n, rfl⟩ := Int.eq_ofNat_of_zero_le hhandle.1
    have hn : n < maxObjects := by
      have hlt := hhandle.2
      omega
    have hledger : s'.ledger = s₁.ledger.clearObject n := by
      rw [← Option.some.inj hfree]
      refine (releaseObject_ledger s₁ _ n _).trans ?_
      rw [releaseObject_block, objectPtr_setObject_block]
      rfl
    rw [hledger]
    exact ⟨hsame.trans (sameAccount_clearObject hn), hwithin⟩
  · rw [if_neg hhandle] at hfree
    exact absurd hfree.symm (Option.some_ne_none s')

/-- Events that free their overlay without its rle array. -/
def Forgets (event_type : ℕ) : Prop :=
  event_type = overlayEventHide ∨ event_type = overlayEventFreeHandle

theorem storeEventCase_forgets (h : storeEventCase s b = some s') (hw : s.ledger.Within)
    (htype : Forgets (s.manager.events b).event_type) :
    SameAccount (s.ledger.dropEvent b) s'.ledger ∧ s'.ledger.Within := by
  have hw' : (s.ledger.dropEvent b).Within := within_clear hw rfl
  have hshow : (s.manager.events b).event_type ≠ overlayEventShow := by
    rcases htype with htype | htype
    · rw [htype]
      decide
    · rw [htype]
      decide
  unfold storeEventCase at h
  dsimp only at h
  rw [if_neg hshow] at h
  by_cases hhide : (s.manager.events b).event_type = overlayEventHide
  · rw [if_pos hhide] at h
    have hledger : s'.ledger = s.ledger.dropEvent b := by
      rw [← Option.some.inj h]
      exact freeEvent_ledger (eventPtr_dropOverlay s.manager b) rfl
    rw [hledger]
    exact ⟨SameAccount.refl _, hw'⟩
  · rw [if_neg hhide, if_pos (htype.resolve_left hhide)] at h
    have hclear : eventPtr (clearHandle s.manager b) =
        Function.update (eventPtr s.manager) b none := by
      unfold clearHandle
      rw [eventPtr_setEvent_same rfl rfl]
      exact eventPtr_dropOverlay s.manager b
    have hledger := @freeEvent_ledger s _ b hclear rfl
    obtain ⟨hsame, hwithin⟩ := storeFreeHandle_ledger h (by rwa [hledger])
    rw [hledger] at hsame
    exact ⟨hsame, hwithin⟩

theorem storeEventCase_keeps (h : storeEventCase s b = some s') (hw : s.ledger.Within)
    (hb : b < maxEvents) (htype : ¬Forgets (s.manager.events b).event_type) :
    SameAccount s.ledger s'.ledger ∧ s'.ledger.Within := by
  obtain ⟨hhide, hfree⟩ := not_or.1 htype
  unfold storeEventCase at h
  dsimp only at h
  by_cases hshow : (s.manager.events b).event_type = overlayEventShow
  · rw [if_pos hshow] at h
    cases hoverlay : (s.manager.events b).overlay with
    | none =>
      rw [hoverlay] at h
      cases h
      exact ⟨SameAccount.refl _, hw⟩
    | some overlay =>
      rw [hoverlay] at h
      dsimp only at h
      split_ifs at h with hhandle
      obtain ⟨n, hn⟩ := Int.eq_ofNat_of_zero_le hhandle.1
      have hlt : n < maxObjects := by
        have hlt := hhandle.2
        omega
      rw [hn] at h
      -- the object is cleared, and then takes the overlay of the event
      have hledger : s'.ledger = (s.ledger.clearObject n).moveEvent b n := by
        rw [← Option.some.inj h]
        refine (releaseObject_ledger s _ n _).trans ?_
        obtain ⟨hevents, hobjects⟩ := addShowingHandle_ptrs (showObject s.manager b overlay) n
          (Function.update s.block n (s.manager.events b).serial)
        rw [hevents, hobjects, eventPtr_showObject, objectPtr_showObject s.block hn, ← hoverlay]
        unfold moveEvent clearObject
        dsimp only
        rw [Function.update_idem]
        rfl
      have hempty : (s.ledger.clearObject n).objects n = none := by
        unfold clearObject
        exact Function.update_self n none s.ledger.objects
      have hmove := sameAccount_moveEvent hb hlt hempty
      rw [hledger]
      exact ⟨(sameAccount_clearObject hlt).trans hmove, within_clear hw rfl⟩
  rw [if_neg hshow, if_neg hhide, if_neg hfree] at h
  by_cases hmenu : (s.manager.events b).event_type = overlayEventMenuButton
  · rw [if_pos hmenu] at h
    cases hoverlay : (s.manager.events b).overlay with
    | none =>
      rw [hoverlay] at h
      exact absurd h.symm (Option.some_ne_none s')
    | some event_overlay =>
      rw [hoverlay] at h
      dsimp only at h
      split_ifs at h with hhandle
      have hledger : s'.ledger = s.ledger.clearEvent b := by
        cases hobject : (s.manager.objects (s.manager.events b).handle).overlay with
        | none =>
          rw [hobject] at h
          rw [← Option.some.inj h]
          exact releaseEvent_ledger (eventPtr_dropOverlay s.manager b) rfl
        | some overlay =>
          rw [hobject] at h
          rw [← Option.some.inj h]
          obtain ⟨n, hn⟩ := Int.eq_ofNat_of_zero_le hhandle.1
          obtain ⟨hevents, hobjects⟩ := addShowingHandle_ptrs
            (s.manager.setObject (s.manager.events b).handle fun o => { o with
              handle := (s.manager.events b).handle
              overlay := some (mixOverlay overlay event_overlay) })
            (s.manager.events b).handle s.block
          refine releaseEvent_ledger ?_ ?_
          · rw [eventPtr_dropOverlay, hevents]
            rfl
          · -- the object keeps its block and its rle array
            refine hobjects.trans ?_
            rw [hn] at hobject ⊢
            have hsame : pointer (s.block n) (some (mixOverlay overlay event_overlay)) =
                objectPtr s.manager s.block n := by
              rw [objectPtr, hobject]
              rfl
            rw [objectPtr_setObject_block, hsame, Function.update_eq_self]
      rw [hledger]
      exact ⟨sameAccount_clearEvent hw b, within_clear hw rfl⟩
  · rw [if_neg hmenu] at h
    cases h
    exact ⟨SameAccount.refl _, hw⟩

/-- The slot that `video_overlay_add_event` takes. -/
def freeSlot (this : VideoOverlay) : Option ℕ :=
  (List.range' 1 (maxEvents - 1)).find? fun i => decide ((this.events i).event_type = 0)

theorem freeSlot_lt (h : freeSlot this = some b) : b < maxEvents := by
  have hmem := List.mem_of_find?_eq_some h
  simp only [List.mem_range'_1] at hmem
  omega

theorem storeAddEvent_ledger {event : VideoOverlayEvent} (h : storeAddEvent s event = some s') :
    (freeSlot s.manager = none → s' = s) ∧
      ∀ b, freeSlot s.manager = some b →
        s'.ledger = s.ledger.put b (pointer s.manager.accepted event.overlay) ∧
          s'.manager.accepted = s.manager.accepted + 1 := by
  obtain ⟨r, hadd, rfl⟩ := Option.map_eq_some_iff.1 h
  unfold videoOverlayAddEvent at hadd
  unfold freeSlot
  constructor
  · intro hnone
    rw [hnone] at hadd
    cases hadd
    rw [if_pos rfl]
  · intro b hb
    rw [hb] at hadd
    obtain ⟨place, -, rfl⟩ := Option.map_eq_some_iff.1 hadd
    have hne : ((b : ℕ) : ℤ) ≠ -1 := by omega
    dsimp only
    rw [if_neg hne]
    have hevents := eventPtr_insertEvent s.manager event place.1 place.2 b
    cases hoverlay : event.overlay with
    | some overlay =>
      rw [hoverlay] at hevents
      refine ⟨?_, rfl⟩
      unfold Store.ledger put
      dsimp only
      rw [hevents]
      rfl
    | none =>
      rw [hoverlay] at hevents
      refine ⟨?_, rfl⟩
      unfold Store.ledger put
      dsimp only
      rw [hevents]
      have hobjects : objectPtr (insertEvent s.manager event place.1 place.2 b) s.block =
          objectPtr s.manager s.block := rfl
      rw [hobjects]
      simp [pointer]

end Operations

/-! ## Every sequence of actions -/

/-- Each overlay and each rle array has one owner or has been freed once. -/
structure Store.Owned (s : Store) : Prop where
  overlays : ∀ n ∈ s.allocated, s.ledger.blocks n = 1
  others : ∀ n, n ∉ s.allocated → s.ledger.blocks n = 0
  rles : ∀ r, s.ledger.rles r = s.handed.count r

/-- What the callers keep to, except for the overlays of the menu buttons. -/
structure VideoOverlayEvent.Addressed (event : VideoOverlayEvent) : Prop where
  type : event.event_type ≠ overlayEventNull
  handle : event.event_type = overlayEventShow ∨ event.event_type = overlayEventMenuButton ∨
    event.event_type = overlayEventFreeHandle → IsHandle event.handle

/-- What the callers of the manager keep to. -/
def StoreAction.Valid : StoreAction → Prop
  | .addEvent event => event.Addressed
  | .freeHandle handle => IsHandle handle
  | _ => True

/-- The overlay of the event can be disposed of as its type does. -/
structure Disposable (event : VideoOverlayEvent) : Prop where
  rle : Forgets event.event_type → event.overlay.bind VoOverlay.rle = none
  overlay : event.event_type = overlayEventMenuButton → event.overlay ≠ none

instance (event : VideoOverlayEvent) : Decidable (Disposable event) :=
  decidable_of_iff
    (((event.event_type = overlayEventHide ∨ event.event_type = overlayEventFreeHandle) →
      event.overlay.bind VoOverlay.rle = none) ∧
      (event.event_type = overlayEventMenuButton → event.overlay ≠ none))
    ⟨fun h => ⟨h.1, h.2⟩, fun h => ⟨h.rle, h.overlay⟩⟩

/-- The actions that lose nothing: an event is put into a slot without an overlay, and the event that is
processed can be disposed of. -/
def Keeps (s : Store) : StoreAction → Prop
  | .addEvent _ => ∀ i ∈ freeSlot s.manager, (s.manager.events i).overlay = none
  | .process vpts =>
    (s.manager.events 0).next_event ≠ 0 →
      IsDue vpts (s.manager.events (s.manager.events 0).next_event).vpts →
        Disposable (s.manager.events (s.manager.events 0).next_event).toVideoOverlayEvent
  | _ => True

instance : ∀ s a, Decidable (Keeps s a)
  | s, .addEvent _ =>
    inferInstanceAs (Decidable (∀ i ∈ freeSlot s.manager, (s.manager.events i).overlay = none))
  | _, .process _ => inferInstanceAs (Decidable (_ → _ → Disposable _))
  | _, .getHandle _ => isTrue trivial
  | _, .freeHandle _ => isTrue trivial

/-- The events in the slots `xs` are about objects. -/
def QueueAddressed (this : VideoOverlay) (xs : List ℕ) : Prop :=
  ∀ i ∈ xs, (this.events i).toVideoOverlayEvent.Addressed

/-- What is kept while nothing is lost. -/
structure Sound (s : Store) : Prop where
  queue : ∃ xs, Inv s.manager xs ∧ QueueAddressed s.manager xs
  within : s.ledger.Within
  balanced : s.ledger.Balanced
  nodup : s.allocated.Nodup
  fresh : ∀ n ∈ s.allocated, n < s.manager.accepted

section Custody

variable {s s' : Store} {this this' : VideoOverlay} {xs ys : List ℕ} {b : ℕ} {handle vpts : ℤ}

theorem owned_iff_balanced (hnodup : s.allocated.Nodup) : s.Owned ↔ s.ledger.Balanced := by
  constructor
  · intro h
    refine ⟨fun n => ?_, h.rles⟩
    by_cases hn : n ∈ s.allocated
    · exact (h.overlays n hn).trans (List.count_eq_one_of_mem hnodup hn).symm
    · exact (h.others n hn).trans (List.count_eq_zero_of_not_mem hn).symm
  · intro h
    refine ⟨fun n hn => ?_, fun n hn => ?_, h.rles⟩
    · exact (h.blocks n).trans (List.count_eq_one_of_mem hnodup hn)
    · exact (h.blocks n).trans (List.count_eq_zero_of_not_mem hn)

theorem Sound.owned (h : Sound s) : s.Owned := (owned_iff_balanced h.nodup).2 h.balanced

theorem VideoOverlayEvent.Addressed.wellFormed {event : VideoOverlayEvent} (h : event.Addressed)
    (hdisposable : Disposable event) : event.WellFormed :=
  ⟨h.type, h.handle, hdisposable.overlay⟩

theorem QueueAddressed.same (h : QueueAddressed this xs) (hsame : SameEvents ys this this')
    (hsub : ys ⊆ xs) : QueueAddressed this' ys := by
  intro i hi
  rw [(hsame i hi).1]
  exact h i (hsub hi)

theorem Sound.of_balanced (h : Sound s) (hqueue : ∃ xs, Inv s'.manager xs ∧ QueueAddressed s'.manager xs)
    (hwithin : s'.ledger.Within) (hbalanced : s'.ledger.Balanced)
    (hallocated : s'.allocated = s.allocated) (haccepted : s'.manager.accepted = s.manager.accepted) :
    Sound s' := by
  refine ⟨hqueue, hwithin, hbalanced, ?_, ?_⟩
  · rw [hallocated]
    exact h.nodup
  · rw [hallocated, haccepted]
    exact h.fresh

theorem storeAddEvent_manager (s : Store) (event : VideoOverlayEvent) :
    (storeAddEvent s event).map Store.manager =
      (videoOverlayAddEvent s.manager event).map Prod.fst := by
  unfold storeAddEvent
  rw [Option.map_map]
  congr 1
  funext r
  unfold Function.comp
  dsimp only
  split_ifs
  · rfl
  · cases event.overlay with
    | none => rfl
    | some overlay => rfl

theorem addEvent_addressed {event : VideoOverlayEvent} (hinv : Inv this xs)
    (hqueue : QueueAddressed this xs) (hevent : event.Addressed) :
    ∃ r, videoOverlayAddEvent this event = some r ∧
      ∃ xs', Inv r.1 xs' ∧ QueueAddressed r.1 xs' := by
  rcases addEvent_spec event hinv hevent.type with ⟨hadd, -⟩ | ⟨l, n, b, hadd, hinv', hb⟩
  · exact ⟨_, hadd, xs, hinv, hqueue⟩
  · obtain ⟨hnew, -, hother⟩ := @insertEvent_events this event l n b
    refine ⟨_, hadd, _, hinv', fun i hi => ?_⟩
    rcases Agenda.mem_insert.1 hi with rfl | hi
    · rw [hnew]
      exact hevent
    · rw [(hother i (ne_of_mem_of_not_mem hi hb)).1]
      exact hqueue i hi

theorem addEvent_owned {event : VideoOverlayEvent} (h : Sound s) (hevent : event.Addressed) :
    ∃ t, storeAddEvent s event = some t ∧ (t.Owned ↔ Keeps s (.addEvent event)) ∧
      (t.Owned → Sound t) := by
  obtain ⟨xs, hinv, haddressed⟩ := h.queue
  obtain ⟨r, hadd, hqueue⟩ := addEvent_addressed hinv haddressed hevent
  have hmanager := storeAddEvent_manager s event
  rw [hadd, Option.map_some] at hmanager
  obtain ⟨t, hstep, ht⟩ := Option.map_eq_some_iff.1 hmanager
  rw [← ht] at hqueue
  obtain ⟨hfull, hput⟩ := storeAddEvent_ledger hstep
  refine ⟨t, hstep, ?_⟩
  cases hslot : freeSlot s.manager with
  | none =>
    rw [hfull hslot]
    refine ⟨iff_of_true h.owned fun i hi => ?_, fun _ => h⟩
    rw [hslot] at hi
    exact absurd hi.symm (Option.some_ne_none i)
  | some b =>
    obtain ⟨hledger, haccepted⟩ := hput b hslot
    have hb := freeSlot_lt hslot
    have hallocated : t.allocated = s.allocated ++
        ((pointer s.manager.accepted event.overlay).map Ptr.block).toList :=
      congrArg Ledger.allocated hledger
    -- the block has a new number
    have hnew : ∀ n ∈ ((pointer s.manager.accepted event.overlay).map Ptr.block).toList,
        n = s.manager.accepted := by
      intro n hn
      unfold pointer at hn
      cases hoverlay : event.overlay with
      | none =>
        rw [hoverlay] at hn
        exact absurd hn List.not_mem_nil
      | some overlay =>
        rw [hoverlay] at hn
        exact List.mem_singleton.1 hn
    have hnodup : t.allocated.Nodup := by
      rw [hallocated]
      refine List.nodup_append.2 ⟨h.nodup, ?_, fun n hn m hm hnm => ?_⟩
      · cases (pointer s.manager.accepted event.overlay).map Ptr.block with
        | none => exact List.nodup_nil
        | some n => exact List.nodup_singleton n
      · have hlt := h.fresh n hn
        have hm' := hnew m hm
        omega
    have hbalanced : t.ledger.Balanced ↔ (s.manager.events b).overlay = none := by
      rw [hledger, balanced_put_iff h.balanced hb]
      exact pointer_eq_none
    constructor
    · rw [owned_iff_balanced hnodup, hbalanced]
      constructor
      · intro hnone i hi
        obtain rfl := Option.some.inj (hslot.symm.trans hi)
        exact hnone
      · intro hkeeps
        exact hkeeps b hslot
    · intro howned
      refine ⟨hqueue, ?_, (owned_iff_balanced hnodup).1 howned, hnodup, fun n hn => ?_⟩
      · rw [hledger]
        exact h.within.update _ rfl (.inr hb)
      · rw [haccepted]
        rw [hallocated, List.mem_append] at hn
        rcases hn with hn | hn
        · have hlt := h.fresh n hn
          omega
        · have hn' := hnew n hn
          omega

theorem getHandle_sound (h : Sound s) (object_type : ℤ) :
    Sound { s with manager := (videoOverlayGetHandle s.manager object_type).1 } := by
  unfold videoOverlayGetHandle
  split
  · next n _ =>
    obtain ⟨xs, hinv, haddressed⟩ := h.queue
    have hledger : ({ s with
        manager := s.manager.setObject n fun o => { o with handle := n, object_type } } : Store).ledger =
          s.ledger := by
      unfold Store.ledger
      dsimp only
      rw [objectPtr_setObject_same rfl]
      rfl
    refine h.of_balanced ⟨xs, ?_, haddressed⟩ ?_ ?_ rfl rfl
    · exact hinv.congr (fun _ => ⟨rfl, rfl, rfl, rfl⟩) rfl rfl rfl
    · rw [hledger]
      exact h.within
    · rw [hledger]
      exact h.balanced
  · exact h

theorem freeHandle_sound (h : Sound s) (hhandle : IsHandle handle) :
    ∃ t, storeFreeHandle s handle = some t ∧ Sound t := by
  obtain ⟨xs, hinv, haddressed⟩ := h.queue
  obtain ⟨this', hfree, hinv', hsame, haccepted, -⟩ := freeHandle_spec hinv hhandle
  have hmanager := storeFreeHandle_manager s handle
  rw [hfree] at hmanager
  obtain ⟨t, hstep, rfl⟩ := Option.map_eq_some_iff.1 hmanager
  obtain ⟨haccount, hwithin⟩ := storeFreeHandle_ledger hstep h.within
  refine ⟨t, hstep, h.of_balanced ⟨_, hinv', ?_⟩ hwithin ?_ haccount.allocated haccepted⟩
  · exact haddressed.same hsame (List.filter_subset_self xs)
  · exact haccount.balanced_iff.2 h.balanced

theorem process_account (h : Sound s) (hb : b < maxEvents) (hcase : storeEventCase s b = some s') :
    (s'.ledger.Balanced ↔
      (Forgets (s.manager.events b).event_type →
        (s.manager.events b).overlay.bind VoOverlay.rle = none)) ∧
      s'.ledger.Within ∧ s'.allocated = s.allocated := by
  by_cases hforgets : Forgets (s.manager.events b).event_type
  · obtain ⟨hsame, hwithin⟩ := storeEventCase_forgets hcase h.within hforgets
    refine ⟨?_, hwithin, hsame.allocated⟩
    have hrle : (s.ledger.events b).bind Ptr.rle = (s.manager.events b).overlay.bind VoOverlay.rle :=
      pointer_bind_rle _ _
    rw [hsame.balanced_iff, balanced_dropEvent_iff h.balanced h.within b, hrle]
    exact ⟨fun hnone _ => hnone, fun hnone => hnone hforgets⟩
  · obtain ⟨hsame, hwithin⟩ := storeEventCase_keeps hcase h.within hb hforgets
    refine ⟨?_, hwithin, hsame.allocated⟩
    rw [hsame.balanced_iff]
    exact iff_of_true h.balanced fun hno => absurd hno hforgets

theorem finishEvent_ledger (s : Store) (b : ℕ) :
    ({ s with manager := finishEvent s.manager b } : Store).ledger = s.ledger := by
  unfold Store.ledger
  dsimp only
  rw [eventPtr_finishEvent]
  rfl

theorem Sound.front (h : Sound s) (hzero : (s.manager.events 0).next_event ≠ 0) :
    ∃ rest, Inv s.manager ((s.manager.events 0).next_event :: rest) ∧
      QueueAddressed s.manager ((s.manager.events 0).next_event :: rest) := by
  obtain ⟨xs, hinv, haddressed⟩ := h.queue
  have hxs : Inv s.manager ([] ++ xs) := hinv
  have hnext := hxs.next_event (List.nil_append [0])
  cases xs with
  | nil => exact absurd (ptr_eq_none.1 hnext) hzero
  | cons b rest =>
    obtain ⟨rfl, -⟩ := ptr_eq_some.1 hnext
    exact ⟨rest, hinv, haddressed⟩

theorem process_sound (h : Sound s) (hkeeps : Keeps s (.process vpts)) :
    ∃ t, storeProcess s vpts = some t ∧ Sound t := by
  unfold storeProcess
  dsimp only
  by_cases hdue : (s.manager.events 0).next_event ≠ 0 ∧
      IsDue vpts (s.manager.events (s.manager.events 0).next_event).vpts
  · rw [if_pos hdue]
    have hdisposable := hkeeps hdue.1 hdue.2
    obtain ⟨rest, hinv, haddressed⟩ := h.front hdue.1
    obtain ⟨hb, -⟩ := (hinv.used _).1 List.mem_cons_self
    have hwf := (haddressed _ List.mem_cons_self).wellFormed hdisposable
    obtain ⟨this₁, hcase, hinv₁, hsame₁, -, haccepted, -⟩ := eventCase_spec hinv hwf
    have hmanager := storeEventCase_manager s (s.manager.events 0).next_event
    rw [hcase] at hmanager
    obtain ⟨s₁, hs₁, rfl⟩ := Option.map_eq_some_iff.1 hmanager
    obtain ⟨hbalanced, hwithin, hallocated⟩ := process_account h hb hs₁
    obtain ⟨hinv₂, hsame₂⟩ := finishEvent_spec hinv₁
    have hqueue := haddressed.same (hsame₁.trans hsame₂)
      fun i hi => List.mem_cons_of_mem _ (List.mem_of_mem_filter hi)
    have hledger := finishEvent_ledger s₁ (s.manager.events 0).next_event
    refine ⟨{ s₁ with manager := finishEvent s₁.manager (s.manager.events 0).next_event }, ?_, ?_⟩
    · rw [hs₁]
      rfl
    · refine h.of_balanced ⟨_, hinv₂, hqueue⟩ ?_ ?_ hallocated haccepted
      · rw [hledger]
        exact hwithin
      · rw [hledger]
        exact hbalanced.2 hdisposable.rle
  · rw [if_neg hdue]
    exact ⟨s, rfl, h⟩

theorem process_not_owned (h : Sound s) (hkeeps : ¬Keeps s (.process vpts))
    (hstep : storeProcess s vpts = some s') : ¬s'.Owned := by
  have hno := hkeeps
  simp only [Keeps, Classical.not_imp] at hno
  obtain ⟨hzero, hdue, hdisposable⟩ := hno
  unfold storeProcess at hstep
  dsimp only at hstep
  rw [if_pos ⟨hzero, hdue⟩] at hstep
  obtain ⟨s₁, hcase, rfl⟩ := Option.map_eq_some_iff.1 hstep
  obtain ⟨rest, hinv, -⟩ := h.front hzero
  obtain ⟨hb, -⟩ := (hinv.used _).1 List.mem_cons_self
  obtain ⟨hbalanced, -, hallocated⟩ := process_account h hb hcase
  have hledger := finishEvent_ledger s₁ (s.manager.events 0).next_event
  have hnodup : s₁.allocated.Nodup := by
    rw [hallocated]
    exact h.nodup
  intro howned
  have hafter := (owned_iff_balanced (s := { s₁ with
    manager := finishEvent s₁.manager (s.manager.events 0).next_event }) hnodup).1 howned
  rw [hledger] at hafter
  refine hdisposable ⟨hbalanced.1 hafter, fun hmenu hnone => ?_⟩
  -- a menu button without an overlay is not processed
  unfold storeEventCase at hcase
  dsimp only at hcase
  rw [hmenu, hnone] at hcase
  exact absurd hcase.symm (Option.some_ne_none s₁)

theorem storeInit_sound : Sound storeInit := by
  refine ⟨⟨[], init_inv, fun i hi => absurd hi List.not_mem_nil⟩, fun i _ => rfl, ⟨?_, ?_⟩,
    List.nodup_nil, fun n hn => absurd hn List.not_mem_nil⟩
  · intro n
    have hevents := @Holders.held_none ℕ _ n maxEvents
    have hobjects := @Holders.held_none ℕ _ n maxObjects
    change Holders.held (fun _ => none) n maxEvents + Holders.held (fun _ => none) n maxObjects + 0 = 0
    omega
  · intro r
    have hevents := @Holders.held_none ℕ _ r maxEvents
    have hobjects := @Holders.held_none ℕ _ r maxObjects
    change Holders.held (fun _ => none) r maxEvents + Holders.held (fun _ => none) r maxObjects + 0 = 0
    omega

/-- For every sequence of accepted events and of calls that get and free handles: no absent overlay is
followed, and at every point each overlay and each rle array has one owner or has been freed once, if
and only if no event that hides or frees its handle has an rle array, each menu button has an overlay,
and no event is put on top of an overlay. -/
theorem overlays_owned_iff (as : List StoreAction) (hvalid : ∀ a ∈ as, a.Valid) :
    Runs.Guarded storeStep Keeps storeInit as ↔
      ∀ bs, bs <+: as → ∃ s, Runs.run storeStep storeInit bs = some s ∧ s.Owned := by
  refine Runs.guarded_iff_reaches (fun s hs => hs.owned) ?_ ?_ storeInit_sound hvalid
  · intro s a hs ha hkeeps
    cases a with
    | addEvent event =>
      obtain ⟨t, hstep, howned, hsound⟩ := addEvent_owned hs ha
      exact ⟨t, hstep, hsound (howned.2 hkeeps)⟩
    | getHandle object_type => exact ⟨_, rfl, getHandle_sound hs object_type⟩
    | freeHandle handle => exact freeHandle_sound hs ha
    | process vpts => exact process_sound hs hkeeps
  · intro s a t hs ha hkeeps hstep
    cases a with
    | addEvent event =>
      obtain ⟨t', hstep', howned, -⟩ := addEvent_owned hs ha
      obtain rfl := Option.some.inj (hstep.symm.trans hstep')
      exact fun ht => hkeeps (howned.1 ht)
    | getHandle object_type => exact absurd trivial hkeeps
    | freeHandle handle => exact absurd trivial hkeeps
    | process vpts => exact process_not_owned hs hkeeps hstep

/-- An overlay with the rle array 7. -/
def subtitle : VoOverlay := ⟨some 7, 0, 0, 0, 0, fun _ => 0, fun _ => 0, 0⟩

/-- A subtitle is shown, hidden and freed. -/
def subtitleRun : List StoreAction :=
  [.getHandle 0, .addEvent ⟨overlayEventShow, 10, 0, 0, some subtitle⟩, .process 20,
    .addEvent ⟨overlayEventHide, 30, 0, 0, none⟩, .process 40, .freeHandle 0]

theorem overlays_owned_iff_subtitle :
    Runs.Guarded storeStep Keeps storeInit subtitleRun ∧
      ∃ s, Runs.run storeStep storeInit subtitleRun = some s ∧ s.Owned := by
  have hvalid : ∀ a ∈ subtitleRun, a.Valid := by
    intro a ha
    simp only [subtitleRun, List.mem_cons, List.not_mem_nil, or_false] at ha
    rcases ha with rfl | rfl | rfl | rfl | rfl | rfl
    · trivial
    · exact ⟨by decide, fun _ => by decide⟩
    · trivial
    · exact ⟨by decide, fun _ => by decide⟩
    · trivial
    · exact ⟨by decide, by decide⟩
  have hguarded : Runs.Guarded storeStep Keeps storeInit subtitleRun := by
    decide
  exact ⟨hguarded, (overlays_owned_iff subtitleRun hvalid).1 hguarded _ List.prefix_rfl⟩

/-- The overlay of an event that hides it is freed, but its rle array is neither freed nor owned; and a
menu button without an overlay is not processed. -/
theorem hide_loses_rle :
    (∃ s, Runs.run storeStep storeInit
        [.addEvent ⟨overlayEventHide, 10, 0, 0, some subtitle⟩, .process 20] = some s ∧
      s.handed = [7] ∧ s.ledger.rles 7 = 0) ∧
    Runs.run storeStep storeInit
      [.addEvent ⟨overlayEventMenuButton, 10, 0, 0, none⟩, .process 20] = none := by
  refine ⟨⟨_, rfl, rfl, ?_⟩, rfl⟩
  decide

end Custody

end Xine.Overlay
