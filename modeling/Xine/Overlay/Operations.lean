import Xine.Library.Agenda
import Xine.Library.Chain
import Xine.Library.Places
import Xine.Overlay.Manager

/-!
# The event queue

`Inv this xs` says that the slots of the manager's events which are in use are `xs`, linked in this order from
slot 0, that they are an agenda, and that each accepted event is queued, processed or removed, and only one of
these.
-/

namespace Xine.Overlay

open Chain Places

/-- A slot number as a pointer: slot 0 ends the queue. -/
def ptr (i : ℕ) : Option ℕ := if i = 0 then none else some i

theorem ptr_eq_none {i : ℕ} : ptr i = none ↔ i = 0 := by
  simp [ptr]

theorem ptr_eq_some {i b : ℕ} : ptr i = some b ↔ i = b ∧ b ≠ 0 := by
  unfold ptr
  split_ifs with h
  · simp [h, eq_comm]
  · simp only [Option.some.injEq]
    constructor
    · rintro rfl
      exact ⟨rfl, h⟩
    · exact fun hb => hb.1

namespace VideoOverlay

variable (this : VideoOverlay)

/-- The links of the slots. -/
def nexts : ℕ → Option ℕ := fun i => ptr (this.events i).next_event

@[simp] theorem nexts_setEvent (i : ℕ) (f : EventSlot → EventSlot) :
    (this.setEvent i f).nexts =
      Function.update this.nexts i (ptr (f (this.events i)).next_event) := by
  funext a
  by_cases h : a = i
  · subst h
    simp [nexts, setEvent]
  · simp [nexts, setEvent, h]

end VideoOverlay

/-- The invariant of the event queue, whose slots are `xs`. -/
structure Inv (this : VideoOverlay) (xs : List ℕ) : Prop where
  /-- Slot 0 leads through the slots. -/
  chain : Linked this.nexts (some 0) (0 :: xs)
  /-- They are the slots in use. -/
  used : ∀ i, i ∈ xs ↔ i < maxEvents ∧ (this.events i).event_type ≠ 0
  /-- They are in the order of their time, and then in that in which they were accepted. -/
  ordered : Agenda.Ordered (fun i => (this.events i).vpts) (fun i => (this.events i).serial) xs
  /-- Each accepted event is in one place. -/
  place : ∀ n, (xs.map fun i => (this.events i).serial).count n + this.processed.count n +
    this.removed.count n = one (n < this.accepted)

section Queue

variable {this this' : VideoOverlay} {xs ys zs pre : List ℕ} {last b : ℕ}

theorem Inv.nodup (h : Inv this xs) : 0 ∉ xs ∧ xs.Nodup := List.nodup_cons.1 h.chain.nodup

theorem Inv.length_lt (h : Inv this xs) : xs.length < maxEvents := by
  have hsub : (0 :: xs) ⊆ List.range maxEvents := by
    intro i hi
    rcases List.mem_cons.1 hi with rfl | hi
    · simp [maxEvents]
    · exact List.mem_range.2 ((h.used i).1 hi).1
  have hlen := (h.chain.nodup.subperm hsub).length_le
  rw [List.length_cons, List.length_range] at hlen
  exact hlen

theorem Inv.serial_lt (h : Inv this xs) (hb : b ∈ xs) : (this.events b).serial < this.accepted := by
  have hmem : (this.events b).serial ∈ xs.map fun i => (this.events i).serial :=
    List.mem_map_of_mem hb
  have hcount := List.count_pos_iff.2 hmem
  have hplace := h.place (this.events b).serial
  have hle := one_le ((this.events b).serial < this.accepted)
  exact one_eq_one.1 (by omega)

theorem Inv.next_event (h : Inv this (ys ++ zs)) (hlast : pre ++ [last] = 0 :: ys) :
    ptr (this.events last).next_event = zs.head? := by
  have hchain := h.chain
  have hsplit : 0 :: (ys ++ zs) = pre ++ last :: zs := by
    rw [← List.cons_append, ← hlast, List.append_assoc, List.singleton_append]
  rw [hsplit] at hchain
  obtain ⟨r, -, hr⟩ := linked_append.1 hchain
  exact (linked_cons.1 hr).2.head?_eq

theorem Inv.congr (h : Inv this xs)
    (hevents : ∀ i, (this'.events i).next_event = (this.events i).next_event ∧
      (this'.events i).event_type = (this.events i).event_type ∧
      (this'.events i).vpts = (this.events i).vpts ∧
      (this'.events i).serial = (this.events i).serial)
    (haccepted : this'.accepted = this.accepted) (hprocessed : this'.processed = this.processed)
    (hremoved : this'.removed = this.removed) : Inv this' xs where
  chain := h.chain.congr fun a _ => congrArg ptr (hevents a).1
  used := fun i => by rw [(hevents i).2.1]; exact h.used i
  ordered := h.ordered.congr (fun b _ => (hevents b).2.2.1) fun b _ => (hevents b).2.2.2
  place := fun n => by
    have hmap : (xs.map fun i => (this'.events i).serial) = xs.map fun i => (this.events i).serial :=
      List.map_congr_left fun i _ => (hevents i).2.2.2
    rw [hmap, hprocessed, hremoved, haccepted]
    exact h.place n

theorem Inv.unlink (h : Inv this (ys ++ b :: zs)) (hlast : pre ++ [last] = 0 :: ys)
    (hnexts : this'.nexts =
      Function.update (Function.update this.nexts last (this.nexts b)) b none)
    (hevents : ∀ i, i ≠ b → (this'.events i).event_type = (this.events i).event_type ∧
      (this'.events i).vpts = (this.events i).vpts ∧
      (this'.events i).serial = (this.events i).serial)
    (htype : (this'.events b).event_type = 0) (haccepted : this'.accepted = this.accepted)
    (hlog : ∀ n, this'.processed.count n + this'.removed.count n =
      this.processed.count n + this.removed.count n + one (n = (this.events b).serial)) :
    Inv this' (ys ++ zs) := by
  have hnodup := List.nodup_middle.1 h.nodup.2
  obtain ⟨hmem, -⟩ := List.nodup_cons.1 hnodup
  have hne : ∀ i ∈ ys ++ zs, i ≠ b := fun i hi => ne_of_mem_of_not_mem hi hmem
  have hsplit : ∀ ws, 0 :: (ys ++ ws) = pre ++ last :: ws := by
    intro ws
    rw [← List.cons_append, ← hlast, List.append_assoc, List.singleton_append]
  refine ⟨?_, fun i => ?_, ?_, fun n => ?_⟩
  · have hchain := h.chain
    rw [hsplit] at hchain ⊢
    rw [hnexts]
    exact hchain.unlink_null
  · by_cases hi : i = b
    · subst hi
      simp [htype, hmem]
    · rw [(hevents i hi).1, ← h.used i]
      simp [hi]
  · have hsub : (ys ++ zs).Sublist (ys ++ b :: zs) :=
      List.Sublist.append_left (List.sublist_cons_self b zs) ys
    exact (h.ordered.sublist hsub).congr (fun i hi => (hevents i (hne i hi)).2.1)
      fun i hi => (hevents i (hne i hi)).2.2
  · have hmap : ((ys ++ zs).map fun i => (this'.events i).serial) =
        (ys ++ zs).map fun i => (this.events i).serial :=
      List.map_congr_left fun i hi => (hevents i (hne i hi)).2.2
    have hplace := h.place n
    have hn := hlog n
    rw [hmap, haccepted, ← hplace]
    simp only [List.map_append, List.map_cons, List.count_append, count_cons_one]
    omega

theorem Inv.link (h : Inv this (ys ++ zs)) (hlast : pre ++ [last] = 0 :: ys)
    (hb : b < maxEvents) (hfree : (this.events b).event_type = 0) (hzero : b ≠ 0)
    (hnexts : this'.nexts =
      Function.update (Function.update this.nexts last (some b)) b (this.nexts last))
    (hevents : ∀ i, i ≠ b → (this'.events i).event_type = (this.events i).event_type ∧
      (this'.events i).vpts = (this.events i).vpts ∧
      (this'.events i).serial = (this.events i).serial)
    (htype : (this'.events b).event_type ≠ 0) (hserial : (this'.events b).serial = this.accepted)
    (haccepted : this'.accepted = this.accepted + 1) (hprocessed : this'.processed = this.processed)
    (hremoved : this'.removed = this.removed)
    (hordered : Agenda.Ordered (fun i => (this'.events i).vpts) (fun i => (this'.events i).serial)
      (ys ++ b :: zs)) : Inv this' (ys ++ b :: zs) := by
  have hmem : b ∉ ys ++ zs := fun hmem => ((h.used b).1 hmem).2 hfree
  have hne : ∀ i ∈ ys ++ zs, i ≠ b := fun i hi => ne_of_mem_of_not_mem hi hmem
  have hsplit : ∀ ws, 0 :: (ys ++ ws) = pre ++ last :: ws := by
    intro ws
    rw [← List.cons_append, ← hlast, List.append_assoc, List.singleton_append]
  refine ⟨?_, fun i => ?_, hordered, fun n => ?_⟩
  · have hchain := h.chain
    rw [hsplit] at hchain ⊢
    rw [hnexts]
    refine hchain.link ?_
    rw [← hsplit]
    simp only [List.mem_cons, not_or]
    exact ⟨hzero, hmem⟩
  · by_cases hi : i = b
    · subst hi
      simp [htype, hb]
    · rw [(hevents i hi).1, ← h.used i]
      simp [hi]
  · have hmap : ∀ ws : List ℕ, (∀ i ∈ ws, i ∈ ys ++ zs) → (ws.map fun i => (this'.events i).serial) =
        ws.map fun i => (this.events i).serial :=
      fun ws hws => List.map_congr_left fun i hi => (hevents i (hne i (hws i hi))).2.2
    have hplace := h.place n
    rw [haccepted, one_lt_succ, ← hplace, hprocessed, hremoved]
    simp only [List.map_append, List.map_cons, List.count_append, count_cons_one, hserial]
    rw [hmap ys fun i hi => List.mem_append_left _ hi, hmap zs fun i hi => List.mem_append_right _ hi]
    omega

end Queue

end Xine.Overlay

/-!
## The operations on the event queue

What `video_overlay_add_event` and `remove_events_handle` do to the queue: an accepted event is
entered into the agenda, and the events of a handle are taken out
(`removeEventsHandle_spec`), from any place in the queue on.
-/

namespace Xine.Overlay

open Chain Places

/-- The events in the slots `xs` are the same. -/
def SameEvents (xs : List ℕ) (this this' : VideoOverlay) : Prop :=
  ∀ i ∈ xs, (this'.events i).toVideoOverlayEvent = (this.events i).toVideoOverlayEvent ∧
    (this'.events i).serial = (this.events i).serial

section Operations

variable {this this' this'' : VideoOverlay} {xs ys zs pre : List ℕ} {last b : ℕ}

theorem SameEvents.refl (xs : List ℕ) (this : VideoOverlay) : SameEvents xs this this :=
  fun _ _ => ⟨rfl, rfl⟩

theorem SameEvents.trans (h : SameEvents xs this this') (h' : SameEvents xs this' this'') :
    SameEvents xs this this'' :=
  fun i hi => ⟨(h' i hi).1.trans (h i hi).1, (h' i hi).2.trans (h i hi).2⟩

theorem SameEvents.subset (h : SameEvents xs this this') (hsub : ys ⊆ xs) :
    SameEvents ys this this' :=
  fun i hi => h i (hsub hi)

theorem last_append (hlast : pre ++ [last] = 0 :: ys) (b : ℕ) :
    (pre ++ [last]) ++ [b] = 0 :: (ys ++ [b]) := by
  rw [hlast, List.cons_append]

/-! ## Adding an event -/

theorem findPlace_spec (vpts : ℤ) {fuel : ℕ} (h : Inv this (ys ++ zs))
    (hlast : pre ++ [last] = 0 :: ys) (hfuel : zs.length < fuel) :
    ∃ pre' l n, findPlace this.events vpts fuel last = some (l, n) ∧
      pre' ++ [l] = 0 :: (ys ++ zs.takeWhile fun i => decide ((this.events i).vpts ≤ vpts)) ∧
      ptr n = (zs.dropWhile fun i => decide ((this.events i).vpts ≤ vpts)).head? := by
  induction zs generalizing fuel ys pre last with
  | nil =>
    obtain ⟨fuel, rfl⟩ := Nat.exists_eq_add_one_of_ne_zero (by omega : fuel ≠ 0)
    have hnext := h.next_event hlast
    have hzero : (this.events last).next_event = 0 := ptr_eq_none.1 hnext
    refine ⟨pre, last, 0, ?_, by simpa using hlast, rfl⟩
    simp [findPlace, hzero]
  | cons z zs ih =>
    obtain ⟨fuel, rfl⟩ := Nat.exists_eq_add_one_of_ne_zero (by omega : fuel ≠ 0)
    obtain ⟨hnext, hz⟩ := ptr_eq_some.1 (h.next_event hlast)
    by_cases hle : (this.events z).vpts ≤ vpts
    · have h' : Inv this ((ys ++ [z]) ++ zs) := by simpa using h
      obtain ⟨pre', l, n, hfind, hpre, hn⟩ :=
        ih h' (last_append hlast z) (by simpa using hfuel)
      refine ⟨pre', l, n, ?_, ?_, ?_⟩
      · rw [findPlace, hnext, if_pos ⟨hz, hle⟩]
        exact hfind
      · simpa [hle] using hpre
      · simpa [hle] using hn
    · refine ⟨pre, last, z, ?_, by simpa [hle] using hlast, ?_⟩
      · rw [findPlace, hnext, if_neg fun hboth => hle hboth.2]
      · simp [hle, ptr, hz]

theorem insertEvent_nexts (this : VideoOverlay) (event : VideoOverlayEvent) {l n : ℕ}
    (hb : b ≠ 0) (hn : ptr n = this.nexts l) :
    (insertEvent this event l n b).nexts =
      Function.update (Function.update this.nexts l (some b)) b (this.nexts l) := by
  have hlinked : (insertEvent this event l n b).nexts =
      ((this.setEvent l fun e => { e with next_event := b }).setEvent b fun _ =>
        { event with next_event := n, serial := this.accepted }).nexts := rfl
  have hptr : ptr b = some b := ptr_eq_some.2 ⟨rfl, hb⟩
  rw [hlinked, VideoOverlay.nexts_setEvent, VideoOverlay.nexts_setEvent, hn, hptr]

theorem insertEvent_events (this : VideoOverlay) (event : VideoOverlayEvent) {l n : ℕ} (b : ℕ) :
    ((insertEvent this event l n b).events b).toVideoOverlayEvent = event ∧
      ((insertEvent this event l n b).events b).serial = this.accepted ∧
      ∀ i, i ≠ b → ((insertEvent this event l n b).events i).toVideoOverlayEvent =
          (this.events i).toVideoOverlayEvent ∧
        ((insertEvent this event l n b).events i).serial = (this.events i).serial := by
  refine ⟨by simp [insertEvent, VideoOverlay.setEvent], by simp [insertEvent, VideoOverlay.setEvent],
    fun i hi => ?_⟩
  by_cases hil : i = l
  · subst hil
    simp [insertEvent, VideoOverlay.setEvent, hi]
  · simp [insertEvent, VideoOverlay.setEvent, hi, hil]

theorem addEvent_spec (event : VideoOverlayEvent) (h : Inv this xs) (htype : event.event_type ≠ 0) :
    (videoOverlayAddEvent this event = some (this, -1) ∧
      ∀ i, i ≠ 0 → i < maxEvents → (this.events i).event_type ≠ 0) ∨
    ∃ l n b, videoOverlayAddEvent this event = some (insertEvent this event l n b, (b : ℤ)) ∧
      Inv (insertEvent this event l n b)
        (Agenda.insert (fun i => (this.events i).vpts) event.vpts b xs) ∧ b ∉ xs := by
  unfold videoOverlayAddEvent
  cases hfind : (List.range' 1 (maxEvents - 1)).find? fun i =>
      decide ((this.events i).event_type = 0) with
  | none =>
    refine .inl ⟨rfl, fun i hi hlt => ?_⟩
    have hmem : i ∈ List.range' 1 (maxEvents - 1) := by
      simp only [List.mem_range'_1]
      omega
    simpa using List.find?_eq_none.1 hfind i hmem
  | some b =>
    have hmem := List.mem_of_find?_eq_some hfind
    have hfree : (this.events b).event_type = 0 := by simpa using List.find?_some hfind
    simp only [List.mem_range'_1] at hmem
    have hb : b ≠ 0 := by omega
    have hbxs : b ∉ xs := fun hbxs => ((h.used b).1 hbxs).2 hfree
    have hxs : Inv this ([] ++ xs) := h
    obtain ⟨pre, l, n, hplace, hpre, hn⟩ :=
      findPlace_spec event.vpts hxs (List.nil_append [0]) h.length_lt
    rw [List.nil_append] at hpre
    have hsplit := List.takeWhile_append_dropWhile
      (p := fun i => decide ((this.events i).vpts ≤ event.vpts)) (l := xs)
    refine .inr ⟨l, n, b, by rw [hplace]; rfl, ?_, hbxs⟩
    have hinv : Inv this ((xs.takeWhile fun i => decide ((this.events i).vpts ≤ event.vpts)) ++
        xs.dropWhile fun i => decide ((this.events i).vpts ≤ event.vpts)) := by rwa [hsplit]
    obtain ⟨hevent, hserial, hother⟩ := insertEvent_events this event (l := l) (n := n) b
    have hne : ∀ i ∈ xs, i ≠ b := fun i hi => ne_of_mem_of_not_mem hi hbxs
    have hordered := h.ordered.insert (fun i => ((insertEvent this event l n b).events i).vpts)
      (fun i => ((insertEvent this event l n b).events i).serial)
      (fun i hi => congrArg VideoOverlayEvent.vpts (hother i (hne i hi)).1)
      (fun i hi => (hother i (hne i hi)).2)
      (fun i hi => (h.serial_lt hi).trans_eq hserial.symm)
    have hvpts : ((insertEvent this event l n b).events b).vpts = event.vpts :=
      congrArg VideoOverlayEvent.vpts hevent
    rw [hvpts] at hordered
    refine hinv.link hpre (by omega) hfree hb
      (insertEvent_nexts this event hb (hn.trans (hinv.next_event hpre).symm))
      (fun i hi => ⟨congrArg VideoOverlayEvent.event_type (hother i hi).1,
        congrArg VideoOverlayEvent.vpts (hother i hi).1, (hother i hi).2⟩) ?_ hserial rfl rfl rfl
      hordered
    exact (congrArg VideoOverlayEvent.event_type hevent).trans_ne htype

/-! ## Removing the events of a handle -/

theorem removeEvent_nexts (this : VideoOverlay) (last b : ℕ) :
    (removeEvent this last b).nexts =
      Function.update (Function.update this.nexts last (this.nexts b)) b none := by
  have hfreed : (removeEvent this last b).nexts =
      ((this.setEvent last fun e => { e with next_event := (this.events b).next_event }).setEvent b
        fun e => { e with overlay := none, next_event := 0, event_type := overlayEventNull }).nexts :=
    rfl
  rw [hfreed, VideoOverlay.nexts_setEvent, VideoOverlay.nexts_setEvent]
  rfl

theorem removeEvent_events (this : VideoOverlay) (last b : ℕ) :
    ((removeEvent this last b).events b).event_type = 0 ∧
      ∀ i, i ≠ b → ((removeEvent this last b).events i).toVideoOverlayEvent =
          (this.events i).toVideoOverlayEvent ∧
        ((removeEvent this last b).events i).serial = (this.events i).serial := by
  refine ⟨by simp [removeEvent, VideoOverlay.setEvent, overlayEventNull], fun i hi => ?_⟩
  by_cases hil : i = last
  · subst hil
    simp [removeEvent, VideoOverlay.setEvent, hi]
  · simp [removeEvent, VideoOverlay.setEvent, hi, hil]

theorem removeEvent_spec (h : Inv this (ys ++ b :: zs)) (hlast : pre ++ [last] = 0 :: ys) :
    Inv (removeEvent this last b) (ys ++ zs) ∧
      SameEvents (ys ++ zs) this (removeEvent this last b) := by
  obtain ⟨htype, hother⟩ := removeEvent_events this last b
  obtain ⟨hmem, -⟩ := List.nodup_cons.1 (List.nodup_middle.1 h.nodup.2)
  constructor
  · refine h.unlink hlast (removeEvent_nexts this last b) (fun i hi => ?_) htype rfl fun n => ?_
    · exact ⟨congrArg VideoOverlayEvent.event_type (hother i hi).1,
        congrArg VideoOverlayEvent.vpts (hother i hi).1, (hother i hi).2⟩
    · have hlog : (removeEvent this last b).removed = this.removed ++ [(this.events b).serial] := rfl
      have hprocessed : (removeEvent this last b).processed = this.processed := rfl
      rw [hlog, hprocessed, count_append_one]
      omega
  · exact fun i hi => hother i (ne_of_mem_of_not_mem hi hmem)

/-- The events of the handle `handle`. -/
def hasHandle (this : VideoOverlay) (handle : ℤ) (i : ℕ) : Bool :=
  decide ((this.events i).handle = handle)

theorem SameEvents.filter_hasHandle (h : SameEvents xs this this') (handle : ℤ) :
    xs.filter (hasHandle this' handle) = xs.filter (hasHandle this handle) :=
  List.filter_congr fun i hi => by rw [hasHandle, hasHandle, (h i hi).1]

theorem removeEventsLoop_spec (handle : ℤ) {fuel : ℕ} (h : Inv this (ys ++ zs))
    (hlast : pre ++ [last] = 0 :: ys) (hfuel : zs.length < fuel) :
    ∃ this', removeEventsLoop handle fuel this last = some this' ∧
      Inv this' (ys ++ zs.filter fun i => !hasHandle this handle i) ∧
      SameEvents (ys ++ zs.filter fun i => !hasHandle this handle i) this this' ∧
      this' = { this with
        events := this'.events
        removed := this.removed ++
          (zs.filter (hasHandle this handle)).map fun i => (this.events i).serial } := by
  induction zs generalizing this fuel ys pre last with
  | nil =>
    obtain ⟨fuel, rfl⟩ := Nat.exists_eq_add_one_of_ne_zero (by omega : fuel ≠ 0)
    have hzero : (this.events last).next_event = 0 := ptr_eq_none.1 (h.next_event hlast)
    refine ⟨this, ?_, h, SameEvents.refl _ this, by simp⟩
    rw [removeEventsLoop, if_pos hzero]
  | cons z zs ih =>
    obtain ⟨fuel, rfl⟩ := Nat.exists_eq_add_one_of_ne_zero (by omega : fuel ≠ 0)
    obtain ⟨hnext, hz⟩ := ptr_eq_some.1 (h.next_event hlast)
    have hlen : zs.length < fuel := by simpa using hfuel
    by_cases hhandle : (this.events z).handle = handle
    · -- the event is removed, and the loop stays behind the same slot
      obtain ⟨hinv, hsame⟩ := removeEvent_spec h hlast
      obtain ⟨this', hloop, hinv', hsame', hframe⟩ := ih hinv hlast hlen
      have hzs := hsame.subset (List.subset_append_right ys zs)
      have hkept : (zs.filter fun i => !hasHandle (removeEvent this last z) handle i) =
          zs.filter fun i => !hasHandle this handle i :=
        List.filter_congr fun i hi => by rw [hasHandle, hasHandle, (hzs i hi).1]
      rw [hkept] at hinv' hsame'
      have hz' : hasHandle this handle z = true := by simp [hasHandle, hhandle]
      refine ⟨this', ?_, by simpa [hz'] using hinv', ?_, ?_⟩
      · rw [removeEventsLoop, hnext, if_neg hz, if_pos hhandle]
        exact hloop
      · have hsub : (ys ++ zs.filter fun i => !hasHandle this handle i) ⊆ ys ++ zs :=
          List.append_subset.2 ⟨List.subset_append_left ys zs,
            fun i hi => List.mem_append_right ys (List.mem_of_mem_filter hi)⟩
        simpa [hz'] using (hsame.subset hsub).trans hsame'
      · have hmap : (zs.filter (hasHandle this handle)).map (fun i =>
            ((removeEvent this last z).events i).serial) =
            (zs.filter (hasHandle this handle)).map fun i => (this.events i).serial :=
          List.map_congr_left fun i hi => (hzs i (List.mem_of_mem_filter hi)).2
        rw [hzs.filter_hasHandle, hmap] at hframe
        rw [List.filter_cons_of_pos hz', List.map_cons]
        simpa [removeEvent, VideoOverlay.setEvent] using hframe
    · -- the event stays, and the loop goes on behind it
      have h' : Inv this ((ys ++ [z]) ++ zs) := by simpa using h
      obtain ⟨this', hloop, hinv', hsame', hframe⟩ := ih h' (last_append hlast z) hlen
      have hz' : hasHandle this handle z = false := by simp [hasHandle, hhandle]
      refine ⟨this', ?_, by simpa [hz'] using hinv', by simpa [hz'] using hsame',
        by simpa [hz'] using hframe⟩
      rw [removeEventsLoop, hnext, if_neg hz, if_neg hhandle]
      exact hloop

theorem removeEventsHandle_spec (handle : ℤ) (h : Inv this xs) :
    ∃ this', removeEventsHandle this handle = some this' ∧
      Inv this' (xs.filter fun i => !hasHandle this handle i) ∧
      SameEvents (xs.filter fun i => !hasHandle this handle i) this this' ∧
      this' = { this with
        events := this'.events
        removed := this.removed ++
          (xs.filter (hasHandle this handle)).map fun i => (this.events i).serial } := by
  have hxs : Inv this ([] ++ xs) := h
  exact removeEventsLoop_spec handle hxs (List.nil_append [0]) h.length_lt

theorem freeHandle_spec {handle : ℤ} (h : Inv this xs) (hhandle : IsHandle handle) :
    ∃ this', videoOverlayFreeHandle this handle = some this' ∧
      Inv this' (xs.filter fun i => !hasHandle this handle i) ∧
      SameEvents (xs.filter fun i => !hasHandle this handle i) this this' ∧
      this'.accepted = this.accepted ∧ this'.processed = this.processed ∧
      this'.removed = this.removed ++
        (xs.filter (hasHandle this handle)).map fun i => (this.events i).serial := by
  have hinv : Inv (removeShowingHandle this handle) xs :=
    h.congr (fun _ => ⟨rfl, rfl, rfl, rfl⟩) rfl rfl rfl
  obtain ⟨this', hremove, hinv', hsame, hframe⟩ := removeEventsHandle_spec handle hinv
  have haccepted := congrArg VideoOverlay.accepted hframe
  have hprocessed := congrArg VideoOverlay.processed hframe
  have hremoved := congrArg VideoOverlay.removed hframe
  refine ⟨this'.setObject handle fun o => { o with overlay := none, handle := -1 }, ?_, ?_, hsame,
    haccepted, hprocessed, hremoved⟩
  · rw [videoOverlayFreeHandle, hremove, Option.bind_some, internalFreeHandle, if_pos hhandle]
  · exact hinv'.congr (fun _ => ⟨rfl, rfl, rfl, rfl⟩) rfl rfl rfl

end Operations

end Xine.Overlay
