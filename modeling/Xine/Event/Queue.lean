import Xine.Library.Octets

/-!
# Lists with a cursor

`xine_list_t` of `list.c`: the contents of the nodes in their order, and the place of the node that `cur`
points to. A walk starts with `xine_list_first_content`, goes on with `xine_list_next_content`, and
`xine_list_delete_current` takes out the node where it stopped.
-/

namespace Xine.Event

variable {α : Type*}

structure XineList (α : Type*) where
  contents : List α
  cur : Option ℕ

namespace XineList

/-- `xine_list_new`. -/
def new : XineList α := { contents := [], cur := none }

/-- `xine_list_first_content`. -/
def firstContent (l : XineList α) : Option α × XineList α :=
  match l.contents with
  | [] => (none, { l with cur := none })
  | x :: _ => (some x, { l with cur := some 0 })

/-- `xine_list_next_content`. The cursor stays on the last node. -/
def nextContent (l : XineList α) : Option α × XineList α :=
  match l.cur with
  | none => (none, l)
  | some i =>
    match l.contents[i + 1]? with
    | none => (none, l)
    | some x => (some x, { l with cur := some (i + 1) })

/-- `xine_list_append_content`. -/
def appendContent (l : XineList α) (x : α) : XineList α :=
  { contents := l.contents ++ [x], cur := some l.contents.length }

/-- `xine_list_delete_current`; `none` where `cur` is null. -/
def deleteCurrent (l : XineList α) : Option (XineList α) :=
  match l.cur with
  | none => none
  | some i =>
    some { contents := l.contents.eraseIdx i,
           cur := if i + 1 < l.contents.length then some i else if i = 0 then none else some (i - 1) }

/-- The loop `while (q && (q != x)) q = xine_list_next_content (l)`. -/
def walkTo [DecidableEq α] (x : α) : ℕ → Option α × XineList α → Option α × XineList α
  | 0, found => found
  | turns + 1, (none, l) => (none, l)
  | turns + 1, (some y, l) => if y = x then (some y, l) else walkTo x turns l.nextContent

/-- The walk from the first node to a content. Each turn but the last moves the cursor. -/
def find [DecidableEq α] (l : XineList α) (x : α) : Option α × XineList α :=
  walkTo x (l.contents.length + 1) l.firstContent

@[simp] theorem contents_firstContent (l : XineList α) : l.firstContent.2.contents = l.contents := by
  unfold firstContent
  split <;> rfl

@[simp] theorem contents_nextContent (l : XineList α) : l.nextContent.2.contents = l.contents := by
  unfold nextContent
  split
  · rfl
  · split <;> rfl

@[simp] theorem contents_appendContent (l : XineList α) (x : α) :
    (l.appendContent x).contents = l.contents ++ [x] := rfl

theorem delete_first {l : XineList α} {x : α} {xs : List α} (h : l.contents = x :: xs) :
    ∃ l', l.firstContent = (some x, { l with cur := some 0 }) ∧
      l.firstContent.2.deleteCurrent = some l' ∧ l'.contents = xs := by
  obtain ⟨contents, cur⟩ := l
  dsimp only at h
  subst h
  exact ⟨_, rfl, rfl, rfl⟩

variable [DecidableEq α]

theorem walkTo_spec (turns : ℕ) {x y : α} {l : XineList α} {i : ℕ} (hcur : l.cur = some i)
    (hy : l.contents[i]? = some y) (hbefore : x ∉ l.contents.take i) (hx : x ∈ l.contents)
    (hturns : l.contents.length ≤ i + turns) :
    ∃ j, l.contents[j]? = some x ∧ (x ∉ l.contents.take j) ∧
      walkTo x (turns + 1) (some y, l) = (some x, { l with cur := some j }) := by
  induction turns generalizing y l i with
  | zero =>
    have hlt : i < l.contents.length := (List.getElem?_eq_some_iff.1 hy).1
    omega
  | succ turns ih =>
    unfold walkTo
    by_cases hyx : y = x
    · subst hyx
      rw [if_pos rfl]
      refine ⟨i, hy, hbefore, ?_⟩
      rw [← hcur]
    · rw [if_neg hyx]
      have hlt : i < l.contents.length := (List.getElem?_eq_some_iff.1 hy).1
      have htake : l.contents.take (i + 1) = l.contents.take i ++ [y] := by
        rw [List.take_add_one, hy]
        rfl
      have hbefore' : x ∉ l.contents.take (i + 1) := by
        rw [htake, List.mem_append, List.mem_singleton]
        rintro (hmem | rfl)
        · exact hbefore hmem
        · exact hyx rfl
      -- what is looked for is behind the cursor
      cases hnext : l.contents[i + 1]? with
      | none =>
        have hall : l.contents.take (i + 1) = l.contents :=
          List.take_of_length_le (List.getElem?_eq_none_iff.1 hnext)
        rw [hall] at hbefore'
        exact absurd hx hbefore'
      | some z =>
        have hstep : l.nextContent = (some z, { l with cur := some (i + 1) }) := by
          unfold nextContent
          rw [hcur]
          dsimp only
          rw [hnext]
        rw [hstep]
        exact ih (l := { l with cur := some (i + 1) }) rfl hnext hbefore' hx (by dsimp only; omega)

theorem find_spec {l : XineList α} {x : α} (hx : x ∈ l.contents) :
    ∃ l', l.find x = (some x, l') ∧
      ∃ l'', l'.deleteCurrent = some l'' ∧ l''.contents = l.contents.erase x := by
  obtain ⟨y, ys, hcons⟩ := List.exists_cons_of_ne_nil (List.ne_nil_of_mem hx)
  have hfirst : l.firstContent = (some y, { l with cur := some 0 }) := by
    unfold firstContent
    rw [hcons]
  have hhead : l.contents[0]? = some y := by rw [hcons]; rfl
  obtain ⟨j, hj, hbefore, hwalk⟩ := walkTo_spec (l := { l with cur := some 0 }) l.contents.length
    rfl hhead (by simp) hx (by dsimp only; omega)
  dsimp only at hj hbefore
  have hlt : j < l.contents.length := (List.getElem?_eq_some_iff.1 hj).1
  refine ⟨{ l with cur := some j }, ?_, ?_⟩
  · unfold find
    rw [hfirst]
    exact hwalk
  · refine ⟨_, rfl, ?_⟩
    have hsplit : l.contents = l.contents.take j ++ x :: l.contents.drop (j + 1) := by
      rw [List.getElem?_eq_getElem hlt, Option.some_inj] at hj
      rw [← hj, ← List.drop_eq_getElem_cons hlt, List.take_append_drop]
    calc l.contents.eraseIdx j = l.contents.take j ++ l.contents.drop (j + 1) :=
          List.eraseIdx_eq_take_drop_succ _ _
      _ = (l.contents.take j ++ x :: l.contents.drop (j + 1)).erase x := by
          rw [List.erase_append_right _ hbefore, List.erase_cons_head]
      _ = l.contents.erase x := by rw [← hsplit]

end XineList

end Xine.Event

/-!
## Event queues

`xine_event_queue_t` of `events.c`, with the sections of its functions that hold `queue->lock`. A waiter is a
consumer `some t` or the listener thread `none`; those in `xine_event_wait` are `blocked` on the condition
variable, or `woken` and about to take the lock again.

From `put` on the fields of a queue are not in the code: they are its history, in which each event has the
serial of the send that it is a copy of.
-/

namespace Xine.Event

open Octets (Byte)

variable {τ : Type*}

scoped instance lawfulBEqWaiter [DecidableEq τ] : LawfulBEq (Option τ) := inferInstance

def XINE_EVENT_QUIT : ℤ := 7

structure XineEvent where
  type : ℤ
  data : Option (List Byte)
  data_length : ℤ
deriving DecidableEq

/-- The copy that `xine_event_send` makes. -/
def XineEvent.copy (event : XineEvent) : XineEvent where
  type := event.type
  data_length := event.data_length
  data := if 0 < event.data_length then event.data.map fun data => data.take event.data_length.toNat else none

/-- The event of `xine_event_dispose_queue`. -/
def qevent : XineEvent := { type := XINE_EVENT_QUIT, data := none, data_length := 0 }

/-- An event in memory, with the serial of its send. -/
structure Cell where
  serial : ℕ
  event : XineEvent
deriving DecidableEq

/-- The listener ends when it takes such an event. -/
def Cell.IsQuit (c : Cell) : Prop := c.event.type = XINE_EVENT_QUIT

instance : DecidablePred Cell.IsQuit := fun c => inferInstanceAs (Decidable (c.event.type = _))

/-- Where the listener thread is: at the condition of its loop, in `xine_event_wait`, in the callback with an
event, behind the loop with the event that ended it, or at its end. -/
inductive ListenerPc where
  | looping
  | waiting
  | calling (c : Cell)
  | leaving (c : Cell)
  | ended
deriving DecidableEq

/-- The event that the listener has not freed yet. -/
def ListenerPc.has : ListenerPc → List Cell
  | .calling c | .leaving c => [c]
  | _ => []

/-- How far the disposal of a queue is: before it, before the quit event is put, before the listener is joined,
while events are freed, and behind `free (queue)`. -/
inductive Stage where
  | registered
  | quitting
  | joining
  | draining
  | gone
deriving DecidableEq

/-- `xine_event_queue_t`. -/
structure EventQueue (τ : Type*) where
  events : XineList Cell
  listener : Option ListenerPc
  blocked : List (Option τ)
  woken : List (Option τ)
  stage : Stage
  -- the history
  /-- All events that were put in the queue, and all that were taken out. -/
  put : List Cell
  took : List Cell
  /-- The events that consumers have taken and not freed, and those that were freed. -/
  held : List Cell
  freed : List Cell
  /-- What had been put in when the disposal removed the queue from the list. -/
  at_removal : List Cell

namespace EventQueue

/-- The queue that `xine_event_new_queue` makes. -/
def new : EventQueue τ where
  events := XineList.new
  listener := none
  blocked := []
  woken := []
  stage := .registered
  put := []
  took := []
  held := []
  freed := []
  at_removal := []

/-- The event that the listener has not freed yet. -/
def inListener (queue : EventQueue τ) : List Cell := queue.listener.elim [] ListenerPc.has

/-- The first event is taken out, as in `xine_event_get` and `xine_event_wait`; `none` where the list operations
are undefined. -/
def takeFirst (queue : EventQueue τ) : Option (Option Cell × EventQueue τ) :=
  match queue.events.firstContent with
  | (none, events) => some (none, { queue with events := events })
  | (some c, events) =>
    events.deleteCurrent.map fun events =>
      (some c, { queue with events := events, took := queue.took ++ [c] })

theorem takeFirst_nil {queue : EventQueue τ} (h : queue.events.contents = []) :
    queue.takeFirst = some (none, { queue with events := { contents := [], cur := none } }) := by
  unfold takeFirst XineList.firstContent
  rw [h]

theorem takeFirst_cons {queue : EventQueue τ} {c : Cell} {cs : List Cell}
    (h : queue.events.contents = c :: cs) :
    ∃ events, events.contents = cs ∧ queue.takeFirst =
      some (some c, { queue with events := events, took := queue.took ++ [c] }) := by
  obtain ⟨events, hfirst, hdelete, hcontents⟩ := XineList.delete_first h
  rw [hfirst] at hdelete
  refine ⟨events, hcontents, ?_⟩
  unfold takeFirst
  rw [hfirst]
  dsimp only
  rw [hdelete]
  rfl

variable [DecidableEq τ]

/-- `pthread_cond_signal`: one of the blocked waiters is woken, if there is one. -/
def signal (queue : EventQueue τ) (waiter : Option (Option τ)) : Option (EventQueue τ) :=
  match waiter with
  | none => if queue.blocked = [] then some queue else none
  | some w =>
    if w ∈ queue.blocked then
      some { queue with blocked := queue.blocked.erase w, woken := queue.woken ++ [w] }
    else none

/-- An event is put in, and the condition is signalled. -/
def append (queue : EventQueue τ) (c : Cell) (waiter : Option (Option τ)) : Option (EventQueue τ) :=
  signal { queue with events := queue.events.appendContent c, put := queue.put ++ [c] } waiter

/-- The waiter has the event that it took. -/
def receive (queue : EventQueue τ) : Option τ → Cell → EventQueue τ
  | some _, c => { queue with held := queue.held ++ [c] }
  | none, c => { queue with listener := some (if c.IsQuit then .leaving c else .calling c) }

/-- The loop of `xine_event_wait`, for a waiter that has the lock: it takes the first event or blocks. The
result tells whether it has an event. -/
def waitSection (queue : EventQueue τ) (w : Option τ) : Option (Bool × EventQueue τ) :=
  queue.takeFirst.map fun (event, queue) =>
    match event with
    | some c => (true, queue.receive w c)
    | none => (false, { queue with blocked := queue.blocked ++ [w] })

/-- A turn of the loop at the end of `xine_event_dispose_queue`; behind the last one the queue is freed. -/
def drain (queue : EventQueue τ) : Option (EventQueue τ) :=
  queue.takeFirst.map fun (event, queue) =>
    match event with
    | some c => { queue with freed := queue.freed ++ [c] }
    | none => { queue with stage := .gone }

/-- A blocked waiter is woken. -/
def wake (queue : EventQueue τ) (w : Option τ) : Option (EventQueue τ) :=
  if w ∈ queue.blocked then
    some { queue with blocked := queue.blocked.erase w, woken := queue.woken ++ [w] }
  else none

end EventQueue

end Xine.Event
