import Xine.Event.Queue
import Xine.Library.Runs

/-!
# Threads on the event queues

The functions of `events.c` on the queues of a stream, in sections. `xine_event_send` holds
`event_queues_lock` while it walks the list, and each of its turns holds the lock of one queue. Registering a
queue and taking it out of the list are one section each; the disposal goes on with the quit event, the join
and a section for each event that is left. A wait is left in the middle of a section, at
`pthread_cond_wait`, and resumed by a signal or without one. What a callback does is done by a thread of its
own.

A queue is not used behind `free (queue)`. A listener is created once, before the disposal. A queue is
disposed of once, and while no consumer waits on it. `sends` is not in the code: it is the log of the sends
that are finished.
-/

namespace Xine.Event

variable {τ : Type*} [DecidableEq τ]

/-- A send: its serial, its event, the queues in the list when it took the lock, and those that were given a
copy. -/
structure Sent where
  serial : ℕ
  event : XineEvent
  queues : List ℕ
  given : List ℕ
deriving DecidableEq

/-- The copy of the event of a send. -/
def Sent.cell (r : Sent) : Cell := { serial := r.serial, event := r.event.copy }

/-- Where a thread is. -/
inductive Pc where
  | outside
  /-- At the condition of the loop of `xine_event_send`, with `event_queues_lock`. -/
  | sending (r : Sent) (queue : Option ℕ)
  /-- In `pthread_cond_wait`. -/
  | waiting (q : ℕ)
  /-- In `xine_event_dispose_queue`, behind the list. -/
  | disposing (q : ℕ)
deriving DecidableEq

structure State (τ : Type*) where
  event_queues : XineList ℕ
  event_queues_lock : Option τ
  queues : ℕ → EventQueue τ
  num_queues : ℕ
  pc : τ → Pc
  serial : ℕ
  sends : List Sent

/-- The stream without a queue. -/
def State.initial : State τ where
  event_queues := XineList.new
  event_queues_lock := none
  queues := fun _ => EventQueue.new
  num_queues := 0
  pc := fun _ => .outside
  serial := 0
  sends := []

/-- What a thread does next. The waiter of an action is the one that a signal wakes. -/
inductive Action (τ : Type*) where
  | newQueue (t : τ)
  | sendLock (t : τ) (event : XineEvent)
  | sendPut (t : τ) (waiter : Option (Option τ))
  | sendUnlock (t : τ)
  | get (t : τ) (q : ℕ)
  | wait (t : τ) (q : ℕ)
  | wake (q : ℕ) (w : Option τ)
  | resume (t : τ) (q : ℕ)
  | free (q : ℕ) (c : Cell)
  | createListener (t : τ) (q : ℕ)
  | listenerWait (q : ℕ)
  | listenerResume (q : ℕ)
  | listenerFree (q : ℕ)
  | dispose (t : τ) (q : ℕ)
  | disposeQuit (t : τ) (waiter : Option (Option τ))
  | disposeJoin (t : τ)
  | disposeDrain (t : τ)

namespace State

/-- A queue and the thread that works on it go on. -/
def put (s : State τ) (q : ℕ) (queue : EventQueue τ) : State τ :=
  { s with queues := Function.update s.queues q queue }

def goto (s : State τ) (t : τ) (pc : Pc) : State τ := { s with pc := Function.update s.pc t pc }

/-- A queue that can be used: it was made and not freed. -/
def Live (s : State τ) (q : ℕ) : Prop := q < s.num_queues ∧ (s.queues q).stage ≠ .gone

/-- A queue whose disposal has not begun. -/
def Registered (s : State τ) (q : ℕ) : Prop := q < s.num_queues ∧ (s.queues q).stage = .registered

instance (s : State τ) (q : ℕ) : Decidable (s.Live q) := inferInstanceAs (Decidable (_ ∧ _))

instance (s : State τ) (q : ℕ) : Decidable (s.Registered q) := inferInstanceAs (Decidable (_ ∧ _))

end State

/-- `xine_event_get`. -/
def EventQueue.getSection (queue : EventQueue τ) (t : τ) : Option (EventQueue τ) :=
  queue.takeFirst.map fun (event, queue) =>
    match event with
    | some c => queue.receive (some t) c
    | none => queue

/-- A section of `xine_event_wait` by a consumer. -/
def waitBy (s : State τ) (queue : EventQueue τ) (t : τ) (q : ℕ) : Option (State τ) :=
  (queue.waitSection (some t)).map fun (has, queue) =>
    (s.put q queue).goto t (if has then .outside else .waiting q)

/-- A section of `xine_event_wait` by the listener. -/
def listenBy (s : State τ) (queue : EventQueue τ) (q : ℕ) : Option (State τ) :=
  (queue.waitSection none).map fun (has, queue) =>
    s.put q (if has then queue else { queue with listener := some .waiting })

def step (s : State τ) : Action τ → Option (State τ)
  | .newQueue t =>
    if s.pc t = .outside ∧ s.event_queues_lock = none then
      some { s with
        event_queues := s.event_queues.appendContent s.num_queues
        queues := Function.update s.queues s.num_queues EventQueue.new
        num_queues := s.num_queues + 1 }
    else none
  | .sendLock t event =>
    if s.pc t = .outside ∧ s.event_queues_lock = none then
      let r := { serial := s.serial, event := event, queues := s.event_queues.contents, given := [] }
      some { s with
        event_queues := s.event_queues.firstContent.2
        event_queues_lock := some t
        pc := Function.update s.pc t (.sending r s.event_queues.firstContent.1)
        serial := s.serial + 1 }
    else none
  | .sendPut t waiter =>
    match s.pc t with
    | .sending r (some q) =>
      ((s.queues q).append r.cell waiter).map fun queue =>
        let r := { r with given := r.given ++ [q] }
        { s with
          event_queues := s.event_queues.nextContent.2
          queues := Function.update s.queues q queue
          pc := Function.update s.pc t (.sending r s.event_queues.nextContent.1) }
    | _ => none
  | .sendUnlock t =>
    match s.pc t with
    | .sending r none =>
      some { s with
        event_queues_lock := none
        pc := Function.update s.pc t .outside
        sends := s.sends ++ [r] }
    | _ => none
  | .get t q =>
    if s.pc t = .outside ∧ s.Live q then ((s.queues q).getSection t).map (s.put q) else none
  | .wait t q =>
    if s.pc t = .outside ∧ s.Registered q then waitBy s (s.queues q) t q else none
  | .wake q w => ((s.queues q).wake w).map (s.put q)
  | .resume t q =>
    if s.pc t = .waiting q ∧ some t ∈ (s.queues q).woken then
      waitBy s { s.queues q with woken := (s.queues q).woken.erase (some t) } t q
    else none
  | .free q c =>
    if c ∈ (s.queues q).held then
      some (s.put q { s.queues q with
        held := (s.queues q).held.erase c
        freed := (s.queues q).freed ++ [c] })
    else none
  | .createListener t q =>
    if s.pc t = .outside ∧ s.Registered q ∧ (s.queues q).listener = none then
      some (s.put q { s.queues q with listener := some .looping })
    else none
  | .listenerWait q =>
    if (s.queues q).listener = some .looping then listenBy s (s.queues q) q else none
  | .listenerResume q =>
    if (s.queues q).listener = some .waiting ∧ none ∈ (s.queues q).woken then
      listenBy s { s.queues q with woken := (s.queues q).woken.erase none } q
    else none
  | .listenerFree q =>
    match (s.queues q).listener with
    | some (.calling c) =>
      some (s.put q { s.queues q with listener := some .looping, freed := (s.queues q).freed ++ [c] })
    | some (.leaving c) =>
      some (s.put q { s.queues q with listener := some .ended, freed := (s.queues q).freed ++ [c] })
    | _ => none
  | .dispose t q =>
    if s.pc t = .outside ∧ s.event_queues_lock = none ∧ s.Registered q ∧
        (∀ w ∈ (s.queues q).blocked ++ (s.queues q).woken, w = none) then
      match s.event_queues.find q with
      | (none, l) => some { s with event_queues := l }
      | (some _, l) =>
        l.deleteCurrent.map fun l =>
          { s with
            event_queues := l
            queues := Function.update s.queues q
              { s.queues q with stage := .quitting, at_removal := (s.queues q).put }
            pc := Function.update s.pc t (.disposing q) }
    else none
  | .disposeQuit t waiter =>
    match s.pc t with
    | .disposing q =>
      if (s.queues q).stage = .quitting then
        ((s.queues q).append { serial := s.serial, event := qevent } waiter).map fun queue =>
          { s.put q { queue with stage := .joining } with serial := s.serial + 1 }
      else none
    | _ => none
  | .disposeJoin t =>
    match s.pc t with
    | .disposing q =>
      if (s.queues q).stage = .joining ∧
          ((s.queues q).listener = none ∨ (s.queues q).listener = some .ended) then
        some (s.put q { s.queues q with stage := .draining })
      else none
    | _ => none
  | .disposeDrain t =>
    match s.pc t with
    | .disposing q =>
      if (s.queues q).stage = .draining then
        (s.queues q).drain.map fun queue =>
          (s.put q queue).goto t (if queue.stage = .gone then .outside else .disposing q)
      else none
    | _ => none

end Xine.Event
