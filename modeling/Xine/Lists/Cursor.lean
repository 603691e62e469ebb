import Mathlib.Data.Int.Init
import Mathlib.Data.List.Sort
import Xine.Event.Queue

/-!
# Lists of linked nodes

`list.c`. A node in memory is named by its number among those allocated; the fields of
the nodes are kept beside the pointers of the list. The mutators are given assignment by assignment.
Following a null pointer, and a loop that does not end, is `none`.
-/

namespace Xine.Lists

variable {α : Type*}

/-- `xine_list_t`, with the memory of the `xine_node_t`. -/
structure XineList (α : Type*) where
  first : Option ℕ
  last : Option ℕ
  cur : Option ℕ
  next : ℕ → Option ℕ
  prev : ℕ → Option ℕ
  content : ℕ → Option α
  priority : ℕ → ℤ
  /-- The nodes allocated. -/
  allocated : ℕ

namespace XineList

/-- `xine_list_new`. -/
def new : XineList α where
  first := none
  last := none
  cur := none
  next := fun _ => none
  prev := fun _ => none
  content := fun _ => none
  priority := fun _ => 0
  allocated := 0

/-- A new node with a content and a priority. -/
def alloc (l : XineList α) (content : α) (priority : ℤ) : XineList α :=
  { l with
    content := Function.update l.content l.allocated (some content)
    priority := Function.update l.priority l.allocated priority
    allocated := l.allocated + 1 }

/-- `node->next = p`. -/
def setNext (l : XineList α) (node : ℕ) (p : Option ℕ) : XineList α :=
  { l with next := Function.update l.next node p }

/-- `node->prev = p`. -/
def setPrev (l : XineList α) (node : ℕ) (p : Option ℕ) : XineList α :=
  { l with prev := Function.update l.prev node p }

/-! ## The cursor -/

/-- `xine_list_first_content`. -/
def firstContent (l : XineList α) : Option α × XineList α :=
  let l := { l with cur := l.first }
  match l.first with
  | some first => (l.content first, l)
  | none => (none, l)

/-- `xine_list_next_content`. -/
def nextContent (l : XineList α) : Option α × XineList α :=
  match l.cur with
  | some cur =>
    match l.next cur with
    | some next => (l.content next, { l with cur := some next })
    | none => (none, l)
  | none => (none, l)

/-- `xine_list_last_content`. -/
def lastContent (l : XineList α) : Option α × XineList α :=
  match l.last with
  | some last => (l.content last, { l with cur := some last })
  | none => (none, l)

/-- `xine_list_prev_content`. -/
def prevContent (l : XineList α) : Option α × XineList α :=
  match l.cur with
  | some cur =>
    match l.prev cur with
    | some prev => (l.content prev, { l with cur := some prev })
    | none => (none, l)
  | none => (none, l)

/-! ## Mutators -/

/-- The loop of `xine_list_append_priority_content`: the node where it ends, and whether the new node goes
in front of it, or behind it at the end of the list. -/
def priorityLoop (l : XineList α) (priority : ℤ) : ℕ → ℕ → Option (ℕ × Bool)
  | 0, _ => none
  | fuel + 1, cur =>
    if priority ≥ l.priority cur then some (cur, true)
    else
      match l.next cur with
      | none => some (cur, false)
      | some next => priorityLoop l priority fuel next

/-- The first node of a list. -/
def appendOnly (l : XineList α) (node : ℕ) : XineList α :=
  let l := { l with cur := some node, last := some node, first := some node }
  (l.setNext node none).setPrev node none

/-- A node in front of `cur`. -/
def putBefore (l : XineList α) (cur node : ℕ) : XineList α :=
  let l := l.setNext node (some cur)
  let l := l.setPrev node (l.prev cur)
  let l :=
    match l.prev node with
    | some prev => l.setNext prev (some node)
    | none => { l with first := some node }
  let l := l.setPrev cur (some node)
  { l with cur := some node }

/-- A node behind the last one. -/
def putBehind (l : XineList α) (last node : ℕ) : XineList α :=
  let l := l.setNext node none
  let l := l.setPrev node (some last)
  let l := l.setNext last (some node)
  { l with cur := some node, last := some node }

/-- `xine_list_append_priority_content`. -/
def appendPriorityContent (l : XineList α) (content : α) (priority : ℤ) : Option (XineList α) :=
  let node := l.allocated
  let l := l.alloc content priority
  match l.first with
  | some first =>
    (l.priorityLoop priority l.allocated first).map fun r =>
      if r.2 then l.putBefore r.1 node else l.putBehind r.1 node
  | none => some (l.appendOnly node)

/-- `xine_list_append_content`. -/
def appendContent (l : XineList α) (content : α) : XineList α :=
  let node := l.allocated
  let l := l.alloc content 0
  match l.last with
  | some last => l.putBehind last node
  | none => l.appendOnly node

/-- `xine_list_insert_content`. -/
def insertContent (l : XineList α) (content : α) : Option (XineList α) :=
  match l.cur with
  | none => none
  | some cur =>
    match l.next cur with
    | some nodenext =>
      let nodenew := l.allocated
      let l := l.alloc content 0
      let l := l.setNext cur (some nodenew)
      let l := l.setPrev nodenext (some nodenew)
      let l := l.setPrev nodenew (some cur)
      let l := l.setNext nodenew (some nodenext)
      some { l with cur := some nodenew }
    -- current is last, append to the list
    | none => some (l.appendContent content)

/-- `xine_list_delete_current`. -/
def deleteCurrent (l : XineList α) : Option (XineList α) :=
  match l.cur with
  | none => none
  | some node_cur =>
    let l :=
      match l.prev node_cur with
      | some prev => l.setNext prev (l.next node_cur)
      -- first entry
      | none => { l with first := l.next node_cur }
    let l :=
      match l.next node_cur with
      | some next => { l.setPrev next (l.prev node_cur) with cur := some next }
      -- last entry in the list
      | none => { l with last := l.prev node_cur, cur := l.prev node_cur }
    some l

end XineList

/-- The operations on a list. -/
inductive Operation (α : Type*)
  | append (content : α)
  | appendPriority (content : α) (priority : ℤ)
  | insert (content : α)
  | delete
  | first
  | next
  | prev
  | last

/-- An operation, with what it returns. -/
def XineList.apply (l : XineList α) : Operation α → Option (Option α × XineList α)
  | .append content => some (none, l.appendContent content)
  | .appendPriority content priority => (l.appendPriorityContent content priority).map fun l => (none, l)
  | .insert content => (l.insertContent content).map fun l => (none, l)
  | .delete => l.deleteCurrent.map fun l => (none, l)
  | .first => some l.firstContent
  | .next => some l.nextContent
  | .prev => some l.prevContent
  | .last => some l.lastContent

end Xine.Lists

/-!
## Sequences with a cursor

What a list of `list.c` stands for: a sequence of contents with their priorities, and a cursor on one of them,
unless it is empty. The operations are given on the sequence. What is inserted goes behind the cursor, and what is
appended with a priority in front of the first content whose priority is not above it.
-/

namespace Xine.Lists

variable {α : Type*}

/-- A sequence of contents with priorities, with a cursor. -/
inductive Cursor (α : Type*)
  | empty
  | on (before : List (α × ℤ)) (node : α × ℤ) (behind : List (α × ℤ))

namespace Cursor

/-- The contents in their order. -/
def nodes : Cursor α → List (α × ℤ)
  | empty => []
  | on before node behind => before ++ node :: behind

/-- The cursor on the first content. -/
def onFirst : List (α × ℤ) → Cursor α
  | [] => empty
  | node :: behind => on [] node behind

/-- The cursor on the last content, of a sequence that is given from the end on. -/
def onLast : List (α × ℤ) → Cursor α
  | [] => empty
  | node :: before => on before.reverse node []

def first (s : Cursor α) : Option α × Cursor α := (s.nodes.head?.map Prod.fst, onFirst s.nodes)

def last (s : Cursor α) : Option α × Cursor α := (s.nodes.getLast?.map Prod.fst, onLast s.nodes.reverse)

def next : Cursor α → Option α × Cursor α
  | on before node (next :: behind) => (some next.1, on (before ++ [node]) next behind)
  | s => (none, s)

def prev : Cursor α → Option α × Cursor α
  | empty => (none, empty)
  | on before node behind =>
    match before.reverse with
    | [] => (none, on before node behind)
    | prev :: before => (some prev.1, on before.reverse prev (node :: behind))

def append (s : Cursor α) (content : α) : Cursor α := on s.nodes (content, 0) []

/-- The priority of the new content is below that of the other. -/
def below (priority : ℤ) (node : α × ℤ) : Bool := decide (priority < node.2)

def appendPriority (s : Cursor α) (content : α) (priority : ℤ) : Cursor α :=
  on (s.nodes.takeWhile (below priority)) (content, priority) (s.nodes.dropWhile (below priority))

/-- Behind the cursor. -/
def insert : Cursor α → α → Option (Cursor α)
  | empty, _ => none
  | on before node behind, content => some (on (before ++ [node]) (content, 0) behind)

/-- The cursor goes to the next content, or from the last to the one before it. -/
def delete : Cursor α → Option (Cursor α)
  | empty => none
  | on before _ (next :: behind) => some (on before next behind)
  | on before _ [] => some (onLast before.reverse)

/-- An operation, with what it returns. -/
def apply (s : Cursor α) : Operation α → Option (Option α × Cursor α)
  | .append content => some (none, s.append content)
  | .appendPriority content priority => some (none, s.appendPriority content priority)
  | .insert content => (s.insert content).map fun s => (none, s)
  | .delete => s.delete.map fun s => (none, s)
  | .first => some s.first
  | .next => some s.next
  | .prev => some s.prev
  | .last => some s.last

/-! ## Without the priorities -/

end Cursor

end Xine.Lists
