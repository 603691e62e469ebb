import Mathlib.Data.BitVec
import Xine.Library.Runs

/-!
# Buffer fifos

The buffer fifo of `buffer.c`: a pool of free elements, kept as a stack, and the
fifo proper, both linked through the elements' `next` pointers. An element is named by its index in
the order in which `fifo_buffer_new` creates them, and the heap of elements is a map from names to
records.

Each operation is the body of the C function between taking and releasing its mutex. A body that
waits on a condition variable is `none` while the condition that ends the wait does not hold, and so
is one that would trip an assertion or follow a null pointer. The callbacks that a fifo's users
register see the fifo and the element, and change neither.
-/

namespace Xine.Buffer

/-- The name of an element, in place of its address. -/
abbrev Elem := ℕ

/-- `extra_info_t`, as far as demuxers and decoders set it. -/
structure ExtraInfo where
  input_pos : ℤ
  input_length : ℤ
  input_time : ℤ
  frame_number : ℕ
  seek_count : ℤ
  vpts : ℤ
  invalid : Bool
  total_time : ℤ

/-- `extra_info_reset`: all zero. -/
def extraInfoReset : ExtraInfo := ⟨0, 0, 0, 0, 0, 0, false, 0⟩

/-- `buf_element_t`. The content pointer is an offset into `mem`, and the memory itself is not
part of the fifo's state. -/
structure BufElement where
  next : Option Elem
  content : ℕ
  size : BitVec 32
  max_size : BitVec 32
  type : BitVec 32
  pts : ℤ
  disc_off : ℤ
  extra_info : ExtraInfo
  decoder_flags : BitVec 32
  decoder_info : Fin 4 → BitVec 32
  decoder_info_ptr : Fin 4 → Option ℕ

/-- `fifo_buffer_t`, with the heap of its elements. -/
structure FifoBuffer where
  first : Option Elem
  last : Option Elem
  fifo_size : ℤ
  fifo_data_size : BitVec 32
  buffer_pool_top : Option Elem
  buffer_pool_num_free : ℤ
  buffer_pool_capacity : ℤ
  elements : Elem → BufElement

def bufMajorMask : BitVec 32 := 0xFF000000#32

def bufControlBase : BitVec 32 := 0x01000000#32

/-- The test of `fifo_buffer_clear` for the elements that it keeps. -/
def BufElement.isControl (b : BufElement) : Bool := b.type &&& bufMajorMask == bufControlBase

namespace FifoBuffer

variable (this : FifoBuffer)

/-- The `next` pointers of the heap. -/
def nexts : Elem → Option Elem := fun e => (this.elements e).next

/-- The assignment `e->next = v`. -/
def setNext (e : Elem) (v : Option Elem) : FifoBuffer :=
  { this with elements := Function.update this.elements e { this.elements e with next := v } }

@[simp] theorem nexts_setNext (e : Elem) (v : Option Elem) :
    (this.setNext e v).nexts = Function.update this.nexts e v := by
  funext a
  by_cases h : a = e
  · subst h
    simp [nexts, setNext]
  · simp [nexts, setNext, h]

@[simp] theorem setNext_first (e : Elem) (v : Option Elem) :
    (this.setNext e v).first = this.first := rfl

@[simp] theorem setNext_last (e : Elem) (v : Option Elem) :
    (this.setNext e v).last = this.last := rfl

@[simp] theorem setNext_fifo_size (e : Elem) (v : Option Elem) :
    (this.setNext e v).fifo_size = this.fifo_size := rfl

@[simp] theorem setNext_fifo_data_size (e : Elem) (v : Option Elem) :
    (this.setNext e v).fifo_data_size = this.fifo_data_size := rfl

@[simp] theorem setNext_buffer_pool_top (e : Elem) (v : Option Elem) :
    (this.setNext e v).buffer_pool_top = this.buffer_pool_top := rfl

@[simp] theorem setNext_buffer_pool_num_free (e : Elem) (v : Option Elem) :
    (this.setNext e v).buffer_pool_num_free = this.buffer_pool_num_free := rfl

@[simp] theorem setNext_buffer_pool_capacity (e : Elem) (v : Option Elem) :
    (this.setNext e v).buffer_pool_capacity = this.buffer_pool_capacity := rfl

@[simp] theorem setNext_size (e a : Elem) (v : Option Elem) :
    ((this.setNext e v).elements a).size = (this.elements a).size := by
  by_cases h : a = e
  · subst h
    simp [setNext]
  · simp [setNext, h]

@[simp] theorem setNext_type (e a : Elem) (v : Option Elem) :
    ((this.setNext e v).elements a).type = (this.elements a).type := by
  by_cases h : a = e
  · subst h
    simp [setNext]
  · simp [setNext, h]

end FifoBuffer

/-! ## The pool -/

/-- `buffer_pool_free`: put a previously allocated element back into the pool. The assertion against
too many frees is an abort. -/
def bufferPoolFree (this : FifoBuffer) (element : Elem) : Option FifoBuffer :=
  let linked := this.setNext element this.buffer_pool_top
  let freed := { linked with
    buffer_pool_top := some element
    buffer_pool_num_free := this.buffer_pool_num_free + 1 }
  if freed.buffer_pool_num_free > freed.buffer_pool_capacity then none else some freed

/-- The sane values that an allocation sets in the element; the type is left as it was. -/
def BufElement.sane (b : BufElement) : BufElement :=
  { b with
    content := 0
    pts := 0
    size := 0
    decoder_flags := 0
    decoder_info := fun _ => 0
    decoder_info_ptr := fun _ => none
    extra_info := extraInfoReset }

/-- Taking the top element off the pool, with sane values; following a null top is a crash. -/
def popPool (this : FifoBuffer) : Option (FifoBuffer × Elem) :=
  match this.buffer_pool_top with
  | none => none
  | some buf =>
    some ({ this with
      buffer_pool_top := (this.elements buf).next
      buffer_pool_num_free := this.buffer_pool_num_free - 1
      elements := Function.update this.elements buf (this.elements buf).sane }, buf)

/-- `buffer_pool_alloc`: waits until two elements are free, so that one is always kept for
`buffer_pool_try_alloc`. -/
def bufferPoolAlloc (this : FifoBuffer) : Option (FifoBuffer × Elem) :=
  if this.buffer_pool_num_free < 2 then none else popPool this

/-- `buffer_pool_try_alloc`: the top element, if there is one. -/
def bufferPoolTryAlloc (this : FifoBuffer) : FifoBuffer × Option Elem :=
  match popPool this with
  | some (this', buf) => (this', some buf)
  | none => (this, none)

/-! ## The fifo -/

/-- `fifo_buffer_put`: append the element. -/
def fifoBufferPut (fifo : FifoBuffer) (element : Elem) : FifoBuffer :=
  let linked := match fifo.last with
    | some l => fifo.setNext l (some element)
    | none => { fifo with first := some element }
  let ended := { linked with last := some element }.setNext element none
  { ended with
    fifo_size := fifo.fifo_size + 1
    fifo_data_size := fifo.fifo_data_size + (fifo.elements element).size }

/-- `fifo_buffer_insert`: push the element in front. -/
def fifoBufferInsert (fifo : FifoBuffer) (element : Elem) : FifoBuffer :=
  let linked := fifo.setNext element fifo.first
  { linked with
    first := some element
    last := if fifo.last = none then some element else fifo.last
    fifo_size := fifo.fifo_size + 1
    fifo_data_size := fifo.fifo_data_size + (fifo.elements element).size }

/-- `fifo_buffer_get`: waits for an element and removes the first one. -/
def fifoBufferGet (fifo : FifoBuffer) : Option (FifoBuffer × Elem) :=
  match fifo.first with
  | none => none
  | some buf =>
    some ({ fifo with
      first := (fifo.elements buf).next
      last := if (fifo.elements buf).next = none then none else fifo.last
      fifo_size := fifo.fifo_size - 1
      fifo_data_size := fifo.fifo_data_size - (fifo.elements buf).size }, buf)

/-- The part of an iteration of `fifo_buffer_clear` that removes `buf`, which follows `prev` and is
followed by `next`, before `buf` goes back to the pool. -/
def clearUnlink (fifo : FifoBuffer) (buf : Elem) (prev next : Option Elem) : FifoBuffer :=
  let linked := match prev with
    | some p => fifo.setNext p next
    | none => { fifo with first := next }
  { linked with
    last := if next = none then prev else fifo.last
    fifo_size := fifo.fifo_size - 1
    fifo_data_size := fifo.fifo_data_size - (fifo.elements buf).size }

/-! ## Creation -/

/-- The buffer size that `fifo_buffer_new` uses, rounded up to the alignment. -/
def alignedBufSize (buf_size : BitVec 32) : BitVec 32 :=
  if buf_size % 2048#32 = 0 then buf_size else buf_size + (2048#32 - buf_size % 2048#32)

/-- An element as `fifo_buffer_new` creates it, before it enters the pool. -/
def newElement (buf_size : BitVec 32) : BufElement :=
  ⟨none, 0, 0, alignedBufSize buf_size, 0, 0, 0, extraInfoReset, 0, fun _ => 0, fun _ => none⟩

/-- `fifo_buffer_new`: an empty fifo, and `num_buffers` elements put into the pool one by one. -/
def fifoBufferNew (num_buffers : ℕ) (buf_size : BitVec 32) : Option FifoBuffer :=
  (List.range num_buffers).foldlM bufferPoolFree
    ⟨none, none, 0, 0, none, 0, num_buffers, fun _ => newElement buf_size⟩

end Xine.Buffer

/-!
## Threads on a buffer fifo

Any number of threads work on one fifo. An action is one critical section of one thread, and carries
what the thread observes: the element that `get` or an allocation returned. `fifo_buffer_clear` holds
the fifo's mutex over a loop that takes the pool's mutex once for each element that it drops, so it
is several actions, between which other threads work on the pool; its locals are part of the state
while it runs.

The elements that a caller holds are recorded in `owner`. A caller puts and frees only what it
holds, and gives it up by that; what it does to the element's contents meanwhile is `fill`.

`Store` is the abstract fifo: two lists of elements and what is on its way between them. `Store.step`
takes the same actions, and a whole clear happens in it at once, at the moment that it starts.
-/

namespace Xine.Buffer

variable {τ : Type*} [DecidableEq τ]

/-- Where a running `fifo_buffer_clear` is. -/
inductive ClearPc where
  /-- At the head of the loop, with `buf` and `prev`. -/
  | scan (buf prev : Option Elem)
  /-- `buf` is unlinked and goes back to the pool next; then `next` and `prev` are looked at. -/
  | free (buf : Elem) (next prev : Option Elem)

/-- The fifo, the elements that callers hold, and the clear that holds the fifo's mutex. -/
structure State (τ : Type*) where
  fifo : FifoBuffer
  owner : Elem → Option τ
  clearing : Option (τ × ClearPc)

/-- One critical section of the thread `t`. -/
inductive Action (τ : Type*) where
  | put (t : τ) (e : Elem)
  | insert (t : τ) (e : Elem)
  | get (t : τ) (e : Elem)
  | alloc (t : τ) (e : Elem)
  | tryAlloc (t : τ) (e : Option Elem)
  | free (t : τ) (e : Elem)
  /-- The holder of `e` sets its fields to `b`. -/
  | fill (t : τ) (e : Elem) (b : BufElement)
  /-- `fifo_buffer_clear` takes the mutex. -/
  | clear (t : τ)
  /-- It looks at one element, and unlinks it unless it is a control element. -/
  | clearScan (t : τ)
  /-- It puts the unlinked element back into the pool. -/
  | clearFree (t : τ) (e : Elem)
  /-- It is at the end and releases the mutex. -/
  | clearEnd (t : τ)

/-- The state after `fifo_buffer_new`. -/
def State.initial (fifo : FifoBuffer) : State τ := ⟨fifo, fun _ => none, none⟩

/-- One action of one thread. -/
def step (s : State τ) : Action τ → Option (State τ)
  | .put t e =>
    if s.owner e = some t ∧ s.clearing.isNone then
      some { s with fifo := fifoBufferPut s.fifo e, owner := Function.update s.owner e none }
    else none
  | .insert t e =>
    if s.owner e = some t ∧ s.clearing.isNone then
      some { s with fifo := fifoBufferInsert s.fifo e, owner := Function.update s.owner e none }
    else none
  | .get t e =>
    if s.clearing.isNone then
      match fifoBufferGet s.fifo with
      | some (fifo, buf) =>
        if buf = e then some { s with fifo, owner := Function.update s.owner e (some t) } else none
      | none => none
    else none
  | .alloc t e =>
    match bufferPoolAlloc s.fifo with
    | some (fifo, buf) =>
      if buf = e then some { s with fifo, owner := Function.update s.owner e (some t) } else none
    | none => none
  | .tryAlloc t e =>
    match bufferPoolTryAlloc s.fifo with
    | (fifo, some buf) =>
      if some buf = e then some { s with fifo, owner := Function.update s.owner buf (some t) }
      else none
    | (fifo, none) => if e = none then some { s with fifo } else none
  | .free t e =>
    if s.owner e = some t then
      (bufferPoolFree s.fifo e).map fun fifo =>
        { s with fifo, owner := Function.update s.owner e none }
    else none
  | .fill t e b =>
    if s.owner e = some t then
      some { s with
        fifo := { s.fifo with elements := Function.update s.fifo.elements e b } }
    else none
  | .clear t =>
    if s.clearing.isNone then some { s with clearing := some (t, .scan s.fifo.first none) } else none
  | .clearScan t =>
    match s.clearing with
    | some (t', .scan (some buf) prev) =>
      if t' = t then
        let next := (s.fifo.elements buf).next
        if (s.fifo.elements buf).isControl then
          some { s with clearing := some (t, .scan next (some buf)) }
        else
          some { s with
            fifo := clearUnlink s.fifo buf prev next
            clearing := some (t, .free buf next prev) }
      else none
    | _ => none
  | .clearFree t e =>
    match s.clearing with
    | some (t', .free buf next prev) =>
      if t' = t ∧ buf = e then
        (bufferPoolFree s.fifo buf).map fun fifo =>
          { s with fifo, clearing := some (t, .scan next prev) }
      else none
    | _ => none
  | .clearEnd t =>
    match s.clearing with
    | some (t', .scan none _) => if t' = t then some { s with clearing := none } else none
    | _ => none

/-! ## The steps of a clear -/

section Clear

variable {s t : State τ} {u : τ} {e : Elem}

theorem step_clearScan_cases (hs : step s (.clearScan u) = some t) :
    ∃ buf prev, s.clearing = some (u, .scan (some buf) prev) ∧
      ((s.fifo.elements buf).isControl = true ∧
          t = { s with clearing := some (u, .scan (s.fifo.elements buf).next (some buf)) } ∨
        ¬(s.fifo.elements buf).isControl = true ∧
          t = { s with
            fifo := clearUnlink s.fifo buf prev (s.fifo.elements buf).next
            clearing := some (u, .free buf (s.fifo.elements buf).next prev) }) := by
  rcases hc : s.clearing with _ | ⟨v, ⟨_ | buf, prev⟩ | ⟨buf, next, prev⟩⟩
  · simp [step, hc] at hs
  · simp [step, hc] at hs
  · simp only [step, hc] at hs
    obtain ⟨rfl, hs⟩ := Option.ite_none_right_eq_some.1 hs
    refine ⟨buf, prev, rfl, ?_⟩
    by_cases hkeep : (s.fifo.elements buf).isControl = true
    · rw [if_pos hkeep] at hs
      exact Or.inl ⟨hkeep, (Option.some.inj hs).symm⟩
    · rw [if_neg hkeep] at hs
      exact Or.inr ⟨hkeep, (Option.some.inj hs).symm⟩
  · simp [step, hc] at hs

theorem step_clearFree_cases (hs : step s (.clearFree u e) = some t) :
    ∃ next prev fifo, s.clearing = some (u, .free e next prev) ∧ bufferPoolFree s.fifo e = some fifo ∧
      t = { s with fifo, clearing := some (u, .scan next prev) } := by
  rcases hc : s.clearing with _ | ⟨v, ⟨buf, prev⟩ | ⟨buf, next, prev⟩⟩
  · simp [step, hc] at hs
  · simp [step, hc] at hs
  · simp only [step, hc] at hs
    obtain ⟨⟨rfl, rfl⟩, hmap⟩ := Option.ite_none_right_eq_some.1 hs
    obtain ⟨fifo, hfree, rfl⟩ := Option.map_eq_some_iff.1 hmap
    exact ⟨next, prev, fifo, rfl, hfree, rfl⟩

theorem step_clearEnd_cases (hs : step s (.clearEnd u) = some t) :
    ∃ prev, s.clearing = some (u, .scan none prev) ∧ t = { s with clearing := none } := by
  rcases hc : s.clearing with _ | ⟨v, ⟨_ | buf, prev⟩ | ⟨buf, next, prev⟩⟩
  · simp [step, hc] at hs
  · simp only [step, hc] at hs
    obtain ⟨rfl, hend⟩ := Option.ite_none_right_eq_some.1 hs
    exact ⟨prev, rfl, (Option.some.inj hend).symm⟩
  · simp [step, hc] at hs
  · simp [step, hc] at hs

end Clear

/-! ## The abstract fifo -/

/-- The abstract fifo: the pool, top first, the queued elements, oldest first, the elements that a
running clear has yet to put back, the callers' elements, and which elements a clear keeps. -/
structure Store (τ : Type*) where
  pool : List Elem
  queue : List Elem
  limbo : List Elem
  owner : Elem → Option τ
  control : Elem → Bool
  clearing : Option τ

/-- The abstract fifo with the elements `0, …, n - 1` in its pool. -/
def Store.initial (n : ℕ) (control : Elem → Bool) : Store τ :=
  ⟨(List.range n).reverse, [], [], fun _ => none, control, none⟩

/-- The action of a thread on the abstract fifo. Elements leave the queue at its head, which is where
`insert` adds them, and `put` adds them at the other end. -/
def Store.step (a : Store τ) : Action τ → Option (Store τ)
  | .put t e =>
    if a.owner e = some t ∧ a.clearing.isNone then
      some { a with queue := a.queue ++ [e], owner := Function.update a.owner e none }
    else none
  | .insert t e =>
    if a.owner e = some t ∧ a.clearing.isNone then
      some { a with queue := e :: a.queue, owner := Function.update a.owner e none }
    else none
  | .get t e =>
    if a.clearing.isNone ∧ a.queue.head? = some e then
      some { a with queue := a.queue.tail, owner := Function.update a.owner e (some t) }
    else none
  | .alloc t e =>
    if 2 ≤ a.pool.length ∧ a.pool.head? = some e then
      some { a with pool := a.pool.tail, owner := Function.update a.owner e (some t) }
    else none
  | .tryAlloc t r =>
    if a.pool.head? = r then
      match r with
      | some e => some { a with pool := a.pool.tail, owner := Function.update a.owner e (some t) }
      | none => some a
    else none
  | .free t e =>
    if a.owner e = some t then
      some { a with pool := e :: a.pool, owner := Function.update a.owner e none }
    else none
  | .fill t e b =>
    if a.owner e = some t then
      some { a with control := Function.update a.control e b.isControl }
    else none
  | .clear t =>
    if a.clearing.isNone then
      some { a with
        queue := a.queue.filter a.control
        limbo := a.queue.filter fun e => !a.control e
        clearing := some t }
    else none
  | .clearScan t => if a.clearing = some t then some a else none
  | .clearFree t e =>
    if a.clearing = some t ∧ a.limbo.head? = some e then
      some { a with pool := e :: a.pool, limbo := a.limbo.tail }
    else none
  | .clearEnd t =>
    if a.clearing = some t ∧ a.limbo = [] then some { a with clearing := none } else none

/-- How many places an element is in: the pool, the queue, a clear's hands, a caller's hands. -/
def Store.places (a : Store τ) (e : Elem) : ℕ :=
  a.pool.count e + a.queue.count e + a.limbo.count e + (if a.owner e = none then 0 else 1)

/-- Each of the elements `0, …, n - 1` is in exactly one place and no others are anywhere, and
nothing is on its way when no clear runs. -/
structure Store.Inv (n : ℕ) (a : Store τ) : Prop where
  /-- One place for each element. -/
  places_eq : ∀ e, a.places e = if e < n then 1 else 0
  /-- Only a clear takes elements out of the queue and keeps them. -/
  limbo_eq_nil : a.clearing = none → a.limbo = []

end Xine.Buffer
