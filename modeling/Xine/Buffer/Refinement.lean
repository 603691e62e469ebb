import Xine.Buffer.Store
import Xine.Library.Chain
import Mathlib.Algebra.BigOperators.Group.List.Basic

/-!
# The buffer fifo refines the abstract fifo

`Represents n s a` says that the pointers and counters of the fifo `s.fifo` are those of the lists of the abstract
fifo `a`. While a clear runs, the fifo still holds elements that the abstract clear has already taken out:
`ClearRep` splits the chain at the element that the clear looks at.
-/

namespace Xine.Buffer

open Chain

variable {τ : Type*} [DecidableEq τ]

/-! ## What the pointers represent -/

/-- The pool's pointers and counter are those of the stack `pool`. -/
structure PoolRep (this : FifoBuffer) (pool : List Elem) : Prop where
  /-- The top leads through the free elements. -/
  linked : Linked this.nexts this.buffer_pool_top pool
  /-- They are counted. -/
  num_free : this.buffer_pool_num_free = pool.length

/-- The fifo's pointers and counters are those of the queue `xs`. -/
structure FifoRep (this : FifoBuffer) (xs : List Elem) : Prop where
  /-- `first` and `last` are the ends of the chain. -/
  queue : Queue this.nexts this.first this.last xs
  /-- The elements are counted. -/
  fifo_size : this.fifo_size = xs.length
  /-- Their sizes are added up. -/
  fifo_data_size : this.fifo_data_size = (xs.map fun e => (this.elements e).size).sum

/-- What the fifo holds when `queue` will stay in it and `limbo` is yet to be dropped: the elements
`kept` that the clear has passed, and the `rest`, whose first one it looks at next. -/
def ClearRep (this : FifoBuffer) : Option ClearPc → List Elem → List Elem → Prop
  | none, queue, limbo => FifoRep this queue ∧ limbo = []
  | some (.scan buf prev), queue, limbo => ∃ kept rest,
      FifoRep this (kept ++ rest) ∧ buf = rest.head? ∧ prev = kept.getLast? ∧
        queue = kept ++ rest.filter (fun e => (this.elements e).isControl) ∧
        limbo = rest.filter fun e => !(this.elements e).isControl
  | some (.free buf next prev), queue, limbo => ∃ kept rest,
      FifoRep this (kept ++ rest) ∧ next = rest.head? ∧ prev = kept.getLast? ∧
        queue = kept ++ rest.filter (fun e => (this.elements e).isControl) ∧
        limbo = buf :: rest.filter fun e => !(this.elements e).isControl

/-- The state of the threads and the fifo is that of the abstract fifo. -/
structure Represents (n : ℕ) (s : State τ) (a : Store τ) : Prop where
  /-- Each element is in one place. -/
  inv : a.Inv n
  /-- The pool has room for all the elements. -/
  capacity : s.fifo.buffer_pool_capacity = n
  /-- The pool is the stack of free elements. -/
  pool : PoolRep s.fifo a.pool
  /-- The fifo is the queue, and what a running clear has yet to drop. -/
  queue : ClearRep s.fifo (s.clearing.map Prod.snd) a.queue a.limbo
  /-- The same elements are in the same hands. -/
  owner : a.owner = s.owner
  /-- The types decide what a clear keeps. -/
  control : ∀ e, a.control e = (s.fifo.elements e).isControl
  /-- The same thread is in a clear. -/
  clearing : a.clearing = s.clearing.map Prod.fst

/-! ## Frames -/

/-- The fifo's own fields are the same. -/
structure SameFifo (this this' : FifoBuffer) : Prop where
  first : this'.first = this.first
  last : this'.last = this.last
  fifo_size : this'.fifo_size = this.fifo_size
  fifo_data_size : this'.fifo_data_size = this.fifo_data_size
  capacity : this'.buffer_pool_capacity = this.buffer_pool_capacity

/-- The pool's own fields are the same. -/
structure SamePool (this this' : FifoBuffer) : Prop where
  top : this'.buffer_pool_top = this.buffer_pool_top
  num_free : this'.buffer_pool_num_free = this.buffer_pool_num_free
  capacity : this'.buffer_pool_capacity = this.buffer_pool_capacity

theorem PoolRep.congr {this this' : FifoBuffer} {pool : List Elem} (h : PoolRep this pool)
    (hsame : SamePool this this') (hnx : ∀ e ∈ pool, this'.nexts e = this.nexts e) :
    PoolRep this' pool := by
  refine ⟨?_, ?_⟩
  · rw [hsame.top]
    exact h.linked.congr hnx
  · rw [hsame.num_free, h.num_free]

theorem FifoRep.congr {this this' : FifoBuffer} {xs : List Elem} (h : FifoRep this xs)
    (hsame : SameFifo this this') (hel : ∀ e ∈ xs, this'.elements e = this.elements e) :
    FifoRep this' xs := by
  refine ⟨?_, ?_, ?_⟩
  · rw [hsame.first, hsame.last]
    refine h.queue.congr fun e he => ?_
    unfold FifoBuffer.nexts
    rw [hel e he]
  · rw [hsame.fifo_size, h.fifo_size]
  · have hmap : xs.map (fun e => (this'.elements e).size) =
        xs.map fun e => (this.elements e).size :=
      List.map_congr_left fun e he => by rw [hel e he]
    rw [hsame.fifo_data_size, h.fifo_data_size, hmap]

theorem split_congr {this this' : FifoBuffer} {kept rest : List Elem}
    (hel : ∀ e, e ∈ kept ++ rest.filter (fun e => (this.elements e).isControl) ∨
      e ∈ rest.filter (fun e => !(this.elements e).isControl) →
        this'.elements e = this.elements e) :
    (∀ e ∈ kept ++ rest, this'.elements e = this.elements e) ∧
      rest.filter (fun e => (this'.elements e).isControl) =
        rest.filter (fun e => (this.elements e).isControl) ∧
      rest.filter (fun e => !(this'.elements e).isControl) =
        rest.filter fun e => !(this.elements e).isControl := by
  have hall : ∀ e ∈ kept ++ rest, this'.elements e = this.elements e := by
    intro e he
    rcases List.mem_append.1 he with hk | hr
    · exact hel e (.inl (List.mem_append_left _ hk))
    · cases hc : (this.elements e).isControl
      · exact hel e (.inr (List.mem_filter.2 ⟨hr, by simp [hc]⟩))
      · exact hel e (.inl (List.mem_append_right _ (List.mem_filter.2 ⟨hr, hc⟩)))
  refine ⟨hall, ?_, ?_⟩
  · exact List.filter_congr fun e he => by rw [hall e (List.mem_append_right _ he)]
  · exact List.filter_congr fun e he => by rw [hall e (List.mem_append_right _ he)]

theorem ClearRep.congr {this this' : FifoBuffer} {pc : Option ClearPc} {queue limbo : List Elem}
    (h : ClearRep this pc queue limbo) (hsame : SameFifo this this')
    (hel : ∀ e, e ∈ queue ∨ e ∈ limbo → this'.elements e = this.elements e) :
    ClearRep this' pc queue limbo := by
  match pc, h with
  | none, ⟨hrep, hlimbo⟩ =>
    exact ⟨hrep.congr hsame fun e he => hel e (.inl he), hlimbo⟩
  | some (.scan buf prev), ⟨kept, rest, hrep, hbuf, hprev, hqueue, hlimbo⟩ =>
    subst hqueue
    subst hlimbo
    obtain ⟨hall, hcontrol, hother⟩ := split_congr hel
    refine ⟨kept, rest, hrep.congr hsame hall, hbuf, hprev, ?_, ?_⟩
    · rw [hcontrol]
    · rw [hother]
  | some (.free buf next prev), ⟨kept, rest, hrep, hnext, hprev, hqueue, hlimbo⟩ =>
    subst hqueue
    subst hlimbo
    obtain ⟨hall, hcontrol, hother⟩ := split_congr fun e he =>
      hel e (he.imp_right (List.mem_cons_of_mem _))
    refine ⟨kept, rest, hrep.congr hsame hall, hnext, hprev, ?_, ?_⟩
    · rw [hcontrol]
    · rw [hother]

/-! ## The operations on the pointers -/

theorem sizes_congr {this this' : FifoBuffer}
    (h : ∀ a, (this'.elements a).size = (this.elements a).size) (xs : List Elem) :
    (xs.map fun a => (this'.elements a).size).sum = (xs.map fun a => (this.elements a).size).sum :=
  congrArg List.sum (List.map_congr_left fun a _ => h a)

theorem bufferPoolFree_spec {this this' : FifoBuffer} {pool : List Elem} {e : Elem}
    (h : PoolRep this pool) (he : e ∉ pool) (hfree : bufferPoolFree this e = some this') :
    PoolRep this' (e :: pool) ∧ SameFifo this this' ∧
      (∀ a, a ≠ e → this'.elements a = this.elements a) ∧
      ∀ a, (this'.elements a).type = (this.elements a).type := by
  unfold bufferPoolFree at hfree
  simp only [Option.ite_none_left_eq_some, Option.some.injEq] at hfree
  obtain ⟨-, rfl⟩ := hfree
  refine ⟨⟨?_, ?_⟩, ⟨rfl, rfl, rfl, rfl, rfl⟩, fun a ha => ?_, fun a => ?_⟩
  · have hnx := FifoBuffer.nexts_setNext this e this.buffer_pool_top
    refine linked_cons.2 ⟨rfl, ?_⟩
    change Linked (this.setNext e this.buffer_pool_top).nexts
      ((this.setNext e this.buffer_pool_top).nexts e) pool
    rw [hnx, Function.update_self]
    exact h.linked.congr fun a ha => Function.update_of_ne (ne_of_mem_of_not_mem ha he) _ _
  · simp [h.num_free]
  · exact Function.update_of_ne ha _ _
  · exact this.setNext_type e a _

theorem bufferPoolFree_isSome {this : FifoBuffer} {pool : List Elem} {e : Elem}
    (h : PoolRep this pool) (hcap : (pool.length : ℤ) < this.buffer_pool_capacity) :
    (bufferPoolFree this e).isSome := by
  have hnum : ¬ this.buffer_pool_num_free + 1 > this.buffer_pool_capacity := by
    rw [h.num_free]
    omega
  simp [bufferPoolFree, hnum]

theorem popPool_spec {this this' : FifoBuffer} {pool : List Elem} {e : Elem}
    (h : PoolRep this pool) (hpop : popPool this = some (this', e)) :
    ∃ rest, pool = e :: rest ∧ PoolRep this' rest ∧ SameFifo this this' ∧
      (∀ a, a ≠ e → this'.elements a = this.elements a) ∧
      ∀ a, (this'.elements a).type = (this.elements a).type := by
  unfold popPool at hpop
  have hlinked := h.linked
  cases htop : this.buffer_pool_top with
  | none => simp [htop] at hpop
  | some buf =>
    simp only [htop, Option.some.injEq, Prod.mk.injEq] at hpop
    obtain ⟨rfl, rfl⟩ := hpop
    rw [htop] at hlinked
    obtain ⟨rest, rfl, hrest⟩ := hlinked.exists_cons
    refine ⟨rest, rfl, ⟨hrest.congr fun a _ => ?_, ?_⟩, ⟨rfl, rfl, rfl, rfl, rfl⟩, fun a ha => ?_,
      fun a => ?_⟩
    · by_cases ha : a = buf
      · subst ha
        simp [FifoBuffer.nexts, BufElement.sane]
      · simp [FifoBuffer.nexts, ha]
    · simp [h.num_free]
    · exact Function.update_of_ne ha _ _
    · by_cases ha : a = buf
      · subst ha
        simp [BufElement.sane]
      · simp [ha]

theorem fifoBufferPut_spec {fifo : FifoBuffer} {xs : List Elem} {e : Elem} (h : FifoRep fifo xs)
    (he : e ∉ xs) :
    FifoRep (fifoBufferPut fifo e) (xs ++ [e]) ∧ SamePool fifo (fifoBufferPut fifo e) ∧
      (∀ a, a ∉ xs → a ≠ e → (fifoBufferPut fifo e).nexts a = fifo.nexts a) ∧
      ∀ a, ((fifoBufferPut fifo e).elements a).type = (fifo.elements a).type := by
  have hqueue := h.queue
  have hsum := h.fifo_data_size
  unfold fifoBufferPut
  cases hlast : fifo.last with
  | none =>
    obtain rfl : xs = [] := hqueue.last_eq_none.1 hlast
    refine ⟨⟨?_, ?_, ?_⟩, ⟨rfl, rfl, rfl⟩, fun a _ ha => ?_, fun a => ?_⟩
    · change Queue (FifoBuffer.setNext _ e none).nexts (some e) (some e) [e]
      rw [FifoBuffer.nexts_setNext]
      exact queue_singleton _ e
    · simp [h.fifo_size]
    · simp [hsum, FifoBuffer.setNext]
    · simp [FifoBuffer.nexts, FifoBuffer.setNext, ha]
    · exact FifoBuffer.setNext_type _ e a none
  | some l =>
    rw [hlast] at hqueue
    have hl : l ∈ xs := by
      obtain ⟨ys, rfl⟩ := hqueue.exists_concat
      simp
    refine ⟨⟨?_, ?_, ?_⟩, ⟨rfl, rfl, rfl⟩, fun a hxs ha => ?_, fun a => ?_⟩
    · change Queue (FifoBuffer.setNext _ e none).nexts fifo.first (some e) (xs ++ [e])
      rw [FifoBuffer.nexts_setNext]
      change Queue (Function.update (fifo.setNext l (some e)).nexts e none) _ _ _
      rw [FifoBuffer.nexts_setNext]
      exact hqueue.push_back he
    · simp [h.fifo_size]
    · have hsizes : ∀ a, ((({ fifo.setNext l (some e) with last := some e } : FifoBuffer).setNext e
          none).elements a).size = (fifo.elements a).size := by
        intro a
        rw [FifoBuffer.setNext_size]
        exact fifo.setNext_size l a _
      have hxs := sizes_congr hsizes (xs ++ [e])
      simp only [List.map_append, List.map_cons, List.map_nil, List.sum_append,
        List.sum_singleton, ← hsum] at hxs
      simp only [List.map_append, List.map_cons, List.map_nil, List.sum_append,
        List.sum_singleton]
      exact hxs.symm
    · have hal : a ≠ l := fun hal => hxs (hal ▸ hl)
      simp [FifoBuffer.nexts, FifoBuffer.setNext, ha, hal]
    · change ((FifoBuffer.setNext _ e none).elements a).type = _
      rw [FifoBuffer.setNext_type]
      exact fifo.setNext_type l a _

theorem fifoBufferInsert_spec {fifo : FifoBuffer} {xs : List Elem} {e : Elem}
    (h : FifoRep fifo xs) (he : e ∉ xs) :
    FifoRep (fifoBufferInsert fifo e) (e :: xs) ∧ SamePool fifo (fifoBufferInsert fifo e) ∧
      (∀ a, a ≠ e → (fifoBufferInsert fifo e).nexts a = fifo.nexts a) ∧
      ∀ a, ((fifoBufferInsert fifo e).elements a).type = (fifo.elements a).type := by
  have hnexts : (fifoBufferInsert fifo e).nexts = Function.update fifo.nexts e fifo.first :=
    fifo.nexts_setNext e fifo.first
  have hsizes : ∀ a, ((fifoBufferInsert fifo e).elements a).size = (fifo.elements a).size :=
    fun a => fifo.setNext_size e a fifo.first
  refine ⟨⟨?_, ?_, ?_⟩, ⟨rfl, rfl, rfl⟩, fun a ha => ?_, fun a => ?_⟩
  · rw [hnexts]
    exact h.queue.push_front he
  · simp [fifoBufferInsert, h.fifo_size]
  · rw [sizes_congr hsizes, List.map_cons, List.sum_cons, ← h.fifo_data_size, add_comm]
    rfl
  · rw [hnexts, Function.update_of_ne ha]
  · exact fifo.setNext_type e a fifo.first

theorem fifoBufferGet_spec {fifo fifo' : FifoBuffer} {xs : List Elem} {e : Elem}
    (h : FifoRep fifo xs) (hget : fifoBufferGet fifo = some (fifo', e)) :
    ∃ ys, xs = e :: ys ∧ FifoRep fifo' ys ∧ SamePool fifo fifo' ∧
      fifo'.elements = fifo.elements := by
  have hqueue := h.queue
  unfold fifoBufferGet at hget
  cases hfirst : fifo.first with
  | none => simp [hfirst] at hget
  | some buf =>
    simp only [hfirst, Option.some.injEq, Prod.mk.injEq] at hget
    obtain ⟨rfl, rfl⟩ := hget
    rw [hfirst] at hqueue
    obtain ⟨ys, rfl⟩ := hqueue.exists_cons
    refine ⟨ys, rfl, ⟨hqueue.pop, ?_, ?_⟩, ⟨rfl, rfl, rfl⟩, rfl⟩
    · simp [h.fifo_size]
    · simp [h.fifo_data_size]

theorem clearUnlink_spec {fifo : FifoBuffer} {kept rest : List Elem} {buf : Elem}
    (h : FifoRep fifo (kept ++ buf :: rest)) :
    FifoRep (clearUnlink fifo buf kept.getLast? (fifo.elements buf).next) (kept ++ rest) ∧
      (fifo.elements buf).next = rest.head? ∧
      SamePool fifo (clearUnlink fifo buf kept.getLast? (fifo.elements buf).next) ∧
      (∀ a, a ∉ kept →
        (clearUnlink fifo buf kept.getLast? (fifo.elements buf).next).nexts a = fifo.nexts a) ∧
      ∀ a, ((clearUnlink fifo buf kept.getLast? (fifo.elements buf).next).elements a).type =
        (fifo.elements a).type := by
  obtain ⟨r, -, hr⟩ := linked_append.1 h.queue.linked
  obtain ⟨-, hrest⟩ := linked_cons.1 hr
  have hnext : (fifo.elements buf).next = rest.head? := hrest.head?_eq
  -- The new last element: the one before `buf` when `buf` was the last one.
  have hlast : (if (fifo.elements buf).next = none then kept.getLast? else fifo.last) =
      (kept ++ rest).getLast? := by
    rw [hnext, h.queue.last_eq]
    cases rest with
    | nil => simp
    | cons c rest => simp
  have hlength : fifo.fifo_size - 1 = ((kept ++ rest).length : ℤ) := by
    rw [h.fifo_size]
    simp only [List.length_append, List.length_cons, Nat.cast_add, Nat.cast_one]
    omega
  have hsum : fifo.fifo_data_size - (fifo.elements buf).size =
      ((kept ++ rest).map fun a => (fifo.elements a).size).sum := by
    rw [h.fifo_data_size]
    simp only [List.map_append, List.map_cons, List.sum_append, List.sum_cons]
    rw [add_left_comm, add_sub_cancel_left]
  unfold clearUnlink
  rcases List.eq_nil_or_concat kept with rfl | ⟨ys, p, rfl⟩
  · -- `buf` is the first element
    refine ⟨⟨⟨?_, hlast⟩, hlength, hsum⟩, hnext, ⟨rfl, rfl, rfl⟩, fun a _ => rfl, fun a => rfl⟩
    exact hrest
  · -- `p` is before it
    simp only [List.concat_eq_append, List.getLast?_append, List.getLast?_singleton,
      Option.some_or] at hlast ⊢
    have hlinked := h.queue.linked
    rw [List.concat_eq_append, List.append_assoc, List.singleton_append] at hlinked
    refine ⟨⟨⟨?_, ?_⟩, ?_, ?_⟩, hnext, ⟨rfl, rfl, rfl⟩, fun a ha => ?_, fun a => ?_⟩
    · change Linked (fifo.setNext p (fifo.elements buf).next).nexts fifo.first _
      rw [FifoBuffer.nexts_setNext, List.append_assoc, List.singleton_append]
      exact hlinked.unlink
    · rw [List.getLast?_append, List.getLast?_append, List.getLast?_singleton, Option.some_or]
      exact hlast
    · simpa using hlength
    · change fifo.fifo_data_size - (fifo.elements buf).size =
        ((ys ++ [p] ++ rest).map fun a => ((fifo.setNext p _).elements a).size).sum
      rw [sizes_congr fun a => fifo.setNext_size p a _]
      simpa using hsum
    · have hap : a ≠ p := fun hap => ha (by simp [hap])
      change (fifo.setNext p _).nexts a = _
      rw [FifoBuffer.nexts_setNext, Function.update_of_ne hap]
    · exact fifo.setNext_type p a _

/-! ## The actions -/

section Step

variable {n : ℕ} {s t : State τ} {a : Store τ}

omit [DecidableEq τ] in
theorem control_congr {this this' : FifoBuffer} {control : Elem → Bool}
    (h : ∀ e, control e = (this.elements e).isControl)
    (htype : ∀ e, (this'.elements e).type = (this.elements e).type) (e : Elem) :
    control e = (this'.elements e).isControl := by
  rw [h e]
  unfold BufElement.isControl
  rw [htype e]

omit [DecidableEq τ] in
theorem Represents.fifo (h : Represents n s a) (hc : s.clearing = none) : FifoRep s.fifo a.queue := by
  have hqueue := h.queue
  rw [hc] at hqueue
  exact hqueue.1

theorem represents_put {u : τ} {e : Elem} (h : Represents n s a)
    (hs : step s (.put u e) = some t) : ∃ b, a.step (.put u e) = some b ∧ Represents n t b := by
  simp only [step, Option.ite_none_right_eq_some, Option.some.injEq] at hs
  obtain ⟨⟨ho, hc⟩, rfl⟩ := hs
  rw [Option.isNone_iff_eq_none] at hc
  have hheld : a.owner e = some u := by rw [h.owner, ho]
  obtain ⟨hpool, hqueue, -⟩ := h.inv.not_mem_of_owner (by rw [hheld]; simp)
  have hstep : a.step (.put u e) =
      some { a with queue := a.queue ++ [e], owner := Function.update a.owner e none } := by
    simp [Store.step, hheld, h.clearing, hc]
  refine ⟨_, hstep, ?_⟩
  obtain ⟨hfifo, hsame, hnx, htype⟩ := fifoBufferPut_spec (h.fifo hc) hqueue
  refine ⟨Store.inv_step h.inv hstep, ?_, ?_, ?_, ?_, control_congr h.control htype, h.clearing⟩
  · rw [← h.capacity]
    exact hsame.capacity
  · refine h.pool.congr hsame fun x hx => hnx x (h.inv.not_mem_of_pool hx).1 ?_
    exact ne_of_mem_of_not_mem hx hpool
  · have hlimbo := h.inv.limbo_eq_nil (by rw [h.clearing, hc]; rfl)
    simp only [hc, Option.map_none]
    exact ⟨hfifo, hlimbo⟩
  · simp only [h.owner]

theorem represents_insert {u : τ} {e : Elem} (h : Represents n s a)
    (hs : step s (.insert u e) = some t) :
    ∃ b, a.step (.insert u e) = some b ∧ Represents n t b := by
  simp only [step, Option.ite_none_right_eq_some, Option.some.injEq] at hs
  obtain ⟨⟨ho, hc⟩, rfl⟩ := hs
  rw [Option.isNone_iff_eq_none] at hc
  have hheld : a.owner e = some u := by rw [h.owner, ho]
  obtain ⟨hpool, hqueue, -⟩ := h.inv.not_mem_of_owner (by rw [hheld]; simp)
  have hstep : a.step (.insert u e) =
      some { a with queue := e :: a.queue, owner := Function.update a.owner e none } := by
    simp [Store.step, hheld, h.clearing, hc]
  refine ⟨_, hstep, ?_⟩
  obtain ⟨hfifo, hsame, hnx, htype⟩ := fifoBufferInsert_spec (h.fifo hc) hqueue
  refine ⟨Store.inv_step h.inv hstep, ?_, ?_, ?_, ?_, control_congr h.control htype, h.clearing⟩
  · rw [← h.capacity]
    exact hsame.capacity
  · exact h.pool.congr hsame fun x hx => hnx x (ne_of_mem_of_not_mem hx hpool)
  · have hlimbo := h.inv.limbo_eq_nil (by rw [h.clearing, hc]; rfl)
    simp only [hc, Option.map_none]
    exact ⟨hfifo, hlimbo⟩
  · simp only [h.owner]

theorem represents_get {u : τ} {e : Elem} (h : Represents n s a)
    (hs : step s (.get u e) = some t) : ∃ b, a.step (.get u e) = some b ∧ Represents n t b := by
  simp only [step, Option.ite_none_right_eq_some] at hs
  obtain ⟨hc, hs⟩ := hs
  rw [Option.isNone_iff_eq_none] at hc
  cases hget : fifoBufferGet s.fifo with
  | none => simp [hget] at hs
  | some r =>
    obtain ⟨fifo, buf⟩ := r
    simp only [hget, Option.ite_none_right_eq_some, Option.some.injEq] at hs
    obtain ⟨rfl, rfl⟩ := hs
    obtain ⟨ys, hys, hfifo, hsame, hel⟩ := fifoBufferGet_spec (h.fifo hc) hget
    have hstep : a.step (.get u buf) = some
        { a with queue := ys, owner := Function.update a.owner buf (some u) } := by
      simp [Store.step, hys, h.clearing, hc]
    refine ⟨_, hstep, ?_⟩
    refine ⟨Store.inv_step h.inv hstep, ?_, ?_, ?_, ?_, ?_, h.clearing⟩
    · rw [← h.capacity]
      exact hsame.capacity
    · exact h.pool.congr hsame fun x _ => by simp only [FifoBuffer.nexts, hel]
    · have hlimbo := h.inv.limbo_eq_nil (by rw [h.clearing, hc]; rfl)
      simp only [hc, Option.map_none]
      exact ⟨hfifo, hlimbo⟩
    · simp only [h.owner]
    · simp only [hel]
      exact h.control

omit [DecidableEq τ] in
theorem represents_popPool {u : τ} {e : Elem} {fifo : FifoBuffer} (h : Represents n s a)
    (hpop : popPool s.fifo = some (fifo, e)) :
    a.pool.head? = some e ∧
      ∀ b, b.Inv n → b = { a with pool := a.pool.tail, owner := Function.update a.owner e (some u) } →
        Represents n { s with fifo, owner := Function.update s.owner e (some u) } b := by
  obtain ⟨rest, hrest, hpool, hsame, hel, htype⟩ := popPool_spec h.pool hpop
  refine ⟨by rw [hrest]; rfl, ?_⟩
  rintro b hb rfl
  refine ⟨hb, ?_, ?_, ?_, ?_, control_congr h.control htype, h.clearing⟩
  · rw [← h.capacity]
    exact hsame.capacity
  · simpa only [hrest, List.tail_cons] using hpool
  · refine h.queue.congr hsame fun x hx => hel x ?_
    obtain ⟨hqueue, hlimbo⟩ := h.inv.not_mem_of_pool (e := e) (by rw [hrest]; simp)
    rcases hx with hx | hx
    · exact ne_of_mem_of_not_mem hx hqueue
    · exact ne_of_mem_of_not_mem hx hlimbo
  · simp only [h.owner]

theorem represents_alloc {u : τ} {e : Elem} (h : Represents n s a)
    (hs : step s (.alloc u e) = some t) : ∃ b, a.step (.alloc u e) = some b ∧ Represents n t b := by
  simp only [step] at hs
  cases halloc : bufferPoolAlloc s.fifo with
  | none => simp [halloc] at hs
  | some r =>
    obtain ⟨fifo, buf⟩ := r
    simp only [halloc, Option.ite_none_right_eq_some, Option.some.injEq] at hs
    obtain ⟨rfl, rfl⟩ := hs
    unfold bufferPoolAlloc at halloc
    rw [Option.ite_none_left_eq_some] at halloc
    obtain ⟨hnum, hpop⟩ := halloc
    obtain ⟨hhead, hrep⟩ := represents_popPool (u := u) h hpop
    have hlength : 2 ≤ a.pool.length := by
      have := h.pool.num_free
      omega
    have hstep : a.step (.alloc u buf) = some
        { a with pool := a.pool.tail, owner := Function.update a.owner buf (some u) } := by
      simp [Store.step, hlength, hhead]
    exact ⟨_, hstep, hrep _ (Store.inv_step h.inv hstep) rfl⟩

theorem represents_tryAlloc {u : τ} {r : Option Elem} (h : Represents n s a)
    (hs : step s (.tryAlloc u r) = some t) :
    ∃ b, a.step (.tryAlloc u r) = some b ∧ Represents n t b := by
  simp only [step, bufferPoolTryAlloc] at hs
  cases hpop : popPool s.fifo with
  | none =>
    simp only [hpop, Option.ite_none_right_eq_some, Option.some.injEq] at hs
    obtain ⟨rfl, rfl⟩ := hs
    -- The pool is empty, so its top is null.
    have hnil : a.pool = [] := by
      have hlinked := h.pool.linked
      cases htop : s.fifo.buffer_pool_top with
      | none =>
        rw [htop] at hlinked
        exact hlinked.eq_nil
      | some e => simp [popPool, htop] at hpop
    exact ⟨a, by simp [Store.step, hnil], h⟩
  | some r' =>
    obtain ⟨fifo, buf⟩ := r'
    simp only [hpop, Option.ite_none_right_eq_some, Option.some.injEq] at hs
    obtain ⟨rfl, rfl⟩ := hs
    obtain ⟨hhead, hrep⟩ := represents_popPool (u := u) h hpop
    have hstep : a.step (.tryAlloc u (some buf)) = some
        { a with pool := a.pool.tail, owner := Function.update a.owner buf (some u) } := by
      simp [Store.step, hhead]
    exact ⟨_, hstep, hrep _ (Store.inv_step h.inv hstep) rfl⟩

theorem represents_free {u : τ} {e : Elem} (h : Represents n s a)
    (hs : step s (.free u e) = some t) : ∃ b, a.step (.free u e) = some b ∧ Represents n t b := by
  simp only [step, Option.ite_none_right_eq_some, Option.map_eq_some_iff] at hs
  obtain ⟨ho, fifo, hfree, rfl⟩ := hs
  have hheld : a.owner e = some u := by rw [h.owner, ho]
  obtain ⟨hpool, hqueue, hlimbo⟩ := h.inv.not_mem_of_owner (by rw [hheld]; simp)
  have hstep : a.step (.free u e) =
      some { a with pool := e :: a.pool, owner := Function.update a.owner e none } := by
    simp [Store.step, hheld]
  refine ⟨_, hstep, ?_⟩
  obtain ⟨hrep, hsame, hel, htype⟩ := bufferPoolFree_spec h.pool hpool hfree
  refine ⟨Store.inv_step h.inv hstep, ?_, hrep, ?_, ?_, control_congr h.control htype, h.clearing⟩
  · rw [← h.capacity]
    exact hsame.capacity
  · refine h.queue.congr hsame fun x hx => hel x ?_
    rcases hx with hx | hx
    · exact ne_of_mem_of_not_mem hx hqueue
    · exact ne_of_mem_of_not_mem hx hlimbo
  · simp only [h.owner]

theorem represents_fill {u : τ} {e : Elem} {b : BufElement} (h : Represents n s a)
    (hs : step s (.fill u e b) = some t) :
    ∃ b', a.step (.fill u e b) = some b' ∧ Represents n t b' := by
  simp only [step, Option.ite_none_right_eq_some, Option.some.injEq] at hs
  obtain ⟨ho, rfl⟩ := hs
  have hheld : a.owner e = some u := by rw [h.owner, ho]
  obtain ⟨hpool, hqueue, hlimbo⟩ := h.inv.not_mem_of_owner (by rw [hheld]; simp)
  have hstep : a.step (.fill u e b) =
      some { a with control := Function.update a.control e b.isControl } := by
    simp [Store.step, hheld]
  refine ⟨_, hstep, Store.inv_step h.inv hstep, h.capacity, ?_, ?_, h.owner, fun x => ?_,
    h.clearing⟩
  · refine h.pool.congr ⟨rfl, rfl, rfl⟩ fun x hx => ?_
    simp only [FifoBuffer.nexts, Function.update_of_ne (ne_of_mem_of_not_mem hx hpool)]
  · refine h.queue.congr ⟨rfl, rfl, rfl, rfl, rfl⟩ fun x hx => Function.update_of_ne ?_ _ _
    rcases hx with hx | hx
    · exact ne_of_mem_of_not_mem hx hqueue
    · exact ne_of_mem_of_not_mem hx hlimbo
  · by_cases hx : x = e
    · subst hx
      simp
    · simp [hx, h.control x]

theorem represents_clear {u : τ} (h : Represents n s a) (hs : step s (.clear u) = some t) :
    ∃ b, a.step (.clear u) = some b ∧ Represents n t b := by
  simp only [step, Option.ite_none_right_eq_some, Option.some.injEq] at hs
  obtain ⟨hc, rfl⟩ := hs
  rw [Option.isNone_iff_eq_none] at hc
  have hfifo := h.fifo hc
  have hstep : a.step (.clear u) = some { a with
      queue := a.queue.filter a.control
      limbo := a.queue.filter fun e => !a.control e
      clearing := some u } := by
    simp [Store.step, h.clearing, hc]
  refine ⟨_, hstep, Store.inv_step h.inv hstep, h.capacity, h.pool, ?_, h.owner, h.control, rfl⟩
  have hcontrol : a.control = fun e => (s.fifo.elements e).isControl := funext h.control
  refine ⟨[], a.queue, hfifo, hfifo.queue.linked.head?_eq, rfl, ?_, ?_⟩
  · rw [hcontrol]
    rfl
  · rw [hcontrol]

theorem represents_clearScan {u : τ} (h : Represents n s a) (hs : step s (.clearScan u) = some t) :
    ∃ b, a.step (.clearScan u) = some b ∧ Represents n t b := by
  have hrep := h.queue
  have hclearing := h.clearing
  obtain ⟨buf, prev, hc, hcases⟩ := step_clearScan_cases hs
  rw [hc] at hrep hclearing
  obtain ⟨kept, rest, hfifo, hbuf, rfl, hqueue, hlimbo⟩ := hrep
  obtain ⟨rest, rfl⟩ := List.head?_eq_some_iff.1 hbuf.symm
  have hstep : a.step (.clearScan u) = some a := by simp [Store.step, hclearing]
  refine ⟨a, hstep, ?_⟩
  rcases hcases with ⟨hk, rfl⟩ | ⟨hk, rfl⟩
  · -- `buf` stays and is the one before the next
    refine ⟨h.inv, h.capacity, h.pool, ?_, h.owner, h.control, hclearing⟩
    obtain ⟨r, -, hr⟩ := linked_append.1 hfifo.queue.linked
    refine ⟨kept ++ [buf], rest, by simpa using hfifo, (linked_cons.1 hr).2.head?_eq, by simp, ?_,
      ?_⟩
    · simpa [List.filter_cons, hk] using hqueue
    · simpa [List.filter_cons, hk] using hlimbo
  · -- `buf` is unlinked
    simp only [List.filter_cons, hk, Bool.not_false, if_true, Bool.false_eq_true, if_false]
      at hqueue hlimbo
    obtain ⟨hfifo', hnext, hsame, hnx, htype⟩ := clearUnlink_spec hfifo
    refine ⟨h.inv, ?_, ?_, ?_, h.owner, control_congr h.control htype, hclearing⟩
    · rw [← h.capacity]
      exact hsame.capacity
    · refine h.pool.congr hsame fun x hx => hnx x fun hkept => ?_
      refine (h.inv.not_mem_of_pool hx).1 ?_
      rw [hqueue]
      exact List.mem_append_left _ hkept
    · have hcontrol : (fun e => ((clearUnlink s.fifo buf kept.getLast?
          (s.fifo.elements buf).next).elements e).isControl) =
          fun e => (s.fifo.elements e).isControl := by
        funext e
        unfold BufElement.isControl
        rw [htype e]
      refine ⟨kept, rest, hfifo', hnext, rfl, ?_, ?_⟩
      · rw [hcontrol]
        exact hqueue
      · simp only [congrFun hcontrol]
        exact hlimbo

theorem represents_clearFree {u : τ} {e : Elem} (h : Represents n s a)
    (hs : step s (.clearFree u e) = some t) :
    ∃ b, a.step (.clearFree u e) = some b ∧ Represents n t b := by
  have hrep := h.queue
  have hclearing := h.clearing
  obtain ⟨next, prev, fifo, hc, hfree, rfl⟩ := step_clearFree_cases hs
  rw [hc] at hrep hclearing
  obtain ⟨kept, rest, hfifo, hnext, hprev, hqueue, hlimbo⟩ := hrep
  have hstep : a.step (.clearFree u e) =
      some { a with pool := e :: a.pool, limbo := a.limbo.tail } := by
    simp [Store.step, hclearing, hlimbo]
  have hinv := Store.inv_step h.inv hstep
  obtain ⟨hpool, hq⟩ := h.inv.not_mem_of_limbo (e := e) (by rw [hlimbo]; simp)
  obtain ⟨hpool', hsame, hel, htype⟩ := bufferPoolFree_spec h.pool hpool hfree
  refine ⟨_, hstep, hinv, ?_, hpool', ?_, h.owner, control_congr h.control htype, hclearing⟩
  · rw [← h.capacity]
    exact hsame.capacity
  · have hscan : ClearRep s.fifo (some (.scan next prev)) a.queue a.limbo.tail :=
      ⟨kept, rest, hfifo, hnext, hprev, hqueue, by rw [hlimbo]; rfl⟩
    refine hscan.congr hsame fun x hx => hel x ?_
    -- After the step `e` is in the pool, and so not in the queue nor in limbo.
    obtain ⟨hq', hl'⟩ := hinv.not_mem_of_pool (e := e) (by simp)
    rcases hx with hx | hx
    · exact ne_of_mem_of_not_mem hx hq'
    · exact ne_of_mem_of_not_mem hx hl'

theorem represents_clearEnd {u : τ} (h : Represents n s a) (hs : step s (.clearEnd u) = some t) :
    ∃ b, a.step (.clearEnd u) = some b ∧ Represents n t b := by
  have hrep := h.queue
  have hclearing := h.clearing
  obtain ⟨prev, hc, rfl⟩ := step_clearEnd_cases hs
  rw [hc] at hrep hclearing
  obtain ⟨kept, rest, hfifo, hbuf, hprev, hqueue, hlimbo⟩ := hrep
  obtain rfl : rest = [] := List.head?_eq_none_iff.1 hbuf.symm
  simp only [List.filter_nil, List.append_nil] at hqueue hlimbo hfifo
  have hstep : a.step (.clearEnd u) = some { a with clearing := none } := by
    simp [Store.step, hclearing, hlimbo]
  refine ⟨_, hstep, Store.inv_step h.inv hstep, h.capacity, h.pool, ⟨?_, hlimbo⟩, h.owner,
    h.control, rfl⟩
  rw [hqueue]
  exact hfifo

theorem represents_step {act : Action τ} (h : Represents n s a) (hs : step s act = some t) :
    ∃ b, a.step act = some b ∧ Represents n t b := by
  cases act with
  | put u e => exact represents_put h hs
  | insert u e => exact represents_insert h hs
  | get u e => exact represents_get h hs
  | alloc u e => exact represents_alloc h hs
  | tryAlloc u r => exact represents_tryAlloc h hs
  | free u e => exact represents_free h hs
  | fill u e b => exact represents_fill h hs
  | clear u => exact represents_clear h hs
  | clearScan u => exact represents_clearScan h hs
  | clearFree u e => exact represents_clearFree h hs
  | clearEnd u => exact represents_clearEnd h hs

end Step

end Xine.Buffer
