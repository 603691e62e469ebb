import Xine.Buffer.Refinement

/-!
# Conservation of buffers

A new fifo represents the abstract fifo with all the elements in the pool, so every run of the threads is a run of
the abstract fifo.
-/

namespace Xine.Buffer

open Chain

variable {τ : Type*} [DecidableEq τ]

/-! ## The order of the queue -/

/-- The element that an action takes from the queue. -/
def Action.got : Action τ → Option Elem
  | .get _ e => some e
  | _ => none

/-- The element that an action appends to the queue. -/
def Action.queued : Action τ → Option Elem
  | .put _ e => some e
  | _ => none

/-- An action that is neither an `insert` nor the start of a clear. -/
def Action.Plain : Action τ → Prop
  | .insert _ _ | .clear _ => False
  | _ => True

theorem Store.got_append_step {a b : Store τ} {act : Action τ} (hc : a.clearing = none)
    (hplain : act.Plain) (h : a.step act = some b) :
    b.clearing = none ∧ act.got.toList ++ b.queue = a.queue ++ act.queued.toList := by
  cases act with
  | put t e =>
    simp only [step, Option.ite_none_right_eq_some, Option.some.injEq] at h
    obtain ⟨-, rfl⟩ := h
    exact ⟨hc, rfl⟩
  | get t e =>
    simp only [step, Option.ite_none_right_eq_some, Option.some.injEq] at h
    obtain ⟨⟨-, hq⟩, rfl⟩ := h
    obtain ⟨q, hq⟩ := List.head?_eq_some_iff.1 hq
    exact ⟨hc, by simp [Action.got, Action.queued, hq]⟩
  | tryAlloc t r =>
    simp only [step, Option.ite_none_right_eq_some] at h
    obtain ⟨-, h⟩ := h
    cases r with
    | none =>
      obtain rfl : a = b := by simpa using h
      exact ⟨hc, by simp [Action.got, Action.queued]⟩
    | some e =>
      cases h
      exact ⟨hc, by simp [Action.got, Action.queued]⟩
  | insert t e | clear t => exact absurd hplain id
  | clearScan t | clearFree t e | clearEnd t => simp [step, hc] at h
  | alloc t e | free t e | fill t e b' =>
    simp only [step, Option.ite_none_right_eq_some, Option.some.injEq] at h
    obtain ⟨-, rfl⟩ := h
    exact ⟨hc, by simp [Action.got, Action.queued]⟩

theorem Store.got_append_queue {a b : Store τ} {as : List (Action τ)} (hc : a.clearing = none)
    (has : ∀ act ∈ as, act.Plain) (h : Runs.run step a as = some b) :
    b.clearing = none ∧
      as.filterMap Action.got ++ b.queue = a.queue ++ as.filterMap Action.queued := by
  induction as generalizing a with
  | nil =>
    obtain rfl : a = b := by simpa using h
    exact ⟨hc, by simp⟩
  | cons act as ih =>
    obtain ⟨c, hac, hcb⟩ := Runs.run_cons_eq_some.1 h
    obtain ⟨hcc, hstep⟩ := got_append_step hc (has act (by simp)) hac
    obtain ⟨hcb, hrun⟩ := ih hcc (fun x hx => has x (List.mem_cons_of_mem _ hx)) hcb
    have hgot : (act :: as).filterMap Action.got = act.got.toList ++ as.filterMap Action.got := by
      cases hg : act.got <;> simp [hg]
    have hqueued : (act :: as).filterMap Action.queued =
        act.queued.toList ++ as.filterMap Action.queued := by
      cases hq : act.queued <;> simp [hq]
    refine ⟨hcb, ?_⟩
    rw [hgot, hqueued, List.append_assoc, hrun, ← List.append_assoc, hstep, List.append_assoc]

/-! ## New fifos -/

theorem newElement_isControl (buf_size : BitVec 32) : (newElement buf_size).isControl = false := by
  simp only [newElement, BufElement.isControl]
  decide

theorem fifoBufferNew_loop (init : FifoBuffer) (hinit : PoolRep init [])
    (k : ℕ) (hk : (k : ℤ) ≤ init.buffer_pool_capacity) :
    ∃ fifo, (List.range k).foldlM bufferPoolFree init = some fifo ∧
      PoolRep fifo (List.range k).reverse ∧ SameFifo init fifo ∧
      ∀ e, (fifo.elements e).type = (init.elements e).type := by
  induction k with
  | zero => exact ⟨init, rfl, hinit, ⟨rfl, rfl, rfl, rfl, rfl⟩, fun _ => rfl⟩
  | succ k ih =>
    obtain ⟨fifo, hfold, hpool, hsame, htype⟩ := ih (by omega)
    have hcap : ((List.range k).reverse.length : ℤ) < fifo.buffer_pool_capacity := by
      rw [hsame.capacity, List.length_reverse, List.length_range]
      omega
    obtain ⟨fifo', hfree⟩ := Option.isSome_iff_exists.1 (bufferPoolFree_isSome (e := k) hpool hcap)
    obtain ⟨hpool', hsame', -, htype'⟩ := bufferPoolFree_spec hpool (by simp) hfree
    refine ⟨fifo', ?_, ?_, ⟨?_, ?_, ?_, ?_, ?_⟩, fun e => (htype' e).trans (htype e)⟩
    · rw [List.range_succ, List.foldlM_append, hfold]
      simpa using hfree
    · simpa [List.range_succ] using hpool'
    · rw [hsame'.first, hsame.first]
    · rw [hsame'.last, hsame.last]
    · rw [hsame'.fifo_size, hsame.fifo_size]
    · rw [hsame'.fifo_data_size, hsame.fifo_data_size]
    · rw [hsame'.capacity, hsame.capacity]

theorem fifoBufferNew_isSome (n : ℕ) (buf_size : BitVec 32) : (fifoBufferNew n buf_size).isSome := by
  obtain ⟨fifo, hfifo, -⟩ := fifoBufferNew_loop
    ⟨none, none, 0, 0, none, 0, n, fun _ => newElement buf_size⟩ ⟨rfl, rfl⟩ n le_rfl
  exact Option.isSome_iff_exists.2 ⟨fifo, hfifo⟩

omit [DecidableEq τ] in
theorem represents_new {n : ℕ} {buf_size : BitVec 32} {fifo : FifoBuffer}
    (hnew : fifoBufferNew n buf_size = some fifo) :
    Represents n (State.initial fifo : State τ) (Store.initial n fun _ => false) := by
  obtain ⟨fifo', hfifo', hpool, hsame, htype⟩ := fifoBufferNew_loop
    ⟨none, none, 0, 0, none, 0, n, fun _ => newElement buf_size⟩ ⟨rfl, rfl⟩ n le_rfl
  obtain rfl : fifo' = fifo := Option.some.inj (hfifo'.symm.trans hnew)
  refine ⟨Store.inv_initial n _, hsame.capacity, hpool, ⟨⟨?_, hsame.fifo_size, ?_⟩, rfl⟩, rfl,
    fun e => ?_, rfl⟩
  · rw [show (State.initial fifo' : State τ).fifo = fifo' from rfl, hsame.first, hsame.last]
    exact queue_nil
  · exact hsame.fifo_data_size
  · change false = (fifo'.elements e).isControl
    unfold BufElement.isControl
    rw [htype e]
    exact (newElement_isControl buf_size).symm

theorem represents_run {n : ℕ} {s t : State τ} {a : Store τ} {as : List (Action τ)}
    (h : Represents n s a) (hrun : Runs.run step s as = some t) :
    ∃ b, Runs.run Store.step a as = some b ∧ Represents n t b := by
  have hsim : ∀ (s : State τ) (a : Store τ) (act : Action τ) (t : State τ), Represents n s a →
      step s act = some t → ∃ b, a.step act = some b ∧ Represents n t b :=
    fun _ _ _ _ hR hs => represents_step hR hs
  exact Runs.run_simulation hsim h hrun

/-! ## What a state promises -/

section Promises

variable {n : ℕ} {s t : State τ} {a : Store τ}

theorem Represents.free_isSome {u : τ} {e : Elem} (h : Represents n s a) (ho : s.owner e = some u) :
    (step s (.free u e)).isSome := by
  have hheld : a.owner e ≠ none := by
    rw [h.owner, ho]
    simp
  obtain ⟨hpool, -, -⟩ := h.inv.not_mem_of_owner hheld
  have hplace : 0 < a.places e := by
    unfold Store.places
    rw [if_neg hheld]
    omega
  have hlength := h.inv.pool_length_lt hplace hpool
  have hsome := bufferPoolFree_isSome (e := e) h.pool (by rw [h.capacity]; omega)
  simp [step, ho, hsome]

theorem Represents.alloc_num_free {u : τ} {e : Elem} (h : Represents n s a)
    (hs : step s (.alloc u e) = some t) : 1 ≤ t.fifo.buffer_pool_num_free := by
  obtain ⟨b, hb, hrep⟩ := represents_step h hs
  simp only [Store.step, Option.ite_none_right_eq_some, Option.some.injEq] at hb
  obtain ⟨⟨hlength, -⟩, rfl⟩ := hb
  have hnum := hrep.pool.num_free
  simp only [List.length_tail] at hnum
  omega

theorem Represents.order {as : List (Action τ)} (h : Represents n s a)
    (hc : s.clearing = none) (has : ∀ act ∈ as, act.Plain) (hrun : Runs.run step s as = some t) :
    ∃ ys, FifoRep t.fifo ys ∧
      as.filterMap Action.got ++ ys = a.queue ++ as.filterMap Action.queued := by
  obtain ⟨b, hb, hrep⟩ := represents_run h hrun
  obtain ⟨hbc, horder⟩ := Store.got_append_queue (by rw [h.clearing, hc]; rfl) has hb
  refine ⟨b.queue, hrep.fifo ?_, horder⟩
  rw [hrep.clearing, Option.map_eq_none_iff] at hbc
  exact hbc

theorem Represents.insert_front {u : τ} {e : Elem} (h : Represents n s a)
    (hs : step s (.insert u e) = some t) : FifoRep t.fifo (e :: a.queue) := by
  obtain ⟨b, hb, hrep⟩ := represents_step h hs
  simp only [Store.step, Option.ite_none_right_eq_some, Option.some.injEq] at hb
  obtain ⟨⟨-, hc⟩, rfl⟩ := hb
  refine hrep.fifo ?_
  have hclearing := hrep.clearing
  simp only [Option.isNone_iff_eq_none.1 hc] at hclearing
  exact Option.map_eq_none_iff.1 hclearing.symm

theorem Represents.clear {u v : τ} {as : List (Action τ)} (h : Represents n s a)
    (has : ∀ act ∈ as, Store.NotEnd act)
    (hrun : Runs.run step s (.clear u :: as ++ [.clearEnd v]) = some t) :
    FifoRep t.fifo (a.queue.filter fun e => (s.fifo.elements e).isControl) ∧
      Store.freed as = a.queue.filter fun e => !(s.fifo.elements e).isControl := by
  obtain ⟨b, hb, hrep⟩ := represents_run h hrun
  obtain ⟨hqueue, hfreed⟩ := Store.clear_of_run has hb
  obtain ⟨r, -, hend⟩ := Runs.run_concat_eq_some.1 hb
  simp only [Store.step, Option.ite_none_right_eq_some, Option.some.injEq] at hend
  obtain ⟨-, rfl⟩ := hend
  have hcontrol : a.control = fun e => (s.fifo.elements e).isControl := funext h.control
  refine ⟨?_, ?_⟩
  · have hfifo := hrep.fifo (Option.map_eq_none_iff.1 hrep.clearing.symm)
    rwa [hqueue, hcontrol] at hfifo
  · rwa [hcontrol] at hfreed

end Promises

/-! ## Every interleaving -/

/-- Over every interleaving of any threads on a new fifo: each element is in exactly one place; the
pool and, outside a clear, the fifo are kept by their pointers and counters; a caller's free never
aborts and an `alloc` leaves an element free; elements leave in the order in which they are put,
inserted ones first; and a clear drops exactly the elements that are not control elements. -/
theorem fifo_run_conserves {n : ℕ} {buf_size : BitVec 32} {fifo : FifoBuffer}
    {as : List (Action τ)} {s : State τ} (hnew : fifoBufferNew n buf_size = some fifo)
    (hrun : Runs.run step (State.initial fifo) as = some s) :
    ∃ a : Store τ, Runs.run Store.step (Store.initial n fun _ => false) as = some a ∧
      (∀ e, a.places e = if e < n then 1 else 0) ∧ a.owner = s.owner ∧
      PoolRep s.fifo a.pool ∧
      (s.clearing = none → a.limbo = [] ∧ FifoRep s.fifo a.queue) ∧
      (∀ u e, s.owner e = some u → (step s (.free u e)).isSome) ∧
      (∀ u e t, step s (.alloc u e) = some t → 1 ≤ t.fifo.buffer_pool_num_free) ∧
      (∀ bs t, s.clearing = none → (∀ act ∈ bs, act.Plain) → Runs.run step s bs = some t →
        ∃ ys, FifoRep t.fifo ys ∧
          bs.filterMap Action.got ++ ys = a.queue ++ bs.filterMap Action.queued) ∧
      (∀ u e t, step s (.insert u e) = some t → FifoRep t.fifo (e :: a.queue)) ∧
      (∀ u v bs t, (∀ act ∈ bs, Store.NotEnd act) →
        Runs.run step s (.clear u :: bs ++ [.clearEnd v]) = some t →
        FifoRep t.fifo (a.queue.filter fun e => (s.fifo.elements e).isControl) ∧
          Store.freed bs = a.queue.filter fun e => !(s.fifo.elements e).isControl) := by
  obtain ⟨a, ha, h⟩ := represents_run (represents_new hnew) hrun
  refine ⟨a, ha, h.inv.places_eq, h.owner, h.pool, fun hc => ⟨?_, h.fifo hc⟩,
    fun u e ho => h.free_isSome ho, fun u e t hs => h.alloc_num_free hs,
    fun bs t hc hbs hr => h.order hc hbs hr, fun u e t hs => h.insert_front hs,
    fun u v bs t hbs hr => h.clear hbs hr⟩
  exact h.inv.limbo_eq_nil (by rw [h.clearing, hc]; rfl)

/-- Two threads pass an element through a fifo of two, and a clear runs. -/
theorem fifo_run_conserves_two : ∃ (fifo : FifoBuffer) (s : State ℕ) (a : Store ℕ),
    fifoBufferNew 2 2048#32 = some fifo ∧
      Runs.run step (State.initial fifo) [.tryAlloc 0 (some 1), .put 0 1, .get 1 1, .put 1 1,
        .clear 0, .clearScan 0, .tryAlloc 1 (some 0), .clearFree 0 1, .clearEnd 0] = some s ∧
      (∀ e, a.places e = if e < 2 then 1 else 0) ∧ PoolRep s.fifo a.pool := by
  have hsome : ((fifoBufferNew 2 2048#32).bind fun fifo =>
      Runs.run step (State.initial fifo) [.tryAlloc 0 (some 1), .put 0 1, .get 1 1, .put 1 1,
        .clear 0, .clearScan 0, .tryAlloc 1 (some 0), .clearFree 0 1, .clearEnd 0]).isSome := by
    decide
  obtain ⟨s, hs⟩ := Option.isSome_iff_exists.1 hsome
  obtain ⟨fifo, hnew, hrun⟩ := Option.bind_eq_some_iff.1 hs
  obtain ⟨a, -, hplaces, -, hpool, -⟩ := fifo_run_conserves hnew hrun
  exact ⟨fifo, s, a, hnew, hrun, hplaces, hpool⟩

end Xine.Buffer
