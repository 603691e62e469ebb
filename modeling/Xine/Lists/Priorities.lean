import Mathlib.Data.List.TakeWhile
import Xine.Lists.Refinement

/-!
# Lists after any operations

A history of operations is a run, which gets stuck where one is not survived: inserting into an empty list, or
deleting from one. The run on the nodes and that on the sequence return the same contents, and the nodes represent
the sequence all along.
-/

namespace Xine.Lists

open Runs

variable {α : Type*} {s : Cursor α} {operations : List (Operation α)} {priority : ℤ}

/-- An operation, with what was returned so far. -/
def step {σ : Type*} (apply : σ → Operation α → Option (Option α × σ)) (w : σ × List (Option α))
    (operation : Operation α) : Option (σ × List (Option α)) :=
  (apply w.1 operation).map fun r => (r.2, w.2 ++ [r.1])

/-- The run on the nodes. -/
def history (operations : List (Operation α)) : Option (XineList α × List (Option α)) :=
  run (step XineList.apply) (XineList.new, []) operations

/-- The run on the sequence. -/
def reference (operations : List (Operation α)) : Option (Cursor α × List (Option α)) :=
  run (step Cursor.apply) (.empty, []) operations

/-- The nodes represent the sequence, and the same was returned. -/
def Agrees (w : XineList α × List (Option α)) (v : Cursor α × List (Option α)) : Prop :=
  w.2 = v.2 ∧ Represents w.1 v.1

theorem apply_represents {l : XineList α} (h : Represents l s) (operation : Operation α) :
    Option.Rel (fun r r' => r.1 = r'.1 ∧ Represents r.2 r'.2) (l.apply operation) (s.apply operation) := by
  cases operation with
  | append content => exact .some ⟨rfl, append_represents h content⟩
  | appendPriority content priority =>
    obtain ⟨l', hl', hrep⟩ := appendPriority_represents h content priority
    rw [XineList.apply, hl']
    exact .some ⟨rfl, hrep⟩
  | insert content =>
    rw [XineList.apply, Cursor.apply]
    obtain ⟨hs, hl⟩ | ⟨s', l', hs, hl, hrep⟩ := insert_represents h content
    · rw [hs, hl]
      exact .none
    · rw [hs, hl]
      exact .some ⟨rfl, hrep⟩
  | delete =>
    rw [XineList.apply, Cursor.apply]
    obtain ⟨hs, hl⟩ | ⟨s', l', hs, hl, hrep⟩ := delete_represents h
    · rw [hs, hl]
      exact .none
    · rw [hs, hl]
      exact .some ⟨rfl, hrep⟩
  | first => exact .some (first_represents h)
  | next => exact .some (next_represents h)
  | prev => exact .some (prev_represents h)
  | last => exact .some (last_represents h)

theorem history_reference (operations : List (Operation α)) :
    Option.Rel Agrees (history operations) (reference operations) := by
  refine run_rel (fun w v operation hagrees => ?_) operations ⟨rfl, represents_new⟩
  have happly := apply_represents hagrees.2 operation
  unfold step
  generalize w.1.apply operation = r at happly
  generalize v.1.apply operation = r' at happly
  cases happly with
  | none => exact .none
  | some h =>
    refine .some ⟨?_, h.2⟩
    dsimp only
    rw [hagrees.1, h.1]

/-! ## Priorities -/

/-- An operation with which a list is built by priority, or walked through. -/
def Operation.Builds : Operation α → Prop
  | .append _ | .insert _ | .delete => False
  | .appendPriority _ _ | .first | .next | .prev | .last => True

/-- What an operation puts into the list by priority. -/
def Operation.entry : Operation α → Option (α × ℤ)
  | .appendPriority content priority => some (content, priority)
  | _ => none

/-- The priorities do not increase, and the contents of each priority are those of `entries`, the newest
first. -/
structure Sorted (entries nodes : List (α × ℤ)) : Prop where
  pairwise : nodes.Pairwise fun n m => m.2 ≤ n.2
  newest_first : ∀ priority : ℤ, nodes.filter (fun n => decide (n.2 = priority)) =
    (entries.filter fun n => decide (n.2 = priority)).reverse

theorem nodes_onFirst (nodes : List (α × ℤ)) : (Cursor.onFirst nodes).nodes = nodes := by
  cases nodes <;> rfl

theorem nodes_onLast (nodes : List (α × ℤ)) : (Cursor.onLast nodes).nodes = nodes.reverse := by
  cases nodes with
  | nil => rfl
  | cons node before => exact (List.reverse_cons).symm

theorem nodes_next (s : Cursor α) : s.next.2.nodes = s.nodes := by
  unfold Cursor.next
  split
  · simp [Cursor.nodes]
  · rfl

theorem nodes_prev (s : Cursor α) : s.prev.2.nodes = s.nodes := by
  cases s with
  | empty => rfl
  | on before node behind =>
    unfold Cursor.prev
    rcases List.eq_nil_or_concat before with rfl | ⟨before, prev, rfl⟩
    · rfl
    · rw [List.concat_eq_append]
      dsimp only
      rw [List.reverse_concat]
      simp [Cursor.nodes]

theorem nodes_appendPriority (s : Cursor α) (content : α) (priority : ℤ) :
    (s.appendPriority content priority).nodes =
      s.nodes.orderedInsert (fun n m => m.2 ≤ n.2) (content, priority) := by
  rw [List.orderedInsert_eq_take_drop]
  simp only [Int.not_le]
  rfl

theorem Sorted.insert {entries nodes : List (α × ℤ)} (h : Sorted entries nodes) (n : α × ℤ) :
    Sorted (entries ++ [n]) (nodes.orderedInsert (fun n m => m.2 ≤ n.2) n) := by
  have : Std.Total fun n m : α × ℤ => m.2 ≤ n.2 := ⟨fun n m => Int.le_total m.2 n.2⟩
  have : IsTrans (α × ℤ) fun n m => m.2 ≤ n.2 := ⟨fun _ _ _ hnm hmk => Int.le_trans hmk hnm⟩
  refine ⟨h.pairwise.orderedInsert n _, fun priority => ?_⟩
  have hsplit : ∀ falls : α × ℤ → Bool, nodes.filter (fun m => decide (m.2 = priority)) =
      (nodes.takeWhile falls).filter (fun m => decide (m.2 = priority)) ++
        (nodes.dropWhile falls).filter (fun m => decide (m.2 = priority)) := fun falls => by
    rw [← List.filter_append, List.takeWhile_append_dropWhile]
  rw [List.orderedInsert_eq_take_drop, List.filter_append, List.filter_append, List.reverse_append,
    ← h.newest_first, List.filter_cons, hsplit fun m => decide ¬m.2 ≤ n.2]
  by_cases hn : n.2 = priority
  · -- nothing in front of `n` has its priority
    have hnone : (nodes.takeWhile fun m => decide ¬m.2 ≤ n.2).filter
        (fun m => decide (m.2 = priority)) = [] := by
      rw [List.filter_eq_nil_iff]
      intro m hm
      have hlt := List.mem_takeWhile_imp (p := fun m : α × ℤ => decide ¬m.2 ≤ n.2) hm
      have hlt : ¬m.2 ≤ n.2 := of_decide_eq_true hlt
      have hne : m.2 ≠ priority := by omega
      simpa using hne
    rw [hnone]
    simp [hn]
  · simp [hn]

theorem Sorted.apply {entries : List (α × ℤ)} (h : Sorted entries s.nodes) {operation : Operation α}
    (hbuilds : operation.Builds) :
    ∃ r, s.apply operation = some r ∧ Sorted (entries ++ operation.entry.toList) r.2.nodes := by
  have hsame : ∀ r : Option α × Cursor α, r.2.nodes = s.nodes → Sorted (entries ++ []) r.2.nodes := by
    intro r hr
    rw [hr, List.append_nil]
    exact h
  cases operation with
  | append content => exact hbuilds.elim
  | insert content => exact hbuilds.elim
  | delete => exact hbuilds.elim
  | appendPriority content priority =>
    refine ⟨_, rfl, ?_⟩
    rw [nodes_appendPriority]
    exact h.insert (content, priority)
  | first => exact ⟨_, rfl, hsame _ (nodes_onFirst _)⟩
  | next => exact ⟨_, rfl, hsame _ (nodes_next s)⟩
  | prev => exact ⟨_, rfl, hsame _ (nodes_prev s)⟩
  | last => exact ⟨_, rfl, hsame _ ((nodes_onLast _).trans (List.reverse_reverse _))⟩

theorem reference_sorted (hbuilds : ∀ operation ∈ operations, operation.Builds) :
    ∃ v, reference operations = some v ∧ Sorted (operations.filterMap Operation.entry) v.1.nodes := by
  suffices h : ∀ (w : Cursor α × List (Option α)) (entries : List (α × ℤ)), Sorted entries w.1.nodes →
      ∃ v, run (step Cursor.apply) w operations = some v ∧
        Sorted (entries ++ operations.filterMap Operation.entry) v.1.nodes from
    h (.empty, []) [] ⟨List.Pairwise.nil, fun _ => rfl⟩
  induction operations with
  | nil => exact fun w entries h => ⟨w, rfl, by rwa [List.filterMap_nil, List.append_nil]⟩
  | cons operation operations ih =>
    intro w entries h
    obtain ⟨hfirst, hrest⟩ := List.forall_mem_cons.1 hbuilds
    obtain ⟨r, hr, hsorted⟩ := h.apply hfirst
    obtain ⟨v, hv, hsorted⟩ := ih hrest (r.2, w.2 ++ [r.1]) _ hsorted
    refine ⟨v, run_cons_eq_some.2 ⟨_, ?_, hv⟩, ?_⟩
    · unfold step
      rw [hr]
      rfl
    · rw [List.append_assoc] at hsorted
      rw [List.filterMap_cons]
      cases hentry : operation.entry with
      | none => rwa [hentry] at hsorted
      | some n => rwa [hentry] at hsorted

/-- After any operations, the nodes represent the sequence that the operations describe, with the same
contents returned, and a list that was built by priority has decreasing priorities with the newest of each
priority first. Stuck are both runs where the sequence is empty at an insertion or a deletion. -/
theorem operations_represent (operations : List (Operation α)) :
    Option.Rel Agrees (history operations) (reference operations) ∧
      ((∀ operation ∈ operations, operation.Builds) →
        ∃ v, reference operations = some v ∧ Sorted (operations.filterMap Operation.entry) v.1.nodes) :=
  ⟨history_reference operations, reference_sorted⟩

/-- Of two contents with one priority the second is the first of the list, a content is inserted behind the
current one, and deleting from an empty list is not survived. -/
theorem history_newest_first :
    (history [.appendPriority 1 0, .appendPriority 2 0, .first]).map Prod.snd =
        some [none, none, some (2 : ℕ)] ∧
      (history [.append 1, .insert 2, .first]).map Prod.snd = some [none, none, some (1 : ℕ)] ∧
      (history [(.delete : Operation ℕ)]).isNone = true :=
  ⟨rfl, rfl, rfl⟩

end Xine.Lists
