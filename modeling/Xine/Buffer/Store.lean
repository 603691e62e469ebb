import Xine.Buffer.System

/-!
# The abstract fifo keeps its elements

Every action of `Store.step` moves one element from one place to another, except a clear, which splits the queue
in two.
-/

namespace Xine.Buffer

variable {τ : Type*} [DecidableEq τ]

namespace Store

omit [DecidableEq τ] in
theorem count_eq_of_head? {l : List Elem} {e : Elem} (h : l.head? = some e) (x : Elem) :
    l.count x = l.tail.count x + if e = x then 1 else 0 := by
  obtain ⟨l', rfl⟩ := List.head?_eq_some_iff.1 h
  simp [List.count_cons]

omit [DecidableEq τ] in
theorem count_filter_add (l : List Elem) (p : Elem → Bool) (x : Elem) :
    (l.filter p).count x + (l.filter fun e => !p e).count x = l.count x := by
  induction l with
  | nil => simp
  | cons a l ih =>
    cases hp : p a
    · simp only [List.filter_cons, hp, List.count_cons, Bool.not_false, if_true]
      simp only [Bool.false_eq_true, if_false]
      omega
    · simp only [List.filter_cons, hp, List.count_cons, Bool.not_true, if_true]
      simp only [Bool.false_eq_true, if_false]
      omega

omit [DecidableEq τ] in
theorem held_update (owner : Elem → Option τ) (e x : Elem) (o : Option τ) :
    (if Function.update owner e o x = none then 0 else 1 : ℕ) =
      if e = x then (if o = none then 0 else 1) else (if owner x = none then 0 else 1) := by
  by_cases h : e = x
  · subst h
    simp
  · rw [Function.update_of_ne (Ne.symm h), if_neg h]

omit [DecidableEq τ] in
theorem owner_eq_none_of_head? {a : Store τ} (hone : ∀ x, a.places x ≤ 1) {e : Elem}
    (h : a.pool.head? = some e ∨ a.queue.head? = some e ∨ a.limbo.head? = some e) :
    a.owner e = none := by
  have hplaces := hone e
  unfold places at hplaces
  have hcount : 1 ≤ a.pool.count e + a.queue.count e + a.limbo.count e := by
    rcases h with h | h | h
    · have := count_eq_of_head? h e
      simp at this
      omega
    · have := count_eq_of_head? h e
      simp at this
      omega
    · have := count_eq_of_head? h e
      simp at this
      omega
  by_contra hne
  rw [if_neg hne] at hplaces
  omega

theorem places_step {a b : Store τ} {act : Action τ} (hone : ∀ x, a.places x ≤ 1)
    (hidle : a.clearing = none → a.limbo = []) (h : a.step act = some b) (x : Elem) :
    b.places x = a.places x := by
  cases act with
  | put t e =>
    simp only [step, Option.ite_none_right_eq_some, Option.some.injEq] at h
    obtain ⟨⟨ho, -⟩, rfl⟩ := h
    have hheld : a.owner e ≠ none := by simp [ho]
    simp only [places, held_update, List.count_append, List.count_singleton, beq_iff_eq]
    by_cases hx : e = x
    · subst hx
      simp only [if_true, if_neg hheld]
      omega
    · simp [hx]
  | insert t e =>
    simp only [step, Option.ite_none_right_eq_some, Option.some.injEq] at h
    obtain ⟨⟨ho, -⟩, rfl⟩ := h
    have hheld : a.owner e ≠ none := by simp [ho]
    simp only [places, held_update, List.count_cons, beq_iff_eq]
    by_cases hx : e = x
    · subst hx
      simp only [if_true, if_neg hheld]
      omega
    · simp [hx]
  | get t e =>
    simp only [step, Option.ite_none_right_eq_some, Option.some.injEq] at h
    obtain ⟨⟨-, hq⟩, rfl⟩ := h
    have hfree := owner_eq_none_of_head? hone (.inr (.inl hq))
    simp only [places, held_update, count_eq_of_head? hq x]
    by_cases hx : e = x
    · subst hx
      simp only [if_true, if_pos hfree]
      simp
      omega
    · simp [hx]
  | alloc t e =>
    simp only [step, Option.ite_none_right_eq_some, Option.some.injEq] at h
    obtain ⟨⟨-, hq⟩, rfl⟩ := h
    have hfree := owner_eq_none_of_head? hone (.inl hq)
    simp only [places, held_update, count_eq_of_head? hq x]
    by_cases hx : e = x
    · subst hx
      simp only [if_true, if_pos hfree]
      simp
      omega
    · simp [hx]
  | tryAlloc t r =>
    simp only [step, Option.ite_none_right_eq_some] at h
    obtain ⟨hq, h⟩ := h
    cases r with
    | none =>
      obtain rfl : a = b := by simpa using h
      rfl
    | some e =>
      cases h
      have hfree := owner_eq_none_of_head? hone (.inl hq)
      simp only [places, held_update, count_eq_of_head? hq x]
      by_cases hx : e = x
      · subst hx
        simp only [if_true, if_pos hfree]
        simp
        omega
      · simp [hx]
  | free t e =>
    simp only [step, Option.ite_none_right_eq_some, Option.some.injEq] at h
    obtain ⟨ho, rfl⟩ := h
    have hheld : a.owner e ≠ none := by simp [ho]
    simp only [places, held_update, List.count_cons, beq_iff_eq]
    by_cases hx : e = x
    · subst hx
      simp only [if_true, if_neg hheld]
      omega
    · simp [hx]
  | fill t e b' =>
    simp only [step, Option.ite_none_right_eq_some, Option.some.injEq] at h
    obtain ⟨-, rfl⟩ := h
    rfl
  | clear t =>
    simp only [step, Option.ite_none_right_eq_some, Option.some.injEq] at h
    obtain ⟨hc, rfl⟩ := h
    have hsplit := count_filter_add a.queue a.control x
    simp only [places, hidle (by simpa using hc), List.count_nil]
    omega
  | clearScan t =>
    simp only [step, Option.ite_none_right_eq_some, Option.some.injEq] at h
    obtain ⟨-, rfl⟩ := h
    rfl
  | clearFree t e =>
    simp only [step, Option.ite_none_right_eq_some, Option.some.injEq] at h
    obtain ⟨⟨-, hq⟩, rfl⟩ := h
    simp only [places, count_eq_of_head? hq x, List.count_cons, beq_iff_eq]
    omega
  | clearEnd t =>
    simp only [step, Option.ite_none_right_eq_some, Option.some.injEq] at h
    obtain ⟨-, rfl⟩ := h
    rfl

theorem inv_step {n : ℕ} {a b : Store τ} {act : Action τ} (ha : a.Inv n)
    (h : a.step act = some b) : b.Inv n := by
  have hone : ∀ x, a.places x ≤ 1 := fun x => by
    rw [ha.places_eq x]
    split_ifs <;> omega
  refine ⟨fun e => ?_, ?_⟩
  · rw [places_step hone ha.limbo_eq_nil h e, ha.places_eq e]
  · have hidle := ha.limbo_eq_nil
    cases act with
    | clear t =>
      simp only [step, Option.ite_none_right_eq_some, Option.some.injEq] at h
      obtain ⟨-, rfl⟩ := h
      simp
    | clearFree t e =>
      simp only [step, Option.ite_none_right_eq_some, Option.some.injEq] at h
      obtain ⟨⟨hc, -⟩, rfl⟩ := h
      simp [hc]
    | clearEnd t =>
      simp only [step, Option.ite_none_right_eq_some, Option.some.injEq] at h
      obtain ⟨⟨-, hl⟩, rfl⟩ := h
      exact fun _ => hl
    | tryAlloc t r =>
      simp only [step, Option.ite_none_right_eq_some] at h
      obtain ⟨-, h⟩ := h
      cases r with
      | none =>
        obtain rfl : a = b := by simpa using h
        exact hidle
      | some e =>
        cases h
        exact hidle
    | _ =>
      simp only [step, Option.ite_none_right_eq_some, Option.some.injEq] at h
      obtain ⟨-, rfl⟩ := h
      exact hidle

omit [DecidableEq τ] in
theorem inv_initial (n : ℕ) (control : Elem → Bool) : (initial n control : Store τ).Inv n := by
  refine ⟨fun e => ?_, fun _ => rfl⟩
  simp only [places, initial, List.count_reverse, List.count_nil, if_true, add_zero]
  by_cases he : e < n
  · rw [if_pos he]
    exact List.count_eq_one_of_mem List.nodup_range (List.mem_range.2 he)
  · rw [if_neg he]
    exact List.count_eq_zero_of_not_mem (by simpa using he)

/-! ## What one place means -/

section Inv

variable {n : ℕ} {a : Store τ} {e : Elem}

omit [DecidableEq τ] in
theorem Inv.places_le_one (ha : a.Inv n) (e : Elem) : a.places e ≤ 1 := by
  rw [ha.places_eq e]
  split_ifs <;> omega

omit [DecidableEq τ] in
theorem Inv.not_mem_of_owner (ha : a.Inv n) (h : a.owner e ≠ none) :
    e ∉ a.pool ∧ e ∉ a.queue ∧ e ∉ a.limbo := by
  have hone := ha.places_le_one e
  unfold places at hone
  rw [if_neg h] at hone
  simp only [← List.count_eq_zero]
  omega

omit [DecidableEq τ] in
theorem Inv.not_mem_of_pool (ha : a.Inv n) (h : e ∈ a.pool) : e ∉ a.queue ∧ e ∉ a.limbo := by
  have hone := ha.places_le_one e
  have hpool := List.count_pos_iff.2 h
  unfold places at hone
  simp only [← List.count_eq_zero]
  omega

omit [DecidableEq τ] in
theorem Inv.not_mem_of_limbo (ha : a.Inv n) (h : e ∈ a.limbo) : e ∉ a.pool ∧ e ∉ a.queue := by
  have hone := ha.places_le_one e
  have hlimbo := List.count_pos_iff.2 h
  unfold places at hone
  simp only [← List.count_eq_zero]
  omega

omit [DecidableEq τ] in
theorem Inv.pool_length_lt (ha : a.Inv n) (he : 0 < a.places e) (h : e ∉ a.pool) :
    a.pool.length < n := by
  have hmem : ∀ x ∈ e :: a.pool, x ∈ List.range n := by
    intro x hx
    have hplace : 0 < a.places x := by
      rcases List.mem_cons.1 hx with rfl | hx
      · exact he
      · have hpos := List.count_pos_iff.2 hx
        unfold places
        omega
    rw [ha.places_eq x] at hplace
    by_contra hn
    rw [List.mem_range] at hn
    simp [hn] at hplace
  have hnodup : (e :: a.pool).Nodup := by
    refine List.nodup_cons.2 ⟨h, List.nodup_iff_count_le_one.2 fun x => ?_⟩
    have hone := ha.places_le_one x
    unfold places at hone
    omega
  have hlength := (List.subperm_of_subset hnodup hmem).length_le
  rw [List.length_cons, List.length_range] at hlength
  omega

end Inv

/-! ## Clears -/

/-- The elements that a clear puts back into the pool, in the order of the actions. -/
def freed : List (Action τ) → List Elem
  | [] => []
  | .clearFree _ e :: as => e :: freed as
  | _ :: as => freed as

/-- An action other than `clearEnd`. -/
def NotEnd : Action τ → Prop
  | .clearEnd _ => False
  | _ => True

theorem clearing_step {a b : Store τ} {t : τ} {act : Action τ} (hc : a.clearing = some t)
    (hact : NotEnd act) (h : a.step act = some b) :
    b.clearing = some t ∧ b.queue = a.queue ∧ freed [act] ++ b.limbo = a.limbo := by
  have hbusy : a.clearing.isNone = false := by simp [hc]
  cases act with
  | clearFree u e =>
    simp only [step, Option.ite_none_right_eq_some, Option.some.injEq] at h
    obtain ⟨⟨-, hl⟩, rfl⟩ := h
    obtain ⟨l, hl⟩ := List.head?_eq_some_iff.1 hl
    simp [hc, hl, freed]
  | clearEnd u => exact absurd hact id
  | tryAlloc u r =>
    simp only [step, Option.ite_none_right_eq_some] at h
    obtain ⟨-, h⟩ := h
    cases r with
    | none =>
      obtain rfl : a = b := by simpa using h
      exact ⟨hc, rfl, rfl⟩
    | some e =>
      cases h
      exact ⟨hc, rfl, rfl⟩
  | put u e | insert u e | get u e | clear u => simp [step, hbusy] at h
  | alloc u e | free u e | fill u e b' | clearScan u =>
    simp only [step, Option.ite_none_right_eq_some, Option.some.injEq] at h
    obtain ⟨-, rfl⟩ := h
    exact ⟨hc, rfl, rfl⟩

omit [DecidableEq τ] in
theorem freed_append (as bs : List (Action τ)) : freed (as ++ bs) = freed as ++ freed bs := by
  induction as with
  | nil => rfl
  | cons act as ih => cases act <;> simp [freed, ih]

theorem clearing_run {a b : Store τ} {t : τ} {as : List (Action τ)} (hc : a.clearing = some t)
    (has : ∀ act ∈ as, NotEnd act) (h : Runs.run step a as = some b) :
    b.clearing = some t ∧ b.queue = a.queue ∧ freed as ++ b.limbo = a.limbo := by
  induction as generalizing a with
  | nil =>
    obtain rfl : a = b := by simpa using h
    exact ⟨hc, rfl, rfl⟩
  | cons act as ih =>
    obtain ⟨c, hac, hcb⟩ := Runs.run_cons_eq_some.1 h
    obtain ⟨hcc, hqc, hlc⟩ := clearing_step hc (has act (by simp)) hac
    obtain ⟨hcb, hqb, hlb⟩ := ih hcc (fun x hx => has x (List.mem_cons_of_mem _ hx)) hcb
    refine ⟨hcb, hqb.trans hqc, ?_⟩
    rw [← List.singleton_append, freed_append, List.append_assoc, hlb, hlc]

/-- A clear, whatever other threads do while it runs: the control elements of the queue stay in it in
their order, and the others have been put back into the pool, each once and in their order. -/
theorem clear_of_run {a b : Store τ} {t u : τ} {as : List (Action τ)}
    (has : ∀ act ∈ as, NotEnd act)
    (h : Runs.run step a (.clear t :: as ++ [.clearEnd u]) = some b) :
    b.queue = a.queue.filter a.control ∧ freed as = a.queue.filter fun e => !a.control e := by
  obtain ⟨d, hd, hdb⟩ := Runs.run_concat_eq_some.1 h
  obtain ⟨c, hac, hcd⟩ := Runs.run_cons_eq_some.1 hd
  simp only [step, Option.ite_none_right_eq_some, Option.some.injEq] at hac hdb
  obtain ⟨-, rfl⟩ := hac
  obtain ⟨⟨-, hlimbo⟩, rfl⟩ := hdb
  obtain ⟨-, hqueue, hfreed⟩ := clearing_run (t := t) rfl has hcd
  refine ⟨hqueue, ?_⟩
  rw [hlimbo, List.append_nil] at hfreed
  exact hfreed

end Store

end Xine.Buffer
