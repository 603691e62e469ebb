import Mathlib.Algebra.BigOperators.Group.List.Basic
import Mathlib.Algebra.Order.Ring.Nat

/-!
# Loops that keep a tally

A step that has a cost, and that fails if it is not a sound one or if the tally of the costs comes over a
bound. The loop of such steps over a list is such a step again, so that nested loops are
dealt with from the inside out.
-/

variable {σ α β : Type*}

namespace Loops

variable {step : σ → α → Option σ} {I : σ → Prop} {p : α → Prop} {as : List α} {a : α} {s t : σ}

theorem foldlM_cons_eq_some :
    (a :: as).foldlM step s = some t ↔ ∃ u, step s a = some u ∧ as.foldlM step u = some t := by
  rw [List.foldlM_cons]
  exact Option.bind_eq_some_iff

theorem foldlM_range_succ {β : Type*} (f : β → ℕ → Option β) (b : β) (n : ℕ) :
    (List.range (n + 1)).foldlM f b = ((List.range n).foldlM f b).bind fun c => f c n := by
  rw [List.range_succ, List.foldlM_append]
  refine congrArg (Option.bind _) (funext fun c => ?_)
  rw [List.foldlM_cons]
  exact bind_pure _

theorem exists_foldlM (hstep : ∀ s, I s → ∀ a ∈ as, ∃ t, step s a = some t ∧ I t) (hs : I s) :
    ∃ t, as.foldlM step s = some t ∧ I t := by
  induction as generalizing s with
  | nil => exact ⟨s, rfl, hs⟩
  | cons a as ih =>
    obtain ⟨u, hu, hinv⟩ := hstep s hs a List.mem_cons_self
    obtain ⟨t, ht, hrest⟩ := ih (fun s hs b hb => hstep s hs b (List.mem_cons_of_mem a hb)) hinv
    exact ⟨t, foldlM_cons_eq_some.2 ⟨u, hu, ht⟩, hrest⟩

theorem foldlM_keeps (hstep : ∀ s, I s → ∀ a ∈ as, ∀ t, step s a = some t → I t) (hs : I s)
    (ht : as.foldlM step s = some t) : I t := by
  induction as generalizing s with
  | nil =>
    cases ht
    exact hs
  | cons a as ih =>
    obtain ⟨u, hu, hrest⟩ := foldlM_cons_eq_some.1 ht
    exact ih (fun s hs b hb => hstep s hs b (List.mem_cons_of_mem a hb))
      (hstep s hs a List.mem_cons_self u hu) hrest

theorem forall_of_foldlM (hkeeps : ∀ s a t, I s → step s a = some t → I t ∧ p a) (hs : I s)
    (ht : as.foldlM step s = some t) : ∀ a ∈ as, p a := by
  induction as generalizing s with
  | nil => exact fun _ ha => absurd ha List.not_mem_nil
  | cons a as ih =>
    obtain ⟨u, hu, hrest⟩ := foldlM_cons_eq_some.1 ht
    obtain ⟨hinv, hp⟩ := hkeeps s a u hs hu
    exact List.forall_mem_cons.2 ⟨hp, ih hinv hrest⟩

theorem foldlM_flatMap {step : σ → β → Option σ} {f : α → List β} :
    (as.flatMap f).foldlM step s = as.foldlM (fun s a => (f a).foldlM step s) s := by
  induction as generalizing s with
  | nil => rfl
  | cons a as ih =>
    rw [List.flatMap_cons, List.foldlM_append, List.foldlM_cons]
    exact congrArg _ (funext fun _ => ih)

end Loops

/-- A step that fails if and only if its subject is not `ok` or its cost is too much. `Inv n` holds of the
states with a tally of `n`. -/
structure Tally (bound : ℕ) (Inv : ℕ → σ → Prop) (step : σ → α → Option σ) (ok : α → Prop)
    (cost : α → ℕ) : Prop where
  bounded : ∀ n s, Inv n s → n ≤ bound
  succeeds : ∀ n s a, Inv n s → ((step s a).isSome ↔ ok a ∧ n + cost a ≤ bound)
  keeps : ∀ n s a t, Inv n s → step s a = some t → Inv (n + cost a) t

namespace Tally

open Loops

variable {bound : ℕ} {Inv : ℕ → σ → Prop} {step : σ → α → Option σ} {ok : α → Prop} {cost : α → ℕ}

theorem foldlM (h : Tally bound Inv step ok cost) :
    Tally bound Inv (fun s (as : List α) => as.foldlM step s) (fun as => ∀ a ∈ as, ok a)
      (fun as => (as.map cost).sum) where
  bounded := h.bounded
  succeeds n s as hs := by
    -- by induction on the list
    induction as generalizing n s with
    | nil => exact iff_of_true rfl ⟨fun _ ha => absurd ha List.not_mem_nil, h.bounded n s hs⟩
    | cons a as ih =>
      rw [List.forall_mem_cons, List.map_cons, List.sum_cons, ← Nat.add_assoc]
      constructor
      · intro hsome
        obtain ⟨t, ht⟩ := Option.isSome_iff_exists.1 hsome
        obtain ⟨u, hu, hrest⟩ := foldlM_cons_eq_some.1 ht
        obtain ⟨hok, -⟩ := (h.succeeds n s a hs).1 (by rw [hu]; rfl)
        obtain ⟨hall, hsum⟩ := (ih _ u (h.keeps n s a u hs hu)).1 (by rw [hrest]; rfl)
        exact ⟨⟨hok, hall⟩, hsum⟩
      · rintro ⟨⟨hok, hall⟩, hsum⟩
        have hle : n + cost a ≤ bound := (Nat.le_add_right _ _).trans hsum
        obtain ⟨u, hu⟩ := Option.isSome_iff_exists.1 ((h.succeeds n s a hs).2 ⟨hok, hle⟩)
        obtain ⟨t, ht⟩ := Option.isSome_iff_exists.1
          ((ih _ u (h.keeps n s a u hs hu)).2 ⟨hall, hsum⟩)
        exact Option.isSome_iff_exists.2 ⟨t, foldlM_cons_eq_some.2 ⟨u, hu, ht⟩⟩
  keeps n s as t hs ht := by
    induction as generalizing n s with
    | nil =>
      cases ht
      exact hs
    | cons a as ih =>
      obtain ⟨u, hu, hrest⟩ := foldlM_cons_eq_some.1 ht
      rw [List.map_cons, List.sum_cons, ← Nat.add_assoc]
      exact ih _ u (h.keeps n s a u hs hu) hrest

theorem comap (h : Tally bound Inv step ok cost) {step' : σ → β → Option σ} {f : β → α}
    {g : σ → β → Option σ} {r : β → Prop}
    (hstep : ∀ s b, step' s b = (g s b).bind fun s => step s (f b))
    (hsome : ∀ n s b, Inv n s → ((g s b).isSome ↔ r b))
    (hinv : ∀ n s b t, Inv n s → g s b = some t → Inv n t) :
    Tally bound Inv step' (fun b => r b ∧ ok (f b)) (fun b => cost (f b)) where
  bounded := h.bounded
  succeeds n s b hs := by
    rw [hstep]
    cases hg : g s b with
    | none =>
      refine iff_of_false Bool.false_ne_true fun hok => ?_
      have hready := (hsome n s b hs).2 hok.1.1
      rw [hg] at hready
      exact Bool.false_ne_true hready
    | some t =>
      have hready : r b := (hsome n s b hs).1 (by rw [hg]; rfl)
      rw [Option.bind_some, h.succeeds n t (f b) (hinv n s b t hs hg), and_iff_right hready]
  keeps n s b t hs ht := by
    rw [hstep] at ht
    obtain ⟨u, hu, hrest⟩ := Option.bind_eq_some_iff.1 ht
    exact h.keeps n u (f b) t (hinv n s b u hs hu) hrest

theorem each {step : β → σ → α → Option σ} {ok : β → α → Prop} {cost : β → α → ℕ} {f : β → α}
    (h : ∀ b, Tally bound Inv (step b) (ok b) (cost b)) (hbounded : ∀ n s, Inv n s → n ≤ bound) :
    Tally bound Inv (fun s b => step b s (f b)) (fun b => ok b (f b)) (fun b => cost b (f b)) where
  bounded := hbounded
  succeeds n s b := (h b).succeeds n s (f b)
  keeps n s b := (h b).keeps n s (f b)

theorem congr (h : Tally bound Inv step ok cost) {ok' : α → Prop} {cost' : α → ℕ}
    (hok : ∀ a, ok a ↔ ok' a) (hcost : ∀ a, cost a = cost' a) : Tally bound Inv step ok' cost' := by
  have hok' : ok = ok' := funext fun a => propext (hok a)
  have hcost' : cost = cost' := funext hcost
  exact hok' ▸ hcost' ▸ h

end Tally
