import Mathlib.Algebra.Order.Ring.Int
import Mathlib.Data.List.Basic

/-!
# Recursions with fuel

A recursion that takes fuel settles to a result if it gives that result from some fuel on.
-/

namespace Fuel

variable {α β : Type*} {f : ℕ → Option α} {r r' : Option α} {s : Option β}

/-- From some fuel on, the recursion gives this result. -/
def Settles (f : ℕ → Option α) (r : Option α) : Prop := ∃ n, ∀ fuel, n ≤ fuel → f fuel = r

theorem Settles.unique (h : Settles f r) (h' : Settles f r') : r = r' := by
  obtain ⟨n, hn⟩ := h
  obtain ⟨m, hm⟩ := h'
  calc r = f (max n m) := (hn _ (Nat.le_max_left n m)).symm
    _ = r' := hm _ (Nat.le_max_right n m)

theorem Settles.const (r : Option α) : Settles (fun _ => r) r := ⟨0, fun _ _ => rfl⟩

theorem Settles.congr {g : ℕ → Option α} (h : Settles g r) (heq : ∃ n, ∀ fuel, n ≤ fuel → f fuel = g fuel) :
    Settles f r := by
  obtain ⟨n, hn⟩ := h
  obtain ⟨m, hm⟩ := heq
  refine ⟨max n m, fun fuel hfuel => ?_⟩
  exact (hm fuel (Nat.le_trans (Nat.le_max_right n m) hfuel)).trans
    (hn fuel (Nat.le_trans (Nat.le_max_left n m) hfuel))

theorem Settles.succ {g : ℕ → Option α} (hcall : ∀ fuel, f (fuel + 1) = g fuel) (h : Settles g r) :
    Settles f r := by
  obtain ⟨n, hn⟩ := h
  refine ⟨n + 1, fun fuel hfuel => ?_⟩
  cases fuel with
  | zero => exact absurd hfuel (Nat.not_succ_le_zero n)
  | succ fuel => exact (hcall fuel).trans (hn fuel (Nat.le_of_succ_le_succ hfuel))

theorem Settles.of_succ {g : ℕ → Option α} (hcall : ∀ fuel, f (fuel + 1) = g fuel) (h : Settles f r) :
    Settles g r := by
  obtain ⟨n, hn⟩ := h
  exact ⟨n, fun fuel hfuel => (hcall fuel).symm.trans (hn _ (Nat.le_succ_of_le hfuel))⟩

theorem Settles.bind {g : α → ℕ → Option β} (h : Settles f r) (hnone : r = none → s = none)
    (hnext : ∀ a, r = some a → Settles (g a) s) : Settles (fun fuel => (f fuel).bind fun a => g a fuel) s := by
  obtain ⟨n, hn⟩ := h
  cases r with
  | none =>
    refine ⟨n, fun fuel hfuel => ?_⟩
    dsimp only
    rw [hn fuel hfuel, hnone rfl]
    rfl
  | some a =>
    obtain ⟨m, hm⟩ := hnext a rfl
    refine ⟨max n m, fun fuel hfuel => ?_⟩
    have hfirst : f fuel = some a := hn fuel (Nat.le_trans (Nat.le_max_left n m) hfuel)
    dsimp only
    rw [hfirst]
    exact hm fuel (Nat.le_trans (Nat.le_max_right n m) hfuel)

theorem Settles.bind_some {g : α → ℕ → Option β} {a : α} (h : Settles f (some a)) (hnext : Settles (g a) s) :
    Settles (fun fuel => (f fuel).bind fun a => g a fuel) s := by
  refine h.bind (fun hnone => absurd hnone (Option.some_ne_none a)) fun found hfound => ?_
  cases hfound
  exact hnext

theorem Settles.of_bind {g : α → ℕ → Option β} {a : α} (h : Settles f (some a))
    (hbind : Settles (fun fuel => (f fuel).bind fun a => g a fuel) s) : Settles (g a) s := by
  obtain ⟨n, hn⟩ := h
  obtain ⟨m, hm⟩ := hbind
  refine ⟨max n m, fun fuel hfuel => ?_⟩
  have hfirst : f fuel = some a := hn fuel (Nat.le_trans (Nat.le_max_left n m) hfuel)
  have hboth := hm fuel (Nat.le_trans (Nat.le_max_right n m) hfuel)
  dsimp only at hboth
  rwa [hfirst] at hboth

theorem Settles.map (g : α → β) (h : Settles f r) : Settles (fun fuel => (f fuel).map g) (r.map g) := by
  obtain ⟨n, hn⟩ := h
  exact ⟨n, fun fuel hfuel => congrArg (Option.map g) (hn fuel hfuel)⟩

theorem Settles.of_map {g : α → β} (hg : Function.Injective g) {b : β}
    (h : Settles (fun fuel => (f fuel).map g) (some b)) : ∃ a, Settles f (some a) ∧ g a = b := by
  obtain ⟨n, hn⟩ := h
  obtain ⟨a, -, ha⟩ := Option.map_eq_some_iff.1 (hn n (Nat.le_refl n))
  refine ⟨a, ⟨n, fun fuel hfuel => ?_⟩, ha⟩
  obtain ⟨c, hc, hgc⟩ := Option.map_eq_some_iff.1 (hn fuel hfuel)
  rw [hc, hg (hgc.trans ha.symm)]

/-- A recursion that keeps to a result once there is one. -/
def Stable (f : ℕ → Option α) : Prop := ∀ n a, f n = some a → ∀ fuel, n ≤ fuel → f fuel = some a

theorem Stable.settles (h : Stable f) {n : ℕ} {a : α} (hn : f n = some a) : Settles f (some a) :=
  ⟨n, h n a hn⟩

theorem Stable.settles_or_none (h : Stable f) : (∃ a, Settles f (some a)) ∨ ∀ n, f n = none := by
  by_cases hsome : ∃ n a, f n = some a
  · obtain ⟨n, a, hn⟩ := hsome
    exact .inl ⟨a, h.settles hn⟩
  · refine .inr fun n => ?_
    cases hn : f n with
    | none => rfl
    | some a => exact absurd ⟨n, a, hn⟩ hsome

theorem Stable.const (r : Option α) : Stable fun _ => r := fun _ _ h _ _ => h

theorem Stable.exists_settles {g : α → ℕ → Option β} (h : Stable f) (hg : ∀ a, Stable (g a)) {b : β}
    (hbind : Settles (fun fuel => (f fuel).bind fun a => g a fuel) (some b)) :
    ∃ a, Settles f (some a) ∧ Settles (g a) (some b) := by
  obtain ⟨n, hn⟩ := hbind
  obtain ⟨a, ha, hb⟩ := Option.bind_eq_some_iff.1 (hn n (Nat.le_refl n))
  exact ⟨a, h.settles ha, (hg a).settles hb⟩

theorem Stable.bind {g : α → ℕ → Option β} (h : Stable f) (hg : ∀ a, Stable (g a)) :
    Stable fun fuel => (f fuel).bind fun a => g a fuel := by
  intro n b hn fuel hle
  obtain ⟨a, ha, hb⟩ := Option.bind_eq_some_iff.1 hn
  exact Option.bind_eq_some_iff.2 ⟨a, h n a ha fuel hle, hg a n b hb fuel hle⟩

theorem Stable.map (h : Stable f) (g : α → β) : Stable fun fuel => (f fuel).map g := by
  intro n b hn fuel hle
  obtain ⟨a, ha, rfl⟩ := Option.map_eq_some_iff.1 hn
  exact congrArg (Option.map g) (h n a ha fuel hle)

end Fuel

/-!
## Walks

A walk takes one step after another until there is none. A walk each step of which raises a bounded
measure ends, and one that comes back to where it is does not.
A loop with fuel whose rounds are the steps of a walk (`Rounds`) settles to a result if and only if no
round that the walk comes to fails.
-/

namespace Walks

variable {σ α : Type*} {step : σ → Option σ} {m : σ → ℤ} {s t u : σ} {bound : ℤ}

/-- The walk from `s` comes to `t`. -/
def Reaches (step : σ → Option σ) : σ → σ → Prop := Relation.ReflTransGen fun t u => step t = some u

/-- Where the walk is after some steps, if there are as many. -/
def after (step : σ → Option σ) : ℕ → σ → Option σ
  | 0, s => some s
  | n + 1, s => (step s).bind (after step n)

/-- The walk ends. -/
def Ends (step : σ → Option σ) (s : σ) : Prop := ∃ n, after step n s = none

/-- Each step of the walk raises the measure. -/
def Advances (step : σ → Option σ) (m : σ → ℤ) (s : σ) : Prop :=
  ∀ t, Reaches step s t → ∀ u, step t = some u → m t < m u

theorem reaches_refl : Reaches step s s := .refl

theorem Reaches.next (h : Reaches step s t) (hu : step t = some u) : Reaches step s u := h.tail hu

theorem Reaches.first (ht : step s = some t) (h : Reaches step t u) : Reaches step s u := h.head ht

theorem Advances.tail (h : Advances step m s) (ht : step s = some t) : Advances step m t :=
  fun u hu => h u (hu.first ht)

theorem Reaches.invariant {I : σ → Prop} (hs : I s)
    (hstep : ∀ t, Reaches step s t → I t → ∀ u, step t = some u → I u) (h : Reaches step s t) :
    I t := by
  induction h with
  | refl => exact hs
  | tail hreach hu ih => exact hstep _ hreach ih _ hu

theorem Reaches.eq_of_ends (h : Reaches step s t) (h' : Reaches step s u) (ht : step t = none)
    (hu : step u = none) : t = u := by
  induction h using Relation.ReflTransGen.head_induction_on with
  | refl =>
    obtain rfl | ⟨v, hv, -⟩ := h'.cases_head
    · rfl
    · exact absurd (ht.symm.trans hv) (Option.some_ne_none v).symm
  | head hv hreach ih =>
    obtain rfl | ⟨w, hw, hrest⟩ := h'.cases_head
    · exact absurd (hu.symm.trans hv) (Option.some_ne_none _).symm
    · obtain rfl := Option.some.inj (hv.symm.trans hw)
      exact ih hrest

theorem Reaches.follows {τ : Type*} {step' : τ → Option τ} {f : σ → τ} {i : τ}
    (hstep : ∀ t u, step t = some u → step' (f t) = some (f u)) (h : Reaches step s t)
    (hend : step' (f t) = none) (hi : Reaches step' (f s) i) :
    ∃ u, Reaches step s u ∧ Reaches step u t ∧ f u = i := by
  induction h using Relation.ReflTransGen.head_induction_on with
  | refl =>
    obtain rfl | ⟨j, hj, -⟩ := hi.cases_head
    · exact ⟨t, .refl, .refl, rfl⟩
    · exact absurd (hend.symm.trans hj) (Option.some_ne_none j).symm
  | @head s v hv hreach ih =>
    obtain rfl | ⟨j, hj, hrest⟩ := hi.cases_head
    · exact ⟨s, .refl, hreach.head hv, rfl⟩
    · obtain rfl := Option.some.inj ((hstep s v hv).symm.trans hj)
      obtain ⟨u, hu, hbehind, hplace⟩ := ih hrest
      exact ⟨u, hu.head hv, hbehind, hplace⟩

theorem Advances.ends (h : Advances step m s)
    (hbound : ∀ t, Reaches step s t → ∀ u, step t = some u → m u ≤ bound) : Ends step s := by
  obtain ⟨n, hn⟩ : ∃ n : ℕ, bound - m s < n := ⟨(bound - m s + 1).toNat, by omega⟩
  induction n generalizing s with
  | zero =>
    refine ⟨1, ?_⟩
    cases hs : step s with
    | none =>
      unfold after
      rw [hs]
      rfl
    | some t =>
      have hlt := h s reaches_refl t hs
      have hle := hbound s reaches_refl t hs
      omega
  | succ n ih =>
    cases hs : step s with
    | none =>
      refine ⟨1, ?_⟩
      unfold after
      rw [hs]
      rfl
    | some t =>
      have hlt := h s reaches_refl t hs
      obtain ⟨k, hk⟩ := ih (h.tail hs) (fun u hu => hbound u (hu.first hs)) (by omega)
      refine ⟨k + 1, ?_⟩
      unfold after
      rw [hs]
      exact hk

theorem not_ends_of_step_self (h : step s = some s) : ¬Ends step s := by
  rintro ⟨n, hn⟩
  induction n with
  | zero => exact Option.some_ne_none s hn
  | succ n ih =>
    unfold after at hn
    rw [h] at hn
    exact ih hn

/-! ## Loops with fuel -/

/-- A loop with fuel whose rounds are the steps of a walk. A round from a state that is not `Ok` fails, and
one where the walk ends gives the result. Each step keeps `Inv`, and leaves less to do. -/
structure Rounds (loop : ℕ → σ → Option α) (step : σ → Option σ) (Ok Inv : σ → Prop) (out : σ → α)
    (left : σ → ℕ) : Prop where
  fails : ∀ s, Inv s → ¬Ok s → ∀ fuel, loop (fuel + 1) s = none
  stops : ∀ s, Inv s → Ok s → step s = none → ∀ fuel, loop (fuel + 1) s = some (out s)
  goes : ∀ s, Inv s → Ok s → ∀ t, step s = some t → ∀ fuel, loop (fuel + 1) s = loop fuel t
  keeps : ∀ s, Inv s → ∀ t, step s = some t → Inv t ∧ left t < left s

variable {loop : ℕ → σ → Option α} {Ok Inv : σ → Prop} {out : σ → α} {left : σ → ℕ} {v : α}

theorem Rounds.inv (h : Rounds loop step Ok Inv out left) (hs : Inv s) (ht : Reaches step s t) : Inv t :=
  ht.invariant hs fun _ _ hinv _ hu => (h.keeps _ hinv _ hu).1

theorem Rounds.settles (h : Rounds loop step Ok Inv out left) (hs : Inv s)
    (hok : ∀ t, Reaches step s t → Ok t) :
    ∃ t, Reaches step s t ∧ step t = none ∧ Fuel.Settles (fun fuel => loop fuel s) (some (out t)) := by
  -- by induction on what is left to do
  induction hn : left s using Nat.strong_induction_on generalizing s with
  | h n ih =>
    cases hstep : step s with
    | none =>
      have hround := h.stops s hs (hok s reaches_refl) hstep
      exact ⟨s, reaches_refl, hstep, Fuel.Settles.succ hround (Fuel.Settles.const _)⟩
    | some u =>
      obtain ⟨hu, hlt⟩ := h.keeps s hs u hstep
      have hoku : ∀ t, Reaches step u t → Ok t := fun t ht => hok t (ht.first hstep)
      obtain ⟨t, hreach, hend, hsettles⟩ := ih (left u) (hn ▸ hlt) hu hoku rfl
      have hround := h.goes s hs (hok s reaches_refl) u hstep
      exact ⟨t, hreach.first hstep, hend, Fuel.Settles.succ hround hsettles⟩

theorem Rounds.ok (h : Rounds loop step Ok Inv out left) (hs : Inv s)
    (hv : Fuel.Settles (fun fuel => loop fuel s) (some v)) (ht : Reaches step s t) : Ok t := by
  have hround : ∀ u, Inv u → Fuel.Settles (fun fuel => loop fuel u) (some v) → Ok u := by
    intro u hu hsettles
    by_contra hok
    have hnone := Fuel.Settles.of_succ (h.fails u hu hok) hsettles
    exact Option.some_ne_none v (hnone.unique (Fuel.Settles.const none))
  let Settled u := Inv u ∧ Fuel.Settles (fun fuel => loop fuel u) (some v)
  have hstart : Settled s := ⟨hs, hv⟩
  have hall : Settled t := by
    refine ht.invariant hstart ?_
    rintro u - ⟨hu, hsettles⟩ w hw
    exact ⟨(h.keeps u hu w hw).1,
      Fuel.Settles.of_succ (h.goes u hu (hround u hu hsettles) w hw) hsettles⟩
  exact hround t hall.1 hall.2

theorem Rounds.settles_iff (h : Rounds loop step Ok Inv out left) (hs : Inv s) :
    (∃ v, Fuel.Settles (fun fuel => loop fuel s) (some v)) ↔ ∀ t, Reaches step s t → Ok t := by
  constructor
  · rintro ⟨v, hv⟩ t ht
    exact h.ok hs hv ht
  · intro hok
    obtain ⟨t, -, -, hsettles⟩ := h.settles hs hok
    exact ⟨_, hsettles⟩

end Walks
