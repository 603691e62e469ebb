import Mathlib.Data.List.Basic

/-!
# Runs of a step function

A system is a partial function `step : σ → α → Option σ`, from a state and an action to the next state, which is
`none` when the action is not enabled. A run is a list of actions, each enabled when its turn comes; an
interleaving of several threads is a run whose actions name the thread that takes them. Since every prefix of a
run is a run, a property of the last state of every run is a property of every state that the system reaches.

`run_invariant` is the induction over runs, `guarded_invariant` the same for the runs whose actions all meet a
condition in the state they are taken from, and `guarded_iff` adds the converse. `run_simulation` carries a run of
one system to a run of another.
-/

namespace Runs

variable {σ τ α : Type*}

/-- The state after a list of actions, if each of them is enabled when its turn comes. -/
def run (step : σ → α → Option σ) : σ → List α → Option σ
  | s, [] => some s
  | s, a :: as => (step s a).bind fun t => run step t as

@[simp] theorem run_nil (step : σ → α → Option σ) (s : σ) : run step s [] = some s := rfl

theorem run_cons_eq_some {step : σ → α → Option σ} {s u : σ} {a : α} {as : List α} :
    run step s (a :: as) = some u ↔ ∃ t, step s a = some t ∧ run step t as = some u := by
  simp [run, Option.bind_eq_some_iff]

theorem run_append_eq_some {step : σ → α → Option σ} {u : σ} {as bs : List α} {s : σ} :
    run step s (as ++ bs) = some u ↔ ∃ t, run step s as = some t ∧ run step t bs = some u := by
  induction as generalizing s with
  | nil => simp
  | cons a as ih =>
    simp only [List.cons_append, run_cons_eq_some, ih]
    constructor
    · rintro ⟨r, hr, t, ht, hu⟩
      exact ⟨t, ⟨r, hr, ht⟩, hu⟩
    · rintro ⟨t, ⟨r, hr, ht⟩, hu⟩
      exact ⟨r, hr, t, ht, hu⟩

theorem run_concat_eq_some {step : σ → α → Option σ} {s u : σ} {as : List α} {a : α} :
    run step s (as ++ [a]) = some u ↔ ∃ t, run step s as = some t ∧ step t a = some u := by
  simp [run_append_eq_some, run]

theorem run_invariant {step : σ → α → Option σ} {Inv : σ → Prop}
    (hstep : ∀ s a t, Inv s → step s a = some t → Inv t) {s u : σ} {as : List α} (hs : Inv s)
    (h : run step s as = some u) : Inv u := by
  induction as generalizing s with
  | nil =>
    obtain rfl : s = u := by simpa using h
    exact hs
  | cons a as ih =>
    obtain ⟨t, ht, hu⟩ := run_cons_eq_some.1 h
    exact ih (hstep s a t hs ht) hu

/-- Every action of the run meets `ok` in the state that it is taken from. -/
def Guarded (step : σ → α → Option σ) (ok : σ → α → Prop) : σ → List α → Prop
  | _, [] => True
  | s, a :: as => ok s a ∧ ∀ t, step s a = some t → Guarded step ok t as

instance instDecidableGuarded {step : σ → α → Option σ} {ok : σ → α → Prop}
    [∀ s a, Decidable (ok s a)] : ∀ as s, Decidable (Guarded step ok s as)
  | [], _ => isTrue trivial
  | a :: as, s =>
    have : DecidablePred fun t => Guarded step ok t as := instDecidableGuarded as
    decidable_of_iff (ok s a ∧ (step s a).all (fun t => decide (Guarded step ok t as)) = true)
      (and_congr_right fun _ => by simp [Option.all_eq_true])

theorem guarded_of_forall {step : σ → α → Option σ} {ok : σ → α → Prop} (h : ∀ s a, ok s a) {s : σ}
    {as : List α} : Guarded step ok s as := by
  induction as generalizing s with
  | nil => trivial
  | cons a as ih => exact ⟨h s a, fun t _ => ih⟩

theorem guarded_and {step : σ → α → Option σ} {ok ok' : σ → α → Prop} {s : σ} {as : List α} :
    Guarded step (fun s a => ok s a ∧ ok' s a) s as ↔ Guarded step ok s as ∧ Guarded step ok' s as := by
  induction as generalizing s with
  | nil => exact iff_of_true trivial ⟨trivial, trivial⟩
  | cons a as ih =>
    constructor
    · exact fun h => ⟨⟨h.1.1, fun t ht => (ih.1 (h.2 t ht)).1⟩, h.1.2, fun t ht => (ih.1 (h.2 t ht)).2⟩
    · exact fun h => ⟨⟨h.1.1, h.2.1⟩, fun t ht => ih.2 ⟨h.1.2 t ht, h.2.2 t ht⟩⟩

theorem guarded_iff_of_forall {step : σ → α → Option σ} {ok ok' : σ → α → Prop} (h : ∀ s a, ok s a ↔ ok' s a)
    {s : σ} {as : List α} : Guarded step ok s as ↔ Guarded step ok' s as := by
  have hsame : ok = ok' := funext₂ fun s a => propext (h s a)
  rw [hsame]

/-- A property that holds initially and is preserved by each step that meets `ok` holds after every
run whose steps all meet it. -/
theorem guarded_invariant {step : σ → α → Option σ} {ok : σ → α → Prop} {Inv : σ → Prop}
    (hstep : ∀ s a t, Inv s → ok s a → step s a = some t → Inv t) {s u : σ} {as : List α}
    (hs : Inv s) (hok : Guarded step ok s as) (h : run step s as = some u) : Inv u := by
  induction as generalizing s with
  | nil =>
    obtain rfl : s = u := by simpa using h
    exact hs
  | cons a as ih =>
    obtain ⟨t, ht, hu⟩ := run_cons_eq_some.1 h
    exact ih (hstep s a t hs hok.1 ht) (hok.2 t ht) hu

theorem guarded_progress {step : σ → α → Option σ} {ok : σ → α → Prop} {Inv : σ → Prop}
    (hstep : ∀ s a, Inv s → ok s a → ∃ t, step s a = some t ∧ Inv t) {s : σ} {as : List α}
    (hs : Inv s) (hok : Guarded step ok s as) : ∃ u, run step s as = some u ∧ Inv u := by
  induction as generalizing s with
  | nil => exact ⟨s, rfl, hs⟩
  | cons a as ih =>
    obtain ⟨t, ht, hInv⟩ := hstep s a hs hok.1
    obtain ⟨u, hu, hInvu⟩ := ih hInv (hok.2 t ht)
    exact ⟨u, run_cons_eq_some.2 ⟨t, ht, hu⟩, hInvu⟩

/-- When the steps that meet `ok` are those that are enabled, a list of actions is guarded if and only if it is a
run. -/
theorem guarded_iff_isSome {step : σ → α → Option σ} {ok : σ → α → Prop}
    (h : ∀ s a, ok s a ↔ (step s a).isSome) {s : σ} {as : List α} :
    Guarded step ok s as ↔ (run step s as).isSome := by
  induction as generalizing s with
  | nil => exact iff_of_true trivial rfl
  | cons a as ih =>
    unfold Guarded run
    rw [h]
    cases hstep : step s a with
    | none => exact iff_of_false (fun hok => Bool.false_ne_true hok.1) Bool.false_ne_true
    | some t =>
      refine ⟨fun hok => ih.1 (hok.2 t rfl), fun hrun => ⟨rfl, fun u hu => ?_⟩⟩
      cases hu
      exact ih.2 hrun

theorem Guarded.of_prefix {step : σ → α → Option σ} {ok : σ → α → Prop} {s : σ} {as bs : List α}
    (h : Guarded step ok s as) (hpre : bs <+: as) : Guarded step ok s bs := by
  obtain ⟨cs, rfl⟩ := hpre
  induction bs generalizing s with
  | nil => trivial
  | cons b bs ih => exact ⟨h.1, fun t ht => ih (h.2 t ht)⟩

theorem Guarded.ok_of_append {step : σ → α → Option σ} {ok : σ → α → Prop} {s t : σ} {a : α}
    {as bs : List α} (h : Guarded step ok s (as ++ a :: bs)) (hrun : run step s as = some t) : ok t a := by
  induction as generalizing s with
  | nil =>
    obtain rfl : s = t := by simpa using hrun
    exact h.1
  | cons b as ih =>
    obtain ⟨r, hr, hrun⟩ := run_cons_eq_some.1 hrun
    exact ih (h.2 r hr) hrun

/-- When the steps that meet `ok` preserve `Inv`, which gives `P`, and each other step from a state
with `Inv` breaks `P`, then `P` holds in every state of a run if and only if its steps all meet `ok`. -/
theorem guarded_iff {step : σ → α → Option σ} {ok : σ → α → Prop} {Inv P : σ → Prop}
    (hP : ∀ s, Inv s → P s) (hstep : ∀ s a t, Inv s → ok s a → step s a = some t → Inv t)
    (hbreak : ∀ s a t, Inv s → ¬ok s a → step s a = some t → ¬P t) {s u : σ} {as : List α}
    (hs : Inv s) (h : run step s as = some u) :
    Guarded step ok s as ↔ ∀ bs t, bs <+: as → run step s bs = some t → P t := by
  constructor
  · intro hok bs t hpre ht
    exact hP t (guarded_invariant hstep hs (hok.of_prefix hpre) ht)
  · intro hall
    induction as generalizing s with
    | nil => trivial
    | cons a as ih =>
      obtain ⟨t, ht, hu⟩ := run_cons_eq_some.1 h
      have hok : ok s a := by
        by_contra hno
        exact hbreak s a t hs hno ht (hall [a] t (by simp) (by simp [run, ht]))
      refine ⟨hok, fun t' ht' => ?_⟩
      obtain rfl : t = t' := Option.some.inj (ht.symm.trans ht')
      refine ih (hstep s a t hs hok ht) hu fun bs r hpre hr => ?_
      exact hall (a :: bs) r ((List.prefix_cons_inj a).2 hpre) (run_cons_eq_some.2 ⟨t, ht, hr⟩)

/-- The same without the assumption that the run comes to its end. -/
theorem guarded_iff_states {step : σ → α → Option σ} {ok : σ → α → Prop} {Inv P : σ → Prop}
    (hP : ∀ s, Inv s → P s) (hstep : ∀ s a t, Inv s → ok s a → step s a = some t → Inv t)
    (hbreak : ∀ s a t, Inv s → ¬ok s a → step s a = some t → ¬P t)
    (hstuck : ∀ s a, step s a = none → ok s a) {s : σ} {as : List α} (hs : Inv s) :
    Guarded step ok s as ↔ ∀ bs t, bs <+: as → run step s bs = some t → P t := by
  constructor
  · intro hok bs t hpre ht
    exact hP t (guarded_invariant hstep hs (hok.of_prefix hpre) ht)
  · intro hall
    induction as generalizing s with
    | nil => trivial
    | cons a as ih =>
      cases ht : step s a with
      | none =>
        refine ⟨hstuck s a ht, fun t ht' => ?_⟩
        rw [ht] at ht'
        exact absurd ht'.symm (Option.some_ne_none t)
      | some t =>
        have hok : ok s a := by
          by_contra hno
          exact hbreak s a t hs hno ht (hall [a] t (by simp) (by simp [run, ht]))
        refine ⟨hok, fun t' ht' => ?_⟩
        obtain rfl : t = t' := Option.some.inj (ht.symm.trans ht')
        refine ih (hstep s a t hs hok ht) fun bs r hpre hr => ?_
        exact hall (a :: bs) r ((List.prefix_cons_inj a).2 hpre) (run_cons_eq_some.2 ⟨t, ht, hr⟩)

/-- The same for a system that can get stuck. -/
theorem guarded_iff_reaches {step : σ → α → Option σ} {ok : σ → α → Prop} {valid : α → Prop}
    {Inv P : σ → Prop} (hP : ∀ s, Inv s → P s)
    (hstep : ∀ s a, Inv s → valid a → ok s a → ∃ t, step s a = some t ∧ Inv t)
    (hbreak : ∀ s a t, Inv s → valid a → ¬ok s a → step s a = some t → ¬P t) {s : σ} {as : List α}
    (hs : Inv s) (hvalid : ∀ a ∈ as, valid a) :
    Guarded step ok s as ↔ ∀ bs, bs <+: as → ∃ t, run step s bs = some t ∧ P t := by
  induction as generalizing s with
  | nil =>
    refine iff_of_true trivial fun bs hpre => ⟨s, ?_, hP s hs⟩
    rw [List.prefix_nil.1 hpre]
    rfl
  | cons a as ih =>
    have ha := hvalid a List.mem_cons_self
    have hrest : ∀ a ∈ as, valid a := fun b hb => hvalid b (List.mem_cons_of_mem a hb)
    constructor
    · rintro ⟨hok, hguarded⟩ bs hpre
      obtain ⟨t, ht, hInv⟩ := hstep s a hs ha hok
      cases bs with
      | nil => exact ⟨s, rfl, hP s hs⟩
      | cons b bs =>
        obtain ⟨rfl, hbs⟩ := List.cons_prefix_cons.1 hpre
        obtain ⟨u, hu, hPu⟩ := (ih hInv hrest).1 (hguarded t ht) bs hbs
        exact ⟨u, run_cons_eq_some.2 ⟨t, ht, hu⟩, hPu⟩
    · intro hall
      -- the first step is taken, and leads to a state with `P`
      obtain ⟨t, ht, hPt⟩ := hall [a] (by simp)
      obtain ⟨t', ht', hnil⟩ := run_cons_eq_some.1 ht
      obtain rfl : t' = t := by simpa using hnil
      have hok : ok s a := by
        by_contra hno
        exact hbreak s a t' hs ha hno ht' hPt
      obtain ⟨t, ht, hInv⟩ := hstep s a hs ha hok
      refine ⟨hok, fun t₁ ht₁ => ?_⟩
      obtain rfl : t = t₁ := Option.some.inj (ht.symm.trans ht₁)
      refine (ih hInv hrest).2 fun bs hpre => ?_
      obtain ⟨u, hu, hPu⟩ := hall (a :: bs) ((List.prefix_cons_inj a).2 hpre)
      obtain ⟨r, hr, hu⟩ := run_cons_eq_some.1 hu
      obtain rfl : t = r := Option.some.inj (ht.symm.trans hr)
      exact ⟨u, hu, hPu⟩

theorem guarded_calls {step : σ → α → Option σ} {ok P : σ → α → Prop} {Inv : σ → Prop}
    (hstep : ∀ s a, Inv s → ok s a → ∃ t, step s a = some t ∧ Inv t)
    (hP : ∀ s a, Inv s → ok s a → P s a) {s : σ} {before : List α} {a : α} {after : List α} (hs : Inv s)
    (hok : Guarded step ok s (before ++ a :: after)) : ∃ t, run step s before = some t ∧ P t a := by
  obtain ⟨t, ht, hInv⟩ := guarded_progress hstep hs (hok.of_prefix (List.prefix_append before _))
  exact ⟨t, ht, hP t a hInv (hok.ok_of_append ht)⟩

/-- The same for a property of steps instead of states. -/
theorem guarded_iff_calls {step : σ → α → Option σ} {ok P : σ → α → Prop} {Inv : σ → Prop}
    (hstep : ∀ s a, Inv s → ok s a → ∃ t, step s a = some t ∧ Inv t)
    (hiff : ∀ s a, Inv s → (P s a ↔ ok s a)) {s : σ} {as : List α} (hs : Inv s) :
    Guarded step ok s as ↔ ∀ before a after, as = before ++ a :: after →
      ∃ t, run step s before = some t ∧ P t a := by
  constructor
  · rintro hok before a after rfl
    exact guarded_calls hstep (fun s a h => (hiff s a h).2) hs hok
  · intro hall
    induction as generalizing s with
    | nil => trivial
    | cons a as ih =>
      obtain ⟨s', hs', hP⟩ := hall [] a as rfl
      obtain rfl : s = s' := Option.some.inj hs'
      have hok := (hiff s a hs).1 hP
      refine ⟨hok, fun t ht => ?_⟩
      obtain ⟨t', ht', hInv⟩ := hstep s a hs hok
      obtain rfl : t = t' := Option.some.inj (ht.symm.trans ht')
      refine ih hInv fun before b after has => ?_
      -- the run from the next state is the rest of a run from the first one
      obtain ⟨u, hu, hPu⟩ := hall (a :: before) b after (by rw [has]; rfl)
      obtain ⟨r, hr, hu⟩ := run_cons_eq_some.1 hu
      obtain rfl : t = r := Option.some.inj (ht.symm.trans hr)
      exact ⟨u, hu, hPu⟩

/-- Two conditions that agree on each step that is taken from a state with `Inv` are met by the same
runs. -/
theorem guarded_congr {step : σ → α → Option σ} {ok ok' : σ → α → Prop} {Inv : σ → Prop}
    (hstep : ∀ s a t, Inv s → step s a = some t → Inv t)
    (hiff : ∀ s a t, Inv s → step s a = some t → (ok s a ↔ ok' s a)) {s u : σ} {as : List α}
    (hs : Inv s) (h : run step s as = some u) :
    Guarded step ok s as ↔ Guarded step ok' s as := by
  induction as generalizing s with
  | nil => exact Iff.rfl
  | cons a as ih =>
    obtain ⟨t, ht, hu⟩ := run_cons_eq_some.1 h
    have hrest : (∀ t', step s a = some t' → Guarded step ok t' as) ↔
        ∀ t', step s a = some t' → Guarded step ok' t' as := by
      constructor
      all_goals
        intro hall t' ht'
        obtain rfl := Option.some.inj (ht.symm.trans ht')
      · exact (ih (hstep s a t hs ht) hu).1 (hall t ht)
      · exact (ih (hstep s a t hs ht) hu).2 (hall t ht)
    exact and_congr (hiff s a t hs ht) hrest

/-- Forward simulation. -/
theorem run_simulation {step : σ → α → Option σ} {step' : τ → α → Option τ} {R : σ → τ → Prop}
    (hsim : ∀ s s' a t, R s s' → step s a = some t → ∃ t', step' s' a = some t' ∧ R t t')
    {s u : σ} {s' : τ} {as : List α} (hR : R s s') (h : run step s as = some u) :
    ∃ u', run step' s' as = some u' ∧ R u u' := by
  induction as generalizing s s' with
  | nil =>
    obtain rfl : s = u := by simpa using h
    exact ⟨s', rfl, hR⟩
  | cons a as ih =>
    obtain ⟨t, ht, hu⟩ := run_cons_eq_some.1 h
    obtain ⟨t', ht', hRt⟩ := hsim s s' a t hR ht
    obtain ⟨u', hu', hRu⟩ := ih hRt hu
    exact ⟨u', run_cons_eq_some.2 ⟨t', ht', hu'⟩, hRu⟩

/-- The same in both directions. -/
theorem run_rel {step : σ → α → Option σ} {step' : τ → α → Option τ} {R : σ → τ → Prop}
    (hstep : ∀ s s' a, R s s' → Option.Rel R (step s a) (step' s' a)) {s : σ} {s' : τ} (as : List α)
    (hR : R s s') : Option.Rel R (run step s as) (run step' s' as) := by
  induction as generalizing s s' with
  | nil => exact .some hR
  | cons a as ih =>
    unfold run
    generalize hs : step s a = t
    generalize hs' : step' s' a = t'
    have hrel := hstep s s' a hR
    rw [hs, hs'] at hrel
    cases hrel with
    | some hR => exact ih hR
    | none => exact .none

end Runs
