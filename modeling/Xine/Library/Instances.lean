import Xine.Library.Runs

/-!
# Runs with inputs left out

A run over a list of inputs, and another run over those of the inputs that are kept. What is kept depends on a
context, which follows the inputs. Where a relation of the two states is kept by the steps that both take and by
those that only the first takes, the runs stay related.
-/

namespace Purge

open Runs (run Guarded)

variable {σ τ α γ : Type*}

/-- The inputs that are kept. -/
def purge (next : γ → α → γ) (keeps : γ → α → Bool) : γ → List α → List α
  | _, [] => []
  | c, a :: as =>
    if keeps c a then a :: purge next keeps (next c a) as else purge next keeps (next c a) as

/-- A step with the context next to the state. -/
def withContext (step : σ → α → Option σ) (next : γ → α → γ) (s : γ × σ) (a : α) : Option (γ × σ) :=
  (step s.2 a).map (Prod.mk (next s.1 a))

/-- A condition on the context and the state holds at every step of a run. -/
abbrev Along (step : σ → α → Option σ) (next : γ → α → γ) (guard : γ → σ → α → Prop) (c : γ) (s : σ)
    (as : List α) : Prop :=
  Guarded (withContext step next) (fun s a => guard s.1 s.2 a) (c, s) as

variable {step : σ → α → Option σ} {step' : τ → α → Option τ} {next : γ → α → γ} {keeps : γ → α → Bool}
  {guard : γ → σ → α → Prop} {R : γ → σ → τ → Prop} {c : γ} {s : σ} {t : τ} {as : List α}

theorem rel_purge
    (hkeep : ∀ c s t a, R c s t → guard c s a → keeps c a = true →
      Option.Rel (R (next c a)) (step s a) (step' t a))
    (hdrop : ∀ c s t a, R c s t → guard c s a → keeps c a = false →
      ∃ s', step s a = some s' ∧ R (next c a) s' t)
    (h : R c s t) (hguard : Along step next guard c s as) :
    Option.Rel (R (as.foldl next c)) (run step s as) (run step' t (purge next keeps c as)) := by
  induction as generalizing c s t with
  | nil => exact .some h
  | cons a as ih =>
    have hrest : ∀ s', step s a = some s' → Along step next guard (next c a) s' as := by
      intro s' hstep
      apply hguard.2
      unfold withContext
      rw [hstep]
      rfl
    unfold purge
    show Option.Rel _ ((step s a).bind fun s' => run step s' as) _
    cases hkeeps : keeps c a with
    | true =>
      rw [if_pos rfl]
      show Option.Rel _ _ ((step' t a).bind fun t' => run step' t' _)
      have hboth := hkeep c s t a h hguard.1 hkeeps
      -- Both steps fail, or the runs go on from related states.
      generalize step s a = left at hboth hrest
      generalize step' t a = right at hboth
      cases hboth with
      | none => exact .none
      | some hR => exact ih hR (hrest _ rfl)
    | false =>
      rw [if_neg Bool.false_ne_true]
      obtain ⟨s', hstep, hR⟩ := hdrop c s t a h hguard.1 hkeeps
      rw [hstep]
      exact ih hR (hrest s' hstep)

theorem map_eq_of_rel {ω : Type*} {Q : σ → τ → Prop} {view : σ → ω} {view' : τ → ω}
    (hview : ∀ s t, Q s t → view s = view' t) {left : Option σ} {right : Option τ}
    (h : Option.Rel Q left right) : left.map view = right.map view' := by
  cases h with
  | none => rfl
  | some hQ => exact congrArg some (hview _ _ hQ)

theorem purge_eq_filter (keeps : α → Bool) (as : List α) :
    purge (fun _ _ => ()) (fun _ a => keeps a) () as = as.filter keeps := by
  induction as with
  | nil => rfl
  | cons a as ih => rw [purge, List.filter_cons, ih]

theorem along_of_guarded {ok : σ → α → Prop} (h : Guarded step ok s as) :
    Along step (fun _ _ => ()) (fun _ => ok) () s as := by
  induction as generalizing s with
  | nil => trivial
  | cons a as ih =>
    refine ⟨h.1, ?_⟩
    rintro ⟨⟨⟩, s'⟩ hstep
    obtain ⟨s₁, hstep, heq⟩ := Option.map_eq_some_iff.1 hstep
    cases heq
    exact ih (h.2 s' hstep)

theorem rel_filter {ok : σ → α → Prop} {Q : σ → τ → Prop} {keeps : α → Bool}
    (hkeep : ∀ s t a, Q s t → ok s a → keeps a = true → Option.Rel Q (step s a) (step' t a))
    (hdrop : ∀ s t a, Q s t → ok s a → keeps a = false → ∃ s', step s a = some s' ∧ Q s' t)
    (h : Q s t) (hguard : Guarded step ok s as) :
    Option.Rel Q (run step s as) (run step' t (as.filter keeps)) := by
  rw [← purge_eq_filter]
  exact rel_purge (R := fun _ => Q) (fun _ => hkeep) (fun _ => hdrop) h (along_of_guarded hguard)

end Purge

/-!
## Instances with shared statics

Instances of a component each have a state of their own, and share the statics of the component. A step of an
instance reads and writes its state and the statics, and has outputs.
-/

namespace Instances

open Runs (run)

/-- What the instances of a component are. A step that leaves its memory is `none`. -/
structure Component where
  Statics : Type
  State : Type
  Input : Type
  Output : Type
  statics : Statics
  opened : State
  step : Statics → State → Input → Option (Statics × State × List Output)

variable {C : Component} {κ : Type*}

/-- The statics after a step. -/
def Component.after (C : Component) (statics : C.Statics) (state : C.State) (input : C.Input) : C.Statics :=
  match C.step statics state input with
  | some (statics', _) => statics'
  | none => statics

/-- The statics, and each instance with what it has put out so far. `own` are the statics that an
instance would have alone; no step reads them. -/
structure World (C : Component) (κ : Type*) where
  statics : C.Statics
  states : κ → C.State
  outputs : κ → List C.Output
  own : κ → C.Statics

/-- No instance has taken a step. -/
def World.start (C : Component) (κ : Type*) : World C κ where
  statics := C.statics
  states := fun _ => C.opened
  outputs := fun _ => []
  own := fun _ => C.statics

variable [DecidableEq κ]

/-- The result of a step of an instance. -/
def World.put (w : World C κ) (e : κ × C.Input) (result : C.Statics × C.State × List C.Output) :
    World C κ where
  statics := result.1
  states := Function.update w.states e.1 result.2.1
  outputs := Function.update w.outputs e.1 (w.outputs e.1 ++ result.2.2)
  own := Function.update w.own e.1 (C.after (w.own e.1) (w.states e.1) e.2)

/-- An instance takes a step. -/
def World.step (w : World C κ) (e : κ × C.Input) : Option (World C κ) :=
  (C.step w.statics (w.states e.1) e.2).map (w.put e)

/-- What is to be known of a component. `Agree` is a relation of two statics that makes a step of a state
the same, if both statics have `Inv` with the state, which the steps of all instances keep. -/
structure Component.Spec (C : Component) where
  Agree : C.Statics → C.Statics → C.State → C.Input → Prop
  Inv : C.Statics → C.State → Prop
  opened : Inv C.statics C.opened
  own : ∀ {statics statics' state state' input outputs}, Inv statics state →
    C.step statics state input = some (statics', state', outputs) → Inv statics' state'
  other : ∀ {statics statics' state other other' input outputs}, Inv statics state →
    C.step statics other input = some (statics', other', outputs) → Inv statics' state
  agree : ∀ {statics statics' state input}, Inv statics state → Inv statics' state →
    Agree statics statics' state input → ∀ r, C.step statics state input = some r →
    ∃ r', C.step statics' state input = some r' ∧ r'.2 = r.2

/-- The step stays in its memory, and the statics agree with the instance's own. -/
def Component.Spec.Fits (S : C.Spec) (w : World C κ) (e : κ × C.Input) : Prop :=
  (C.step w.statics (w.states e.1) e.2).isSome ∧ S.Agree w.statics (w.own e.1) (w.states e.1) e.2

/-- An instance in a world, and the instance alone. -/
structure Alone (S : C.Spec) (k : κ) (w t : World C κ) : Prop where
  states : w.states k = t.states k
  outputs : w.outputs k = t.outputs k
  own : w.own k = t.statics
  inv : ∀ j, S.Inv w.statics (w.states j)
  inv' : S.Inv t.statics (t.states k)

variable {S : C.Spec} {k : κ} {w w' t : World C κ} {e : κ × C.Input}

omit [DecidableEq κ] in
theorem alone_start : Alone S k (World.start C κ) (World.start C κ) where
  states := rfl
  outputs := rfl
  own := rfl
  inv := fun _ => S.opened
  inv' := S.opened

theorem inv_step (hinv : ∀ j, S.Inv w.statics (w.states j)) {result : C.Statics × C.State × List C.Output}
    (hstep : C.step w.statics (w.states e.1) e.2 = some result) (j : κ) :
    S.Inv (w.put e result).statics ((w.put e result).states j) := by
  unfold World.put
  dsimp only
  by_cases hj : j = e.1
  · subst hj
    rw [Function.update_self]
    exact S.own (hinv e.1) hstep
  · rw [Function.update_of_ne hj]
    exact S.other (hinv j) hstep

theorem alone_keep (h : Alone S k w t) (hfits : S.Fits w e) (hk : e.1 = k) :
    Option.Rel (Alone S k) (w.step e) (t.step e) := by
  subst hk
  obtain ⟨result, hstep⟩ := Option.isSome_iff_exists.1 hfits.1
  have hagree := hfits.2
  rw [h.own] at hagree
  have hinv' := h.inv'
  rw [← h.states] at hinv'
  obtain ⟨result', hstep', hsame⟩ := S.agree (h.inv e.1) hinv' hagree result hstep
  obtain ⟨statics, state, outputs⟩ := result
  obtain ⟨statics', state', outputs'⟩ := result'
  obtain ⟨rfl, rfl⟩ := Prod.mk.inj hsame
  have hafter : C.after (w.own e.1) (w.states e.1) e.2 = statics' := by
    unfold Component.after
    rw [h.own, hstep']
  rw [h.states] at hstep'
  unfold World.step
  rw [hstep, hstep']
  refine .some ?_
  exact
    { states := by
        unfold World.put
        dsimp only
        rw [Function.update_self, Function.update_self]
      outputs := by
        unfold World.put
        dsimp only
        rw [Function.update_self, Function.update_self, h.outputs]
      own := (Function.update_self _ _ _).trans hafter
      inv := inv_step h.inv hstep
      inv' := by
        unfold World.put
        dsimp only
        rw [Function.update_self]
        exact S.own h.inv' hstep' }

theorem alone_drop (h : Alone S k w t) (hfits : S.Fits w e) (hk : e.1 ≠ k) :
    ∃ w', w.step e = some w' ∧ Alone S k w' t := by
  obtain ⟨result, hstep⟩ := Option.isSome_iff_exists.1 hfits.1
  unfold World.step
  rw [hstep]
  refine ⟨_, rfl, ?_⟩
  exact
    { states := (Function.update_of_ne hk.symm _ _).trans h.states
      outputs := (Function.update_of_ne hk.symm _ _).trans h.outputs
      own := (Function.update_of_ne hk.symm _ _).trans h.own
      inv := inv_step h.inv hstep
      inv' := h.inv' }

theorem exists_run (S : C.Spec) {events : List (κ × C.Input)}
    (h : Runs.Guarded World.step S.Fits w events) : ∃ w', run World.step w events = some w' := by
  induction events generalizing w with
  | nil => exact ⟨w, rfl⟩
  | cons e events ih =>
    obtain ⟨result, hstep⟩ := Option.isSome_iff_exists.1 h.1.1
    have hworld : w.step e = some (w.put e result) := by
      unfold World.step
      rw [hstep]
      rfl
    obtain ⟨w', hrun⟩ := ih (h.2 _ hworld)
    exact ⟨w', Runs.run_cons_eq_some.2 ⟨_, hworld, hrun⟩⟩

theorem run_alone (S : C.Spec) (k : κ) (events : List (κ × C.Input))
    (h : Runs.Guarded World.step S.Fits (World.start C κ) events) :
    ∃ w t, run World.step (World.start C κ) events = some w ∧
      run World.step (World.start C κ) (events.filter fun e => e.1 = k) = some t ∧
      w.outputs k = t.outputs k := by
  obtain ⟨w, hrun⟩ := exists_run S h
  have hkeep : ∀ (w t : World C κ) (e : κ × C.Input), Alone S k w t → S.Fits w e →
      decide (e.1 = k) = true → Option.Rel (Alone S k) (w.step e) (t.step e) :=
    fun _ _ _ halone hfits hk => alone_keep halone hfits (of_decide_eq_true hk)
  have hdrop : ∀ (w t : World C κ) (e : κ × C.Input), Alone S k w t → S.Fits w e →
      decide (e.1 = k) = false → ∃ w', w.step e = some w' ∧ Alone S k w' t :=
    fun _ _ _ halone hfits hk => alone_drop halone hfits (of_decide_eq_false hk)
  have hrel := Purge.rel_filter hkeep hdrop alone_start h
  rw [hrun] at hrel
  generalize run World.step (World.start C κ) (events.filter fun e => e.1 = k) = right at hrel ⊢
  cases hrel with
  | some halone => exact ⟨w, _, hrun, rfl, halone.outputs⟩

end Instances
