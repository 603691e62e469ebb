import Xine.Library.Runs

/-!
# Machines whose input comes in pieces

A machine takes a state and a letter to an output and the next state. Its input comes in pieces, and at the first
letter of each piece the machine makes something of its state anew. Letters with marks say where the pieces start,
so `marked` is a machine too.
-/

namespace Cuts

open Runs

variable {σ α β γ : Type*}

/-- The outputs for a list of letters, and the state after it. -/
def trace (machine : σ → α → β × σ) : σ → List α → List β × σ
  | s, [] => ([], s)
  | s, a :: as => ((machine s a).1 :: (trace machine (machine s a).2 as).1, (trace machine (machine s a).2 as).2)

/-- The step of a machine without its output. -/
def next (machine : σ → α → β × σ) (s : σ) (a : α) : Option σ := some (machine s a).2

/-- The machine on letters with marks, which makes its state anew at a mark. -/
def marked (machine : σ → α → β × σ) (anew : σ → σ) (s : σ) (a : Bool × α) : β × σ :=
  machine (if a.1 then anew s else s) a.2

/-- The letters of a piece, with a mark at the first. -/
def mark : List α → List (Bool × α)
  | [] => []
  | a :: as => (true, a) :: as.map fun b => (false, b)

variable {machine : σ → α → β × σ} {anew : σ → σ} {s : σ} {as bs : List α}

theorem trace_append : trace machine s (as ++ bs) =
    ((trace machine s as).1 ++ (trace machine (trace machine s as).2 bs).1,
      (trace machine (trace machine s as).2 bs).2) := by
  induction as generalizing s with
  | nil => rfl
  | cons a as ih =>
    simp only [List.cons_append, trace, ih]

theorem trace_unmarked : trace (marked machine anew) s (as.map fun a => (false, a)) = trace machine s as := by
  induction as generalizing s with
  | nil => rfl
  | cons a as ih =>
    simp only [List.map_cons, trace, ih]
    rfl

theorem trace_mark (a : α) : trace (marked machine anew) s (mark (a :: as)) = trace machine (anew s) (a :: as) := by
  simp only [mark, trace, trace_unmarked]
  rfl

theorem map_mark : (mark as).map Prod.snd = as := by
  cases as with
  | nil => rfl
  | cons a as => simp [mark, Function.comp_def]

theorem forall_outputs_iff {P : β → Prop} : (∀ b ∈ (trace machine s as).1, P b) ↔
    Guarded (next machine) (fun s a => P (machine s a).1) s as := by
  induction as generalizing s with
  | nil => exact iff_of_true (fun b hb => absurd hb List.not_mem_nil) trivial
  | cons a as ih =>
    have hnext : (∀ t, next machine s a = some t → Guarded (next machine) (fun s a => P (machine s a).1) t as) ↔
        Guarded (next machine) (fun s a => P (machine s a).1) (machine s a).2 as :=
      ⟨fun h => h _ rfl, fun h t ht => Option.some.inj ht ▸ h⟩
    calc (∀ b ∈ (trace machine s (a :: as)).1, P b)
        ↔ P (machine s a).1 ∧ ∀ b ∈ (trace machine (machine s a).2 as).1, P b := List.forall_mem_cons
      _ ↔ P (machine s a).1 ∧ Guarded (next machine) (fun s a => P (machine s a).1) (machine s a).2 as :=
          and_congr_right fun _ => ih
      _ ↔ Guarded (next machine) (fun s a => P (machine s a).1) s (a :: as) := and_congr_right fun _ => hnext.symm

/-- When equal outputs for a letter come with equal states, the outputs do not tell where the pieces start if and
only if at each mark the state made anew does what the state does. What is seen of an output is `see`. -/
theorem outputs_marked_iff {see : β → γ} (hsame : ∀ s a, see (machine (anew s) a).1 = see (machine s a).1 →
      machine (anew s) a = machine s a) {as : List (Bool × α)} :
    (trace (marked machine anew) s as).1.map see = (trace machine s (as.map Prod.snd)).1.map see ↔
      Guarded (next (marked machine anew)) (fun s a => a.1 → machine (anew s) a.2 = machine s a.2) s as := by
  induction as generalizing s with
  | nil => exact iff_of_true rfl trivial
  | cons a as ih =>
    obtain ⟨first, a⟩ := a
    have hhead : see (marked machine anew s (first, a)).1 = see (machine s a).1 ↔
        (first = true → machine (anew s) a = machine s a) := by
      cases first with
      | false => exact iff_of_true rfl fun h => absurd h Bool.false_ne_true
      | true => exact ⟨fun h _ => hsame s a h, fun h => congrArg (see ∘ Prod.fst) (h rfl)⟩
    have hsteps (h : first = true → machine (anew s) a = machine s a) :
        marked machine anew s (first, a) = machine s a := by
      cases first with
      | false => rfl
      | true => exact h rfl
    constructor
    · intro h
      obtain ⟨hout, hrest⟩ := List.cons.inj h
      have hok := hhead.1 hout
      refine ⟨hok, fun t ht => ?_⟩
      cases ht
      rw [← hsteps hok] at hrest
      exact ih.1 hrest
    · intro h
      have hrest :=
        calc (trace (marked machine anew) (marked machine anew s (first, a)).2 as).1.map see
            = (trace machine (marked machine anew s (first, a)).2 (as.map Prod.snd)).1.map see :=
              ih.2 (h.2 _ rfl)
          _ = (trace machine (machine s a).2 (as.map Prod.snd)).1.map see := by rw [hsteps h.1]
      exact List.cons_eq_cons.2 ⟨hhead.2 h.1, hrest⟩

end Cuts
