import Xine.Library.Walks
import Xine.Asm.Lexing

/-!
# Conditions are evaluated as their trees

What the recursion of `asmrp_operand`, `asmrp_comp_expression` and `asmrp_condition` comes to on the tokens of a
tree: the value of the tree with the connectives read on bits, and the symbol behind the tree
(`Condition.evaluates`). Where a token does not fit or a name has no value it fails.
-/

namespace Xine.Asm

open Octets (Byte)
open Fuel (Settles)

/-! ## Values of trees whose tokens fit -/

section Guarded

variable {α β γ : Type} {ts us : List Token} {t : Token} {v : Option α} {w : Option β}

/-- This value, unless one of the tokens does not fit. -/
def guarded (ts : List Token) (v : Option α) : Option α := if ∀ t ∈ ts, t.Fits then v else none

theorem guarded_of_fits (h : ∀ t ∈ ts, t.Fits) : guarded ts v = v := if_pos h

theorem guarded_single (h : t.Fits) : guarded [t] v = v := guarded_of_fits (List.forall_mem_singleton.2 h)

theorem guarded_cons (h : t.Fits) : guarded (t :: ts) v = guarded ts v := by
  unfold guarded
  simp only [List.forall_mem_cons, h, true_and]

theorem guarded_append : guarded (ts ++ us) v = (guarded ts v).bind fun a => guarded us (some a) := by
  unfold guarded
  simp only [List.forall_mem_append]
  by_cases hts : ∀ x ∈ ts, x.Fits
  · by_cases hus : ∀ x ∈ us, x.Fits
    · rw [if_pos ⟨hts, hus⟩, if_pos hts]
      simp only [if_pos hus, Option.bind_fun_some]
    · rw [if_neg fun h => hus h.2, if_pos hts]
      simp only [if_neg hus, Option.bind_fun_none]
  · rw [if_neg fun h => hts h.1, if_neg hts]
    rfl

theorem guarded_concat (h : t.Fits) : guarded (ts ++ [t]) v = guarded ts v := by
  rw [guarded_append]
  simp only [guarded_single h, Option.bind_fun_some]

theorem guarded_append_bind {op : α → β → γ} (h : t.Fits) :
    guarded (ts ++ t :: us) (v.bind fun a => w.map fun b => op a b) =
      (guarded ts v).bind fun a => (guarded us w).map fun b => op a b := by
  unfold guarded
  simp only [List.forall_mem_append, List.forall_mem_cons, h, true_and]
  by_cases hts : ∀ x ∈ ts, x.Fits
  · by_cases hus : ∀ x ∈ us, x.Fits
    · rw [if_pos ⟨hts, hus⟩, if_pos hts, if_pos hus]
    · rw [if_neg fun h => hus h.2, if_pos hts, if_neg hus]
      cases v <;> rfl
  · rw [if_neg fun h => hts h.1, if_neg hts]
    rfl

theorem guarded_eq_some {a : α} : guarded ts v = some a ↔ (∀ t ∈ ts, t.Fits) ∧ v = some a := by
  unfold guarded
  split_ifs with h
  · exact (and_iff_right h).symm
  · exact ⟨nofun, fun h' => absurd h'.1 h⟩

end Guarded

/-! ## Evaluating and looping -/

section Loops

variable {tab : List AsmrpSym} {f g : ℕ → Option (ℤ × Asmrp)} {v w : Option ℤ} {rest ts : List Token}
  {sub : ℕ → Asmrp → Option (ℤ × Asmrp)} {loop : ℕ → ℤ → Asmrp → Option (ℤ × Asmrp)}
  {opSym : Sym → Option (ℤ → ℤ → ℤ)} {q : Option Asmrp} {p : Asmrp} {t : Token} {op : ℤ → ℤ → ℤ}

/-- The symbol of the first token. -/
def headSym : List Token → Sym
  | [] => .eof
  | t :: _ => t.sym

theorem Stands.sym_eq (h : Stands tab (some p) ts) : p.sym = headSym ts := by
  cases ts with
  | nil =>
    obtain ⟨p', hp, hsym, -⟩ := h
    rw [Option.some.inj hp, hsym]
    rfl
  | cons t ts =>
    by_cases hfits : t.Fits
    · obtain ⟨p', hp, hshows, -⟩ := h.1 hfits
      rw [Option.some.inj hp, hshows.sym]
      rfl
    · exact absurd (h.2 hfits) (Option.some_ne_none p)

theorem Stands.next (h : Stands tab q (t :: ts)) (hfits : t.Fits) :
    ∃ p, q = some p ∧ t.Shows p ∧ p.sym_tab = tab ∧ Stands tab (asmrpGetSym p) ts := by
  obtain ⟨p, hp, hshows, rfl, hprinted, hchain⟩ := h.1 hfits
  exact ⟨p, hp, hshows, rfl, stands_getSym hprinted hchain⟩

/-- The recursion comes to this value and stands at these tokens, or fails if there is no value. -/
def Evaluates (tab : List AsmrpSym) (f : ℕ → Option (ℤ × Asmrp)) (v : Option ℤ) (rest : List Token) : Prop :=
  (v = none → Settles f none) ∧
    ∀ a, v = some a → ∃ q, Stands tab q rest ∧ Settles f (q.map fun p => (a, p))

/-- The recursion comes to whatever the loop comes to from this value and these tokens on. -/
def Leads (tab : List AsmrpSym) (f : ℕ → Option (ℤ × Asmrp)) (loop : ℕ → ℤ → Asmrp → Option (ℤ × Asmrp))
    (v : Option ℤ) (rest : List Token) : Prop :=
  (v = none → Settles f none) ∧
    ∀ a, v = some a → ∃ q, Stands tab q rest ∧ ∀ r, Settles (fun fuel => q.bind (loop fuel a)) r → Settles f r

/-- The loop over operators and what they are applied to. -/
def IsLoop (sub : ℕ → Asmrp → Option (ℤ × Asmrp)) (opSym : Sym → Option (ℤ → ℤ → ℤ))
    (loop : ℕ → ℤ → Asmrp → Option (ℤ × Asmrp)) : Prop :=
  ∀ fuel a p, loop (fuel + 1) a p =
    match opSym p.sym with
    | none => some (a, p)
    | some op => (asmrpGetSym p).bind fun p => (sub fuel p).bind fun r => loop fuel (op a r.1) r.2

theorem IsLoop.leaves (hloop : IsLoop sub opSym loop) (hp : opSym p.sym = none) (fuel : ℕ) (a : ℤ) :
    loop (fuel + 1) a p = some (a, p) := by
  rw [hloop, hp]

theorem IsLoop.goes (hloop : IsLoop sub opSym loop) (hp : opSym p.sym = some op) (fuel : ℕ) (a : ℤ) :
    loop (fuel + 1) a p =
      ((asmrpGetSym p).bind (sub fuel)).bind fun r => loop fuel (op a r.1) r.2 := by
  rw [hloop, hp, Option.bind_assoc]

theorem settles_behind {γ : Type} {next : ℕ → ℤ → Asmrp → Option γ} {b : ℤ} {r : Option γ}
    (h : Settles f (q.map fun p => (b, p))) (hr : Settles (fun fuel => q.bind (next fuel b)) r) :
    Settles (fun fuel => (f fuel).bind fun x => next fuel x.1 x.2) r := by
  refine Settles.bind h ?_ ?_
  · intro hnone
    have hq : q = none := Option.map_eq_none_iff.1 hnone
    rw [hq] at hr
    exact hr.unique (Settles.const none)
  · intro x hx
    obtain ⟨p, rfl, rfl⟩ := Option.map_eq_some_iff.1 hx
    exact hr

theorem Evaluates.succ (hcall : ∀ fuel, f (fuel + 1) = g fuel) (h : Evaluates tab g v rest) :
    Evaluates tab f v rest := by
  refine ⟨fun hv => Settles.succ hcall (h.1 hv), fun a ha => ?_⟩
  obtain ⟨q, hq, hsettles⟩ := h.2 a ha
  exact ⟨q, hq, Settles.succ hcall hsettles⟩

theorem Evaluates.congr (hfg : ∀ fuel, f fuel = g fuel) (h : Evaluates tab g v rest) :
    Evaluates tab f v rest := by
  rw [funext hfg]
  exact h

theorem Evaluates.leads (h : Evaluates tab f v rest) :
    Leads tab (fun fuel => (f fuel).bind fun r => loop fuel r.1 r.2) loop v rest := by
  refine ⟨fun hv => Settles.bind (h.1 hv) (fun _ => rfl) nofun, fun a ha => ?_⟩
  obtain ⟨q, hq, hsettles⟩ := h.2 a ha
  exact ⟨q, hq, fun r hr => settles_behind hsettles hr⟩

theorem Leads.step (hloop : IsLoop sub opSym loop) (h : Leads tab f loop v (t :: ts)) (hfits : t.Fits)
    (hop : opSym t.sym = some op)
    (hsub : ∀ q, Stands tab q ts → Evaluates tab (fun fuel => q.bind (sub fuel)) w rest) :
    Leads tab f loop (v.bind fun a => w.map fun b => op a b) rest := by
  cases v with
  | none => exact ⟨fun _ => h.1 rfl, nofun⟩
  | some a =>
    obtain ⟨q, hq, hleads⟩ := h.2 a rfl
    obtain ⟨p, rfl, hshows, -, hnext⟩ := hq.next hfits
    have hround : ∀ fuel, (some p).bind (loop (fuel + 1) a) =
        ((asmrpGetSym p).bind (sub fuel)).bind fun r => loop fuel (op a r.1) r.2 := fun fuel =>
      hloop.goes (hshows.sym ▸ hop) fuel a
    have hw := hsub _ hnext
    cases w with
    | none =>
      exact ⟨fun _ => hleads none (Settles.succ hround (Settles.bind (hw.1 rfl) (fun _ => rfl) nofun)), nofun⟩
    | some b =>
      refine ⟨nofun, fun c hc => ?_⟩
      obtain rfl : op a b = c := Option.some.inj hc
      obtain ⟨q', hq', hsettles⟩ := hw.2 b rfl
      refine ⟨q', hq', fun r hr => hleads r (Settles.succ hround ?_)⟩
      exact @settles_behind _ q' _ (fun fuel c p => loop fuel (op a c) p) b r hsettles hr

theorem Leads.evaluates (hloop : IsLoop sub opSym loop) (h : Leads tab f loop v rest)
    (hstop : opSym (headSym rest) = none) : Evaluates tab f v rest := by
  refine ⟨h.1, fun a ha => ?_⟩
  obtain ⟨q, hq, hleads⟩ := h.2 a ha
  refine ⟨q, hq, hleads _ ?_⟩
  cases q with
  | none => exact Settles.const none
  | some p => exact Settles.succ (hloop.leaves (hq.sym_eq ▸ hstop) · a) (Settles.const (some (a, p)))

end Loops

/-! ## Conditions -/

section Conditions

variable {tab : List AsmrpSym} {rest : List Token} {q : Option Asmrp}

/-- The value of a name in the table. -/
def valueIn (tab : List AsmrpSym) (name : List Byte) : Option ℤ :=
  (tab.findIdx? fun sym => sym.id = name).bind fun i => tab[i]?.map AsmrpSym.v

theorem compLoop_isLoop : IsLoop asmrpOperand compareSym compLoop := fun _ _ _ => rfl

theorem connectLoop_isLoop : IsLoop asmrpCompExpression connectSym connectLoop := fun _ _ _ => rfl

theorem compareSym_sym (op : CompOp) :
    compareSym op.sym = some fun a b => if op.Holds a b then 1 else 0 := by
  cases op <;> rfl

theorem connectSym_sym (op : Connective) : connectSym op.sym = some op.bitwise := by
  cases op <;> rfl

theorem compareSym_connective (op : Connective) : compareSym op.sym = none := by
  cases op <;> rfl

theorem evaluates_compExpression {v : Option ℤ}
    (h : Leads tab (fun fuel => (q.bind (asmrpOperand fuel)).bind fun r => compLoop fuel r.1 r.2) compLoop v
      rest) (hstop : compareSym (headSym rest) = none) :
    Evaluates tab (fun fuel => q.bind (asmrpCompExpression fuel)) v rest :=
  Evaluates.succ (fun _ => (Option.bind_assoc _ _ _).symm) (h.evaluates compLoop_isLoop hstop)

theorem evaluates_condition {v : Option ℤ}
    (h : Leads tab (fun fuel => (q.bind (asmrpCompExpression fuel)).bind fun r => connectLoop fuel r.1 r.2)
      connectLoop v rest) (hstop : connectSym (headSym rest) = none) :
    Evaluates tab (fun fuel => q.bind (asmrpCondition fuel)) v rest :=
  Evaluates.succ (fun _ => (Option.bind_assoc _ _ _).symm) (h.evaluates connectLoop_isLoop hstop)

theorem evaluates_name {name : Name} (hq : Stands tab q (.dollar :: .id name :: rest)) :
    Evaluates tab (fun fuel => q.bind (asmrpOperand fuel))
      (guarded [.dollar, .id name] (valueIn tab name.chars)) rest := by
  obtain ⟨p, rfl, hdollar, -, hname⟩ := hq.next trivial
  have hsym : p.sym = .dollar := hdollar.sym
  rw [guarded_cons (show Token.dollar.Fits from trivial)]
  by_cases hfits : (Token.id name).Fits
  · obtain ⟨p', hp', hshows, rfl, hnext⟩ := hname.next hfits
    have hcall : ∀ fuel, asmrpOperand (fuel + 1) p =
        (valueIn p'.sym_tab name.chars).bind fun v => (asmrpGetSym p').map fun p => (v, p) := by
      intro fuel
      have hid : ¬p'.sym ≠ .id := fun h => h hshows.sym
      rw [asmrpOperand, hsym]
      simp only [hp', Option.bind_some, if_neg hid, asmrpFindId, hshows.str name rfl, valueIn,
        Option.bind_assoc, Option.bind_map]
      rfl
    rw [guarded_single hfits]
    refine Evaluates.succ hcall ⟨fun hnone => ?_, fun a ha => ⟨asmrpGetSym p', hnext, ?_⟩⟩
    · rw [hnone]
      exact Settles.const none
    · rw [ha]
      exact Settles.const _
  · have hcall : ∀ fuel, asmrpOperand (fuel + 1) p = none := by
      intro fuel
      rw [asmrpOperand, hsym]
      simp only [hname.2 hfits, Option.bind_none]
    have hvalue : guarded [.id name] (valueIn tab name.chars) = none :=
      if_neg fun h => hfits (List.forall_mem_singleton.1 h)
    rw [hvalue]
    exact ⟨fun _ => Settles.succ hcall (Settles.const none), nofun⟩

theorem evaluates_num {n : ℕ} (hq : Stands tab q (.num n :: rest)) :
    Evaluates tab (fun fuel => q.bind (asmrpOperand fuel)) (guarded [.num n] (some (n : ℤ))) rest := by
  by_cases hfits : (Token.num n).Fits
  · obtain ⟨p, rfl, hshows, -, hnext⟩ := hq.next hfits
    have hcall : ∀ fuel, asmrpOperand (fuel + 1) p = (asmrpGetSym p).map fun next => ((n : ℤ), next) := by
      intro fuel
      rw [asmrpOperand, show p.sym = .num from hshows.sym, hshows.num n rfl]
    rw [guarded_single hfits]
    refine Evaluates.succ hcall ⟨nofun, fun a ha => ⟨asmrpGetSym p, hnext, ?_⟩⟩
    rw [Option.some.inj ha]
    exact Settles.const _
  · have hvalue : guarded [.num n] (some (n : ℤ)) = none :=
      if_neg fun h => hfits (List.forall_mem_singleton.1 h)
    rw [hvalue, hq.2 hfits]
    exact ⟨fun _ => Settles.const none, nofun⟩

theorem evaluates_paren {v : Option ℤ} {p : Asmrp} (hp : p.sym = .lparen)
    (h : Evaluates tab (fun fuel => (asmrpGetSym p).bind (asmrpCondition fuel)) v (.rparen :: rest)) :
    Evaluates tab (fun fuel => asmrpOperand fuel p) v rest := by
  have hcall : ∀ fuel, asmrpOperand (fuel + 1) p =
      ((asmrpGetSym p).bind (asmrpCondition fuel)).bind fun r =>
        if r.2.sym ≠ .rparen then none else (asmrpGetSym r.2).map fun p => (r.1, p) := by
    intro fuel
    rw [asmrpOperand, hp, Option.bind_assoc]
  refine Evaluates.succ hcall ⟨fun hv => Settles.bind (h.1 hv) (fun _ => rfl) nofun, fun a ha => ?_⟩
  obtain ⟨q, hq, hsettles⟩ := h.2 a ha
  obtain ⟨p', rfl, hshows, -, hnext⟩ := hq.next trivial
  refine ⟨_, hnext, Settles.bind hsettles nofun fun x hx => ?_⟩
  obtain rfl : (a, p') = x := Option.some.inj hx
  have hsym : ¬p'.sym ≠ .rparen := fun h => h hshows.sym
  simp only [if_neg hsym]
  exact Settles.const _

mutual

theorem Operand.evaluates (a : Operand) {rest : List Token} {q : Option Asmrp}
    (hq : Stands tab q (a.tokens ++ rest)) :
    Evaluates tab (fun fuel => q.bind (asmrpOperand fuel))
      (guarded a.tokens (a.value Connective.bitwise (valueIn tab))) rest := by
  cases a with
  | id name => exact evaluates_name hq
  | num n => exact evaluates_num hq
  | paren c =>
    have hassoc : (Operand.paren c).tokens ++ rest = .lparen :: (c.tokens ++ .rparen :: rest) := by
      simp [Operand.tokens]
    have hvalue : guarded (Operand.paren c).tokens ((Operand.paren c).value Connective.bitwise (valueIn tab)) =
        guarded c.tokens (c.value Connective.bitwise (valueIn tab)) := by
      rw [Operand.tokens, Operand.value, List.cons_append, guarded_cons (show Token.lparen.Fits from trivial),
        guarded_concat (show Token.rparen.Fits from trivial)]
    rw [hassoc] at hq
    obtain ⟨p, rfl, hshows, -, hnext⟩ := hq.next trivial
    rw [hvalue]
    exact evaluates_paren hshows.sym (evaluates_condition (c.leads hnext rfl) rfl)

theorem CompExpr.leads (e : CompExpr) {rest : List Token} {q : Option Asmrp}
    (hq : Stands tab q (e.tokens ++ rest)) :
    Leads tab (fun fuel => (q.bind (asmrpOperand fuel)).bind fun r => compLoop fuel r.1 r.2) compLoop
      (guarded e.tokens (e.value Connective.bitwise (valueIn tab))) rest := by
  cases e with
  | operand a => exact (a.evaluates hq).leads
  | compare e op b =>
    rw [CompExpr.tokens, List.append_assoc] at hq
    rw [CompExpr.tokens, CompExpr.value, guarded_append_bind (show (Token.compare op).Fits from trivial)]
    exact Leads.step compLoop_isLoop (e.leads hq) trivial (compareSym_sym op) fun _ hq => b.evaluates hq

theorem Condition.leads (c : Condition) {rest : List Token} {q : Option Asmrp}
    (hq : Stands tab q (c.tokens ++ rest))
    (hrest : compareSym (headSym rest) = none) :
    Leads tab (fun fuel => (q.bind (asmrpCompExpression fuel)).bind fun r => connectLoop fuel r.1 r.2)
      connectLoop (guarded c.tokens (c.value Connective.bitwise (valueIn tab))) rest := by
  cases c with
  | compExpr e => exact (evaluates_compExpression (e.leads hq) hrest).leads
  | connect c op e =>
    rw [Condition.tokens, List.append_assoc] at hq
    rw [Condition.tokens, Condition.value, guarded_append_bind (show (Token.connect op).Fits from trivial)]
    refine Leads.step connectLoop_isLoop (c.leads hq (compareSym_connective op)) trivial (connectSym_sym op) ?_
    exact fun _ hq => evaluates_compExpression (e.leads hq) hrest

end

theorem Condition.evaluates (c : Condition) (hq : Stands tab q (c.tokens ++ rest))
    (hcompare : compareSym (headSym rest) = none) (hconnect : connectSym (headSym rest) = none) :
    Evaluates tab (fun fuel => q.bind (asmrpCondition fuel))
      (guarded c.tokens (c.value Connective.bitwise (valueIn tab))) rest :=
  evaluates_condition (c.leads hq hcompare) hconnect

end Conditions

end Xine.Asm
