import Xine.Asm.Evaluation

/-!
# Rule books are evaluated as their trees

Assignments are read over, so that a rule comes to the value of its condition
(`Rule.evaluates`). By induction on the book `asmrp_match` finds the rules that are true with the
connectives read on bits.
-/

namespace Xine.Asm

open Octets (Byte)
open Fuel (Settles)

variable {tab : List AsmrpSym} {rest mid ts us : List Token} {q : Option Asmrp} {p : Asmrp} {t : Token}

/-! ## Tokens that are read over -/

section Passing

variable {f : ℕ → Option Asmrp} {g : ℕ → Asmrp → Option Asmrp} {h : ℕ → Option (ℤ × Asmrp)} {v : Option ℤ}

/-- The recursion reads over these tokens, up to the ones behind them, or fails if one does not fit. -/
def Passes (tab : List AsmrpSym) (f : ℕ → Option Asmrp) (ts rest : List Token) : Prop :=
  ((∀ t ∈ ts, t.Fits) → ∃ q, Stands tab q rest ∧ Settles f q) ∧ ((¬∀ t ∈ ts, t.Fits) → Settles f none)

theorem Passes.succ {g : ℕ → Option Asmrp} (hcall : ∀ fuel, f (fuel + 1) = g fuel)
    (hg : Passes tab g ts rest) : Passes tab f ts rest := by
  refine ⟨fun hfits => ?_, fun hfits => Settles.succ hcall (hg.2 hfits)⟩
  obtain ⟨q, hq, hsettles⟩ := hg.1 hfits
  exact ⟨q, hq, Settles.succ hcall hsettles⟩

theorem settles_next {r : Option Asmrp} (hf : Settles f q) (hr : Settles (fun fuel => q.bind (g fuel)) r) :
    Settles (fun fuel => (f fuel).bind (g fuel)) r := by
  refine Settles.bind hf ?_ ?_
  · rintro rfl
    exact hr.unique (Settles.const none)
  · rintro p rfl
    exact hr

theorem Passes.bind (hf : Passes tab f ts mid)
    (hg : ∀ q, Stands tab q mid → Passes tab (fun fuel => q.bind (g fuel)) us rest) :
    Passes tab (fun fuel => (f fuel).bind (g fuel)) (ts ++ us) rest := by
  by_cases hts : ∀ t ∈ ts, t.Fits
  · obtain ⟨q, hq, hsettles⟩ := hf.1 hts
    obtain ⟨hfits, hnone⟩ := hg q hq
    refine ⟨fun hall => ?_, fun hall => settles_next hsettles (hnone fun hus => hall ?_)⟩
    · obtain ⟨q', hq', hsettles'⟩ := hfits (List.forall_mem_append.1 hall).2
      exact ⟨q', hq', settles_next hsettles hsettles'⟩
    · exact List.forall_mem_append.2 ⟨hts, hus⟩
  · refine ⟨fun hall => absurd (List.forall_mem_append.1 hall).1 hts, fun _ => ?_⟩
    exact Settles.bind (hf.2 hts) (fun _ => rfl) nofun

theorem Passes.evaluates {a : ℤ} (hf : Passes tab f ts rest) :
    Evaluates tab (fun fuel => (f fuel).map fun p => (a, p)) (guarded ts (some a)) rest := by
  have hmap : ∀ {q : Option Asmrp}, Settles f q →
      Settles (fun fuel => (f fuel).map fun p => (a, p)) (q.map fun p => (a, p)) := by
    rintro q ⟨n, hn⟩
    exact ⟨n, fun fuel hfuel => congrArg (Option.map _) (hn fuel hfuel)⟩
  by_cases hts : ∀ t ∈ ts, t.Fits
  · rw [guarded_of_fits hts]
    refine ⟨nofun, fun b hb => ?_⟩
    obtain ⟨q, hq, hsettles⟩ := hf.1 hts
    exact ⟨q, hq, Option.some.inj hb ▸ hmap hsettles⟩
  · rw [show guarded ts (some a) = none from if_neg hts]
    exact ⟨fun _ => hmap (hf.2 hts), nofun⟩

theorem Evaluates.passes (hh : Evaluates tab h v mid)
    (hg : ∀ q, Stands tab q mid → Passes tab (fun fuel => q.bind (g fuel)) us rest) :
    Evaluates tab (fun fuel => (h fuel).bind fun r => (g fuel r.2).map fun p => (r.1, p))
      (v.bind fun a => guarded us (some a)) rest := by
  cases v with
  | none => exact ⟨fun _ => Settles.bind (hh.1 rfl) (fun _ => rfl) nofun, nofun⟩
  | some a =>
    obtain ⟨q, hq, hsettles⟩ := hh.2 a rfl
    have hbehind : ∀ {r : Option (ℤ × Asmrp)},
        Settles (fun fuel => (q.bind (g fuel)).map fun p => (a, p)) r →
        Settles (fun fuel => (h fuel).bind fun r => (g fuel r.2).map fun p => (r.1, p)) r := by
      intro r hr
      simp only [Option.map_bind] at hr
      exact @settles_behind _ q _ (fun fuel b p => (g fuel p).map fun p => (b, p)) a r hsettles hr
    obtain ⟨hnone, hsome⟩ := (hg q hq).evaluates (a := a)
    refine ⟨fun hv => hbehind (hnone hv), fun b hb => ?_⟩
    obtain ⟨q', hq', hsettles'⟩ := hsome b hb
    exact ⟨q', hq', hbehind hsettles'⟩

end Passing

/-! ## Assignments -/

theorem Const.token_sym (c : Const) :
    c.token.sym = .num ∨ c.token.sym = .string ∨ c.token.sym = .id := by
  cases c with
  | num n => exact Or.inl rfl
  | string s => exact Or.inr (Or.inl rfl)
  | id name => exact Or.inr (Or.inr rfl)

theorem Assignment.passes {a : Assignment} (hq : Stands tab q (a.tokens ++ rest)) :
    Passes tab (fun _ => q.bind asmrpAssignment) a.tokens rest := by
  by_cases hname : (Token.id a.name).Fits
  · obtain ⟨p, rfl, hshows, -, hnext⟩ := hq.next hname
    have hid : ¬p.sym ≠ .id := fun h => h hshows.sym
    obtain ⟨p', hp', hequals, -, hconst⟩ := hnext.next trivial
    have hequals : ¬p'.sym ≠ .equals := fun h => h hequals.sym
    have hassign : asmrpAssignment p = (asmrpGetSym p').bind fun p =>
        if p.sym ≠ .num ∧ p.sym ≠ .string ∧ p.sym ≠ .id then none else asmrpGetSym p := by
      unfold asmrpAssignment
      rw [if_neg hid, hp', Option.bind_some, if_neg hequals]
    rw [Option.bind_some, hassign]
    by_cases hfits : a.const.token.Fits
    · obtain ⟨c, hc, hshows, -, hrest⟩ := hconst.next hfits
      have hsym : ¬(c.sym ≠ .num ∧ c.sym ≠ .string ∧ c.sym ≠ .id) := by
        rintro ⟨hnum, hstring, hid⟩
        rw [hshows.sym] at hnum hstring hid
        rcases a.const.token_sym with h | h | h
        · exact hnum h
        · exact hstring h
        · exact hid h
      rw [hc, Option.bind_some, if_neg hsym]
      refine ⟨fun _ => ⟨_, hrest, Settles.const _⟩, fun hall => absurd ?_ hall⟩
      simp only [Assignment.tokens, List.forall_mem_cons, List.not_mem_nil]
      exact ⟨hname, trivial, hfits, nofun⟩
    · rw [hconst.2 hfits]
      refine ⟨fun hall => absurd (hall _ ?_) hfits, fun _ => Settles.const none⟩
      simp [Assignment.tokens]
  · rw [hq.2 hname]
    refine ⟨fun hall => absurd (hall _ ?_) hname, fun _ => Settles.const none⟩
    simp [Assignment.tokens]

theorem passes_commaTokens {assignments : List Assignment} (hstop : headSym rest ≠ .comma) :
    ∀ {q : Option Asmrp}, Stands tab q (commaTokens assignments ++ rest) →
      Passes tab (fun fuel => q.bind (assignmentLoop fuel)) (commaTokens assignments) rest := by
  induction assignments with
  | nil =>
    intro q hq
    refine ⟨fun _ => ⟨q, hq, ?_⟩, fun hall => absurd nofun hall⟩
    cases q with
    | none => exact Settles.const none
    | some p =>
      have hsym : p.sym ≠ .comma := hq.sym_eq ▸ hstop
      have hcall : ∀ fuel, assignmentLoop (fuel + 1) p = some p := fun fuel => by
        rw [assignmentLoop, if_neg hsym]
      exact Settles.succ hcall (Settles.const _)
  | cons a assignments ih =>
    intro q hq
    have hassoc : commaTokens (a :: assignments) ++ rest =
        .comma :: (a.tokens ++ (commaTokens assignments ++ rest)) := by simp [commaTokens]
    rw [hassoc] at hq
    obtain ⟨p, rfl, hshows, -, hnext⟩ := hq.next trivial
    have hcall : ∀ fuel, assignmentLoop (fuel + 1) p =
        ((asmrpGetSym p).bind asmrpAssignment).bind (assignmentLoop fuel) := fun fuel => by
      rw [assignmentLoop, if_pos (show p.sym = .comma from hshows.sym), Option.bind_assoc]
    have hpasses := @Passes.succ _ rest _ (assignmentLoop · p) _ hcall ((Assignment.passes hnext).bind fun _ => ih)
    have hfits : (∀ t ∈ commaTokens (a :: assignments), t.Fits) ↔
        ∀ t ∈ a.tokens ++ commaTokens assignments, t.Fits :=
      List.forall_mem_cons.trans (and_iff_right trivial)
    exact ⟨fun hall => hpasses.1 (hfits.1 hall), fun hall => hpasses.2 fun h => hall (hfits.2 h)⟩

/-! ## Rules -/

theorem passes_semicolon (hq : Stands tab q (.semicolon :: rest)) :
    Passes tab (fun _ => q.bind fun p => if p.sym ≠ .semicolon then none else asmrpGetSym p)
      [.semicolon] rest := by
  obtain ⟨p, rfl, hshows, -, hnext⟩ := hq.next trivial
  have hsym : ¬p.sym ≠ .semicolon := fun h => h hshows.sym
  refine ⟨fun _ => ⟨_, hnext, ?_⟩, fun hall => absurd (List.forall_mem_singleton.2 trivial) hall⟩
  rw [Option.bind_some, if_neg hsym]
  exact Settles.const _

theorem evaluates_rule {v : Option ℤ}
    (h : Evaluates tab (fun fuel => q.bind (ruleBody fuel)) v (.semicolon :: rest)) :
    Evaluates tab (fun fuel => q.bind (asmrpRule fuel)) v rest := by
  have hpasses := h.passes (g := fun _ p => if p.sym ≠ .semicolon then none else asmrpGetSym p)
    fun _ => passes_semicolon
  simp only [guarded_single (show Token.semicolon.Fits from trivial), Option.bind_fun_some] at hpasses
  refine hpasses.congr fun fuel => ?_
  rw [Option.bind_assoc]
  unfold asmrpRule
  simp only [apply_ite (Option.map _), Option.map_none]

theorem headSym_commaTokens (assignments : List Assignment) (rest : List Token) :
    headSym (commaTokens assignments ++ .semicolon :: rest) = .comma ∨
      headSym (commaTokens assignments ++ .semicolon :: rest) = .semicolon := by
  cases assignments with
  | nil => exact Or.inr rfl
  | cons a assignments => exact Or.inl rfl

theorem Rule.evaluates (rule : Rule) (hq : Stands tab q (rule.tokens ++ rest)) :
    Evaluates tab (fun fuel => q.bind (asmrpRule fuel))
      (guarded rule.tokens (rule.value Connective.bitwise (valueIn tab))) rest := by
  have hend : headSym (.semicolon :: rest) ≠ .comma := show Sym.semicolon ≠ Sym.comma by decide
  have hsemicolon : Token.semicolon.Fits := trivial
  cases rule with
  | conditional c assignments =>
    have hassoc : (Rule.conditional c assignments).tokens ++ rest =
        .hash :: (c.tokens ++ (commaTokens assignments ++ .semicolon :: rest)) := by simp [Rule.tokens]
    have hvalue : guarded (Rule.conditional c assignments).tokens
        ((Rule.conditional c assignments).value Connective.bitwise (valueIn tab)) =
        (guarded c.tokens (c.value Connective.bitwise (valueIn tab))).bind fun a =>
          guarded (commaTokens assignments) (some a) := by
      rw [Rule.tokens, guarded_concat hsemicolon, List.cons_append,
        guarded_cons (show Token.hash.Fits from trivial), guarded_append]
      rfl
    rw [hassoc] at hq
    obtain ⟨p, rfl, hshows, -, hnext⟩ := hq.next trivial
    have hcondition := c.evaluates hnext
      (by rcases headSym_commaTokens assignments rest with h | h <;> rw [h] <;> rfl)
      (by rcases headSym_commaTokens assignments rest with h | h <;> rw [h] <;> rfl)
    rw [hvalue]
    refine evaluates_rule ((hcondition.passes fun _ => passes_commaTokens hend).congr fun fuel => ?_)
    rw [Option.bind_some, ruleBody, if_pos (show p.sym = .hash from hshows.sym), Option.bind_assoc]
  | plain assignments =>
    cases assignments with
    | nil =>
      obtain ⟨p, rfl, hshows, -⟩ := hq.next trivial
      have hsym : p.sym = .semicolon := hshows.sym
      have hhash : ¬p.sym = .hash := by
        rw [hsym]
        decide
      have hbody : ∀ fuel, ruleBody fuel p = some (1, p) := fun fuel => by
        rw [ruleBody, if_neg hhash, if_neg (not_not_intro hsym)]
      rw [Rule.tokens, guarded_single hsemicolon]
      refine evaluates_rule ⟨fun hnone => absurd hnone (Option.some_ne_none 1), fun a ha => ⟨some p, hq, ?_⟩⟩
      obtain rfl : 1 = a := Option.some.inj ha
      simp only [Option.bind_some, hbody]
      exact Settles.const _
    | cons a assignments =>
      have hassoc : (Rule.plain (a :: assignments)).tokens ++ rest =
          a.tokens ++ (commaTokens assignments ++ .semicolon :: rest) := by simp [Rule.tokens]
      have hvalue : guarded (Rule.plain (a :: assignments)).tokens
          ((Rule.plain (a :: assignments)).value Connective.bitwise (valueIn tab)) =
          guarded (a.tokens ++ commaTokens assignments) (some 1) := by
        rw [Rule.tokens, guarded_concat hsemicolon]
        rfl
      rw [hassoc] at hq
      rw [hvalue]
      have hpasses := (Assignment.passes hq).bind fun _ => passes_commaTokens hend
      refine evaluates_rule (hpasses.evaluates.congr fun fuel => ?_)
      cases q with
      | none => rfl
      | some p =>
        have hsym : p.sym = .id := hq.sym_eq
        have hhash : ¬p.sym = .hash := by
          rw [hsym]
          decide
        have hsemi : p.sym ≠ .semicolon := by
          rw [hsym]
          decide
        rw [Option.bind_some, Option.bind_some, ruleBody, if_neg hhash, if_pos hsemi, Option.map_bind]
        rfl

/-! ## Books -/

/-- The numbers of the rules that are true, from this number on, unless a rule has no value. -/
def trueFrom (env : List Byte → Option ℤ) : ℕ → List Rule → Option (List ℕ)
  | _, [] => some []
  | n, rule :: book =>
    (guarded rule.tokens (rule.value Connective.bitwise env)).bind fun v =>
      (trueFrom env (n + 1) book).map fun found => if v ≠ 0 then n :: found else found

theorem Rule.headSym_ne_eof (rule : Rule) : headSym (rule.tokens ++ rest) ≠ .eof := by
  cases rule with
  | conditional c assignments => exact nofun
  | plain assignments => cases assignments <;> exact nofun

theorem settles_evalLoop (book : List Rule) {n : ℕ} {found : List ℤ} {q : Option Asmrp}
    (hq : Stands tab q (bookTokens book)) :
    Settles (fun fuel => q.bind (evalLoop fuel n found))
      ((trueFrom (valueIn tab) n book).map fun numbers => found ++ numbers.map Nat.cast) := by
  induction book generalizing n found q with
  | nil =>
    obtain ⟨p, rfl, hsym, -⟩ := hq
    have hcall : ∀ fuel, evalLoop (fuel + 1) n found p = some found := fun fuel => by
      rw [evalLoop, if_pos hsym]
    refine Settles.succ hcall ?_
    rw [trueFrom, Option.map_some, List.map_nil, List.append_nil]
    exact Settles.const _
  | cons rule book ih =>
    have hrule := rule.evaluates hq
    have hcall : ∀ fuel, q.bind (evalLoop (fuel + 1) n found) =
        (q.bind (asmrpRule fuel)).bind fun r =>
          evalLoop fuel (n + 1) (if r.1 ≠ 0 then found ++ [(n : ℤ)] else found) r.2 := by
      intro fuel
      cases q with
      | none => rfl
      | some p =>
        have hsym : ¬p.sym = .eof := hq.sym_eq ▸ rule.headSym_ne_eof
        rw [Option.bind_some, Option.bind_some, evalLoop, if_neg hsym]
    refine Settles.succ hcall ?_
    rw [trueFrom]
    cases hv : guarded rule.tokens (rule.value Connective.bitwise (valueIn tab)) with
    | none => exact Settles.bind (hrule.1 hv) (fun _ => rfl) nofun
    | some v =>
      obtain ⟨q', hq', hsettles⟩ := hrule.2 v hv
      have hbook := @ih (n + 1) (if v ≠ 0 then found ++ [(n : ℤ)] else found) q' hq'
      rw [show ((n + 1 : ℕ) : ℤ) = n + 1 from rfl] at hbook
      have hfound : ((some v).bind fun v => (trueFrom (valueIn tab) (n + 1) book).map fun numbers =>
            if v ≠ 0 then n :: numbers else numbers).map (fun numbers => found ++ numbers.map Nat.cast) =
          (trueFrom (valueIn tab) (n + 1) book).map fun numbers =>
            (if v ≠ 0 then found ++ [(n : ℤ)] else found) ++ numbers.map Nat.cast := by
        rw [Option.bind_some, Option.map_map]
        refine congrArg (Option.map · _) (funext fun numbers => ?_)
        rw [Function.comp_apply]
        split_ifs
        · rw [List.map_cons, List.append_assoc]
          rfl
        · rfl
      rw [hfound]
      exact @settles_behind _ q' _ (fun fuel b p =>
        evalLoop fuel (n + 1) (if b ≠ 0 then found ++ [(n : ℤ)] else found) p) v _ hsettles hbook

/-- The number of the matches and the matches, with -1 behind them. -/
def answer (found : List ℕ) : ℕ × List ℤ := (found.length, found.map Nat.cast ++ [-1])

theorem valueIn_match (bandwidth : BitVec 32) :
    valueIn [⟨cString "Bandwidth", bandwidth.toInt⟩, ⟨cString "OldPNMPlayer", 0⟩] = envOf bandwidth := by
  funext name
  unfold valueIn envOf
  by_cases hbandwidth : cString "Bandwidth" = name
  · rw [if_pos hbandwidth.symm, List.findIdx?_cons, decide_eq_true hbandwidth]
    rfl
  · rw [if_neg (Ne.symm hbandwidth), List.findIdx?_cons, decide_eq_false hbandwidth]
    by_cases hold : cString "OldPNMPlayer" = name
    · rw [if_pos hold.symm, List.findIdx?_cons, decide_eq_true hold]
      rfl
    · rw [if_neg (Ne.symm hold), List.findIdx?_cons, decide_eq_false hold]
      rfl

theorem asmrpMatch_settles {book : List Rule} {text : List Byte} (hprinted : Printed (bookTokens book) text)
    (bandwidth : BitVec 32) :
    Settles (fun fuel => asmrpMatch fuel text bandwidth) ((trueFrom (envOf bandwidth) 0 book).map answer) := by
  have htab : ∃ p : Asmrp, p.text = text ∧
      p.sym_tab = [⟨cString "Bandwidth", bandwidth.toInt⟩, ⟨cString "OldPNMPlayer", 0⟩] ∧
      ∀ fuel, asmrpMatch fuel text bandwidth = asmrpEval fuel p :=
    ⟨_, rfl, rfl, fun _ => rfl⟩
  obtain ⟨p, rfl, htab, hmatch⟩ := htab
  have hstands := stands_getSym hprinted (isChain_bookTokens book).tail
  rw [htab] at hstands
  have hloop := @settles_evalLoop _ book 0 [] _ hstands
  rw [valueIn_match] at hloop
  obtain ⟨n, hn⟩ := hloop
  refine ⟨n, fun fuel hfuel => ?_⟩
  have hlength : (fun found : List ℕ => answer found) =
      (fun found : List ℤ => (found.length, found ++ [-1])) ∘ fun numbers => [] ++ numbers.map Nat.cast := by
    funext found
    simp [answer]
  calc asmrpMatch fuel p.text bandwidth
      = ((asmrpGetSym p).bind (evalLoop fuel 0 [])).map fun found => (found.length, found ++ [-1]) := by
        rw [hmatch, asmrpEval, Option.map_bind]
        rfl
    _ = ((trueFrom (envOf bandwidth) 0 book).map fun numbers => [] ++ numbers.map Nat.cast).map
          fun found => (found.length, found ++ [-1]) := congrArg _ (hn fuel hfuel)
    _ = (trueFrom (envOf bandwidth) 0 book).map answer := by rw [Option.map_map, ← hlength]

end Xine.Asm

/-!
## Connectives on bits and on truth values

The grammar's `'&&'` and `'||'` are `&` and `|` of an `int` in `asmrp_condition`.
-/

namespace Xine.Asm

open Octets (Byte)
open Fuel (Settles)

variable {reading reading' : Connective → ℤ → ℤ → ℤ} {env : List Byte → Option ℤ} {book : List Rule}

/-! ## Values of names -/

section Names

mutual

theorem Operand.isSome_value (a : Operand) :
    (a.value reading env).isSome = true ↔ ∀ name ∈ a.names, (env name.chars).isSome = true := by
  cases a with
  | id name =>
    rw [Operand.names, List.forall_mem_singleton]
    rfl
  | num n => exact ⟨fun _ => nofun, fun _ => rfl⟩
  | paren c => exact c.isSome_value

theorem CompExpr.isSome_value (e : CompExpr) :
    (e.value reading env).isSome = true ↔ ∀ name ∈ e.names, (env name.chars).isSome = true := by
  cases e with
  | operand a => exact a.isSome_value
  | compare e op b =>
    rw [CompExpr.names, List.forall_mem_append, ← e.isSome_value, ← b.isSome_value, CompExpr.value]
    cases e.value reading env with
    | none => exact ⟨nofun, nofun⟩
    | some v => rw [Option.bind_some, Option.isSome_map]; exact (and_iff_right rfl).symm

theorem Condition.isSome_value (c : Condition) :
    (c.value reading env).isSome = true ↔ ∀ name ∈ c.names, (env name.chars).isSome = true := by
  cases c with
  | compExpr e => exact e.isSome_value
  | connect c op e =>
    rw [Condition.names, List.forall_mem_append, ← c.isSome_value, ← e.isSome_value, Condition.value]
    cases c.value reading env with
    | none => exact ⟨nofun, nofun⟩
    | some v => rw [Option.bind_some, Option.isSome_map]; exact (and_iff_right rfl).symm

end

theorem Rule.isSome_value (rule : Rule) :
    (rule.value reading env).isSome = true ↔ ∀ name ∈ rule.names, (env name.chars).isSome = true := by
  cases rule with
  | conditional c assignments => exact c.isSome_value
  | plain assignments => exact ⟨fun _ => nofun, fun _ => rfl⟩

end Names

/-! ## The rules that are true -/

theorem mem_matching {i : ℕ} :
    i ∈ matching reading env book ↔ ∃ rule, book[i]? = some rule ∧ rule.truth reading env = true := by
  unfold matching
  simp only [List.mem_map, List.mem_filter, Prod.exists, List.mk_mem_zipIdx_iff_getElem?]
  constructor
  · rintro ⟨rule, j, ⟨hrule, htruth⟩, rfl⟩
    exact ⟨rule, hrule, htruth⟩
  · rintro ⟨rule, hrule, htruth⟩
    exact ⟨rule, i, ⟨hrule, htruth⟩, rfl⟩

theorem matching_eq_iff : matching reading env book = matching reading' env book ↔
    ∀ rule ∈ book, rule.truth reading env = rule.truth reading' env := by
  constructor
  · intro h rule hrule
    obtain ⟨i, hi⟩ := List.mem_iff_getElem?.1 hrule
    have htruth : ∀ {r : Connective → ℤ → ℤ → ℤ},
        i ∈ matching r env book ↔ rule.truth r env = true := by
      intro r
      rw [mem_matching, hi]
      exact ⟨fun ⟨_, h, ht⟩ => Option.some.inj h ▸ ht, fun ht => ⟨rule, rfl, ht⟩⟩
    rw [Bool.eq_iff_iff, ← htruth, ← htruth, h]
  · intro h
    unfold matching
    refine congrArg _ (List.filter_congr fun r hr => ?_)
    exact h _ (List.fst_mem_of_mem_zipIdx hr)

theorem trueFrom_eq_some {n : ℕ} {found : List ℕ} : trueFrom env n book = some found ↔
    (∀ t ∈ bookTokens book, t.Fits) ∧
      (∀ rule ∈ book, (rule.value Connective.bitwise env).isSome = true) ∧
      ((book.zipIdx n).filter fun r => r.1.truth Connective.bitwise env).map Prod.snd = found := by
  induction book generalizing n found with
  | nil => exact ⟨fun h => ⟨nofun, nofun, Option.some.inj h⟩, fun h => congrArg some h.2.2⟩
  | cons rule book ih =>
    have htokens : bookTokens (rule :: book) = rule.tokens ++ bookTokens book := rfl
    rw [trueFrom, htokens, List.forall_mem_append, List.forall_mem_cons, List.zipIdx_cons]
    simp only [Option.bind_eq_some_iff, Option.map_eq_some_iff, guarded_eq_some, ih]
    have htruth : ∀ {v : ℤ}, rule.value Connective.bitwise env = some v →
        rule.truth Connective.bitwise env = decide (v ≠ 0) := by
      intro v hv
      unfold Rule.truth
      rw [hv]
      rfl
    constructor
    · rintro ⟨v, ⟨hrule, hv⟩, numbers, ⟨hbook, hvalues, rfl⟩, rfl⟩
      refine ⟨⟨hrule, hbook⟩, ⟨hv ▸ rfl, hvalues⟩, ?_⟩
      rw [List.filter_cons, htruth hv]
      by_cases hzero : v = 0 <;> simp [hzero]
    · rintro ⟨⟨hrule, hbook⟩, ⟨hsome, hvalues⟩, rfl⟩
      obtain ⟨v, hv⟩ := Option.isSome_iff_exists.1 hsome
      refine ⟨v, ⟨hrule, hv⟩, _, ⟨hbook, hvalues, rfl⟩, ?_⟩
      rw [List.filter_cons, htruth hv]
      by_cases hzero : v = 0 <;> simp [hzero]

theorem answer_injective : Function.Injective answer := by
  intro found found' h
  have hmap : found.map Nat.cast ++ [(-1 : ℤ)] = found'.map Nat.cast ++ [-1] := congrArg Prod.snd h
  have hcast : Function.Injective (Nat.cast : ℕ → ℤ) := fun _ _ => Int.ofNat.inj
  exact List.map_injective_iff.2 hcast (List.append_cancel_right hmap)

/-- A rule that connects two numbers. -/
def numbersRule : Rule :=
  .conditional (.connect (.compExpr (.operand (.num 2))) .and (.operand (.num 1))) []

/-- The text `#2 && 1;`. -/
def numbersText : List Byte := [0x23, 0x32, 0x20, 0x26, 0x26, 0x20, 0x31, 0x3b]

theorem printed_numbersText : Printed (bookTokens [numbersRule]) numbersText := by
  have hend : Printed [] [] := .nil rfl
  have hsemicolon : Printed [.semicolon] [0x3b] := @Printed.cons .semicolon [] [] [0x3b] [] rfl rfl hend
  have hone : Printed [.num 1, .semicolon] [0x20, 0x31, 0x3b] :=
    @Printed.cons (.num 1) _ [0x20] [0x31] _ rfl ⟨nofun, rfl, rfl⟩ hsemicolon
  have hand : Printed [.connect .and, .num 1, .semicolon] [0x20, 0x26, 0x26, 0x20, 0x31, 0x3b] :=
    @Printed.cons (.connect .and) _ [0x20] [0x26, 0x26] _ rfl rfl hone
  have htwo : Printed [.num 2, .connect .and, .num 1, .semicolon] (numbersText.drop 1) :=
    @Printed.cons (.num 2) _ [] [0x32] _ rfl ⟨nofun, rfl, rfl⟩ hand
  exact @Printed.cons .hash _ [] [0x23] _ rfl rfl htwo

theorem isName_bandwidth : isName (cString "Bandwidth") = true := by decide

def bandwidthName : Name := ⟨cString "Bandwidth", isName_bandwidth⟩

/-- A rule that compares the bandwidth. -/
def bandwidthRule : Rule :=
  .conditional (.compExpr (.compare (.operand (.id bandwidthName)) .geq (.num 20))) []

end Xine.Asm
