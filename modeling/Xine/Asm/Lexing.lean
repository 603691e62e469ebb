import Mathlib.Data.List.TakeWhile
import Xine.Asm.Grammar

/-!
# Reading the tokens of a text

`asmrp_get_sym` reads one token of a printed text after the other, as long as they fit, and the end behind
the last one. No two tokens that the grammar puts next to each other can be taken for one
(`isChain_bookTokens`), so that blank space between them is not needed.
-/

namespace Xine.Asm

open Octets (Byte)

variable {p : Asmrp} {c : Byte} {w blanks text s : List Byte} {inside : Byte → Bool} {num : ℕ}
  {t u : Token} {ts : List Token}

/-! ## Characters -/

theorem isDigit_iff : isDigit c = true ↔ 0x30 ≤ c.toNat ∧ c.toNat ≤ 0x39 := by
  have hlt := c.isLt
  unfold isDigit
  simp only [Bool.and_eq_true, decide_eq_true_eq, BitVec.toInt_eq_toNat_cond]
  split <;> omega

theorem isIdChar_iff : isIdChar c = true ↔
    0x41 ≤ c.toNat ∧ c.toNat ≤ 0x7a ∨ 0x30 ≤ c.toNat ∧ c.toNat ≤ 0x39 := by
  have hlt := c.isLt
  unfold isIdChar
  simp only [Bool.or_eq_true, isDigit_iff, Bool.and_eq_true, decide_eq_true_eq,
    BitVec.toInt_eq_toNat_cond]
  split <;> omega

theorem isBlank_iff : isBlank c = true ↔ c.toNat ≠ 0 ∧ (c.toNat ≤ 32 ∨ 128 ≤ c.toNat) := by
  have hlt := c.isLt
  have hzero : c = 0 ↔ c.toNat = 0 := BitVec.toNat_eq
  unfold isBlank
  simp only [Bool.and_eq_true, decide_eq_true_eq, BitVec.toInt_eq_toNat_cond, ne_eq, hzero]
  split <;> omega

theorem le_digits (w : List Byte) (num : ℕ) :
    num ≤ w.foldl (fun num c => num * 10 + (c.toNat - 0x30)) num := by
  induction w generalizing num with
  | nil => exact Nat.le_refl num
  | cons c w ih =>
    have hstep : num ≤ num * 10 + (c.toNat - 0x30) := by omega
    exact Nat.le_trans hstep (ih _)

theorem numberLoop_append (hw : w.all isDigit = true) (htext : isDigit (text.headD 0) = false)
    (hnum : num < 2^31) :
    numberLoop (w ++ text) num =
      if w.foldl (fun num c => num * 10 + (c.toNat - 0x30)) num < 2^31 then
        some (w.foldl (fun num c => num * 10 + (c.toNat - 0x30)) num, text)
      else none := by
  induction w generalizing num with
  | nil =>
    rw [List.foldl_nil, if_pos hnum]
    cases text with
    | nil => rfl
    | cons c text =>
      have hc : ¬isDigit c = true := Bool.not_eq_true _ ▸ htext
      rw [List.nil_append, numberLoop, if_neg hc]
  | cons c w ih =>
    obtain ⟨hc, hw⟩ := Bool.and_eq_true_iff.1 hw
    rw [List.cons_append, numberLoop, if_pos hc, List.foldl_cons]
    by_cases hfits : num * 10 + (c.toNat - 0x30) < 2^31
    · rw [if_pos hfits, ih hw hfits]
    · -- A number that has become too large stays so.
      have hle := le_digits w (num * 10 + (c.toNat - 0x30))
      rw [if_neg hfits, if_neg (by omega)]

theorem copy_append (htext : p.text = s ++ text) (hs : s.all inside = true)
    (hstop : inside (text.headD 0) = false) :
    p.copy inside =
      if s.length < ASMRP_MAX_ID then some { p with str := s, text := text } else none := by
  have hrest : text.takeWhile inside = [] ∧ text.dropWhile inside = text := by
    cases text with
    | nil => exact ⟨rfl, rfl⟩
    | cons c text =>
      have hc : ¬inside c = true := Bool.not_eq_true _ ▸ hstop
      exact ⟨List.takeWhile_cons_of_neg hc, List.dropWhile_cons_of_neg hc⟩
  have hall : ∀ c ∈ s, inside c = true := List.all_eq_true.1 hs
  unfold Asmrp.copy
  rw [htext, List.takeWhile_append_of_pos hall, List.dropWhile_append_of_pos hall, hrest.1, hrest.2,
    List.append_nil]

/-! ## One symbol -/

/-- The symbol of the token. -/
def CompOp.sym : CompOp → Sym
  | .less => .less
  | .leq => .leq
  | .equals => .equals
  | .geq => .geq
  | .greater => .greater

def Connective.sym : Connective → Sym
  | .and => .and
  | .or => .or

def Token.sym : Token → Sym
  | .num _ => .num
  | .id _ => .id
  | .string _ => .string
  | .hash => .hash
  | .semicolon => .semicolon
  | .comma => .comma
  | .equals => .equals
  | .compare op => op.sym
  | .connect op => op.sym
  | .dollar => .dollar
  | .lparen => .lparen
  | .rparen => .rparen

/-- The parser has the token as its symbol. -/
structure Token.Shows (t : Token) (p : Asmrp) : Prop where
  sym : p.sym = t.sym
  num : ∀ n, t = .num n → p.num = n
  str : ∀ name, t = .id name → p.str = name.chars

/-- The character would be read as a part of the token. -/
def Token.joins (t : Token) (c : Byte) : Bool :=
  match t with
  | .num _ => isDigit c
  | .id _ => isIdChar c
  | .equals | .compare .less | .compare .greater => decide (c = 0x3d)
  | _ => false

theorem getSym_blanks (hblanks : blanks.all isBlank = true) (htext : p.text = blanks ++ c :: s)
    (hc : 33 ≤ c.toNat ∧ c.toNat < 128) (hne : c ≠ 0x5c) :
    asmrpGetSym p = asmrpSwitch { p with text := c :: s } := by
  have hnot : ¬isBlank c = true := fun h => by
    have := isBlank_iff.1 h
    omega
  have hdrop : p.text.dropWhile isBlank = c :: s := by
    rw [htext, List.dropWhile_append_of_pos (List.all_eq_true.1 hblanks), List.dropWhile_cons_of_neg hnot]
  have hzero : c ≠ 0 := by
    rintro rfl
    exact absurd hc.1 (by decide)
  unfold asmrpGetSym
  rw [hdrop]
  dsimp only
  rw [if_neg (show ¬Asmrp.ch { p with text := c :: s } = 0 from hzero)]
  unfold Asmrp.skip
  rw [if_neg (show ¬Asmrp.ch { p with text := c :: s } = 0x5c from hne)]

theorem getSym_end (hblanks : blanks.all isBlank = true) (htext : p.text = blanks) :
    asmrpGetSym p = some { p with sym := .eof, text := [] } := by
  have hdrop : p.text.dropWhile isBlank = [] := by
    rw [htext, List.dropWhile_eq_nil_iff]
    exact List.all_eq_true.1 hblanks
  unfold asmrpGetSym
  rw [hdrop]
  rfl

theorem asmrpSwitch_of_isIdChar (h : isIdChar p.ch = true) :
    asmrpSwitch p = if isDigit p.ch then asmrpNumber p else asmrpIdentifier p := by
  have hch := isIdChar_iff.1 h
  unfold asmrpSwitch
  split
  all_goals first | rfl | (exfalso; omega)

theorem Token.Spells.exists_cons (h : t.Spells w) :
    ∃ c s, w = c :: s ∧ 33 ≤ c.toNat ∧ c.toNat < 128 ∧ c ≠ 0x5c := by
  cases t with
  | num n =>
    obtain ⟨hne, hdigits, -⟩ := h
    obtain ⟨c, s, rfl⟩ := List.exists_cons_of_ne_nil hne
    have hc := isDigit_iff.1 (Bool.and_eq_true_iff.1 hdigits).1
    refine ⟨c, s, rfl, by omega, by omega, ?_⟩
    rintro rfl
    exact absurd hc (by decide)
  | id name =>
    obtain ⟨chars, hvalid⟩ := name
    obtain rfl : w = chars := h
    cases w with
    | nil => exact absurd hvalid Bool.false_ne_true
    | cons c s =>
      simp only [isName, Bool.and_eq_true, decide_eq_true_eq] at hvalid
      obtain ⟨⟨⟨hc, -⟩, hne⟩, -⟩ := hvalid
      have hc := isIdChar_iff.1 hc
      exact ⟨c, s, rfl, by omega, by omega, hne⟩
  | string q =>
    obtain rfl : w = 0x22 :: q.chars ++ [0x22] := h
    exact ⟨_, _, rfl, by decide⟩
  | compare op =>
    obtain rfl : w = op.text := h
    cases op <;> exact ⟨_, _, rfl, by decide⟩
  | connect op =>
    obtain rfl : w = op.text := h
    cases op <;> exact ⟨_, _, rfl, by decide⟩
  | _ =>
    subst h
    exact ⟨_, _, rfl, by decide⟩

theorem getSym_spelled (hblanks : blanks.all isBlank = true) (hspells : t.Spells w)
    (htext : p.text = blanks ++ w ++ text) : asmrpGetSym p = asmrpSwitch { p with text := w ++ text } := by
  obtain ⟨c, s, rfl, hle, hlt, hne⟩ := hspells.exists_cons
  refine getSym_blanks hblanks ?_ ⟨hle, hlt⟩ hne
  rw [htext, List.append_assoc]
  rfl

theorem switch_name {name : Name} (htext : p.text = name.chars ++ text)
    (hstop : isIdChar (text.headD 0) = false) :
    asmrpSwitch p =
      if name.chars.length < ASMRP_MAX_ID then
        some { p with sym := .id, str := name.chars, text := text } else none := by
  obtain ⟨chars, hvalid⟩ := name
  cases chars with
  | nil => exact absurd hvalid Bool.false_ne_true
  | cons c s =>
    simp only [isName, Bool.and_eq_true, Bool.not_eq_true', decide_eq_true_eq] at hvalid
    obtain ⟨⟨⟨hc, hdigit⟩, -⟩, hs⟩ := hvalid
    have hch : p.ch = c := by
      unfold Asmrp.ch
      rw [htext]
      rfl
    have hall : (c :: s).all isIdChar = true := by rw [List.all_cons, hc, hs, Bool.and_self]
    rw [asmrpSwitch_of_isIdChar (hch.symm ▸ hc), hch, if_neg (by rw [hdigit]; exact Bool.false_ne_true)]
    unfold asmrpIdentifier
    rw [copy_append htext hall hstop]
    split_ifs <;> rfl

theorem switch_number {n : ℕ} (hne : w ≠ []) (hw : w.all isDigit = true) (hvalue : digitsValue w = n)
    (htext : p.text = w ++ text) (hstop : isDigit (text.headD 0) = false) :
    asmrpSwitch p = if n < 2^31 then some { p with sym := .num, num := n, text := text } else none := by
  obtain ⟨c, s, rfl⟩ := List.exists_cons_of_ne_nil hne
  have hc : isDigit c = true := (Bool.and_eq_true_iff.1 hw).1
  have hch : p.ch = c := by
    unfold Asmrp.ch
    rw [htext]
    rfl
  have hid : isIdChar c = true := by
    unfold isIdChar
    rw [hc, Bool.or_true]
  rw [asmrpSwitch_of_isIdChar (hch.symm ▸ hid), hch, if_pos hc]
  unfold asmrpNumber
  rw [htext, numberLoop_append hw hstop (by decide)]
  subst hvalue
  unfold digitsValue
  split_ifs <;> rfl

theorem switch_string {q : Quoted} (htext : p.text = 0x22 :: (q.chars ++ 0x22 :: text)) :
    asmrpSwitch p =
      if q.chars.length < ASMRP_MAX_ID then
        some { p with sym := .string, str := q.chars, text := text } else none := by
  have hquote : isStringChar 0x22 = false := by decide
  have hcopy := @copy_append (asmrpGetch p) (0x22 :: text) q.chars isStringChar
    (by unfold asmrpGetch; rw [htext]; rfl) q.valid hquote
  have hswitch : asmrpSwitch p = asmrpString (asmrpGetch p) := by
    have hch : p.ch = 0x22 := by
      unfold Asmrp.ch
      rw [htext]
      rfl
    unfold asmrpSwitch
    rw [hch]
    rfl
  rw [hswitch]
  unfold asmrpString
  rw [hcopy]
  split_ifs <;> rfl

theorem skip_of_ne (h : p.ch ≠ c) : p.skip c = p := if_neg h

theorem getSym_token (hblanks : blanks.all isBlank = true) (hspells : t.Spells w)
    (htext : p.text = blanks ++ w ++ text) (hstop : t.joins (text.headD 0) = false) :
    (t.Fits → ∃ p', asmrpGetSym p = some p' ∧ t.Shows p' ∧ p'.text = text ∧ p'.sym_tab = p.sym_tab) ∧
      (¬t.Fits → asmrpGetSym p = none) := by
  rw [getSym_spelled hblanks hspells htext]
  -- a symbol without a value
  have hplain : ∀ sym : Sym, asmrpSwitch { p with text := w ++ text } = some { p with sym, text } →
      sym = t.sym → (∀ n, t ≠ .num n) → (∀ name, t ≠ .id name) → t.Fits →
      (t.Fits → ∃ p', asmrpSwitch { p with text := w ++ text } = some p' ∧ t.Shows p' ∧ p'.text = text ∧
        p'.sym_tab = p.sym_tab) ∧
      (¬t.Fits → asmrpSwitch { p with text := w ++ text } = none) := by
    intro sym hswitch hsym hnum hid hfits
    refine ⟨fun _ => ⟨_, hswitch, ⟨hsym, fun n h => absurd h (hnum n), fun name h => absurd h (hid name)⟩,
      rfl, rfl⟩, fun h => absurd hfits h⟩
  cases t with
  | num n =>
    obtain ⟨hne, hdigits, hvalue⟩ := hspells
    have hswitch := @switch_number { p with text := w ++ text } w text n hne hdigits hvalue rfl hstop
    refine ⟨fun hfits => ?_, fun hfits => ?_⟩
    · rw [if_pos (show n < 2^31 from hfits)] at hswitch
      refine ⟨_, hswitch, ⟨rfl, fun m hm => ?_, nofun⟩, rfl, rfl⟩
      rw [Token.num.inj hm]
    · rw [if_neg (show ¬n < 2^31 from hfits)] at hswitch
      exact hswitch
  | id name =>
    obtain rfl : w = name.chars := hspells
    have hswitch := @switch_name { p with text := name.chars ++ text } text name rfl hstop
    refine ⟨fun hfits => ?_, fun hfits => ?_⟩
    · rw [if_pos (show name.chars.length < ASMRP_MAX_ID from hfits)] at hswitch
      refine ⟨_, hswitch, ⟨rfl, nofun, fun other hother => ?_⟩, rfl, rfl⟩
      rw [Token.id.inj hother]
    · rw [if_neg (show ¬name.chars.length < ASMRP_MAX_ID from hfits)] at hswitch
      exact hswitch
  | string q =>
    obtain rfl : w = 0x22 :: q.chars ++ [0x22] := hspells
    have hswitch := @switch_string { p with text := 0x22 :: q.chars ++ [0x22] ++ text } text q
      (by simp)
    refine ⟨fun hfits => ?_, fun hfits => ?_⟩
    · rw [if_pos (show q.chars.length < ASMRP_MAX_ID from hfits)] at hswitch
      exact ⟨_, hswitch, ⟨rfl, nofun, nofun⟩, rfl, rfl⟩
    · rw [if_neg (show ¬q.chars.length < ASMRP_MAX_ID from hfits)] at hswitch
      exact hswitch
  | hash =>
    obtain rfl : w = [0x23] := hspells
    exact hplain .hash rfl rfl nofun nofun trivial
  | semicolon =>
    obtain rfl : w = [0x3b] := hspells
    exact hplain .semicolon rfl rfl nofun nofun trivial
  | comma =>
    obtain rfl : w = [0x2c] := hspells
    exact hplain .comma rfl rfl nofun nofun trivial
  | dollar =>
    obtain rfl : w = [0x24] := hspells
    exact hplain .dollar rfl rfl nofun nofun trivial
  | lparen =>
    obtain rfl : w = [0x28] := hspells
    exact hplain .lparen rfl rfl nofun nofun trivial
  | rparen =>
    obtain rfl : w = [0x29] := hspells
    exact hplain .rparen rfl rfl nofun nofun trivial
  | equals =>
    obtain rfl : w = [0x3d] := hspells
    have hnext : text.headD 0 ≠ 0x3d := of_decide_eq_false hstop
    refine hplain .equals ?_ rfl nofun nofun trivial
    exact congrArg some (skip_of_ne hnext)
  | connect op =>
    obtain rfl : w = op.text := hspells
    cases op with
    | and => exact hplain .and rfl rfl nofun nofun trivial
    | or => exact hplain .or rfl rfl nofun nofun trivial
  | compare op =>
    obtain rfl : w = op.text := hspells
    cases op with
    | less =>
      have hnext : text.headD 0 ≠ 0x3d := of_decide_eq_false hstop
      refine hplain .less ?_ rfl nofun nofun trivial
      exact congrArg some (if_neg hnext)
    | leq => exact hplain .leq rfl rfl nofun nofun trivial
    | equals => exact hplain .equals rfl rfl nofun nofun trivial
    | geq => exact hplain .geq rfl rfl nofun nofun trivial
    | greater =>
      have hnext : text.headD 0 ≠ 0x3d := of_decide_eq_false hstop
      refine hplain .greater ?_ rfl nofun nofun trivial
      exact congrArg some (if_neg hnext)

/-! ## A text of tokens -/

/-- The second token cannot be taken for a part of the first. -/
def Token.Apart (t u : Token) : Prop := ∀ w, u.Spells w → t.joins (w.headD 0) = false

theorem joins_blank (h : isBlank c = true ∨ c = 0) : t.joins c = false := by
  have hnat : c.toNat ≤ 32 ∨ 128 ≤ c.toNat := by
    rcases h with h | rfl
    · exact (isBlank_iff.1 h).2
    · exact Or.inl (by decide)
  have hequal : decide (c = 0x3d) = false := by
    refine decide_eq_false ?_
    rintro rfl
    exact absurd hnat (by decide)
  have hdigit : isDigit c = false := by
    rw [Bool.eq_false_iff]
    intro hc
    have := isDigit_iff.1 hc
    omega
  have hid : isIdChar c = false := by
    rw [Bool.eq_false_iff]
    intro hc
    have := isIdChar_iff.1 hc
    omega
  unfold Token.joins
  split
  all_goals first | exact hdigit | exact hid | exact hequal | rfl

theorem joins_headD (hchain : List.IsChain Token.Apart (t :: ts)) (hprinted : Printed ts text) :
    t.joins (text.headD 0) = false := by
  cases hprinted with
  | nil hblanks =>
    cases text with
    | nil => exact joins_blank (Or.inr rfl)
    | cons c text => exact joins_blank (Or.inl (Bool.and_eq_true_iff.1 hblanks).1)
  | @cons u us blanks w text hblanks hspells hrest =>
    cases blanks with
    | cons c blanks => exact joins_blank (Or.inl (Bool.and_eq_true_iff.1 hblanks).1)
    | nil =>
      have hapart := (List.isChain_cons_cons.1 hchain).1 _ hspells
      obtain ⟨c, s, rfl, -⟩ := hspells.exists_cons
      exact hapart

/-- What the parser has read of a text, which stands at these tokens: the first one is its symbol, if it
fits. -/
def Stands (tab : List AsmrpSym) (q : Option Asmrp) : List Token → Prop
  | [] => ∃ p, q = some p ∧ p.sym = .eof ∧ p.sym_tab = tab
  | t :: ts =>
    (t.Fits → ∃ p, q = some p ∧ t.Shows p ∧ p.sym_tab = tab ∧ Printed ts p.text ∧
      List.IsChain Token.Apart ts) ∧
    (¬t.Fits → q = none)

theorem stands_getSym (hprinted : Printed ts p.text) (hchain : List.IsChain Token.Apart ts) :
    Stands p.sym_tab (asmrpGetSym p) ts := by
  generalize htext : p.text = text at hprinted
  cases hprinted with
  | nil hblanks => exact ⟨_, getSym_end hblanks htext, rfl, rfl⟩
  | @cons t ts blanks w text hblanks hspells hrest =>
    obtain ⟨hfits, hnone⟩ := getSym_token hblanks hspells htext (joins_headD hchain hrest)
    refine ⟨fun ht => ?_, hnone⟩
    obtain ⟨p', hsome, hshows, rfl, htab⟩ := hfits ht
    exact ⟨p', hsome, hshows, htab, hrest, hchain.tail⟩

/-! ## The tokens of the grammar -/

/-- A token of characters that names and numbers are made of. -/
def Token.isWord : Token → Bool
  | .num _ | .id _ => true
  | _ => false

/-- A token that `'='` would continue. -/
def Token.takesEqual : Token → Bool
  | .equals | .compare .less | .compare .greater => true
  | _ => false

/-- A token that begins with `'='`. -/
def Token.isEqual : Token → Bool
  | .equals | .compare .equals => true
  | _ => false

theorem Token.Spells.headD (h : u.Spells w) :
    (isIdChar (w.headD 0) = true → u.isWord = true) ∧ (w.headD 0 = 0x3d → u.isEqual = true) := by
  have hword : ∀ c : Byte, isIdChar c = true → c ≠ 0x3d := by
    rintro c hc rfl
    exact absurd hc (by decide)
  cases u with
  | num n =>
    obtain ⟨hne, hdigits, -⟩ := h
    obtain ⟨c, s, rfl⟩ := List.exists_cons_of_ne_nil hne
    have hc : isIdChar c = true := by
      unfold isIdChar
      rw [(Bool.and_eq_true_iff.1 hdigits).1, Bool.or_true]
    exact ⟨fun _ => rfl, fun h => absurd h (hword c hc)⟩
  | id name =>
    obtain ⟨chars, hvalid⟩ := name
    obtain rfl : w = chars := h
    cases w with
    | nil => exact absurd hvalid Bool.false_ne_true
    | cons c s =>
      simp only [isName, Bool.and_eq_true] at hvalid
      exact ⟨fun _ => rfl, fun h => absurd h (hword c hvalid.1.1.1)⟩
  | string q =>
    obtain rfl : w = 0x22 :: q.chars ++ [0x22] := h
    exact ⟨fun h => absurd h (show ¬isIdChar 0x22 = true by decide),
      fun h => absurd h (show ¬(0x22 : Byte) = 0x3d by decide)⟩
  | compare op =>
    obtain rfl : w = op.text := h
    cases op <;> exact ⟨by decide, by decide⟩
  | connect op =>
    obtain rfl : w = op.text := h
    cases op <;> exact ⟨by decide, by decide⟩
  | _ =>
    subst h
    exact ⟨by decide, by decide⟩

theorem Token.apart (hword : t.isWord = true → u.isWord = false)
    (hequal : t.takesEqual = true → u.isEqual = false) : t.Apart u := by
  intro w hspells
  obtain ⟨hid, heq⟩ := hspells.headD
  have hchar : t.isWord = true → isIdChar (w.headD 0) = false := fun h =>
    Bool.eq_false_iff.2 fun hc => Bool.eq_false_iff.1 (hword h) (hid hc)
  have hnext : t.takesEqual = true → decide (w.headD 0 = 0x3d) = false := fun h =>
    decide_eq_false fun hc => Bool.eq_false_iff.1 (hequal h) (heq hc)
  unfold Token.joins
  split
  · have hc := hchar rfl
    unfold isIdChar at hc
    exact (Bool.or_eq_false_iff.1 hc).2
  · exact hchar rfl
  · exact hnext rfl
  · exact hnext rfl
  · exact hnext rfl
  · rfl

/-- A token that an operand begins with. -/
def Token.opens : Token → Bool
  | .dollar | .num _ | .lparen => true
  | _ => false

/-- A token that an operand ends with. -/
def Token.closes : Token → Bool
  | .id _ | .num _ | .rparen => true
  | _ => false

/-- A token in front of which anything may stand. -/
def Token.free (u : Token) : Bool := !u.isWord && !u.isEqual

theorem Token.apart_free (h : u.free = true) : t.Apart u := by
  simp only [Token.free, Bool.and_eq_true, Bool.not_eq_true'] at h
  exact Token.apart (fun _ => h.1) fun _ => h.2

theorem Token.opens_apart (hword : t.isWord = false) (hopens : u.opens = true) : t.Apart u := by
  refine Token.apart (fun h => absurd h (Bool.eq_false_iff.1 hword)) fun _ => ?_
  cases u with
  | dollar | num n | lparen => rfl
  | _ => exact absurd hopens Bool.false_ne_true

theorem Token.closes_apart (hcloses : t.closes = true) (hword : u.isWord = false) : t.Apart u := by
  refine Token.apart (fun _ => hword) fun h => ?_
  cases t with
  | id name | num n | rparen => exact absurd h Bool.false_ne_true
  | _ => exact absurd hcloses Bool.false_ne_true

/-- The tokens chain, behind any token that an operand may follow and in front of any that may follow one. -/
def Fitting (ts : List Token) : Prop :=
  ∀ t rest, (∀ u : Token, u.opens = true → t.Apart u) →
    (∀ u : Token, u.closes = true → List.IsChain Token.Apart (u :: rest)) →
    List.IsChain Token.Apart (t :: ts ++ rest)

mutual

theorem Operand.fitting (a : Operand) : Fitting a.tokens := by
  intro t rest hopen hclose
  cases a with
  | id name =>
    have hnext : Token.dollar.Apart (.id name) := Token.apart nofun nofun
    exact .cons_cons (hopen _ rfl) (.cons_cons hnext (hclose _ rfl))
  | num n => exact .cons_cons (hopen _ rfl) (hclose _ rfl)
  | paren c =>
    have hinner := c.fitting .lparen (.rparen :: rest) (fun u hu => Token.opens_apart rfl hu)
      fun u hu => .cons_cons (Token.closes_apart hu rfl) (hclose _ rfl)
    have hassoc : t :: (Operand.paren c).tokens ++ rest = t :: (.lparen :: c.tokens ++ .rparen :: rest) := by
      simp [Operand.tokens]
    rw [hassoc]
    exact .cons_cons (hopen _ rfl) hinner

theorem CompExpr.fitting (e : CompExpr) : Fitting e.tokens := by
  intro t rest hopen hclose
  cases e with
  | operand a => exact a.fitting t rest hopen hclose
  | compare e op b =>
    have hassoc : t :: (CompExpr.compare e op b).tokens ++ rest =
        t :: e.tokens ++ (.compare op :: b.tokens ++ rest) := by simp [CompExpr.tokens]
    rw [hassoc]
    refine e.fitting t _ hopen fun u hu => .cons_cons (Token.closes_apart hu rfl) ?_
    exact b.fitting (.compare op) rest (fun u hu => Token.opens_apart rfl hu) hclose

theorem Condition.fitting (c : Condition) : Fitting c.tokens := by
  intro t rest hopen hclose
  cases c with
  | compExpr e => exact e.fitting t rest hopen hclose
  | connect c op e =>
    have hassoc : t :: (Condition.connect c op e).tokens ++ rest =
        t :: c.tokens ++ (.connect op :: e.tokens ++ rest) := by simp [Condition.tokens]
    rw [hassoc]
    refine c.fitting t _ hopen fun u hu => .cons_cons (Token.closes_apart hu rfl) ?_
    exact e.fitting (.connect op) rest (fun u hu => Token.opens_apart rfl hu) hclose

end

theorem Assignment.isChain {a : Assignment} {rest : List Token} (hword : t.isWord = false)
    (hrest : ∀ u : Token, List.IsChain Token.Apart (u :: rest)) :
    List.IsChain Token.Apart (t :: a.tokens ++ rest) := by
  have hname : t.Apart (.id a.name) :=
    Token.apart (fun h => absurd h (Bool.eq_false_iff.1 hword)) fun _ => rfl
  have hequals : (Token.id a.name).Apart .equals := Token.apart (fun _ => rfl) nofun
  have hconst : Token.equals.Apart a.const.token := by
    refine Token.apart nofun fun _ => ?_
    cases a.const <;> rfl
  exact .cons_cons hname (.cons_cons hequals (.cons_cons hconst (hrest _)))

theorem isChain_commaTokens {assignments : List Assignment} {rest : List Token}
    (hrest : ∀ u : Token, List.IsChain Token.Apart (u :: rest)) (t : Token) :
    List.IsChain Token.Apart (t :: commaTokens assignments ++ rest) := by
  induction assignments generalizing t with
  | nil => exact hrest t
  | cons a assignments ih =>
    have hassoc : t :: commaTokens (a :: assignments) ++ rest =
        t :: (.comma :: a.tokens ++ (commaTokens assignments ++ rest)) := by simp [commaTokens]
    rw [hassoc]
    exact .cons_cons (Token.apart_free rfl) (Assignment.isChain rfl ih)

theorem isChain_bookTokens (book : List Rule) : List.IsChain Token.Apart (.semicolon :: bookTokens book) := by
  induction book with
  | nil => exact .singleton _
  | cons rule book ih =>
    have hend : ∀ u : Token, List.IsChain Token.Apart (u :: .semicolon :: bookTokens book) := fun u =>
      .cons_cons (Token.apart_free rfl) ih
    cases rule with
    | conditional c assignments =>
      have hassoc : Token.semicolon :: bookTokens (.conditional c assignments :: book) =
          .semicolon :: (.hash :: c.tokens ++ (commaTokens assignments ++ .semicolon :: bookTokens book)) := by
        simp [bookTokens, Rule.tokens]
      rw [hassoc]
      refine .cons_cons (Token.apart_free rfl) (c.fitting .hash _ (fun u hu => Token.opens_apart rfl hu) ?_)
      exact fun u _ => isChain_commaTokens hend u
    | plain assignments =>
      cases assignments with
      | nil => exact hend _
      | cons a assignments =>
        have hassoc : Token.semicolon :: bookTokens (.plain (a :: assignments) :: book) =
            .semicolon :: a.tokens ++ (commaTokens assignments ++ .semicolon :: bookTokens book) := by
          simp [bookTokens, Rule.tokens]
        rw [hassoc]
        exact Assignment.isChain rfl (isChain_commaTokens hend)

end Xine.Asm
