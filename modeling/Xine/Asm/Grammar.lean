import Mathlib.Data.List.Chain
import Xine.Library.Octets

/-!
# The parser for ASM rules

`asmrp.c`. Of the buffer the parser keeps what there is from the current character on, so that `p->ch` is
its first byte, and 0 behind the end. A `char` is signed. The parser reads one symbol ahead.

What the code does not survive is `none`: `abort`, a character that does not fit in `str`, a number that
does not fit in an `int`, and the value of an identifier that is not in the table, which would be read in
front of it. The recursion of the conditions and the loops take fuel.
-/

namespace Xine.Asm

open Octets (Byte)

def ASMRP_MAX_ID : ℕ := 1024

/-- `ASMRP_SYM_*`. -/
inductive Sym
  | none | eof | num | id | string | hash | semicolon | comma | equals | and | or | less | leq | geq
  | greater | dollar | lparen | rparen
deriving DecidableEq

structure AsmrpSym where
  id : List Byte
  v : ℤ

structure Asmrp where
  sym : Sym
  num : ℤ
  str : List Byte
  text : List Byte
  sym_tab : List AsmrpSym

/-- The bytes of a string constant. -/
def cString (s : String) : List Byte := s.toList.map fun c => BitVec.ofNat 8 c.toNat

/-! ## Symbols -/

def Asmrp.ch (p : Asmrp) : Byte := p.text.headD 0

def asmrpGetch (p : Asmrp) : Asmrp := { p with text := p.text.tail }

/-- A character that is read if it comes next. -/
def Asmrp.skip (p : Asmrp) (c : Byte) : Asmrp := if p.ch = c then asmrpGetch p else p

def isDigit (c : Byte) : Bool := decide (0x30 ≤ c.toInt) && decide (c.toInt ≤ 0x39)

/-- From `'A'` to `'z'`, or a digit. -/
def isIdChar (c : Byte) : Bool := decide (0x41 ≤ c.toInt) && decide (c.toInt ≤ 0x7a) || isDigit c

/-- What is inside a string: neither a quotation mark nor a control character. -/
def isStringChar (c : Byte) : Bool := decide (c ≠ 0x22) && decide (32 ≤ c.toInt)

def isBlank (c : Byte) : Bool := decide (c ≠ 0) && decide (c.toInt ≤ 32)

/-- The loop of `asmrp_number`, with the rest of the text. -/
def numberLoop : List Byte → ℕ → Option (ℕ × List Byte)
  | [], num => some (num, [])
  | c :: text, num =>
    if isDigit c then
      if num * 10 + (c.toNat - 0x30) < 2^31 then numberLoop text (num * 10 + (c.toNat - 0x30)) else none
    else some (num, c :: text)

def asmrpNumber (p : Asmrp) : Option Asmrp :=
  (numberLoop p.text 0).map fun r => { p with sym := .num, num := r.1, text := r.2 }

/-- The loop of `asmrp_string` and `asmrp_identifier`, with the 0 that it puts behind the characters. -/
def Asmrp.copy (p : Asmrp) (inside : Byte → Bool) : Option Asmrp :=
  if (p.text.takeWhile inside).length < ASMRP_MAX_ID then
    some { p with str := p.text.takeWhile inside, text := p.text.dropWhile inside }
  else none

def asmrpString (p : Asmrp) : Option Asmrp :=
  (p.copy isStringChar).map fun p => { p.skip 0x22 with sym := .string }

def asmrpIdentifier (p : Asmrp) : Option Asmrp := (p.copy isIdChar).map fun p => { p with sym := .id }

/-- A symbol of one character. -/
def Asmrp.single (p : Asmrp) (sym : Sym) : Asmrp := { asmrpGetch p with sym := sym }

/-- A symbol of one character, and a longer one if `'='` comes next. -/
def Asmrp.orEqual (p : Asmrp) (sym longer : Sym) : Asmrp :=
  let p := p.single sym
  if p.ch = 0x3d then p.single longer else p

/-- The switch of `asmrp_get_sym`. -/
def asmrpSwitch (p : Asmrp) : Option Asmrp :=
  match p.ch.toNat with
  | 0x23 => some (p.single .hash)
  | 0x3b => some (p.single .semicolon)
  | 0x2c => some (p.single .comma)
  -- The second character of these three is optional.
  | 0x3d => some ((p.single .equals).skip 0x3d)
  | 0x26 => some ((p.single .and).skip 0x26)
  | 0x7c => some ((p.single .or).skip 0x7c)
  | 0x3c => some (p.orEqual .less .leq)
  | 0x3e => some (p.orEqual .greater .geq)
  | 0x24 => some (p.single .dollar)
  | 0x28 => some (p.single .lparen)
  | 0x29 => some (p.single .rparen)
  | 0x22 => asmrpString (asmrpGetch p)
  | _ => if isDigit p.ch then asmrpNumber p else asmrpIdentifier p

def asmrpGetSym (p : Asmrp) : Option Asmrp :=
  let p := { p with text := p.text.dropWhile isBlank }
  if p.ch = 0 then some { p with sym := .eof } else asmrpSwitch (p.skip 0x5c)

/-! ## Identifiers -/

/-- `asmrp_find_id`, where -1 is `none`. -/
def asmrpFindId (p : Asmrp) (s : List Byte) : Option ℕ := p.sym_tab.findIdx? fun sym => sym.id = s

def asmrpSetId (p : Asmrp) (s : List Byte) (v : ℤ) : Asmrp :=
  match asmrpFindId p s with
  | some i => { p with sym_tab := p.sym_tab.set i ⟨s, v⟩ }
  | none => { p with sym_tab := p.sym_tab ++ [⟨s, v⟩] }

/-! ## Conditions -/

/-- The operators `&` and `|` of an `int`. -/
def bitAnd (a b : ℤ) : ℤ := (BitVec.ofInt 32 a &&& BitVec.ofInt 32 b).toInt
def bitOr (a b : ℤ) : ℤ := (BitVec.ofInt 32 a ||| BitVec.ofInt 32 b).toInt

/-- What `asmrp_comp_expression` computes for a symbol that is compared with. -/
def compareSym : Sym → Option (ℤ → ℤ → ℤ)
  | .less => some fun a b => if a < b then 1 else 0
  | .leq => some fun a b => if a ≤ b then 1 else 0
  | .equals => some fun a b => if a = b then 1 else 0
  | .geq => some fun a b => if b ≤ a then 1 else 0
  | .greater => some fun a b => if b < a then 1 else 0
  | _ => none

/-- What `asmrp_condition` computes for a symbol that connects. -/
def connectSym : Sym → Option (ℤ → ℤ → ℤ)
  | .and => some bitAnd
  | .or => some bitOr
  | _ => none

mutual

def asmrpOperand : ℕ → Asmrp → Option (ℤ × Asmrp)
  | 0, _ => none
  | fuel + 1, p =>
    match p.sym with
    | .dollar =>
      (asmrpGetSym p).bind fun p =>
        if p.sym ≠ .id then none
        else
          -- An identifier that is not in the table is reported, but read nevertheless.
          ((asmrpFindId p p.str).bind fun i => p.sym_tab[i]?).bind fun sym =>
            (asmrpGetSym p).map fun p => (sym.v, p)
    | .num => (asmrpGetSym p).map fun next => (p.num, next)
    | .lparen =>
      (asmrpGetSym p).bind fun p =>
        (asmrpCondition fuel p).bind fun r =>
          if r.2.sym ≠ .rparen then none else (asmrpGetSym r.2).map fun p => (r.1, p)
    | _ => none

def asmrpCompExpression : ℕ → Asmrp → Option (ℤ × Asmrp)
  | 0, _ => none
  | fuel + 1, p => (asmrpOperand fuel p).bind fun r => compLoop fuel r.1 r.2

/-- The loop of `asmrp_comp_expression`. -/
def compLoop : ℕ → ℤ → Asmrp → Option (ℤ × Asmrp)
  | 0, _, _ => none
  | fuel + 1, a, p =>
    match compareSym p.sym with
    | none => some (a, p)
    | some op =>
      (asmrpGetSym p).bind fun p => (asmrpOperand fuel p).bind fun r => compLoop fuel (op a r.1) r.2

def asmrpCondition : ℕ → Asmrp → Option (ℤ × Asmrp)
  | 0, _ => none
  | fuel + 1, p => (asmrpCompExpression fuel p).bind fun r => connectLoop fuel r.1 r.2

/-- The loop of `asmrp_condition`. -/
def connectLoop : ℕ → ℤ → Asmrp → Option (ℤ × Asmrp)
  | 0, _, _ => none
  | fuel + 1, a, p =>
    match connectSym p.sym with
    | none => some (a, p)
    | some op =>
      (asmrpGetSym p).bind fun p =>
        (asmrpCompExpression fuel p).bind fun r => connectLoop fuel (op a r.1) r.2

end

/-! ## Rules -/

def asmrpAssignment (p : Asmrp) : Option Asmrp :=
  if p.sym ≠ .id then none
  else
    (asmrpGetSym p).bind fun p =>
      if p.sym ≠ .equals then none
      else
        (asmrpGetSym p).bind fun p =>
          if p.sym ≠ .num ∧ p.sym ≠ .string ∧ p.sym ≠ .id then none else asmrpGetSym p

/-- The loop over the assignments that follow a comma. -/
def assignmentLoop : ℕ → Asmrp → Option Asmrp
  | 0, _ => none
  | fuel + 1, p =>
    if p.sym = .comma then
      (asmrpGetSym p).bind fun p => (asmrpAssignment p).bind fun p => assignmentLoop fuel p
    else some p

/-- What `asmrp_rule` does in front of the semicolon. -/
def ruleBody (fuel : ℕ) (p : Asmrp) : Option (ℤ × Asmrp) :=
  if p.sym = .hash then
    (asmrpGetSym p).bind fun p =>
      (asmrpCondition fuel p).bind fun r => (assignmentLoop fuel r.2).map fun p => (r.1, p)
  else if p.sym ≠ .semicolon then
    (asmrpAssignment p).bind fun p => (assignmentLoop fuel p).map fun p => (1, p)
  else some (1, p)

def asmrpRule (fuel : ℕ) (p : Asmrp) : Option (ℤ × Asmrp) :=
  (ruleBody fuel p).bind fun r =>
    if r.2.sym ≠ .semicolon then none else (asmrpGetSym r.2).map fun p => (r.1, p)

/-- The loop of `asmrp_eval`, with the rules that have been found true. -/
def evalLoop : ℕ → ℤ → List ℤ → Asmrp → Option (List ℤ)
  | 0, _, _, _ => none
  | fuel + 1, rule_num, found, p =>
    if p.sym = .eof then some found
    else
      (asmrpRule fuel p).bind fun r =>
        evalLoop fuel (rule_num + 1) (if r.1 ≠ 0 then found ++ [rule_num] else found) r.2

/-- `asmrp_eval`: the number of the matches, and what is written to `matches`. -/
def asmrpEval (fuel : ℕ) (p : Asmrp) : Option (ℕ × List ℤ) :=
  (asmrpGetSym p).bind fun p =>
    (evalLoop fuel 0 [] p).map fun found => (found.length, found ++ [-1])

/-- `asmrp_new` and `asmrp_init`. What is in `num` and `str` at the start is never read. -/
def asmrpInit (rules : List Byte) : Asmrp :=
  { sym := .none, num := 0, str := [], text := rules, sym_tab := [] }

def asmrpMatch (fuel : ℕ) (rules : List Byte) (bandwidth : BitVec 32) : Option (ℕ × List ℤ) :=
  let p := asmrpInit rules
  let p := asmrpSetId p (cString "Bandwidth") bandwidth.toInt
  let p := asmrpSetId p (cString "OldPNMPlayer") 0
  asmrpEval fuel p

end Xine.Asm

/-!
## The grammar of ASM rules

The grammar of the header comment of `asmrp.c`, as trees, with the tokens and the meaning of each tree.
The meaning is taken with a reading of the connectives: `Connective.logical` is that of the grammar, and
`Connective.bitwise` that of the code. A text is printed from tokens with any blank space around them.
-/

namespace Xine.Asm

open Octets (Byte)

/-! ## Trees -/

/-- A name: it begins neither with a digit nor with a backslash. -/
def isName : List Byte → Bool
  | [] => false
  | c :: s => isIdChar c && !isDigit c && decide (c ≠ 0x5c) && s.all isIdChar

structure Name where
  chars : List Byte
  valid : isName chars = true

structure Quoted where
  chars : List Byte
  valid : chars.all isStringChar = true

inductive CompOp
  | less | leq | equals | geq | greater

inductive Connective
  | and | or

mutual

/-- `operand = ( '$' id | num | '(' condition ')' )` -/
inductive Operand
  | id (name : Name)
  | num (n : ℕ)
  | paren (c : Condition)

/-- `comp_expr = operand { ( '<' | '<=' | '==' | '>=' | '>' ) operand }` -/
inductive CompExpr
  | operand (a : Operand)
  | compare (e : CompExpr) (op : CompOp) (b : Operand)

/-- `condition = comp_expr { ( '&&' | '||' ) comp_expr }` -/
inductive Condition
  | compExpr (e : CompExpr)
  | connect (c : Condition) (op : Connective) (e : CompExpr)

end

/-- `const`, which may be an identifier too. -/
inductive Const
  | num (n : ℕ)
  | string (s : Quoted)
  | id (name : Name)

/-- `assignment = id '=' const` -/
structure Assignment where
  name : Name
  const : Const

/-- `rule = ( '#' condition { ',' assignment } | [ assignment {',' assignment} ]) ';'` -/
inductive Rule
  | conditional (c : Condition) (assignments : List Assignment)
  | plain (assignments : List Assignment)

/-! ## Meaning -/

def CompOp.Holds (a b : ℤ) : CompOp → Prop
  | .less => a < b
  | .leq => a ≤ b
  | .equals => a = b
  | .geq => b ≤ a
  | .greater => b < a

instance decidableHolds (a b : ℤ) : (op : CompOp) → Decidable (op.Holds a b)
  | .less => inferInstanceAs (Decidable (a < b))
  | .leq => inferInstanceAs (Decidable (a ≤ b))
  | .equals => inferInstanceAs (Decidable (a = b))
  | .geq => inferInstanceAs (Decidable (b ≤ a))
  | .greater => inferInstanceAs (Decidable (b < a))

/-- The connectives on truth values. -/
def Connective.logical : Connective → ℤ → ℤ → ℤ
  | .and, a, b => if a ≠ 0 ∧ b ≠ 0 then 1 else 0
  | .or, a, b => if a ≠ 0 ∨ b ≠ 0 then 1 else 0

/-- The connectives on the bits of an `int`. -/
def Connective.bitwise : Connective → ℤ → ℤ → ℤ
  | .and => bitAnd
  | .or => bitOr

section Value

variable (reading : Connective → ℤ → ℤ → ℤ) (env : List Byte → Option ℤ)

mutual

/-- The value of an operand. A name that has no value leaves it without one. -/
def Operand.value : Operand → Option ℤ
  | .id name => env name.chars
  | .num n => some n
  | .paren c => c.value

def CompExpr.value : CompExpr → Option ℤ
  | .operand a => a.value
  | .compare e op b => e.value.bind fun v => b.value.map fun w => if op.Holds v w then 1 else 0

def Condition.value : Condition → Option ℤ
  | .compExpr e => e.value
  | .connect c op e => c.value.bind fun v => e.value.map fun w => reading op v w

end

/-- A rule without a condition is true. -/
def Rule.value : Rule → Option ℤ
  | .conditional c _ => c.value reading env
  | .plain _ => some 1

/-- The rule is true. -/
def Rule.truth (rule : Rule) : Bool := (rule.value reading env).any fun v => decide (v ≠ 0)

/-- The rules that are true, by their numbers. -/
def matching (book : List Rule) : List ℕ :=
  (book.zipIdx.filter fun r => r.1.truth reading env).map Prod.snd

end Value

/-- The names that have a value. -/
def envOf (bandwidth : BitVec 32) (name : List Byte) : Option ℤ :=
  if name = cString "Bandwidth" then some bandwidth.toInt
  else if name = cString "OldPNMPlayer" then some 0
  else none

mutual

/-- The names in an operand. -/
def Operand.names : Operand → List Name
  | .id name => [name]
  | .num _ => []
  | .paren c => c.names

def CompExpr.names : CompExpr → List Name
  | .operand a => a.names
  | .compare e _ b => e.names ++ b.names

def Condition.names : Condition → List Name
  | .compExpr e => e.names
  | .connect c _ e => c.names ++ e.names

end

/-- The names in the condition of a rule. -/
def Rule.names : Rule → List Name
  | .conditional c _ => c.names
  | .plain _ => []

/-! ## Tokens -/

inductive Token
  | num (n : ℕ)
  | id (name : Name)
  | string (s : Quoted)
  | hash | semicolon | comma | equals
  | compare (op : CompOp)
  | connect (op : Connective)
  | dollar | lparen | rparen

mutual

def Operand.tokens : Operand → List Token
  | .id name => [.dollar, .id name]
  | .num n => [.num n]
  | .paren c => .lparen :: c.tokens ++ [.rparen]

def CompExpr.tokens : CompExpr → List Token
  | .operand a => a.tokens
  | .compare e op b => e.tokens ++ .compare op :: b.tokens

def Condition.tokens : Condition → List Token
  | .compExpr e => e.tokens
  | .connect c op e => c.tokens ++ .connect op :: e.tokens

end

def Const.token : Const → Token
  | .num n => .num n
  | .string s => .string s
  | .id name => .id name

def Assignment.tokens (a : Assignment) : List Token := [.id a.name, .equals, a.const.token]

/-- The assignments that follow a comma. -/
def commaTokens (assignments : List Assignment) : List Token :=
  assignments.flatMap fun a => .comma :: a.tokens

def Rule.tokens : Rule → List Token
  | .conditional c assignments => .hash :: c.tokens ++ commaTokens assignments ++ [.semicolon]
  | .plain [] => [.semicolon]
  | .plain (a :: assignments) => a.tokens ++ commaTokens assignments ++ [.semicolon]

/-- `rule_book = { rule }` -/
def bookTokens (book : List Rule) : List Token := book.flatMap Rule.tokens

/-! ## Text -/

def CompOp.text : CompOp → List Byte
  | .less => [0x3c]
  | .leq => [0x3c, 0x3d]
  | .equals => [0x3d, 0x3d]
  | .geq => [0x3e, 0x3d]
  | .greater => [0x3e]

def Connective.text : Connective → List Byte
  | .and => [0x26, 0x26]
  | .or => [0x7c, 0x7c]

/-- The number that some digits are. -/
def digitsValue (digits : List Byte) : ℕ := digits.foldl (fun num c => num * 10 + (c.toNat - 0x30)) 0

/-- A text of the token. A number may have zeros in front. -/
def Token.Spells : Token → List Byte → Prop
  | .num n, w => w ≠ [] ∧ w.all isDigit = true ∧ digitsValue w = n
  | .id name, w => w = name.chars
  | .string s, w => w = 0x22 :: s.chars ++ [0x22]
  | .hash, w => w = [0x23]
  | .semicolon, w => w = [0x3b]
  | .comma, w => w = [0x2c]
  | .equals, w => w = [0x3d]
  | .compare op, w => w = op.text
  | .connect op, w => w = op.text
  | .dollar, w => w = [0x24]
  | .lparen, w => w = [0x28]
  | .rparen, w => w = [0x29]

/-- The text has these tokens, with any blank space around them. -/
inductive Printed : List Token → List Byte → Prop
  | nil {blanks : List Byte} (hblanks : blanks.all isBlank = true) : Printed [] blanks
  | cons {t : Token} {ts : List Token} {blanks w text : List Byte} (hblanks : blanks.all isBlank = true)
      (hspells : t.Spells w) (hrest : Printed ts text) : Printed (t :: ts) (blanks ++ w ++ text)

/-- The token fits where the parser keeps it. -/
def Token.Fits : Token → Prop
  | .num n => n < 2^31
  | .id name => name.chars.length < ASMRP_MAX_ID
  | .string s => s.chars.length < ASMRP_MAX_ID
  | _ => True

instance decidableFits : (t : Token) → Decidable t.Fits
  | .num n => inferInstanceAs (Decidable (n < 2^31))
  | .id name => inferInstanceAs (Decidable (name.chars.length < ASMRP_MAX_ID))
  | .string s => inferInstanceAs (Decidable (s.chars.length < ASMRP_MAX_ID))
  | .hash | .semicolon | .comma | .equals | .compare _ | .connect _ | .dollar | .lparen | .rparen =>
    inferInstanceAs (Decidable True)

end Xine.Asm
