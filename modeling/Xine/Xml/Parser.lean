import Mathlib.Data.Int.Notation
import Mathlib.Data.List.Basic

/-!
# The lexer of the XML parser

`lexer_get_token` (`xmllexer.c`) with its private variables as a state. The buffer is the memory that `lexbuf`
points to, also behind its `lexbuf_size` bytes, as the lexer looks for `<!--` and `<!DOCTYPE` without a check of
the size. A token is the string that the lexer leaves in `tok`, up to its first null byte.

The loop of the lexer takes a number of rounds at most, one for each byte that is left, which are enough.
-/

namespace Xine.Xml

abbrev Str := List Char

/-- The states of `lexer_get_token`, in its order: 0 to 11 and 100. -/
inductive LexState
  | init | eol | separ | mStart | mStop1 | mStop2 | equal | string | declaration | tiStop | dash | dashes
  | ident
deriving DecidableEq

/-- `NORMAL` and `DATA`. -/
inductive LexMode
  | normal | data
deriving DecidableEq

/-- The tokens, `T_ERROR` to `T_DOCTYPE_START`. -/
inductive TokenKind
  | error | eof | eol | separ | mStart1 | mStart2 | mStop1 | mStop2 | equal | string | ident | data
  | cStart | cStop | tiStart | tiStop | doctypeStart
deriving DecidableEq

/-- What `lexer_get_token` returns, and the string in `tok`. -/
structure Token where
  res : TokenKind
  tok : Str

/-- The private variables of the lexer. -/
structure Lexer where
  lexbuf : ℕ → Char
  lexbuf_size : ℕ
  lexbuf_pos : ℕ
  lex_mode : LexMode
  in_comment : Bool

def lexerInit (buf : ℕ → Char) (size : ℕ) : Lexer where
  lexbuf := buf
  lexbuf_size := size
  lexbuf_pos := 0
  lex_mode := .normal
  in_comment := false

/-- The string of the bytes in `tok`. -/
def cStr (tok : Str) : Str := tok.takeWhile (· ≠ '\x00')

/-- `lexbuf_pos += n`. -/
def Lexer.forward (L : Lexer) (n : ℕ) : Lexer := { L with lexbuf_pos := L.lexbuf_pos + n }

/-- A round of the loop goes on, with the bytes in `tok` and the next state, or returns a token. -/
inductive LexTurn
  | more (L : Lexer) (tok : Str) (state : LexState)
  | token (L : Lexer) (t : Token)

/-- The end of markup: in a comment the mode stays as it is. -/
def Lexer.markupStop (L : Lexer) : Lexer := if L.in_comment then L else { L with lex_mode := .data }

/-- The first byte of a token. -/
def lexInit (L : Lexer) (c : Char) (tok : Str) : LexTurn :=
  match c with
  | '\n' | '\r' => .more (L.forward 1) (tok ++ [c]) .eol
  | ' ' | '\t' => .more (L.forward 1) (tok ++ [c]) .separ
  | '<' => .more (L.forward 1) (tok ++ [c]) .mStart
  | '>' => .more (L.forward 1) (tok ++ [c]) .mStop1
  | '/' => .more (L.forward 1) (tok ++ [c]) (if L.in_comment then .init else .mStop2)
  | '=' => .more (L.forward 1) (tok ++ [c]) .equal
  | '\"' => .more (L.forward 1) tok .string
  | '-' => .more (L.forward 1) (tok ++ [c]) .dash
  | '?' => .more (L.forward 1) (tok ++ [c]) .tiStop
  | _ => .more (L.forward 1) (tok ++ [c]) .ident

/-- The byte behind `<`. -/
def lexMStart (L : Lexer) (c : Char) (tok : Str) : LexTurn :=
  match c with
  | '/' => .token (L.forward 1) ⟨.mStart2, cStr (tok ++ [c])⟩
  | '!' => .more (L.forward 1) (tok ++ [c]) .declaration
  | '?' => .token (L.forward 1) ⟨.tiStart, cStr (tok ++ [c])⟩
  | _ => .token L ⟨.mStart1, cStr tok⟩

/-- The bytes behind `<!`: the start of a comment or of the document type. -/
def lexDeclaration (L : Lexer) (c : Char) (tok : Str) : LexTurn :=
  match c with
  | '-' =>
    if L.lexbuf (L.lexbuf_pos + 1) = '-' then
      .token { L.forward 2 with in_comment := true } ⟨.cStart, cStr (tok ++ ['-', '-'])⟩
    else
      .more (L.forward 1) tok .declaration
  | 'D' =>
    if (List.range 6).map (fun i : ℕ => L.lexbuf (L.lexbuf_pos + 1 + i)) = "OCTYPE".toList then
      .token (L.forward 7) ⟨.doctypeStart, cStr (tok ++ "DOCTYPE".toList)⟩
    else
      .token (L.forward 1) ⟨.error, cStr tok⟩
  | _ => .token L ⟨.error, cStr tok⟩

/-- The byte behind a `-`. -/
def lexDash (L : Lexer) (c : Char) (tok : Str) : LexTurn :=
  match c with
  | '-' => .more (L.forward 1) (tok ++ [c]) .dashes
  | _ => .more (L.forward 1) (tok ++ [c]) .ident

/-- The byte behind `--`. -/
def lexDashes (L : Lexer) (c : Char) (tok : Str) : LexTurn :=
  match c with
  | '>' =>
    if (cStr (tok ++ [c])).length ≠ 3 then
      -- the bytes before `-->` are a token of their own
      .token { L with lexbuf_pos := L.lexbuf_pos + 1 - 3 }
        ⟨.ident, cStr ((tok ++ [c]).take ((tok ++ [c]).length - 3))⟩
    else
      .token { L.forward 1 with in_comment := false } ⟨.cStop, cStr (tok ++ [c])⟩
  | _ => .more (L.forward 1) (tok ++ [c]) .ident

/-- A byte of an identifier. -/
def lexIdent (L : Lexer) (c : Char) (tok : Str) : LexTurn :=
  match c with
  | '<' | '>' | '\\' | '\"' | ' ' | '\t' | '=' => .token L ⟨.ident, cStr tok⟩
  | '?' => .more (L.forward 1) (tok ++ [c]) .tiStop
  | '-' => .more (L.forward 1) (tok ++ [c]) .dash
  | _ => .more (L.forward 1) (tok ++ [c]) .ident

/-- The switch on the state, for the byte `c` at `lexbuf_pos`. -/
def lexNormal (L : Lexer) (c : Char) (tok : Str) : LexState → LexTurn
  | .init => lexInit L c tok
  | .eol =>
    if c = '\n' ∨ c = '\r' then .more (L.forward 1) (tok ++ [c]) .eol
    else .token L ⟨.eol, cStr tok⟩
  | .separ =>
    if c = ' ' ∨ c = '\t' then .more (L.forward 1) (tok ++ [c]) .separ
    else .token L ⟨.separ, cStr tok⟩
  | .mStart => lexMStart L c tok
  | .mStop1 => .token L.markupStop ⟨.mStop1, cStr tok⟩
  | .mStop2 =>
    if c = '>' then .token (L.forward 1).markupStop ⟨.mStop2, cStr (tok ++ [c])⟩
    else .token L ⟨.error, cStr tok⟩
  | .equal => .token L ⟨.equal, cStr tok⟩
  | .string =>
    if c = '\"' then .token (L.forward 1) ⟨.string, cStr tok⟩
    else .more (L.forward 1) (tok ++ [c]) .string
  | .declaration => lexDeclaration L c tok
  | .tiStop =>
    if c = '>' then .token (L.forward 1) ⟨.tiStop, cStr (tok ++ [c])⟩
    else .token L ⟨.error, cStr tok⟩
  | .dash => lexDash L c tok
  | .dashes => lexDashes L c tok
  | .ident => lexIdent L c tok

/-- One round of the loop of `lexer_get_token`. -/
def lexChar (L : Lexer) (tok : Str) (state : LexState) : LexTurn :=
  let c := L.lexbuf L.lexbuf_pos
  match L.lex_mode with
  | .normal => lexNormal L c tok state
  | .data =>
    if c = '<' then .token { L with lex_mode := .normal } ⟨.data, cStr tok⟩
    else .more (L.forward 1) (tok ++ [c]) state

/-- What `lexer_get_token` returns behind its loop. -/
def lexEnd (tok_size : ℕ) (tok : Str) (state : LexState) : Token :=
  if tok.length ≥ tok_size then
    -- the token buffer is too little
    ⟨.error, cStr tok⟩
  else
    match state with
    | .init | .eol | .separ => ⟨.eof, cStr tok⟩
    | .mStart => ⟨.mStart1, cStr tok⟩
    | .mStop1 => ⟨.mStop1, cStr tok⟩
    | .mStop2 => ⟨.error, cStr tok⟩
    | .equal => ⟨.equal, cStr tok⟩
    | .string => ⟨.string, cStr tok⟩
    | .ident => ⟨.data, cStr tok⟩
    | _ => ⟨.error, cStr tok⟩

/-- The condition of the loop of `lexer_get_token`. -/
def Lexer.Goes (L : Lexer) (tok_size : ℕ) (tok : Str) : Prop :=
  tok.length < tok_size ∧ L.lexbuf_pos < L.lexbuf_size

instance (L : Lexer) (tok_size : ℕ) (tok : Str) : Decidable (L.Goes tok_size tok) := by
  unfold Lexer.Goes
  infer_instance

/-- The loop of `lexer_get_token`, in a number of rounds. -/
def lexLoop (tok_size : ℕ) : ℕ → Lexer → Str → LexState → Option (Lexer × Token)
  | 0, L, tok, state => if L.Goes tok_size tok then none else some (L, lexEnd tok_size tok state)
  | rounds + 1, L, tok, state =>
    if L.Goes tok_size tok then
      match lexChar L tok state with
      | .more L tok state => lexLoop tok_size rounds L tok state
      | .token L t => some (L, t)
    else
      some (L, lexEnd tok_size tok state)

def lexerGetToken (L : Lexer) (tok_size : ℕ) : Option (Lexer × Token) :=
  lexLoop tok_size (L.lexbuf_size - L.lexbuf_pos) L [] .init

end Xine.Xml

/-!
## The XML parser

`xml_parser_get_node` and `xml_parser_build_tree` (`xmlparser.c`). A node holds its properties and its children as
lists. The locals of a call of `xml_parser_get_node` are `Locals`, with what the call has written to its node so
far. `turn` is the switch of its loop. The loop and the call for a child node are one recursion in a number of
rounds, without a result when the rounds are used up.
-/

namespace Xine.Xml

structure XmlProperty where
  name : Str
  value : Option Str

inductive XmlNode where
  | mk (name : Str) (data : Option Str) (props : List XmlProperty) (child : List XmlNode)

/-- `XML_PARSER_CASE_INSENSITIVE` and `XML_PARSER_CASE_SENSITIVE`. -/
inductive ParserMode
  | caseInsensitive | caseSensitive
deriving DecidableEq

def tokenSize : ℕ := 4 * 1024

def maxRecursion : ℕ := 10

/-- The states of `xml_parser_get_node`, in its order: 0 to 9. -/
inductive ParserState
  | idle | node | inTag | endName | endStop | propName | propValue | comment | ti | doctype
deriving DecidableEq

def strtoupper (str : Str) : Str := str.map Char.toUpper

/-- A name as the parser takes it from a token. -/
def ParserMode.name (mode : ParserMode) (tok : Str) : Str :=
  if mode = .caseInsensitive then strtoupper tok else tok

/-- The locals of `xml_parser_get_node`, and the data and the children of its node. -/
structure Locals where
  state : ParserState
  token : Token
  bypass_get_token : Bool
  node_name : Str
  property_name : Str
  properties : List XmlProperty
  data : Option Str
  child : List XmlNode

/-- The locals at the start of `xml_parser_get_node`, for a new node. -/
def Locals.new : Locals where
  state := .idle
  token := ⟨.eof, []⟩
  bypass_get_token := false
  node_name := []
  property_name := []
  properties := []
  data := none
  child := []

/-- A node is appended to the children. -/
def Locals.append (l : Locals) (subtree : XmlNode) : Locals :=
  { l with child := l.child ++ [subtree], state := .idle }

/-- What a round of the loop does with its token: the loop goes on, or first calls
`xml_parser_get_node` for a child, or returns. -/
inductive Turn
  | again (l : Locals)
  | call (l : Locals)
  | ret (code : ℤ) (l : Locals)

/-- The switch of `xml_parser_get_node`. -/
def turn (mode : ParserMode) (root_name : Str) (l : Locals) : Turn :=
  match l.state with
  | .idle =>
    match l.token.res with
    | .eol | .separ => .again l
    | .eof => .ret 0 l
    | .mStart1 => .again { l with state := .node }
    | .mStart2 => .again { l with state := .endName }
    | .cStart => .again { l with state := .comment }
    | .tiStart => .again { l with state := .ti }
    | .doctypeStart => .again { l with state := .doctype }
    | .data => .again { l with data := some l.token.tok }
    | _ => .ret (-1) l
  | .node =>
    match l.token.res with
    | .ident => .again { l with properties := [], node_name := mode.name l.token.tok, state := .inTag }
    | _ => .ret (-1) l
  | .inTag =>
    match l.token.res with
    | .eol | .separ => .again l
    | .mStop1 => .call l
    | .mStop2 => .again (l.append (.mk l.node_name none l.properties []))
    | .ident => .again { l with property_name := mode.name l.token.tok, state := .propName }
    | _ => .ret (-1) l
  | .endName =>
    match l.token.res with
    | .ident =>
      if mode.name l.token.tok = root_name then .again { l with state := .endStop } else .ret (-1) l
    | _ => .ret (-1) l
  | .endStop =>
    match l.token.res with
    | .mStop1 => .ret 0 l
    | _ => .ret (-1) l
  | .propName =>
    match l.token.res with
    | .eol | .separ => .again l
    | .equal => .again { l with state := .propValue }
    | .ident => .again { l with bypass_get_token := true, state := .inTag }
    | .mStop1 =>
      .again { l with
        properties := l.properties ++ [⟨l.property_name, none⟩]
        bypass_get_token := true, state := .inTag }
    | _ => .ret (-1) l
  | .propValue =>
    match l.token.res with
    | .eol | .separ => .again l
    | .string | .ident =>
      .again { l with
        properties := l.properties ++ [⟨l.property_name, some l.token.tok⟩], state := .inTag }
    | _ => .ret (-1) l
  | .comment =>
    match l.token.res with
    | .cStop => .again { l with state := .idle }
    | _ => .again l
  | .ti =>
    match l.token.res with
    | .tiStop => .again { l with state := .idle }
    | _ => .again l
  | .doctype =>
    match l.token.res with
    | .mStop1 => .again { l with state := .idle }
    | _ => .again l

/-- The condition of the loop: the token that it takes, the old one or that of the lexer. -/
def fetch (l : Locals) (L : Lexer) : Option (Locals × Lexer) :=
  if l.bypass_get_token then
    some ({ l with bypass_get_token := false }, L)
  else
    (lexerGetToken L tokenSize).map fun (L, t) => ({ l with token := t }, L)

/-- A round of the loop of `xml_parser_get_node`. -/
def nodeRound (mode : ParserMode) (root_name : Str) (l : Locals) (L : Lexer) :
    Option (Turn × Lexer) :=
  (fetch l L).map fun (l', L') =>
    -- a lexer error leaves the loop
    (if l.bypass_get_token = false ∧ l'.token.res = .error then .ret (-1) l'
      else turn mode root_name l', L')

/-- The loop of `xml_parser_get_node`: the return code, the locals with the node, and the lexer. -/
def getNodeLoop (mode : ParserMode) :
    ℕ → ℕ → Str → Locals → Lexer → Option (ℤ × Locals × Lexer)
  | 0, _, _, _, _ => none
  | rounds + 1, rec, root_name, l, L =>
    match nodeRound mode root_name l L with
    | none => none
    | some (.again l, L) => getNodeLoop mode rounds rec root_name l L
    | some (.ret code l, L) => some (code, l, L)
    | some (.call l, L) =>
      if rec + 1 < maxRecursion then
        match getNodeLoop mode rounds (rec + 1) l.node_name Locals.new L with
        | none => none
        | some (parse_res, sub, L) =>
          if parse_res ≠ 0 then
            some (parse_res, l, L)
          else
            getNodeLoop mode rounds rec root_name
              (l.append (.mk l.node_name sub.data l.properties sub.child)) L
      else
        -- max recursion, in the call
        some (-1, l, L)

/-- `xml_parser_get_node` for the node above the root, which has no name. -/
def xmlParserGetNode (mode : ParserMode) (rounds : ℕ) (L : Lexer) : Option (ℤ × Locals × Lexer) :=
  getNodeLoop mode rounds 0 [] Locals.new L

/-- `xml_parser_build_tree`, behind `xml_parser_init`: the tree, or the error -1. -/
def xmlParserBuildTree (mode : ParserMode) (rounds : ℕ) (buf : ℕ → Char) (size : ℕ) :
    Option (Except ℤ XmlNode) :=
  (xmlParserGetNode mode rounds (lexerInit buf size)).map fun (_, tmp_node, _) =>
    match tmp_node.child with
    | [root_node] => .ok root_node
    | _ => .error (-1)

end Xine.Xml
