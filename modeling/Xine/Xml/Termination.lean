import Mathlib.Logic.Relation
import Xine.Xml.Parser

/-!
# The lexer consumes input

A token that is neither an error nor the end of the file consumes input, except for empty data, which takes the
lexer back to its normal mode. `Lexer.left` counts the two together.
-/

namespace Xine.Xml

variable {L L' : Lexer} {tok tok' : Str} {state state' : LexState} {t : Token} {c : Char}
  {start tok_size rounds : ℕ}

/-- The input that is left, and the way back to the normal mode. -/
def Lexer.left (L : Lexer) : ℕ :=
  2 * (L.lexbuf_size - L.lexbuf_pos) + if L.lex_mode = .data then 1 else 0

/-- The bytes in `tok` are those from the start of the token on, in the states from which the lexer
can come to the end of a comment. -/
def Tracked (start pos : ℕ) (tok : Str) : LexState → Prop
  | .init | .ident => start + tok.length = pos
  | .dash => start + tok.length = pos ∧ (tok.length = 1 → tok = ['-'])
  | .dashes => start + tok.length = pos ∧ (tok.length = 2 → tok = ['-', '-'])
  | _ => True

/-- The state of the loop for a token that starts at `start`. -/
structure Lexing (start : ℕ) (L : Lexer) (tok : Str) (state : LexState) : Prop where
  start_le : start ≤ L.lexbuf_pos
  pos_le : L.lexbuf_pos ≤ L.lexbuf_size
  start_lt : state ≠ .init ∨ tok ≠ [] → start < L.lexbuf_pos
  init_of_data : L.lex_mode = .data → state = .init
  tracked : Tracked start L.lexbuf_pos tok state
  two_le : state = .dashes → start + 2 ≤ L.lexbuf_pos

/-- What a round does for a token that starts at `start`: it takes one byte, or the token is an error,
or the input left is less than at the start. -/
def LexTurn.Advances (start : ℕ) (L : Lexer) : LexTurn → Prop
  | .more L' tok state =>
    L'.lexbuf_size = L.lexbuf_size ∧ L'.lexbuf_pos = L.lexbuf_pos + 1 ∧ L'.lex_mode = L.lex_mode ∧
      Lexing start L' tok state
  | .token L' t =>
    L'.lexbuf_size = L.lexbuf_size ∧ t.res ≠ .eof ∧
      (t.res = .error ∨ L'.left < ({ L with lexbuf_pos := start } : Lexer).left)

theorem advances_more (h : Lexing start L tok state) (hpos : L.lexbuf_pos < L.lexbuf_size)
    (hdata : L.lex_mode = .data → state' = .init)
    (htracked : Tracked start (L.lexbuf_pos + 1) tok' state')
    (htwo : state' = .dashes → start + 2 ≤ L.lexbuf_pos + 1) :
    (LexTurn.more (L.forward 1) tok' state').Advances start L := by
  refine ⟨rfl, rfl, rfl, ?_, ?_, fun _ => ?_, hdata, htracked, htwo⟩
  · exact Nat.le_trans h.start_le (Nat.le_succ _)
  · exact hpos
  · exact Nat.lt_succ_of_le h.start_le

theorem advances_token (hsize : L'.lexbuf_size = L.lexbuf_size) (hlt : start < L'.lexbuf_pos)
    (hstart : start < L.lexbuf_size) (hmode : L.lex_mode = .normal) (hres : t.res ≠ .eof) :
    (LexTurn.token L' t).Advances start L := by
  refine ⟨hsize, hres, Or.inr ?_⟩
  unfold Lexer.left
  simp only [hsize, hmode]
  split_ifs <;> omega

theorem markupStop_pos (L : Lexer) : L.markupStop.lexbuf_pos = L.lexbuf_pos := by
  unfold Lexer.markupStop
  split_ifs <;> rfl

theorem markupStop_size (L : Lexer) : L.markupStop.lexbuf_size = L.lexbuf_size := by
  unfold Lexer.markupStop
  split_ifs <;> rfl

theorem advances_error (hsize : L'.lexbuf_size = L.lexbuf_size) :
    (LexTurn.token L' ⟨.error, tok⟩).Advances start L :=
  ⟨hsize, TokenKind.noConfusion, Or.inl rfl⟩

theorem length_cStr_dashes : (cStr (['-', '-'] ++ ['>'])).length = 3 := by decide

theorem lexNormal_advances (h : Lexing start L tok state) (hpos : L.lexbuf_pos < L.lexbuf_size)
    (hmode : L.lex_mode = .normal) : (lexNormal L c tok state).Advances start L := by
  have hdata : ∀ s : LexState, L.lex_mode = .data → s = .init := by
    intro s hs
    rw [hmode] at hs
    cases hs
  have hle := h.start_le
  have hstart : start < L.lexbuf_size := Nat.lt_of_le_of_lt hle hpos
  have hlen : ∀ d : Char, (tok ++ [d]).length = tok.length + 1 := fun d => List.length_append
  have htracked := h.tracked
  have htake : ∀ s : LexState, (s ≠ .dash ∧ s ≠ .dashes ∧ s ≠ .init ∧ s ≠ .ident) → ∀ tok',
      (LexTurn.more (L.forward 1) tok' s).Advances start L := by
    intro s hs tok'
    refine advances_more h hpos (hdata s) ?_ ?_
    · cases s <;> simp_all [Tracked]
    · exact fun heq => absurd heq hs.2.1
  cases state with
  | init =>
    have hcount : start + tok.length = L.lexbuf_pos := htracked
    rw [lexNormal]
    unfold lexInit
    split
    case h_7 =>
      -- in a comment the lexer stays in this state
      split_ifs
      · refine advances_more h hpos (hdata _) ?_ (fun heq => by cases heq)
        show start + (tok ++ [_]).length = L.lexbuf_pos + 1
        rw [hlen]
        omega
      · exact htake _ (by decide) _
    case h_10 =>
      refine advances_more h hpos (hdata _) ⟨?_, ?_⟩ (fun heq => by cases heq)
      · rw [hlen]
        omega
      · intro hone
        rw [hlen] at hone
        rw [List.length_eq_zero_iff.1 (by omega : tok.length = 0)]
        rfl
    case h_12 =>
      refine advances_more h hpos (hdata _) ?_ (fun heq => by cases heq)
      show start + (tok ++ [_]).length = L.lexbuf_pos + 1
      rw [hlen]
      omega
    all_goals exact htake _ (by decide) _
  | eol =>
    have hlt := h.start_lt (Or.inl (by decide))
    rw [lexNormal]
    split_ifs
    · exact htake _ (by decide) _
    · exact advances_token rfl hlt hstart hmode TokenKind.noConfusion
  | separ =>
    have hlt := h.start_lt (Or.inl (by decide))
    rw [lexNormal]
    split_ifs
    · exact htake _ (by decide) _
    · exact advances_token rfl hlt hstart hmode TokenKind.noConfusion
  | mStart =>
    have hlt := h.start_lt (Or.inl (by decide))
    rw [lexNormal]
    unfold lexMStart
    split
    · exact advances_token rfl (Nat.lt_succ_of_lt hlt) hstart hmode TokenKind.noConfusion
    · exact htake _ (by decide) _
    · exact advances_token rfl (Nat.lt_succ_of_lt hlt) hstart hmode TokenKind.noConfusion
    · exact advances_token rfl hlt hstart hmode TokenKind.noConfusion
  | mStop1 =>
    have hlt := h.start_lt (Or.inl (by decide))
    exact advances_token (markupStop_size L) (by rw [markupStop_pos]; exact hlt) hstart hmode TokenKind.noConfusion
  | mStop2 =>
    have hlt := h.start_lt (Or.inl (by decide))
    rw [lexNormal]
    split_ifs
    · refine advances_token (markupStop_size _) ?_ hstart hmode TokenKind.noConfusion
      rw [markupStop_pos]
      exact Nat.lt_succ_of_lt hlt
    · exact advances_error rfl
  | equal => exact advances_token rfl (h.start_lt (Or.inl (by decide))) hstart hmode TokenKind.noConfusion
  | string =>
    have hlt := h.start_lt (Or.inl (by decide))
    rw [lexNormal]
    split_ifs
    · exact advances_token rfl (Nat.lt_succ_of_lt hlt) hstart hmode TokenKind.noConfusion
    · exact htake _ (by decide) _
  | declaration =>
    have hlt := h.start_lt (Or.inl (by decide))
    rw [lexNormal]
    unfold lexDeclaration
    split
    · split_ifs
      · refine advances_token rfl ?_ hstart hmode TokenKind.noConfusion
        show start < L.lexbuf_pos + 2
        omega
      · exact htake _ (by decide) _
    · split_ifs
      · refine advances_token rfl ?_ hstart hmode TokenKind.noConfusion
        show start < L.lexbuf_pos + 7
        omega
      · exact advances_error rfl
    · exact advances_error rfl
  | tiStop =>
    have hlt := h.start_lt (Or.inl (by decide))
    rw [lexNormal]
    split_ifs
    · exact advances_token rfl (Nat.lt_succ_of_lt hlt) hstart hmode TokenKind.noConfusion
    · exact advances_error rfl
  | dash =>
    obtain ⟨hcount, hone⟩ := htracked
    have hlt := h.start_lt (Or.inl (by decide))
    rw [lexNormal]
    unfold lexDash
    split
    · refine advances_more h hpos (hdata _) ⟨?_, ?_⟩ (fun _ => by omega)
      · rw [hlen]
        omega
      · intro htwo
        rw [hlen] at htwo
        rw [hone (by omega)]
        rfl
    · refine advances_more h hpos (hdata _) ?_ (fun heq => by cases heq)
      show start + (tok ++ [_]).length = L.lexbuf_pos + 1
      rw [hlen]
      omega
  | dashes =>
    obtain ⟨hcount, htwo⟩ := htracked
    have hlt := h.two_le rfl
    rw [lexNormal]
    unfold lexDashes
    split
    · split_ifs with hthree
      · -- the bytes before the end of the comment are more than none
        have hne : tok.length ≠ 2 := by
          intro heq
          rw [htwo heq] at hthree
          exact hthree length_cStr_dashes
        refine advances_token rfl ?_ hstart hmode TokenKind.noConfusion
        show start < L.lexbuf_pos + 1 - 3
        omega
      · refine advances_token rfl ?_ hstart hmode TokenKind.noConfusion
        show start < L.lexbuf_pos + 1
        omega
    · refine advances_more h hpos (hdata _) ?_ (fun heq => by cases heq)
      show start + (tok ++ [_]).length = L.lexbuf_pos + 1
      rw [hlen]
      omega
  | ident =>
    have hcount : start + tok.length = L.lexbuf_pos := htracked
    have hlt := h.start_lt (Or.inl (by decide))
    rw [lexNormal]
    unfold lexIdent
    split
    case h_8 => exact htake _ (by decide) _
    case h_9 =>
      refine advances_more h hpos (hdata _) ⟨?_, ?_⟩ (fun heq => by cases heq)
      · rw [hlen]
        omega
      · intro hone
        rw [hlen] at hone
        omega
    case h_10 =>
      refine advances_more h hpos (hdata _) ?_ (fun heq => by cases heq)
      show start + (tok ++ [_]).length = L.lexbuf_pos + 1
      rw [hlen]
      omega
    all_goals exact advances_token rfl hlt hstart hmode TokenKind.noConfusion

theorem lexChar_advances (h : Lexing start L tok state) (hpos : L.lexbuf_pos < L.lexbuf_size) :
    (lexChar L tok state).Advances start L := by
  unfold lexChar
  cases hmode : L.lex_mode with
  | normal => exact lexNormal_advances h hpos hmode
  | data =>
    obtain rfl := h.init_of_data hmode
    have hcount : start + tok.length = L.lexbuf_pos := h.tracked
    simp only
    split_ifs
    · -- no byte is taken, but the mode is left
      have hle := h.start_le
      refine ⟨rfl, TokenKind.noConfusion, Or.inr ?_⟩
      unfold Lexer.left
      simp only [hmode]
      simp
      omega
    · refine advances_more h hpos (fun _ => rfl) ?_ (fun heq => by cases heq)
      show start + (tok ++ [_]).length = L.lexbuf_pos + 1
      rw [List.length_append, List.length_singleton]
      omega

/-- What the lexer has done when it returns a token that starts at `start`: the token is an error, or
the end of the file, or there is less input left than at the start. -/
structure Returned (start : ℕ) (L L' : Lexer) (t : Token) : Prop where
  size_eq : L'.lexbuf_size = L.lexbuf_size
  left_lt : t.res = .error ∨
    (t.res = .eof ∧ L'.lexbuf_size ≤ L'.lexbuf_pos ∧
      L'.left ≤ ({ L with lexbuf_pos := start } : Lexer).left) ∨
    (t.res ≠ .eof ∧ L'.left < ({ L with lexbuf_pos := start } : Lexer).left)

theorem lexEnd_returned (h : Lexing start L tok state) (hgoes : ¬L.Goes tok_size tok) :
    Returned start L L (lexEnd tok_size tok state) := by
  refine ⟨rfl, ?_⟩
  unfold lexEnd
  split_ifs with hfull
  · exact Or.inl rfl
  · have hend : L.lexbuf_size ≤ L.lexbuf_pos := by
      unfold Lexer.Goes at hgoes
      omega
    have hpos := h.pos_le
    have hle : L.left ≤ ({ L with lexbuf_pos := start } : Lexer).left := by
      have hstart := h.start_le
      unfold Lexer.left
      simp only
      omega
    have hlt : state ≠ .init → L.left < ({ L with lexbuf_pos := start } : Lexer).left := by
      intro hne
      have hmode : L.lex_mode ≠ .data := fun hdata => hne (h.init_of_data hdata)
      have hstart := h.start_lt (Or.inl hne)
      unfold Lexer.left
      simp only [hmode, if_false]
      omega
    cases state with
    | init => exact Or.inr (Or.inl ⟨rfl, hend, hle⟩)
    | eol => exact Or.inr (Or.inl ⟨rfl, hend, hle⟩)
    | separ => exact Or.inr (Or.inl ⟨rfl, hend, hle⟩)
    | mStop2 => exact Or.inl rfl
    | declaration => exact Or.inl rfl
    | tiStop => exact Or.inl rfl
    | dash => exact Or.inl rfl
    | dashes => exact Or.inl rfl
    | mStart => exact Or.inr (Or.inr ⟨TokenKind.noConfusion, hlt LexState.noConfusion⟩)
    | mStop1 => exact Or.inr (Or.inr ⟨TokenKind.noConfusion, hlt LexState.noConfusion⟩)
    | equal => exact Or.inr (Or.inr ⟨TokenKind.noConfusion, hlt LexState.noConfusion⟩)
    | string => exact Or.inr (Or.inr ⟨TokenKind.noConfusion, hlt LexState.noConfusion⟩)
    | ident => exact Or.inr (Or.inr ⟨TokenKind.noConfusion, hlt LexState.noConfusion⟩)

theorem lexLoop_returns (tok_size : ℕ) (h : Lexing start L tok state)
    (hrounds : L.lexbuf_size - L.lexbuf_pos ≤ rounds) :
    ∃ L' t, lexLoop tok_size rounds L tok state = some (L', t) ∧ Returned start L L' t := by
  induction rounds generalizing L tok state with
  | zero =>
    have hgoes : ¬L.Goes tok_size tok := by
      unfold Lexer.Goes
      omega
    rw [lexLoop, if_neg hgoes]
    exact ⟨L, _, rfl, lexEnd_returned h hgoes⟩
  | succ rounds ih =>
    by_cases hgoes : L.Goes tok_size tok
    · rw [lexLoop, if_pos hgoes]
      have hadv := lexChar_advances h hgoes.2
      cases hturn : lexChar L tok state with
      | more L' tok' state' =>
        rw [hturn] at hadv
        obtain ⟨hsize, hpos, hmode, hnext⟩ := hadv
        obtain ⟨L'', t, heq, hsize', hleft⟩ := ih hnext (by omega)
        refine ⟨L'', t, heq, hsize'.trans hsize, ?_⟩
        unfold Lexer.left at hleft ⊢
        simp only [hsize, hmode] at hleft ⊢
        exact hleft
      | token L' t =>
        rw [hturn] at hadv
        obtain ⟨hsize, heof, hleft⟩ := hadv
        refine ⟨L', t, rfl, hsize, ?_⟩
        rcases hleft with herr | hlt
        · exact Or.inl herr
        · exact Or.inr (Or.inr ⟨heof, hlt⟩)
    · rw [lexLoop, if_neg hgoes]
      exact ⟨L, _, rfl, lexEnd_returned h hgoes⟩

theorem lexerGetToken_returns (L : Lexer) (tok_size : ℕ) :
    ∃ L' t, lexerGetToken L tok_size = some (L', t) ∧
      (t.res = .error ∨ (t.res = .eof ∧ L'.lexbuf_size ≤ L'.lexbuf_pos ∧ L'.left ≤ L.left) ∨
        (t.res ≠ .eof ∧ L'.left < L.left)) := by
  unfold lexerGetToken
  by_cases hpos : L.lexbuf_pos ≤ L.lexbuf_size
  · have hstart : Lexing L.lexbuf_pos L [] .init := by
      refine ⟨Nat.le_refl _, hpos, ?_, fun _ => rfl, Nat.add_zero _, LexState.noConfusion⟩
      rintro (hne | hne)
      · exact absurd rfl hne
      · exact absurd rfl hne
    obtain ⟨L', t, heq, -, hleft⟩ := lexLoop_returns tok_size hstart (Nat.le_refl _)
    exact ⟨L', t, heq, hleft⟩
  · -- the lexer has run over the end of the buffer
    have hzero : L.lexbuf_size - L.lexbuf_pos = 0 := by omega
    have hgoes : ¬L.Goes tok_size [] := by
      unfold Lexer.Goes
      omega
    rw [hzero, lexLoop, if_neg hgoes]
    refine ⟨L, _, rfl, ?_⟩
    unfold lexEnd
    split_ifs
    · exact Or.inl rfl
    · exact Or.inr (Or.inl ⟨rfl, by omega, Nat.le_refl _⟩)

theorem lexerGetToken_of_end (hend : L.lexbuf_size ≤ L.lexbuf_pos) (hsize : 0 < tok_size) :
    lexerGetToken L tok_size = some (L, ⟨.eof, []⟩) := by
  have hzero : L.lexbuf_size - L.lexbuf_pos = 0 := by omega
  have hgoes : ¬L.Goes tok_size [] := by
    unfold Lexer.Goes
    omega
  unfold lexerGetToken
  rw [hzero, lexLoop, if_neg hgoes]
  unfold lexEnd
  rw [if_neg (by rw [List.length_nil]; omega)]
  rfl

end Xine.Xml

/-!
## Termination of the XML parser

Each round of the token loop consumes input, or takes a token a second time, or leaves the loop, but
for one case: at the end of the input, inside a comment, a processing instruction or a document type,
the round changes nothing. A `Point` is a place in the run of the parser, at the start of a round, and
`Later` takes it to the next ones: in the same call, into a call for a child, or behind one. The parser
returns if and only if no point that it reaches is at that place.
-/

namespace Xine.Xml

open Relation

variable {mode : ParserMode} {root_name : Str} {depth rounds : ℕ} {l l' : Locals} {L L' : Lexer}
  {code : ℤ} {t : Token}

/-- The start of a round: the arguments of the call, its locals and the lexer. -/
structure Point where
  depth : ℕ
  root_name : Str
  locals : Locals
  lexer : Lexer

/-- The rounds behind a round: in the same call, in a call for a child and behind such a call. -/
inductive Later (mode : ParserMode) : Point → Point → Prop
  | again {depth : ℕ} {root_name : Str} {l l' : Locals} {L L' : Lexer}
    (h : nodeRound mode root_name l L = some (.again l', L')) :
    Later mode ⟨depth, root_name, l, L⟩ ⟨depth, root_name, l', L'⟩
  | enter {depth : ℕ} {root_name : Str} {l l' : Locals} {L L' : Lexer}
    (h : nodeRound mode root_name l L = some (.call l', L')) (hdepth : depth + 1 < maxRecursion) :
    Later mode ⟨depth, root_name, l, L⟩ ⟨depth + 1, l'.node_name, Locals.new, L'⟩
  | leave {depth rounds : ℕ} {root_name : Str} {l l' sub : Locals} {L L' L'' : Lexer}
    (h : nodeRound mode root_name l L = some (.call l', L')) (hdepth : depth + 1 < maxRecursion)
    (hsub : getNodeLoop mode rounds (depth + 1) l'.node_name Locals.new L' = some (0, sub, L'')) :
    Later mode ⟨depth, root_name, l, L⟩
      ⟨depth, root_name, l'.append (.mk l'.node_name sub.data l'.properties sub.child), L''⟩

/-- The states that are left by one token only. -/
def ParserState.Inside (state : ParserState) : Prop :=
  state = .comment ∨ state = .ti ∨ state = .doctype

/-- The lexer has come to the end of the input inside a comment, a processing instruction or a
document type. -/
def Point.AtEnd (p : Point) : Prop :=
  p.locals.state.Inside ∧ p.locals.bypass_get_token = false ∧ p.lexer.lexbuf_size ≤ p.lexer.lexbuf_pos

/-- The loop returns from the point. -/
def Point.Returns (mode : ParserMode) (p : Point) : Prop :=
  ∃ rounds r, getNodeLoop mode rounds p.depth p.root_name p.locals p.lexer = some r

/-! ## More rounds -/

theorem getNodeLoop_succ {r : ℤ × Locals × Lexer}
    (h : getNodeLoop mode rounds depth root_name l L = some r) :
    getNodeLoop mode (rounds + 1) depth root_name l L = some r := by
  induction rounds generalizing depth root_name l L r with
  | zero => cases h
  | succ rounds ih =>
    rw [getNodeLoop] at h ⊢
    split at h
    · cases h
    · exact ih h
    · exact h
    · split_ifs at h ⊢
      · split at h
        · cases h
        · next hsub =>
          rw [ih hsub]
          simp only
          split_ifs at h ⊢
          · exact h
          · exact ih h
      · exact h

theorem getNodeLoop_mono {r : ℤ × Locals × Lexer} {rounds' : ℕ} (hle : rounds ≤ rounds')
    (h : getNodeLoop mode rounds depth root_name l L = some r) :
    getNodeLoop mode rounds' depth root_name l L = some r := by
  induction hle with
  | refl => exact h
  | step _ ih => exact getNodeLoop_succ ih

theorem getNodeLoop_unique {r r' : ℤ × Locals × Lexer} {rounds' : ℕ}
    (h : getNodeLoop mode rounds depth root_name l L = some r)
    (h' : getNodeLoop mode rounds' depth root_name l L = some r') : r = r' := by
  have hmax := getNodeLoop_mono (Nat.le_max_left rounds rounds') h
  have hmax' := getNodeLoop_mono (Nat.le_max_right rounds rounds') h'
  exact Option.some.inj (hmax.symm.trans hmax')

/-! ## One round -/

/-- A token is taken a second time in the state of a tag only. -/
def Locals.Sound (l : Locals) : Prop := l.bypass_get_token = true → l.state = .inTag

theorem Locals.sound_new : Locals.new.Sound := fun h => absurd h Bool.false_ne_true

theorem Locals.sound_append (l : Locals) (subtree : XmlNode) (h : l.bypass_get_token = false) :
    (l.append subtree).Sound := fun hbypass => absurd (h.symm.trans hbypass) Bool.false_ne_true

/-- The input that is left, and the token that is to be taken a second time. -/
def Point.left (p : Point) : ℕ := 2 * p.lexer.left + if p.locals.bypass_get_token then 1 else 0

/-- What a round leaves behind, with the locals `l` when it has its token: where it goes on at the end
of the file, it is inside a comment, a processing instruction or a document type. -/
def Turn.Fine (l : Locals) : Turn → Prop
  | .again l' => l'.Sound ∧ (l.token.res = .eof → l.state.Inside) ∧
      (l.state = .inTag → l'.bypass_get_token = false)
  | .call l' => l'.bypass_get_token = false ∧ l.token.res ≠ .eof
  | .ret _ _ => True

theorem turn_fine (h : l.bypass_get_token = false) : (turn mode root_name l).Fine l := by
  have hagain : ∀ l' : Locals, l'.bypass_get_token = false →
      (l.token.res = .eof → l.state.Inside) → (Turn.again l').Fine l := fun l' hl' heof =>
    ⟨fun hbypass => absurd (hl'.symm.trans hbypass) Bool.false_ne_true, heof, fun _ => hl'⟩
  have hno : ∀ k : TokenKind, l.token.res = k → k ≠ .eof → l.token.res = .eof → l.state.Inside :=
    fun k hres hk heof => absurd (hres.symm.trans heof) hk
  have hcall : ∀ k : TokenKind, l.token.res = k → k ≠ .eof → (Turn.call l).Fine l :=
    fun k hres hk => ⟨h, fun heof => hk (hres.symm.trans heof)⟩
  unfold turn
  split
  case h_6 hstate =>
    -- a token is kept for the next round
    split
    case h_4 hres =>
      exact ⟨fun _ => rfl, hno _ hres (by decide), fun hin => absurd (hstate.symm.trans hin) (by decide)⟩
    case h_5 hres =>
      exact ⟨fun _ => rfl, hno _ hres (by decide), fun hin => absurd (hstate.symm.trans hin) (by decide)⟩
    case h_6 => trivial
    all_goals exact hagain _ h (hno _ (by assumption) (by decide))
  case h_8 hstate =>
    split <;> exact hagain _ h fun _ => Or.inl hstate
  case h_9 hstate =>
    split <;> exact hagain _ h fun _ => Or.inr (Or.inl hstate)
  case h_10 hstate =>
    split <;> exact hagain _ h fun _ => Or.inr (Or.inr hstate)
  all_goals
    split
    all_goals first
      | trivial
      | exact hagain _ h (hno _ (by assumption) (by decide))
      | exact hcall _ (by assumption) (by decide)
      | (split_ifs
         · exact hagain _ h (hno _ (by assumption) (by decide))
         · trivial)

/-! ## Points -/

/-- A round goes on with less input left, or returns, and does not add to what is left. -/
def Turn.Advances (p : Point) (L' : Lexer) : Turn → Prop
  | .again l' => l'.Sound ∧ (Point.mk p.depth p.root_name l' L').left < p.left
  | .call l' => l'.bypass_get_token = false ∧ 2 * L'.left < p.left
  | .ret code _ => code = 0 → L'.left ≤ p.lexer.left

theorem left_of_end (h : L.lexbuf_size ≤ L.lexbuf_pos) : L.left ≤ 1 := by
  unfold Lexer.left
  split_ifs <;> omega

theorem left_of_not_end (h : ¬L.lexbuf_size ≤ L.lexbuf_pos) : 2 ≤ L.left := by
  unfold Lexer.left
  omega

theorem fetch_of_bypass (h : l.bypass_get_token = true) :
    fetch l L = some ({ l with bypass_get_token := false }, L) := if_pos h

theorem fetch_of_token (h : l.bypass_get_token = false)
    (htoken : lexerGetToken L tokenSize = some (L', t)) :
    fetch l L = some ({ l with token := t }, L') := by
  unfold fetch
  rw [if_neg (by rw [h]; exact Bool.false_ne_true), htoken]
  rfl

theorem nodeRound_bypass (p : Point) (hsound : p.locals.Sound)
    (hbypass : p.locals.bypass_get_token = true) :
    ∃ step, nodeRound mode p.root_name p.locals p.lexer = some (step, p.lexer) ∧
      step.Advances p p.lexer := by
  unfold nodeRound
  rw [fetch_of_bypass hbypass]
  refine ⟨_, rfl, ?_⟩
  rw [if_neg (by rw [hbypass]; exact fun hand => absurd hand.1 (by decide))]
  have hleft : p.left = 2 * p.lexer.left + 1 := by
    unfold Point.left
    rw [if_pos hbypass]
  have hfine : (turn mode p.root_name { p.locals with bypass_get_token := false }).Fine
      { p.locals with bypass_get_token := false } := turn_fine rfl
  cases hturn : turn mode p.root_name { p.locals with bypass_get_token := false } with
  | again l' =>
    rw [hturn] at hfine
    obtain ⟨hsound', -, htag⟩ := hfine
    refine ⟨hsound', ?_⟩
    rw [hleft]
    unfold Point.left
    simp only [htag (hsound hbypass), Bool.false_eq_true, if_false]
    omega
  | call l' =>
    rw [hturn] at hfine
    exact ⟨hfine.1, by omega⟩
  | ret code l' => exact fun _ => Nat.le_refl _

theorem nodeRound_token (p : Point) (hbypass : p.locals.bypass_get_token = false)
    (hend : ¬p.AtEnd) :
    ∃ step L', nodeRound mode p.root_name p.locals p.lexer = some (step, L') ∧
      step.Advances p L' := by
  obtain ⟨L', t, htoken, hres⟩ := lexerGetToken_returns p.lexer tokenSize
  unfold nodeRound
  rw [fetch_of_token hbypass htoken]
  refine ⟨_, L', rfl, ?_⟩
  have hleft : p.left = 2 * p.lexer.left := by
    unfold Point.left
    rw [hbypass]
    rfl
  have hone : ∀ l' : Locals, (Point.mk p.depth p.root_name l' L').left ≤ 2 * L'.left + 1 := by
    intro l'
    unfold Point.left
    simp only
    split_ifs <;> omega
  by_cases herr : t.res = .error
  · -- the lexer error returns -1
    rw [if_pos ⟨hbypass, herr⟩]
    exact fun hcode => absurd hcode (by decide)
  · rw [if_neg fun hand => herr hand.2]
    have hfine : (turn mode p.root_name { p.locals with token := t }).Fine { p.locals with token := t } :=
      turn_fine hbypass
    rcases hres with hres | ⟨heof, hsize, hle⟩ | ⟨hne, hlt⟩
    · exact absurd hres herr
    · cases hturn : turn mode p.root_name { p.locals with token := t } with
      | again l' =>
        rw [hturn] at hfine
        -- the loop goes on, so that there was input before this token
        have hin := hfine.2.1 heof
        have hnot : ¬p.lexer.lexbuf_size ≤ p.lexer.lexbuf_pos :=
          fun hsize => hend ⟨hin, hbypass, hsize⟩
        have htwo := left_of_not_end hnot
        have hzero := left_of_end hsize
        refine ⟨hfine.1, ?_⟩
        have := hone l'
        omega
      | call l' =>
        rw [hturn] at hfine
        exact absurd heof hfine.2
      | ret code l' => exact fun _ => hle
    · cases hturn : turn mode p.root_name { p.locals with token := t } with
      | again l' =>
        rw [hturn] at hfine
        refine ⟨hfine.1, ?_⟩
        have := hone l'
        omega
      | call l' =>
        rw [hturn] at hfine
        exact ⟨hfine.1, by omega⟩
      | ret code l' => exact fun _ => by omega

theorem nodeRound_advances (mode : ParserMode) (p : Point) (hsound : p.locals.Sound) (hend : ¬p.AtEnd) :
    ∃ step L', nodeRound mode p.root_name p.locals p.lexer = some (step, L') ∧
      step.Advances p L' := by
  cases hbypass : p.locals.bypass_get_token with
  | false => exact nodeRound_token p hbypass hend
  | true =>
    obtain ⟨step, hstep, hadv⟩ := nodeRound_bypass p hsound hbypass
    exact ⟨step, p.lexer, hstep, hadv⟩

/-! ## Runs -/

theorem nodeRound_atEnd {p : Point} (h : p.AtEnd) :
    nodeRound mode p.root_name p.locals p.lexer =
      some (.again { p.locals with token := ⟨.eof, []⟩ }, p.lexer) := by
  obtain ⟨hin, hbypass, hsize⟩ := h
  unfold nodeRound
  rw [fetch_of_token hbypass (lexerGetToken_of_end hsize (by decide))]
  simp only [Option.map_some]
  rw [if_neg fun hand => absurd hand.2 (by decide)]
  unfold turn
  rcases hin with hstate | hstate | hstate <;> rw [hstate]

theorem Point.AtEnd.not_returns {p : Point} (h : p.AtEnd) : ¬p.Returns mode := by
  rintro ⟨rounds, r, hr⟩
  induction rounds generalizing p with
  | zero => cases hr
  | succ rounds ih =>
    rw [getNodeLoop, nodeRound_atEnd h] at hr
    exact ih (p := ⟨p.depth, p.root_name, { p.locals with token := ⟨.eof, []⟩ }, p.lexer⟩) h hr

theorem Later.returns {p q : Point} (h : Later mode p q) (hp : p.Returns mode) : q.Returns mode := by
  obtain ⟨rounds, r, hr⟩ := hp
  cases rounds with
  | zero => cases hr
  | succ rounds =>
    cases h with
    | again hround =>
      simp only [getNodeLoop, hround] at hr
      exact ⟨rounds, r, hr⟩
    | enter hround hdepth =>
      simp only [getNodeLoop, hround, hdepth, if_true] at hr
      split at hr
      · cases hr
      · next hsub => exact ⟨rounds, _, hsub⟩
    | leave hround hdepth hsub =>
      simp only [getNodeLoop, hround, hdepth, if_true] at hr
      split at hr
      · cases hr
      · next hsub' =>
        obtain ⟨rfl, rfl, rfl⟩ := getNodeLoop_unique hsub hsub'
        rw [if_neg (by decide)] at hr
        exact ⟨rounds, r, hr⟩

theorem left_le_of_getNodeLoop {sub : Locals} (hsound : l.Sound)
    (h : getNodeLoop mode rounds depth root_name l L = some (0, sub, L')) :
    2 * L'.left ≤ (Point.mk depth root_name l L).left := by
  induction rounds generalizing depth root_name l L sub L' with
  | zero => cases h
  | succ rounds ih =>
    have hreturns : (Point.mk depth root_name l L).Returns mode := ⟨_, _, h⟩
    obtain ⟨step, L₁, hround, hadv⟩ := nodeRound_advances mode
      (Point.mk depth root_name l L) hsound fun hend => hend.not_returns hreturns
    simp only at hround
    rw [getNodeLoop, hround] at h
    cases step with
    | again l₁ =>
      obtain ⟨hsound₁, hlt⟩ := hadv
      exact Nat.le_trans (ih hsound₁ h) (Nat.le_of_lt hlt)
    | ret code l₁ =>
      obtain ⟨rfl, -, rfl⟩ := h
      have hle := hadv rfl
      unfold Point.left
      simp only at hle ⊢
      omega
    | call l₁ =>
      obtain ⟨hbypass, hlt⟩ := hadv
      simp only at h
      by_cases hdepth : depth + 1 < maxRecursion
      · rw [if_pos hdepth] at h
        split at h
        · cases h
        · next hsub =>
          split_ifs at h with hcode
          · obtain ⟨rfl, -, -⟩ := h
            exact absurd rfl hcode
          · -- the call for the child and the loop behind it
            obtain rfl := not_not.1 hcode
            have hchild := ih Locals.sound_new hsub
            have hrest := ih (Locals.sound_append _ _ hbypass) h
            unfold Point.left at hchild hrest hlt ⊢
            simp only [Locals.append, Locals.new, hbypass, Bool.false_eq_true, if_false] at *
            omega
      · rw [if_neg hdepth] at h
        have hcode : (-1 : ℤ) = 0 := congrArg Prod.fst (Option.some.inj h)
        exact absurd hcode (by decide)

theorem returns_of_not_atEnd {p : Point} (hsound : p.locals.Sound)
    (h : ∀ q, ReflTransGen (Later mode) p q → ¬q.AtEnd) : p.Returns mode := by
  induction hn : p.left using Nat.strongRecOn generalizing p with
  | _ n ih =>
    obtain ⟨depth, root_name, l, L⟩ := p
    subst hn
    obtain ⟨step, L', hround, hadv⟩ := nodeRound_advances mode _ hsound (h _ .refl)
    simp only at hround
    have hnext : ∀ q, Later mode ⟨depth, root_name, l, L⟩ q → q.locals.Sound →
        q.left < (Point.mk depth root_name l L).left → q.Returns mode := by
      intro q hlater hq hlt
      exact ih _ hlt hq (fun q' hq' => h q' (.head hlater hq')) rfl
    cases step with
    | again l' =>
      obtain ⟨hsound', hlt⟩ := hadv
      obtain ⟨rounds, r, hr⟩ := hnext _ (.again hround) hsound' hlt
      exact ⟨rounds + 1, r, by rw [getNodeLoop, hround]; exact hr⟩
    | ret code l' => exact ⟨1, _, by rw [getNodeLoop, hround]⟩
    | call l' =>
      obtain ⟨hbypass, hlt⟩ := hadv
      by_cases hdepth : depth + 1 < maxRecursion
      · obtain ⟨rounds, ⟨code, sub, L''⟩, hsub⟩ := hnext _ (.enter hround hdepth) Locals.sound_new hlt
        by_cases hcode : code = 0
        · subst hcode
          have hle := left_le_of_getNodeLoop Locals.sound_new hsub
          obtain ⟨rounds', r, hr⟩ := hnext _ (.leave hround hdepth hsub)
            (Locals.sound_append _ _ hbypass) (by
              refine Nat.lt_of_le_of_lt ?_ hlt
              unfold Point.left at hle ⊢
              simpa only [Locals.append, Locals.new, hbypass, Bool.false_eq_true, if_false,
                Nat.add_zero] using hle)
          -- enough rounds for both
          have hsub' := getNodeLoop_mono (Nat.le_max_left rounds rounds') hsub
          have hr' := getNodeLoop_mono (Nat.le_max_right rounds rounds') hr
          refine ⟨max rounds rounds' + 1, r, ?_⟩
          rw [getNodeLoop, hround]
          simp only [hdepth, if_true, hsub']
          rw [if_neg (by decide)]
          exact hr'
        · refine ⟨rounds + 1, (code, l', L''), ?_⟩
          rw [getNodeLoop, hround]
          simp only [hdepth, if_true, hsub]
          rw [if_pos hcode]
      · refine ⟨1, (-1, l', L'), ?_⟩
        rw [getNodeLoop, hround]
        exact if_neg hdepth

/-- The start of `xml_parser_build_tree`. -/
def Point.start (buf : ℕ → Char) (size : ℕ) : Point := ⟨0, [], Locals.new, lexerInit buf size⟩

/-- The parser returns from an input if and only if it does not come to the end of the input inside a
comment, a processing instruction or a document type. -/
theorem xmlParserBuildTree_returns_iff (mode : ParserMode) (buf : ℕ → Char) (size : ℕ) :
    (∃ rounds tree, xmlParserBuildTree mode rounds buf size = some tree) ↔
      ∀ p, ReflTransGen (Later mode) (Point.start buf size) p → ¬p.AtEnd := by
  have hiff : (∃ rounds tree, xmlParserBuildTree mode rounds buf size = some tree) ↔
      (Point.start buf size).Returns mode := by
    unfold xmlParserBuildTree xmlParserGetNode Point.Returns
    refine exists_congr fun rounds => ?_
    constructor
    · rintro ⟨tree, htree⟩
      obtain ⟨r, hr, -⟩ := Option.map_eq_some_iff.1 htree
      exact ⟨r, hr⟩
    · rintro ⟨r, hr⟩
      exact ⟨_, Option.map_eq_some_iff.2 ⟨r, hr, rfl⟩⟩
  rw [hiff]
  constructor
  · intro hreturns p hp hend
    have hall : p.Returns mode := by
      clear hend
      induction hp with
      | refl => exact hreturns
      | tail _ hlater ih => exact hlater.returns ih
    exact hend.not_returns hall
  · exact returns_of_not_atEnd Locals.sound_new

/-- An input that ends in a comment: the parser does not return. -/
theorem xmlParserBuildTree_hangs : ¬∃ rounds tree,
    xmlParserBuildTree .caseSensitive rounds (fun i => "<!-- x".toList.getD i ' ') 6 = some tree := by
  rintro ⟨rounds, tree, htree⟩
  obtain ⟨r, hr, -⟩ := Option.map_eq_some_iff.1 htree
  have hstart : (Point.start (fun i => "<!-- x".toList.getD i ' ') 6).Returns .caseSensitive :=
    ⟨rounds, r, hr⟩
  -- the start of the comment, the blank and the `x`
  have h₁ := (Later.again rfl).returns hstart
  have h₂ := (Later.again rfl).returns h₁
  have h₃ := (Later.again rfl).returns h₂
  refine absurd h₃ (Point.AtEnd.not_returns ⟨Or.inl rfl, rfl, ?_⟩)
  decide

end Xine.Xml
