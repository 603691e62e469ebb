import Mathlib.Data.Int.Init
import Mathlib.Data.List.TakeDrop
import Mathlib.Data.List.TakeWhile
import Xine.Xml.Parser

/-!
# The tokens of a text

What the lexer returns when a known text is ahead of it. `Lexer.rest` is the input that is left, as a string, and
`Lexes L tok state L' t` says that the loop of the lexer, with `tok` read so far, returns the token `t`.
-/

namespace Xine.Xml

variable {L L' : Lexer} {tok tok' w v : Str} {state state' : LexState} {t : Token} {c : Char}

/-! ## The input ahead -/

/-- The input that is left. -/
def Lexer.rest (L : Lexer) : Str :=
  (List.range (L.lexbuf_size - L.lexbuf_pos)).map fun i => L.lexbuf (L.lexbuf_pos + i)

theorem Lexer.length_rest (L : Lexer) : L.rest.length = L.lexbuf_size - L.lexbuf_pos := by
  unfold rest
  rw [List.length_map, List.length_range]

theorem Lexer.rest_getElem? (L : Lexer) (i : ℕ) :
    L.rest[i]? = if L.lexbuf_pos + i < L.lexbuf_size then some (L.lexbuf (L.lexbuf_pos + i)) else none := by
  unfold rest
  rw [List.getElem?_map]
  split_ifs with h
  · rw [List.getElem?_range (by omega), Option.map_some]
  · rw [List.getElem?_eq_none (by rw [List.length_range]; omega), Option.map_none]

theorem Lexer.rest_forward (L : Lexer) (n : ℕ) : (L.forward n).rest = L.rest.drop n := by
  refine List.ext_getElem? fun i => ?_
  rw [List.getElem?_drop, rest_getElem?, rest_getElem?]
  unfold forward
  simp only [Nat.add_assoc]

theorem Lexer.rest_eq_cons (h : L.rest = c :: w) :
    L.lexbuf_pos < L.lexbuf_size ∧ L.lexbuf L.lexbuf_pos = c ∧ (L.forward 1).rest = w := by
  have hlen : L.rest.length = w.length + 1 := by rw [h, List.length_cons]
  rw [length_rest] at hlen
  refine ⟨by omega, ?_, ?_⟩
  · have hget : L.rest[0]? = some c := by rw [h]; rfl
    rw [rest_getElem?, if_pos (by omega)] at hget
    exact Option.some.inj hget
  · rw [rest_forward, h]
    rfl

@[simp] theorem Lexer.forward_forward (L : Lexer) (m n : ℕ) :
    (L.forward m).forward n = L.forward (m + n) := by
  unfold forward
  simp only [Nat.add_assoc]

@[simp] theorem Lexer.forward_lex_mode (L : Lexer) (n : ℕ) : (L.forward n).lex_mode = L.lex_mode := rfl

/-! ## The loop of the lexer -/

/-- The loop of the lexer returns the token `t`. -/
def Lexes (L : Lexer) (tok : Str) (state : LexState) (L' : Lexer) (t : Token) : Prop :=
  lexLoop tokenSize L.rest.length L tok state = some (L', t)

theorem lexerGetToken_eq (h : Lexes L [] .init L' t) : lexerGetToken L tokenSize = some (L', t) := by
  unfold Lexes at h
  rwa [Lexer.length_rest] at h

theorem Lexes.more (hrest : L.rest = c :: w) (hlen : tok.length < tokenSize)
    (hturn : lexChar L tok state = .more (L.forward 1) tok' state')
    (h : Lexes (L.forward 1) tok' state' L' t) : Lexes L tok state L' t := by
  obtain ⟨hpos, -, hnext⟩ := Lexer.rest_eq_cons hrest
  unfold Lexes at h ⊢
  rw [hrest, List.length_cons, lexLoop, if_pos ⟨hlen, hpos⟩, hturn]
  rwa [hnext] at h

theorem Lexes.token (hrest : L.rest = c :: w) (hlen : tok.length < tokenSize)
    (hturn : lexChar L tok state = .token L' t) : Lexes L tok state L' t := by
  obtain ⟨hpos, -, -⟩ := Lexer.rest_eq_cons hrest
  unfold Lexes
  rw [hrest, List.length_cons, lexLoop, if_pos ⟨hlen, hpos⟩, hturn]

theorem Lexes.atEnd (hrest : L.rest = []) : Lexes L tok state L (lexEnd tokenSize tok state) := by
  have hlen : L.rest.length = 0 := by rw [hrest, List.length_nil]
  have hgoes : ¬L.Goes tokenSize tok := by
    unfold Lexer.Goes
    rw [Lexer.length_rest] at hlen
    omega
  unfold Lexes
  rw [hlen, lexLoop, if_neg hgoes]

theorem Lexes.full (hlen : tokenSize ≤ tok.length) : Lexes L tok state L ⟨.error, cStr tok⟩ := by
  have hgoes : ¬L.Goes tokenSize tok := fun h => Nat.not_lt_of_le hlen h.1
  have hend : lexEnd tokenSize tok state = ⟨.error, cStr tok⟩ := by
    unfold lexEnd
    exact if_pos hlen
  unfold Lexes
  cases L.rest.length with
  | zero => rw [lexLoop, if_neg hgoes, hend]
  | succ n => rw [lexLoop, if_neg hgoes, hend]

theorem lexChar_normal (hmode : L.lex_mode = .normal) (hrest : L.rest = c :: w) :
    lexChar L tok state = lexNormal L c tok state := by
  obtain ⟨-, hc, -⟩ := Lexer.rest_eq_cons hrest
  unfold lexChar
  rw [hmode, hc]

theorem lexChar_forward {n : ℕ} (hmode : L.lex_mode = .normal) (hrest : (L.forward n).rest = c :: w) :
    lexChar (L.forward n) tok state = lexNormal (L.forward n) c tok state :=
  lexChar_normal hmode hrest

theorem Lexes.run {p : Char → Prop} (hrest : L.rest = w ++ v) (hw : ∀ c ∈ w, p c)
    (hturn : ∀ (n : ℕ) (tok : Str) (c : Char) (u : Str), p c → (L.forward n).rest = c :: u →
      lexChar (L.forward n) tok state = .more (L.forward (n + 1)) (tok ++ [c]) state)
    (hlen : (tok ++ w).length ≤ tokenSize)
    (h : Lexes (L.forward w.length) (tok ++ w) state L' t) : Lexes L tok state L' t := by
  have hgen : ∀ (n : ℕ) (tok : Str) (w : Str), (L.forward n).rest = w ++ v → (∀ c ∈ w, p c) →
      (tok ++ w).length ≤ tokenSize → Lexes (L.forward (n + w.length)) (tok ++ w) state L' t →
      Lexes (L.forward n) tok state L' t := by
    intro n tok w
    induction w generalizing n tok with
    | nil =>
      intro _ _ _ h
      rwa [List.append_nil] at h
    | cons c w ih =>
      intro hrest hw hlen h
      obtain ⟨hc, hw⟩ := List.forall_mem_cons.1 hw
      have hnext := (Lexer.rest_eq_cons hrest).2.2
      rw [Lexer.forward_forward] at hnext
      refine Lexes.more hrest ?_ (hturn n tok c _ hc hrest) ?_
      · simp only [List.length_append, List.length_cons] at hlen
        omega
      · rw [Lexer.forward_forward]
        refine ih (n + 1) (tok ++ [c]) hnext hw ?_ ?_
        · rwa [List.append_assoc, List.singleton_append]
        · rw [List.append_assoc, List.singleton_append, Nat.add_assoc, Nat.add_comm 1]
          exact h
  have h0 : L.forward 0 = L := rfl
  refine h0 ▸ hgen 0 tok w (by rwa [h0]) hw hlen ?_
  rwa [Nat.zero_add]

/-! ## Whole tokens -/

/-- The lexer, outside comments unless stated otherwise, with its mode and the input ahead. -/
structure Lexer.At (L : Lexer) (mode : LexMode) (v : Str) (in_comment : Bool := false) : Prop where
  lex_mode : L.lex_mode = mode
  in_comment : L.in_comment = in_comment
  rest : L.rest = v

theorem Lexer.At.forward {mode : LexMode} {b : Bool} (h : L.At mode (w ++ v) b) :
    (L.forward w.length).At mode v b := by
  refine ⟨h.lex_mode, h.in_comment, ?_⟩
  rw [rest_forward, h.rest, List.drop_left]

/-- The next token of the lexer. -/
def Lexer.Gives (L : Lexer) (t : Token) (L' : Lexer) : Prop := lexerGetToken L tokenSize = some (L', t)

/-- A letter or a digit. -/
def NameChar (c : Char) : Prop := c.isAlphanum = true

/-- The bytes that end an identifier. -/
def StopsIdent (c : Char) : Prop :=
  c = '<' ∨ c = '>' ∨ c = '\\' ∨ c = '\"' ∨ c = ' ' ∨ c = '\t' ∨ c = '='

/-- A blank or a tab. -/
def IsSepar (c : Char) : Prop := c = ' ' ∨ c = '\t'

/-- The end of a line. -/
def IsEol (c : Char) : Prop := c = '\n' ∨ c = '\r'

theorem lexInit_name (h : NameChar c) : lexInit L c tok = .more (L.forward 1) (tok ++ [c]) .ident := by
  unfold lexInit
  split
  case h_12 => rfl
  all_goals exact absurd h (by unfold NameChar; decide)

theorem lexIdent_name (h : NameChar c) : lexIdent L c tok = .more (L.forward 1) (tok ++ [c]) .ident := by
  unfold lexIdent
  split
  case h_10 => rfl
  all_goals exact absurd h (by unfold NameChar; decide)

theorem lexIdent_stop (h : StopsIdent c) : lexIdent L c tok = .token L ⟨.ident, cStr tok⟩ := by
  unfold lexIdent
  rcases h with rfl | rfl | rfl | rfl | rfl | rfl | rfl <;> rfl

theorem cStr_eq (h : ∀ c ∈ w, c ≠ '\x00') : cStr w = w := by
  unfold cStr
  refine List.takeWhile_eq_self_iff.2 fun c hc => ?_
  simpa using h c hc

theorem NameChar.ne_null (h : NameChar c) : c ≠ '\x00' := by
  rintro rfl
  exact absurd h (by unfold NameChar; decide)

theorem gives_run {p : Char → Prop} {d : Char} {u : Str} {res : TokenKind} {b : Bool}
    (h : L.At .normal (d :: u ++ c :: v) b) (hlen : (d :: u).length < tokenSize)
    (hfirst : ∀ L, lexNormal L d [] .init = .more (L.forward 1) [d] state)
    (hu : ∀ b ∈ u, p b)
    (hrun : ∀ L tok b, p b → lexNormal L b tok state = .more (L.forward 1) (tok ++ [b]) state)
    (hstop : ∀ L tok, lexNormal L c tok state = .token L ⟨res, cStr tok⟩) :
    L.Gives ⟨res, cStr (d :: u)⟩ (L.forward (d :: u).length) := by
  have hrest : L.rest = d :: (u ++ c :: v) := h.rest
  have hnext := (Lexer.rest_eq_cons hrest).2.2
  have hend := (Lexer.At.forward h).rest
  have hfirst' : lexChar L [] .init = .more (L.forward 1) [d] state := by
    rw [lexChar_normal h.lex_mode hrest, hfirst]
  have hstop' : lexChar (L.forward (d :: u).length) (d :: u) state =
      .token (L.forward (d :: u).length) ⟨res, cStr (d :: u)⟩ := by
    rw [lexChar_forward h.lex_mode hend, hstop]
  refine lexerGetToken_eq
    (Lexes.more hrest (by decide) hfirst' (Lexes.run hnext hu ?_ (Nat.le_of_lt hlen) ?_))
  · intro n tok b w hb hrest'
    rw [Lexer.forward_forward] at hrest' ⊢
    rw [lexChar_forward h.lex_mode hrest', hrun _ _ _ hb, Lexer.forward_forward,
      Lexer.forward_forward, Nat.add_assoc]
  · rw [Lexer.forward_forward, Nat.add_comm 1, ← List.length_cons]
    exact Lexes.token hend hlen hstop'

theorem gives_run_end {p : Char → Prop} {d : Char} {u : Str} {b : Bool}
    (h : L.At .normal (d :: u) b) (hlen : (d :: u).length < tokenSize)
    (hfirst : ∀ L, lexNormal L d [] .init = .more (L.forward 1) [d] state)
    (hu : ∀ b ∈ u, p b)
    (hrun : ∀ L tok b, p b → lexNormal L b tok state = .more (L.forward 1) (tok ++ [b]) state) :
    L.Gives (lexEnd tokenSize (d :: u) state) (L.forward (d :: u).length) := by
  have hnext := (Lexer.rest_eq_cons h.rest).2.2
  have hend : (L.forward (d :: u).length).rest = [] := by
    rw [Lexer.rest_forward, h.rest, List.drop_length]
  have hfirst' : lexChar L [] .init = .more (L.forward 1) [d] state := by
    rw [lexChar_normal h.lex_mode h.rest, hfirst]
  refine lexerGetToken_eq (Lexes.more h.rest (by decide) hfirst'
    (Lexes.run (hnext.trans (List.append_nil u).symm) hu ?_ (Nat.le_of_lt hlen) ?_))
  · intro n tok b w hb hrest'
    rw [Lexer.forward_forward] at hrest' ⊢
    rw [lexChar_forward h.lex_mode hrest', hrun _ _ _ hb, Lexer.forward_forward,
      Lexer.forward_forward, Nat.add_assoc]
  · rw [Lexer.forward_forward, Nat.add_comm 1, ← List.length_cons]
    exact Lexes.atEnd hend

theorem gives_ident {b : Bool} (h : L.At .normal (w ++ c :: v) b) (hne : w ≠ []) (hw : ∀ d ∈ w, NameChar d)
    (hc : StopsIdent c) (hlen : w.length < tokenSize) :
    L.Gives ⟨.ident, w⟩ (L.forward w.length) := by
  have hnull : cStr w = w := cStr_eq fun c hc => (hw c hc).ne_null
  obtain ⟨d, u, rfl⟩ := List.exists_cons_of_ne_nil hne
  obtain ⟨hd, hu⟩ := List.forall_mem_cons.1 hw
  have hgives := gives_run h hlen (fun L => lexInit_name hd) hu
    (fun L tok b hb => lexIdent_name hb) fun L tok => lexIdent_stop hc
  rwa [hnull] at hgives

/-- White space. -/
def IsBlank (c : Char) : Prop := IsSepar c ∨ IsEol c

instance : DecidablePred IsSepar := fun c => by unfold IsSepar; infer_instance

instance : DecidablePred IsEol := fun c => by unfold IsEol; infer_instance

theorem gives_kind {p : Char → Prop} [DecidablePred p] (state : LexState) (res : TokenKind) {b : Bool}
    (h : L.At .normal (w ++ v) b)
    (hhead : ∃ d u, w = d :: u ∧ p d) (hlen : w.length < tokenSize)
    (hfirst : ∀ L d, p d → lexNormal L d [] .init = .more (L.forward 1) [d] state)
    (hrun : ∀ L tok b, p b → lexNormal L b tok state = .more (L.forward 1) (tok ++ [b]) state)
    (hstop : ∀ L tok c, ¬p c → lexNormal L c tok state = .token L ⟨res, cStr tok⟩)
    (hv : ∀ c ∈ v.head?, ¬p c) (hends : state = .separ ∨ state = .eol) :
    ∃ w₂ L' t, L.Gives t L' ∧ L'.At .normal (w₂ ++ v) b ∧ w₂.length < w.length ∧
      (∀ c ∈ w₂, c ∈ w) ∧ (t.res = res ∨ t.res = .eof ∧ w₂ ++ v = []) := by
  obtain ⟨d, u, rfl, hd⟩ := hhead
  have hsplit : d :: u = d :: u.takeWhile p ++ u.dropWhile p := by
    rw [List.cons_append, List.takeWhile_append_dropWhile]
  have hall : ∀ b ∈ u.takeWhile p, p b := fun b hb => by simpa using List.mem_takeWhile_imp hb
  have hshort : (d :: u.takeWhile p).length ≤ (d :: u).length := by
    rw [List.length_cons, List.length_cons]
    exact Nat.succ_le_succ (List.takeWhile_sublist _).length_le
  rw [hsplit, List.append_assoc] at h
  refine ⟨u.dropWhile p, L.forward (d :: u.takeWhile p).length, ?_⟩
  have hat := h.forward
  have hmem : ∀ c ∈ u.dropWhile p, c ∈ d :: u :=
    fun c hc => List.mem_cons_of_mem d ((List.dropWhile_sublist _).mem hc)
  have hless : (u.dropWhile p).length < (d :: u).length := by
    rw [List.length_cons]
    exact Nat.lt_succ_of_le (List.dropWhile_sublist _).length_le
  cases hrest : u.dropWhile p ++ v with
  | nil =>
    rw [hrest, List.append_nil] at h
    rw [hrest] at hat
    refine ⟨_, gives_run_end h (Nat.lt_of_le_of_lt hshort hlen) (fun L => hfirst L d hd) hall hrun, hat,
      hless, hmem, Or.inr ⟨?_, rfl⟩⟩
    unfold lexEnd
    rw [if_neg (Nat.not_le_of_lt (Nat.lt_of_le_of_lt hshort hlen))]
    rcases hends with rfl | rfl <;> rfl
  | cons c v' =>
    rw [hrest] at h hat
    have hc : ¬p c := by
      cases hdrop : u.dropWhile p with
      | nil =>
        rw [hdrop, List.nil_append] at hrest
        rw [hrest] at hv
        exact hv c rfl
      | cons c' w' =>
        rw [hdrop, List.cons_append] at hrest
        obtain ⟨rfl, -⟩ := List.cons.inj hrest
        have hnot := List.head_dropWhile_not (fun b => decide (p b)) (show u.dropWhile (fun b => decide (p b)) ≠ [] by
          rw [hdrop]; exact List.cons_ne_nil _ _)
        simpa [hdrop] using hnot
    exact ⟨_, gives_run h (Nat.lt_of_le_of_lt hshort hlen) (fun L => hfirst L d hd) hall hrun
      (fun L tok => hstop L tok c hc), hat, hless, hmem, Or.inl rfl⟩

theorem gives_blank {b : Bool} (h : L.At .normal (w ++ v) b) (hne : w ≠ []) (hw : ∀ c ∈ w, IsBlank c)
    (hv : ∀ c ∈ v.head?, ¬IsBlank c) (hlen : w.length < tokenSize) :
    ∃ w₂ L' t, L.Gives t L' ∧ L'.At .normal (w₂ ++ v) b ∧ w₂.length < w.length ∧
      (∀ c ∈ w₂, IsBlank c) ∧ (t.res = .separ ∨ t.res = .eol ∨ t.res = .eof ∧ w₂ ++ v = []) := by
  obtain ⟨d, u, rfl⟩ := List.exists_cons_of_ne_nil hne
  rcases (List.forall_mem_cons.1 hw).1 with hd | hd
  · obtain ⟨w₂, L', t, hgives, hat, hless, hmem, hres⟩ := gives_kind .separ .separ
      (p := IsSepar) h ⟨d, u, rfl, hd⟩ hlen
      (fun L d hd => by rcases hd with rfl | rfl <;> rfl)
      (fun L tok b hb => by rw [lexNormal]; exact if_pos hb)
      (fun L tok c hc => by rw [lexNormal]; exact if_neg hc)
      (fun c hc hsep => hv c hc (Or.inl hsep)) (Or.inl rfl)
    exact ⟨w₂, L', t, hgives, hat, hless, fun c hc => hw c (hmem c hc), hres.imp_right Or.inr⟩
  · obtain ⟨w₂, L', t, hgives, hat, hless, hmem, hres⟩ := gives_kind .eol .eol
      (p := IsEol) h ⟨d, u, rfl, hd⟩ hlen
      (fun L d hd => by rcases hd with rfl | rfl <;> rfl)
      (fun L tok b hb => by rw [lexNormal]; exact if_pos hb)
      (fun L tok c hc => by rw [lexNormal]; exact if_neg hc)
      (fun c hc heol => hv c hc (Or.inr heol)) (Or.inr rfl)
    exact ⟨w₂, L', t, hgives, hat, hless, fun c hc => hw c (hmem c hc), Or.inr hres⟩

theorem gives_string (h : L.At .normal ('\"' :: w ++ '\"' :: v)) (hw : ∀ d ∈ w, d ≠ '\"' ∧ d ≠ '\x00')
    (hlen : w.length < tokenSize) : L.Gives ⟨.string, w⟩ (L.forward (w.length + 2)) := by
  have hrest : L.rest = '\"' :: (w ++ '\"' :: v) := h.rest
  have hnext := (Lexer.rest_eq_cons hrest).2.2
  have hend : (L.forward (w.length + 1)).rest = '\"' :: v := (Lexer.At.forward h).rest
  have hfirst : lexChar L [] .init = .more (L.forward 1) [] .string :=
    lexChar_normal h.lex_mode hrest
  have hstop : lexChar (L.forward (w.length + 1)) w .string =
      .token (L.forward (w.length + 2)) ⟨.string, w⟩ := by
    rw [lexChar_forward h.lex_mode hend, lexNormal, if_pos rfl, Lexer.forward_forward,
      cStr_eq fun c hc => (hw c hc).2]
  refine lexerGetToken_eq (Lexes.more hrest (by decide) hfirst
    (Lexes.run (p := (· ≠ '\"')) hnext (fun c hc => (hw c hc).1) ?_ (Nat.le_of_lt hlen) ?_))
  · intro n tok b u hb hrest'
    rw [Lexer.forward_forward] at hrest' ⊢
    rw [lexChar_forward h.lex_mode hrest', lexNormal, if_neg hb, Lexer.forward_forward,
      Lexer.forward_forward, Nat.add_assoc]
  · rw [Lexer.forward_forward, Nat.add_comm 1]
    exact Lexes.token hend hlen hstop

theorem gives_byte {d : Char} (h : L.At .normal (d :: c :: v))
    (hfirst : ∀ L, L.in_comment = false → lexNormal L d [] .init = .more (L.forward 1) [d] state)
    (hnext : lexNormal (L.forward 1) c [d] state = .token L' t) : L.Gives t L' := by
  have hrest := (Lexer.rest_eq_cons h.rest).2.2
  have hfirst' : lexChar L [] .init = .more (L.forward 1) [d] state :=
    (lexChar_normal h.lex_mode h.rest).trans (hfirst L h.in_comment)
  have hnext' : lexChar (L.forward 1) [d] state = .token L' t :=
    (lexChar_forward h.lex_mode hrest).trans hnext
  exact lexerGetToken_eq
    (Lexes.more h.rest (by decide) hfirst' (Lexes.token hrest (show 1 < tokenSize by decide) hnext'))

theorem gives_equal (h : L.At .normal ('=' :: c :: v)) : L.Gives ⟨.equal, ['=']⟩ (L.forward 1) :=
  gives_byte h (fun _ _ => rfl) rfl

theorem gives_mStart1 (h : L.At .normal ('<' :: c :: v)) (hc : NameChar c) :
    L.Gives ⟨.mStart1, ['<']⟩ (L.forward 1) := by
  refine gives_byte h (fun _ _ => rfl) ?_
  rw [lexNormal]
  unfold lexMStart
  split
  case h_4 => rfl
  all_goals exact absurd hc (by unfold NameChar; decide)

theorem gives_mStart2 (h : L.At .normal ('<' :: '/' :: v)) :
    L.Gives ⟨.mStart2, ['<', '/']⟩ (L.forward 2) :=
  gives_byte h (fun _ _ => rfl) rfl

theorem Lexer.At.markupStop {mode : LexMode} (h : L.At mode v) : L.markupStop.At .data v := by
  unfold Lexer.markupStop
  rw [if_neg (by rw [h.in_comment]; exact Bool.false_ne_true)]
  exact ⟨rfl, h.in_comment, h.rest⟩

theorem gives_mStop1 (h : L.At .normal ('>' :: v)) :
    ∃ L' mode, L.Gives ⟨.mStop1, ['>']⟩ L' ∧ L'.At mode v ∧ (v ≠ [] → mode = .data) := by
  have hnext : (L.forward 1).At .normal v := h.forward (w := ['>'])
  cases v with
  | nil =>
    refine ⟨L.forward 1, .normal, ?_, hnext, fun hne => absurd rfl hne⟩
    have hfirst : lexChar L [] .init = .more (L.forward 1) ['>'] .mStop1 :=
      lexChar_normal h.lex_mode h.rest
    exact lexerGetToken_eq (Lexes.more h.rest (by decide) hfirst (Lexes.atEnd hnext.rest))
  | cons c v =>
    exact ⟨(L.forward 1).markupStop, .data, gives_byte h (fun _ _ => rfl) rfl, hnext.markupStop,
      fun _ => rfl⟩

theorem gives_mStop2 (h : L.At .normal ('/' :: '>' :: v)) :
    ∃ L', L.Gives ⟨.mStop2, ['/', '>']⟩ L' ∧ L'.At .data v := by
  have hnext : (L.forward 2).At .normal v := h.forward (w := ['/', '>'])
  have hfirst : ∀ L, L.in_comment = false →
      lexNormal L '/' [] .init = .more (L.forward 1) ['/'] .mStop2 := by
    intro L hL
    rw [lexNormal]
    unfold lexInit
    rw [hL]
    rfl
  exact ⟨(L.forward 2).markupStop, gives_byte h hfirst rfl, hnext.markupStop⟩

theorem gives_cStart (h : L.At .normal ('<' :: '!' :: '-' :: '-' :: v)) :
    ∃ L', L.Gives ⟨.cStart, "<!--".toList⟩ L' ∧ L'.lex_mode = .normal ∧ L'.in_comment = true ∧
      L'.rest = v := by
  have h₁ := (Lexer.rest_eq_cons h.rest).2.2
  have h₂ := (Lexer.rest_eq_cons h₁).2.2
  have h₃ := (Lexer.rest_eq_cons h₂).2.2
  have h₄ := (Lexer.rest_eq_cons h₃).2.2
  refine ⟨{ (L.forward 2).forward 2 with in_comment := true },
    lexerGetToken_eq (Lexes.more h.rest (by decide) (lexChar_normal h.lex_mode h.rest)
      (Lexes.more h₁ (by decide) (lexChar_forward h.lex_mode h₁)
        (Lexes.token h₂ (by decide) ?_))), h.lex_mode, rfl, h₄⟩
  refine (lexChar_forward (n := 2) h.lex_mode h₂).trans ?_
  -- the byte behind it is looked for in the buffer
  exact if_pos (Lexer.rest_eq_cons h₃).2.1

theorem lexChar_data {n : ℕ} (hmode : L.lex_mode = .data) (hrest : (L.forward n).rest = c :: w) :
    lexChar (L.forward n) tok state =
      if c = '<' then .token { L.forward n with lex_mode := .normal } ⟨.data, cStr tok⟩
      else .more ((L.forward n).forward 1) (tok ++ [c]) state := by
  unfold lexChar
  rw [(Lexer.rest_eq_cons hrest).2.1, Lexer.forward_lex_mode, hmode]

theorem gives_data (h : L.At .data (w ++ '<' :: v)) (hw : ∀ c ∈ w, c ≠ '<') (hlen : w.length < tokenSize) :
    ∃ L', L.Gives ⟨.data, cStr w⟩ L' ∧ L'.At .normal ('<' :: v) := by
  have hend := h.forward
  refine ⟨{ L.forward w.length with lex_mode := .normal }, lexerGetToken_eq
    (Lexes.run (p := (· ≠ '<')) h.rest hw ?_ (Nat.le_of_lt hlen) (Lexes.token hend.rest hlen ?_)),
    rfl, hend.in_comment, hend.rest⟩
  · intro n tok c u hc hrest
    rw [lexChar_data h.lex_mode hrest, if_neg hc, Lexer.forward_forward]
  · rw [lexChar_data h.lex_mode hend.rest, if_pos rfl]
    rfl

theorem gives_data_full (h : L.At .data (w ++ v)) (hw : ∀ c ∈ w, c ≠ '<') (hlen : w.length = tokenSize) :
    L.Gives ⟨.error, cStr w⟩ (L.forward w.length) := by
  refine lexerGetToken_eq
    (Lexes.run (p := (· ≠ '<')) h.rest hw ?_ (Nat.le_of_eq hlen) (Lexes.full (Nat.le_of_eq hlen.symm)))
  intro n tok c u hc hrest
  rw [lexChar_data h.lex_mode hrest, if_neg hc, Lexer.forward_forward]

theorem gives_data_end (h : L.At .data w) (hw : ∀ c ∈ w, c ≠ '<') (hlen : w.length < tokenSize) :
    L.Gives ⟨.eof, cStr w⟩ (L.forward w.length) := by
  have hend : (L.forward w.length).rest = [] := by
    rw [Lexer.rest_forward, h.rest, List.drop_length]
  have heof : lexEnd tokenSize w .init = ⟨.eof, cStr w⟩ := by
    unfold lexEnd
    exact if_neg (Nat.not_le_of_lt hlen)
  refine lexerGetToken_eq (heof ▸ Lexes.run (p := (· ≠ '<')) (h.rest.trans (List.append_nil w).symm) hw
    ?_ (Nat.le_of_lt hlen) (Lexes.atEnd hend))
  intro n tok c u hc hrest
  rw [lexChar_data h.lex_mode hrest, if_neg hc, Lexer.forward_forward]

end Xine.Xml

/-!
## The memory that the lexer touches

What `lexer_get_token` reads of the input buffer and writes into the token buffer, round by round, beside what it
does. The head of the loop checks both positions for one byte; the looks ahead and the writes behind it (marked
`FIXME` in the source) are not checked again.
-/

namespace Xine.Xml

/-- A byte that is read at `lexbuf[i]` or written at `tok[i]`. -/
inductive Access
  | read (i : ℕ)
  | write (i : ℤ)
deriving DecidableEq

/-- The access is inside the input buffer or the token buffer. -/
def Access.Within (lexbuf_size tok_size : ℕ) : Access → Prop
  | read i => i < lexbuf_size
  | write i => 0 ≤ i ∧ i < tok_size

/-- The bytes that `strncmp (lexbuf + pos, word, ..)` reads, up to the first that differs. -/
def strncmpReads (lexbuf : ℕ → Char) : ℕ → Str → List Access
  | _, [] => []
  | pos, c :: word => .read pos :: if lexbuf pos = c then strncmpReads lexbuf (pos + 1) word else []

/-- The byte behind `<`. -/
def mStartAccesses (c : Char) (tok_pos : ℤ) : List Access :=
  match c with
  | '/' | '?' => [.write tok_pos, .write (tok_pos + 1)]
  | _ => [.write tok_pos]

/-- The bytes behind `<!`. -/
def declarationAccesses (L : Lexer) (c : Char) (tok_pos : ℤ) : List Access :=
  match c with
  | '-' =>
    .read (L.lexbuf_pos + 1) ::
      if L.lexbuf (L.lexbuf_pos + 1) = '-' then
        [.write tok_pos, .write (tok_pos + 1), .write (tok_pos + 2)]
      else []
  | 'D' =>
    strncmpReads L.lexbuf (L.lexbuf_pos + 1) "OCTYPE".toList ++
      if (List.range 6).map (fun i : ℕ => L.lexbuf (L.lexbuf_pos + 1 + i)) = "OCTYPE".toList then
        -- `strncpy (tok + tok_pos, "DOCTYPE", 7)`
        (List.range 7).map fun i : ℕ => .write (tok_pos + i)
      else []
  | _ => []

/-- The byte behind `--`. -/
def dashesAccesses (c : Char) (tok : Str) : List Access :=
  match c with
  | '>' =>
    [.write tok.length, .write (tok.length + 1)] ++
      if (cStr (tok ++ [c])).length ≠ 3 then [.write (tok.length + 1 - 3)] else []
  | _ => [.write tok.length]

/-- The switch on the state, for the byte `c` at `lexbuf_pos`. -/
def lexNormalAccesses (L : Lexer) (c : Char) (tok : Str) : LexState → List Access
  | .init => if c = '\"' then [] else [.write tok.length]
  | .mStart => mStartAccesses c tok.length
  | .mStop2 | .tiStop =>
    if c = '>' then [.write tok.length, .write (tok.length + 1)] else [.write tok.length]
  | .string => if c = '\"' then [.write tok.length, .write tok.length] else [.write tok.length]
  | .declaration => declarationAccesses L c tok.length
  | .dashes => dashesAccesses c tok
  -- the byte itself, or the null byte at the end of the token
  | .eol | .separ | .mStop1 | .equal | .dash | .ident => [.write tok.length]

/-- One round of the loop. -/
def lexCharAccesses (L : Lexer) (tok : Str) (state : LexState) : List Access :=
  .read L.lexbuf_pos ::
    match L.lex_mode with
    | .normal => lexNormalAccesses L (L.lexbuf L.lexbuf_pos) tok state
    | .data => [.write tok.length]

/-- Behind the loop. -/
def lexEndAccesses (L : Lexer) (tok_size : ℕ) (tok : Str) : List Access :=
  if tok.length ≥ tok_size then []
  else if L.lexbuf_pos ≥ L.lexbuf_size then [.write tok.length]
  else []

/-- The loop of `lexer_get_token`, in a number of rounds. -/
def lexLoopAccesses (tok_size : ℕ) : ℕ → Lexer → Str → LexState → List Access
  | 0, L, tok, _ => if L.Goes tok_size tok then [] else lexEndAccesses L tok_size tok
  | rounds + 1, L, tok, state =>
    if L.Goes tok_size tok then
      lexCharAccesses L tok state ++
        match lexChar L tok state with
        | .more L tok state => lexLoopAccesses tok_size rounds L tok state
        | .token _ _ => []
    else
      lexEndAccesses L tok_size tok

/-- `lexer_get_token`. -/
def lexerAccesses (L : Lexer) (tok_size : ℕ) : List Access :=
  lexLoopAccesses tok_size (L.lexbuf_size - L.lexbuf_pos) L [] .init

/-- `lexer_get_token` stays in its buffers. -/
def Lexer.Stays (L : Lexer) (tok_size : ℕ) : Prop :=
  ∀ a ∈ lexerAccesses L tok_size, a.Within L.lexbuf_size tok_size

end Xine.Xml
