import Xine.Xml.Tokens

/-!
# Trees and their renderings

A tree is what an XML text stands for: names, attributes, text at the leaves, children. An `Elem` is a
way to write one, with all blank space and comments in it, `Elem.tree` the tree and `Elem.text` the
text. Between nodes stands a `Misc`, white space with comments in it. A rendering is `Plain` where the
lexer can follow it: names end at a byte that ends identifiers, tokens fit into the token buffer, the
tag at the end of an element has no blank space, and comments are lexed up to their own end.
-/

namespace Xine.Xml

/-- An XML tree. A node has text or children. -/
inductive Tree where
  | mk (name : Str) (attrs : List (Str × Str)) (text : Str) (children : List Tree)

/-- A name of letters and digits. -/
structure Name where
  text : Str
  ne_nil : text ≠ []
  alphanumeric : ∀ c ∈ text, NameChar c

/-- White space, which may be empty. -/
structure Blanks where
  text : Str
  blank : ∀ c ∈ text, IsBlank c

/-- No white space. -/
def Blanks.none : Blanks := ⟨[], fun c hc => by cases hc⟩

/-- An attribute: the white space before it, its name, the white space around `=`, and its value. -/
structure Attr where
  before : Blanks
  before_ne_nil : before.text ≠ []
  name : Name
  ahead : Blanks
  behind : Blanks
  value : Str
  value_unquoted : ∀ c ∈ value, c ≠ '\"' ∧ c ≠ '\x00'

/-- The text of a leaf. -/
structure Words where
  text : Str
  unmarked : ∀ c ∈ text, c ≠ '<' ∧ c ≠ '\x00'

/-- What stands between nodes: white space, and comments with white space behind each. -/
structure Misc where
  first : Blanks
  comments : List (Str × Blanks)

/-- Nothing between two nodes. -/
def Misc.none : Misc := ⟨Blanks.none, []⟩

mutual

/-- A node as it is written: without content and without an end tag, with text, or with children. -/
inductive Elem where
  | empty (name : Name) (attrs : List Attr) (blank : Blanks)
  | leaf (name : Name) (attrs : List Attr) (blank : Blanks) (words : Words) (last : Blanks)
  | node (name : Name) (attrs : List Attr) (blank : Blanks) (misc : Misc) (content : Content)
    (last : Blanks)

/-- The children of a node, with what stands behind each. -/
inductive Content where
  | last (e : Elem) (misc : Misc)
  | more (e : Elem) (misc : Misc) (rest : Content)

end

/-! ## The tree -/

/-- An attribute as it is in the tree, in one of the modes of the parser. -/
def Attr.pair (mode : ParserMode) (a : Attr) : Str × Str := (mode.name a.name.text, a.value)

mutual

/-- The tree that is written, with its names as one of the modes of the parser takes them. -/
def Elem.tree (mode : ParserMode) : Elem → Tree
  | .empty name attrs _ => .mk (mode.name name.text) (attrs.map (Attr.pair mode)) [] []
  | .leaf name attrs _ words _ => .mk (mode.name name.text) (attrs.map (Attr.pair mode)) words.text []
  | .node name attrs _ _ content _ =>
    .mk (mode.name name.text) (attrs.map (Attr.pair mode)) [] (content.trees mode)

def Content.trees (mode : ParserMode) : Content → List Tree
  | .last e _ => [e.tree mode]
  | .more e _ rest => e.tree mode :: rest.trees mode

end

mutual

/-- The depth of the tree. -/
def Elem.depth : Elem → ℕ
  | .empty .. => 1
  | .leaf .. => 1
  | .node _ _ _ _ content _ => content.depth + 1

def Content.depth : Content → ℕ
  | .last e _ => e.depth
  | .more e _ rest => max e.depth rest.depth

end

/-! ## The text -/

def Attr.text (a : Attr) : Str :=
  a.before.text ++ (a.name.text ++ (a.ahead.text ++ '=' :: (a.behind.text ++
    '\"' :: a.value ++ ['\"'])))

/-- A comment. -/
def commentText (c : Str) : Str := "<!--".toList ++ c ++ "-->".toList

def Misc.text (m : Misc) : Str :=
  m.first.text ++ m.comments.flatMap fun p => commentText p.1 ++ p.2.text

/-- The inside of a tag: its name, its attributes and the white space behind them. -/
def tagText (name : Name) (attrs : List Attr) (blank : Blanks) : Str :=
  name.text ++ attrs.flatMap Attr.text ++ blank.text

/-- The tag at the end of an element. -/
def endTag (name : Name) (last : Blanks) : Str := '<' :: '/' :: (name.text ++ last.text ++ ['>'])

mutual

def Elem.text : Elem → Str
  | .empty name attrs blank => '<' :: (tagText name attrs blank ++ ['/', '>'])
  | .leaf name attrs blank words last =>
    '<' :: (tagText name attrs blank ++ '>' :: (words.text ++ endTag name last))
  | .node name attrs blank misc content last =>
    '<' :: (tagText name attrs blank ++ '>' :: (misc.text ++ (content.text ++ endTag name last)))

def Content.text : Content → Str
  | .last e misc => e.text ++ misc.text
  | .more e misc rest => e.text ++ (misc.text ++ rest.text)

end

/-- A document: the root, with what stands before and behind it. -/
structure Document where
  prolog : Misc
  root : Elem
  epilog : Misc

def Document.text (d : Document) : Str := d.prolog.text ++ (d.root.text ++ d.epilog.text)

/-! ## Plain renderings -/

/-- The lexer, inside a comment, comes to the end of the comment without an error. -/
inductive Lexer.Skips : Lexer → Lexer → Prop
  | stop {L L' : Lexer} {t : Token} (h : L.Gives t L') (hres : t.res = .cStop) : Skips L L'
  | more {L L' L'' : Lexer} {t : Token} (h : L.Gives t L') (herr : t.res ≠ .error)
    (hstop : t.res ≠ .cStop) (hskips : Skips L' L'') : Skips L L''

/-- A comment that the lexer reads up to the `-->` behind it, whatever follows. -/
def CommentPlain (c : Str) : Prop :=
  ∀ (L : Lexer) (v : Str), L.lex_mode = .normal → L.in_comment = true →
    L.rest = c ++ ("-->".toList ++ v) → ∃ L', L.Skips L' ∧ L'.At .normal v

/-- A string that fits into the token buffer. -/
def Fits (w : Str) : Prop := w.length < tokenSize

instance (w : Str) : Decidable (Fits w) := by
  unfold Fits
  infer_instance

/-- A name before a byte that ends it. -/
def Name.Plain (name : Name) (behind : Str) : Prop :=
  Fits name.text ∧ ∀ c ∈ behind.head?, StopsIdent c

structure Attr.Plain (a : Attr) : Prop where
  before : Fits a.before.text
  name : a.name.Plain (a.ahead.text ++ ['='])
  ahead : Fits a.ahead.text
  behind : Fits a.behind.text
  value : Fits a.value

structure Misc.Plain (m : Misc) : Prop where
  first : Fits m.first.text
  comments : ∀ p ∈ m.comments, CommentPlain p.1 ∧ Fits p.2.text

theorem Misc.plain_none : Misc.none.Plain :=
  ⟨by decide, fun p hp => by cases hp⟩

/-- The inside of a tag before its last bytes. -/
structure TagPlain (name : Name) (attrs : List Attr) (blank : Blanks) (behind : Str) : Prop where
  name : name.Plain (attrs.flatMap Attr.text ++ (blank.text ++ behind))
  attrs : ∀ a ∈ attrs, a.Plain
  blank : Fits blank.text

mutual

def Elem.Plain : Elem → Prop
  | .empty name attrs blank => TagPlain name attrs blank ['/', '>']
  | .leaf name attrs blank words last =>
    TagPlain name attrs blank ['>'] ∧ Fits words.text ∧ last.text = []
  | .node name attrs blank misc content last =>
    TagPlain name attrs blank ['>'] ∧ misc.Plain ∧ content.Plain ∧ last.text = []

def Content.Plain : Content → Prop
  | .last e misc => e.Plain ∧ misc.Plain
  | .more e misc rest => e.Plain ∧ misc.Plain ∧ rest.Plain

end

structure Document.Plain (d : Document) : Prop where
  prolog : d.prolog.Plain
  root : d.root.Plain
  epilog : d.epilog.Plain

end Xine.Xml

/-!
## Comments of words

Inside a comment the lexer goes on with its normal tokens until it meets `-->`. A comment of letters,
digits and white space is plain: an identifier right before its end is cut off there.
-/

namespace Xine.Xml

variable {L L' : Lexer} {tok w v : Str} {c : Char}

/-- The bytes that the lexer takes into an identifier inside a comment of words. -/
def IsWord (c : Char) : Prop := NameChar c ∨ IsEol c

instance : DecidablePred IsWord := fun c => by
  unfold IsWord NameChar
  infer_instance

theorem lexIdent_word (h : IsWord c) : lexIdent L c tok = .more (L.forward 1) (tok ++ [c]) .ident := by
  rcases h with hname | rfl | rfl
  · exact lexIdent_name hname
  · rfl
  · rfl

theorem gives_cStop (h : L.At .normal ("-->".toList ++ v) true) :
    ∃ L', L.Gives ⟨.cStop, "-->".toList⟩ L' ∧ L'.At .normal v := by
  have h₁ := (Lexer.rest_eq_cons h.rest).2.2
  have h₂ := (Lexer.rest_eq_cons h₁).2.2
  have h₃ := (Lexer.rest_eq_cons h₂).2.2
  exact ⟨{ (L.forward 2).forward 1 with in_comment := false },
    lexerGetToken_eq (Lexes.more h.rest (by decide) (lexChar_normal h.lex_mode h.rest)
      (Lexes.more h₁ (by decide) (lexChar_forward h.lex_mode h₁)
        (Lexes.token h₂ (by decide) (lexChar_forward (n := 2) h.lex_mode h₂)))),
    h.lex_mode, rfl, h₃⟩

theorem IsWord.ne_null (h : IsWord c) : c ≠ '\x00' := by
  rcases h with hname | rfl | rfl
  · exact hname.ne_null
  · decide
  · decide

theorem gives_word_end (hne : w ≠ []) (hfirst : ∀ c ∈ w.head?, NameChar c) (hw : ∀ c ∈ w, IsWord c)
    (hlen : w.length + 3 ≤ tokenSize) (h : L.At .normal (w ++ ("-->".toList ++ v)) true) :
    ∃ tok, L.Gives ⟨.ident, tok⟩ (L.forward w.length) := by
  obtain ⟨d, u, rfl⟩ := List.exists_cons_of_ne_nil hne
  have hrest : L.rest = d :: (u ++ ("-->".toList ++ v)) := h.rest
  have hnext := (Lexer.rest_eq_cons hrest).2.2
  have hfirst' : lexChar L [] .init = .more (L.forward 1) [d] .ident := by
    rw [lexChar_normal h.lex_mode hrest]
    exact lexInit_name (hfirst d rfl)
  -- the three bytes behind the identifier
  obtain ⟨n, hn⟩ : ∃ n, (d :: u).length = n := ⟨_, rfl⟩
  have h₁ : (L.forward n).rest = '-' :: '-' :: '>' :: v := hn ▸ h.forward.rest
  have h₂ := (Lexer.rest_eq_cons h₁).2.2
  rw [Lexer.forward_forward] at h₂
  have h₃ := (Lexer.rest_eq_cons h₂).2.2
  rw [Lexer.forward_forward] at h₃
  have hturn₁ : lexChar (L.forward n) (d :: u) .ident =
      .more ((L.forward n).forward 1) ((d :: u) ++ ['-']) .dash := lexChar_forward h.lex_mode h₁
  have hturn₂ : lexChar (L.forward (n + 1)) ((d :: u) ++ ['-']) .dash =
      .more ((L.forward (n + 1)).forward 1) ((d :: u) ++ ['-'] ++ ['-']) .dashes :=
    lexChar_forward h.lex_mode h₂
  have hnull : (cStr ((d :: u) ++ ['-'] ++ ['-'] ++ ['>'])).length ≠ 3 := by
    rw [cStr_eq fun c hc => ?_]
    · simp only [List.length_append, List.length_cons, List.length_nil]
      omega
    · simp only [List.mem_append, List.mem_singleton] at hc
      rcases hc with ((hc | rfl) | rfl) | rfl
      · exact (hw c hc).ne_null
      all_goals decide
  have hturn₃ : lexChar (L.forward (n + 1 + 1)) ((d :: u) ++ ['-'] ++ ['-']) .dashes =
      .token (L.forward n) ⟨.ident, cStr (((d :: u) ++ ['-'] ++ ['-'] ++ ['>']).take
        (((d :: u) ++ ['-'] ++ ['-'] ++ ['>']).length - 3))⟩ :=
    (lexChar_forward h.lex_mode h₃).trans (if_pos hnull)
  have hlexes₃ := Lexes.token h₃
    (show ((d :: u) ++ ['-'] ++ ['-']).length < tokenSize by
      simp only [List.length_append, List.length_singleton]
      omega) hturn₃
  have hlexes₂ := Lexes.more h₂
    (show ((d :: u) ++ ['-']).length < tokenSize by
      simp only [List.length_append, List.length_singleton]
      omega) hturn₂ (by rwa [Lexer.forward_forward])
  have hlexes₁ := Lexes.more h₁ (by omega) hturn₁ (by rwa [Lexer.forward_forward])
  rw [hn]
  refine ⟨_, lexerGetToken_eq (Lexes.more hrest (by decide) hfirst' (Lexes.run hnext
    (List.forall_mem_cons.1 hw).2 ?_ (show (d :: u).length ≤ tokenSize by omega)
    (by rwa [Lexer.forward_forward, Nat.add_comm 1, ← List.length_cons, hn])))⟩
  intro n tok b w hb hrest'
  rw [Lexer.forward_forward] at hrest' ⊢
  rw [lexChar_forward h.lex_mode hrest', Lexer.forward_forward]
  exact (lexIdent_word hb).trans (by rw [Lexer.forward_forward, Nat.add_assoc])

theorem commentPlain_of_words (hw : ∀ c ∈ w, NameChar c ∨ IsBlank c) (hlen : w.length + 3 ≤ tokenSize) :
    CommentPlain w := by
  intro L v hmode hcomment hrest
  induction hn : w.length using Nat.strongRecOn generalizing w L with
  | _ n ih =>
    have hat : L.At .normal (w ++ ("-->".toList ++ v)) true := ⟨hmode, hcomment, hrest⟩
    -- a token takes the lexer to a rest of the comment
    have hgo : ∀ (w₂ : Str) (L₁ : Lexer) (t : Token), L.Gives t L₁ → t.res ≠ .error → t.res ≠ .cStop →
        L₁.At .normal (w₂ ++ ("-->".toList ++ v)) true → w₂.length < n → (∀ c ∈ w₂, c ∈ w) →
        ∃ L', L.Skips L' ∧ L'.At .normal v := by
      intro w₂ L₁ t hgives herr hstop hat₁ hless hmem
      obtain ⟨L', hskips, hat'⟩ := ih w₂.length hless (fun c hc => hw c (hmem c hc)) (by omega)
        L₁ hat₁.lex_mode hat₁.in_comment hat₁.rest rfl
      exact ⟨L', .more hgives herr hstop hskips, hat'⟩
    by_cases hnil : w = []
    · subst hnil
      obtain ⟨L', hgives, hat'⟩ := gives_cStop hat
      exact ⟨L', .stop hgives rfl, hat'⟩
    · obtain ⟨d, u, rfl⟩ := List.exists_cons_of_ne_nil hnil
      have hdash : ∀ c ∈ ("-->".toList ++ v).head?, c = '-' := fun c hc => (Option.some.inj hc).symm
      have hend : ∀ w₂ : Str, w₂ ++ ("-->".toList ++ v) ≠ [] :=
        fun w₂ => List.append_ne_nil_of_right_ne_nil _ (List.cons_ne_nil _ _)
      rcases (List.forall_mem_cons.1 hw).1 with hd | hd | hd
      · -- an identifier, up to a blank or to the end of the comment
        have hall : ∀ b ∈ u.takeWhile IsWord, IsWord b := fun b hb => by
          simpa using List.mem_takeWhile_imp hb
        have hsplit : d :: u = (d :: u.takeWhile IsWord) ++ u.dropWhile IsWord := by
          rw [List.cons_append, List.takeWhile_append_dropWhile]
        have hfirst : ∀ c ∈ (d :: u.takeWhile IsWord).head?, NameChar c := fun c hc =>
          Option.some.inj hc ▸ hd
        have hword : ∀ c ∈ d :: u.takeWhile IsWord, IsWord c :=
          List.forall_mem_cons.2 ⟨Or.inl hd, hall⟩
        have hshort : (d :: u.takeWhile IsWord).length + (u.dropWhile IsWord).length = n := by
          rw [← List.length_append, ← hsplit, hn]
        have hmem : ∀ c ∈ u.dropWhile IsWord, c ∈ d :: u :=
          fun c hc => List.mem_cons_of_mem d ((List.dropWhile_sublist _).mem hc)
        have hless : (u.dropWhile IsWord).length < n := by
          rw [List.length_cons] at hshort
          omega
        rw [hsplit, List.append_assoc] at hat
        cases hdrop : u.dropWhile IsWord with
        | nil =>
          rw [hdrop] at hat hless
          obtain ⟨tok, hgives⟩ := gives_word_end (List.cons_ne_nil _ _) hfirst hword (by omega) hat
          exact hgo [] _ _ hgives TokenKind.noConfusion TokenKind.noConfusion hat.forward hless
            (fun c hc => by cases hc)
        | cons c w' =>
          have hc : ¬IsWord c := by
            have hnot := List.head_dropWhile_not (fun b => decide (IsWord b))
              (show u.dropWhile (fun b => decide (IsWord b)) ≠ [] by
                rw [hdrop]; exact List.cons_ne_nil _ _)
            simpa [hdrop] using hnot
          have hstop : StopsIdent c := by
            rcases hw c (hmem c (by rw [hdrop]; exact List.mem_cons_self)) with hname | hsepar | heol
            · exact absurd (Or.inl hname) hc
            · unfold StopsIdent
              rcases hsepar with rfl | rfl <;> simp
            · exact absurd (Or.inr heol) hc
          rw [hdrop] at hat hless hmem
          have hgives := gives_run hat (by omega) (fun L => lexInit_name hd) hall
            (fun L tok b hb => lexIdent_word hb) fun L tok => lexIdent_stop hstop
          exact hgo _ _ _ hgives TokenKind.noConfusion TokenKind.noConfusion hat.forward hless hmem
      · obtain ⟨w₂, L₁, t, hgives, hat₁, hless, hmem, hres⟩ := gives_kind .separ .separ
          (p := IsSepar) hat ⟨d, u, rfl, hd⟩ (by omega)
          (fun L d hd => by rcases hd with rfl | rfl <;> rfl)
          (fun L tok b hb => by rw [lexNormal]; exact if_pos hb)
          (fun L tok c hc => by rw [lexNormal]; exact if_neg hc)
          (fun c hc => by rw [hdash c hc]; unfold IsSepar; decide) (Or.inl rfl)
        have hkind : t.res = .separ := hres.resolve_right fun hand => hend w₂ hand.2
        exact hgo w₂ L₁ t hgives (by rw [hkind]; decide) (by rw [hkind]; decide) hat₁ (hn ▸ hless) hmem
      · obtain ⟨w₂, L₁, t, hgives, hat₁, hless, hmem, hres⟩ := gives_kind .eol .eol
          (p := IsEol) hat ⟨d, u, rfl, hd⟩ (by omega)
          (fun L d hd => by rcases hd with rfl | rfl <;> rfl)
          (fun L tok b hb => by rw [lexNormal]; exact if_pos hb)
          (fun L tok c hc => by rw [lexNormal]; exact if_neg hc)
          (fun c hc => by rw [hdash c hc]; unfold IsEol; decide) (Or.inr rfl)
        have hkind : t.res = .eol := hres.resolve_right fun hand => hend w₂ hand.2
        exact hgo w₂ L₁ t hgives (by rw [hkind]; decide) (by rw [hkind]; decide) hat₁ (hn ▸ hless) hmem

end Xine.Xml
