import Xine.Xml.Comments
import Xine.Xml.Termination

/-!
# The parser reads back what was written

From a plain rendering the parser builds the tree that was written. `Reaches` says that the loop of
`xml_parser_get_node` comes from one point to another, so that it returns from the first what it returns from the
second.
-/

namespace Xine.Xml

variable {mode : ParserMode} {depth : ℕ} {root_name : Str} {l l₁ l₂ : Locals} {L L₁ L₂ : Lexer}
  {t : Token} {v w : Str}

/-! ## Runs of the loop -/

/-- The loop returns `r`. -/
def Yields (mode : ParserMode) (depth : ℕ) (root_name : Str) (l : Locals) (L : Lexer)
    (r : ℤ × Locals × Lexer) : Prop :=
  ∃ rounds, getNodeLoop mode rounds depth root_name l L = some r

/-- The loop comes from one point to another. -/
def Reaches (mode : ParserMode) (depth : ℕ) (root_name : Str) (l : Locals) (L : Lexer) (l₁ : Locals)
    (L₁ : Lexer) : Prop :=
  ∀ r, Yields mode depth root_name l₁ L₁ r → Yields mode depth root_name l L r

theorem Reaches.refl : Reaches mode depth root_name l L l L := fun _ h => h

theorem Reaches.trans (h : Reaches mode depth root_name l L l₁ L₁)
    (h' : Reaches mode depth root_name l₁ L₁ l₂ L₂) : Reaches mode depth root_name l L l₂ L₂ :=
  fun r hr => h r (h' r hr)

theorem nodeRound_of_gives (hbypass : l.bypass_get_token = false) (hgives : L.Gives t L₁)
    (herr : t.res ≠ .error) :
    nodeRound mode root_name l L = some (turn mode root_name { l with token := t }, L₁) := by
  have hfetch : fetch l L = some ({ l with token := t }, L₁) := by
    unfold fetch
    rw [if_neg (by rw [hbypass]; exact Bool.false_ne_true), hgives]
    rfl
  unfold nodeRound
  rw [hfetch]
  simp only [Option.map_some]
  rw [if_neg fun hand => herr hand.2]

theorem Reaches.token (hbypass : l.bypass_get_token = false) (hgives : L.Gives t L₁)
    (herr : t.res ≠ .error) (hturn : turn mode root_name { l with token := t } = .again l₁) :
    Reaches mode depth root_name l L l₁ L₁ := by
  rintro r ⟨rounds, hr⟩
  refine ⟨rounds + 1, ?_⟩
  rw [getNodeLoop, nodeRound_of_gives hbypass hgives herr, hturn]
  exact hr

theorem Yields.token {code : ℤ} (hbypass : l.bypass_get_token = false) (hgives : L.Gives t L₁)
    (herr : t.res ≠ .error) (hturn : turn mode root_name { l with token := t } = .ret code l₁) :
    Yields mode depth root_name l L (code, l₁, L₁) := by
  refine ⟨1, ?_⟩
  rw [getNodeLoop, nodeRound_of_gives hbypass hgives herr, hturn]

theorem Reaches.call {sub : Locals} (hbypass : l.bypass_get_token = false) (hgives : L.Gives t L₁)
    (herr : t.res ≠ .error) (hturn : turn mode root_name { l with token := t } = .call l₁)
    (hdepth : depth + 1 < maxRecursion)
    (hcall : Yields mode (depth + 1) l₁.node_name Locals.new L₁ (0, sub, L₂)) :
    Reaches mode depth root_name l L
      (l₁.append (.mk l₁.node_name sub.data l₁.properties sub.child)) L₂ := by
  rintro r ⟨rounds, hr⟩
  obtain ⟨rounds', hsub⟩ := hcall
  refine ⟨max rounds rounds' + 1, ?_⟩
  rw [getNodeLoop, nodeRound_of_gives hbypass hgives herr, hturn]
  simp only [hdepth, if_true, getNodeLoop_mono (Nat.le_max_right rounds rounds') hsub]
  rw [if_neg (by decide)]
  exact getNodeLoop_mono (Nat.le_max_left rounds rounds') hr

/-! ## White space -/

/-- The states in which the loop passes over white space. -/
def ParserState.TakesBlanks (state : ParserState) : Prop :=
  state = .idle ∨ state = .inTag ∨ state = .propName ∨ state = .propValue

theorem turn_blank (hstate : l.state.TakesBlanks) (hres : t.res = .separ ∨ t.res = .eol) :
    turn mode root_name { l with token := t } = .again { l with token := t } := by
  unfold turn
  rcases hstate with hstate | hstate | hstate | hstate <;> rcases hres with hres | hres <;>
    simp only [hstate, hres]

variable (mode depth root_name) in
theorem reaches_blanks (hbypass : l.bypass_get_token = false) (hstate : l.state.TakesBlanks)
    (h : L.At .normal (w ++ v)) (hw : ∀ c ∈ w, IsBlank c) (hfits : Fits w) (hne : v ≠ [])
    (hv : ∀ c ∈ v.head?, ¬IsBlank c) :
    ∃ t L', Reaches mode depth root_name l L { l with token := t } L' ∧ L'.At .normal v := by
  induction hn : w.length using Nat.strongRecOn generalizing w l L with
  | _ n ih =>
    by_cases hnil : w = []
    · subst hnil
      exact ⟨l.token, L, Reaches.refl, h⟩
    · obtain ⟨w₂, L', t, hgives, hat, hless, hw₂, hres⟩ := gives_blank h hnil hw hv hfits
      have hkind : t.res = .separ ∨ t.res = .eol := by
        rcases hres with hres | hres | ⟨-, hend⟩
        · exact Or.inl hres
        · exact Or.inr hres
        · exact absurd (List.append_eq_nil_iff.1 hend).2 hne
      have herr : t.res ≠ .error := by
        rcases hkind with hres | hres <;> (rw [hres]; decide)
      obtain ⟨t', L'', hreach, hat'⟩ := ih w₂.length (hn ▸ hless) (l := { l with token := t })
        hbypass hstate hat hw₂ (Nat.lt_trans hless hfits) rfl
      exact ⟨t', L'', (Reaches.token hbypass hgives herr (turn_blank hstate hkind)).trans hreach, hat'⟩

theorem yields_blanks (hbypass : l.bypass_get_token = false) (hstate : l.state = .idle)
    (h : L.At .normal w) (hw : ∀ c ∈ w, IsBlank c) (hfits : Fits w) :
    ∃ t L', Yields mode depth root_name l L (0, { l with token := t }, L') := by
  have heof : ∀ (l : Locals) (L L' : Lexer) (t : Token), l.bypass_get_token = false →
      l.state = .idle → L.Gives t L' → t.res = .eof →
      Yields mode depth root_name l L (0, { l with token := t }, L') := by
    intro l L L' t hbypass hstate hgives hres
    refine Yields.token hbypass hgives (by rw [hres]; decide) ?_
    unfold turn
    simp only [hstate, hres]
  induction hn : w.length using Nat.strongRecOn generalizing w l L with
  | _ n ih =>
    by_cases hnil : w = []
    · subst hnil
      exact ⟨_, _, heof l L _ _ hbypass hstate (lexerGetToken_eq (Lexes.atEnd h.rest)) rfl⟩
    · obtain ⟨w₂, L', t, hgives, hat, hless, hw₂, hres⟩ :=
        gives_blank (v := []) (by rwa [List.append_nil]) hnil hw (fun c hc => by cases hc) hfits
      rw [List.append_nil] at hat
      have hgo : t.res = .separ ∨ t.res = .eol →
          ∃ t' L'', Yields mode depth root_name l L (0, { l with token := t' }, L'') := by
        intro hkind
        have herr : t.res ≠ .error := by
          rcases hkind with hres | hres <;> (rw [hres]; decide)
        obtain ⟨t', L'', hyields⟩ := ih w₂.length (hn ▸ hless) (l := { l with token := t })
          hbypass hstate hat hw₂ (Nat.lt_trans hless hfits) rfl
        exact ⟨t', L'',
          Reaches.token hbypass hgives herr (turn_blank (Or.inl hstate) hkind) _ hyields⟩
      rcases hres with hres | hres | ⟨hres, -⟩
      · exact hgo (Or.inl hres)
      · exact hgo (Or.inr hres)
      · exact ⟨t, L', heof l L L' t hbypass hstate hgives hres⟩

/-! ## Tags -/

theorem NameChar.not_isBlank {c : Char} (h : NameChar c) : ¬IsBlank c := by
  rintro ((rfl | rfl) | (rfl | rfl)) <;> exact absurd h (by unfold NameChar; decide)

theorem Name.head_not_isBlank (name : Name) (v : Str) : ∀ c ∈ (name.text ++ v).head?, ¬IsBlank c := by
  intro c hc
  rw [List.head?_append_of_ne_nil _ name.ne_nil] at hc
  exact (name.alphanumeric c (List.mem_of_mem_head? hc)).not_isBlank

theorem Name.gives (name : Name) (h : L.At .normal (name.text ++ v)) (hfits : Fits name.text)
    (hne : v ≠ []) (hv : ∀ c ∈ v.head?, StopsIdent c) :
    ∃ L', L.Gives ⟨.ident, name.text⟩ L' ∧ L'.At .normal v := by
  obtain ⟨c, u, rfl⟩ := List.exists_cons_of_ne_nil hne
  exact ⟨_, gives_ident h name.ne_nil name.alphanumeric (hv c rfl) hfits, h.forward⟩

/-- A property as the parser keeps it. -/
def Attr.property (mode : ParserMode) (a : Attr) : XmlProperty :=
  ⟨mode.name a.name.text, some a.value⟩

variable (mode depth root_name) in
theorem reaches_attr {a : Attr} (ha : a.Plain) (hbypass : l.bypass_get_token = false)
    (hstate : l.state = .inTag) (h : L.At .normal (a.text ++ v)) :
    ∃ t L', Reaches mode depth root_name l L
        { l with
          state := .inTag, token := t, property_name := mode.name a.name.text
          properties := l.properties ++ [a.property mode] } L' ∧ L'.At .normal v := by
  unfold Attr.text at h
  simp only [List.append_assoc, List.cons_append, List.nil_append] at h
  -- the white space before the name, the name and the white space behind it
  obtain ⟨t₁, L₁, hreach₁, hat₁⟩ := reaches_blanks mode depth root_name hbypass
    (Or.inr (Or.inl hstate)) h a.before.blank ha.before
    (List.append_ne_nil_of_left_ne_nil a.name.ne_nil _) (a.name.head_not_isBlank _)
  obtain ⟨L₂, hgives₂, hat₂⟩ := a.name.gives hat₁ ha.name.1
    (List.append_ne_nil_of_right_ne_nil _ (List.cons_ne_nil _ _)) (by
      intro c hc
      refine ha.name.2 c ?_
      cases hahead : a.ahead.text with
      | nil => rwa [hahead] at hc
      | cons d u => rwa [hahead] at hc)
  have hreach₂ : Reaches mode depth root_name { l with token := t₁ } L₁
      { l with
        state := .propName, token := ⟨.ident, a.name.text⟩
        property_name := mode.name a.name.text } L₂ := by
    refine Reaches.token hbypass hgives₂ TokenKind.noConfusion ?_
    unfold turn
    simp only [hstate]
  obtain ⟨t₃, L₃, hreach₃, hat₃⟩ := reaches_blanks mode depth root_name
    (l := { l with
      state := .propName, token := ⟨.ident, a.name.text⟩
      property_name := mode.name a.name.text })
    hbypass (Or.inr (Or.inr (Or.inl rfl))) hat₂ a.ahead.blank ha.ahead (List.cons_ne_nil _ _)
    (fun c hc => by
      obtain rfl : '=' = c := Option.some.inj hc
      unfold IsBlank
      decide)
  -- the `=` and the white space behind it
  have hne : a.behind.text ++ '\"' :: (a.value ++ '\"' :: v) ≠ [] :=
    List.append_ne_nil_of_right_ne_nil _ (List.cons_ne_nil _ _)
  obtain ⟨c, u, hcu⟩ := List.exists_cons_of_ne_nil hne
  have hgives₄ : L₃.Gives ⟨.equal, ['=']⟩ (L₃.forward 1) := gives_equal (hcu ▸ hat₃)
  have hat₄ : (L₃.forward 1).At .normal (a.behind.text ++ '\"' :: (a.value ++ '\"' :: v)) :=
    Lexer.At.forward (w := ['=']) hat₃
  have hreach₄ : Reaches mode depth root_name
      { l with state := .propName, token := t₃, property_name := mode.name a.name.text } L₃
      { l with
        state := .propValue, token := ⟨.equal, ['=']⟩
        property_name := mode.name a.name.text } (L₃.forward 1) :=
    Reaches.token hbypass hgives₄ TokenKind.noConfusion rfl
  obtain ⟨t₅, L₅, hreach₅, hat₅⟩ := reaches_blanks mode depth root_name
    (l := { l with
      state := .propValue, token := ⟨.equal, ['=']⟩
      property_name := mode.name a.name.text })
    hbypass (Or.inr (Or.inr (Or.inr rfl))) hat₄ a.behind.blank ha.behind (List.cons_ne_nil _ _)
    (fun c hc => by
      obtain rfl : '\"' = c := Option.some.inj hc
      unfold IsBlank
      decide)
  -- the value
  have hgives₆ := gives_string hat₅ a.value_unquoted ha.value
  have hat₆ : (L₅.forward (a.value.length + 2)).At .normal v := by
    have hsplit : '\"' :: (a.value ++ '\"' :: v) = ('\"' :: (a.value ++ ['\"'])) ++ v := by
      rw [List.cons_append, List.append_assoc, List.singleton_append]
    rw [hsplit] at hat₅
    have hat := hat₅.forward
    rwa [List.length_cons, List.length_append] at hat
  have hreach₆ : Reaches mode depth root_name
      { l with state := .propValue, token := t₅, property_name := mode.name a.name.text } L₅
      { l with
        state := .inTag, token := ⟨.string, a.value⟩, property_name := mode.name a.name.text
        properties := l.properties ++ [a.property mode] } (L₅.forward (a.value.length + 2)) :=
    Reaches.token hbypass hgives₆ TokenKind.noConfusion rfl
  exact ⟨_, _, hreach₁.trans (hreach₂.trans (hreach₃.trans (hreach₄.trans (hreach₅.trans hreach₆)))),
    hat₆⟩

variable (mode depth root_name) in
theorem reaches_attrs {attrs : List Attr} (hattrs : ∀ a ∈ attrs, a.Plain)
    (hbypass : l.bypass_get_token = false) (hstate : l.state = .inTag)
    (h : L.At .normal (attrs.flatMap Attr.text ++ v)) :
    ∃ t name L', Reaches mode depth root_name l L
        { l with
          state := .inTag, token := t, property_name := name
          properties := l.properties ++ attrs.map (Attr.property mode) } L' ∧ L'.At .normal v := by
  induction attrs generalizing l L with
  | nil =>
    refine ⟨l.token, l.property_name, L, ?_, h⟩
    have heq : l = { l with
        state := .inTag, properties := l.properties ++ [].map (Attr.property mode) } := by
      rw [List.map_nil, List.append_nil, ← hstate]
    rw [← heq]
    exact Reaches.refl
  | cons a attrs ih =>
    obtain ⟨ha, hattrs⟩ := List.forall_mem_cons.1 hattrs
    rw [List.flatMap_cons, List.append_assoc] at h
    obtain ⟨t₁, L₁, hreach₁, hat₁⟩ := reaches_attr mode depth root_name ha hbypass hstate h
    obtain ⟨t₂, name, L₂, hreach₂, hat₂⟩ := ih hattrs (l := { l with
      state := .inTag, token := t₁, property_name := mode.name a.name.text
      properties := l.properties ++ [a.property mode] }) hbypass rfl hat₁
    refine ⟨t₂, name, L₂, ?_, hat₂⟩
    rw [List.map_cons, ← List.singleton_append, ← List.append_assoc]
    exact hreach₁.trans hreach₂

variable (mode depth root_name) in
theorem reaches_tag {name : Name} {attrs : List Attr} {blank : Blanks} {behind : Str}
    (htag : TagPlain name attrs blank behind) (hbypass : l.bypass_get_token = false)
    (hstate : l.state = .idle) (hbehind : behind ≠ [])
    (hhead : ∀ c ∈ behind.head?, ¬IsBlank c)
    (h : L.At .normal ('<' :: (tagText name attrs blank ++ (behind ++ v)))) :
    ∃ t property_name L', Reaches mode depth root_name l L
        { l with
          state := .inTag, token := t, node_name := mode.name name.text
          property_name := property_name
          properties := attrs.map (Attr.property mode) } L' ∧ L'.At .normal (behind ++ v) := by
  unfold tagText at h
  simp only [List.append_assoc] at h
  have hbehind' : behind ++ v ≠ [] := List.append_ne_nil_of_left_ne_nil hbehind v
  -- the `<`
  obtain ⟨c, u, hcu⟩ := List.exists_cons_of_ne_nil name.ne_nil
  have hgives₁ : L.Gives ⟨.mStart1, ['<']⟩ (L.forward 1) := by
    rw [hcu] at h
    exact gives_mStart1 h (name.alphanumeric c (by rw [hcu]; exact List.mem_cons_self))
  have hat₁ := Lexer.At.forward (w := ['<']) h
  have hreach₁ : Reaches mode depth root_name l L
      { l with state := .node, token := ⟨.mStart1, ['<']⟩ } (L.forward 1) := by
    refine Reaches.token hbypass hgives₁ TokenKind.noConfusion ?_
    unfold turn
    simp only [hstate]
  -- the name
  obtain ⟨L₂, hgives₂, hat₂⟩ := name.gives hat₁ htag.name.1
    (List.append_ne_nil_of_right_ne_nil _ (List.append_ne_nil_of_right_ne_nil _ hbehind')) (by
      intro c hc
      refine htag.name.2 c ?_
      rw [← List.append_assoc, ← List.append_assoc] at hc
      rw [← List.append_assoc]
      rwa [List.head?_append_of_ne_nil _ (List.append_ne_nil_of_right_ne_nil _ hbehind)] at hc)
  have hreach₂ : Reaches mode depth root_name
      { l with state := .node, token := ⟨.mStart1, ['<']⟩ } (L.forward 1)
      { l with
        state := .inTag, token := ⟨.ident, name.text⟩, node_name := mode.name name.text
        properties := [] } L₂ :=
    Reaches.token hbypass hgives₂ TokenKind.noConfusion rfl
  -- the attributes and the white space
  obtain ⟨t₃, property_name, L₃, hreach₃, hat₃⟩ := reaches_attrs mode depth root_name htag.attrs
    (l := { l with
      state := .inTag, token := ⟨.ident, name.text⟩, node_name := mode.name name.text
      properties := [] }) hbypass rfl hat₂
  obtain ⟨t₄, L₄, hreach₄, hat₄⟩ := reaches_blanks mode depth root_name
    (l := { l with
      state := .inTag, token := t₃, node_name := mode.name name.text
      property_name := property_name
      properties := [] ++ attrs.map (Attr.property mode) }) hbypass (Or.inr (Or.inl rfl)) hat₃
    blank.blank htag.blank hbehind' (by rwa [List.head?_append_of_ne_nil _ hbehind])
  exact ⟨t₄, property_name, L₄, hreach₁.trans (hreach₂.trans (hreach₃.trans hreach₄)), hat₄⟩

variable (mode depth) in
theorem yields_endTag {name : Name} {last : Blanks} (hlast : last.text = []) (hfits : Fits name.text)
    (hbypass : l.bypass_get_token = false) (hstate : l.state = .idle)
    (h : L.At .normal (endTag name last ++ v)) :
    ∃ t L' m, Yields mode depth (mode.name name.text) l L
        (0, { l with state := .endStop, token := t }, L') ∧ L'.At m v ∧ (v ≠ [] → m = .data) := by
  unfold endTag at h
  simp only [hlast, List.append_nil, List.cons_append, List.append_assoc, List.nil_append] at h
  have hat₁ := Lexer.At.forward (w := ['<', '/']) h
  have hreach₁ : Reaches mode depth (mode.name name.text) l L
      { l with state := .endName, token := ⟨.mStart2, ['<', '/']⟩ } (L.forward 2) := by
    refine Reaches.token hbypass (gives_mStart2 h) TokenKind.noConfusion ?_
    unfold turn
    simp only [hstate]
  obtain ⟨L₂, hgives₂, hat₂⟩ := name.gives hat₁ hfits (List.cons_ne_nil _ _) (fun c hc => by
    obtain rfl : '>' = c := Option.some.inj hc
    exact Or.inr (Or.inl rfl))
  have hreach₂ : Reaches mode depth (mode.name name.text)
      { l with state := .endName, token := ⟨.mStart2, ['<', '/']⟩ } (L.forward 2)
      { l with state := .endStop, token := ⟨.ident, name.text⟩ } L₂ :=
    Reaches.token hbypass hgives₂ TokenKind.noConfusion (if_pos rfl)
  obtain ⟨L₃, m, hgives₃, hat₃, hm⟩ := gives_mStop1 hat₂
  have hyields : Yields mode depth (mode.name name.text)
      { l with state := .endStop, token := ⟨.ident, name.text⟩ } L₂
      (0, { l with state := .endStop, token := ⟨.mStop1, ['>']⟩ }, L₃) :=
    Yields.token hbypass hgives₃ TokenKind.noConfusion rfl
  exact ⟨_, L₃, m, hreach₁ _ (hreach₂ _ hyields), hat₃, hm⟩

/-! ## Comments -/

theorem IsBlank.ne {c : Char} (h : IsBlank c) : c ≠ '<' ∧ c ≠ '\x00' := by
  rcases h with (rfl | rfl) | (rfl | rfl) <;> decide

theorem reaches_skips (hbypass : l.bypass_get_token = false) (hstate : l.state = .comment)
    (h : L.Skips L₁) :
    ∃ t, Reaches mode depth root_name l L { l with state := .idle, token := t } L₁ := by
  induction h generalizing l with
  | @stop L L₁ t hgives hres =>
    refine ⟨t, Reaches.token hbypass hgives (by rw [hres]; decide) ?_⟩
    unfold turn
    simp only [hstate, hres]
  | @more L L₁ L₂ t hgives herr hstop _ ih =>
    obtain ⟨t', hreach⟩ := ih (l := { l with token := t }) hbypass hstate
    refine ⟨t', Reaches.trans (Reaches.token hbypass hgives herr ?_) hreach⟩
    unfold turn
    simp only [hstate]

variable (mode depth root_name) in
theorem reaches_comment {c : Str} (hc : CommentPlain c) (hbypass : l.bypass_get_token = false)
    (hstate : l.state = .idle) (h : L.At .normal (commentText c ++ v)) :
    ∃ t L', Reaches mode depth root_name l L { l with token := t } L' ∧ L'.At .normal v := by
  have hat : L.At .normal ('<' :: '!' :: '-' :: '-' :: (c ++ ("-->".toList ++ v))) := by
    unfold commentText at h
    rwa [List.append_assoc, List.append_assoc] at h
  obtain ⟨L₁, hgives₁, hmode₁, hcomment₁, hrest₁⟩ := gives_cStart hat
  obtain ⟨L₂, hskips, hat₂⟩ := hc L₁ v hmode₁ hcomment₁ hrest₁
  have hreach₁ : Reaches mode depth root_name l L
      { l with state := .comment, token := ⟨.cStart, "<!--".toList⟩ } L₁ := by
    refine Reaches.token hbypass hgives₁ TokenKind.noConfusion ?_
    unfold turn
    simp only [hstate]
  obtain ⟨t₂, hreach₂⟩ := reaches_skips (l := { l with
    state := .comment, token := ⟨.cStart, "<!--".toList⟩ }) hbypass rfl hskips
  refine ⟨t₂, L₂, ?_, hat₂⟩
  have heq : { l with token := t₂ } = { l with state := .idle, token := t₂ } := by rw [← hstate]
  rw [heq]
  exact hreach₁.trans hreach₂

theorem head_comments (comments : List (Str × Blanks)) (v : Str) (hv : ∀ c ∈ v.head?, c = '<') :
    ∀ c ∈ ((comments.flatMap fun p => commentText p.1 ++ p.2.text) ++ v).head?, c = '<' := by
  cases comments with
  | nil => exact hv
  | cons p comments =>
    intro c hc
    exact (Option.some.inj hc).symm

theorem not_isBlank_of_head {v : Str} (hv : ∀ c ∈ v.head?, c = '<') : ∀ c ∈ v.head?, ¬IsBlank c :=
  fun c hc hblank => hblank.ne.1 (hv c hc)

variable (mode depth root_name) in
theorem reaches_comments {comments : List (Str × Blanks)}
    (hplain : ∀ p ∈ comments, CommentPlain p.1 ∧ Fits p.2.text) (hbypass : l.bypass_get_token = false)
    (hstate : l.state = .idle) (hne : v ≠ []) (hv : ∀ c ∈ v.head?, c = '<')
    (h : L.At .normal ((comments.flatMap fun p => commentText p.1 ++ p.2.text) ++ v)) :
    ∃ t L', Reaches mode depth root_name l L { l with token := t } L' ∧ L'.At .normal v := by
  induction comments generalizing l L with
  | nil => exact ⟨l.token, L, Reaches.refl, h⟩
  | cons p comments ih =>
    obtain ⟨hp, hplain⟩ := List.forall_mem_cons.1 hplain
    rw [List.flatMap_cons, List.append_assoc, List.append_assoc] at h
    obtain ⟨t₁, L₁, hreach₁, hat₁⟩ := reaches_comment mode depth root_name hp.1 hbypass hstate h
    obtain ⟨t₂, L₂, hreach₂, hat₂⟩ := reaches_blanks mode depth root_name
      (l := { l with token := t₁ }) hbypass (Or.inl hstate) hat₁ p.2.blank hp.2
      (List.append_ne_nil_of_right_ne_nil _ hne) (not_isBlank_of_head (head_comments comments v hv))
    obtain ⟨t₃, L₃, hreach₃, hat₃⟩ := ih hplain (l := { l with token := t₂ }) hbypass hstate hat₂
    exact ⟨t₃, L₃, hreach₁.trans (hreach₂.trans hreach₃), hat₃⟩

variable (mode depth root_name) in
theorem reaches_misc {m : Misc} {lex_mode : LexMode} (hm : m.Plain)
    (hbypass : l.bypass_get_token = false) (hstate : l.state = .idle) (hne : v ≠ [])
    (hv : ∀ c ∈ v.head?, c = '<') (h : L.At lex_mode (m.text ++ v)) :
    ∃ t data L', Reaches mode depth root_name l L { l with token := t, data := data } L' ∧
      L'.At .normal v := by
  unfold Misc.text at h
  rw [List.append_assoc] at h
  have hhead := head_comments m.comments v hv
  have hrest : (m.comments.flatMap fun p => commentText p.1 ++ p.2.text) ++ v ≠ [] :=
    List.append_ne_nil_of_right_ne_nil _ hne
  cases lex_mode with
  | normal =>
    obtain ⟨t₁, L₁, hreach₁, hat₁⟩ := reaches_blanks mode depth root_name hbypass (Or.inl hstate) h
      m.first.blank hm.first hrest (not_isBlank_of_head hhead)
    obtain ⟨t₂, L₂, hreach₂, hat₂⟩ := reaches_comments mode depth root_name
      (l := { l with token := t₁ }) hm.comments hbypass hstate hne hv hat₁
    exact ⟨t₂, l.data, L₂, hreach₁.trans hreach₂, hat₂⟩
  | data =>
    obtain ⟨c, u, hcu⟩ := List.exists_cons_of_ne_nil hrest
    obtain rfl : c = '<' := hhead c (by rw [hcu]; rfl)
    rw [hcu] at h
    obtain ⟨L₁, hgives₁, hat₁⟩ := gives_data h (fun c hc => (m.first.blank c hc).ne.1) hm.first
    rw [← hcu] at hat₁
    have hreach₁ : Reaches mode depth root_name l L
        { l with token := ⟨.data, cStr m.first.text⟩, data := some (cStr m.first.text) } L₁ := by
      refine Reaches.token hbypass hgives₁ TokenKind.noConfusion ?_
      unfold turn
      simp only [hstate]
    obtain ⟨t₂, L₂, hreach₂, hat₂⟩ := reaches_comments mode depth root_name
      (l := { l with token := ⟨.data, cStr m.first.text⟩, data := some (cStr m.first.text) })
      hm.comments hbypass hstate hne hv hat₁
    exact ⟨t₂, _, L₂, hreach₁.trans hreach₂, hat₂⟩

theorem yields_comments {comments : List (Str × Blanks)} {first : Blanks}
    (hplain : ∀ p ∈ comments, CommentPlain p.1 ∧ Fits p.2.text) (hfirst : Fits first.text)
    (hbypass : l.bypass_get_token = false) (hstate : l.state = .idle)
    (h : L.At .normal (first.text ++ comments.flatMap fun p => commentText p.1 ++ p.2.text)) :
    ∃ t L', Yields mode depth root_name l L (0, { l with token := t }, L') := by
  induction comments generalizing l L first with
  | nil =>
    rw [List.flatMap_nil, List.append_nil] at h
    exact yields_blanks hbypass hstate h first.blank hfirst
  | cons p comments ih =>
    obtain ⟨hp, hplain⟩ := List.forall_mem_cons.1 hplain
    have hne : (p :: comments).flatMap (fun p => commentText p.1 ++ p.2.text) ≠ [] :=
      List.cons_ne_nil _ _
    obtain ⟨t₁, L₁, hreach₁, hat₁⟩ := reaches_blanks mode depth root_name hbypass (Or.inl hstate) h
      first.blank hfirst hne (fun c hc hblank => hblank.ne.1 (Option.some.inj hc).symm)
    rw [List.flatMap_cons, List.append_assoc] at hat₁
    obtain ⟨t₂, L₂, hreach₂, hat₂⟩ := reaches_comment mode depth root_name
      (l := { l with token := t₁ }) hp.1 hbypass hstate hat₁
    obtain ⟨t₃, L₃, hyields⟩ := ih hplain (l := { l with token := t₂ }) hp.2 hbypass hstate hat₂
    exact ⟨t₃, L₃, hreach₁ _ (hreach₂ _ hyields)⟩

variable (mode depth root_name) in
theorem yields_epilog {m : Misc} {lex_mode : LexMode} (hm : m.Plain)
    (hbypass : l.bypass_get_token = false) (hstate : l.state = .idle) (h : L.At lex_mode m.text) :
    ∃ t data L', Yields mode depth root_name l L (0, { l with token := t, data := data }, L') := by
  unfold Misc.text at h
  cases lex_mode with
  | normal =>
    obtain ⟨t, L', hyields⟩ := yields_comments hm.comments hm.first hbypass hstate h
    exact ⟨t, l.data, L', hyields⟩
  | data =>
    cases hcomments : m.comments with
    | nil =>
      rw [hcomments, List.flatMap_nil, List.append_nil] at h
      have hgives := gives_data_end h (fun c hc => (m.first.blank c hc).ne.1) hm.first
      refine ⟨⟨.eof, cStr m.first.text⟩, l.data, _, Yields.token hbypass hgives TokenKind.noConfusion ?_⟩
      unfold turn
      simp only [hstate]
    | cons p comments =>
      have hp := hm.comments
      rw [hcomments] at h hp
      obtain ⟨hp, hplain⟩ := List.forall_mem_cons.1 hp
      rw [List.flatMap_cons, List.append_assoc] at h
      -- up to the first comment the lexer is in the data mode
      obtain ⟨L₁, hgives₁, hat₁⟩ := gives_data h (fun c hc => (m.first.blank c hc).ne.1) hm.first
      have hreach₁ : Reaches mode depth root_name l L
          { l with token := ⟨.data, cStr m.first.text⟩, data := some (cStr m.first.text) } L₁ := by
        refine Reaches.token hbypass hgives₁ TokenKind.noConfusion ?_
        unfold turn
        simp only [hstate]
      obtain ⟨t₂, L₂, hreach₂, hat₂⟩ := reaches_comment mode depth root_name
        (l := { l with token := ⟨.data, cStr m.first.text⟩, data := some (cStr m.first.text) })
        hp.1 hbypass hstate hat₁
      obtain ⟨t₃, L₃, hyields⟩ := yields_comments hplain
        (l := { l with token := t₂, data := some (cStr m.first.text) }) hp.2 hbypass hstate hat₂
      exact ⟨t₃, _, L₃, hreach₁ _ (hreach₂ _ hyields)⟩

/-! ## Nodes -/

mutual

/-- The tree of a node. The text of a node with children is not part of it. -/
def XmlNode.tree : XmlNode → Tree
  | .mk name data props child =>
    .mk name (props.map fun p => (p.name, p.value.getD []))
      (if child.isEmpty then data.getD [] else []) (treesOf child)

def treesOf : List XmlNode → List Tree
  | [] => []
  | node :: nodes => node.tree :: treesOf nodes

end

theorem treesOf_append (nodes nodes' : List XmlNode) :
    treesOf (nodes ++ nodes') = treesOf nodes ++ treesOf nodes' := by
  induction nodes with
  | nil => rfl
  | cons node nodes ih => rw [List.cons_append, treesOf, ih, treesOf, List.cons_append]

theorem map_property (mode : ParserMode) (attrs : List Attr) :
    ((attrs.map (Attr.property mode)).map fun p => (p.name, p.value.getD [])) =
      attrs.map (Attr.pair mode) := by
  rw [List.map_map]
  rfl

theorem Content.trees_ne_nil (content : Content) (mode : ParserMode) : content.trees mode ≠ [] := by
  cases content <;> exact List.cons_ne_nil _ _

theorem Elem.head_text (e : Elem) (v : Str) : ∀ c ∈ (e.text ++ v).head?, c = '<' := by
  intro c hc
  cases e <;> exact (Option.some.inj hc).symm

theorem Elem.text_ne_nil (e : Elem) (v : Str) : e.text ++ v ≠ [] := by
  cases e <;> exact List.cons_ne_nil _ _

theorem Content.head_text (content : Content) (v : Str) :
    ∀ c ∈ (content.text ++ v).head?, c = '<' := by
  cases content with
  | last e misc =>
    rw [Content.text, List.append_assoc]
    exact e.head_text _
  | more e misc rest =>
    rw [Content.text, List.append_assoc]
    exact e.head_text _

theorem Content.text_ne_nil (content : Content) (v : Str) : content.text ++ v ≠ [] := by
  cases content with
  | last e misc =>
    rw [Content.text, List.append_assoc]
    exact e.text_ne_nil _
  | more e misc rest =>
    rw [Content.text, List.append_assoc]
    exact e.text_ne_nil _

/-- A point behind a node: the loop is between nodes, with more children. -/
structure Behind (mode : ParserMode) (depth : ℕ) (root_name : Str) (l : Locals) (L : Lexer)
    (trees : List Tree) (l' : Locals) (L' : Lexer) : Prop where
  reaches : Reaches mode depth root_name l L l' L'
  state : l'.state = .idle
  bypass : l'.bypass_get_token = false
  child : ∃ nodes, l'.child = l.child ++ nodes ∧ treesOf nodes = trees

theorem behind_call {name : Name} {attrs : List Attr} {blank : Blanks} {u : Str} {t : Tree}
    (htag : TagPlain name attrs blank ['>']) (hbypass : l.bypass_get_token = false)
    (hstate : l.state = .idle) (hdepth : depth + 1 < maxRecursion)
    (h : L.At .normal ('<' :: (tagText name attrs blank ++ '>' :: u))) (hne : u ≠ [])
    (hcall : ∀ L₁, L₁.At .data u → ∃ sub L₂ m,
      Yields mode (depth + 1) (mode.name name.text) Locals.new L₁ (0, sub, L₂) ∧
        (XmlNode.mk (mode.name name.text) sub.data (attrs.map (Attr.property mode)) sub.child).tree = t ∧
        L₂.At m v ∧ (v ≠ [] → m = .data)) :
    ∃ l' L' m, Behind mode depth root_name l L [t] l' L' ∧ L'.At m v ∧ (v ≠ [] → m = .data) := by
  obtain ⟨t₁, property_name, L₁, hreach₁, hat₁⟩ := reaches_tag mode depth root_name
    (v := u) htag hbypass hstate (List.cons_ne_nil _ _) (fun c hc => by
      obtain rfl : '>' = c := Option.some.inj hc
      unfold IsBlank
      decide) h
  obtain ⟨L₂, m₂, hgives₂, hat₂, hm₂⟩ := gives_mStop1 hat₁
  obtain rfl := hm₂ hne
  obtain ⟨sub, L₃, m, hyields, htree, hat₃, hm⟩ := hcall L₂ hat₂
  have hreach₂ : Reaches mode depth root_name { l with
      state := .inTag, token := t₁, node_name := mode.name name.text
      property_name := property_name, properties := attrs.map (Attr.property mode) } L₁ _ L₃ :=
    Reaches.call hbypass hgives₂ TokenKind.noConfusion rfl hdepth hyields
  refine ⟨_, L₃, m, ⟨hreach₁.trans hreach₂, rfl, hbypass, [_], rfl, ?_⟩, hat₃, hm⟩
  rw [treesOf, treesOf, htree]

mutual

theorem Elem.behind (mode : ParserMode) (root_name : Str) (l : Locals) (L : Lexer) : ∀ (e : Elem) (depth : ℕ) {v : Str},
    e.Plain → l.bypass_get_token = false → l.state = .idle → depth + e.depth < maxRecursion →
    L.At .normal (e.text ++ v) →
    ∃ l' L' m, Behind mode depth root_name l L [e.tree mode] l' L' ∧ L'.At m v ∧ (v ≠ [] → m = .data)
  | .empty name attrs blank, depth, v, htag, hbypass, hstate, hdepth, h => by
    rw [Elem.text, List.cons_append, List.append_assoc] at h
    obtain ⟨t₁, property_name, L₁, hreach₁, hat₁⟩ := reaches_tag mode depth root_name
      htag hbypass hstate (List.cons_ne_nil _ _) (fun c hc => by
        obtain rfl : '/' = c := Option.some.inj hc
        unfold IsBlank
        decide) h
    obtain ⟨L₂, hgives₂, hat₂⟩ := gives_mStop2 hat₁
    have hreach₂ : Reaches mode depth root_name { l with
        state := .inTag, token := t₁, node_name := mode.name name.text
        property_name := property_name, properties := attrs.map (Attr.property mode) } L₁ _ L₂ :=
      Reaches.token hbypass hgives₂ TokenKind.noConfusion rfl
    refine ⟨_, L₂, .data, ⟨hreach₁.trans hreach₂, rfl, hbypass, [_], rfl, ?_⟩, hat₂, fun _ => rfl⟩
    rw [treesOf, treesOf, XmlNode.tree, treesOf, map_property, Elem.tree]
    rfl
  | .leaf name attrs blank words last, depth, v, ⟨htag, hwords, hlast⟩, hbypass, hstate, hdepth, h => by
    rw [Elem.text, List.cons_append, List.append_assoc, List.cons_append, List.append_assoc] at h
    refine behind_call htag hbypass hstate hdepth h
      (List.append_ne_nil_of_right_ne_nil _ (List.cons_ne_nil _ _)) fun L₁ hat₁ => ?_
    -- the text and the end tag
    obtain ⟨L₂, hgives₂, hat₂⟩ := gives_data (v := '/' :: (name.text ++ last.text ++ ['>'] ++ v)) hat₁
      (fun c hc => (words.unmarked c hc).1) hwords
    rw [cStr_eq fun c hc => (words.unmarked c hc).2] at hgives₂
    have hreach₂ : Reaches mode (depth + 1) (mode.name name.text) Locals.new L₁
        { Locals.new with token := ⟨.data, words.text⟩, data := some words.text } L₂ :=
      Reaches.token rfl hgives₂ TokenKind.noConfusion rfl
    obtain ⟨t₃, L₃, m, hyields, hat₃, hm⟩ := yields_endTag mode (depth + 1)
      (l := { Locals.new with token := ⟨.data, words.text⟩, data := some words.text })
      hlast htag.name.1 rfl rfl hat₂
    refine ⟨_, L₃, m, hreach₂ _ hyields, ?_, hat₃, hm⟩
    rw [XmlNode.tree, map_property, Elem.tree]
    rfl
  | .node name attrs blank misc content last, depth, v, ⟨htag, hmisc, hcontent, hlast⟩, hbypass, hstate,
      hdepth, h => by
    rw [Elem.text, List.cons_append, List.append_assoc, List.cons_append, List.append_assoc,
      List.append_assoc] at h
    rw [Elem.depth] at hdepth
    have hend : endTag name last ++ v ≠ [] := List.cons_ne_nil _ _
    refine behind_call htag hbypass hstate (by omega) h
      (List.append_ne_nil_of_right_ne_nil _ (List.append_ne_nil_of_right_ne_nil _ hend))
      fun L₁ hat₁ => ?_
    obtain ⟨t₂, data, L₂, hreach₂, hat₂⟩ := reaches_misc mode (depth + 1) (mode.name name.text)
      (l := Locals.new) hmisc rfl rfl (content.text_ne_nil _) (content.head_text _) hat₁
    obtain ⟨l₃, L₃, hbehind, hat₃⟩ := Content.behind mode (mode.name name.text)
      { Locals.new with token := t₂, data := data } L₂ content (depth + 1) hcontent rfl rfl (by omega) hend (fun c hc => (Option.some.inj hc).symm) hat₂
    obtain ⟨nodes, hchild, htrees⟩ := hbehind.child
    obtain ⟨t₄, L₄, m, hyields, hat₄, hm⟩ := yields_endTag mode (depth + 1)
      hlast htag.name.1 hbehind.bypass hbehind.state hat₃
    refine ⟨_, L₄, m, hreach₂ _ (hbehind.reaches _ hyields), ?_, hat₄, hm⟩
    have hne : nodes ≠ [] := by
      rintro rfl
      exact content.trees_ne_nil mode htrees.symm
    rw [XmlNode.tree, map_property, Elem.tree, hchild, Locals.new, List.nil_append, htrees,
      List.isEmpty_eq_false_iff.2 hne]
    rfl

theorem Content.behind (mode : ParserMode) (root_name : Str) (l : Locals) (L : Lexer) : ∀ (content : Content) (depth : ℕ)
    {v : Str}, content.Plain → l.bypass_get_token = false → l.state = .idle →
    depth + content.depth < maxRecursion → v ≠ [] → (∀ c ∈ v.head?, c = '<') →
    L.At .normal (content.text ++ v) →
    ∃ l' L', Behind mode depth root_name l L (content.trees mode) l' L' ∧ L'.At .normal v
  | .last e misc, depth, v, ⟨he, hmisc⟩, hbypass, hstate, hdepth, hne, hv, h => by
    rw [Content.text, List.append_assoc] at h
    obtain ⟨l₁, L₁, m, hbehind, hat₁, -⟩ := Elem.behind mode root_name l L e depth he hbypass hstate hdepth h
    obtain ⟨t₂, data, L₂, hreach₂, hat₂⟩ := reaches_misc mode depth root_name hmisc
      hbehind.bypass hbehind.state hne hv hat₁
    exact ⟨_, L₂, ⟨hbehind.reaches.trans hreach₂, hbehind.state, hbehind.bypass, hbehind.child⟩, hat₂⟩
  | .more e misc rest, depth, v, ⟨he, hmisc, hrest⟩, hbypass, hstate, hdepth, hne, hv, h => by
    rw [Content.text, List.append_assoc, List.append_assoc] at h
    rw [Content.depth] at hdepth
    obtain ⟨l₁, L₁, m, hbehind, hat₁, -⟩ := Elem.behind mode root_name l L e depth he hbypass hstate
      (by omega) h
    obtain ⟨t₂, data, L₂, hreach₂, hat₂⟩ := reaches_misc mode depth root_name hmisc
      hbehind.bypass hbehind.state (rest.text_ne_nil v) (rest.head_text v) hat₁
    obtain ⟨l₃, L₃, hbehind₃, hat₃⟩ := Content.behind mode root_name { l₁ with token := t₂, data := data } L₂
      rest depth hrest hbehind.bypass hbehind.state (by omega) hne hv hat₂
    obtain ⟨nodes, hchild, htrees⟩ := hbehind.child
    obtain ⟨nodes₃, hchild₃, htrees₃⟩ := hbehind₃.child
    refine ⟨l₃, L₃, ⟨hbehind.reaches.trans (hreach₂.trans hbehind₃.reaches), hbehind₃.state,
      hbehind₃.bypass, nodes ++ nodes₃, ?_, ?_⟩, hat₃⟩
    · rw [hchild₃, ← List.append_assoc, ← hchild]
    · rw [treesOf_append, htrees, htrees₃]
      rfl

end

/-! ## Documents -/

/-- The buffer holds a text. -/
def Holds (buf : ℕ → Char) (size : ℕ) (text : Str) : Prop := (List.range size).map buf = text

theorem holds_getD (text : Str) : Holds (fun i => text.getD i ' ') text.length text := by
  unfold Holds
  refine List.ext_getElem ?_ fun i h₁ h₂ => ?_
  · rw [List.length_map, List.length_range]
  · rw [List.getElem_map, List.getElem_range, List.getD_eq_getElem?_getD, List.getElem?_eq_getElem h₂,
      Option.getD_some]

theorem Holds.at {buf : ℕ → Char} {size : ℕ} (h : Holds buf size w) :
    (lexerInit buf size).At .normal w := by
  refine ⟨rfl, rfl, ?_⟩
  unfold Lexer.rest lexerInit
  simp only [Nat.sub_zero, Nat.zero_add]
  exact h

/-- From a plain rendering of a tree of depth below 10, the parser builds the tree. -/
theorem xmlParserBuildTree_text (mode : ParserMode) {d : Document} (hplain : d.Plain)
    (hdepth : d.root.depth < 10) {buf : ℕ → Char} {size : ℕ} (hbuf : Holds buf size d.text) :
    ∃ rounds node, xmlParserBuildTree mode rounds buf size = some (.ok node) ∧
      node.tree = d.root.tree mode := by
  have hat : (lexerInit buf size).At .normal (d.prolog.text ++ (d.root.text ++ d.epilog.text)) :=
    hbuf.at
  obtain ⟨t₁, data₁, L₁, hreach₁, hat₁⟩ := reaches_misc mode 0 [] (l := Locals.new) hplain.prolog rfl rfl
    (d.root.text_ne_nil _) (d.root.head_text _) hat
  obtain ⟨l₂, L₂, m, hbehind, hat₂, -⟩ := Elem.behind mode []
    { Locals.new with token := t₁, data := data₁ } L₁ d.root 0 hplain.root rfl rfl
    (by rwa [Nat.zero_add]) hat₁
  obtain ⟨t₃, data₃, L₃, hyields⟩ := yields_epilog mode 0 [] hplain.epilog hbehind.bypass hbehind.state hat₂
  obtain ⟨rounds, hloop⟩ := hreach₁ _ (hbehind.reaches _ hyields)
  obtain ⟨nodes, hchild, htrees⟩ := hbehind.child
  -- the one child of the node above the root
  obtain ⟨node, rfl, htree⟩ : ∃ node, nodes = [node] ∧ node.tree = d.root.tree mode := by
    cases nodes with
    | nil => cases htrees
    | cons node nodes =>
      obtain ⟨htree, hnil⟩ := List.cons.inj htrees
      cases nodes with
      | nil => exact ⟨node, rfl, htree⟩
      | cons _ _ => cases hnil
  refine ⟨rounds, node, ?_, htree⟩
  unfold xmlParserBuildTree xmlParserGetNode
  rw [hloop]
  simp only [Option.map_some, hchild]
  rfl

/-- `<a><!--x--><b c="1">t</b></a>`. -/
theorem xmlParserBuildTree_text_nested : ∃ d : Document,
    d.text = "<a><!--x--><b c=\"1\">t</b></a>".toList ∧
      ∃ rounds node, xmlParserBuildTree .caseSensitive rounds (fun i => d.text.getD i ' ') d.text.length =
        some (.ok node) ∧ node.tree = d.root.tree .caseSensitive := by
  refine ⟨⟨.none,
    .node ⟨['a'], by simp, by simp [NameChar]⟩ [] .none ⟨.none, [(['x'], .none)]⟩
      (.last (.leaf ⟨['b'], by simp, by simp [NameChar]⟩
        [⟨⟨[' '], by simp [IsBlank, IsSepar]⟩, by simp, ⟨['c'], by simp, by simp [NameChar]⟩,
          .none, .none, ['1'], by simp⟩] .none ⟨['t'], by simp⟩ .none) .none) .none,
    .none⟩, rfl, ?_⟩
  refine xmlParserBuildTree_text .caseSensitive ⟨Misc.plain_none, ?_, Misc.plain_none⟩ (by decide)
    (holds_getD _)
  rw [Elem.Plain, Content.Plain, Elem.Plain]
  refine ⟨?_, ?_, ⟨⟨?_, by decide, rfl⟩, Misc.plain_none⟩, rfl⟩
  · exact ⟨⟨by decide, by simp [Blanks.none, StopsIdent]⟩, by simp, by decide⟩
  · refine ⟨by decide, ?_⟩
    simp only [List.forall_mem_singleton]
    exact ⟨commentPlain_of_words (by simp [NameChar]) (by decide), by decide⟩
  · refine ⟨⟨by decide, by simp [Attr.text, StopsIdent]⟩, ?_, by decide⟩
    simp only [List.forall_mem_singleton]
    exact ⟨by decide, ⟨by decide, by simp [Blanks.none, StopsIdent]⟩, by decide, by decide, by decide⟩

/-! ## Other renderings -/

theorem xmlParserBuildTree_unique {buf : ℕ → Char} {size rounds rounds' : ℕ} {r r' : Except ℤ XmlNode}
    (h : xmlParserBuildTree mode rounds buf size = some r)
    (h' : xmlParserBuildTree mode rounds' buf size = some r') : r = r' := by
  obtain ⟨x, hx, rfl⟩ := Option.map_eq_some_iff.1 h
  obtain ⟨x', hx', rfl⟩ := Option.map_eq_some_iff.1 h'
  rw [getNodeLoop_unique hx hx']

theorem Yields.error (hbypass : l.bypass_get_token = false) (hgives : L.Gives t L₁)
    (herr : t.res = .error) :
    Yields mode depth root_name l L (-1, { l with token := t }, L₁) := by
  have hround : nodeRound mode root_name l L = some (.ret (-1) { l with token := t }, L₁) := by
    unfold nodeRound
    rw [fetch_of_token hbypass hgives]
    simp only [Option.map_some]
    rw [if_pos ⟨hbypass, herr⟩]
  exact ⟨1, by rw [getNodeLoop, hround]⟩

theorem Yields.call_error {sub : Locals} {code : ℤ} (hbypass : l.bypass_get_token = false)
    (hgives : L.Gives t L₁) (herr : t.res ≠ .error)
    (hturn : turn mode root_name { l with token := t } = .call l₁) (hdepth : depth + 1 < maxRecursion)
    (hcode : code ≠ 0) (hcall : Yields mode (depth + 1) l₁.node_name Locals.new L₁ (code, sub, L₂)) :
    Yields mode depth root_name l L (code, l₁, L₂) := by
  obtain ⟨rounds, hsub⟩ := hcall
  refine ⟨rounds + 1, ?_⟩
  rw [getNodeLoop, nodeRound_of_gives hbypass hgives herr, hturn]
  simp only [hdepth, if_true, hsub]
  rw [if_pos hcode]

/-- The root `x` with the text `words`. -/
def textDocument (words : Words) : Document :=
  ⟨.none, .leaf ⟨['x'], by simp, by simp [NameChar]⟩ [] .none words .none, .none⟩

theorem textDocument_text (words : Words) :
    (textDocument words).text = "<x>".toList ++ words.text ++ "</x>".toList := by
  simp [textDocument, Document.text, Misc.text, Misc.none, Blanks.none, Elem.text, endTag, tagText]

theorem yields_long {words : Words} (hlen : words.text.length = tokenSize)
    (h : L.At .normal (textDocument words).text) :
    ∃ l' L', Yields mode 0 [] Locals.new L (-1, l', L') ∧ l'.child = [] := by
  have htag : TagPlain ⟨['x'], by simp, by simp [NameChar]⟩ [] .none ['>'] :=
    ⟨⟨by decide, by simp [Blanks.none, StopsIdent]⟩, by simp, by decide⟩
  have hat : L.At .normal ('<' :: (tagText ⟨['x'], by simp, by simp [NameChar]⟩ [] .none ++
      (['>'] ++ (words.text ++ "</x>".toList)))) := by
    rw [textDocument_text] at h
    simpa [tagText, Blanks.none] using h
  obtain ⟨t₁, property_name, L₁, hreach₁, hat₁⟩ := reaches_tag mode 0 [] (l := Locals.new) htag rfl rfl
    (List.cons_ne_nil _ _) (fun c hc => by
      obtain rfl : '>' = c := Option.some.inj hc
      unfold IsBlank
      decide) hat
  obtain ⟨L₂, m₂, hgives₂, hat₂, hm₂⟩ :=
    gives_mStop1 (show L₁.At .normal ('>' :: (words.text ++ "</x>".toList)) from hat₁)
  obtain rfl := hm₂ (List.append_ne_nil_of_right_ne_nil _ (List.cons_ne_nil _ _))
  -- in the call the lexer finds no end of the text
  have hgives₃ := gives_data_full hat₂ (fun c hc => (words.unmarked c hc).1) hlen
  exact ⟨_, _, hreach₁ _ (Yields.call_error rfl hgives₂ TokenKind.noConfusion rfl (by decide) (by decide)
    (Yields.error rfl hgives₃ rfl)), rfl⟩

/-- The buffer that holds a text. -/
def bufOf (text : Str) : ℕ → Char := fun i => text.getD i ' '

/-- Two documents that are not read back: one with a text as long as the token buffer, and `<x/>`,
which is read as the start of a node with the name `x/`. -/
theorem xmlParserBuildTree_not_text :
    (∃ d : Document, d.root.depth < 10 ∧
      d.text = "<x>".toList ++ List.replicate 4096 'a' ++ "</x>".toList ∧
      ∀ rounds node, xmlParserBuildTree .caseSensitive rounds (bufOf d.text) d.text.length ≠
        some (.ok node)) ∧
    ∃ d : Document, d.root.depth < 10 ∧ d.text = "<x/>".toList ∧
      ∀ rounds node, xmlParserBuildTree .caseSensitive rounds (bufOf d.text) d.text.length =
        some (.ok node) → node.tree ≠ d.root.tree .caseSensitive := by
  constructor
  · have hwords : ∀ c ∈ List.replicate 4096 'a', c ≠ '<' ∧ c ≠ '\x00' := by
      intro c hc
      obtain rfl := List.eq_of_mem_replicate hc
      decide
    have hlen : (Words.mk (List.replicate 4096 'a') hwords).text.length = tokenSize :=
      List.length_replicate
    refine ⟨textDocument ⟨List.replicate 4096 'a', hwords⟩, (by decide : 1 < 10),
      textDocument_text _, ?_⟩
    intro rounds node hnode
    obtain ⟨l', L', ⟨rounds', hloop⟩, hchild⟩ := yields_long hlen (holds_getD _).at
    have herror := xmlParserBuildTree_unique hnode (Option.map_eq_some_iff.2 ⟨_, hloop, rfl⟩)
    simp only [hchild] at herror
    cases herror
  · refine ⟨⟨.none, .empty ⟨['x'], by simp, by simp [NameChar]⟩ [] .none, .none⟩, by decide, rfl, ?_⟩
    intro rounds node hnode htree
    have hslash : xmlParserBuildTree .caseSensitive 8 (bufOf "<x/>".toList) 4 =
        some (.ok (.mk ['x', '/'] none [] [])) := rfl
    obtain rfl := Except.ok.inj (xmlParserBuildTree_unique hnode hslash)
    have hname : (['x', '/'] : Str) = ['x'] := (Tree.mk.inj htree).1
    exact absurd hname (by decide)

end Xine.Xml
