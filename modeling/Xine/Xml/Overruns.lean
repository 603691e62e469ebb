import Xine.Xml.Tokens

/-!
# Where the lexer leaves its buffers

`Overruns` describes the texts whose first token does not fit: a `</`, `<?`, `/>`, `?>` or `-->` that fills the
token buffer to the last byte, so that the null byte comes behind it, a `<!--` or `<!DOCTYPE` for which the buffer
is too small, and one that the input buffer cuts off while the lexer looks ahead.
-/

namespace Xine.Xml

variable {L : Lexer} {tok tok' u v w : Str} {state state' : LexState} {c : Char} {n tok_size rounds : ℕ}

/-! ## Identifiers -/

/-- A byte that an identifier takes as it is. -/
def IsPlain (c : Char) : Prop := ¬StopsIdent c ∧ c ≠ '?' ∧ c ≠ '-'

/-- A byte with which a token is an identifier. -/
def BeginsIdent (c : Char) : Prop := c ∉ ['\n', '\r', ' ', '\t', '<', '>', '/', '=', '\"', '-', '?']

/-- The bytes of an identifier, from anywhere in it to the `?>` or `-->` at its end. Behind a `-` or a `--`
any other byte is taken. -/
inductive Closes : Str → Prop
  | instruction : Closes ['?', '>']
  | comment : Closes ['-', '-', '>']
  | plain {c : Char} {w : Str} (h : IsPlain c) (hw : Closes w) : Closes (c :: w)
  | dash {c : Char} {w : Str} (h : c ≠ '-') (hw : Closes w) : Closes ('-' :: c :: w)
  | dashes {c : Char} {w : Str} (h : c ≠ '>') (hw : Closes w) : Closes ('-' :: '-' :: c :: w)

theorem not_closes_nil : ¬Closes [] := by
  rintro ⟨⟩

theorem closes_plain (h : IsPlain c) : Closes (c :: w) ↔ Closes w := by
  refine ⟨fun hw => ?_, Closes.plain h⟩
  cases hw with
  | instruction => exact absurd rfl h.2.1
  | comment => exact absurd rfl h.2.2
  | plain _ hw => exact hw
  | dash => exact absurd rfl h.2.2
  | dashes => exact absurd rfl h.2.2

theorem closes_question : Closes ('?' :: w) ↔ w = ['>'] := by
  constructor
  · intro hw
    cases hw with
    | instruction => rfl
    | plain h _ => exact absurd rfl h.2.1
  · rintro rfl
    exact .instruction

theorem closes_dash (h : c ≠ '-') : Closes ('-' :: c :: w) ↔ Closes w := by
  refine ⟨fun hw => ?_, Closes.dash h⟩
  cases hw with
  | comment => exact absurd rfl h
  | plain h _ => exact absurd rfl h.2.2
  | dash _ hw => exact hw
  | dashes => exact absurd rfl h

theorem closes_dashes (h : c ≠ '>') : Closes ('-' :: '-' :: c :: w) ↔ Closes w := by
  refine ⟨fun hw => ?_, Closes.dashes h⟩
  cases hw with
  | comment => exact absurd rfl h
  | plain h _ => exact absurd rfl h.2.2
  | dash h _ => exact absurd rfl h
  | dashes _ hw => exact hw

theorem closes_comment : Closes ('-' :: '-' :: '>' :: w) ↔ w = [] := by
  constructor
  · intro hw
    cases hw with
    | comment => rfl
    | plain h _ => exact absurd rfl h.2.2
    | dash h _ => exact absurd rfl h
    | dashes h _ => exact absurd rfl h
  · rintro rfl
    exact .comment

theorem not_closes_dash : ¬Closes ['-'] := by
  rintro ⟨⟩
  next h _ => exact h.2.2 rfl

theorem not_closes_dashes : ¬Closes ['-', '-'] := by
  rintro ⟨⟩
  next h _ => exact h.2.2 rfl
  next h _ => exact h rfl

/-- A text starts with a word of a kind, and with it the token takes the whole buffer. -/
def Fills (P : Str → Prop) (n tok_size : ℕ) (u : Str) : Prop := ∃ w v, u = w ++ v ∧ P w ∧ n + w.length = tok_size

theorem not_fills_nil {P : Str → Prop} (h : ¬P []) : ¬Fills P n tok_size [] := by
  rintro ⟨w, v, hu, hw, -⟩
  rw [(List.append_eq_nil_iff.1 hu.symm).1] at hw
  exact h hw

theorem not_fills_full {P : Str → Prop} (h : ¬P []) (hn : tok_size ≤ n) : ¬Fills P n tok_size u := by
  rintro ⟨w, v, -, hw, hlength⟩
  rw [List.length_eq_zero_iff.1 (by omega : w.length = 0)] at hw
  exact h hw

theorem fills_cons {P Q : Str → Prop} (hPQ : ∀ w, P (c :: w) ↔ Q w) (hn : n < tok_size) :
    Fills P n tok_size (c :: u) ↔ Fills Q (n + 1) tok_size u := by
  constructor
  · rintro ⟨w, v, hu, hw, hlength⟩
    cases w with
    | nil =>
      rw [List.length_nil] at hlength
      omega
    | cons d w =>
      obtain ⟨rfl, rfl⟩ := List.cons.inj hu
      refine ⟨w, v, rfl, (hPQ w).1 hw, ?_⟩
      rw [List.length_cons] at hlength
      omega
  · rintro ⟨w, v, rfl, hw, hlength⟩
    refine ⟨c :: w, v, rfl, (hPQ w).2 hw, ?_⟩
    rw [List.length_cons]
    omega

/-! ## Rounds -/

/-- The rest of the loop stays in the buffers. -/
def Stays (tok_size : ℕ) (L : Lexer) (tok : Str) (state : LexState) : Prop :=
  ∀ a ∈ lexLoopAccesses tok_size L.rest.length L tok state, a.Within L.lexbuf_size tok_size

/-- So does one round. -/
def Touches (tok_size : ℕ) (L : Lexer) (c : Char) (tok : Str) (state : LexState) : Prop :=
  ∀ a ∈ lexNormalAccesses L c tok state, a.Within L.lexbuf_size tok_size

theorem within_end {a : Access} (ha : a ∈ lexEndAccesses L tok_size tok) : a.Within L.lexbuf_size tok_size := by
  unfold lexEndAccesses at ha
  split_ifs at ha with hfull hend
  · exact absurd ha List.not_mem_nil
  · obtain rfl := List.mem_singleton.1 ha
    unfold Access.Within
    omega
  · exact absurd ha List.not_mem_nil

theorem stays_stop (h : ¬L.Goes tok_size tok) : Stays tok_size L tok state := by
  intro a ha
  cases hrounds : L.rest.length with
  | zero =>
    rw [hrounds, lexLoopAccesses, if_neg h] at ha
    exact within_end ha
  | succ rounds =>
    rw [hrounds, lexLoopAccesses, if_neg h] at ha
    exact within_end ha

theorem stays_nil (h : L.rest = []) : Stays tok_size L tok state := by
  refine stays_stop fun hgoes => ?_
  have hlength : L.rest.length = 0 := by rw [h, List.length_nil]
  rw [Lexer.length_rest] at hlength
  have hpos := hgoes.2
  omega

theorem stays_full (h : tok_size ≤ tok.length) : Stays tok_size L tok state :=
  stays_stop fun hgoes => Nat.not_lt_of_le h hgoes.1

theorem stays_round (hmode : L.lex_mode = .normal) (hrest : L.rest = c :: u) (hn : tok.length < tok_size) :
    Stays tok_size L tok state ↔ Touches tok_size L c tok state ∧
      ∀ a ∈ (match lexNormal L c tok state with
        | .more L tok state => lexLoopAccesses tok_size u.length L tok state
        | .token _ _ => []), a.Within L.lexbuf_size tok_size := by
  obtain ⟨hpos, hc, -⟩ := Lexer.rest_eq_cons hrest
  have hturn : lexChar L tok state = lexNormal L c tok state := lexChar_normal hmode hrest
  unfold Stays
  rw [hrest, List.length_cons, lexLoopAccesses, if_pos ⟨hn, hpos⟩, hturn, List.forall_mem_append,
    lexCharAccesses, hmode, hc, List.forall_mem_cons]
  exact and_congr_left fun _ => and_iff_right hpos

theorem stays_more (hmode : L.lex_mode = .normal) (hrest : L.rest = c :: u) (hn : tok.length < tok_size)
    (hturn : lexNormal L c tok state = .more (L.forward 1) tok' state') :
    Stays tok_size L tok state ↔ Touches tok_size L c tok state ∧ Stays tok_size (L.forward 1) tok' state' := by
  obtain ⟨-, -, hnext⟩ := Lexer.rest_eq_cons hrest
  rw [stays_round hmode hrest hn, hturn, Stays, hnext]
  rfl

theorem stays_token {L' : Lexer} {t : Token} (hmode : L.lex_mode = .normal) (hrest : L.rest = c :: u)
    (hn : tok.length < tok_size) (hturn : lexNormal L c tok state = .token L' t) :
    Stays tok_size L tok state ↔ Touches tok_size L c tok state := by
  rw [stays_round hmode hrest hn, hturn]
  exact and_iff_left fun a ha => absurd ha List.not_mem_nil

theorem within_write (hn : tok.length < tok_size) :
    ∀ a ∈ [Access.write tok.length], a.Within L.lexbuf_size tok_size := by
  intro a ha
  obtain rfl := List.mem_singleton.1 ha
  exact ⟨Int.natCast_nonneg _, Int.ofNat_lt.2 hn⟩

theorem within_writes (hn : tok.length < tok_size) :
    (∀ a ∈ [Access.write tok.length, .write (tok.length + 1)], a.Within L.lexbuf_size tok_size) ↔
      tok.length + 1 ≠ tok_size := by
  rw [List.forall_mem_cons, List.forall_mem_singleton]
  unfold Access.Within
  omega

/-! ## Inside an identifier -/

theorem lexIdent_plain (h : IsPlain c) : lexIdent L c tok = .more (L.forward 1) (tok ++ [c]) .ident := by
  obtain ⟨hstop, hquestion, hdash⟩ := h
  unfold lexIdent
  split
  all_goals first | rfl | contradiction | exact absurd (by simp [StopsIdent]) hstop

theorem lexDash_other (h : c ≠ '-') : lexDash L c tok = .more (L.forward 1) (tok ++ [c]) .ident := by
  unfold lexDash
  split
  · contradiction
  · rfl

theorem lexDashes_other (h : c ≠ '>') : lexDashes L c tok = .more (L.forward 1) (tok ++ [c]) .ident := by
  unfold lexDashes
  split
  · contradiction
  · rfl

theorem touches_dashes_other (h : c ≠ '>') (hn : tok.length < tok_size) : Touches tok_size L c tok .dashes := by
  have haccesses : lexNormalAccesses L c tok .dashes = [.write tok.length] := by
    change dashesAccesses c tok = _
    unfold dashesAccesses
    split
    · contradiction
    · rfl
  unfold Touches
  rw [haccesses]
  exact within_write hn

theorem touches_dashes (hn : tok.length < tok_size) (hw : 2 ≤ tok.length) :
    Touches tok_size L '>' tok .dashes ↔ tok.length + 1 ≠ tok_size := by
  have hback : ∀ a ∈ (if (cStr (tok ++ ['>'])).length ≠ 3 then [Access.write (tok.length + 1 - 3)] else []),
      a.Within L.lexbuf_size tok_size := by
    intro a ha
    split_ifs at ha
    · obtain rfl := List.mem_singleton.1 ha
      unfold Access.Within
      omega
    · exact absurd ha List.not_mem_nil
  rw [← within_writes (L := L) hn]
  change (∀ a ∈ [Access.write tok.length, .write (tok.length + 1)] ++ _, a.Within _ _) ↔ _
  rw [List.forall_mem_append]
  exact and_iff_left hback

/-- What the identifier has come to when the lexer is in a state. -/
def taken : LexState → Option Str
  | .ident => some []
  | .dash => some ['-']
  | .dashes => some ['-', '-']
  | .tiStop => some ['?']
  | _ => none

theorem not_closes_taken (h : taken state = some w) : ¬Closes w := by
  cases state with
  | ident =>
    cases h
    exact not_closes_nil
  | dash =>
    cases h
    exact not_closes_dash
  | dashes =>
    cases h
    exact not_closes_dashes
  | tiStop =>
    cases h
    exact fun hw => absurd (closes_question.1 hw) (by simp)
  | _ => exact absurd h (Option.some_ne_none w).symm

theorem stays_ident (hmode : L.lex_mode = .normal) (htaken : taken state = some w) (hw : w.length ≤ tok.length) :
    Stays tok_size L tok state ↔ ¬Fills (fun v => Closes (w ++ v)) tok.length tok_size L.rest := by
  have hnil : ¬Closes (w ++ []) := by
    rw [List.append_nil]
    exact not_closes_taken htaken
  induction hrest : L.rest generalizing L tok state w with
  | nil => exact iff_of_true (stays_nil hrest) (not_fills_nil hnil)
  | cons c u ih =>
    rcases Nat.lt_or_ge tok.length tok_size with hn | hfull
    · obtain ⟨-, -, hnext⟩ := Lexer.rest_eq_cons hrest
      -- the identifier goes on behind `c`
      have hmore : ∀ (state' : LexState) {w' : Str},
          lexNormal L c tok state = .more (L.forward 1) (tok ++ [c]) state' → Touches tok_size L c tok state →
          taken state' = some w' → w'.length ≤ tok.length + 1 →
          (∀ v, Closes (w ++ c :: v) ↔ Closes (w' ++ v)) →
          (Stays tok_size L tok state ↔ ¬Fills (fun v => Closes (w ++ v)) tok.length tok_size (c :: u)) := by
        intro state' w' hturn htouches htaken' hw' hcloses
        have hlength : (tok ++ [c]).length = tok.length + 1 := List.length_append
        have hnil' : ¬Closes (w' ++ []) := by
          rw [List.append_nil]
          exact not_closes_taken htaken'
        rw [stays_more hmode hrest hn hturn, and_iff_right htouches, fills_cons hcloses hn, ← hlength]
        exact ih hmode htaken' (by rw [hlength]; exact hw') hnil' hnext
      -- it ends before `c`
      have hstop : ∀ {t : Token}, lexNormal L c tok state = .token L t → Touches tok_size L c tok state →
          (∀ v, ¬Closes (w ++ c :: v)) →
          (Stays tok_size L tok state ↔ ¬Fills (fun v => Closes (w ++ v)) tok.length tok_size (c :: u)) := by
        intro t hturn htouches hcloses
        rw [stays_token hmode hrest hn hturn,
          @fills_cons u c _ _ (fun v => Closes (w ++ v)) (fun _ => False) (fun v => iff_false_intro (hcloses v)) hn]
        refine iff_of_true htouches ?_
        rintro ⟨_, _, _, hfalse, _⟩
        exact hfalse
      -- it ends with `c`
      have hlast : ∀ {L' : Lexer} {t : Token}, lexNormal L c tok state = .token L' t →
          (Touches tok_size L c tok state ↔ tok.length + 1 ≠ tok_size) →
          (∀ v, Closes (w ++ c :: v) ↔ v = []) →
          (Stays tok_size L tok state ↔ ¬Fills (fun v => Closes (w ++ v)) tok.length tok_size (c :: u)) := by
        intro L' t hturn htouches hcloses
        rw [stays_token hmode hrest hn hturn, htouches,
          @fills_cons u c _ _ (fun v => Closes (w ++ v)) (fun v => v = []) hcloses hn]
        refine not_congr ⟨fun hlength => ⟨[], u, rfl, rfl, hlength⟩, ?_⟩
        rintro ⟨v, _, _, rfl, hlength⟩
        exact hlength
      cases state with
      | ident =>
        cases htaken
        by_cases hstops : StopsIdent c
        · refine hstop (lexIdent_stop hstops) (within_write hn) fun v hcloses => ?_
          cases hcloses with
          | plain h _ => exact h.1 hstops
          | _ => exact absurd hstops (by simp [StopsIdent])
        · by_cases hquestion : c = '?'
          · subst hquestion
            exact hmore .tiStop rfl (within_write hn) rfl (Nat.le_add_left 1 _) fun v => Iff.rfl
          · by_cases hdash : c = '-'
            · subst hdash
              exact hmore .dash rfl (within_write hn) rfl (Nat.le_add_left 1 _) fun v => Iff.rfl
            · have hplain : IsPlain c := ⟨hstops, hquestion, hdash⟩
              exact hmore .ident (lexIdent_plain hplain) (within_write hn) rfl (Nat.zero_le _)
                fun v => closes_plain hplain
      | dash =>
        cases htaken
        by_cases hdash : c = '-'
        · subst hdash
          exact hmore .dashes rfl (within_write hn) rfl (Nat.add_le_add_right hw 1) fun v => Iff.rfl
        · exact hmore .ident (lexDash_other hdash) (within_write hn) rfl (Nat.zero_le _)
            fun v => closes_dash hdash
      | dashes =>
        cases htaken
        by_cases hend : c = '>'
        · subst hend
          have hturn : ∃ L' t, lexNormal L '>' tok .dashes = .token L' t := by
            change ∃ L' t, lexDashes L '>' tok = .token L' t
            unfold lexDashes
            dsimp only
            split_ifs
            · exact ⟨_, _, rfl⟩
            · exact ⟨_, _, rfl⟩
          obtain ⟨L', t, hturn⟩ := hturn
          exact hlast hturn (touches_dashes hn hw) fun v => closes_comment
        · exact hmore .ident (lexDashes_other hend) (touches_dashes_other hend hn) rfl (Nat.zero_le _)
            fun v => closes_dashes hend
      | tiStop =>
        cases htaken
        by_cases hend : c = '>'
        · subst hend
          refine hlast rfl (within_writes hn) fun v => ?_
          exact closes_question.trans (by simp)
        · have htoken : lexNormal L c tok .tiStop = .token L ⟨.error, cStr tok⟩ := if_neg hend
          refine hstop htoken ?_ fun v hcloses => hend ?_
          · unfold Touches lexNormalAccesses
            rw [if_neg hend]
            exact within_write hn
          · exact (List.cons.inj (closes_question.1 hcloses)).1
      | _ => exact absurd htaken (Option.some_ne_none w).symm
    · exact iff_of_true (stays_full hfull) (not_fills_full hnil hfull)

/-! ## The document type -/

theorem within_strncmp (word : Str) :
    (∀ a ∈ strncmpReads L.lexbuf L.lexbuf_pos word, a.Within L.lexbuf_size tok_size) ↔
      ¬(L.rest <+: word ∧ L.rest.length < word.length) := by
  induction word generalizing L with
  | nil => exact iff_of_true (fun a ha => absurd ha List.not_mem_nil) fun h => Nat.not_lt_zero _ h.2
  | cons c word ih =>
    rw [strncmpReads, List.forall_mem_cons]
    cases hrest : L.rest with
    | nil =>
      refine iff_of_false (fun h => ?_) fun h => h ⟨List.nil_prefix, Nat.succ_pos _⟩
      have hpos : L.lexbuf_pos < L.lexbuf_size := h.1
      have hlength : L.rest.length = 0 := by rw [hrest, List.length_nil]
      rw [Lexer.length_rest] at hlength
      omega
    | cons d u =>
      obtain ⟨hpos, hd, hnext⟩ := Lexer.rest_eq_cons hrest
      have hread : (Access.read L.lexbuf_pos).Within L.lexbuf_size tok_size := hpos
      rw [and_iff_right hread, hd]
      by_cases hdc : d = c
      · subst hdc
        have hgo := @ih (L.forward 1)
        rw [hnext] at hgo
        rw [if_pos rfl, List.prefix_cons_inj, List.length_cons, List.length_cons, Nat.succ_lt_succ_iff]
        exact hgo
      · rw [if_neg hdc]
        refine iff_of_true (fun a ha => absurd ha List.not_mem_nil) fun h => hdc ?_
        exact (List.cons_prefix_cons.1 h.1).1

theorem range_eq_iff {word : Str} (h : ¬(L.rest <+: word ∧ L.rest.length < word.length)) :
    (List.range word.length).map (fun i => L.lexbuf (L.lexbuf_pos + i)) = word ↔ word <+: L.rest := by
  rcases Nat.lt_or_ge L.rest.length word.length with hlt | hge
  · -- the input is too short, and differs before its end
    refine iff_of_false (fun hword => h ⟨?_, hlt⟩) fun hbegins => Nat.not_lt_of_le hbegins.length_le hlt
    have htake : L.rest = word.take L.rest.length := by
      calc L.rest = (List.range L.rest.length).map fun i => L.lexbuf (L.lexbuf_pos + i) := by
            rw [Lexer.length_rest]
            rfl
        _ = ((List.range word.length).take L.rest.length).map fun i => L.lexbuf (L.lexbuf_pos + i) := by
            rw [List.take_range, Nat.min_eq_left hlt.le]
        _ = word.take L.rest.length := by rw [List.map_take, hword]
    rw [htake]
    exact List.take_prefix _ _
  · have htake : (List.range word.length).map (fun i => L.lexbuf (L.lexbuf_pos + i)) = L.rest.take word.length := by
      calc _ = ((List.range L.rest.length).take word.length).map fun i => L.lexbuf (L.lexbuf_pos + i) := by
            rw [List.take_range, Nat.min_eq_left hge]
        _ = L.rest.take word.length := by
            rw [List.map_take, Lexer.length_rest]
            rfl
    rw [htake]
    exact eq_comm.trans List.prefix_iff_eq_take.symm

/-- Behind `<!D`, with the token at `m` bytes: the input ends inside the word, or `DOCTYPE` does not fit. -/
def DoctypeOut (m tok_size : ℕ) (u : Str) : Prop :=
  (u <+: "OCTYPE".toList ∧ u.length < 6) ∨ ("OCTYPE".toList <+: u ∧ tok_size ≤ m + 6)

theorem touches_doctype (hrest : L.rest = 'D' :: u) :
    Touches tok_size L 'D' tok .declaration ↔ ¬DoctypeOut tok.length tok_size u := by
  obtain ⟨-, -, hnext⟩ := Lexer.rest_eq_cons hrest
  have hreads := @within_strncmp (L.forward 1) tok_size "OCTYPE".toList
  have hword := @range_eq_iff (L.forward 1) "OCTYPE".toList
  rw [hnext] at hreads hword
  have hlength : "OCTYPE".toList.length = 6 := rfl
  rw [hlength] at hreads hword
  change (∀ a ∈ strncmpReads L.lexbuf (L.lexbuf_pos + 1) "OCTYPE".toList ++ _, a.Within _ _) ↔ _
  rw [List.forall_mem_append]
  rw [DoctypeOut, not_or]
  refine (and_congr_left' hreads).trans (and_congr_right fun hinside => ?_)
  have hsame : (List.range 6).map (fun i : ℕ => L.lexbuf (L.lexbuf_pos + 1 + i)) = "OCTYPE".toList ↔
      "OCTYPE".toList <+: u := hword hinside
  by_cases hbegins : "OCTYPE".toList <+: u
  · rw [if_pos (hsame.2 hbegins), List.forall_mem_map]
    simp only [List.mem_range, Access.Within]
    constructor
    · intro hall hout
      have hlast := hall 6 (by omega)
      omega
    · intro hout i hi
      have hsize : ¬tok_size ≤ tok.length + 6 := fun h => hout ⟨hbegins, h⟩
      omega
  · rw [if_neg fun h => hbegins (hsame.1 h)]
    exact iff_of_true (fun a ha => absurd ha List.not_mem_nil) fun h => hbegins h.1

/-! ## Markup -/

/-- The texts with which the lexer leaves its buffers, with the token at `n` bytes. -/
inductive Overruns (in_comment : Bool) (tok_size : ℕ) : ℕ → Str → Prop
  /-- In a comment the slashes in front of a token belong to it. -/
  | slash {n : ℕ} {u : Str} (h : in_comment = true) (hu : Overruns in_comment tok_size (n + 1) u) :
    Overruns in_comment tok_size n ('/' :: u)
  /-- `</` and `<?`. -/
  | markup {n : ℕ} {c : Char} {u : Str} (h : c = '/' ∨ c = '?') (hsize : n + 2 = tok_size) :
    Overruns in_comment tok_size n ('<' :: c :: u)
  /-- `/>`. -/
  | emptyTag {n : ℕ} {u : Str} (h : in_comment = false) (hsize : n + 2 = tok_size) :
    Overruns in_comment tok_size n ('/' :: '>' :: u)
  /-- `<!--`. -/
  | comment {n : ℕ} {u : Str} (hlow : n + 2 < tok_size) (hhigh : tok_size ≤ n + 4) :
    Overruns in_comment tok_size n ('<' :: '!' :: '-' :: '-' :: u)
  | commentCut {n : ℕ} (hlow : n + 2 < tok_size) : Overruns in_comment tok_size n ['<', '!', '-']
  /-- `<!DOCTYPE`. -/
  | doctype {n : ℕ} {u : Str} (hlow : n + 2 < tok_size) (h : DoctypeOut (n + 2) tok_size u) :
    Overruns in_comment tok_size n ('<' :: '!' :: 'D' :: u)
  /-- A single dash is passed over. -/
  | dashDoctype {n : ℕ} {u : Str} (hlow : n + 2 < tok_size) (h : DoctypeOut (n + 2) tok_size u) :
    Overruns in_comment tok_size n ('<' :: '!' :: '-' :: 'D' :: u)
  /-- An identifier up to its `?>` or `-->`. -/
  | ident {n : ℕ} {c : Char} {u : Str} (hplain : BeginsIdent c) (h : Fills Closes (n + 1) tok_size u) :
    Overruns in_comment tok_size n (c :: u)
  /-- An identifier that begins with `?` or `-`. -/
  | sign {n : ℕ} {c : Char} {u : Str} (hsign : c = '?' ∨ c = '-')
    (h : Fills (fun w => Closes (c :: w)) (n + 1) tok_size u) : Overruns in_comment tok_size n (c :: u)

theorem stays_written {L' : Lexer} {t : Token} (hmode : L.lex_mode = .normal) (hrest : L.rest = c :: u)
    (hn : tok.length < tok_size) (hturn : lexNormal L c tok state = .token L' t)
    (haccesses : lexNormalAccesses L c tok state = [.write tok.length]) : Stays tok_size L tok state := by
  rw [stays_token hmode hrest hn hturn, Touches, haccesses]
  exact within_write hn

theorem stays_bytes (hmode : L.lex_mode = .normal) (hstate : state = .eol ∨ state = .separ ∨ state = .string) :
    Stays tok_size L tok state := by
  induction hrest : L.rest generalizing L tok with
  | nil => exact stays_nil hrest
  | cons c u ih =>
    rcases Nat.lt_or_ge tok.length tok_size with hn | hfull
    · obtain ⟨-, -, hnext⟩ := Lexer.rest_eq_cons hrest
      have hmore : lexNormal L c tok state = .more (L.forward 1) (tok ++ [c]) state →
          Touches tok_size L c tok state → Stays tok_size L tok state := fun hturn htouches =>
        (stays_more hmode hrest hn hturn).2 ⟨htouches, ih hmode hnext⟩
      rcases hstate with rfl | rfl | rfl
      · by_cases h : c = '\n' ∨ c = '\r'
        · exact hmore (if_pos h) (within_write hn)
        · exact stays_written hmode hrest hn (if_neg h) rfl
      · by_cases h : c = ' ' ∨ c = '\t'
        · exact hmore (if_pos h) (within_write hn)
        · exact stays_written hmode hrest hn (if_neg h) rfl
      · by_cases h : c = '\"'
        · have hturn : lexNormal L c tok .string = .token (L.forward 1) ⟨.string, cStr tok⟩ := if_pos h
          rw [stays_token hmode hrest hn hturn, Touches, lexNormalAccesses, if_pos h, List.forall_mem_cons]
          exact ⟨within_write hn _ List.mem_cons_self, within_write hn⟩
        · refine hmore (if_neg h) ?_
          rw [Touches, lexNormalAccesses, if_neg h]
          exact within_write hn
    · exact stays_full hfull

theorem stays_stops (hmode : L.lex_mode = .normal) (hstate : state = .mStop1 ∨ state = .equal) :
    Stays tok_size L tok state := by
  cases hrest : L.rest with
  | nil => exact stays_nil hrest
  | cons c u =>
    rcases Nat.lt_or_ge tok.length tok_size with hn | hfull
    · rcases hstate with rfl | rfl
      · exact stays_written hmode hrest hn rfl rfl
      · exact stays_written hmode hrest hn rfl rfl
    · exact stays_full hfull

theorem stays_data (hmode : L.lex_mode = .data) : Stays tok_size L tok state := by
  induction hrest : L.rest generalizing L tok with
  | nil => exact stays_nil hrest
  | cons c u ih =>
    rcases Nat.lt_or_ge tok.length tok_size with hn | hfull
    · obtain ⟨hpos, hc, hnext⟩ := Lexer.rest_eq_cons hrest
      unfold Stays
      rw [hrest, List.length_cons, lexLoopAccesses, if_pos ⟨hn, hpos⟩, List.forall_mem_append, lexCharAccesses,
        hmode, List.forall_mem_cons]
      refine ⟨⟨hpos, within_write hn⟩, ?_⟩
      unfold lexChar
      rw [hmode, hc]
      dsimp only
      split_ifs
      · exact fun a ha => absurd ha List.not_mem_nil
      · have hgo := @ih (L.forward 1) (tok ++ [c]) hmode hnext
        rw [Stays, hnext] at hgo
        exact hgo
    · exact stays_full hfull

theorem stays_mStop2 (hmode : L.lex_mode = .normal) (hn : tok.length < tok_size) :
    Stays tok_size L tok .mStop2 ↔ ¬((∃ u, L.rest = '>' :: u) ∧ tok.length + 1 = tok_size) := by
  cases hrest : L.rest with
  | nil => exact iff_of_true (stays_nil hrest) fun h => absurd h.1 (by simp)
  | cons c u =>
    by_cases h : c = '>'
    · subst h
      have hturn : lexNormal L '>' tok .mStop2 =
          .token (L.forward 1).markupStop ⟨.mStop2, cStr (tok ++ ['>'])⟩ := rfl
      rw [stays_token hmode hrest hn hturn]
      exact (within_writes hn).trans (not_congr (and_iff_right ⟨u, rfl⟩).symm)
    · refine iff_of_true (stays_written hmode hrest hn (if_neg h) (if_neg h)) fun hall => h ?_
      obtain ⟨⟨u', hu'⟩, -⟩ := hall
      exact (List.cons.inj hu').1

theorem overruns_lt {in_comment : Bool} (h : Overruns in_comment tok_size n ('<' :: c :: u)) :
    (c = '/' ∨ c = '?') ∧ n + 2 = tok_size ∨ c = '!' ∧ n + 2 < tok_size ∧
      (u = ['-'] ∨ (∃ v, u = '-' :: '-' :: v ∧ tok_size ≤ n + 4) ∨
        ∃ v, (u = 'D' :: v ∨ u = '-' :: 'D' :: v) ∧ DoctypeOut (n + 2) tok_size v) := by
  cases h with
  | markup hc hsize => exact Or.inl ⟨hc, hsize⟩
  | comment hlow hhigh => exact Or.inr ⟨rfl, hlow, Or.inr (Or.inl ⟨_, rfl, hhigh⟩)⟩
  | commentCut hlow => exact Or.inr ⟨rfl, hlow, Or.inl rfl⟩
  | doctype hlow hout => exact Or.inr ⟨rfl, hlow, Or.inr (Or.inr ⟨_, Or.inl rfl, hout⟩)⟩
  | dashDoctype hlow hout => exact Or.inr ⟨rfl, hlow, Or.inr (Or.inr ⟨_, Or.inr rfl, hout⟩)⟩
  | ident hplain => exact absurd hplain (by simp [BeginsIdent])
  | sign hsign => exact absurd hsign (by decide)

theorem not_overruns_lt {in_comment : Bool} : ¬Overruns in_comment tok_size n ['<'] := by
  intro h
  cases h with
  | ident hplain => exact absurd hplain (by simp [BeginsIdent])
  | sign hsign => exact absurd hsign (by decide)

theorem stays_doctype (hmode : L.lex_mode = .normal) (hrest : L.rest = c :: u) (hc : c ≠ '-')
    (hn : tok.length < tok_size) :
    Stays tok_size L tok .declaration ↔ ¬(c = 'D' ∧ DoctypeOut tok.length tok_size u) := by
  by_cases hD : c = 'D'
  · subst hD
    have hturn : ∃ L' t, lexNormal L 'D' tok .declaration = .token L' t := by
      by_cases hword : (List.range 6).map (fun i : ℕ => L.lexbuf (L.lexbuf_pos + 1 + i)) = "OCTYPE".toList
      · exact ⟨_, ⟨.doctypeStart, _⟩, if_pos hword⟩
      · exact ⟨_, ⟨.error, _⟩, if_neg hword⟩
    obtain ⟨L', t, hturn⟩ := hturn
    rw [stays_token hmode hrest hn hturn, touches_doctype hrest]
    exact not_congr (and_iff_right rfl).symm
  · have hturn : lexNormal L c tok .declaration = .token L ⟨.error, cStr tok⟩ := by
      change lexDeclaration L c tok = _
      unfold lexDeclaration
      split
      · contradiction
      · contradiction
      · rfl
    have haccesses : lexNormalAccesses L c tok .declaration = [] := by
      change declarationAccesses L c tok.length = _
      unfold declarationAccesses
      split
      · contradiction
      · contradiction
      · rfl
    rw [stays_token hmode hrest hn hturn, Touches, haccesses]
    exact iff_of_true (fun a ha => absurd ha List.not_mem_nil) fun h => hD h.1

theorem touches_dash (hrest : L.rest = '-' :: u) :
    Touches tok_size L '-' tok .declaration ↔
      u ≠ [] ∧ ((∃ v, u = '-' :: v) → tok.length + 2 < tok_size) := by
  obtain ⟨-, -, hnext⟩ := Lexer.rest_eq_cons hrest
  have hlength := Lexer.length_rest (L.forward 1)
  rw [hnext] at hlength
  have hread : (Access.read (L.lexbuf_pos + 1)).Within L.lexbuf_size tok_size ↔ u ≠ [] := by
    rw [← List.length_pos_iff, hlength]
    change L.lexbuf_pos + 1 < L.lexbuf_size ↔ 0 < L.lexbuf_size - (L.lexbuf_pos + 1)
    omega
  change (∀ a ∈ Access.read (L.lexbuf_pos + 1) :: _, a.Within _ _) ↔ _
  rw [List.forall_mem_cons, hread]
  refine and_congr_right fun hne => ?_
  obtain ⟨d, v, rfl⟩ := List.exists_cons_of_ne_nil hne
  have hd : L.lexbuf (L.lexbuf_pos + 1) = d := (Lexer.rest_eq_cons hnext).2.1
  by_cases h : d = '-'
  · subst h
    rw [if_pos hd]
    simp only [List.forall_mem_cons, Access.Within]
    constructor
    · rintro ⟨-, -, hlast, -⟩ -
      omega
    · intro hsize
      have hsize := hsize ⟨v, rfl⟩
      exact ⟨by omega, by omega, by omega, fun a ha => absurd ha List.not_mem_nil⟩
  · rw [if_neg (by rw [hd]; exact h)]
    refine iff_of_true (fun a ha => absurd ha List.not_mem_nil) fun hdash => absurd ?_ h
    obtain ⟨v', hv'⟩ := hdash
    exact (List.cons.inj hv').1

theorem stays_declaration {in_comment : Bool} (hmode : L.lex_mode = .normal) (hlength : tok.length = n + 2) :
    Stays tok_size L tok .declaration ↔ ¬Overruns in_comment tok_size n ('<' :: '!' :: L.rest) := by
  rcases Nat.lt_or_ge tok.length tok_size with hn | hfull
  · cases hrest : L.rest with
    | nil =>
      refine iff_of_true (stays_nil hrest) fun h => ?_
      rcases overruns_lt h with ⟨h, -⟩ | ⟨-, -, h | ⟨v, h, -⟩ | ⟨v, h, -⟩⟩
      · exact absurd h (by decide)
      · exact absurd h (by simp)
      · exact absurd h (by simp)
      · exact absurd h (by simp)
    | cons c u =>
      obtain ⟨-, -, hnext⟩ := Lexer.rest_eq_cons hrest
      by_cases hc : c = '-'
      · subst hc
        have htouches := @touches_dash L tok u tok_size hrest
        cases u with
        | nil =>
          -- the lexer looks for the second `-` behind its input
          refine iff_of_false (fun h => ?_) fun h => h (.commentCut (by omega))
          have hround := ((stays_round hmode hrest hn).1 h).1
          exact (htouches.1 hround).1 rfl
        | cons d v =>
          have hd : L.lexbuf (L.lexbuf_pos + 1) = d := (Lexer.rest_eq_cons hnext).2.1
          by_cases hdash : d = '-'
          · subst hdash
            have hturn : lexNormal L '-' tok .declaration =
                .token { L.forward 2 with in_comment := true } ⟨.cStart, cStr (tok ++ ['-', '-'])⟩ := if_pos hd
            rw [stays_token hmode hrest hn hturn, htouches]
            constructor
            · rintro ⟨-, hsize⟩ h
              have hsize := hsize ⟨v, rfl⟩
              rcases overruns_lt h with ⟨h, -⟩ | ⟨-, -, h | ⟨v', h, hhigh⟩ | ⟨v', h, -⟩⟩
              · exact absurd h (by decide)
              · exact absurd h (by simp)
              · omega
              · exact absurd h (by simp)
            · intro h
              refine ⟨List.cons_ne_nil _ _, fun _ => ?_⟩
              by_contra hsize
              exact h (.comment (by omega) (by omega))
          · -- a single `-` is skipped, and a `!DOCTYPE` may still follow
            have hturn : lexNormal L '-' tok .declaration = .more (L.forward 1) tok .declaration :=
              if_neg (by rw [hd]; exact hdash)
            have hround : Touches tok_size L '-' tok .declaration := by
              refine htouches.2 ⟨List.cons_ne_nil _ _, fun h => absurd ?_ hdash⟩
              obtain ⟨v', hv'⟩ := h
              exact (List.cons.inj hv').1
            have hnormal : (L.forward 1).lex_mode = .normal := hmode
            rw [stays_more hmode hrest hn hturn, and_iff_right hround, stays_doctype hnormal hnext hdash hn, hlength]
            refine not_congr ⟨?_, fun h => ?_⟩
            · rintro ⟨rfl, hout⟩
              exact .dashDoctype (by omega) hout
            · rcases overruns_lt h with ⟨h, -⟩ | ⟨-, -, h | ⟨v', h, -⟩ | ⟨v', h, hout⟩⟩
              · exact absurd h (by decide)
              · exact absurd h (by simp)
              · exact absurd (List.cons.inj (List.cons.inj h).2).1 hdash
              · rcases h with h | h
                · exact absurd (List.cons.inj h).1 (by decide)
                · obtain ⟨-, h⟩ := List.cons.inj h
                  obtain ⟨rfl, rfl⟩ := List.cons.inj h
                  exact ⟨rfl, hout⟩
      · rw [stays_doctype hmode hrest hc hn, hlength]
        refine not_congr ⟨?_, fun h => ?_⟩
        · rintro ⟨rfl, hout⟩
          exact .doctype (by omega) hout
        · rcases overruns_lt h with ⟨h, -⟩ | ⟨-, -, h | ⟨v, h, -⟩ | ⟨v, h, hout⟩⟩
          · exact absurd h (by decide)
          · exact absurd (List.cons.inj h).1 hc
          · exact absurd (List.cons.inj h).1 hc
          · rcases h with h | h
            · obtain ⟨rfl, rfl⟩ := List.cons.inj h
              exact ⟨rfl, hout⟩
            · exact absurd (List.cons.inj h).1 hc
  · refine iff_of_true (stays_full hfull) fun h => ?_
    rcases overruns_lt h with ⟨h, -⟩ | ⟨-, h, -⟩
    · exact absurd h (by decide)
    · omega

theorem stays_mStart {in_comment : Bool} (hmode : L.lex_mode = .normal) (hlength : tok.length = n + 1) :
    Stays tok_size L tok .mStart ↔ ¬Overruns in_comment tok_size n ('<' :: L.rest) := by
  cases hrest : L.rest with
  | nil => exact iff_of_true (stays_nil hrest) not_overruns_lt
  | cons c u =>
    rcases Nat.lt_or_ge tok.length tok_size with hn | hfull
    · obtain ⟨-, -, hnext⟩ := Lexer.rest_eq_cons hrest
      by_cases hc : c = '/' ∨ c = '?'
      · -- the null byte is one too many
        have htouches : Touches tok_size L c tok .mStart ↔ tok.length + 1 ≠ tok_size := by
          rw [← within_writes (L := L) hn]
          rcases hc with rfl | rfl <;> rfl
        have hturn : ∃ L' t, lexNormal L c tok .mStart = .token L' t := by
          rcases hc with rfl | rfl <;> exact ⟨_, _, rfl⟩
        obtain ⟨L', t, hturn⟩ := hturn
        rw [stays_token hmode hrest hn hturn, htouches]
        refine not_congr ⟨fun h => .markup hc (by omega), fun h => ?_⟩
        rcases overruns_lt h with ⟨-, h⟩ | ⟨rfl, -⟩
        · omega
        · exact absurd hc (by decide)
      · by_cases hbang : c = '!'
        · subst hbang
          have hturn : lexNormal L '!' tok .mStart = .more (L.forward 1) (tok ++ ['!']) .declaration := rfl
          rw [stays_more hmode hrest hn hturn, ← hnext]
          have hlength' : (tok ++ ['!']).length = n + 2 := by rw [List.length_append, hlength]; rfl
          exact (and_iff_right (within_write hn)).trans (stays_declaration hmode hlength')
        · have hturn : lexNormal L c tok .mStart = .token L ⟨.mStart1, cStr tok⟩ := by
            change lexMStart L c tok = _
            unfold lexMStart
            split
            · exact absurd (Or.inl rfl) hc
            · exact absurd rfl hbang
            · exact absurd (Or.inr rfl) hc
            · rfl
          have haccesses : lexNormalAccesses L c tok .mStart = [.write tok.length] := by
            change mStartAccesses c tok.length = _
            unfold mStartAccesses
            split
            · exact absurd (Or.inl rfl) hc
            · exact absurd (Or.inr rfl) hc
            · rfl
          refine iff_of_true (stays_written hmode hrest hn hturn haccesses) fun h => ?_
          rcases overruns_lt h with ⟨h, -⟩ | ⟨h, -⟩
          · exact hc h
          · exact hbang h
    · refine iff_of_true (stays_full hfull) fun h => ?_
      rcases overruns_lt h with ⟨-, h⟩ | ⟨-, h, -⟩ <;> omega

/-! ## A token -/

theorem overruns_room {in_comment : Bool} (h : Overruns in_comment tok_size n u) : n < tok_size := by
  induction h with
  | slash _ _ ih => omega
  | markup | emptyTag | comment | commentCut | doctype | dashDoctype => omega
  | ident _ h =>
    obtain ⟨w, v, -, -, hlength⟩ := h
    omega
  | sign _ h =>
    obtain ⟨w, v, -, -, hlength⟩ := h
    omega

theorem overruns_sign {in_comment : Bool} (hc : c = '?' ∨ c = '-') :
    Overruns in_comment tok_size n (c :: u) ↔ Fills (fun w => Closes (c :: w)) (n + 1) tok_size u := by
  refine ⟨fun h => ?_, .sign hc⟩
  cases h with
  | sign _ h => exact h
  | ident hplain =>
    refine absurd hplain ?_
    rcases hc with rfl | rfl <;> simp [BeginsIdent]
  | _ => exact absurd hc (by decide)

theorem overruns_ident {in_comment : Bool} (hplain : BeginsIdent c) :
    Overruns in_comment tok_size n (c :: u) ↔ Fills Closes (n + 1) tok_size u := by
  refine ⟨fun h => ?_, .ident hplain⟩
  cases h with
  | ident _ h => exact h
  | sign hsign =>
    rcases hsign with rfl | rfl <;> exact absurd hplain (by simp [BeginsIdent])
  | _ => exact absurd hplain (by simp [BeginsIdent])

theorem not_overruns {in_comment : Bool} (hc : c ∈ ['\n', '\r', ' ', '\t', '>', '=', '\"']) :
    ¬Overruns in_comment tok_size n (c :: u) := by
  intro h
  cases h with
  | ident hplain =>
    refine hplain ?_
    simp only [List.mem_cons, List.not_mem_nil, or_false] at hc ⊢
    tauto
  | sign hsign => rcases hsign with rfl | rfl <;> exact absurd hc (by decide)
  | _ => exact absurd hc (by decide)

theorem overruns_slash (h : L.in_comment = true) :
    Overruns L.in_comment tok_size n ('/' :: u) ↔ Overruns L.in_comment tok_size (n + 1) u := by
  refine ⟨fun hout => ?_, .slash h⟩
  cases hout with
  | slash _ hu => exact hu
  | emptyTag hno => exact absurd (h.symm.trans hno) (by decide)
  | ident hplain => exact absurd hplain (by simp [BeginsIdent])
  | sign hsign => exact absurd hsign (by decide)

theorem overruns_emptyTag (h : L.in_comment = false) :
    Overruns L.in_comment tok_size n ('/' :: u) ↔ (∃ v, u = '>' :: v) ∧ n + 2 = tok_size := by
  constructor
  · intro hout
    cases hout with
    | slash hyes => exact absurd (h.symm.trans hyes) (by decide)
    | emptyTag _ hsize => exact ⟨⟨_, rfl⟩, hsize⟩
    | ident hplain => exact absurd hplain (by simp [BeginsIdent])
    | sign hsign => exact absurd hsign (by decide)
  · rintro ⟨⟨v, rfl⟩, hsize⟩
    exact .emptyTag h hsize

theorem lexInit_ident (h : BeginsIdent c) : lexInit L c tok = .more (L.forward 1) (tok ++ [c]) .ident := by
  unfold lexInit
  split
  case h_12 => rfl
  all_goals exact absurd h (by simp [BeginsIdent])

theorem stays_init (hmode : L.lex_mode = .normal) :
    Stays tok_size L tok .init ↔ ¬Overruns L.in_comment tok_size tok.length L.rest := by
  induction hrest : L.rest generalizing L tok with
  | nil => exact iff_of_true (stays_nil hrest) (by rintro ⟨⟩)
  | cons c u ih =>
    rcases Nat.lt_or_ge tok.length tok_size with hn | hfull
    · obtain ⟨-, -, hnext⟩ := Lexer.rest_eq_cons hrest
      have hlength : (tok ++ [c]).length = tok.length + 1 := List.length_append
      have hmore : ∀ state, lexNormal L c tok .init = .more (L.forward 1) (tok ++ [c]) state → c ≠ '\"' →
          (Stays tok_size L tok .init ↔ Stays tok_size (L.forward 1) (tok ++ [c]) state) := by
        intro state hturn hquote
        rw [stays_more hmode hrest hn hturn, Touches, lexNormalAccesses, if_neg hquote]
        exact and_iff_right (within_write hn)
      have hnormal : (L.forward 1).lex_mode = .normal := hmode
      by_cases hplain : BeginsIdent c
      · have hquote : c ≠ '\"' := by
          rintro rfl
          exact absurd hplain (by simp [BeginsIdent])
        rw [hmore .ident (lexInit_ident hplain) hquote, overruns_ident hplain, ← hnext, ← hlength]
        exact stays_ident (w := []) hnormal rfl (Nat.zero_le _)
      · -- the bytes that begin a token of their own
        have hc : c ∈ ['\n', '\r', ' ', '\t', '<', '>', '/', '=', '\"', '-', '?'] := not_not.1 hplain
        have hother : c ∈ ['\n', '\r', ' ', '\t', '>', '=', '\"'] → Stays tok_size L tok .init →
            (Stays tok_size L tok .init ↔ ¬Overruns L.in_comment tok_size tok.length (c :: u)) :=
          fun hc hstays => iff_of_true hstays (not_overruns hc)
        simp only [List.mem_cons, List.not_mem_nil, or_false] at hc
        rcases hc with rfl | rfl | rfl | rfl | rfl | rfl | rfl | rfl | rfl | rfl | rfl
        · exact hother (by decide) ((hmore .eol rfl (by decide)).2 (stays_bytes hnormal (.inl rfl)))
        · exact hother (by decide) ((hmore .eol rfl (by decide)).2 (stays_bytes hnormal (.inl rfl)))
        · exact hother (by decide) ((hmore .separ rfl (by decide)).2 (stays_bytes hnormal (.inr (.inl rfl))))
        · exact hother (by decide) ((hmore .separ rfl (by decide)).2 (stays_bytes hnormal (.inr (.inl rfl))))
        · rw [hmore .mStart rfl (by decide), ← hnext]
          exact stays_mStart hnormal hlength
        · exact hother (by decide) ((hmore .mStop1 rfl (by decide)).2 (stays_stops hnormal (.inl rfl)))
        · cases hcomment : L.in_comment with
          | true =>
            -- in a comment the lexer stays where it is
            have hturn : lexNormal L '/' tok .init = .more (L.forward 1) (tok ++ ['/']) .init := by
              change lexInit L '/' tok = _
              unfold lexInit
              rw [hcomment]
              rfl
            have hgo := @ih (L.forward 1) (tok ++ ['/']) hnormal hnext
            rw [← hcomment, hmore .init hturn (by decide), overruns_slash hcomment, ← hlength]
            exact hgo
          | false =>
            have hturn : lexNormal L '/' tok .init = .more (L.forward 1) (tok ++ ['/']) .mStop2 := by
              change lexInit L '/' tok = _
              unfold lexInit
              rw [hcomment]
              rfl
            rw [← hcomment, hmore .mStop2 hturn (by decide), overruns_emptyTag hcomment]
            rcases Nat.lt_or_ge (tok ++ ['/']).length tok_size with hn' | hfull'
            · rw [stays_mStop2 hnormal hn', hnext, hlength]
            · refine iff_of_true (stays_full hfull') fun h => ?_
              omega
        · exact hother (by decide) ((hmore .equal rfl (by decide)).2 (stays_stops hnormal (.inr rfl)))
        · have hstring : Stays tok_size L tok .init ↔ _ := stays_more hmode hrest hn
            (show lexNormal L '\"' tok .init = .more (L.forward 1) tok .string from rfl)
          refine hother (by decide) (hstring.2 ⟨fun a ha => absurd ha List.not_mem_nil, ?_⟩)
          exact stays_bytes hnormal (.inr (.inr rfl))
        · rw [hmore .dash rfl (by decide), overruns_sign (.inr rfl), ← hnext, ← hlength]
          exact stays_ident (w := ['-']) hnormal rfl (by rw [hlength]; exact Nat.le_add_left 1 _)
        · rw [hmore .tiStop rfl (by decide), overruns_sign (.inl rfl), ← hnext, ← hlength]
          exact stays_ident (w := ['?']) hnormal rfl (by rw [hlength]; exact Nat.le_add_left 1 _)
    · exact iff_of_true (stays_full hfull) fun h => Nat.not_lt_of_le hfull (overruns_room h)

/-- `lexer_get_token` stays in its buffers exactly if it is in the text of an element or the input does not
begin with a token that overruns them. -/
theorem stays_iff (L : Lexer) (tok_size : ℕ) :
    L.Stays tok_size ↔ ¬(L.lex_mode = .normal ∧ Overruns L.in_comment tok_size 0 L.rest) := by
  have hsame : L.Stays tok_size ↔ Stays tok_size L [] .init := by
    unfold Lexer.Stays lexerAccesses Stays
    rw [Lexer.length_rest]
  rw [hsame]
  cases hmode : L.lex_mode with
  | normal => exact (stays_init hmode).trans (not_congr (and_iff_right rfl).symm)
  | data => exact iff_of_true (stays_data hmode) fun h => absurd h.1 (by decide)

/-- The input `</`, with room for two bytes. -/
theorem endTag_overruns : ¬(lexerInit (fun i => if i = 0 then '<' else '/') 2).Stays 2 := by
  have haccess : Access.write 2 ∈ lexerAccesses (lexerInit (fun i => if i = 0 then '<' else '/') 2) 2 := by
    decide
  exact fun hstays => absurd (hstays _ haccess).2 (by decide)

end Xine.Xml
