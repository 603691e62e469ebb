import Xine.Mrl.Unescape

/-!
# Percent encoding

What unescaping is for: `unescaped` replaces each `%` with two hexadecimal digits behind it and nothing else, and
undoes every percent encoding. `mrl_unescape` leaves the reading of the digits to `sscanf`, which also takes one
digit, or skips white space or reads a sign first, and then two bytes are dropped all the same.
-/

namespace Xine.Mrl

variable {s t before rest : Str} {a b c : Char} {x y : ℕ}

/-- The character that two digits encode. -/
def encoded (x y : ℕ) : Char := toChar (16 * x + y)

/-- The character at the start of the string, if two hexadecimal digits are there. -/
def twoDigits : Str → Option Char
  | a :: b :: _ => (hexDigit a).bind fun x => (hexDigit b).map (encoded x)
  | _ => none

/-- Each `%` with two hexadecimal digits is replaced. -/
def unescaped : Str → Str
  | [] => []
  | c :: s =>
    if c = '%' then
      match twoDigits s with
      | some d => d :: unescaped (s.drop 2)
      | none => c :: unescaped s
    else
      c :: unescaped s
termination_by s => s.length
decreasing_by
  all_goals
    simp only [List.length_drop, List.length_cons]
    omega

/-- The percent encodings of a string: a character is written as it is, unless it is a `%`, or as two digits. -/
inductive Encodes : Str → Str → Prop
  | nil : Encodes [] []
  | plain {c : Char} {s t : Str} (h : c ≠ '%') (hs : Encodes s t) : Encodes (c :: s) (c :: t)
  | digits {a b : Char} {x y : ℕ} {s t : Str} (ha : hexDigit a = some x) (hb : hexDigit b = some y)
    (hs : Encodes s t) : Encodes (encoded x y :: s) ('%' :: a :: b :: t)

/-! ## Where the library is lenient -/

/-- `sscanf` takes what is behind the `%` although it is not two digits. -/
def Lenient (rest : Str) : Prop := 2 ≤ rest.length ∧ twoDigits rest = none ∧ (sscanf02x rest).isSome = true

theorem Lenient.exists_cons (h : Lenient s) : ∃ a b t, s = a :: b :: t := by
  obtain ⟨hs, -⟩ := h
  match s, hs with
  | a :: b :: t, _ => exact ⟨a, b, t, rfl⟩

/-- Nowhere in the string. -/
def Strict (s : Str) : Prop := ∀ before rest, s = before ++ '%' :: rest → ¬Lenient rest

theorem Strict.tail (h : Strict (c :: s)) : Strict s := fun before rest hs =>
  h (c :: before) rest (by rw [hs, List.cons_append])

theorem Strict.drop (h : Strict s) (n : ℕ) : Strict (s.drop n) := by
  intro before rest hs
  refine h (s.take n ++ before) rest ?_
  rw [List.append_assoc, ← hs, List.take_append_drop]

/-! ## One character -/

theorem hexDigit_null : hexDigit '\x00' = none := by decide

theorem hexDigit_percent : hexDigit '%' = none := by decide

theorem plain_of_hexDigit (h : hexDigit a = some x) :
    a ≠ '\x00' ∧ a ≠ '%' ∧ isSpace a = false ∧ ¬(a = '+' ∨ a = '-') ∧ ¬(a = 'x' ∨ a = 'X') := by
  have hne : ∀ c : Char, hexDigit c = none → a ≠ c := by
    rintro c hc rfl
    exact absurd (h.symm.trans hc) (Option.some_ne_none x)
  refine ⟨hne _ hexDigit_null, hne _ hexDigit_percent, ?_, ?_, ?_⟩
  · cases hspace : isSpace a with
    | false => rfl
    | true => exact absurd (h.symm.trans (hexDigit_space hspace)) (Option.some_ne_none x)
  · rintro (rfl | rfl)
    · exact hne '+' (by decide) rfl
    · exact hne '-' (by decide) rfl
  · rintro (rfl | rfl)
    · exact hne 'x' (by decide) rfl
    · exact hne 'X' (by decide) rfl

theorem exists_of_twoDigits {d : Char} (h : twoDigits s = some d) :
    ∃ a b x y t, s = a :: b :: t ∧ hexDigit a = some x ∧ hexDigit b = some y ∧ d = encoded x y := by
  match s, h with
  | a :: b :: t, h =>
    obtain ⟨x, hx, h⟩ := Option.bind_eq_some_iff.1 h
    obtain ⟨y, hy, rfl⟩ := Option.map_eq_some_iff.1 h
    exact ⟨a, b, x, y, t, rfl, hx, hy, rfl⟩

theorem sscanf02x_of_twoDigits {d : Char} (h : twoDigits s = some d) :
    2 ≤ s.length ∧ ∃ v, sscanf02x s = some v ∧ toChar v = d := by
  obtain ⟨a, b, x, y, t, rfl, ha, hb, rfl⟩ := exists_of_twoDigits h
  obtain ⟨hnull, -, hspace, hsign, -⟩ := plain_of_hexDigit ha
  obtain ⟨hnull', -, -, -, hx⟩ := plain_of_hexDigit hb
  refine ⟨Nat.le_add_left 2 _, 16 * x + y, ?_, rfl⟩
  have hword : ((a :: b :: t).takeWhile (· ≠ '\x00')).dropWhile isSpace =
      a :: b :: t.takeWhile (· ≠ '\x00') := by
    rw [List.takeWhile_cons_of_pos (by simpa using hnull), List.takeWhile_cons_of_pos (by simpa using hnull'),
      List.dropWhile_cons_of_neg (by rw [hspace]; exact Bool.false_ne_true)]
  have hno : ¬(a = '0' ∧ (some b = some 'x' ∨ some b = some 'X')) := fun h =>
    hx (h.2.imp Option.some.inj Option.some.inj)
  unfold sscanf02x
  rw [hword, strtoul2, readNumber, if_neg hsign, ha, Option.bind_some, List.head?_cons, if_neg hno, Option.bind_some,
    hb]
  rfl

theorem unescaped_digits {d : Char} (h : twoDigits s = some d) :
    unescaped ('%' :: s) = d :: unescaped (s.drop 2) := by
  rw [unescaped, if_pos rfl, h]

theorem unescaped_plain (h : c = '%' → twoDigits s = none) : unescaped (c :: s) = c :: unescaped s := by
  rw [unescaped]
  split_ifs with hc
  · rw [h hc]
  · rfl

theorem scanned_some {v : ℤ} (hs : 2 ≤ s.length) (h : sscanf02x s = some v) :
    scanned ('%' :: s) = toChar v :: scanned (s.drop 2) := by
  rw [scanned, if_pos ⟨rfl, hs⟩, h]

theorem scanned_plain (h : c = '%' → 2 ≤ s.length → sscanf02x s = none) :
    scanned (c :: s) = c :: scanned s := by
  rw [scanned]
  split_ifs with hc
  · rw [h hc.1 hc.2]
  · rfl

theorem character (c : Char) (s : Str) :
    (c = '%' ∧ ∃ d, twoDigits s = some d) ∨ (c = '%' ∧ Lenient s) ∨
      (c = '%' → twoDigits s = none) ∧ (c = '%' → 2 ≤ s.length → sscanf02x s = none) := by
  by_cases hc : c = '%'
  · cases hdigits : twoDigits s with
    | some d => exact Or.inl ⟨hc, d, rfl⟩
    | none =>
      by_cases hlenient : Lenient s
      · exact Or.inr (Or.inl ⟨hc, hlenient⟩)
      · refine Or.inr (Or.inr ⟨fun _ => rfl, fun _ hs => ?_⟩)
        exact Option.not_isSome_iff_eq_none.1 fun h => hlenient ⟨hs, hdigits, h⟩
  · exact Or.inr (Or.inr ⟨fun h => absurd h hc, fun h => absurd h hc⟩)

/-! ## The whole string -/

theorem scanned_of_strict (h : Strict s) : scanned s = unescaped s := by
  induction hn : s.length using Nat.strong_induction_on generalizing s with
  | _ n ih =>
    cases s with
    | nil => rw [scanned, unescaped]
    | cons c s =>
      rw [List.length_cons] at hn
      rcases character c s with ⟨rfl, d, hdigits⟩ | ⟨rfl, hlenient⟩ | ⟨hdigits, hnone⟩
      · obtain ⟨hs, v, hv, rfl⟩ := sscanf02x_of_twoDigits hdigits
        rw [unescaped_digits hdigits, scanned_some hs hv,
          ih (s.drop 2).length (by rw [List.length_drop]; omega) (h.tail.drop 2) rfl]
      · exact absurd hlenient (h [] s rfl)
      · rw [unescaped_plain hdigits, scanned_plain hnone, ih s.length (by omega) h.tail rfl]

/-! ## A lenient escape shows -/

theorem hexDigit_lt (h : hexDigit a = some x) : x < 16 := by
  unfold hexDigit at h
  split_ifs at h with h0 hA ha
  · cases h
    have hle : a.toNat ≤ '9'.toNat := h0.2
    have hnine : '9'.toNat - '0'.toNat = 9 := rfl
    omega
  · cases h
    have hle : a.toNat ≤ 'F'.toNat := hA.2
    have hf : 'F'.toNat - 'A'.toNat = 5 := rfl
    omega
  · cases h
    have hle : a.toNat ≤ 'f'.toNat := ha.2
    have hf : 'f'.toNat - 'a'.toNat = 5 := rfl
    omega

theorem toChar_ne_percent {v : ℤ} (hlow : -16 < v) (hhigh : v < 16) : toChar v ≠ '%' := by
  have hall : ∀ n : Fin 31, toChar ((n : ℕ) - 15 : ℤ) ≠ '%' := by decide
  have hn : ((v + 15).toNat : ℤ) = v + 15 := Int.toNat_of_nonneg (by omega)
  have hv := hall ⟨(v + 15).toNat, by omega⟩
  rwa [Fin.val_mk, hn, show v + 15 - 15 = v by omega] at hv

theorem sscanf02x_percent : sscanf02x ('%' :: s) = none := by
  unfold sscanf02x
  rw [List.takeWhile_cons_of_pos (by decide), List.dropWhile_cons_of_neg (by decide), strtoul2, readNumber,
    if_neg (by decide), hexDigit_percent]
  rfl

theorem sscanf02x_space (h : isSpace a = true) : sscanf02x (a :: s) = sscanf02x s := by
  have hnull : a ≠ '\x00' := by
    rintro rfl
    exact absurd h (by decide)
  unfold sscanf02x
  rw [List.takeWhile_cons_of_pos (by simpa using hnull), List.dropWhile_cons_of_pos h]

theorem readNumber_small {next : Option Char} {v : ℤ}
    (hnext : ¬(a = '+' ∨ a = '-') → (hexDigit a).isSome = true → next.bind hexDigit = none)
    (h : readNumber a next = some v) : -16 < v ∧ v < 16 := by
  unfold readNumber at h
  by_cases hsign : a = '+' ∨ a = '-'
  · rw [if_pos hsign] at h
    obtain ⟨y, hy, rfl⟩ := Option.map_eq_some_iff.1 h
    obtain ⟨d, -, hd⟩ := Option.bind_eq_some_iff.1 hy
    have hlt := hexDigit_lt hd
    by_cases hminus : a = '-'
    · rw [if_pos hminus]
      omega
    · rw [if_neg hminus]
      omega
  · rw [if_neg hsign] at h
    obtain ⟨x, hx, h⟩ := Option.bind_eq_some_iff.1 h
    have hlt := hexDigit_lt hx
    rw [hnext hsign (by rw [hx]; rfl)] at h
    obtain rfl := Option.some.inj (Option.ite_none_left_eq_some.1 h).2
    dsimp only [Option.elim]
    omega

theorem sscanf02x_small {v : ℤ} (hspace : isSpace a = false) (hdigits : twoDigits (a :: b :: t) = none)
    (h : sscanf02x (a :: b :: t) = some v) : -16 < v ∧ v < 16 := by
  unfold sscanf02x at h
  by_cases hnull : a = '\x00'
  · rw [List.takeWhile_cons_of_neg (by simpa using hnull)] at h
    exact absurd h.symm (Option.some_ne_none v)
  · rw [List.takeWhile_cons_of_pos (by simpa using hnull),
      List.dropWhile_cons_of_neg (by rw [hspace]; exact Bool.false_ne_true)] at h
    refine readNumber_small (fun _ ha => ?_) h
    obtain ⟨x, hx⟩ := Option.isSome_iff_exists.1 ha
    have hb : hexDigit b = none := by
      rw [twoDigits, hx, Option.bind_some] at hdigits
      exact Option.map_eq_none_iff.1 hdigits
    by_cases hnull' : b = '\x00'
    · rw [List.takeWhile_cons_of_neg (by simpa using hnull')]
      rfl
    · rw [List.takeWhile_cons_of_pos (by simpa using hnull')]
      exact hb

theorem ne_percent_of_lenient (h : Lenient (a :: s)) : a ≠ '%' := by
  rintro rfl
  have hsome := h.2.2
  rw [sscanf02x_percent] at hsome
  exact Bool.false_ne_true hsome

theorem length_unescaped_cons (b : Char) (t : Str) :
    (unescaped t).length ≤ (unescaped (b :: t)).length + 1 := by
  by_cases hb : b = '%' ∧ ∃ d, twoDigits t = some d
  · obtain ⟨rfl, d, hd⟩ := hb
    obtain ⟨c, c', x, y, u, rfl, hc, hc', rfl⟩ := exists_of_twoDigits hd
    have hne := (plain_of_hexDigit hc).2.1
    have hne' := (plain_of_hexDigit hc').2.1
    rw [unescaped_digits hd, unescaped_plain fun h => absurd h hne, unescaped_plain fun h => absurd h hne']
    simp
  · have hplain : b = '%' → twoDigits t = none := fun hb' =>
      Option.eq_none_iff_forall_ne_some.2 fun d hd => hb ⟨hb', d, hd⟩
    rw [unescaped_plain hplain, List.length_cons]
    omega

theorem length_scanned_le (s : Str) : (scanned s).length ≤ (unescaped s).length := by
  induction hn : s.length using Nat.strong_induction_on generalizing s with
  | _ n ih =>
    cases s with
    | nil => rw [scanned, unescaped]
    | cons c s =>
      rw [List.length_cons] at hn
      rcases character c s with ⟨rfl, d, hdigits⟩ | ⟨rfl, hlenient⟩ | ⟨hdigits, hnone⟩
      · obtain ⟨hs, v, hv, rfl⟩ := sscanf02x_of_twoDigits hdigits
        have hle := ih (s.drop 2).length (by rw [List.length_drop]; omega) (s.drop 2) rfl
        rw [unescaped_digits hdigits, scanned_some hs hv, List.length_cons, List.length_cons]
        omega
      · obtain ⟨a, b, t, rfl⟩ := hlenient.exists_cons
        have ha := ne_percent_of_lenient hlenient
        obtain ⟨hs, hdigits, hsome⟩ := hlenient
        obtain ⟨v, hv⟩ := Option.isSome_iff_exists.1 hsome
        have hle := ih t.length (by simp only [List.length_cons] at hn; omega) t rfl
        have hcons := length_unescaped_cons b t
        rw [scanned_some hs hv, unescaped_plain fun _ => hdigits, unescaped_plain fun h => absurd h ha]
        simp only [List.length_cons, List.drop_succ_cons, List.drop_zero]
        omega
      · have hle := ih s.length (by omega) s rfl
        rw [unescaped_plain hdigits, scanned_plain hnone, List.length_cons, List.length_cons]
        omega

theorem scanned_ne_of_lenient (h : Lenient s) : scanned ('%' :: s) ≠ unescaped ('%' :: s) := by
  obtain ⟨a, b, t, rfl⟩ := h.exists_cons
  have ha := ne_percent_of_lenient h
  obtain ⟨hs, hdigits, hsome⟩ := h
  obtain ⟨v, hv⟩ := Option.isSome_iff_exists.1 hsome
  rw [scanned_some hs hv, unescaped_plain fun _ => hdigits, unescaped_plain fun h => absurd h ha]
  intro heq
  obtain ⟨hchar, htail⟩ := List.cons.inj heq
  cases hspace : isSpace a with
  | false =>
    obtain ⟨hlow, hhigh⟩ := sscanf02x_small hspace hdigits hv
    exact toChar_ne_percent hlow hhigh hchar
  | true =>
    -- the white space and the byte behind it are gone, and no escape with them
    have hb : b ≠ '%' := by
      rintro rfl
      rw [sscanf02x_space hspace, sscanf02x_percent] at hv
      exact absurd hv.symm (Option.some_ne_none v)
    have hle := length_scanned_le t
    have hlength := congrArg List.length htail
    rw [unescaped_plain fun h => absurd h hb] at hlength
    simp only [List.length_cons, List.drop_succ_cons, List.drop_zero] at hlength
    omega

theorem strict_of_scanned (h : scanned s = unescaped s) : Strict s := by
  induction hn : s.length using Nat.strong_induction_on generalizing s with
  | _ n ih =>
    cases s with
    | nil =>
      intro before rest hs
      exact absurd hs (by simp)
    | cons c s =>
      rw [List.length_cons] at hn
      rcases character c s with ⟨rfl, d, hdigits⟩ | ⟨rfl, hlenient⟩ | ⟨hdigits, hnone⟩
      · obtain ⟨hs, v, hv, rfl⟩ := sscanf02x_of_twoDigits hdigits
        rw [unescaped_digits hdigits, scanned_some hs hv] at h
        have hstrict := ih (s.drop 2).length (by rw [List.length_drop]; omega) (List.cons.inj h).2 rfl
        obtain ⟨a, b, x, y, t, rfl, ha, hb, -⟩ := exists_of_twoDigits hdigits
        intro before rest hsplit hlenient
        -- the digits are no `%`
        match before with
        | [] =>
          obtain ⟨-, rfl⟩ := List.cons.inj hsplit
          exact absurd (hdigits.symm.trans hlenient.2.1) (Option.some_ne_none _)
        | [c] =>
          obtain ⟨-, hsplit⟩ := List.cons.inj hsplit
          exact (plain_of_hexDigit ha).2.1 (List.cons.inj hsplit).1
        | [c, c'] =>
          obtain ⟨-, hsplit⟩ := List.cons.inj hsplit
          obtain ⟨-, hsplit⟩ := List.cons.inj hsplit
          exact (plain_of_hexDigit hb).2.1 (List.cons.inj hsplit).1
        | c :: c' :: c'' :: before =>
          obtain ⟨-, hsplit⟩ := List.cons.inj hsplit
          obtain ⟨-, hsplit⟩ := List.cons.inj hsplit
          obtain ⟨-, hsplit⟩ := List.cons.inj hsplit
          exact hstrict before rest hsplit hlenient
      · exact absurd h (scanned_ne_of_lenient hlenient)
      · rw [unescaped_plain hdigits, scanned_plain hnone] at h
        have hstrict := ih s.length (by omega) (List.cons.inj h).2 rfl
        intro before rest hsplit hlenient
        cases before with
        | nil =>
          obtain ⟨rfl, rfl⟩ := List.cons.inj hsplit
          have hsome := hlenient.2.2
          rw [hnone rfl hlenient.1] at hsome
          exact Bool.false_ne_true hsome
        | cons d before =>
          obtain ⟨-, hsplit⟩ := List.cons.inj hsplit
          exact hstrict before rest hsplit hlenient

/-! ## Unescaping -/

theorem scanned_of_encodes (h : Encodes s t) : scanned t = s := by
  induction h with
  | nil => rw [scanned]
  | plain hc _ ih => rw [scanned_plain fun h => absurd h hc, ih]
  | @digits a b x y s t ha hb _ ih =>
    have hdigits : twoDigits (a :: b :: t) = some (encoded x y) := by
      rw [twoDigits, ha, Option.bind_some, hb, Option.map_some]
    obtain ⟨hs, v, hv, hchar⟩ := sscanf02x_of_twoDigits hdigits
    rw [scanned_some hs hv, hchar]
    exact congrArg _ ih

theorem mrlUnescape_of_encodes {mrl : CString} (h : Encodes s mrl.1) : mrlUnescape mrl = some s := by
  rw [mrlUnescape_eq, scanned_of_encodes h]

/-- `mrl_unescape` undoes a percent encoding, and replaces what it should and nothing else. -/
def Unescapes (mrl : CString) : Prop :=
  (∀ s, Encodes s mrl.1 → mrlUnescape mrl = some s) ∧ mrlUnescape mrl = some (unescaped mrl.1)

theorem not_null_four : '\x00' ∉ "%4g".toList := by decide

end Xine.Mrl
