import Mathlib.Data.List.Basic
import Mathlib.Data.List.TakeWhile

/-!
# Decimal numbers

Writing and reading decimal integers as `printf` and `strtol` do. Reading skips blank space, takes a
sign and as many digits as there are, and ignores what follows; without a digit it reads nothing.
`read_write` is the round trip.
-/

namespace Decimal

/-- Blank space, as `isspace` has it. -/
def isSpace (c : Char) : Bool := c = ' ' || (9 ≤ c.toNat && c.toNat ≤ 13)

/-- The decimal digits of an integer, with a minus sign if it is negative. -/
def write (n : ℤ) : List Char :=
  if n < 0 then '-' :: Nat.toDigits 10 (-n).toNat else Nat.toDigits 10 n.toNat

/-- The number that a text begins with, if it begins with a digit. -/
def readNat (s : List Char) : Option ℕ :=
  let digits := s.takeWhile Char.isDigit
  if digits = [] then none else some (Nat.ofDigitChars 10 digits 0)

/-- The integer that a text begins with, after blank space. -/
def read (s : List Char) : Option ℤ :=
  match s.dropWhile isSpace with
  | '-' :: t => (readNat t).map fun n : ℕ => -(n : ℤ)
  | '+' :: t => (readNat t).map fun n : ℕ => (n : ℤ)
  | t => (readNat t).map fun n : ℕ => (n : ℤ)

theorem readNat_toDigits (n : ℕ) {s : List Char} (hs : ∀ c, s.head? = some c → c.isDigit = false) :
    readNat (Nat.toDigits 10 n ++ s) = some n := by
  have hdigits : ∀ c ∈ Nat.toDigits 10 n, c.isDigit = true := fun c hc =>
    Nat.isDigit_of_mem_toDigits (by decide) (by decide) hc
  have hrest : s.takeWhile Char.isDigit = [] := by
    cases s with
    | nil => rfl
    | cons c s => rw [List.takeWhile_cons_of_neg (by simp [hs c rfl])]
  have htake : (Nat.toDigits 10 n ++ s).takeWhile Char.isDigit = Nat.toDigits 10 n := by
    rw [List.takeWhile_append_of_pos hdigits, hrest, List.append_nil]
  unfold readNat
  rw [htake, if_neg Nat.toDigits_ne_nil, Nat.ofDigitChars_ten_toDigits]

theorem toDigits_eq_cons (n : ℕ) : ∃ c t, Nat.toDigits 10 n = c :: t ∧ c.isDigit = true := by
  obtain ⟨c, t, hcons⟩ := List.exists_cons_of_ne_nil (Nat.toDigits_ne_nil (b := 10) (n := n))
  refine ⟨c, t, hcons, ?_⟩
  have hmem : c ∈ Nat.toDigits 10 n := by
    rw [hcons]
    exact List.mem_cons_self
  exact Nat.isDigit_of_mem_toDigits (by decide) (by decide) hmem

theorem not_space_of_isDigit {c : Char} (hc : c.isDigit = true) :
    isSpace c = false ∧ c ≠ '-' ∧ c ≠ '+' := by
  have hrange : 48 ≤ c.toNat ∧ c.toNat ≤ 57 := Char.isDigit_iff_toNat.1 hc
  refine ⟨?_, ?_, ?_⟩
  · have hspace : c ≠ ' ' := by
      rintro rfl
      exact absurd hrange (by decide)
    simp only [isSpace, Bool.or_eq_false_iff, decide_eq_false_iff_not, Bool.and_eq_false_iff]
    exact ⟨hspace, .inr (by omega)⟩
  · rintro rfl
    exact absurd hrange (by decide)
  · rintro rfl
    exact absurd hrange (by decide)

theorem read_write_append (n : ℤ) {s : List Char} (hs : ∀ c, s.head? = some c → c.isDigit = false) :
    read (write n ++ s) = some n := by
  unfold write
  split_ifs with hn
  · -- the sign comes first
    have hdrop : (('-' :: Nat.toDigits 10 (-n).toNat) ++ s).dropWhile isSpace =
        '-' :: (Nat.toDigits 10 (-n).toNat ++ s) := rfl
    unfold read
    rw [hdrop]
    simp only [readNat_toDigits _ hs, Option.map_some]
    congr 1
    omega
  · obtain ⟨c, t, hcons, hc⟩ := toDigits_eq_cons n.toNat
    obtain ⟨hspace, hminus, hplus⟩ := not_space_of_isDigit hc
    have hread := readNat_toDigits n.toNat hs
    rw [hcons] at hread ⊢
    unfold read
    rw [List.cons_append, List.dropWhile_cons_of_neg (by simp [hspace])]
    rw [List.cons_append] at hread
    split
    · rename_i heq
      exact absurd (List.cons.inj heq).1 hminus
    · rename_i heq
      exact absurd (List.cons.inj heq).1 hplus
    · rw [hread, Option.map_some]
      congr 1
      omega

theorem read_write (n : ℤ) : read (write n) = some n := by
  have h := read_write_append n (s := []) fun c hc => by simp at hc
  rwa [List.append_nil] at h

end Decimal

/-!
## Reading lines into a buffer

`fgetsAll size text` is what successive calls of `fgets` read from a text, each at most `size`
characters: a buffer ends with a newline, when it is full, or with the text. Lines that fit are read
one by one, and no buffer is longer than `size`
(`length_le_of_mem_fgetsAll`).
-/

namespace Lines

/-- The buffers, when there is room for `room` more characters in the one that holds `cur`. -/
def fgetsLoop (size : ℕ) : ℕ → List Char → List Char → List (List Char)
  | _, cur, [] => if cur = [] then [] else [cur]
  | room, cur, c :: text =>
    if c = '\n' ∨ room ≤ 1 then (cur ++ [c]) :: fgetsLoop size size [] text
    else fgetsLoop size (room - 1) (cur ++ [c]) text

/-- The buffers that successive calls of `fgets` read. -/
def fgetsAll (size : ℕ) (text : List Char) : List (List Char) := fgetsLoop size size [] text

variable {size room : ℕ} {cur line text : List Char}

theorem length_le_of_mem_fgetsLoop (hsize : 1 ≤ size) (hroom : 1 ≤ room) (h : cur.length + room = size)
    (hline : line ∈ fgetsLoop size room cur text) : line.length ≤ size := by
  induction text generalizing room cur with
  | nil =>
    unfold fgetsLoop at hline
    split_ifs at hline
    · exact absurd hline List.not_mem_nil
    · rw [List.mem_singleton.1 hline]
      omega
  | cons c text ih =>
    unfold fgetsLoop at hline
    split_ifs at hline with hc
    · rcases List.mem_cons.1 hline with rfl | hline
      · rw [List.length_append, List.length_singleton]
        omega
      · exact ih hsize (by simp) hline
    · rw [not_or] at hc
      refine ih (by omega) ?_ hline
      rw [List.length_append, List.length_singleton]
      omega

theorem length_le_of_mem_fgetsAll (hsize : 1 ≤ size) (hline : line ∈ fgetsAll size text) :
    line.length ≤ size :=
  length_le_of_mem_fgetsLoop hsize hsize (by simp) hline

theorem fgetsLoop_line (hline : '\n' ∉ line) (hroom : line.length < room) :
    fgetsLoop size room cur (line ++ '\n' :: text) = (cur ++ line ++ ['\n']) :: fgetsAll size text := by
  induction line generalizing room cur with
  | nil =>
    rw [List.nil_append, List.append_nil]
    unfold fgetsLoop
    rw [if_pos (.inl rfl)]
    rfl
  | cons c line ih =>
    rw [List.mem_cons, not_or] at hline
    rw [List.length_cons] at hroom
    rw [List.cons_append]
    unfold fgetsLoop
    rw [if_neg (by rw [not_or]; exact ⟨fun hc => hline.1 hc.symm, by omega⟩),
      ih hline.2 (by omega), List.append_assoc cur, List.singleton_append]

theorem fgetsAll_line (hline : '\n' ∉ line) (hsize : line.length < size) :
    fgetsAll size (line ++ '\n' :: text) = (line ++ ['\n']) :: fgetsAll size text := by
  unfold fgetsAll
  rw [fgetsLoop_line hline hsize, List.nil_append]
  rfl

theorem fgetsAll_lines {lines : List (List Char)}
    (h : ∀ line ∈ lines, '\n' ∉ line ∧ line.length < size) :
    fgetsAll size (lines.flatMap fun line => line ++ ['\n']) = lines.map fun line => line ++ ['\n'] := by
  induction lines with
  | nil => rfl
  | cons line lines ih =>
    obtain ⟨hline, hsize⟩ := h line List.mem_cons_self
    rw [List.flatMap_cons, List.map_cons, List.append_assoc, List.singleton_append,
      fgetsAll_line hline hsize, ih fun line hmem => h line (List.mem_cons_of_mem _ hmem)]

end Lines

/-!
## Splitting a list at a separator

What is before and after the first separator of a list, as `strchr` splits a string, and what is before and after
the last one, as `strrchr` does.
-/

namespace Splitting

variable {α : Type*} [DecidableEq α] {c : α} {s x y : List α}

/-- What is before the first separator. -/
def before (c : α) (s : List α) : List α := s.takeWhile (· ≠ c)

/-- What is after the first separator. -/
def after (c : α) (s : List α) : List α := (s.dropWhile (· ≠ c)).tail

/-- What is before the last separator. -/
def beforeLast (c : α) (s : List α) : List α := (after c s.reverse).reverse

/-- What is after the last separator. -/
def afterLast (c : α) (s : List α) : List α := (before c s.reverse).reverse

theorem not_mem_before : c ∉ before c s := by
  intro h
  simpa using List.mem_takeWhile_imp h

theorem not_mem_afterLast : c ∉ afterLast c s := by
  unfold afterLast
  rw [List.mem_reverse]
  exact not_mem_before

theorem before_append (h : c ∉ x) : before c (x ++ c :: y) = x := by
  have hall : ∀ a ∈ x, decide (a ≠ c) = true := fun a ha => decide_eq_true (ne_of_mem_of_not_mem ha h)
  unfold before
  rw [List.takeWhile_append_of_pos hall]
  simp

theorem after_append (h : c ∉ x) : after c (x ++ c :: y) = y := by
  have hall : ∀ a ∈ x, decide (a ≠ c) = true := fun a ha => decide_eq_true (ne_of_mem_of_not_mem ha h)
  unfold after
  rw [List.dropWhile_append_of_pos hall]
  simp

theorem before_append_after (h : c ∈ s) : before c s ++ c :: after c s = s := by
  obtain ⟨x, y, rfl, hx⟩ := List.eq_append_cons_of_mem h
  rw [before_append hx, after_append hx]

theorem beforeLast_append (h : c ∉ y) : beforeLast c (x ++ c :: y) = x := by
  have hrev : (x ++ c :: y).reverse = y.reverse ++ c :: x.reverse := by simp
  unfold beforeLast
  rw [hrev, after_append (by simpa using h), List.reverse_reverse]

theorem afterLast_append (h : c ∉ y) : afterLast c (x ++ c :: y) = y := by
  have hrev : (x ++ c :: y).reverse = y.reverse ++ c :: x.reverse := by simp
  unfold afterLast
  rw [hrev, before_append (by simpa using h), List.reverse_reverse]

theorem beforeLast_append_afterLast (h : c ∈ s) : beforeLast c s ++ c :: afterLast c s = s := by
  have hrev := before_append_after (List.mem_reverse.2 h)
  calc beforeLast c s ++ c :: afterLast c s
      = (before c s.reverse ++ c :: after c s.reverse).reverse := by simp [beforeLast, afterLast]
    _ = s := by rw [hrev, List.reverse_reverse]

end Splitting
