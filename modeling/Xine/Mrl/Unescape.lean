import Mathlib.Data.Int.Init
import Mathlib.Data.List.Basic
import Mathlib.Data.List.TakeWhile

/-!
# Unescaping a part of an MRL

`mrl_unescape` of `xine.c`, on the memory of the string: what is moved towards the front leaves its old bytes
behind, and `sscanf` may read these until `mrl_unescape` puts the null byte.
-/

namespace Xine.Mrl

abbrev Str := List Char

/-- A string in memory, up to its null byte. -/
def CString := { s : Str // '\x00' ∉ s }

/-! ## The library -/

def isSpace (c : Char) : Bool := c = ' ' || c = '\t' || c = '\n' || c = '\x0b' || c = '\x0c' || c = '\r'

/-- The value of a hexadecimal digit. -/
def hexDigit (c : Char) : Option ℕ :=
  if '0' ≤ c ∧ c ≤ '9' then some (c.toNat - '0'.toNat)
  else if 'A' ≤ c ∧ c ≤ 'F' then some (c.toNat - 'A'.toNat + 10)
  else if 'a' ≤ c ∧ c ≤ 'f' then some (c.toNat - 'a'.toNat + 10)
  else none

/-- The number that `%2x` reads from a character and the next one: a sign counts as the first, and a `0x` has
no digit behind it. -/
def readNumber (a : Char) (next : Option Char) : Option ℤ :=
  if a = '+' ∨ a = '-' then
    (next.bind hexDigit).map fun y : ℕ => if a = '-' then -(y : ℤ) else y
  else
    (hexDigit a).bind fun x =>
      if a = '0' ∧ (next = some 'x' ∨ next = some 'X') then none
      else some ((next.bind hexDigit).elim (x : ℤ) fun y => 16 * x + y)

/-- The number at the start of a string. -/
def strtoul2 : Str → Option ℤ
  | [] => none
  | a :: s => readNumber a s.head?

/-- `sscanf (s, "%02x", &c)`: what it stores in `c`, if it returns 1. White space is skipped first. -/
def sscanf02x (memory : Str) : Option ℤ :=
  strtoul2 ((memory.takeWhile (· ≠ '\x00')).dropWhile isSpace)

/-- `(char)c`. -/
def toChar (c : ℤ) : Char := Char.ofNat (c % 256).toNat

/-- `memmove (mrl + dst, mrl + src, n)`. -/
def memmove (mrl : Str) (dst src n : ℕ) : Str := mrl.take dst ++ (mrl.drop src).take n ++ mrl.drop (dst + n)

/-! ## The loop -/

/-- The body of the loop: the memory and `len`. -/
def unescapeAt (mrl : Str) (len i : ℕ) : Str × ℕ :=
  if mrl[i]? = some '%' ∧ i + 2 < len then
    match sscanf02x (mrl.drop (i + 1)) with
    | some c => (memmove (mrl.set i (toChar c)) (i + 1) (i + 3) (len - i - 3), len - 2)
    | none => (mrl, len)
  else
    (mrl, len)

/-- The loop of `mrl_unescape`, in a number of rounds, and the bytes in front of the null byte that it puts. -/
def unescapeLoop : ℕ → Str → ℕ → ℕ → Option Str
  | 0, mrl, len, i => if i < len then none else some (mrl.take len)
  | rounds + 1, mrl, len, i =>
    if i < len then
      let turn := unescapeAt mrl len i
      unescapeLoop rounds turn.1 turn.2 (i + 1)
    else
      some (mrl.take len)

def mrlUnescape (mrl : CString) : Option Str := unescapeLoop mrl.1.length mrl.1 mrl.1.length 0

/-- What the loop does to the string. -/
def scanned : Str → Str
  | [] => []
  | c :: s =>
    if c = '%' ∧ 2 ≤ s.length then
      match sscanf02x s with
      | some v => toChar v :: scanned (s.drop 2)
      | none => c :: scanned s
    else
      c :: scanned s
termination_by s => s.length
decreasing_by
  all_goals
    simp only [List.length_drop, List.length_cons]
    omega

/-! ## What is left behind -/

variable {s t rest stale front : Str} {c a b : Char} {i len : ℕ}

/-- The last two bytes of a string, any number of times. -/
def Repeats (s stale : Str) : Prop := ∃ k, stale = (List.replicate k (s.drop (s.length - 2))).flatten

theorem repeats_nil (s : Str) : Repeats s [] := ⟨0, rfl⟩

theorem Repeats.drop {n : ℕ} (h : Repeats s stale) (hn : n + 2 ≤ s.length) : Repeats (s.drop n) stale := by
  obtain ⟨k, rfl⟩ := h
  refine ⟨k, ?_⟩
  rw [List.drop_drop, List.length_drop]
  congr 3
  omega

theorem Repeats.again (h : Repeats s stale) : Repeats s (s.drop (s.length - 2) ++ stale) := by
  obtain ⟨k, rfl⟩ := h
  exact ⟨k + 1, by rw [List.replicate_succ, List.flatten_cons]⟩

theorem Repeats.mem (h : Repeats s stale) (hc : c ∈ stale) : c ∈ s := by
  obtain ⟨k, rfl⟩ := h
  obtain ⟨l, hl, hc⟩ := List.mem_flatten.1 hc
  rw [List.eq_of_mem_replicate hl] at hc
  exact List.mem_of_mem_drop hc

theorem Repeats.head (h : Repeats (s ++ [a, b]) stale) : stale = [] ∨ ∃ t, stale = a :: t := by
  obtain ⟨k, rfl⟩ := h
  have hlast : (s ++ [a, b]).drop ((s ++ [a, b]).length - 2) = [a, b] := by
    rw [List.length_append, List.length_cons, List.length_singleton, Nat.add_sub_cancel, List.drop_left]
  rw [hlast]
  cases k with
  | zero => exact Or.inl rfl
  | succ k => exact Or.inr ⟨_, rfl⟩

/-! ## Numbers -/

theorem hexDigit_space (h : isSpace c = true) : hexDigit c = none := by
  simp only [isSpace, Bool.or_eq_true, decide_eq_true_eq] at h
  rcases h with ((((rfl | rfl) | rfl) | rfl) | rfl) | rfl <;> decide

theorem ne_x_of_space (h : isSpace c = true) : c ≠ 'x' ∧ c ≠ 'X' := by
  simp only [isSpace, Bool.or_eq_true, decide_eq_true_eq] at h
  rcases h with ((((rfl | rfl) | rfl) | rfl) | rfl) | rfl <;> decide

theorem readNumber_space (h : isSpace b = true) : readNumber a (some b) = readNumber a none := by
  obtain ⟨hx, hX⟩ := ne_x_of_space h
  unfold readNumber
  simp [hexDigit_space h, hx, hX]

theorem sscanf02x_stale (hs : 2 ≤ s.length) (hnull : '\x00' ∉ s) (hstale : Repeats s stale) :
    sscanf02x (s ++ stale) = sscanf02x s := by
  have hall : ∀ t : Str, '\x00' ∉ t → t.takeWhile (· ≠ '\x00') = t := by
    intro t ht
    refine List.takeWhile_eq_self_iff.2 fun c hc => ?_
    rw [decide_eq_true_eq]
    rintro rfl
    exact ht hc
  have hnull' : '\x00' ∉ s ++ stale := by
    intro h
    rcases List.mem_append.1 h with h | h
    · exact hnull h
    · exact hnull (hstale.mem h)
  unfold sscanf02x
  rw [hall s hnull, hall _ hnull']
  rcases hword : s.dropWhile isSpace with _ | ⟨a, t⟩
  · -- there is white space only
    have hspace : ∀ c ∈ s, isSpace c = true := List.dropWhile_eq_nil_iff.1 hword
    have hspace' : ∀ c ∈ s ++ stale, isSpace c = true := by
      intro c hc
      rcases List.mem_append.1 hc with hc | hc
      · exact hspace c hc
      · exact hspace c (hstale.mem hc)
    rw [List.dropWhile_eq_nil_iff.2 hspace']
  · have hsplit : s = s.takeWhile isSpace ++ a :: t := by rw [← hword, List.takeWhile_append_dropWhile]
    have hdrop : (s ++ stale).dropWhile isSpace = a :: (t ++ stale) := by
      rw [List.dropWhile_append, hword]
      rfl
    rw [hdrop]
    change readNumber a (t ++ stale).head? = readNumber a t.head?
    cases t with
    | cons b t => rfl
    | nil =>
      -- the number is the last byte, and a white space comes in front of it
      rcases List.eq_nil_or_concat (s.takeWhile isSpace) with hnil | ⟨u, b, hu⟩
      · rw [hnil, List.nil_append] at hsplit
        rw [hsplit] at hs
        exact absurd hs (by simp)
      · have hb : isSpace b = true := by
          refine List.mem_takeWhile_imp (l := s) ?_
          rw [hu]
          simp
        rw [hu, List.concat_eq_append, List.append_assoc] at hsplit
        rw [hsplit] at hstale
        rcases hstale.head with rfl | ⟨v, rfl⟩
        · rfl
        · exact readNumber_space hb

/-! ## The loop on the string -/

theorem memmove_eq (v : Char) (hs : 2 ≤ s.length) :
    memmove ((front ++ c :: s ++ stale).set front.length v) (front.length + 1) (front.length + 3) (s.length - 2) =
      (front ++ [v]) ++ s.drop 2 ++ (s.drop (s.length - 2) ++ stale) := by
  have hset : (front ++ c :: s ++ stale).set front.length v = (front ++ [v]) ++ (s ++ stale) := by
    simp [List.set_append_right]
  have hlength : (front ++ [v]).length = front.length + 1 := List.length_append
  rw [hset]
  unfold memmove
  have htake : ((front ++ [v]) ++ (s ++ stale)).take (front.length + 1) = front ++ [v] := by
    rw [← hlength, List.take_left]
  have hmiddle : (((front ++ [v]) ++ (s ++ stale)).drop (front.length + 3)).take (s.length - 2) = s.drop 2 := by
    have hdrop : ((front ++ [v]) ++ (s ++ stale)).drop (front.length + 3) = (s ++ stale).drop 2 := by
      rw [show front.length + 3 = (front ++ [v]).length + 2 by omega, List.drop_append, List.drop_eq_nil_of_le (by omega)]
      simp
    rw [hdrop, List.drop_append_of_le_length hs]
    exact List.take_left' (by rw [List.length_drop])
  have hend : ((front ++ [v]) ++ (s ++ stale)).drop (front.length + 1 + (s.length - 2)) =
      s.drop (s.length - 2) ++ stale := by
    rw [← hlength, ← List.drop_drop, List.drop_left, List.drop_append_of_le_length (by omega)]
  rw [htake, hmiddle, hend]

theorem unescapeLoop_eq (rounds : ℕ) (hrounds : rest.length ≤ rounds) (hnull : '\x00' ∉ rest)
    (hstale : 3 ≤ rest.length → Repeats rest stale) :
    unescapeLoop rounds (front ++ rest ++ stale) (front.length + rest.length) front.length =
      some (front ++ scanned rest) := by
  induction rounds generalizing front rest stale with
  | zero =>
    obtain rfl := List.length_eq_zero_iff.1 (Nat.le_zero.1 hrounds)
    rw [unescapeLoop, if_neg (by simp)]
    simp [scanned]
  | succ rounds ih =>
    cases rest with
    | nil =>
      rw [unescapeLoop, if_neg (by simp)]
      simp [scanned]
    | cons c s =>
      rw [List.length_cons] at hrounds hstale
      have hnull' : '\x00' ∉ s := fun h => hnull (List.mem_cons_of_mem c h)
      have hget : (front ++ c :: s ++ stale)[front.length]? = some c := by simp
      have hrest : (front ++ c :: s ++ stale).drop (front.length + 1) = s ++ stale := by simp
      -- `c` stays as it is
      have hgo : unescapeLoop rounds (front ++ c :: s ++ stale) (front.length + (s.length + 1)) (front.length + 1) =
          some (front ++ c :: scanned s) := by
        have hih := @ih s stale (front ++ [c]) (by omega) hnull' fun h =>
          (hstale (by omega)).drop (n := 1) (by rw [List.length_cons]; omega)
        simp only [List.length_append, List.length_singleton, List.append_assoc, List.singleton_append] at hih ⊢
        rw [← hih]
        congr 1
        omega
      rw [unescapeLoop, if_pos (by simp), unescapeAt, hget, hrest, List.length_cons, scanned]
      by_cases h : c = '%' ∧ 2 ≤ s.length
      · obtain ⟨rfl, hs⟩ := h
        have hrepeats : Repeats s stale := (hstale (by omega)).drop (n := 1) (by rw [List.length_cons]; omega)
        rw [if_pos ⟨rfl, by omega⟩, if_pos ⟨rfl, hs⟩, sscanf02x_stale hs hnull' hrepeats]
        cases sscanf02x s with
        | none => exact hgo
        | some v =>
          dsimp only
          have hmiddle : front.length + (s.length + 1) - front.length - 3 = s.length - 2 := by omega
          have hih := @ih (s.drop 2) (s.drop (s.length - 2) ++ stale) (front ++ [toChar v])
            (by rw [List.length_drop]; omega) (fun h => hnull' (List.mem_of_mem_drop h))
            fun h => hrepeats.again.drop (n := 2) (by rw [List.length_drop] at h; omega)
          rw [hmiddle, memmove_eq (toChar v) hs]
          simp only [List.length_append, List.length_singleton, List.length_drop, List.append_assoc,
            List.singleton_append] at hih ⊢
          rw [← hih]
          congr 1
          omega
      · rw [if_neg fun hc => h ⟨Option.some.inj hc.1, by omega⟩, if_neg h]
        exact hgo

theorem mrlUnescape_eq (mrl : CString) : mrlUnescape mrl = some (scanned mrl.1) := by
  have hloop := @unescapeLoop_eq mrl.1 [] [] mrl.1.length le_rfl mrl.2 fun _ => repeats_nil mrl.1
  rwa [List.append_nil, List.nil_append, List.nil_append, List.length_nil, Nat.zero_add] at hloop

end Xine.Mrl
