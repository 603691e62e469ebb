import Mathlib.Data.List.Basic
import Mathlib.Data.List.OfFn

/-!
# Interleaved blocks

A stream of data into which blocks are put at a fixed interval: after every `period` items of data comes a header,
which says by `size` how many items of its block follow. `strip` takes the blocks out, and `phase` is where a
reader stands that has passed some items of the stream: how many items of data are left before the next header,
and how many items of a block are still to be skipped.
-/

namespace Interleave

variable {α : Type*} (size : α → ℕ) (period : ℕ)

/-- The data of a stream, with `left` items to come before the next header and `skip` items of a block
before these. -/
def strip : ℕ → ℕ → List α → List α
  | _, _, [] => []
  | left, skip + 1, _ :: xs => strip left skip xs
  | 0, 0, x :: xs => strip period (size x) xs
  | left + 1, 0, x :: xs => x :: strip left 0 xs

/-- Where a reader stands behind some items. -/
def phase : ℕ → ℕ → List α → ℕ × ℕ
  | left, skip, [] => (left, skip)
  | left, skip + 1, _ :: xs => phase left skip xs
  | 0, 0, x :: xs => phase period (size x) xs
  | left + 1, 0, _ :: xs => phase left 0 xs

variable {size period}

theorem phase_append (left skip : ℕ) (xs ys : List α) :
    phase size period left skip (xs ++ ys) =
      phase size period (phase size period left skip xs).1 (phase size period left skip xs).2 ys := by
  fun_induction phase size period left skip xs with
  | case1 left skip => rfl
  | case2 left skip x xs ih => exact ih
  | case3 x xs ih => exact ih
  | case4 left x xs ih => exact ih

theorem strip_append (left skip : ℕ) (xs ys : List α) :
    strip size period left skip (xs ++ ys) =
      strip size period left skip xs ++
        strip size period (phase size period left skip xs).1 (phase size period left skip xs).2 ys := by
  fun_induction phase size period left skip xs with
  | case1 left skip => simp [strip]
  | case2 left skip x xs ih => exact ih
  | case3 x xs ih => exact ih
  | case4 left x xs ih =>
    simp only [List.cons_append, strip]
    rw [ih]

theorem strip_data {left : ℕ} {xs : List α} (h : xs.length ≤ left) : strip size period left 0 xs = xs := by
  induction xs generalizing left with
  | nil => cases left <;> rfl
  | cons x xs ih =>
    rw [List.length_cons] at h
    obtain ⟨left, rfl⟩ : ∃ l, left = l + 1 := ⟨left - 1, by omega⟩
    rw [strip, ih (by omega)]

theorem phase_data {left : ℕ} {xs : List α} (h : xs.length ≤ left) :
    phase size period left 0 xs = (left - xs.length, 0) := by
  induction xs generalizing left with
  | nil => cases left <;> rfl
  | cons x xs ih =>
    rw [List.length_cons] at h ⊢
    obtain ⟨left, rfl⟩ : ∃ l, left = l + 1 := ⟨left - 1, by omega⟩
    rw [phase, ih (by omega)]
    congr 1
    omega

theorem strip_skip {skip : ℕ} (left : ℕ) {xs : List α} (h : xs.length = skip) :
    strip size period left skip xs = [] := by
  subst h
  induction xs with
  | nil => simp [strip]
  | cons x xs ih => rw [List.length_cons, strip, ih]

theorem phase_skip {skip : ℕ} (left : ℕ) {xs : List α} (h : xs.length = skip) :
    phase size period left skip xs = (left, 0) := by
  subst h
  induction xs with
  | nil => simp [phase]
  | cons x xs ih => rw [List.length_cons, phase, ih]

theorem strip_block {x : α} {xs : List α} (h : xs.length = size x) :
    strip size period 0 0 (x :: xs) = [] := by
  rw [strip, strip_skip period h]

theorem phase_block {x : α} {xs : List α} (h : xs.length = size x) :
    phase size period 0 0 (x :: xs) = (period, 0) := by
  rw [phase, phase_skip period h]

/-! ## Intervals -/

variable (size period)

variable {size period}

end Interleave

/-!
## Channels of interleaved data

Data in frames of `n` items, one behind the other. `channel c` takes item `c` of each frame.
-/

namespace Channels

variable {α : Type*} {n : ℕ} {c : Fin n} {l l' : List α} {i m : ℕ}

theorem index_lt {c : Fin n} (i : Fin (l.length / n)) : n * i + c < l.length :=
  calc n * i + c < n * i + n := Nat.add_lt_add_left c.isLt _
    _ = n * (i + 1) := rfl
    _ ≤ n * (l.length / n) := Nat.mul_le_mul_left n i.isLt
    _ ≤ l.length := Nat.mul_div_le _ _

/-- The items of one channel. -/
def channel (c : Fin n) (l : List α) : List α :=
  List.ofFn fun i : Fin (l.length / n) => l.get ⟨n * i + c, index_lt i⟩

theorem length_channel : (channel c l).length = l.length / n := List.length_ofFn

theorem getElem?_channel (h : l.length = n * m) (hi : i < m) : (channel c l)[i]? = l[n * i + c]? := by
  have hdiv : l.length / n = m := by rw [h, Nat.mul_div_cancel_left m (Fin.pos c)]
  have hi' : i < l.length / n := hdiv.symm ▸ hi
  unfold channel
  rw [List.getElem?_ofFn, dif_pos hi', List.getElem?_eq_getElem (index_lt ⟨i, hi'⟩)]
  rfl

theorem channel_append {m' : ℕ} (h : l.length = n * m) (h' : l'.length = n * m') :
    channel c (l ++ l') = channel c l ++ channel c l' := by
  have hlength : (l ++ l').length = n * (m + m') := by rw [List.length_append, h, h', Nat.mul_add]
  have hm : (channel c l).length = m := by
    rw [length_channel, h, Nat.mul_div_cancel_left m (Fin.pos c)]
  apply List.ext_getElem?
  intro i
  by_cases hi : i < m
  · -- a frame of the first part
    have hlt : n * i + c < l.length := by
      rw [h]
      calc n * i + c < n * i + n := Nat.add_lt_add_left c.isLt _
        _ ≤ n * m := Nat.mul_le_mul_left n hi
    rw [getElem?_channel hlength (by omega), List.getElem?_append_left hlt,
      List.getElem?_append_left (by omega), getElem?_channel h hi]
  · rw [List.getElem?_append_right (by omega), hm]
    by_cases hi' : i < m + m'
    · have hplace : n * i + c = n * m + (n * (i - m) + c) := by
        have hsplit : n * i = n * m + n * (i - m) := by rw [← Nat.mul_add]; congr 1; omega
        omega
      rw [getElem?_channel hlength hi', getElem?_channel h' (by omega), hplace,
        List.getElem?_append_right (by omega), h, Nat.add_sub_cancel_left]
    · -- behind the last frame
      have hdiv : (l ++ l').length / n = m + m' := by
        rw [hlength, Nat.mul_div_cancel_left _ (Fin.pos c)]
      have hdiv' : l'.length / n = m' := by rw [h', Nat.mul_div_cancel_left _ (Fin.pos c)]
      rw [List.getElem?_eq_none (by rw [length_channel, hdiv]; omega),
        List.getElem?_eq_none (by rw [length_channel, hdiv']; omega)]

end Channels
