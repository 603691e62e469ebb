import Mathlib.Data.List.Count
import Mathlib.Data.List.Range

/-!
# Counting places

An object that is always in exactly one of several places is an equation: the counts of the lists that may contain
it, and one for each condition that says it is somewhere else, add up to one. `one p` is the contribution of a
condition.
-/

namespace Places

variable {ι : Type*} [DecidableEq ι] {α : Type*}

/-- One if the condition holds, and else none. -/
def one (p : Prop) [Decidable p] : ℕ := if p then 1 else 0

theorem one_pos (p : Prop) [Decidable p] (h : p) : one p = 1 := if_pos h

theorem one_neg (p : Prop) [Decidable p] (h : ¬p) : one p = 0 := if_neg h

theorem one_le (p : Prop) [Decidable p] : one p ≤ 1 := by
  unfold one
  split_ifs <;> omega

theorem one_congr {p q : Prop} [Decidable p] [Decidable q] (h : p ↔ q) : one p = one q := by
  unfold one
  exact if_congr h rfl rfl

theorem one_eq_one {p : Prop} [Decidable p] : one p = 1 ↔ p := by
  unfold one
  split_ifs with h <;> simp [h]

theorem one_eq_zero {p : Prop} [Decidable p] : one p = 0 ↔ ¬p := by
  unfold one
  split_ifs with h <;> simp [h]

@[simp] theorem one_some (a x : ι) : one (some a = some x) = one (x = a) := by
  simp [one, eq_comm]

omit [DecidableEq ι] in
@[simp] theorem one_none (x : ι) : one ((none : Option ι) = some x) = 0 := by
  simp [one]

theorem one_lt_succ (e n : ℕ) : one (e < n + 1) = one (e < n) + one (e = n) := by
  unfold one
  split_ifs <;> omega

theorem count_cons_one (l : List ι) (a x : ι) : (a :: l).count x = l.count x + one (x = a) := by
  by_cases hx : x = a
  · subst hx
    simp [one]
  · rw [List.count_cons_of_ne (Ne.symm hx)]
    simp [one, hx]

theorem count_append_one (l : List ι) (a x : ι) :
    (l ++ [a]).count x = l.count x + one (x = a) := by
  rw [List.count_append, count_cons_one]
  simp

theorem one_update (holder : ι → Option α) (e x : ι) (o : Option α) :
    one (Function.update holder e o x ≠ none) =
      if x = e then one (o ≠ none) else one (holder x ≠ none) := by
  by_cases hx : x = e
  · subst hx
    simp
  · rw [Function.update_of_ne hx, if_neg hx]

theorem one_update_true (mark : ι → Bool) (e x : ι) (h : mark e = false) :
    one (Function.update mark e true x = true) = one (mark x = true) + one (x = e) := by
  by_cases hx : x = e
  · subst hx
    simp [one, h]
  · simp [one, hx]

theorem one_update_false (mark : ι → Bool) (e x : ι) (h : mark e = true) :
    one (Function.update mark e false x = true) + one (x = e) = one (mark x = true) := by
  by_cases hx : x = e
  · subst hx
    simp [one, h]
  · simp [one, hx]

/-- One more for `e`. -/
def incr (count : ι → ℕ) (e : ι) : ι → ℕ := Function.update count e (count e + 1)

/-- One less for `e`. -/
def decr (count : ι → ℕ) (e : ι) : ι → ℕ := Function.update count e (count e - 1)

theorem incr_apply (count : ι → ℕ) (e x : ι) : incr count e x = count x + one (x = e) := by
  unfold incr one
  by_cases hx : x = e
  · subst hx
    simp
  · simp [hx]

theorem decr_apply (count : ι → ℕ) (e x : ι) (h : 0 < count e) :
    decr count e x + one (x = e) = count x := by
  unfold decr one
  by_cases hx : x = e
  · subst hx
    simp
    omega
  · simp [hx]

end Places

/-!
## Counting holders

How many of some numbered slots hold a value. A slot that changes takes the value that it held out of
the account and puts the new one in, so that `omega` can tell what is lost.
-/

namespace Holders

variable {α β : Type*} [DecidableEq α] {f g : ℕ → Option α} {a : α} {i n : ℕ}

/-- How many of the first slots hold a value. -/
def held (f : ℕ → Option α) (a : α) : ℕ → ℕ
  | 0 => 0
  | n + 1 => held f a n + (f n).toList.count a

theorem held_congr (h : ∀ i < n, f i = g i) : held f a n = held g a n := by
  induction n with
  | zero => rfl
  | succ n ih =>
    rw [held, held, ih fun i hi => h i (Nat.lt_succ_of_lt hi), h n (Nat.lt_succ_self n)]

theorem held_update_of_le (v : Option α) (hi : n ≤ i) :
    held (Function.update f i v) a n = held f a n :=
  held_congr fun j hj => Function.update_of_ne (show j ≠ i by omega) _ _

theorem held_update (v : Option α) (hi : i < n) :
    held (Function.update f i v) a n + (f i).toList.count a = held f a n + v.toList.count a := by
  induction n with
  | zero => exact absurd hi (Nat.not_lt_zero i)
  | succ n ih =>
    rw [held, held]
    rcases Nat.lt_succ_iff_lt_or_eq.1 hi with hi | rfl
    · rw [Function.update_of_ne (by omega)]
      have hrest := ih hi
      omega
    · rw [held_update_of_le v (Nat.le_refl i), Function.update_self]
      omega

theorem held_none : held (fun _ => (none : Option α)) a n = 0 := by
  induction n with
  | zero => rfl
  | succ n ih =>
    rw [held, ih]
    rfl

omit [DecidableEq α] in
theorem map_update (h : Option β → Option α) (f : ℕ → Option β) (i : ℕ) (v : Option β) :
    (fun j => h (Function.update f i v j)) = Function.update (fun j => h (f j)) i (h v) := by
  funext j
  by_cases hj : j = i
  · rw [hj, Function.update_self, Function.update_self]
  · rw [Function.update_of_ne hj, Function.update_of_ne hj]

end Holders
