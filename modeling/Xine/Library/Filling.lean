import Mathlib.Data.List.Basic

/-!
# Memory that is filled from its start

Memory of cells that have not been written yet, and a loop whose rounds write one block of cells after the other.
A write outside of the memory fails.
-/

namespace Filling

variable {α : Type*}

/-- Writes a cell, which has to lie in the memory. -/
def write (mem : List (Option α)) (i : ℕ) (x : α) : Option (List (Option α)) :=
  if i < mem.length then some (mem.set i (some x)) else none

/-- Memory of which the first cells have been written. -/
def filled (written : List α) (rest : ℕ) : List (Option α) :=
  written.map some ++ List.replicate rest none

/-- A loop of `k` rounds from round `i` on. -/
def loop (body : ℕ → List (Option α) → Option (List (Option α))) :
    ℕ → ℕ → List (Option α) → Option (List (Option α))
  | 0, _, mem => some mem
  | k + 1, i, mem => (body i mem).bind (loop body k (i + 1))

variable {written block : List α} {rest i k b : ℕ} {x : α}

@[simp] theorem length_filled : (filled written rest).length = written.length + rest := by
  simp [filled]

theorem filled_nil : filled ([] : List α) rest = List.replicate rest none := List.nil_append _

theorem filled_zero : filled written 0 = written.map some := List.append_nil _

theorem write_filled (hi : i = written.length) :
    write (filled written (rest + 1)) i x = some (filled (written ++ [x]) rest) := by
  subst hi
  unfold write
  rw [if_pos (by rw [length_filled]; omega)]
  unfold filled
  rw [List.set_append_right _ _ (Nat.le_of_eq (List.length_map some)), List.length_map, Nat.sub_self,
    List.replicate_succ, List.set_cons_zero, List.map_append, List.append_assoc]
  rfl

theorem write_length (mem : List (Option α)) (x : α) (hi : mem.length ≤ i) : write mem i x = none :=
  if_neg (by omega)

theorem length_of_write {mem mem' : List (Option α)} (h : write mem i x = some mem') :
    mem'.length = mem.length := by
  unfold write at h
  split_ifs at h
  cases h
  exact List.length_set

theorem length_of_loop {body : ℕ → List (Option α) → Option (List (Option α))}
    (hbody : ∀ i mem mem', body i mem = some mem' → mem'.length = mem.length) {mem mem' : List (Option α)}
    (h : loop body k i mem = some mem') : mem'.length = mem.length := by
  induction k generalizing i mem with
  | zero =>
    obtain rfl : mem = mem' := Option.some.inj h
    rfl
  | succ k ih =>
    obtain ⟨next, hnext, hrest⟩ := Option.bind_eq_some_iff.1 h
    exact (ih hrest).trans (hbody i mem next hnext)

theorem loop_filled {body : ℕ → List (Option α) → Option (List (Option α))} {blocks : ℕ → List α}
    (hlength : ∀ i, (blocks i).length = b) (hbody : ∀ i w r, i < k → w.length = b * i →
      body i (filled w (b + r)) = some (filled (w ++ blocks i) r)) :
    loop body k 0 (filled [] (b * k + rest)) = some (filled ((List.range k).flatMap blocks) rest) := by
  -- the rounds from `i` on, behind the blocks before it
  have hrounds : ∀ j i w, i + j = k → w.length = b * i →
      loop body j i (filled w (b * j + rest)) =
        some (filled (w ++ (List.range' i j).flatMap blocks) rest) := by
    intro j
    induction j with
    | zero =>
      intro i w _ _
      rw [Nat.mul_zero, Nat.zero_add, List.range'_zero, List.flatMap_nil, List.append_nil]
      rfl
    | succ j ih =>
      intro i w hi hw
      have hsize : b * (j + 1) + rest = b + (b * j + rest) := by rw [Nat.mul_succ]; omega
      have hnext : (w ++ blocks i).length = b * (i + 1) := by
        rw [List.length_append, hw, hlength, Nat.mul_succ]
      rw [hsize, loop, hbody i w _ (by omega) hw, Option.bind_some, ih (i + 1) _ (by omega) hnext,
        List.range'_succ, List.flatMap_cons, List.append_assoc]
  have hall := hrounds k 0 [] (Nat.zero_add k) rfl
  rwa [List.nil_append, ← List.range_eq_range'] at hall

theorem length_blocks {blocks : ℕ → List α} (hlength : ∀ i, (blocks i).length = b) :
    ((List.range k).flatMap blocks).length = b * k := by
  induction k with
  | zero => rfl
  | succ k ih =>
    rw [List.range_succ, List.flatMap_append, List.length_append, ih, List.flatMap_singleton, hlength,
      Nat.mul_succ]

end Filling
