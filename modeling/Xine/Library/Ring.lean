import Mathlib.Data.List.Range
import Mathlib.Data.Nat.ModEq

/-!
# Ring buffers

A buffer of `cap` cells whose contents begin at `start` and go on at the first cell behind the last one. `copy`
and `store` are the transfers of consecutive cells to and from the buffer, as a program does them that never
crosses the end of the buffer in one transfer.
-/

namespace Ring

variable {α : Type*}

/-- The contents of `len` cells from `start` on. -/
def contents (buf : ℕ → α) (cap start len : ℕ) : List α :=
  (List.range len).map fun i => buf ((start + i) % cap)

/-- `n` consecutive cells. -/
def copy (buf : ℕ → α) (pos n : ℕ) : List α := (List.range n).map fun i => buf (pos + i)

/-- The buffer with some items in consecutive cells. -/
def store (buf : ℕ → α) (pos : ℕ) (xs : List α) : ℕ → α := fun j =>
  if pos ≤ j then (xs[j - pos]?).getD (buf j) else buf j

variable {buf : ℕ → α} {cap start len pos m n : ℕ} {xs : List α}

@[simp] theorem length_contents : (contents buf cap start len).length = len := by
  rw [contents, List.length_map, List.length_range]

theorem contents_append :
    contents buf cap start (m + n) =
      contents buf cap start m ++ contents buf cap ((start + m) % cap) n := by
  unfold contents
  rw [List.range_add, List.map_append, List.map_map]
  congr 1
  apply List.map_congr_left
  intro i _
  rw [Function.comp_apply, Nat.mod_add_mod, Nat.add_assoc]

theorem contents_eq_copy (h : start + n ≤ cap) : contents buf cap start n = copy buf start n := by
  unfold contents copy
  apply List.map_congr_left
  intro i hi
  have hlt := List.mem_range.1 hi
  rw [Nat.mod_eq_of_lt (by omega)]

theorem free_behind (hlen : len + n ≤ cap) {i : ℕ} (hi : i < len) :
    ¬((start + len) % cap ≤ (start + i) % cap ∧ (start + i) % cap < (start + len) % cap + n) := by
  rintro ⟨hle, hlt⟩
  obtain ⟨k, hk⟩ := Nat.exists_eq_add_of_le hle
  -- two places of less than a turn are the same
  have hmod : start + i ≡ start + (len + k) [MOD cap] := by
    unfold Nat.ModEq
    calc (start + i) % cap = ((start + len) % cap + k) % cap := by
          rw [← hk, Nat.mod_mod]
      _ = (start + (len + k)) % cap := by rw [Nat.mod_add_mod, Nat.add_assoc]
  have hsame : i = len + k := by
    have hcancel : i % cap = (len + k) % cap := Nat.ModEq.add_left_cancel' start hmod
    rwa [Nat.mod_eq_of_lt (by omega), Nat.mod_eq_of_lt (by omega)] at hcancel
  omega

theorem store_of_not {j : ℕ} (h : ¬(pos ≤ j ∧ j < pos + xs.length)) : store buf pos xs j = buf j := by
  unfold store
  split_ifs with hle
  · have hnone : xs[j - pos]? = none := List.getElem?_eq_none_iff.2 (by omega)
    rw [hnone, Option.getD_none]
  · rfl

theorem copy_store : copy (store buf pos xs) pos xs.length = xs := by
  unfold copy store
  apply List.ext_getElem
  · rw [List.length_map, List.length_range]
  · intro i hi hi'
    rw [List.getElem_map, List.getElem_range, if_pos (Nat.le_add_right _ _), Nat.add_sub_cancel_left,
      List.getElem?_eq_getElem hi', Option.getD_some]

theorem contents_store (buf : ℕ → α) (hlen : len + xs.length ≤ cap) (hpos : (start + len) % cap + xs.length ≤ cap) :
    contents (store buf ((start + len) % cap) xs) cap start (len + xs.length) =
      contents buf cap start len ++ xs := by
  rw [contents_append, contents_eq_copy hpos, copy_store]
  congr 1
  unfold contents
  apply List.map_congr_left
  intro i hi
  exact store_of_not (free_behind hlen (List.mem_range.1 hi))

theorem take_contents (hn : n ≤ len) (h : start + n ≤ cap) :
    (contents buf cap start len).take n = copy buf start n := by
  have hsplit : len = n + (len - n) := by omega
  rw [hsplit, contents_append, List.take_append_of_le_length (by rw [length_contents]),
    List.take_of_length_le (by rw [length_contents]), contents_eq_copy h]

theorem drop_contents (hn : n ≤ len) :
    (contents buf cap start len).drop n = contents buf cap ((start + n) % cap) (len - n) := by
  have hsplit : len = n + (len - n) := by omega
  nth_rewrite 1 [hsplit]
  rw [contents_append, List.drop_append_of_le_length (by rw [length_contents]),
    List.drop_eq_nil_of_le (by rw [length_contents]), List.nil_append]

end Ring
