import Mathlib.Data.List.Pairwise
import Mathlib.Order.Lattice
import Mathlib.Tactic.Common

/-!
# The best of the values in some slots

Numbered slots, each of which may hold a value, and the value with the greatest key in the lowest of its slots.
`Best.of_scan` is the rule for a loop over the slots that keeps the best value so far.
-/

namespace Slots

variable {α : Type*} {key : α → ℤ} {slots : ℕ → Option α} {n i j k : ℕ} {a b : α}

/-- Slot `i` of the first `n` is the lowest of those whose values have the greatest key. -/
structure Best (key : α → ℤ) (slots : ℕ → Option α) (n i : ℕ) (a : α) : Prop where
  lt : i < n
  held : slots i = some a
  le : ∀ j < n, ∀ b, slots j = some b → key b ≤ key a
  lowest : ∀ j < i, ∀ b, slots j = some b → key b < key a

theorem Best.unique (h : Best key slots n i a) (h' : Best key slots n j b) : i = j ∧ a = b := by
  have hij : i = j := by
    rcases Nat.lt_trichotomy i j with hlt | heq | hlt
    · have hless := h'.lowest i hlt a h.held
      have hle := h.le j h'.lt b h'.held
      omega
    · exact heq
    · have hless := h.lowest j hlt b h'.held
      have hle := h'.le i h.lt a h.held
      omega
  subst hij
  exact ⟨rfl, Option.some.inj (h.held.symm.trans h'.held)⟩

theorem Best.succ (h : Best key slots n i a) (hle : ∀ b, slots n = some b → key b ≤ key a) :
    Best key slots (n + 1) i a := by
  refine ⟨Nat.lt_succ_of_lt h.lt, h.held, fun j hj b hb => ?_, h.lowest⟩
  rcases Nat.lt_succ_iff_lt_or_eq.1 hj with hlt | rfl
  · exact h.le j hlt b hb
  · exact hle b hb

theorem Best.last (hn : slots n = some a)
    (hlt : ∀ j < n, ∀ b, slots j = some b → key b < key a) : Best key slots (n + 1) n a := by
  refine ⟨Nat.lt_succ_self n, hn, fun j hj b hb => ?_, hlt⟩
  rcases Nat.lt_succ_iff_lt_or_eq.1 hj with hj | rfl
  · exact Int.le_of_lt (hlt j hj b hb)
  · obtain rfl := Option.some.inj (hn.symm.trans hb)
    exact Int.le_refl _

/-- A free slot is filled: its value is the best one if its key is greater, or the same in a lower
slot, and otherwise the best one stays. -/
theorem Best.update_some (h : Best key slots n i a) (hk : k < n) (hfree : slots k = none) (b : α) :
    if key a < key b ∨ (key a = key b ∧ k < i) then
      Best key (Function.update slots k (some b)) n k b
    else Best key (Function.update slots k (some b)) n i a := by
  have hne : i ≠ k := fun heq => Option.some_ne_none a (by rw [← h.held, heq, hfree])
  have hother : ∀ j ≠ k, Function.update slots k (some b) j = slots j :=
    fun j hj => Function.update_of_ne hj _ _
  have hself : ∀ c, Function.update slots k (some b) k = some c → b = c :=
    fun c hc => Option.some.inj ((Function.update_self k (some b) slots).symm.trans hc)
  split_ifs with hbetter
  · refine ⟨hk, Function.update_self _ _ _, fun j hj c hc => ?_, fun j hj c hc => ?_⟩
    · by_cases hjk : j = k
      · subst hjk
        obtain rfl := hself c hc
        exact Int.le_refl _
      · rw [hother j hjk] at hc
        have hle := h.le j hj c hc
        omega
    · rw [hother j (Nat.ne_of_lt hj)] at hc
      rcases hbetter with hless | ⟨heq, hki⟩
      · have hle := h.le j (Nat.lt_trans hj hk) c hc
        omega
      · -- below the old slot, the keys are less
        have hless := h.lowest j (Nat.lt_trans hj hki) c hc
        omega
  · refine ⟨h.lt, (hother i hne).trans h.held, fun j hj c hc => ?_, fun j hj c hc => ?_⟩
    · by_cases hjk : j = k
      · subst hjk
        obtain rfl := hself c hc
        omega
      · rw [hother j hjk] at hc
        exact h.le j hj c hc
    · by_cases hjk : j = k
      · subst hjk
        obtain rfl := hself c hc
        omega
      · rw [hother j hjk] at hc
        exact h.lowest j hj c hc

end Slots

/-!
## A sorted array in slots

An array of slots, of which the first `n` hold items in the strict order of their keys. A new item is put in
its place by a loop that looks for the place and one that moves the items from there on one slot up. The
slots from `n` on hold whatever they held before.
-/

namespace SortedSlots

variable {α β : Type*} [LinearOrder β] (key : α → β)

/-- The first one of `k` slots from `i` on whose item is not below `x`, or the slot behind them. -/
def findPlace (slots : List α) (x : α) : ℕ → ℕ → ℕ
  | 0, i => i
  | k + 1, i => if (slots[i]?).any fun y => key y < key x then findPlace slots x k (i + 1) else i

/-- Moves the items of the slots from `i` on one slot up, starting with the one below slot `j`. -/
def shiftUp (i : ℕ) : ℕ → List α → Option (List α)
  | 0, slots => some slots
  | j + 1, slots =>
    if i < j + 1 then
      slots[j]?.bind fun y => if j + 1 < slots.length then shiftUp i j (slots.set (j + 1) y) else none
    else some slots

/-- Puts an item into slot `i` of the `n` slots. -/
def insertAt (slots : List α) (n i : ℕ) (x : α) : Option (List α) :=
  (shiftUp i n slots).bind fun slots => if i < slots.length then some (slots.set i x) else none

/-- The items of the first `n` slots are strictly sorted. -/
def Sorted (slots : List α) (n : ℕ) : Prop := (slots.take n).Pairwise fun x y => key x < key y

variable {key} {slots slots' : List α} {x : α} {n i j : ℕ}

theorem shiftUp_spec (hi : i ≤ j) (hj : j < slots.length) :
    ∃ slots', shiftUp i j slots = some slots' ∧ slots'.length = slots.length ∧
      ∀ k, slots'[k]? = if i < k ∧ k ≤ j then slots[k - 1]? else slots[k]? := by
  induction j generalizing slots with
  | zero =>
    refine ⟨slots, rfl, rfl, fun k => ?_⟩
    rw [if_neg (by omega)]
  | succ j ih =>
    by_cases hlt : i < j + 1
    · obtain ⟨slots', hshift, hlength, hslots⟩ :=
        @ih (slots.set (j + 1) slots[j]) (by omega) (by rw [List.length_set]; omega)
      rw [List.length_set] at hlength
      refine ⟨slots', ?_, hlength, fun k => ?_⟩
      · rw [shiftUp, if_pos hlt, List.getElem?_eq_getElem (by omega), Option.bind_some, if_pos hj]
        exact hshift
      · rw [hslots]
        by_cases hk : k = j + 1
        · -- the slot that has been written first
          subst hk
          rw [if_neg (by omega), if_pos (by omega), List.getElem?_set_self hj, Nat.add_sub_cancel,
            List.getElem?_eq_getElem (by omega)]
        · have hne : (slots.set (j + 1) slots[j])[k]? = slots[k]? := List.getElem?_set_ne (by omega)
          by_cases hin : i < k ∧ k ≤ j
          · rw [if_pos hin, if_pos (by omega), List.getElem?_set_ne (by omega)]
          · rw [if_neg hin, if_neg (by omega), hne]
    · refine ⟨slots, by rw [shiftUp, if_neg hlt], rfl, fun k => ?_⟩
      rw [if_neg (by omega)]

theorem insertAt_spec (hi : i ≤ n) (hn : n < slots.length) (x : α) :
    ∃ slots', insertAt slots n i x = some slots' ∧ slots'.length = slots.length ∧
      slots'.take (n + 1) = slots.take i ++ x :: (slots.take n).drop i := by
  obtain ⟨shifted, hshift, hlength, hslots⟩ := shiftUp_spec hi hn
  have hlt : i < shifted.length := by omega
  refine ⟨shifted.set i x, ?_, by rw [List.length_set, hlength], ?_⟩
  · rw [insertAt, hshift, Option.bind_some, if_pos hlt]
  · have hbelow : (slots.take i).length = i := by rw [List.length_take]; omega
    apply List.ext_getElem?
    intro k
    by_cases hk : k < n + 1
    · rw [List.getElem?_take_of_lt hk]
      rcases Nat.lt_trichotomy k i with hki | rfl | hki
      · rw [List.getElem?_set_ne (by omega), hslots, if_neg (by omega),
          List.getElem?_append_left (by omega), List.getElem?_take_of_lt hki]
      · rw [List.getElem?_set_self hlt, List.getElem?_append_right (by omega), hbelow, Nat.sub_self]
        rfl
      · obtain ⟨m, rfl⟩ : ∃ m, k = i + m + 1 := ⟨k - i - 1, by omega⟩
        have hm : i + m + 1 - i = m + 1 := by omega
        rw [List.getElem?_set_ne (by omega), hslots, if_pos (by omega),
          List.getElem?_append_right (by omega), hbelow, hm, List.getElem?_cons_succ,
          List.getElem?_drop, List.getElem?_take_of_lt (by omega), Nat.add_sub_cancel]
    · rw [List.getElem?_eq_none, List.getElem?_eq_none]
      · rw [List.length_append, hbelow, List.length_cons, List.length_drop, List.length_take]
        omega
      · rw [List.length_take, List.length_set]
        omega

theorem findPlace_spec (hn : n ≤ slots.length) :
    findPlace key slots x n 0 ≤ n ∧ (∀ y ∈ slots.take (findPlace key slots x n 0), key y < key x) ∧
      ∀ y, findPlace key slots x n 0 < n → slots[findPlace key slots x n 0]? = some y →
        key x ≤ key y := by
  -- from a slot on, when the items below it are below the item
  have hfrom : ∀ k i, i + k = n → (∀ y ∈ slots.take i, key y < key x) →
      findPlace key slots x k i ≤ n ∧ (∀ y ∈ slots.take (findPlace key slots x k i), key y < key x) ∧
        ∀ y, findPlace key slots x k i < n → slots[findPlace key slots x k i]? = some y →
          key x ≤ key y := by
    intro k
    induction k with
    | zero =>
      intro i hi hbelow
      exact ⟨by rw [findPlace]; omega, hbelow, fun y hlt => absurd hlt (by rw [findPlace]; omega)⟩
    | succ k ih =>
      intro i hi hbelow
      have hlt : i < slots.length := by omega
      have hitem : slots[i]? = some slots[i] := List.getElem?_eq_getElem hlt
      rw [findPlace, hitem, Option.any_some]
      by_cases hkey : key slots[i] < key x
      · rw [if_pos (decide_eq_true hkey)]
        refine ih (i + 1) (by omega) fun y hy => ?_
        rw [List.take_add_one, hitem, List.mem_append] at hy
        rcases hy with hy | hy
        · exact hbelow y hy
        · rw [List.mem_singleton.1 hy]
          exact hkey
      · rw [if_neg (by rw [decide_eq_true_iff]; exact hkey)]
        refine ⟨by omega, hbelow, fun y _ hy => ?_⟩
        obtain rfl : slots[i] = y := Option.some.inj (hitem.symm.trans hy)
        exact not_lt.1 hkey
  exact hfrom n 0 (Nat.zero_add n) fun y hy => absurd hy List.not_mem_nil

theorem mem_iff_findPlace (hn : n ≤ slots.length) (hsorted : Sorted key slots n) :
    x ∈ slots.take n ↔
      findPlace key slots x n 0 < n ∧ slots[findPlace key slots x n 0]? = some x := by
  obtain ⟨hle, hbelow, hplace⟩ := @findPlace_spec α β _ key slots x n hn
  constructor
  · intro hmem
    -- the item is not below its place, and not behind it
    obtain ⟨k, hk⟩ := List.mem_iff_getElem?.1 hmem
    have hkn : k < n := by
      by_contra hnot
      rw [List.getElem?_eq_none (by rw [List.length_take]; omega)] at hk
      exact absurd hk.symm (Option.some_ne_none x)
    have hslot : slots[k]? = some x := by rwa [List.getElem?_take_of_lt hkn] at hk
    have hge : findPlace key slots x n 0 ≤ k := by
      by_contra hlt
      have hx : x ∈ slots.take (findPlace key slots x n 0) := by
        apply List.mem_of_getElem? (i := k)
        rw [List.getElem?_take_of_lt (by omega)]
        exact hslot
      exact lt_irrefl _ (hbelow x hx)
    rcases hge.lt_or_eq with hlt | heq
    · exfalso
      have hp : findPlace key slots x n 0 < slots.length := by omega
      have hat : slots[findPlace key slots x n 0]? = some slots[findPlace key slots x n 0] :=
        List.getElem?_eq_getElem hp
      have hless : key slots[findPlace key slots x n 0] < key x := by
        obtain ⟨hk', hx⟩ := List.getElem?_eq_some_iff.1 hk
        have hpk := List.pairwise_iff_getElem.1 hsorted (findPlace key slots x n 0) k
          (by rw [List.length_take]; omega) hk' hlt
        rwa [hx, List.getElem_take] at hpk
      exact absurd (hplace _ (by omega) hat) (not_le.2 hless)
    · exact ⟨by omega, by rw [heq]; exact hslot⟩
  · rintro ⟨hlt, hat⟩
    apply List.mem_of_getElem? (i := findPlace key slots x n 0)
    rw [List.getElem?_take_of_lt hlt]
    exact hat

theorem Sorted.insert (hkey : Function.Injective key) (hn : n ≤ slots.length) (hsorted : Sorted key slots n)
    (hnew : x ∉ slots.take n)
    (hslots : slots'.take (n + 1) = slots.take (findPlace key slots x n 0) ++
      x :: (slots.take n).drop (findPlace key slots x n 0)) : Sorted key slots' (n + 1) := by
  obtain ⟨hle, hbelow, hplace⟩ := @findPlace_spec α β _ key slots x n hn
  have hsplit : slots.take (findPlace key slots x n 0) ++ (slots.take n).drop (findPlace key slots x n 0) =
      slots.take n := by
    conv_rhs => rw [← List.take_append_drop (findPlace key slots x n 0) (slots.take n)]
    rw [List.take_take, Nat.min_eq_left hle]
  have hall := hsorted
  unfold Sorted at hall ⊢
  rw [← hsplit, List.pairwise_append] at hall
  obtain ⟨hfirst, hlast, hacross⟩ := hall
  -- the items from the place on are behind the item
  have habove : ∀ y ∈ (slots.take n).drop (findPlace key slots x n 0), key x < key y := by
    intro y hy
    have hne : key x ≠ key y := fun heq => hnew (hkey heq ▸ List.mem_of_mem_drop hy)
    refine lt_of_le_of_ne ?_ hne
    obtain ⟨k, hk⟩ := List.mem_iff_getElem?.1 hy
    rw [List.getElem?_drop] at hk
    obtain ⟨hlt, hyk⟩ := List.getElem?_eq_some_iff.1 hk
    have hlen : (slots.take n).length = n := by rw [List.length_take]; omega
    have hp : findPlace key slots x n 0 < slots.length := by omega
    have hat : slots[findPlace key slots x n 0]? = some slots[findPlace key slots x n 0] :=
      List.getElem?_eq_getElem hp
    have hxp := hplace _ (by omega) hat
    rcases Nat.eq_zero_or_pos k with rfl | hpos
    · rw [← hyk, List.getElem_take]
      exact hxp
    · have hpk := List.pairwise_iff_getElem.1 hsorted (findPlace key slots x n 0)
        (findPlace key slots x n 0 + k) (by omega) hlt (by omega)
      rw [hyk, List.getElem_take] at hpk
      exact hxp.trans hpk.le
  rw [hslots, List.pairwise_append]
  refine ⟨hfirst, List.pairwise_cons.2 ⟨habove, hlast⟩, fun y hy z hz => ?_⟩
  rcases List.mem_cons.1 hz with rfl | hz
  · exact hbelow y hy
  · exact hacross y hy z hz

end SortedSlots
