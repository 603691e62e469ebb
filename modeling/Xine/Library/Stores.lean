import Mathlib.Data.Int.Order.Basic
import Mathlib.Data.List.Basic

/-!
# Stores

A memory is a function from addresses to their contents, and an address is an integer, which may lie before the
place that the addresses count from. `load` and `store` read and write some contents from an address on, and
`Holds` says what is there. `storeAll` makes several stores one after the other.

`Sets` says that a change of the memory sets exactly the contents between two addresses: they do not depend on the
memory before, and the others stay.
-/

namespace Stores

variable {α : Type*} {mem mem' : ℤ → α} {addr addr' lo hi i : ℤ} {bs cs : List α}
  {ws : List (ℤ × List α)}

/-- The contents from an address on. -/
def load (mem : ℤ → α) (addr : ℤ) : ℕ → List α
  | 0 => []
  | n + 1 => mem addr :: load mem (addr + 1) n

/-- The memory with some contents from an address on. -/
def store (mem : ℤ → α) (addr : ℤ) : List α → ℤ → α
  | [] => mem
  | b :: bs => store (Function.update mem addr b) (addr + 1) bs

/-- From an address on, the memory has some contents. -/
def Holds (mem : ℤ → α) (addr : ℤ) (bs : List α) : Prop := load mem addr bs.length = bs

@[simp] theorem length_load {n : ℕ} : (load mem addr n).length = n := by
  induction n generalizing addr with
  | zero => rfl
  | succ n ih => rw [load, List.length_cons, ih]

theorem load_add {m n : ℕ} : load mem addr (m + n) = load mem addr m ++ load mem (addr + m) n := by
  induction m generalizing addr with
  | zero => rw [Nat.zero_add, load, List.nil_append, Int.natCast_zero, Int.add_zero]
  | succ m ih =>
    have hnext : addr + 1 + m = addr + (m + 1 : ℕ) := by omega
    rw [Nat.add_right_comm, load, ih, load, hnext, List.cons_append]

theorem holds_append :
    Holds mem addr (bs ++ cs) ↔ Holds mem addr bs ∧ Holds mem (addr + bs.length) cs := by
  unfold Holds
  rw [List.length_append, load_add]
  constructor
  · exact fun h => List.append_inj h length_load
  · rintro ⟨hbs, hcs⟩
    rw [hbs, hcs]

theorem holds_singleton {b : α} : Holds mem addr [b] ↔ mem addr = b := by
  unfold Holds
  rw [List.length_singleton, load, load, List.cons.injEq]
  exact and_iff_left rfl

/-! ## One store -/

theorem store_outside (h : i < addr ∨ addr + bs.length ≤ i) : store mem addr bs i = mem i := by
  induction bs generalizing mem addr with
  | nil => rfl
  | cons b bs ih =>
    rw [List.length_cons] at h
    have hne : i ≠ addr := by omega
    rw [store, ih (by omega), Function.update_of_ne hne]

theorem store_inside (h : addr ≤ i) (h' : i < addr + bs.length) :
    store mem addr bs i = store mem' addr bs i := by
  induction bs generalizing mem mem' addr with
  | nil =>
    rw [List.length_nil] at h'
    omega
  | cons b bs ih =>
    rw [List.length_cons] at h'
    rw [store, store]
    by_cases hi : i = addr
    · rw [store_outside (by omega), store_outside (by omega), hi, Function.update_self,
        Function.update_self]
    · exact ih (by omega) (by omega)

theorem store_append :
    store mem addr (bs ++ cs) = store (store mem addr bs) (addr + bs.length) cs := by
  induction bs generalizing mem addr with
  | nil => rw [List.nil_append, store, List.length_nil, Int.natCast_zero, Int.add_zero]
  | cons b bs ih =>
    have hnext : addr + 1 + bs.length = addr + (b :: bs).length := by
      rw [List.length_cons]
      omega
    rw [List.cons_append, store, ih, hnext]
    rfl

theorem store_next (h : addr' = addr + bs.length) :
    store (store mem addr bs) addr' cs = store mem addr (bs ++ cs) := by
  rw [h, store_append]

theorem holds_store : Holds (store mem addr bs) addr bs := by
  unfold Holds
  induction bs generalizing mem addr with
  | nil => rfl
  | cons b bs ih =>
    have hhere : store mem addr (b :: bs) addr = b := by
      rw [store, store_outside (by omega), Function.update_self]
    rw [List.length_cons, load, hhere, store, ih]

/-! ## Several stores -/

/-- The memory behind some stores. -/
def storeAll (mem : ℤ → α) : List (ℤ × List α) → ℤ → α
  | [] => mem
  | w :: ws => storeAll (store mem w.1 w.2) ws

/-- An address is one of those that are stored to. -/
def Covers (ws : List (ℤ × List α)) (i : ℤ) : Prop := ∃ w ∈ ws, w.1 ≤ i ∧ i < w.1 + w.2.length

theorem covers_cons {w : ℤ × List α} :
    Covers (w :: ws) i ↔ (w.1 ≤ i ∧ i < w.1 + w.2.length) ∨ Covers ws i := by
  unfold Covers
  rw [List.exists_mem_cons_iff]

theorem storeAll_append {ws' : List (ℤ × List α)} :
    storeAll mem (ws ++ ws') = storeAll (storeAll mem ws) ws' := by
  induction ws generalizing mem with
  | nil => rfl
  | cons w ws ih => exact ih

theorem storeAll_outside (h : ¬Covers ws i) : storeAll mem ws i = mem i := by
  induction ws generalizing mem with
  | nil => rfl
  | cons w ws ih =>
    rw [covers_cons, not_or] at h
    rw [storeAll, ih h.2, store_outside (by omega)]

theorem storeAll_inside (h : Covers ws i) : storeAll mem ws i = storeAll mem' ws i := by
  induction ws generalizing mem mem' with
  | nil =>
    obtain ⟨w, hw, -⟩ := h
    exact absurd hw List.not_mem_nil
  | cons w ws ih =>
    rw [storeAll, storeAll]
    by_cases hlater : Covers ws i
    · exact ih hlater
    · obtain ⟨hlow, hhigh⟩ := (covers_cons.1 h).resolve_right hlater
      rw [storeAll_outside hlater, storeAll_outside hlater, store_inside hlow hhigh]

/-! ## Exactly the contents between two addresses -/

/-- A change sets the contents from `lo` up to `hi`, and no others. -/
def Sets (change : (ℤ → α) → ℤ → α) (lo hi : ℤ) : Prop :=
  ∀ i, (lo ≤ i ∧ i < hi → ∀ mem mem', change mem i = change mem' i) ∧
    (¬(lo ≤ i ∧ i < hi) → ∀ mem, change mem i = mem i)

theorem sets_store : Sets (fun mem => store mem addr bs) addr (addr + bs.length) :=
  fun _ => ⟨fun h _ _ => store_inside h.1 h.2, fun h _ => store_outside (by omega)⟩

theorem Sets.not_kept [Nontrivial α] {change : (ℤ → α) → ℤ → α} (h : Sets change lo hi)
    (hkept : ∀ mem, change mem i = mem i) : ¬(lo ≤ i ∧ i < hi) := by
  intro hinside
  obtain ⟨a, b, hne⟩ := exists_pair_ne α
  have hsame : change (fun _ => a) i = change (fun _ => b) i := (h i).1 hinside _ _
  rw [hkept, hkept] at hsame
  exact hne hsame

theorem Sets.inside [Nontrivial α] {change : (ℤ → α) → ℤ → α} (h : Sets change lo hi)
    (hsame : ∀ mem mem', change mem i = change mem' i) : lo ≤ i ∧ i < hi := by
  by_contra houtside
  obtain ⟨a, b, hne⟩ := exists_pair_ne α
  have hkept := (h i).2 houtside
  refine hne ?_
  calc a = change (fun _ => a) i := (hkept fun _ => a).symm
    _ = change (fun _ => b) i := hsame _ _
    _ = b := hkept fun _ => b

theorem sets_storeAll_iff [Nontrivial α] :
    Sets (fun mem => storeAll mem ws) lo hi ↔ ∀ i, Covers ws i ↔ lo ≤ i ∧ i < hi := by
  constructor
  · refine fun h i => ⟨fun hcovers => h.inside fun _ _ => storeAll_inside hcovers, fun hinside => ?_⟩
    by_contra hcovers
    exact h.not_kept (fun _ => storeAll_outside hcovers) hinside
  · intro h i
    refine ⟨fun hinside _ _ => storeAll_inside ((h i).2 hinside), fun houtside _ => ?_⟩
    exact storeAll_outside fun hcovers => houtside ((h i).1 hcovers)

end Stores
