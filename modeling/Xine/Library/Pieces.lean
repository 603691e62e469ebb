import Mathlib.Algebra.BigOperators.Group.Finset.Piecewise
import Mathlib.Algebra.Order.BigOperators.Group.Finset
import Mathlib.Algebra.Order.Ring.Nat

/-!
# Consecutive pieces

Pieces of some lengths that are laid out one behind another. A place in a piece is in no other one.
-/

namespace Consecutive

open scoped BigOperators

variable {length : ℕ → ℕ} {c d i j : ℕ}

/-- Where a piece starts. -/
def start (length : ℕ → ℕ) (c : ℕ) : ℕ := ∑ j ∈ Finset.range c, length j

theorem start_succ (length : ℕ → ℕ) (c : ℕ) : start length (c + 1) = start length c + length c :=
  Finset.sum_range_succ length c

theorem start_mono (h : c ≤ d) : start length c ≤ start length d :=
  Finset.sum_le_sum_of_subset (Finset.range_subset_range.2 h)

theorem piece_le (hi : i < length c) (h : start length c + i = start length d + j) : d ≤ c := by
  by_contra hlt
  have hle : start length (c + 1) ≤ start length d := start_mono (Nat.lt_of_not_le hlt)
  rw [start_succ] at hle
  omega

theorem eq_of_start_add_eq (hi : i < length c) (hj : j < length d)
    (h : start length c + i = start length d + j) : c = d ∧ i = j := by
  obtain rfl := Nat.le_antisymm (piece_le hj h.symm) (piece_le hi h)
  exact ⟨rfl, Nat.add_left_cancel h⟩

theorem start_add_lt (hi : i < length c) (hc : c < d) : start length c + i < start length d := by
  have hle : start length (c + 1) ≤ start length d := start_mono hc
  rw [start_succ] at hle
  omega

theorem exists_start_add (h : i < start length d) : ∃ c < d, ∃ j < length c, i = start length c + j := by
  induction d with
  | zero => exact absurd h (Nat.not_lt_zero i)
  | succ d ih =>
    rw [start_succ] at h
    by_cases hlt : i < start length d
    · obtain ⟨c, hc, hj⟩ := ih hlt
      exact ⟨c, Nat.lt_succ_of_lt hc, hj⟩
    · exact ⟨d, Nat.lt_succ_self d, i - start length d, by omega, by omega⟩

end Consecutive

/-!
## Delivery in pieces

Chunks of given lengths are delivered piece by piece, each piece with bytes of one chunk. A place is the number of
a chunk and that of a byte of it; the place behind a chunk is also that in front of the next one, and the next
byte is found behind the chunks that are used up, if there is one.
-/

namespace Pieces

open Consecutive

variable {β : Type*}

/-- From a place the next byte is at another one. -/
inductive Leads (lens : List ℕ) : ℕ → ℕ → ℕ → ℕ → Prop
  | here {k b len : ℕ} (h : lens[k]? = some len) (hlt : b < len) : Leads lens k b k b
  | onward {k b i j : ℕ} (h : lens[k]? = some b) (hrest : Leads lens (k + 1) 0 i j) : Leads lens k b i j

/-- There is no byte behind a place. -/
inductive Done (lens : List ℕ) : ℕ → ℕ → Prop
  | past {k b : ℕ} (h : lens[k]? = none) : Done lens k b
  | onward {k b : ℕ} (h : lens[k]? = some b) (hrest : Done lens (k + 1) 0) : Done lens k b

/-- What is delivered up to a place. A piece is `right` for the chunk, the first byte and the number of bytes
that it holds. -/
inductive Delivered (lens : List ℕ) (right : ℕ → ℕ → ℕ → β → Prop) : List β → ℕ → ℕ → Prop
  | start : Delivered lens right [] 0 0
  | next {bufs : List β} {k b : ℕ} (h : lens[k]? = some b) (hbufs : Delivered lens right bufs k b) :
    Delivered lens right bufs (k + 1) 0
  | piece {bufs : List β} {buf : β} {k b len size : ℕ} (h : lens[k]? = some len) (hsize : 0 < size)
    (hle : b + size ≤ len) (hright : right k b size buf) (hbufs : Delivered lens right bufs k b) :
    Delivered lens right (bufs ++ [buf]) k (b + size)

/-- All chunks are delivered. -/
def Complete (lens : List ℕ) (right : ℕ → ℕ → ℕ → β → Prop) (bufs : List β) : Prop :=
  Delivered lens right bufs lens.length 0

/-- A place in the chunks. -/
def Place (lens : List ℕ) (k b : ℕ) : Prop := k = lens.length ∧ b = 0 ∨ ∃ len, lens[k]? = some len ∧ b ≤ len

variable {lens : List ℕ} {right : ℕ → ℕ → ℕ → β → Prop} {bufs rest : List β} {buf : β}
  {k b i j len size : ℕ}

theorem lt_of_getElem? (h : lens[k]? = some len) : k < lens.length := (List.getElem?_eq_some_iff.1 h).1

/-! ## The next byte -/

theorem Place.next (h : lens[k]? = some b) : Place lens (k + 1) 0 := by
  obtain hlt | heq := (Nat.succ_le_of_lt (lt_of_getElem? h)).lt_or_eq
  · exact .inr ⟨_, List.getElem?_eq_getElem hlt, Nat.zero_le _⟩
  · exact .inl ⟨heq, rfl⟩

theorem Place.leads_or_done (h : Place lens k b) : (∃ i j, Leads lens k b i j) ∨ Done lens k b := by
  -- by induction on the chunks that are left
  induction hn : lens.length - k generalizing k b with
  | zero =>
    obtain ⟨hk, -⟩ | ⟨len, hlen, -⟩ := h
    · exact .inr (.past (List.getElem?_eq_none hk.ge))
    · have hlt := lt_of_getElem? hlen
      omega
  | succ n ih =>
    obtain ⟨hk, -⟩ | ⟨len, hlen, hle⟩ := h
    · omega
    · obtain hlt | rfl := hle.lt_or_eq
      · exact .inl ⟨k, b, .here hlen hlt⟩
      · obtain ⟨i, j, hleads⟩ | hdone := ih (Place.next hlen) (by omega)
        · exact .inl ⟨i, j, .onward hlen hleads⟩
        · exact .inr (.onward hlen hdone)

theorem Leads.head (h : Leads lens k b i j) : ∃ len, lens[k]? = some len ∧ b ≤ len := by
  cases h with
  | here h hlt => exact ⟨_, h, hlt.le⟩
  | onward h hrest => exact ⟨_, h, le_rfl⟩

theorem Leads.byte (h : Leads lens k b i j) : ∃ len, lens[i]? = some len ∧ j < len := by
  induction h with
  | here h hlt => exact ⟨_, h, hlt⟩
  | onward h hrest ih => exact ih

theorem Leads.not_done (h : Leads lens k b i j) : ¬Done lens k b := by
  induction h with
  | here h hlt =>
    rintro (hnone | ⟨hsome, -⟩)
    · exact Option.some_ne_none _ (h.symm.trans hnone)
    · exact hlt.ne (Option.some.inj (hsome.symm.trans h))
  | onward h hrest ih =>
    rintro (hnone | ⟨hsome, hdone⟩)
    · exact Option.some_ne_none _ (h.symm.trans hnone)
    · exact ih hdone

theorem Leads.unique {i' j' : ℕ} (h : Leads lens k b i j) (h' : Leads lens k b i' j') : i = i' ∧ j = j' := by
  induction h with
  | here h hlt =>
    cases h' with
    | here => exact ⟨rfl, rfl⟩
    | onward hsome hrest => exact absurd (Option.some.inj (hsome.symm.trans h)) hlt.ne
  | onward h hrest ih =>
    cases h' with
    | here hsome hlt => exact absurd (Option.some.inj (h.symm.trans hsome)) hlt.ne
    | onward hsome hrest' => exact ih hrest'

/-! ## What is delivered -/

theorem Delivered.place (h : Delivered lens right bufs k b) : Place lens k b := by
  induction h with
  | start =>
    cases hlens : lens with
    | nil => exact .inl ⟨rfl, rfl⟩
    | cons len lens => exact .inr ⟨len, rfl, Nat.zero_le _⟩
  | next h hbufs ih => exact Place.next h
  | piece h hsize hle hright hbufs ih => exact .inr ⟨_, h, hle⟩

theorem Delivered.leads (h : Delivered lens right bufs k b) (hleads : Leads lens k b i j) :
    Delivered lens right bufs i j := by
  induction hleads with
  | here => exact h
  | onward hsome hrest ih => exact ih (h.next hsome)

theorem Delivered.done (h : Delivered lens right bufs k b) (hdone : Done lens k b) :
    Complete lens right bufs := by
  induction hdone with
  | past hnone =>
    obtain ⟨rfl, rfl⟩ | ⟨len, hlen, -⟩ := h.place
    · exact h
    · exact absurd (hlen.symm.trans hnone) (Option.some_ne_none _)
  | onward hsome hrest ih => exact ih (h.next hsome)

/-! ## Counting -/

/-- The length of a chunk. -/
def length (lens : List ℕ) (k : ℕ) : ℕ := lens.getD k 0

/-- The number of the bytes in front of a place. -/
def before (lens : List ℕ) (k b : ℕ) : ℕ := start (length lens) k + b

/-- The number of all bytes. -/
def total (lens : List ℕ) : ℕ := before lens lens.length 0

theorem length_eq (h : lens[k]? = some len) : length lens k = len := by
  unfold length
  rw [List.getD_eq_getElem?_getD, h, Option.getD_some]

theorem before_next (h : lens[k]? = some b) : before lens (k + 1) 0 = before lens k b := by
  unfold before
  rw [start_succ, length_eq h, Nat.add_zero]

theorem Leads.before (h : Leads lens k b i j) : Pieces.before lens i j = Pieces.before lens k b := by
  induction h with
  | here => rfl
  | onward hsome hrest ih => exact ih.trans (before_next hsome)

theorem Done.before (h : Done lens k b) (hplace : Place lens k b) : Pieces.before lens k b = total lens := by
  induction h with
  | past hnone =>
    obtain ⟨rfl, rfl⟩ | ⟨len, hlen, -⟩ := hplace
    · rfl
    · exact absurd (hlen.symm.trans hnone) (Option.some_ne_none _)
  | onward hsome hrest ih => exact (before_next hsome).symm.trans (ih (Place.next hsome))

theorem before_lt (h : lens[k]? = some len) (hlt : b < len) : before lens k b < total lens :=
  start_add_lt ((length_eq h).symm ▸ hlt) (lt_of_getElem? h)

theorem Place.leads (h : Place lens k b) (hlen : lens[i]? = some len) (hlt : j < len)
    (hbefore : before lens i j = before lens k b) : Leads lens k b i j := by
  obtain ⟨i', j', hleads⟩ | hdone := h.leads_or_done
  · obtain ⟨len', hlen', hlt'⟩ := hleads.byte
    have hsame := hleads.before.trans hbefore.symm
    obtain ⟨rfl, rfl⟩ := eq_of_start_add_eq ((length_eq hlen').symm ▸ hlt') ((length_eq hlen).symm ▸ hlt) hsame
    exact hleads
  · have hend := hbefore.trans (hdone.before h)
    exact absurd hend (before_lt hlen hlt).ne

theorem Place.before_le (h : Place lens k b) : Pieces.before lens k b ≤ total lens := by
  obtain ⟨i, j, hleads⟩ | hdone := h.leads_or_done
  · obtain ⟨len, hlen, hlt⟩ := hleads.byte
    exact hleads.before ▸ (before_lt hlen hlt).le
  · exact (hdone.before h).le

theorem Delivered.length_le (h : Delivered lens right bufs k b) : bufs.length ≤ total lens := by
  have hbefore : bufs.length ≤ Pieces.before lens k b := by
    induction h with
    | start => exact Nat.zero_le _
    | next h hbufs ih => exact ih.trans_eq (before_next h).symm
    | piece h hsize hle hright hbufs ih =>
      rw [List.length_append, List.length_singleton]
      unfold Pieces.before at ih ⊢
      omega
  exact hbefore.trans h.place.before_le

theorem length_eq_sum_filter {n : ℕ} (stream : β → ℕ) (h : ∀ buf ∈ bufs, stream buf < n) :
    bufs.length = ∑ i ∈ Finset.range n, (bufs.filter fun buf => stream buf = i).length := by
  induction bufs with
  | nil => exact (Finset.sum_eq_zero fun i _ => rfl).symm
  | cons buf bufs ih =>
    obtain ⟨hbuf, hbufs⟩ := List.forall_mem_cons.1 h
    have hcons (i : ℕ) : ((buf :: bufs).filter fun buf => stream buf = i).length =
        (bufs.filter fun buf => stream buf = i).length + if stream buf = i then 1 else 0 := by
      rw [List.filter_cons]
      split_ifs <;> simp_all
    simp only [hcons]
    rw [Finset.sum_add_distrib, ← ih hbufs, Finset.sum_ite_eq, if_pos (Finset.mem_range.2 hbuf), List.length_cons]

/-! ## What cannot be made good -/

section Sized

variable {sz : β → ℕ} (hsized : ∀ k b size buf, right k b size buf → sz buf = size)
include hsized

theorem Delivered.sum (h : Delivered lens right bufs k b) : (bufs.map sz).sum = before lens k b := by
  induction h with
  | start => rfl
  | next h hbufs ih => exact ih.trans (before_next h).symm
  | piece h hsize hle hright hbufs ih =>
    rw [List.map_append, List.sum_append, ih, List.map_singleton, List.sum_singleton, hsized _ _ _ _ hright]
    exact Nat.add_assoc _ _ _

theorem Delivered.not_complete (h : Delivered lens right bufs k b) (hleads : Leads lens k b i j) :
    ¬Complete lens right bufs := by
  intro hcomplete
  obtain ⟨len, hlen, hlt⟩ := hleads.byte
  have hsum := h.sum hsized
  rw [hcomplete.sum hsized, ← hleads.before] at hsum
  exact (before_lt hlen hlt).ne hsum.symm

omit hsized in
theorem Delivered.split (h : Delivered lens right (bufs ++ buf :: rest) k b) :
    ∃ i j size len, Delivered lens right bufs i j ∧ lens[i]? = some len ∧ 0 < size ∧ j + size ≤ len ∧
      right i j size buf := by
  generalize hall : bufs ++ buf :: rest = all at h
  induction h generalizing rest with
  | start => exact absurd hall (List.append_ne_nil_of_right_ne_nil _ (List.cons_ne_nil _ _))
  | next h hbufs ih => exact ih hall
  | @piece front last k b len size h hsize hle hright hbufs ih =>
    obtain rfl | ⟨rest', last', rfl⟩ := List.eq_nil_or_concat rest
    · obtain ⟨rfl, heq⟩ := List.append_inj' hall rfl
      obtain rfl := List.singleton_inj.1 heq
      exact ⟨k, b, size, len, hbufs, h, hsize, hle, hright⟩
    · rw [List.concat_eq_append, ← List.cons_append, ← List.append_assoc] at hall
      exact ih (List.append_inj' hall rfl).1

theorem Delivered.right_of_append (h : Delivered lens right bufs k b) (hleads : Leads lens k b i j)
    (hcomplete : Complete lens right (bufs ++ buf :: rest)) : ∃ size, right i j size buf := by
  obtain ⟨i', j', size, len, hbufs, hlen, hsize, hle, hright⟩ := hcomplete.split
  have hbefore := (hbufs.sum hsized).symm.trans (h.sum hsized)
  have hleads' := h.place.leads hlen (by omega) hbefore
  obtain ⟨rfl, rfl⟩ := hleads.unique hleads'
  exact ⟨size, hright⟩

end Sized

end Pieces
