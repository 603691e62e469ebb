import Mathlib.Data.Int.Notation
import Mathlib.Data.List.Basic

/-!
# Memory

A memory is a function from addresses to their contents. `slice mem at' n` is the list of the `n`
contents from the address `at'` on, and `memcpy` copies as many from the start of another memory.
What has been copied is read there, and what lies in front of it is as before.
-/

namespace Memory

variable {α : Type*} {mem dst src : ℕ → α} {start m n at' : ℕ}

/-- The contents from an address on. -/
def slice (mem : ℕ → α) (start n : ℕ) : List α := (List.range n).map fun i => mem (start + i)

/-- The memory after a copy to the address `at'`. -/
def memcpy (dst : ℕ → α) (at' : ℕ) (src : ℕ → α) (n : ℕ) : ℕ → α :=
  fun i => if at' ≤ i ∧ i < at' + n then src (i - at') else dst i

@[simp] theorem length_slice : (slice mem start n).length = n := by
  unfold slice
  rw [List.length_map, List.length_range]

theorem slice_add : slice mem start (m + n) = slice mem start m ++ slice mem (start + m) n := by
  unfold slice
  rw [List.range_add, List.map_append, List.map_map]
  congr 1
  exact List.map_congr_left fun i _ => by rw [Function.comp_apply, Nat.add_assoc]

theorem slice_congr {mem' : ℕ → α} {start' : ℕ} (h : ∀ i < n, mem (start + i) = mem' (start' + i)) :
    slice mem start n = slice mem' start' n :=
  List.map_congr_left fun i hi => h i (List.mem_range.1 hi)

theorem slice_memcpy : slice (memcpy dst at' src n) at' n = slice src 0 n := by
  refine slice_congr fun i hi => ?_
  unfold memcpy
  rw [if_pos ⟨by omega, by omega⟩]
  congr 1
  omega

theorem slice_memcpy_before (h : start + m ≤ at') :
    slice (memcpy dst at' src n) start m = slice dst start m := by
  refine slice_congr fun i hi => ?_
  unfold memcpy
  rw [if_neg (by omega)]

theorem slice_memcpy_append :
    slice (memcpy dst at' src n) 0 (at' + n) = slice dst 0 at' ++ slice src 0 n := by
  rw [slice_add, slice_memcpy_before (by omega), Nat.zero_add, slice_memcpy]

end Memory

/-!
## Spans of memory

The accesses of a function as a list of spans, each of some bytes from a place in an area on, and whether they all
lie in their areas.
-/

namespace Spans

/-- Some bytes of an area, from a place on that may be outside of it. -/
structure Span (α : Type*) where
  area : α
  start : ℤ
  length : ℕ

variable {α β : Type*} {size : α → ℕ} {s : Span α} {l l' : List (Span α)}

/-- The span lies in its area. -/
def Span.Inside (size : α → ℕ) (s : Span α) : Prop := 0 ≤ s.start ∧ s.start + s.length ≤ size s.area

instance : Decidable (s.Inside size) := by
  unfold Span.Inside
  infer_instance

/-- All spans lie in their areas. -/
def AllInside (size : α → ℕ) (l : List (Span α)) : Prop := ∀ s ∈ l, s.Inside size

instance : Decidable (AllInside size l) := by
  unfold AllInside
  infer_instance

@[simp] theorem allInside_nil : AllInside size [] := fun _ hs => absurd hs List.not_mem_nil

@[simp] theorem allInside_cons : AllInside size (s :: l) ↔ s.Inside size ∧ AllInside size l :=
  List.forall_mem_cons

@[simp] theorem allInside_append : AllInside size (l ++ l') ↔ AllInside size l ∧ AllInside size l' :=
  List.forall_mem_append

theorem allInside_flatMap {xs : List β} {f : β → List (Span α)} :
    AllInside size (xs.flatMap f) ↔ ∀ x ∈ xs, AllInside size (f x) := by
  unfold AllInside
  simp only [List.mem_flatMap, forall_exists_index, and_imp]
  constructor
  · exact fun h x hx s hs => h s x hx hs
  · exact fun h s x hx hs => h x hx s hs

theorem allInside_if_nil {c : Prop} [Decidable c] :
    AllInside size (if c then [] else l) ↔ ¬c → AllInside size l := by
  by_cases h : c
  · rw [if_pos h]
    exact iff_of_true allInside_nil fun hc => absurd h hc
  · rw [if_neg h]
    exact ⟨fun hl _ => hl, fun hl => hl h⟩

theorem allInside_if_else_nil {c : Prop} [Decidable c] :
    AllInside size (if c then l else []) ↔ c → AllInside size l := by
  rw [← ite_not, allInside_if_nil, not_not]

theorem inside_iff {a : α} {start length : ℕ} :
    Span.Inside size ⟨a, start, length⟩ ↔ start + length ≤ size a := by
  unfold Span.Inside
  dsimp only
  omega

end Spans
