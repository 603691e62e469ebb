import Mathlib.Data.List.Nodup

/-!
# Singly linked chains

Cells `ι` are linked by a map `nx : ι → Option ι`, the `next` pointers of all the cells of a heap. `Segment nx p
xs q` says that the pointer `p` leads through exactly the cells `xs`, in order, to the pointer `q`; `Linked nx p
xs` is the case of a null-terminated chain.

A queue of cells is kept by pointers to its ends. `Queue nx first last xs` says that `first` leads through `xs`
and that `last` is its last cell. The rules below are the pointer assignments with which programs append, push,
and pop, and link and unlink a cell in the middle.
-/

namespace Chain

variable {ι : Type*} {nx nx' : ι → Option ι} {p q r : Option ι} {a b e : ι} {xs ys zs : List ι}

/-- From the pointer `p`, the links lead through exactly the cells `xs` to the pointer `q`. -/
def Segment (nx : ι → Option ι) : Option ι → List ι → Option ι → Prop
  | p, [], q => p = q
  | p, a :: xs, q => p = some a ∧ Segment nx (nx a) xs q

/-- From the pointer `p`, the links lead through exactly the cells `xs` and end there. -/
def Linked (nx : ι → Option ι) (p : Option ι) (xs : List ι) : Prop := Segment nx p xs none

@[simp] theorem segment_nil : Segment nx p [] q ↔ p = q := Iff.rfl

@[simp] theorem segment_cons : Segment nx p (a :: xs) q ↔ p = some a ∧ Segment nx (nx a) xs q :=
  Iff.rfl

@[simp] theorem linked_nil : Linked nx p [] ↔ p = none := Iff.rfl

@[simp] theorem linked_cons : Linked nx p (a :: xs) ↔ p = some a ∧ Linked nx (nx a) xs := Iff.rfl

theorem segment_append : Segment nx p (xs ++ ys) q ↔ ∃ r, Segment nx p xs r ∧ Segment nx r ys q := by
  induction xs generalizing p with
  | nil => simp
  | cons a xs ih =>
    simp only [List.cons_append, segment_cons, ih]
    constructor
    · rintro ⟨hp, r, hx, hy⟩
      exact ⟨r, ⟨hp, hx⟩, hy⟩
    · rintro ⟨r, ⟨hp, hx⟩, hy⟩
      exact ⟨hp, r, hx, hy⟩

theorem linked_append : Linked nx p (xs ++ ys) ↔ ∃ r, Segment nx p xs r ∧ Linked nx r ys :=
  segment_append

theorem Segment.congr (h : Segment nx p xs q) (hnx : ∀ a ∈ xs, nx' a = nx a) :
    Segment nx' p xs q := by
  induction xs generalizing p with
  | nil => exact h
  | cons a xs ih =>
    obtain ⟨hp, hx⟩ := h
    refine ⟨hp, ?_⟩
    rw [hnx a (by simp)]
    exact ih hx fun b hb => hnx b (List.mem_cons_of_mem _ hb)

theorem Linked.congr (h : Linked nx p xs) (hnx : ∀ a ∈ xs, nx' a = nx a) : Linked nx' p xs :=
  Segment.congr h hnx

theorem Linked.unique (hx : Linked nx p xs) (hy : Linked nx p ys) : xs = ys := by
  induction xs generalizing p ys with
  | nil =>
    cases ys with
    | nil => rfl
    | cons b ys =>
      rw [linked_nil] at hx
      simp [hx] at hy
  | cons a xs ih =>
    cases ys with
    | nil =>
      rw [linked_nil] at hy
      simp [hy] at hx
    | cons b ys =>
      obtain ⟨hp, hx⟩ := linked_cons.1 hx
      obtain ⟨hp', hy⟩ := linked_cons.1 hy
      obtain rfl : a = b := by simpa [hp] using hp'
      rw [ih hx hy]

theorem Linked.nodup (h : Linked nx p xs) : xs.Nodup := by
  induction xs generalizing p with
  | nil => exact List.nodup_nil
  | cons a xs ih =>
    obtain ⟨-, hx⟩ := linked_cons.1 h
    refine List.nodup_cons.2 ⟨fun ha => ?_, ih hx⟩
    obtain ⟨ys, zs, rfl⟩ := List.append_of_mem ha
    obtain ⟨r, -, hr⟩ := linked_append.1 hx
    obtain ⟨-, hz⟩ := linked_cons.1 hr
    -- From `a`'s link both `zs` and `ys ++ a :: zs` are visited.
    have hlen := congrArg List.length (Linked.unique hz hx)
    simp at hlen
    omega

theorem Linked.head?_eq (h : Linked nx p xs) : p = xs.head? := by
  cases xs with
  | nil => simpa using h
  | cons a xs => simpa using h.1

theorem Linked.eq_nil (h : Linked nx none xs) : xs = [] := by
  cases xs with
  | nil => rfl
  | cons a xs => simp at h

theorem Linked.exists_cons (h : Linked nx (some a) xs) : ∃ ys, xs = a :: ys ∧ Linked nx (nx a) ys := by
  cases xs with
  | nil => simp at h
  | cons b ys =>
    obtain ⟨hb, hy⟩ := linked_cons.1 h
    obtain rfl : a = b := by simpa using hb
    exact ⟨ys, rfl, hy⟩

variable [DecidableEq ι]

theorem Segment.redirect_last (h : Segment nx p (xs ++ [a]) q) (ha : a ∉ xs) :
    Segment (Function.update nx a r) p (xs ++ [a]) r := by
  obtain ⟨s, hx, hs⟩ := segment_append.1 h
  refine segment_append.2 ⟨s, ?_, hs.1, by simp⟩
  exact hx.congr fun b hb => Function.update_of_ne (ne_of_mem_of_not_mem hb ha) _ _

theorem Linked.unlink (h : Linked nx p (xs ++ a :: b :: ys)) :
    Linked (Function.update nx a (nx b)) p (xs ++ a :: ys) := by
  have hnd : (xs ++ a :: b :: ys).Nodup := h.nodup
  rw [show xs ++ a :: b :: ys = (xs ++ [a]) ++ b :: ys by simp] at h
  obtain ⟨r, hx, hr⟩ := linked_append.1 h
  obtain ⟨-, hy⟩ := linked_cons.1 hr
  have hmem : a ∉ xs ++ b :: ys := (List.nodup_cons.1 (List.nodup_middle.1 hnd)).1
  have ha : a ∉ xs := fun hx => hmem (List.mem_append_left _ hx)
  have ha' : a ∉ ys := fun hy => hmem (List.mem_append_right _ (List.mem_cons_of_mem _ hy))
  rw [show xs ++ a :: ys = (xs ++ [a]) ++ ys by simp]
  refine linked_append.2 ⟨nx b, hx.redirect_last ha, hy.congr fun c hc => ?_⟩
  exact Function.update_of_ne (ne_of_mem_of_not_mem hc ha') _ _

theorem Linked.unlink_null (h : Linked nx p (xs ++ a :: b :: ys)) :
    Linked (Function.update (Function.update nx a (nx b)) b none) p (xs ++ a :: ys) := by
  refine h.unlink.congr fun c hc => Function.update_of_ne ?_ _ _
  rintro rfl
  have hnd : ((xs ++ [a]) ++ c :: ys).Nodup := by simpa using h.nodup
  have hmem := (List.nodup_cons.1 (List.nodup_middle.1 hnd)).1
  exact hmem (by simpa using hc)

theorem Linked.link (h : Linked nx p (xs ++ a :: ys)) (he : e ∉ xs ++ a :: ys) :
    Linked (Function.update (Function.update nx a (some e)) e (nx a)) p (xs ++ a :: e :: ys) := by
  have ha : a ∉ xs := fun hx => (List.nodup_cons.1 (List.nodup_middle.1 h.nodup)).1
    (List.mem_append_left _ hx)
  have hys : a ∉ ys := fun hy => (List.nodup_cons.1 (List.nodup_middle.1 h.nodup)).1
    (List.mem_append_right _ hy)
  obtain ⟨r, hx, hr⟩ := linked_append.1 h
  obtain ⟨hp, hy⟩ := linked_cons.1 hr
  have hea : a ≠ e := fun hae => he (hae ▸ by simp)
  refine linked_append.2 ⟨r, hx.congr fun b hb => ?_, linked_cons.2 ⟨hp, ?_⟩⟩
  · have hbe : b ≠ e := fun hbe => he (hbe ▸ List.mem_append_left _ hb)
    rw [Function.update_of_ne hbe, Function.update_of_ne (ne_of_mem_of_not_mem hb ha)]
  · rw [Function.update_of_ne hea, Function.update_self, linked_cons, Function.update_self]
    refine ⟨rfl, hy.congr fun b hb => ?_⟩
    have hbe : b ≠ e := fun hbe => he (hbe ▸ by simp [hb])
    rw [Function.update_of_ne hbe, Function.update_of_ne (ne_of_mem_of_not_mem hb hys)]

/-! ## Queues -/

/-- The queue of the cells `xs`, kept by a pointer to its first and one to its last cell. -/
structure Queue (nx : ι → Option ι) (first last : Option ι) (xs : List ι) : Prop where
  /-- The first pointer leads through the cells. -/
  linked : Linked nx first xs
  /-- The last pointer is the last cell. -/
  last_eq : last = xs.getLast?

variable {first last : Option ι}

omit [DecidableEq ι] in
theorem queue_nil : Queue nx none none [] := ⟨rfl, rfl⟩

omit [DecidableEq ι] in
theorem Queue.congr (h : Queue nx first last xs) (hnx : ∀ a ∈ xs, nx' a = nx a) :
    Queue nx' first last xs :=
  ⟨h.linked.congr hnx, h.last_eq⟩

theorem Queue.update (h : Queue nx first last xs) (he : e ∉ xs) (v : Option ι) :
    Queue (Function.update nx e v) first last xs :=
  h.congr fun _ ha => Function.update_of_ne (ne_of_mem_of_not_mem ha he) _ _

omit [DecidableEq ι] in
theorem Queue.eq_nil (h : Queue nx none last xs) : xs = [] := h.linked.eq_nil

omit [DecidableEq ι] in
theorem Queue.first_eq_none (h : Queue nx first last xs) : first = none ↔ xs = [] := by
  rw [h.linked.head?_eq, List.head?_eq_none_iff]

omit [DecidableEq ι] in
theorem Queue.last_eq_none (h : Queue nx first last xs) : last = none ↔ xs = [] := by
  rw [h.last_eq, List.getLast?_eq_none_iff]

omit [DecidableEq ι] in
theorem Queue.exists_concat (h : Queue nx first (some a) xs) : ∃ ys, xs = ys ++ [a] := by
  have hl := h.last_eq.symm
  rw [List.getLast?_eq_some_iff] at hl
  exact hl

theorem queue_singleton (nx : ι → Option ι) (e : ι) :
    Queue (Function.update nx e none) (some e) (some e) [e] :=
  ⟨by simp, rfl⟩

theorem Queue.push_back {l : ι} (h : Queue nx first (some l) xs) (he : e ∉ xs) :
    Queue (Function.update (Function.update nx l (some e)) e none) first (some e) (xs ++ [e]) := by
  obtain ⟨ys, rfl⟩ := h.exists_concat
  have hl : l ∉ ys := by
    simpa using (List.nodup_cons.1 (List.nodup_middle.1 h.linked.nodup)).1
  refine ⟨?_, by simp⟩
  have hseg : Segment (Function.update nx l (some e)) first (ys ++ [l]) (some e) :=
    Segment.redirect_last h.linked hl
  refine linked_append.2 ⟨some e, hseg.congr fun c hc => ?_, by simp⟩
  exact Function.update_of_ne (ne_of_mem_of_not_mem hc he) _ _

theorem Queue.push_front (h : Queue nx first last xs) (he : e ∉ xs) :
    Queue (Function.update nx e first) (some e) (if last = none then some e else last)
      (e :: xs) := by
  refine ⟨?_, ?_⟩
  · rw [linked_cons, Function.update_self]
    refine ⟨rfl, h.linked.congr fun a ha => ?_⟩
    exact Function.update_of_ne (ne_of_mem_of_not_mem ha he) _ _
  · by_cases hx : xs = []
    · simp [h.last_eq_none.2 hx, hx]
    · rw [if_neg fun hl => hx (h.last_eq_none.1 hl), h.last_eq]
      obtain ⟨b, ys, rfl⟩ := List.exists_cons_of_ne_nil hx
      simp [List.getLast?_cons_cons]

omit [DecidableEq ι] in
theorem Queue.pop (h : Queue nx first last (e :: xs)) :
    Queue nx (nx e) (if nx e = none then none else last) xs := by
  obtain ⟨-, hx⟩ := linked_cons.1 h.linked
  refine ⟨hx, ?_⟩
  by_cases hn : nx e = none
  · rw [hn] at hx
    simp [hn, hx.eq_nil]
  · rw [if_neg hn, h.last_eq]
    cases xs with
    | nil => exact absurd hx hn
    | cons b ys => simp [List.getLast?_cons_cons]

omit [DecidableEq ι] in
theorem queue_singleton_null (he : nx e = none) : Queue nx (some e) (some e) [e] :=
  ⟨by simp [he], rfl⟩

/-- Appending a cell with a null link to a queue whose last cell is `l`: `l.next = e`,
`last = e`. -/
theorem Queue.push_back_null {l : ι} (h : Queue nx first (some l) xs) (he : e ∉ xs)
    (hnull : nx e = none) : Queue (Function.update nx l (some e)) first (some e) (xs ++ [e]) := by
  have hl : l ∈ xs := by
    obtain ⟨ys, rfl⟩ := h.exists_concat
    simp
  have hel : e ≠ l := fun hel => he (hel ▸ hl)
  have hsame : Function.update (Function.update nx l (some e)) e none =
      Function.update nx l (some e) :=
    Function.update_eq_self_iff.2 (by rw [Function.update_of_ne hel, hnull])
  rw [← hsame]
  exact h.push_back he

theorem Queue.pop_null (h : Queue nx first last (e :: xs)) :
    Queue (Function.update nx e none) (nx e) (if nx e = none then none else last) xs :=
  h.pop.update (List.nodup_cons.1 h.linked.nodup).1 none

omit [DecidableEq ι] in
theorem Queue.first_cons (h : Queue nx first last (e :: xs)) : first = some e := h.linked.1

omit [DecidableEq ι] in
theorem Queue.exists_cons (h : Queue nx (some e) last xs) : ∃ ys, xs = e :: ys := by
  obtain ⟨ys, rfl, -⟩ := h.linked.exists_cons
  exact ⟨ys, rfl⟩

end Chain

/-!
## Searching a chain, and linking a cell where the search ends

A program goes through a chain with two pointers, one behind the other, until a test holds of the cell that it has
come to: `for (cur = first, prev = NULL; cur; prev = cur, cur = cur->next) if (stop) break`. `search` is this
loop, `search_linked` what it finds: the cells before are the longest initial part of the chain where the test
does not hold. The two pointers are where a new cell is linked: `Queue.insert` is the rule for the assignments.
-/

namespace Chain

variable {ι : Type*} {nx : ι → Option ι} {p first last : Option ι} {a e : ι} {xs ys : List ι}

/-- The loop, from the pointers `prev` and `p`: where it ends, unless that takes more than `fuel` turns. -/
def search (nx : ι → Option ι) (stop : ι → Bool) :
    ℕ → Option ι → Option ι → Option (Option ι × Option ι)
  | 0, _, _ => none
  | _ + 1, prev, none => some (prev, none)
  | fuel + 1, prev, some cur =>
    if stop cur then some (prev, some cur) else search nx stop fuel (some cur) (nx cur)

theorem search_linked (stop : ι → Bool) (h : Linked nx p xs) {fuel : ℕ} (hfuel : xs.length < fuel)
    (prev : Option ι) :
    search nx stop fuel prev p =
      some ((xs.takeWhile fun a => !stop a).getLast?.or prev, (xs.dropWhile fun a => !stop a).head?) := by
  induction xs generalizing p prev fuel with
  | nil =>
    obtain rfl := linked_nil.1 h
    cases fuel with
    | zero => exact absurd hfuel (Nat.not_lt_zero _)
    | succ fuel => simp [search]
  | cons a xs ih =>
    obtain ⟨rfl, hx⟩ := linked_cons.1 h
    cases fuel with
    | zero => exact absurd hfuel (Nat.not_lt_zero _)
    | succ fuel =>
      unfold search
      cases hstop : stop a with
      | true => simp [hstop]
      | false =>
        rw [if_neg Bool.false_ne_true, ih hx (by simpa using hfuel)]
        -- `a` is the cell before, unless the loop goes further
        cases hlast : (xs.takeWhile fun a => !stop a).getLast? with
        | none =>
          rw [List.getLast?_eq_none_iff] at hlast
          simp [hstop, hlast]
        | some b =>
          simp [hstop, List.getLast?_cons, hlast]

/-- The links after `e.next = cur`, and `prev.next = e` unless the pointer `prev` is null. -/
def insertNext [DecidableEq ι] (nx : ι → Option ι) (prev cur : Option ι) (e : ι) : ι → Option ι :=
  match prev with
  | some prev => Function.update (Function.update nx e cur) prev (some e)
  | none => Function.update nx e cur

theorem Linked.insert [DecidableEq ι] (h : Linked nx p (xs ++ ys)) (he : e ∉ xs ++ ys) :
    Linked (insertNext nx xs.getLast? ys.head? e) (if xs.getLast? = none then some e else p)
      (xs ++ e :: ys) := by
  obtain ⟨r, hx, hy⟩ := linked_append.1 h
  have hr : r = ys.head? := hy.head?_eq
  have hey : e ∉ ys := fun hmem => he (List.mem_append_right _ hmem)
  rcases List.eq_nil_or_concat xs with rfl | ⟨zs, b, rfl⟩
  · -- there is no cell before
    simp only [insertNext, List.getLast?_nil, if_true, List.nil_append, linked_cons,
      Function.update_self]
    refine ⟨trivial, ?_⟩
    rw [← hr]
    exact hy.congr fun c hc => Function.update_of_ne (ne_of_mem_of_not_mem hc hey) _ _
  · -- `b` is the last cell before
    rw [List.concat_eq_append] at hx h he ⊢
    have hnd := h.nodup
    have hb : b ∉ zs := by
      have hzs : (zs ++ [b]).Nodup := (List.nodup_append.1 hnd).1
      simpa using (List.nodup_cons.1 (List.nodup_middle.1 hzs)).1
    have hby : b ∉ ys := fun hmem => (List.nodup_append.1 hnd).2.2 b (by simp) b hmem rfl
    have heb : e ≠ b := fun heq => he (by simp [heq])
    simp only [insertNext, List.getLast?_concat]
    rw [if_neg (Option.some_ne_none b)]
    refine linked_append.2 ⟨some e, ?_, linked_cons.2 ⟨rfl, ?_⟩⟩
    · refine Segment.redirect_last (hx.congr fun c hc => ?_) hb
      exact Function.update_of_ne (ne_of_mem_of_not_mem hc fun hmem => he (List.mem_append_left _ hmem)) _ _
    · rw [Function.update_of_ne heb, Function.update_self, ← hr]
      refine hy.congr fun c hc => ?_
      rw [Function.update_of_ne (ne_of_mem_of_not_mem hc hby),
        Function.update_of_ne (ne_of_mem_of_not_mem hc hey)]

theorem Queue.insert [DecidableEq ι] (h : Queue nx first last (xs ++ ys)) (he : e ∉ xs ++ ys) :
    Queue (insertNext nx xs.getLast? ys.head? e) (if xs.getLast? = none then some e else first)
      (if ys.head? = none then some e else last) (xs ++ e :: ys) := by
  refine ⟨h.linked.insert he, ?_⟩
  cases ys with
  | nil => simp
  | cons b ys => simpa [List.getLast?_append] using h.last_eq

end Chain

/-!
## Doubly linked chains

Cells that are linked in both directions, by `nx` and `pv`, with a pointer to each end. The chain of `nx` from
`first` and that of `pv` from `last` go through the same cells in opposite order, so that a rule for one direction
of a chain is applied to both.
-/

namespace Chain

variable {ι : Type*} {nx pv : ι → Option ι} {p first last : Option ι} {a b e : ι} {xs ys : List ι}

theorem Linked.next_eq (h : Linked nx p (xs ++ a :: ys)) : nx a = ys.head? := by
  obtain ⟨r, -, hr⟩ := linked_append.1 h
  exact (linked_cons.1 hr).2.head?_eq

/-- The links after the cell between the pointers `prev` and `cur` is unlinked. -/
def removeNext [DecidableEq ι] (nx : ι → Option ι) (prev cur : Option ι) : ι → Option ι :=
  match prev with
  | some prev => Function.update nx prev cur
  | none => nx

theorem Linked.remove [DecidableEq ι] (h : Linked nx p (xs ++ a :: ys)) :
    Linked (removeNext nx xs.getLast? ys.head?) (if xs.getLast? = none then ys.head? else p) (xs ++ ys) := by
  have hnext : nx a = ys.head? := h.next_eq
  rcases List.eq_nil_or_concat xs with rfl | ⟨zs, b, rfl⟩
  · rw [← hnext]
    exact (linked_cons.1 h).2
  · rw [List.concat_eq_append] at h ⊢
    have hassoc : zs ++ [b] ++ a :: ys = zs ++ b :: a :: ys := by simp
    rw [hassoc] at h
    simp only [List.getLast?_concat, removeNext]
    rw [if_neg (Option.some_ne_none b), ← hnext, List.append_assoc]
    exact h.unlink

/-- The cells `xs`, linked in both directions, with pointers to the two ends. -/
structure Doubly (nx pv : ι → Option ι) (first last : Option ι) (xs : List ι) : Prop where
  /-- The first pointer leads through the cells. -/
  forward : Linked nx first xs
  /-- The last pointer leads back through them. -/
  backward : Linked pv last xs.reverse

theorem doubly_nil : Doubly nx pv none none [] := ⟨rfl, rfl⟩

namespace Doubly

theorem nodup (h : Doubly nx pv first last xs) : xs.Nodup := h.forward.nodup

theorem first_eq (h : Doubly nx pv first last xs) : first = xs.head? := h.forward.head?_eq

theorem last_eq (h : Doubly nx pv first last xs) : last = xs.getLast? := by
  rw [h.backward.head?_eq, List.head?_reverse]

theorem next_eq (h : Doubly nx pv first last (xs ++ a :: ys)) : nx a = ys.head? := h.forward.next_eq

theorem prev_eq (h : Doubly nx pv first last (xs ++ a :: ys)) : pv a = xs.getLast? := by
  have hback := h.backward
  rw [List.reverse_append, List.reverse_cons, List.append_assoc, List.singleton_append] at hback
  rw [hback.next_eq, List.head?_reverse]

variable [DecidableEq ι]

theorem insert (h : Doubly nx pv first last (xs ++ ys)) (he : e ∉ xs ++ ys) :
    Doubly (insertNext nx xs.getLast? ys.head? e) (insertNext pv ys.head? xs.getLast? e)
      (if xs.getLast? = none then some e else first) (if ys.head? = none then some e else last)
      (xs ++ e :: ys) := by
  refine ⟨h.forward.insert he, ?_⟩
  have hback := h.backward
  rw [List.reverse_append] at hback
  have he' : e ∉ ys.reverse ++ xs.reverse := by
    rw [← List.reverse_append]
    exact fun hmem => he (List.mem_reverse.1 hmem)
  have hinsert := hback.insert he'
  rw [List.getLast?_reverse, List.head?_reverse] at hinsert
  rw [List.reverse_append, List.reverse_cons, List.append_assoc, List.singleton_append]
  exact hinsert

theorem remove (h : Doubly nx pv first last (xs ++ a :: ys)) :
    Doubly (removeNext nx xs.getLast? ys.head?) (removeNext pv ys.head? xs.getLast?)
      (if xs.getLast? = none then ys.head? else first) (if ys.head? = none then xs.getLast? else last)
      (xs ++ ys) := by
  refine ⟨h.forward.remove, ?_⟩
  have hback := h.backward
  rw [List.reverse_append, List.reverse_cons, List.append_assoc, List.singleton_append] at hback
  have hremove := hback.remove
  rw [List.getLast?_reverse, List.head?_reverse] at hremove
  rw [List.reverse_append]
  exact hremove

end Doubly

end Chain
