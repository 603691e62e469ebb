import Mathlib.Data.List.Perm.Subperm
import Mathlib.Data.List.Range
import Xine.Library.Chain
import Xine.Library.Runs
import Xine.Lists.Cursor

/-!
# The links represent the sequence

The nodes of a list are linked in both directions and hold the sequence, and `cur` is the node under the cursor,
null only when there is none.
-/

namespace Xine.Lists

open Chain

variable {α : Type*} {l : XineList α} {s : Cursor α} {cells bs as : List ℕ} {nodes b a : List (α × ℤ)}
  {content : α} {priority : ℤ} {c : ℕ}

/-! ## Representation -/

/-- These nodes are linked in both directions, and hold these contents. -/
structure Chained (l : XineList α) (cells : List ℕ) (nodes : List (α × ℤ)) : Prop where
  links : Doubly l.next l.prev l.first l.last cells
  allocated : ∀ c ∈ cells, c < l.allocated
  stored : cells.map (fun c => (l.content c, l.priority c)) = nodes.map fun n => (some n.1, n.2)

/-- The list stands for the sequence with its cursor. -/
def Represents (l : XineList α) : Cursor α → Prop
  | .empty => Chained l [] [] ∧ l.cur = none
  | .on before node behind =>
    ∃ bs c as, Chained l (bs ++ c :: as) (before ++ node :: behind) ∧ bs.length = before.length ∧
      l.cur = some c

theorem represents_new : Represents (XineList.new : XineList α) .empty :=
  ⟨⟨doubly_nil, nofun, rfl⟩, rfl⟩

theorem Represents.exists_cells (h : Represents l s) : ∃ cells, Chained l cells s.nodes := by
  cases s with
  | empty => exact ⟨[], h.1⟩
  | on before node behind =>
    obtain ⟨bs, c, as, hchained, -⟩ := h
    exact ⟨_, hchained⟩

theorem Chained.length_eq (h : Chained l cells nodes) : cells.length = nodes.length := by
  simpa using congrArg List.length h.stored

theorem Chained.stored_append (h : Chained l (bs ++ as) (b ++ a)) (hlen : bs.length = b.length) :
    bs.map (fun c => (l.content c, l.priority c)) = b.map (fun n => (some n.1, n.2)) ∧
      as.map (fun c => (l.content c, l.priority c)) = a.map (fun n => (some n.1, n.2)) := by
  have hstored := h.stored
  rw [List.map_append, List.map_append] at hstored
  exact List.append_inj hstored (by rw [List.length_map, List.length_map, hlen])

theorem Chained.length_behind {n : α × ℤ} (h : Chained l (bs ++ c :: as) (b ++ n :: a))
    (hlen : bs.length = b.length) : as.length = a.length := by
  have hall := h.length_eq
  rw [List.length_append, List.length_append, hlen, List.length_cons, List.length_cons] at hall
  omega

theorem Chained.content_eq {n : α × ℤ} (h : Chained l (bs ++ c :: as) (b ++ n :: a))
    (hlen : bs.length = b.length) : l.content c = some n.1 :=
  congrArg Prod.fst (List.cons.inj (h.stored_append hlen).2).1

theorem Chained.move (h : Chained l cells nodes) (cur : Option ℕ) : Chained { l with cur := cur } cells nodes :=
  ⟨h.links, h.allocated, h.stored⟩

theorem Chained.exists_split {n : α × ℤ} (h : Chained l cells (b ++ n :: a)) :
    ∃ bs c as, cells = bs ++ c :: as ∧ bs.length = b.length := by
  have hlen := h.length_eq
  rw [List.length_append, List.length_cons] at hlen
  have hlt : b.length < cells.length := by omega
  refine ⟨cells.take b.length, cells[b.length], cells.drop (b.length + 1), ?_, ?_⟩
  · rw [← List.drop_eq_getElem_cons hlt, List.take_append_drop]
  · rw [List.length_take]
    omega

theorem Chained.represents {n : α × ℤ} (h : Chained l (bs ++ c :: as) (b ++ n :: a))
    (hlen : bs.length = b.length) : Represents { l with cur := some c } (.on b n a) :=
  ⟨bs, c, as, h.move _, hlen, rfl⟩

/-! ## Linking a node -/

/-- A node linked between two pointers, and the cursor on it. -/
def XineList.linkBetween (l : XineList α) (before behind : Option ℕ) (node : ℕ) : XineList α :=
  { l with
    next := insertNext l.next before behind node
    prev := insertNext l.prev behind before node
    first := if before = none then some node else l.first
    last := if behind = none then some node else l.last
    cur := some node }

theorem stored_alloc_self (l : XineList α) (content : α) (priority : ℤ) :
    ((l.alloc content priority).content l.allocated, (l.alloc content priority).priority l.allocated) =
      (some content, priority) :=
  Prod.ext (Function.update_self _ _ _) (Function.update_self _ _ _)

theorem stored_alloc_of_ne (l : XineList α) (content : α) (priority : ℤ) (hc : c ≠ l.allocated) :
    ((l.alloc content priority).content c, (l.alloc content priority).priority c) =
      (l.content c, l.priority c) :=
  Prod.ext (Function.update_of_ne hc _ _) (Function.update_of_ne hc _ _)

theorem Chained.link (h : Chained l (bs ++ as) (b ++ a)) (hlen : bs.length = b.length) (content : α)
    (priority : ℤ) :
    Represents ((l.alloc content priority).linkBetween bs.getLast? as.head? l.allocated)
      (.on b (content, priority) a) := by
  have hnew : l.allocated ∉ bs ++ as := fun hmem => Nat.lt_irrefl _ (h.allocated _ hmem)
  refine ⟨bs, l.allocated, as, ⟨h.links.insert hnew, fun c hc => ?_, ?_⟩, hlen, rfl⟩
  · rcases List.mem_append.1 hc with hc | hc
    · exact Nat.lt_succ_of_lt (h.allocated c (List.mem_append_left _ hc))
    · rcases List.mem_cons.1 hc with rfl | hc
      · exact Nat.lt_succ_self _
      · exact Nat.lt_succ_of_lt (h.allocated c (List.mem_append_right _ hc))
  · -- the other nodes hold what they held
    have hold : ∀ xs : List ℕ, (∀ c ∈ xs, c ∈ bs ++ as) →
        xs.map (fun c => (((l.alloc content priority).content c), (l.alloc content priority).priority c)) =
          xs.map fun c => (l.content c, l.priority c) := by
      intro xs hxs
      refine List.map_congr_left fun c hc => ?_
      exact stored_alloc_of_ne l content priority (ne_of_mem_of_not_mem (hxs c hc) hnew)
    obtain ⟨hbs, has⟩ := h.stored_append hlen
    change (bs ++ l.allocated :: as).map
      (fun c => ((l.alloc content priority).content c, (l.alloc content priority).priority c)) = _
    rw [List.map_append, List.map_append, List.map_cons, List.map_cons,
      hold bs fun c hc => List.mem_append_left _ hc, hold as fun c hc => List.mem_append_right _ hc, hbs, has]
    exact congrArg (_ ++ · :: _) (stored_alloc_self l content priority)

theorem appendOnly_eq (l : XineList α) (node : ℕ) : l.appendOnly node = l.linkBetween none none node := rfl

theorem putBehind_eq (l : XineList α) (last node : ℕ) :
    l.putBehind last node = l.linkBetween (some last) none node := rfl

theorem putBefore_eq {p : Option ℕ} (h : l.prev c = p) (node : ℕ) :
    l.putBefore c node = l.linkBetween p (some c) node := by
  unfold XineList.putBefore XineList.setPrev
  dsimp only [XineList.setNext]
  rw [h, Function.update_self]
  cases p <;> rfl

theorem appendContent_eq (l : XineList α) (content : α) :
    l.appendContent content = (l.alloc content 0).linkBetween l.last none l.allocated := by
  have hlast : (l.alloc content 0).last = l.last := rfl
  unfold XineList.appendContent
  dsimp only
  rw [hlast]
  cases l.last with
  | none => exact appendOnly_eq _ _
  | some last => exact putBehind_eq _ _ _

theorem append_represents (h : Represents l s) (content : α) :
    Represents (l.appendContent content) (s.append content) := by
  obtain ⟨cells, hchained⟩ := h.exists_cells
  rw [appendContent_eq, hchained.links.last_eq]
  have hsplit : Chained l (cells ++ []) (s.nodes ++ []) := by
    rw [List.append_nil, List.append_nil]
    exact hchained
  exact hsplit.link hchained.length_eq content 0

/-! ## Inserting by priority -/

theorem priorityLoop_linked {p : Option ℕ} (h : Linked l.next p (c :: cells)) {fuel : ℕ}
    (hfuel : cells.length < fuel) :
    l.priorityLoop priority fuel c =
      match (c :: cells).dropWhile fun d => decide (priority < l.priority d) with
      | d :: _ => some (d, true)
      | [] => ((c :: cells).getLast?).map fun d => (d, false) := by
  induction cells generalizing c p fuel with
  | nil =>
    obtain ⟨fuel, rfl⟩ := Nat.exists_eq_succ_of_ne_zero (Nat.ne_of_gt hfuel)
    have hnext : l.next c = none := (linked_cons.1 h).2
    unfold XineList.priorityLoop
    by_cases hle : l.priority c ≤ priority
    · have hd : decide (priority < l.priority c) = false := decide_eq_false (Int.not_lt.2 hle)
      rw [if_pos hle, List.dropWhile_cons_of_neg (by rw [hd]; exact Bool.false_ne_true)]
    · have hd : decide (priority < l.priority c) = true := decide_eq_true (Int.not_le.1 hle)
      rw [if_neg hle, hnext, List.dropWhile_cons_of_pos (p := fun d => decide (priority < l.priority d)) hd]
      rfl
  | cons d cells ih =>
    obtain ⟨fuel, rfl⟩ := Nat.exists_eq_succ_of_ne_zero (Nat.ne_of_gt (Nat.zero_lt_of_lt hfuel))
    have hrest := (linked_cons.1 h).2
    have hnext : l.next c = some d := (linked_cons.1 hrest).1
    unfold XineList.priorityLoop
    by_cases hle : l.priority c ≤ priority
    · have hd : decide (priority < l.priority c) = false := decide_eq_false (Int.not_lt.2 hle)
      rw [if_pos hle, List.dropWhile_cons_of_neg (by rw [hd]; exact Bool.false_ne_true)]
    · have hd : decide (priority < l.priority c) = true := decide_eq_true (Int.not_le.1 hle)
      rw [if_neg hle, hnext, List.dropWhile_cons_of_pos (p := fun d => decide (priority < l.priority d)) hd]
      exact ih hrest (Nat.lt_of_succ_lt_succ hfuel)

theorem Chained.alloc (h : Chained l cells nodes) (content : α) (priority : ℤ) :
    Chained (l.alloc content priority) cells nodes := by
  refine ⟨h.links, fun c hc => Nat.lt_succ_of_lt (h.allocated c hc), ?_⟩
  rw [← h.stored]
  exact List.map_congr_left fun c hc => stored_alloc_of_ne l content priority (Nat.ne_of_lt (h.allocated c hc))

theorem Chained.length_le (h : Chained l cells nodes) : cells.length ≤ l.allocated := by
  have hsub : cells ⊆ List.range l.allocated := fun c hc => List.mem_range.2 (h.allocated c hc)
  simpa using (h.links.nodup.subperm hsub).length_le

theorem Chained.length_takeWhile (h : Chained l cells nodes) (priority : ℤ) :
    (cells.takeWhile fun c => decide (priority < l.priority c)).length =
      (nodes.takeWhile (Cursor.below priority)).length := by
  have hpriority : cells.map l.priority = nodes.map Prod.snd := by
    have hstored := congrArg (List.map Prod.snd) h.stored
    rw [List.map_map, List.map_map] at hstored
    exact hstored
  have htake := congrArg (fun ps => (ps.takeWhile fun p => decide (priority < p)).length) hpriority
  simp only [List.takeWhile_map, List.length_map] at htake
  exact htake

theorem appendPriority_represents (h : Represents l s) (content : α) (priority : ℤ) :
    ∃ l', l.appendPriorityContent content priority = some l' ∧
      Represents l' (s.appendPriority content priority) := by
  obtain ⟨cells, hchained⟩ := h.exists_cells
  have hnew := hchained.alloc content priority
  have hlen := hnew.length_takeWhile priority
  generalize hfalls : (fun c => decide (priority < (l.alloc content priority).priority c)) = falls at hlen
  have hsplit : Chained l (cells.takeWhile falls ++ cells.dropWhile falls)
      (s.nodes.takeWhile (Cursor.below priority) ++ s.nodes.dropWhile (Cursor.below priority)) := by
    rw [List.takeWhile_append_dropWhile, List.takeWhile_append_dropWhile]
    exact hchained
  refine ⟨_, ?_, hsplit.link hlen content priority⟩
  unfold XineList.appendPriorityContent
  have hfirst : (l.alloc content priority).first = cells.head? := hnew.links.first_eq
  dsimp only
  rw [hfirst]
  cases cells with
  | nil => exact congrArg some (appendOnly_eq _ _)
  | cons first rest =>
    have hfuel : rest.length < (l.alloc content priority).allocated := by
      have := hnew.length_le
      rw [List.length_cons] at this
      omega
    rw [List.head?_cons]
    dsimp only
    rw [priorityLoop_linked hnew.links.forward hfuel, hfalls]
    have happend := @List.takeWhile_append_dropWhile _ falls (first :: rest)
    cases hdrop : (first :: rest).dropWhile falls with
    | nil =>
      -- all priorities are above the new one
      rw [hdrop, List.append_nil] at happend
      rw [happend, List.getLast?_eq_some_getLast (List.cons_ne_nil first rest)]
      exact congrArg some (putBehind_eq _ _ _)
    | cons d ds =>
      rw [hdrop] at happend
      have hlinks := hnew.links
      rw [← happend] at hlinks
      exact congrArg some (putBefore_eq hlinks.prev_eq _)

/-! ## Inserting and deleting at the cursor -/

theorem insert_represents (h : Represents l s) (content : α) :
    (s.insert content = none ∧ l.insertContent content = none) ∨
      ∃ s' l', s.insert content = some s' ∧ l.insertContent content = some l' ∧ Represents l' s' := by
  cases s with
  | empty =>
    refine Or.inl ⟨rfl, ?_⟩
    unfold XineList.insertContent
    rw [h.2]
  | on before node behind =>
    obtain ⟨bs, c, as, hchained, hlen, hcur⟩ := h
    have hnext : l.next c = as.head? := hchained.links.next_eq
    have hsplit : Chained l (bs ++ [c] ++ as) (before ++ [node] ++ behind) := by
      rw [List.append_assoc, List.append_assoc]
      exact hchained
    have hlen' : (bs ++ [c]).length = (before ++ [node]).length := by simp [hlen]
    refine Or.inr ⟨_, _, rfl, ?_, hsplit.link hlen' content 0⟩
    unfold XineList.insertContent
    rw [hcur]
    dsimp only
    rw [hnext, List.getLast?_concat]
    cases as with
    | nil =>
      -- the cursor is on the last node
      have hlast : l.last = some c := by rw [hchained.links.last_eq, List.getLast?_concat]
      rw [List.head?_nil, appendContent_eq, hlast]
    | cons d as =>
      have hc : c ≠ l.allocated := Nat.ne_of_lt (hchained.allocated c (by simp))
      have hd : d ≠ l.allocated := Nat.ne_of_lt (hchained.allocated d (by simp))
      rw [List.head?_cons]
      refine congrArg some ?_
      unfold XineList.linkBetween XineList.setNext XineList.setPrev
      dsimp only [insertNext]
      rw [if_neg (Option.some_ne_none c), if_neg (Option.some_ne_none d), Function.update_comm hc,
        Function.update_comm hd]

/-- A node between two pointers is unlinked, and the cursor goes on, or back from the last node. -/
def XineList.unlinkBetween (l : XineList α) (before behind : Option ℕ) : XineList α :=
  { l with
    next := removeNext l.next before behind
    prev := removeNext l.prev behind before
    first := if before = none then behind else l.first
    last := if behind = none then before else l.last
    cur := behind.or before }

theorem deleteCurrent_eq {n : α × ℤ} (h : Chained l (bs ++ c :: as) (b ++ n :: a)) (hcur : l.cur = some c) :
    l.deleteCurrent = some (l.unlinkBetween bs.getLast? as.head?) := by
  have hprev : l.prev c = bs.getLast? := h.links.prev_eq
  have hnext : l.next c = as.head? := h.links.next_eq
  unfold XineList.deleteCurrent
  rw [hcur]
  dsimp only
  rw [hprev, hnext]
  cases hbs : bs.getLast? with
  | none =>
    rw [hbs] at hprev
    dsimp only
    rw [hnext, hprev]
    cases as.head? <;> rfl
  | some p =>
    rw [hbs] at hprev
    -- the node before is another one
    have hne : c ≠ p := by
      rintro rfl
      obtain ⟨us, rfl⟩ := List.getLast?_eq_some_iff.1 hbs
      have hnodup := h.links.nodup
      rw [List.append_assoc] at hnodup
      have hmem := (List.nodup_cons.1 (List.nodup_middle.1 hnodup)).1
      exact hmem (by simp)
    have hsame : (l.setNext p as.head?).next c = as.head? := by
      rw [← hnext]
      exact Function.update_of_ne hne _ _
    have hprev' : (l.setNext p as.head?).prev c = some p := hprev
    dsimp only
    rw [hsame, hprev']
    cases as.head? <;> rfl

theorem Chained.unlink {n : α × ℤ} (h : Chained l (bs ++ c :: as) (b ++ n :: a))
    (hlen : bs.length = b.length) :
    Chained (l.unlinkBetween bs.getLast? as.head?) (bs ++ as) (b ++ a) := by
  refine ⟨h.links.remove, fun d hd => h.allocated d ?_, ?_⟩
  · rcases List.mem_append.1 hd with hd | hd
    · exact List.mem_append_left _ hd
    · exact List.mem_append_right _ (List.mem_cons_of_mem c hd)
  · obtain ⟨hbs, hcons⟩ := h.stored_append hlen
    rw [List.map_append, List.map_append, ← hbs, ← (List.cons.inj hcons).2]
    rfl

theorem delete_represents (h : Represents l s) :
    (s.delete = none ∧ l.deleteCurrent = none) ∨
      ∃ s' l', s.delete = some s' ∧ l.deleteCurrent = some l' ∧ Represents l' s' := by
  cases s with
  | empty =>
    refine Or.inl ⟨rfl, ?_⟩
    unfold XineList.deleteCurrent
    rw [h.2]
  | on before node behind =>
    obtain ⟨bs, c, as, hchained, hlen, hcur⟩ := h
    have hunlink := hchained.unlink hlen
    have hbehind := hchained.length_behind hlen
    refine Or.inr ?_
    rw [deleteCurrent_eq hchained hcur]
    cases behind with
    | cons next behind =>
      obtain ⟨d, as, rfl⟩ := List.exists_cons_of_length_eq_add_one hbehind
      exact ⟨_, _, rfl, rfl, bs, d, as, hunlink, hlen, rfl⟩
    | nil =>
      obtain rfl : as = [] := List.length_eq_zero_iff.1 hbehind
      refine ⟨_, _, rfl, rfl, ?_⟩
      rw [List.append_nil, List.append_nil] at hunlink
      rcases List.eq_nil_or_concat before with rfl | ⟨before, prev, rfl⟩
      · obtain rfl : bs = [] := List.length_eq_zero_iff.1 hlen
        exact ⟨hunlink, rfl⟩
      · -- the cursor goes back
        rw [List.concat_eq_append] at hlen hunlink ⊢
        rcases List.eq_nil_or_concat bs with rfl | ⟨us, p, rfl⟩
        · simp at hlen
        · rw [List.concat_eq_append] at hlen hunlink ⊢
          have hlen' : us.length = before.length := by simpa using hlen
          rw [List.reverse_concat, Cursor.onLast, List.reverse_reverse]
          refine ⟨us, p, [], hunlink, hlen', ?_⟩
          rw [XineList.unlinkBetween, List.getLast?_concat]
          rfl

/-! ## Moving the cursor -/

theorem firstContent_of_none (h : l.first = none) : l.firstContent = (none, { l with cur := none }) := by
  obtain ⟨first, last, cur, next, prev, content, priority, allocated⟩ := l
  obtain rfl : first = none := h
  rfl

theorem firstContent_of_some (h : l.first = some c) :
    l.firstContent = (l.content c, { l with cur := some c }) := by
  obtain ⟨first, last, cur, next, prev, content, priority, allocated⟩ := l
  obtain rfl : first = some c := h
  rfl

theorem lastContent_of_none (h : l.last = none) : l.lastContent = (none, l) := by
  obtain ⟨first, last, cur, next, prev, content, priority, allocated⟩ := l
  obtain rfl : last = none := h
  rfl

theorem lastContent_of_some (h : l.last = some c) :
    l.lastContent = (l.content c, { l with cur := some c }) := by
  obtain ⟨first, last, cur, next, prev, content, priority, allocated⟩ := l
  obtain rfl : last = some c := h
  rfl

theorem Represents.of_nodes_nil (h : Represents l s) (hnodes : s.nodes = []) : s = .empty := by
  cases s with
  | empty => rfl
  | on before node behind => exact absurd hnodes (by simp [Cursor.nodes])

theorem first_represents (h : Represents l s) :
    l.firstContent.1 = s.first.1 ∧ Represents l.firstContent.2 s.first.2 := by
  obtain ⟨cells, hchained⟩ := h.exists_cells
  have hfirst := hchained.links.first_eq
  unfold Cursor.first
  cases hnodes : s.nodes with
  | nil =>
    rw [hnodes] at hchained
    obtain rfl : cells = [] := List.length_eq_zero_iff.1 hchained.length_eq
    rw [firstContent_of_none hfirst]
    exact ⟨rfl, hchained.move none, rfl⟩
  | cons node behind =>
    rw [hnodes] at hchained
    obtain ⟨c, as, rfl⟩ := List.exists_cons_of_length_eq_add_one hchained.length_eq
    rw [firstContent_of_some hfirst]
    have hcontent := @Chained.content_eq _ _ [] as [] behind c node hchained rfl
    exact ⟨hcontent, @Chained.represents _ _ [] as [] behind c node hchained rfl⟩

theorem last_represents (h : Represents l s) :
    l.lastContent.1 = s.last.1 ∧ Represents l.lastContent.2 s.last.2 := by
  obtain ⟨cells, hchained⟩ := h.exists_cells
  have hlast := hchained.links.last_eq
  unfold Cursor.last
  rcases List.eq_nil_or_concat s.nodes with hnodes | ⟨before, node, hnodes⟩
  · obtain rfl := h.of_nodes_nil hnodes
    obtain rfl : cells = [] := List.length_eq_zero_iff.1 hchained.length_eq
    rw [lastContent_of_none hlast]
    exact ⟨rfl, h⟩
  · rw [hnodes, List.concat_eq_append] at hchained ⊢
    obtain ⟨bs, c, as, rfl, hlen⟩ := hchained.exists_split
    have has : as = [] := by
      have hall := hchained.length_eq
      simp only [List.length_append, List.length_cons, List.length_nil] at hall
      exact List.length_eq_zero_iff.1 (by omega)
    subst has
    rw [List.getLast?_concat] at hlast
    rw [lastContent_of_some hlast, List.getLast?_concat, List.reverse_concat, Cursor.onLast,
      List.reverse_reverse]
    exact ⟨hchained.content_eq hlen, hchained.represents hlen⟩

theorem next_represents (h : Represents l s) :
    l.nextContent.1 = s.next.1 ∧ Represents l.nextContent.2 s.next.2 := by
  cases s with
  | empty =>
    unfold XineList.nextContent
    rw [h.2]
    exact ⟨rfl, h⟩
  | on before node behind =>
    obtain ⟨bs, c, as, hchained, hlen, hcur⟩ := h
    have hnext : l.next c = as.head? := hchained.links.next_eq
    have hbehind := hchained.length_behind hlen
    unfold XineList.nextContent
    rw [hcur]
    dsimp only
    rw [hnext]
    cases behind with
    | nil =>
      obtain rfl : as = [] := List.length_eq_zero_iff.1 hbehind
      exact ⟨rfl, bs, c, [], hchained, hlen, hcur⟩
    | cons next behind =>
      obtain ⟨d, as, rfl⟩ := List.exists_cons_of_length_eq_add_one hbehind
      have hsplit : Chained l (bs ++ [c] ++ d :: as) (before ++ [node] ++ next :: behind) := by
        rw [List.append_assoc, List.append_assoc]
        exact hchained
      have hlen' : (bs ++ [c]).length = (before ++ [node]).length := by simp [hlen]
      exact ⟨hsplit.content_eq hlen', hsplit.represents hlen'⟩

theorem prev_represents (h : Represents l s) :
    l.prevContent.1 = s.prev.1 ∧ Represents l.prevContent.2 s.prev.2 := by
  cases s with
  | empty =>
    unfold XineList.prevContent
    rw [h.2]
    exact ⟨rfl, h⟩
  | on before node behind =>
    obtain ⟨bs, c, as, hchained, hlen, hcur⟩ := h
    have hprev : l.prev c = bs.getLast? := hchained.links.prev_eq
    unfold XineList.prevContent Cursor.prev
    rw [hcur]
    dsimp only
    rw [hprev]
    rcases List.eq_nil_or_concat before with rfl | ⟨before, prev, rfl⟩
    · obtain rfl : bs = [] := List.length_eq_zero_iff.1 hlen
      exact ⟨rfl, [], c, as, hchained, hlen, hcur⟩
    · rw [List.concat_eq_append] at hlen hchained ⊢
      rcases List.eq_nil_or_concat bs with rfl | ⟨bs, p, rfl⟩
      · simp at hlen
      · rw [List.concat_eq_append] at hlen hchained ⊢
        rw [List.append_assoc, List.append_assoc] at hchained
        have hlen' : bs.length = before.length := by simpa using hlen
        rw [List.getLast?_concat, List.reverse_concat]
        dsimp only
        rw [List.reverse_reverse]
        exact ⟨hchained.content_eq hlen', hchained.represents hlen'⟩

end Xine.Lists
