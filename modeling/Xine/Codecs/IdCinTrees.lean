import Xine.Codecs.IdCinShared
import Xine.Library.PrefixTrees

/-!
# The trees of the Id CIN decoder

`huff_build_tree` keeps a forest: the nodes with a count that are not used are its roots, and the leaves of its
trees are the tokens with a count. Each round takes two of the roots and puts a new node above them, in the next
place of the table, so there is room for all of them.
-/

namespace Xine.Codecs

open Octets (Byte)
open PrefixTrees (CodeTree)

/-- A node of the table is the root of a tree. All of its inner nodes are in the table, behind their children. -/
inductive IsTree (hnodes : HNodes) : ℕ → CodeTree ℕ → Prop
  | token {i : ℕ} (h : i < HUF_TOKENS) : IsTree hnodes i (.leaf i)
  | node {i child0 child1 : ℕ} {zero one : CodeTree ℕ} (h : HUF_TOKENS ≤ i) (hroom : i < HUF_TOKENS * 2)
      (hchildren : (hnodes i).children = (some child0, some child1)) (hlt0 : child0 < i) (hlt1 : child1 < i)
      (h0 : IsTree hnodes child0 zero) (h1 : IsTree hnodes child1 one) : IsTree hnodes i (.node zero one)

/-- A root of the forest that `huff_build_tree` keeps among the first nodes. Its count is at most 255 for each
leaf. -/
structure IsRoot (hnodes : HNodes) (num : ℕ) (root : ℕ × CodeTree ℕ) : Prop where
  lt : root.1 < num
  fresh : (hnodes root.1).used = false
  tree : IsTree hnodes root.1 root.2
  pos : (hnodes root.1).count ≠ 0
  count_le : (hnodes root.1).count ≤ 255 * root.2.leaves.length

/-- The roots are the nodes with a count that are not used. -/
structure IsForest (hnodes : HNodes) (num : ℕ) (forest : List (ℕ × CodeTree ℕ)) : Prop where
  roots : ∀ root ∈ forest, IsRoot hnodes num root
  nodup : (forest.map Prod.fst).Nodup
  all : ∀ i < num, (hnodes i).used = false → (hnodes i).count ≠ 0 → i ∈ forest.map Prod.fst

/-- The leaves of all trees. -/
def forestLeaves (forest : List (ℕ × CodeTree ℕ)) : List ℕ := forest.flatMap fun root => root.2.leaves

variable {hnodes hnodes' : HNodes} {num i c : ℕ} {t t0 t1 : CodeTree ℕ} {root : ℕ × CodeTree ℕ}
  {forest rest : List (ℕ × CodeTree ℕ)}

/-! ## Trees and forests -/

theorem IsTree.congr (h : IsTree hnodes i t) (hsame : ∀ j ≤ i, (hnodes' j).children = (hnodes j).children) :
    IsTree hnodes' i t := by
  induction h with
  | token h => exact .token h
  | node h hroom hchildren hlt0 hlt1 h0 h1 ih0 ih1 =>
    refine .node h hroom ((hsame _ (Nat.le_refl _)).trans hchildren) hlt0 hlt1 (ih0 fun j hj => ?_) (ih1 fun j hj => ?_)
    · exact hsame j (Nat.le_trans hj (Nat.le_of_lt hlt0))
    · exact hsame j (Nat.le_trans hj (Nat.le_of_lt hlt1))

theorem IsTree.tokens_le (h : IsTree hnodes i t) (hlen : 2 ≤ t.leaves.length) : HUF_TOKENS ≤ i := by
  cases h with
  | token => exact absurd hlen (Nat.not_succ_le_self 1)
  | node h => exact h

theorem IsForest.perm (h : IsForest hnodes num forest) (hperm : forest.Perm rest) : IsForest hnodes num rest where
  roots root hroot := h.roots root (hperm.mem_iff.2 hroot)
  nodup := (hperm.map Prod.fst).nodup_iff.1 h.nodup
  all i hi hfresh hcount := (hperm.map Prod.fst).mem_iff.1 (h.all i hi hfresh hcount)

theorem forestLeaves_perm (hperm : forest.Perm rest) : (forestLeaves forest).Perm (forestLeaves rest) :=
  hperm.flatMap_right _

/-! ## The smallest node -/

theorem scanNodes_live (nodes : List ℕ) (best : ℕ × Option ℕ) (h : (scanNodes hnodes nodes best).2 = some i) :
    best.2 = some i ∨ (hnodes i).used = false ∧ (hnodes i).count ≠ 0 := by
  induction nodes generalizing best with
  | nil => exact .inl h
  | cons node nodes ih =>
    obtain hbest | hlive := ih _ h
    · dsimp only at hbest
      split_ifs at hbest with hused hcount hlt
      · exact .inl hbest
      · exact .inl hbest
      · cases hbest
        exact .inr ⟨Bool.eq_false_iff.2 hused, hcount⟩
      · exact .inl hbest
    · exact .inr hlive

theorem scanNodes_none (nodes : List ℕ) (best : ℕ × Option ℕ) (h : (scanNodes hnodes nodes best).2 = none) :
    best.2 = none ∧ ∀ i ∈ nodes, (hnodes i).used = false → (hnodes i).count ≠ 0 → best.1 ≤ (hnodes i).count := by
  induction nodes generalizing best with
  | nil => exact ⟨h, fun i hi => absurd hi List.not_mem_nil⟩
  | cons node nodes ih =>
    obtain ⟨hbest, hrest⟩ := ih _ h
    dsimp only at hbest hrest
    rw [List.forall_mem_cons]
    split_ifs at hbest hrest with hused hcount hlt
    · exact ⟨hbest, fun hfresh => absurd (hfresh.symm.trans hused) Bool.false_ne_true, hrest⟩
    · exact ⟨hbest, fun _ hpos => absurd hcount hpos, hrest⟩
    · exact ⟨hbest, fun _ _ => Nat.not_lt.1 hlt, hrest⟩

theorem used_frame (c j : ℕ) :
    (Function.update hnodes c { hnodes c with used := true } j).children = (hnodes j).children ∧
      (Function.update hnodes c { hnodes c with used := true } j).count = (hnodes j).count := by
  by_cases hj : j = c
  · subst hj
    rw [Function.update_self]
    exact ⟨rfl, rfl⟩
  · rw [Function.update_of_ne hj]
    exact ⟨rfl, rfl⟩

theorem IsForest.mark_used (h : IsForest hnodes num (root :: rest)) :
    IsForest (Function.update hnodes root.1 { hnodes root.1 with used := true }) num rest where
  roots other hother := by
    obtain ⟨hlt, hfresh, htree, hpos, hle⟩ := h.roots other (List.mem_cons_of_mem _ hother)
    have hne : other.1 ≠ root.1 := by
      intro heq
      have hnot := (List.nodup_cons.1 h.nodup).1
      exact hnot (heq ▸ List.mem_map_of_mem hother)
    refine ⟨hlt, ?_, htree.congr fun j _ => (used_frame root.1 j).1, ?_, ?_⟩
    · rw [Function.update_of_ne hne]
      exact hfresh
    · rw [(used_frame root.1 other.1).2]
      exact hpos
    · rw [(used_frame root.1 other.1).2]
      exact hle
  nodup := (List.nodup_cons.1 h.nodup).2
  all i hi hfresh hcount := by
    have hne : i ≠ root.1 := by
      rintro rfl
      rw [Function.update_self] at hfresh
      exact Bool.false_ne_true hfresh.symm
    rw [Function.update_of_ne hne] at hfresh hcount
    exact (List.mem_cons.1 (h.all i hi hfresh hcount)).resolve_left hne

theorem smallest_root (h : IsForest hnodes num forest) (hleaves : (forestLeaves forest).length ≤ HUF_TOKENS) :
    (forest = [] ∧ huffSmallestNode hnodes num = (none, hnodes)) ∨
    ∃ root rest, forest.Perm (root :: rest) ∧ huffSmallestNode hnodes num =
      (some root.1, Function.update hnodes root.1 { hnodes root.1 with used := true }) := by
  unfold huffSmallestNode
  cases hscan : (scanNodes hnodes (List.range num) (99999999, none)).2 with
  | none =>
    left
    refine ⟨?_, rfl⟩
    obtain ⟨-, hnone⟩ := scanNodes_none _ _ hscan
    cases forest with
    | nil => rfl
    | cons root rest =>
      -- its count is too small to be left
      obtain ⟨hlt, hfresh, -, hpos, hle⟩ := h.roots root List.mem_cons_self
      have hlarge := hnone root.1 (List.mem_range.2 hlt) hfresh hpos
      have hlength : (forestLeaves (root :: rest)).length = root.2.leaves.length + (forestLeaves rest).length := by
        unfold forestLeaves
        rw [List.flatMap_cons, List.length_append]
      have htokens : HUF_TOKENS = 256 := rfl
      omega
  | some best =>
    right
    have hlive : (hnodes best).used = false ∧ (hnodes best).count ≠ 0 :=
      (scanNodes_live _ _ hscan).resolve_left (Option.some_ne_none _).symm
    have hlt : best < num :=
      List.mem_range.1 ((scanNodes_mem _ _ hscan).resolve_left (Option.some_ne_none _).symm)
    obtain ⟨root, hroot, rfl⟩ := List.mem_map.1 (h.all best hlt hlive.1 hlive.2)
    obtain ⟨before, after, rfl⟩ := List.append_of_mem hroot
    exact ⟨root, before ++ after, List.perm_middle, rfl⟩

/-! ## A round -/

theorem IsForest.store (h : IsForest hnodes num forest) (node : HNode) :
    IsForest (Function.update hnodes num node) num forest where
  roots root hroot := by
    obtain ⟨hlt, hfresh, htree, hpos, hle⟩ := h.roots root hroot
    have hsame (j : ℕ) (hj : j < num) : Function.update hnodes num node j = hnodes j :=
      Function.update_of_ne (Nat.ne_of_lt hj) _ _
    refine ⟨hlt, ?_, htree.congr fun j hj => congrArg _ (hsame j (Nat.lt_of_le_of_lt hj hlt)), ?_, ?_⟩
    all_goals rw [hsame _ hlt]
    · exact hfresh
    · exact hpos
    · exact hle
  nodup := h.nodup
  all i hi hfresh hcount := by
    rw [Function.update_of_ne (Nat.ne_of_lt hi)] at hfresh hcount
    exact h.all i hi hfresh hcount

theorem IsForest.push {c0 c1 : ℕ} {node : HNode} (h : IsForest (Function.update hnodes num node) num rest)
    (hge : HUF_TOKENS ≤ num) (hroom : num < HUF_TOKENS * 2) (h0 : IsTree hnodes c0 t0) (h1 : IsTree hnodes c1 t1)
    (hlt0 : c0 < num) (hlt1 : c1 < num) (hpos : (hnodes c0).count ≠ 0)
    (hle0 : (hnodes c0).count ≤ 255 * t0.leaves.length) (hle1 : (hnodes c1).count ≤ 255 * t1.leaves.length)
    (hchildren : node.children = (some c0, some c1)) (hfresh : node.used = false)
    (hcount : node.count = (hnodes c0).count + (hnodes c1).count) :
    IsForest (Function.update hnodes num node) (num + 1) ((num, .node t0 t1) :: rest) where
  roots := by
    refine List.forall_mem_cons.2 ⟨⟨Nat.lt_succ_self num, ?_, ?_, ?_, ?_⟩, fun root hroot => ?_⟩
    · rw [Function.update_self]
      exact hfresh
    · have hsame (j : ℕ) (hj : j < num) : (Function.update hnodes num node j).children = (hnodes j).children := by
        rw [Function.update_of_ne (Nat.ne_of_lt hj)]
      refine .node hge hroom ?_ hlt0 hlt1 (h0.congr fun j hj => ?_) (h1.congr fun j hj => ?_)
      · rw [Function.update_self]
        exact hchildren
      · exact hsame j (Nat.lt_of_le_of_lt hj hlt0)
      · exact hsame j (Nat.lt_of_le_of_lt hj hlt1)
    · rw [Function.update_self, hcount]
      exact fun hzero => hpos (Nat.eq_zero_of_add_eq_zero_right hzero)
    · have hlength : (CodeTree.node t0 t1).leaves.length = t0.leaves.length + t1.leaves.length := List.length_append
      rw [Function.update_self, hcount, hlength]
      omega
    · obtain ⟨hlt, hfresh, htree, hpos, hle⟩ := h.roots root hroot
      exact ⟨Nat.lt_succ_of_lt hlt, hfresh, htree, hpos, hle⟩
  nodup := by
    refine List.nodup_cons.2 ⟨fun hmem => ?_, h.nodup⟩
    obtain ⟨root, hroot, heq⟩ := List.mem_map.1 hmem
    exact absurd heq (Nat.ne_of_lt (h.roots root hroot).lt)
  all i hi hfresh hcount := by
    obtain hlt | rfl := Nat.lt_succ_iff_lt_or_eq.1 hi
    · exact List.mem_cons_of_mem _ (h.all i hlt hfresh hcount)
    · exact List.mem_cons_self

/-- What a round does not change: the children and counts of the first nodes, and the marks of the others. -/
structure Kept (num : ℕ) (hnodes hnodes' : HNodes) : Prop where
  children : ∀ j < num, (hnodes' j).children = (hnodes j).children
  count : ∀ j < num, (hnodes' j).count = (hnodes j).count
  used : ∀ j, num ≤ j → (hnodes' j).used = (hnodes j).used

theorem Kept.trans {hnodes'' : HNodes} (h : Kept num hnodes hnodes') (h' : Kept num hnodes' hnodes'') :
    Kept num hnodes hnodes'' where
  children j hj := (h'.children j hj).trans (h.children j hj)
  count j hj := (h'.count j hj).trans (h.count j hj)
  used j hj := (h'.used j hj).trans (h.used j hj)

theorem kept_used (hc : c < num) :
    Kept num hnodes (Function.update hnodes c { hnodes c with used := true }) where
  children j _ := (used_frame c j).1
  count j _ := (used_frame c j).2
  used j hj := by rw [Function.update_of_ne (Nat.ne_of_gt (Nat.lt_of_lt_of_le hc hj))]

theorem kept_store {node : HNode} (hused : node.used = (hnodes num).used) :
    Kept num hnodes (Function.update hnodes num node) where
  children j hj := by rw [Function.update_of_ne (Nat.ne_of_lt hj)]
  count j hj := by rw [Function.update_of_ne (Nat.ne_of_lt hj)]
  used j hj := by
    by_cases hjn : j = num
    · subst hjn
      rw [Function.update_self]
      exact hused
    · rw [Function.update_of_ne hjn]

theorem IsTree.kept (h : IsTree hnodes i t) (hi : i < num) (hkept : Kept num hnodes hnodes') : IsTree hnodes' i t :=
  h.congr fun j hj => hkept.children j (Nat.lt_of_le_of_lt hj hi)

/-- The state of the loop: the forest has the tokens as its leaves, there is a place for each round, and the node that
was put last is a root. -/
structure Building (hnodes : HNodes) (num fuel : ℕ) (symbols : List ℕ) (forest : List (ℕ × CodeTree ℕ)) : Prop where
  isForest : IsForest hnodes num forest
  leaves : (forestLeaves forest).Perm symbols
  tokens : HUF_TOKENS ≤ num
  room : num + fuel = HUF_TOKENS * 2
  fresh : ∀ j, num ≤ j → j < HUF_TOKENS * 2 → (hnodes j).used = false
  last : num = HUF_TOKENS ∨ num - 1 ∈ forest.map Prod.fst
  rounds : forest.length ≤ fuel
  more : 1 ≤ fuel

theorem Building.perm {fuel : ℕ} {symbols : List ℕ} (h : Building hnodes num fuel symbols forest)
    (hperm : forest.Perm rest) : Building hnodes num fuel symbols rest where
  isForest := h.isForest.perm hperm
  leaves := (forestLeaves_perm hperm).symm.trans h.leaves
  tokens := h.tokens
  room := h.room
  fresh := h.fresh
  last := h.last.imp_right (hperm.map Prod.fst).mem_iff.1
  rounds := hperm.length_eq ▸ h.rounds
  more := h.more

theorem Building.round {fuel : ℕ} {symbols : List ℕ} {r0 : ℕ × CodeTree ℕ}
    (h : Building hnodes num (fuel + 1) symbols (r0 :: forest)) (hsymbols : symbols.length ≤ HUF_TOKENS)
    (hfirst : huffSmallestNode hnodes num =
      (some r0.1, Function.update hnodes r0.1 { hnodes r0.1 with used := true })) :
    (forest = [] ∧ ∃ hnodes', buildLoop (fuel + 1) hnodes num = some (hnodes', num - 1) ∧ Kept num hnodes hnodes') ∨
    ∃ r1 rest hnodes', forest.Perm (r1 :: rest) ∧
      buildLoop (fuel + 1) hnodes num = buildLoop fuel hnodes' (num + 1) ∧
      Building hnodes' (num + 1) fuel symbols ((num, .node r0.2 r1.2) :: rest) := by
  have hroot0 := h.isForest.roots r0 List.mem_cons_self
  have hlength : (forestLeaves forest).length ≤ HUF_TOKENS := by
    have hall := h.leaves.length_eq
    unfold forestLeaves at hall ⊢
    rw [List.flatMap_cons, List.length_append] at hall
    omega
  -- the first node is taken, and noted in the next place
  generalize hmarked : Function.update hnodes r0.1 { hnodes r0.1 with used := true } = marked at hfirst
  generalize hnoted : Function.update marked num
    { marked num with children := (some r0.1, (marked num).children.2) } = noted
  have hkept1 : Kept num hnodes noted := by
    subst hnoted hmarked
    exact (kept_used hroot0.lt).trans (kept_store rfl)
  have hforest1 : IsForest noted num forest := by
    subst hnoted hmarked
    exact h.isForest.mark_used.store _
  obtain ⟨hnil, hsecond⟩ | ⟨r1, rest, hperm, hsecond⟩ := smallest_root hforest1 hlength
  · left
    refine ⟨hnil, Function.update noted num { noted num with children := (some r0.1, none) }, ?_,
      hkept1.trans (kept_store rfl)⟩
    unfold buildLoop
    rw [hfirst]
    dsimp only
    rw [hnoted, hsecond]
  · right
    have hroot1 := hforest1.roots r1 (hperm.mem_iff.2 List.mem_cons_self)
    generalize hmarked2 : Function.update noted r1.1 { noted r1.1 with used := true } = marked2 at hsecond
    generalize hnode : ({ marked2 num with children := (some r0.1, some r1.1) } : HNode) = node
    generalize hstored : Function.update marked2 num node = stored
    have hkept2 : Kept num hnodes stored := by
      subst hstored hnode hmarked2
      exact (hkept1.trans (kept_used hroot1.lt)).trans (kept_store rfl)
    have hforest2 : IsForest stored num rest := by
      subst hstored hnode hmarked2
      exact (hforest1.perm hperm).mark_used.store _
    have hchildren : node.children = (some r0.1, some r1.1) := hnode ▸ rfl
    have hused : node.used = (stored num).used := by
      rw [← hstored, Function.update_self]
    have hfresh : node.used = false :=
      (hused.trans (hkept2.used num (Nat.le_refl num))).trans (h.fresh num (Nat.le_refl num) (by have := h.room; omega))
    -- the node gets the sum of the counts, and is the root of the new tree
    have hrest : IsForest (Function.update stored num
        { node with count := (stored r0.1).count + (stored r1.1).count }) num rest := hforest2.store _
    have hcount0 := hkept2.count r0.1 hroot0.lt
    have hcount1 := hkept2.count r1.1 hroot1.lt
    have hnoted1 := hkept1.count r1.1 hroot1.lt
    have htree1 : IsTree stored r1.1 r1.2 := by
      subst hstored hnode hmarked2
      exact hroot1.tree.kept hroot1.lt ((kept_used hroot1.lt).trans (kept_store rfl))
    have hpush := hrest.push h.tokens (by have := h.room; omega) (hroot0.tree.kept hroot0.lt hkept2) htree1
      hroot0.lt hroot1.lt (hcount0 ▸ hroot0.pos) (hcount0 ▸ hroot0.count_le)
      ((hcount1.trans hnoted1.symm) ▸ hroot1.count_le) hchildren hfresh rfl
    refine ⟨r1, rest, Function.update stored num
      { node with count := (stored r0.1).count + (stored r1.1).count }, hperm, ?_, ?_⟩
    · rw [buildLoop, hfirst]
      dsimp only
      rw [hnoted, hsecond]
      subst hstored hnode
      rfl
    · have hlen := hperm.length_eq
      have hrounds := h.rounds
      have hroom := h.room
      rw [List.length_cons] at hlen hrounds
      refine ⟨hpush, ?_, Nat.le_succ_of_le h.tokens, by omega, fun j hj hlt => ?_, .inr List.mem_cons_self, ?_, ?_⟩
      · calc (forestLeaves ((num, .node r0.2 r1.2) :: rest)).Perm (forestLeaves (r0 :: r1 :: rest)) := by
              unfold forestLeaves
              rw [List.flatMap_cons, List.flatMap_cons, List.flatMap_cons, ← List.append_assoc]
              rfl
          _ |>.Perm (forestLeaves (r0 :: forest)) := (forestLeaves_perm (hperm.cons r0)).symm
          _ |>.Perm symbols := h.leaves
      · rw [Function.update_of_ne (Nat.ne_of_gt hj), hkept2.used j (Nat.le_of_lt hj)]
        exact h.fresh j (Nat.le_of_lt hj) hlt
      · rw [List.length_cons]
        omega
      · omega

theorem buildLoop_tree {fuel : ℕ} {symbols : List ℕ} (h : Building hnodes num fuel symbols forest)
    (hsymbols : symbols.length ≤ HUF_TOKENS) :
    ∃ hnodes' root t, buildLoop fuel hnodes num = some (hnodes', root) ∧ IsTree hnodes' root t ∧
      (HUF_TOKENS < num ∧ forest ≠ [] ∨ 2 ≤ forest.length → t.leaves.Perm symbols) := by
  induction fuel generalizing hnodes num forest with
  | zero => exact absurd h.more (Nat.not_succ_le_zero 0)
  | succ fuel ih =>
    obtain ⟨hnil, hsmallest⟩ | ⟨r0, forest0, hperm, hsmallest⟩ :=
      smallest_root h.isForest (Nat.le_trans (Nat.le_of_eq h.leaves.length_eq) hsymbols)
    · -- there are no tokens
      subst hnil
      have hnum := h.last.resolve_right List.not_mem_nil
      have hbuild : buildLoop (fuel + 1) hnodes num = some (Function.update hnodes num
          { hnodes num with children := (none, (hnodes num).children.2) }, num - 1) := by
        rw [buildLoop, hsmallest]
      refine ⟨_, num - 1, .leaf (num - 1), hbuild, .token ?_, fun hrounds => ?_⟩
      · rw [hnum]
        decide
      · exact absurd hrounds (by simp)
    · obtain ⟨hnil, hnodes', hbuild, hkept⟩ | ⟨r1, rest, hnodes', hperm0, hbuild, hnext⟩ :=
        (h.perm hperm).round hsymbols hsmallest
      · subst hnil
        have hroot0 := (h.perm hperm).isForest.roots r0 List.mem_cons_self
        obtain hnum | hlast := (h.perm hperm).last
        · -- there is one token, and no tree was built for it
          refine ⟨hnodes', num - 1, .leaf (num - 1), hbuild, .token ?_, fun hrounds => ?_⟩
          · rw [hnum]
            decide
          · have hlen : forest.length = 1 := hperm.length_eq
            omega
        · -- the node that was put last is the root
          obtain heq := List.mem_singleton.1 hlast
          refine ⟨hnodes', num - 1, r0.2, hbuild, ?_, fun _ => ?_⟩
          · rw [heq]
            exact hroot0.tree.kept hroot0.lt hkept
          · have hleaves := (h.perm hperm).leaves
            rwa [forestLeaves, List.flatMap_cons, List.flatMap_nil, List.append_nil] at hleaves
      · obtain ⟨hnodes'', root, t, hbuilt, htree, hleaves⟩ := ih hnext
        have hmore : HUF_TOKENS < num + 1 := Nat.lt_succ_of_le h.tokens
        exact ⟨hnodes'', root, t, hbuild.trans hbuilt, htree, fun _ => hleaves (.inl ⟨hmore, List.cons_ne_nil _ _⟩)⟩

/-! ## The tables of a header -/

/-- The tokens with a count. -/
def countedTokens (counts : ℕ → ℕ) : List ℕ := (List.range HUF_TOKENS).filter fun j => decide (counts j ≠ 0)

theorem length_countedTokens_le (counts : ℕ → ℕ) : (countedTokens counts).length ≤ HUF_TOKENS := by
  have hle := List.length_filter_le (fun j => decide (counts j ≠ 0)) (List.range HUF_TOKENS)
  rwa [List.length_range] at hle

theorem lt_of_mem_countedTokens {counts : ℕ → ℕ} {j : ℕ} (h : j ∈ countedTokens counts) : j < HUF_TOKENS :=
  List.mem_range.1 (List.mem_filter.1 h).1

theorem countedTokens_congr {counts counts' : ℕ → ℕ} (h : ∀ j < HUF_TOKENS, counts j = counts' j) :
    countedTokens counts = countedTokens counts' := by
  unfold countedTokens
  apply List.filter_congr
  intro j hj
  rw [h j (List.mem_range.1 hj)]

theorem huffBuildTree_tree (hbyte : ∀ j < HUF_TOKENS, (hnodes j).count ≤ 255) :
    ∃ hnodes' root t, huffBuildTree hnodes = some (hnodes', root) ∧ IsTree hnodes' root t ∧
      (2 ≤ (countedTokens fun j => (hnodes j).count).length →
        t.leaves.Perm (countedTokens fun j => (hnodes j).count)) := by
  generalize hstart : (fun i => if i < HUF_TOKENS * 2 then { hnodes i with used := false } else hnodes i) = start
  have hsame (j : ℕ) (hj : j < HUF_TOKENS * 2) : start j = { hnodes j with used := false } := by
    rw [← hstart]
    exact if_pos hj
  have hroom {j : ℕ} (hj : j < HUF_TOKENS) : j < HUF_TOKENS * 2 := Nat.lt_of_lt_of_le hj (by decide)
  generalize hsymbols : (countedTokens fun j => (hnodes j).count) = symbols
  have hmem (j : ℕ) : j ∈ symbols ↔ j < HUF_TOKENS ∧ (hnodes j).count ≠ 0 := by
    rw [← hsymbols, countedTokens, List.mem_filter, List.mem_range, decide_eq_true_iff]
  -- at first each token with a count is a tree
  have hmap : (symbols.map fun j => (j, CodeTree.leaf j)).map Prod.fst = symbols := by
    rw [List.map_map]
    exact List.map_id symbols
  have hforest : IsForest start HUF_TOKENS (symbols.map fun j => (j, CodeTree.leaf j)) := by
    constructor
    · intro root hroot
      obtain ⟨j, hj, rfl⟩ := List.mem_map.1 hroot
      obtain ⟨hlt, hpos⟩ := (hmem j).1 hj
      refine ⟨hlt, ?_, .token hlt, ?_, ?_⟩
      all_goals rw [hsame j (hroom hlt)]
      · exact hpos
      · exact hbyte j hlt
    · rw [hmap, ← hsymbols]
      exact List.nodup_range.filter _
    · intro i hi _ hcount
      rw [hsame i (hroom hi)] at hcount
      rw [hmap]
      exact (hmem i).2 ⟨hi, hcount⟩
  have hlength : symbols.length ≤ HUF_TOKENS := hsymbols ▸ length_countedTokens_le _
  have hbuilding : Building start HUF_TOKENS HUF_TOKENS symbols (symbols.map fun j => (j, CodeTree.leaf j)) := by
    refine ⟨hforest, ?_, Nat.le_refl _, rfl, fun j _ hj => ?_, .inl rfl, ?_, by decide⟩
    · rw [forestLeaves, List.flatMap_map]
      exact (List.flatMap_singleton' symbols).symm ▸ List.Perm.refl symbols
    · rw [hsame j hj]
    · rw [List.length_map]
      exact hlength
  obtain ⟨hnodes', root, t, hbuild, htree, hleaves⟩ := buildLoop_tree hbuilding hlength
  refine ⟨hnodes', root, t, ?_, htree, fun htwo => hleaves (.inr ?_)⟩
  · rw [huffBuildTree, hstart]
    exact hbuild
  · rw [List.length_map]
    exact htwo

/-- The tokens that a histogram has. -/
def histogramTokens (histograms : ℕ → Byte) (i : ℕ) : List ℕ :=
  countedTokens fun j => (histograms (i * HUF_TOKENS + j)).toNat

/-- A table has a tree. If its histogram has two tokens or more, they are its leaves. -/
def TreeFor (histograms : ℕ → Byte) (tables : HuffTables) (i : ℕ) : Prop :=
  ∃ t, IsTree (tables.huff_nodes i) (tables.num_huff_nodes i) t ∧
    (2 ≤ (histogramTokens histograms i).length → t.leaves.Perm (histogramTokens histograms i))

theorem initTable_tree (histograms : ℕ → Byte) (tables : HuffTables) (i : ℕ) :
    ∃ tables', initTable histograms tables i = some tables' ∧ TreeFor histograms tables' i ∧
      ∀ j ≠ i, TreeFor histograms tables j → TreeFor histograms tables' j := by
  have hcount (j : ℕ) (hj : j < HUF_TOKENS) :
      (setCounts (tables.huff_nodes i) (fun j => histograms (i * HUF_TOKENS + j)) j).count =
        (histograms (i * HUF_TOKENS + j)).toNat := by
    unfold setCounts
    rw [if_pos hj]
  unfold initTable TreeFor histogramTokens
  rw [← countedTokens_congr hcount]
  generalize setCounts (tables.huff_nodes i) (fun j => histograms (i * HUF_TOKENS + j)) = hnodes at hcount ⊢
  have hbyte (j : ℕ) (hj : j < HUF_TOKENS) : (hnodes j).count ≤ 255 := by
    rw [hcount j hj]
    exact Nat.le_of_lt_succ (BitVec.isLt _)
  obtain ⟨hnodes', root, t, hbuild, htree, hleaves⟩ := huffBuildTree_tree hbyte
  refine ⟨_, by rw [hbuild, Option.map_some], ⟨t, ?_, hleaves⟩, fun j hj htree => ?_⟩
  · dsimp only
    rw [Function.update_self, Function.update_self]
    exact htree
  · dsimp only
    rw [Function.update_of_ne hj, Function.update_of_ne hj]
    exact htree

theorem initTables_trees (histograms : ℕ → Byte) (tables : HuffTables) :
    ∃ tables', initTables histograms tables = some tables' ∧ ∀ i < 256, TreeFor histograms tables' i := by
  have hloop (is : List ℕ) (tables : HuffTables) : ∃ tables', is.foldlM (initTable histograms) tables = some tables' ∧
      ∀ i, i ∈ is ∨ TreeFor histograms tables i → TreeFor histograms tables' i := by
    induction is generalizing tables with
    | nil => exact ⟨tables, rfl, fun i h => h.resolve_left List.not_mem_nil⟩
    | cons j is ih =>
      obtain ⟨tables1, hinit, hnew, hold⟩ := initTable_tree histograms tables j
      obtain ⟨tables', hrest, htrees⟩ := ih tables1
      refine ⟨tables', ?_, fun i h => htrees i ?_⟩
      · rw [List.foldlM_cons, hinit]
        exact hrest
      · by_cases hij : i = j
        · exact .inr (hij ▸ hnew)
        · exact h.imp (List.mem_of_ne_of_mem hij) (hold i hij)
  obtain ⟨tables', hinit, htrees⟩ := hloop (List.range 256) tables
  exact ⟨tables', hinit, fun i hi => htrees i (.inl (List.mem_range.2 hi))⟩

end Xine.Codecs
