import Xine.Codecs.IdCin

/-!
# The Huffman tables of the Id CIN decoder

The tables of a header depend on its histograms only, whatever was in the nodes before: building a tree and
walking down it read only nodes that this build has written.
-/

namespace Xine.Codecs

open Octets (Byte)

variable {hnodes hnodes' : HNodes} {num fuel node_num size : ℕ} {mem : List Byte} {reader : BitReader}

/-- Both tables have the same tokens. -/
def SameCounts (hnodes hnodes' : HNodes) : Prop := ∀ j < HUF_TOKENS, (hnodes j).count = (hnodes' j).count

/-- A node is the same as far as it is read, and its children are before it. -/
def SameNode (j : ℕ) (node node' : HNode) : Prop :=
  node.count = node'.count ∧ node.used = node'.used ∧
    (HUF_TOKENS ≤ j → node.children = node'.children ∧
      ∃ child0 < j, ∃ child1 < j, node.children = (some child0, some child1))

/-- The first nodes are the same. -/
def SameNodes (num : ℕ) (hnodes hnodes' : HNodes) : Prop :=
  ∀ j < num, SameNode j (hnodes j) (hnodes' j)

/-! ## Building -/

theorem scanNodes_congr (nodes : List ℕ) (best : ℕ × Option ℕ)
    (hsame : ∀ i ∈ nodes, (hnodes i).count = (hnodes' i).count ∧ (hnodes i).used = (hnodes' i).used) :
    scanNodes hnodes nodes best = scanNodes hnodes' nodes best := by
  unfold scanNodes
  apply List.foldl_ext
  intro best i hi
  rw [(hsame i hi).1, (hsame i hi).2]

theorem scanNodes_mem (nodes : List ℕ) (best : ℕ × Option ℕ) {i : ℕ}
    (h : (scanNodes hnodes nodes best).2 = some i) : best.2 = some i ∨ i ∈ nodes := by
  induction nodes generalizing best with
  | nil => exact .inl h
  | cons node nodes ih =>
    rcases ih _ h with hbest | hmem
    · -- The best node of the rest is the best one so far, or this one.
      dsimp only at hbest
      split at hbest
      · exact .inl hbest
      · split at hbest
        · exact .inl hbest
        · split at hbest
          · cases hbest
            exact .inr List.mem_cons_self
          · exact .inl hbest
    · exact .inr (List.mem_cons_of_mem _ hmem)

theorem SameNodes.update {i : ℕ} {node node' : HNode} (h : SameNodes num hnodes hnodes')
    (hnode : i < num → SameNode i node node') :
    SameNodes num (Function.update hnodes i node) (Function.update hnodes' i node') := by
  intro j hj
  by_cases hji : j = i
  · subst hji
    rw [Function.update_self, Function.update_self]
    exact hnode hj
  · rw [Function.update_of_ne hji, Function.update_of_ne hji]
    exact h j hj

theorem SameNodes.push {node node' : HNode} (h : SameNodes num hnodes hnodes')
    (hnode : SameNode num node node') :
    SameNodes (num + 1) (Function.update hnodes num node) (Function.update hnodes' num node') := by
  intro j hj
  rcases Nat.lt_succ_iff_lt_or_eq.1 hj with hlt | rfl
  · exact h.update (fun hlt => absurd hlt (Nat.lt_irrefl num)) j hlt
  · rw [Function.update_self, Function.update_self]
    exact hnode

theorem smallest_same (h : SameNodes num hnodes hnodes') :
    (huffSmallestNode hnodes num).1 = (huffSmallestNode hnodes' num).1 ∧
    SameNodes num (huffSmallestNode hnodes num).2 (huffSmallestNode hnodes' num).2 ∧
    (∀ i, (huffSmallestNode hnodes num).1 = some i → i < num) := by
  have hscan : scanNodes hnodes (List.range num) (99999999, none) =
      scanNodes hnodes' (List.range num) (99999999, none) := by
    apply scanNodes_congr
    intro i hi
    obtain ⟨hcount, hused, -⟩ := h i (List.mem_range.1 hi)
    exact ⟨hcount, hused⟩
  have hlt : ∀ i, (scanNodes hnodes (List.range num) (99999999, none)).2 = some i → i < num := by
    intro i hi
    rcases scanNodes_mem _ _ hi with hnone | hmem
    · cases hnone
    · exact List.mem_range.1 hmem
  unfold huffSmallestNode
  rw [← hscan]
  generalize (scanNodes hnodes (List.range num) (99999999, none)).2 = best at hlt
  cases best with
  | none => exact ⟨rfl, h, fun _ hi => absurd hi (Option.some_ne_none _).symm⟩
  | some best =>
    refine ⟨rfl, h.update fun hbest => ?_, hlt⟩
    obtain ⟨hcount, -, hchildren⟩ := h best hbest
    exact ⟨hcount, rfl, hchildren⟩

theorem smallest_frame (hnodes : HNodes) (num : ℕ) :
    (∀ j, ((huffSmallestNode hnodes num).2 j).count = (hnodes j).count) ∧
    (∀ j, num ≤ j → (huffSmallestNode hnodes num).2 j = hnodes j) := by
  have hlt : ∀ i, (scanNodes hnodes (List.range num) (99999999, none)).2 = some i → i < num := by
    intro i hi
    rcases scanNodes_mem _ _ hi with hnone | hmem
    · cases hnone
    · exact List.mem_range.1 hmem
  unfold huffSmallestNode
  generalize (scanNodes hnodes (List.range num) (99999999, none)).2 = best at hlt
  cases best with
  | none => exact ⟨fun _ => rfl, fun _ _ => rfl⟩
  | some best =>
    constructor
    · intro j
      dsimp only
      by_cases hj : j = best
      · rw [hj, Function.update_self]
      · rw [Function.update_of_ne hj]
    · intro j hj
      exact Function.update_of_ne (Nat.ne_of_gt (Nat.lt_of_lt_of_le (hlt best rfl) hj)) _ _

theorem buildLoop_same (fuel : ℕ) (h : SameNodes num hnodes hnodes') (hnum : HUF_TOKENS ≤ num)
    (hfresh : ∀ j, num ≤ j → j < num + fuel → (hnodes j).used = (hnodes' j).used) :
    Option.Rel (fun r r' => r.2 = r'.2 ∧ SameNodes (r.2 + 1) r.1 r'.1 ∧ SameCounts r.1 hnodes)
      (buildLoop fuel hnodes num) (buildLoop fuel hnodes' num) := by
  induction fuel generalizing hnodes hnodes' num with
  | zero => exact .none
  | succ fuel ih =>
    have hge : 256 ≤ num := hnum
    have hstop : num - 1 + 1 = num := by omega
    have hnot : ∀ {p : Prop}, num < num → p := fun hlt => absurd hlt (Nat.lt_irrefl num)
    have htoken : ∀ j < HUF_TOKENS, j ≠ num := fun j hj => Nat.ne_of_lt (Nat.lt_of_lt_of_le hj hnum)
    obtain ⟨hfirst, hsame, hlt⟩ := smallest_same h
    obtain ⟨hcount, hbehind⟩ := smallest_frame hnodes num
    obtain ⟨-, hbehind'⟩ := smallest_frame hnodes' num
    unfold buildLoop
    generalize huffSmallestNode hnodes num = left at hfirst hsame hlt hcount hbehind
    generalize huffSmallestNode hnodes' num = right at hfirst hsame hbehind'
    obtain ⟨first, left⟩ := left
    obtain ⟨first', right⟩ := right
    obtain rfl : first = first' := hfirst
    dsimp only at hsame hlt hcount hbehind hbehind' ⊢
    cases first with
    | none =>
      refine .some ⟨rfl, ?_, ?_⟩
      · rw [hstop]
        exact hsame.update hnot
      · intro j hj
        show (Function.update left num _ j).count = _
        rw [Function.update_of_ne (htoken j hj), hcount]
    | some child0 =>
      -- The first child is stored in the new node, which is not one of those that are looked at.
      have hstored : SameNodes num (Function.update left num
          { left num with children := (some child0, (left num).children.2) })
          (Function.update right num
            { right num with children := (some child0, (right num).children.2) }) := hsame.update hnot
      have hstored_count : ∀ j < HUF_TOKENS, (Function.update left num
          { left num with children := (some child0, (left num).children.2) } j).count =
            (hnodes j).count := by
        intro j hj
        rw [Function.update_of_ne (htoken j hj), hcount]
      have hstored_used : ∀ j, num ≤ j → j < num + (fuel + 1) → (Function.update left num
          { left num with children := (some child0, (left num).children.2) } j).used =
            (Function.update right num
              { right num with children := (some child0, (right num).children.2) } j).used := by
        intro j hj hjfuel
        by_cases hjn : j = num
        · subst hjn
          rw [Function.update_self, Function.update_self, hbehind j hj, hbehind' j hj]
          exact hfresh j hj hjfuel
        · rw [Function.update_of_ne hjn, Function.update_of_ne hjn, hbehind j hj, hbehind' j hj]
          exact hfresh j hj hjfuel
      generalize Function.update left num _ = left at hstored hstored_count hstored_used ⊢
      generalize Function.update right num _ = right at hstored hstored_used ⊢
      obtain ⟨hsecond, hsame, hlt'⟩ := smallest_same hstored
      obtain ⟨hcount, hbehind⟩ := smallest_frame left num
      obtain ⟨-, hbehind'⟩ := smallest_frame right num
      generalize huffSmallestNode left num = left' at hsecond hsame hlt' hcount hbehind
      generalize huffSmallestNode right num = right' at hsecond hsame hbehind'
      obtain ⟨second, left'⟩ := left'
      obtain ⟨second', right'⟩ := right'
      obtain rfl : second = second' := hsecond
      dsimp only at hsame hlt' hcount hbehind hbehind' ⊢
      cases second with
      | none =>
        refine .some ⟨rfl, ?_, ?_⟩
        · rw [hstop]
          exact hsame.update hnot
        · intro j hj
          show (Function.update left' num _ j).count = _
          rw [Function.update_of_ne (htoken j hj), hcount, hstored_count j hj]
      | some child1 =>
        have h0 : child0 < num := hlt child0 rfl
        have h1 : child1 < num := hlt' child1 rfl
        have hused : (left' num).used = (right' num).used := by
          rw [hbehind num (Nat.le_refl num), hbehind' num (Nat.le_refl num)]
          exact hstored_used num (Nat.le_refl num) (by omega)
        dsimp only
        rw [Function.update_of_ne (Nat.ne_of_lt h0), Function.update_of_ne (Nat.ne_of_lt h1),
          Function.update_of_ne (Nat.ne_of_lt h0), Function.update_of_ne (Nat.ne_of_lt h1),
          Function.update_idem, Function.update_idem]
        -- The new node is the same in both tables.
        have hnode : SameNode num
            { left' num with
              children := (some child0, some child1)
              count := (left' child0).count + (left' child1).count }
            { right' num with
              children := (some child0, some child1)
              count := (right' child0).count + (right' child1).count } := by
          refine ⟨?_, hused, fun _ => ⟨rfl, child0, h0, child1, h1, rfl⟩⟩
          rw [(hsame child0 h0).1, (hsame child1 h1).1]
        have hrest := ih (hsame.push hnode) (Nat.le_succ_of_le hnum) (by
          intro j hj hjfuel
          have hjn : j ≠ num := by omega
          rw [Function.update_of_ne hjn, Function.update_of_ne hjn, hbehind j (by omega),
            hbehind' j (by omega)]
          exact hstored_used j (by omega) (by omega))
        have hkept : ∀ j < HUF_TOKENS, (Function.update left' num { left' num with
            children := (some child0, some child1)
            count := (left' child0).count + (left' child1).count } j).count = (hnodes j).count := by
          intro j hj
          rw [Function.update_of_ne (htoken j hj), hcount, hstored_count j hj]
        generalize buildLoop fuel _ (num + 1) = built at hrest ⊢
        generalize buildLoop fuel _ (num + 1) = built' at hrest ⊢
        cases hrest with
        | none => exact .none
        | some hr => exact .some ⟨hr.1, hr.2.1, fun j hj => (hr.2.2 j hj).trans (hkept j hj)⟩

theorem huffBuildTree_same (h : SameCounts hnodes hnodes') :
    Option.Rel (fun r r' => r.2 = r'.2 ∧ SameNodes (r.2 + 1) r.1 r'.1 ∧ SameCounts r.1 hnodes)
      (huffBuildTree hnodes) (huffBuildTree hnodes') := by
  unfold huffBuildTree
  have hreset : SameNodes HUF_TOKENS
      (fun i => if i < HUF_TOKENS * 2 then { hnodes i with used := false } else hnodes i)
      (fun i => if i < HUF_TOKENS * 2 then { hnodes' i with used := false } else hnodes' i) := by
    intro j hj
    have hlt : j < HUF_TOKENS * 2 := by omega
    dsimp only
    rw [if_pos hlt, if_pos hlt]
    exact ⟨h j hj, rfl, fun hge => absurd hj (Nat.not_lt.2 hge)⟩
  have hbuilt := buildLoop_same HUF_TOKENS hreset (Nat.le_refl HUF_TOKENS) (by
    intro j _ hj
    have hlt : j < HUF_TOKENS * 2 := by omega
    dsimp only
    rw [if_pos hlt, if_pos hlt])
  have hkept : ∀ j < HUF_TOKENS,
      (if j < HUF_TOKENS * 2 then { hnodes j with used := false } else hnodes j).count =
        (hnodes j).count := by
    intro j hj
    rw [if_pos (by omega)]
  generalize buildLoop HUF_TOKENS _ HUF_TOKENS = built at hbuilt ⊢
  generalize buildLoop HUF_TOKENS _ HUF_TOKENS = built' at hbuilt ⊢
  cases hbuilt with
  | none => exact .none
  | some hr => exact .some ⟨hr.1, hr.2.1, fun j hj => (hr.2.2 j hj).trans (hkept j hj)⟩

/-! ## Decoding -/

theorem walkDown_same {child0 child1 : ℕ} (reader : BitReader)
    (h0 : ∀ reader, huffWalk hnodes mem size fuel child0 reader =
      huffWalk hnodes' mem size fuel child0 reader)
    (h1 : ∀ reader, huffWalk hnodes mem size fuel child1 reader =
      huffWalk hnodes' mem size fuel child1 reader) :
    (match if reader.v % 2 = 0 then some child0 else some child1 with
      | none => Walk.outside
      | some node_num => huffWalk hnodes mem size fuel node_num
          { reader with v := reader.v / 2, bit_pos := reader.bit_pos - 1 }) =
    (match if reader.v % 2 = 0 then some child0 else some child1 with
      | none => Walk.outside
      | some node_num => huffWalk hnodes' mem size fuel node_num
          { reader with v := reader.v / 2, bit_pos := reader.bit_pos - 1 }) := by
  by_cases hbit : reader.v % 2 = 0
  · rw [if_pos hbit]
    exact h0 _
  · rw [if_neg hbit]
    exact h1 _

theorem huffWalk_same (h : SameNodes (num + 1) hnodes hnodes') (hnode : node_num ≤ num) :
    huffWalk hnodes mem size fuel node_num reader = huffWalk hnodes' mem size fuel node_num reader := by
  induction fuel generalizing node_num reader with
  | zero =>
    unfold huffWalk
    rfl
  | succ fuel ih =>
    unfold huffWalk
    split
    · rfl
    · rename_i hinner
      obtain ⟨-, -, hchildren⟩ := h node_num (Nat.lt_succ_of_le hnode)
      obtain ⟨heq, child0, h0, child1, h1, hsome⟩ := hchildren (Nat.not_lt.1 hinner)
      have hdown (reader : BitReader) := walkDown_same reader
        (fun _ => ih (show child0 ≤ num by omega)) (fun _ => ih (show child1 ≤ num by omega))
      rw [← heq, hsome]
      dsimp only
      split
      · split
        · rfl
        · split
          · rfl
          · rename_i v _
            exact hdown { bit_pos := 8, v := v.toNat, dat_pos := reader.dat_pos + 1 }
      · exact hdown reader

theorem huffWalk_token {token : ℕ} {reader' : BitReader}
    (h : huffWalk hnodes mem size fuel node_num reader = .token token reader') : token < HUF_TOKENS := by
  induction fuel generalizing node_num reader with
  | zero =>
    unfold huffWalk at h
    split at h
    · obtain ⟨rfl, -⟩ := Walk.token.inj h
      assumption
    · cases h
  | succ fuel ih =>
    unfold huffWalk at h
    split at h
    · obtain ⟨rfl, -⟩ := Walk.token.inj h
      assumption
    · dsimp only at h
      split at h
      · split at h
        · cases h
        · split at h
          · cases h
          · split at h
            · cases h
            · exact ih h
      · split at h
        · cases h
        · exact ih h

/-- The tree of a table was built, from some nodes with the counts that the table has. -/
def BuiltAt (tables : HuffTables) (i : ℕ) : Prop :=
  ∃ hnodes, huffBuildTree hnodes = some (tables.huff_nodes i, tables.num_huff_nodes i) ∧
    SameCounts hnodes (tables.huff_nodes i)

/-- The trees of all tables were built. -/
def Built (tables : HuffTables) : Prop := ∀ i < 256, BuiltAt tables i

/-- The counts of all tables are the same: the tables are those of the same histograms. -/
def SameHistograms (tables tables' : HuffTables) : Prop :=
  ∀ i < 256, SameCounts (tables.huff_nodes i) (tables'.huff_nodes i)

variable {tables tables' : HuffTables}

theorem built_same (h : Built tables) (h' : Built tables') (hsame : SameHistograms tables tables')
    {i : ℕ} (hi : i < 256) : tables.num_huff_nodes i = tables'.num_huff_nodes i ∧
      SameNodes (tables.num_huff_nodes i + 1) (tables.huff_nodes i) (tables'.huff_nodes i) := by
  obtain ⟨hnodes, hbuild, hcounts⟩ := h i hi
  obtain ⟨hnodes', hbuild', hcounts'⟩ := h' i hi
  have hstart : SameCounts hnodes hnodes' := by
    intro j hj
    rw [hcounts j hj, hsame i hi j hj, hcounts' j hj]
  have hboth := huffBuildTree_same hstart
  rw [hbuild, hbuild'] at hboth
  cases hboth with
  | some hr => exact ⟨hr.1, hr.2.1⟩

theorem huffPixels_same (h : Built tables) (h' : Built tables') (hsame : SameHistograms tables tables')
    (yuv_palette : ℕ → Yuv) (pixels : ℕ) {prev : ℕ} (hprev : prev < 256) (reader : BitReader) :
    huffPixels tables yuv_palette mem size pixels prev reader =
      huffPixels tables' yuv_palette mem size pixels prev reader := by
  induction pixels generalizing prev reader with
  | zero => rfl
  | succ pixels ih =>
    obtain ⟨hnum, hnodes⟩ := built_same h h' hsame hprev
    unfold huffPixels
    rw [← hnum, ← huffWalk_same hnodes (Nat.le_refl _)]
    split
    · rename_i token reader' hwalk
      rw [ih (huffWalk_token hwalk)]
    · rfl
    · rfl

/-! ## Headers -/

theorem builtAt_of_build {i : ℕ}
    (h : huffBuildTree hnodes = some (tables.huff_nodes i, tables.num_huff_nodes i)) :
    BuiltAt tables i := by
  have hsame : SameCounts hnodes hnodes := fun _ _ => rfl
  have hself := huffBuildTree_same hsame
  rw [h] at hself
  cases hself with
  | some hr => exact ⟨hnodes, h, fun j hj => (hr.2.2 j hj).symm⟩

theorem builtAt_congr {i : ℕ} (h : BuiltAt tables i) (hnodes : tables'.huff_nodes i = tables.huff_nodes i)
    (hnum : tables'.num_huff_nodes i = tables.num_huff_nodes i) : BuiltAt tables' i := by
  unfold BuiltAt
  rw [hnodes, hnum]
  exact h

theorem initTable_built {histograms : ℕ → Byte} {i : ℕ}
    (h : initTable histograms tables i = some tables') :
    BuiltAt tables' i ∧ ∀ j ≠ i, tables'.huff_nodes j = tables.huff_nodes j ∧
      tables'.num_huff_nodes j = tables.num_huff_nodes j := by
  unfold initTable at h
  obtain ⟨⟨nodes, root⟩, hbuild, rfl⟩ := Option.map_eq_some_iff.1 h
  constructor
  · apply builtAt_of_build
    dsimp only
    rw [Function.update_self, Function.update_self]
    exact hbuild
  · intro j hj
    exact ⟨Function.update_of_ne hj _ _, Function.update_of_ne hj _ _⟩

theorem initTable_isSome (histograms : ℕ → Byte) (tables tables' : HuffTables) (i : ℕ) :
    (initTable histograms tables i).isSome = (initTable histograms tables' i).isSome := by
  have hcounts : SameCounts
      (setCounts (tables.huff_nodes i) fun j => histograms (i * HUF_TOKENS + j))
      (setCounts (tables'.huff_nodes i) fun j => histograms (i * HUF_TOKENS + j)) := by
    intro j hj
    unfold setCounts
    rw [if_pos hj, if_pos hj]
  have hboth := huffBuildTree_same hcounts
  unfold initTable
  rw [Option.isSome_map, Option.isSome_map]
  generalize huffBuildTree (setCounts (tables.huff_nodes i) _) = left at hboth ⊢
  generalize huffBuildTree (setCounts (tables'.huff_nodes i) _) = right at hboth ⊢
  cases hboth with
  | none => rfl
  | some _ => rfl

theorem initLoop_isSome (histograms : ℕ → Byte) (is : List ℕ) (tables tables' : HuffTables) :
    (is.foldlM (initTable histograms) tables).isSome =
      (is.foldlM (initTable histograms) tables').isSome := by
  induction is generalizing tables tables' with
  | nil => rfl
  | cons i is ih =>
    have hone := initTable_isSome histograms tables tables' i
    rw [List.foldlM_cons, List.foldlM_cons]
    generalize initTable histograms tables i = left at hone
    generalize initTable histograms tables' i = right at hone
    cases left with
    | none =>
      cases right with
      | none => rfl
      | some _ => cases hone
    | some built =>
      cases right with
      | none => cases hone
      | some built' => exact ih built built'

theorem initLoop_built {histograms : ℕ → Byte} {is : List ℕ}
    (h : is.foldlM (initTable histograms) tables = some tables') {i : ℕ}
    (hi : i ∈ is ∨ BuiltAt tables i) : BuiltAt tables' i := by
  induction is generalizing tables with
  | nil =>
    cases h
    exact hi.resolve_left List.not_mem_nil
  | cons j is ih =>
    rw [List.foldlM_cons] at h
    obtain ⟨built, hone, hrest⟩ := Option.bind_eq_some_iff.1 h
    obtain ⟨hbuilt, hothers⟩ := initTable_built hone
    apply ih hrest
    by_cases hij : i = j
    · exact .inr (hij ▸ hbuilt)
    · obtain ⟨hnodes, hnum⟩ := hothers i hij
      rcases hi with hmem | hat
      · exact .inl ((List.mem_cons.1 hmem).resolve_left hij)
      · exact .inr (builtAt_congr hat hnodes hnum)

theorem initTables_isSome (histograms : ℕ → Byte) (tables tables' : HuffTables) :
    (initTables histograms tables).isSome = (initTables histograms tables').isSome :=
  initLoop_isSome histograms (List.range 256) tables tables'

theorem initTables_built {histograms : ℕ → Byte} (h : initTables histograms tables = some tables') :
    Built tables' :=
  fun _ hi => initLoop_built h (.inl (List.mem_range.2 hi))

/-! ## Steps -/

variable {compute : Compute} {this this' : IdcinDecoder} {buf : BufElement} {frames : List (Frame (List Yuv))}

/-- What a step needs: a frame with pixels is decoded with the tables of the same histograms. -/
def IdcinAgree (tables tables' : HuffTables) (this : IdcinDecoder) (buf : BufElement) : Prop :=
  buf.preview = false → buf.header = false → this.decoder_ok = true → buf.frame_end = true →
    0 < this.width * this.height → SameHistograms tables tables'

/-- The tables were built once there is a header. -/
def IdcinInv (tables : HuffTables) (this : IdcinDecoder) : Prop := this.decoder_ok = true → Built tables

theorem idcinHeader_same :
    SameResult (idcinHeader tables this buf) (idcinHeader tables' this buf) := by
  unfold idcinHeader
  split
  · exact .none
  · have hboth := initTables_isSome (fun i => buf.content.getD (BMIHEADER_SIZE + i) 0) tables tables'
    generalize initTables _ tables = left at hboth ⊢
    generalize initTables _ tables' = right at hboth ⊢
    cases left with
    | none =>
      cases right with
      | none => exact .none
      | some _ => cases hboth
    | some built =>
      cases right with
      | none => cases hboth
      | some built' => exact .some rfl

theorem idcinData_same (h : Built tables) (h' : Built tables')
    (hagree : buf.frame_end = true → 0 < this.width * this.height → SameHistograms tables tables') :
    SameResult (idcinData tables this buf) (idcinData tables' this buf) := by
  unfold idcinData
  split
  · exact .none
  · dsimp only
    split
    · rename_i hend
      unfold huffDecode
      dsimp only
      rcases Nat.eq_zero_or_pos (this.width * this.height) with hzero | hpos
      · rw [hzero]
        exact .some rfl
      · rw [huffPixels_same h h' (hagree hend hpos) _ _ (by decide)]
        generalize huffPixels tables' _ _ _ _ _ _ = pixels
        cases pixels with
        | none => exact .none
        | some pixels => exact .some rfl
    · exact .some rfl

theorem idcin_same (h : IdcinInv tables this) (h' : IdcinInv tables' this)
    (hagree : IdcinAgree tables tables' this buf) :
    SameResult (idcinvideoDecodeData compute tables this buf)
      (idcinvideoDecodeData compute tables' this buf) := by
  unfold idcinvideoDecodeData
  split
  · exact .some rfl
  · rename_i hpreview
    cases updatePalette compute buf this.yuv_palette with
    | none => exact .none
    | some yuv_palette =>
      dsimp only [Option.bind_some]
      split
      · exact idcinHeader_same
      · rename_i hheader
        split
        · rename_i hok
          exact idcinData_same (h hok) (h' hok) fun hend hpos =>
            hagree (Bool.eq_false_iff.2 hpreview) (Bool.eq_false_iff.2 hheader) hok hend hpos
        · exact .some rfl

theorem idcinHeader_tables (h : idcinHeader tables this buf = some (tables', this', frames)) :
    Built tables' := by
  unfold idcinHeader at h
  split at h
  · cases h
  · obtain ⟨built, hbuilt, heq⟩ := Option.map_eq_some_iff.1 h
    cases heq
    exact initTables_built hbuilt

theorem idcinData_tables (h : idcinData tables this buf = some (tables', this', frames)) :
    tables' = tables ∧ this'.decoder_ok = this.decoder_ok := by
  unfold idcinData at h
  split at h
  · cases h
  · dsimp only at h
    split at h
    · obtain ⟨decoded, hdecoded, heq⟩ := Option.map_eq_some_iff.1 h
      cases heq
      obtain ⟨pixels, -, rfl⟩ := Option.map_eq_some_iff.1 hdecoded
      exact ⟨rfl, rfl⟩
    · cases h
      exact ⟨rfl, rfl⟩

theorem idcin_tables (h : idcinvideoDecodeData compute tables this buf = some (tables', this', frames)) :
    Built tables' ∨ tables' = tables ∧ this'.decoder_ok = this.decoder_ok := by
  unfold idcinvideoDecodeData at h
  split at h
  · cases h
    exact .inr ⟨rfl, rfl⟩
  · obtain ⟨yuv_palette, -, h⟩ := Option.bind_eq_some_iff.1 h
    dsimp only at h
    split at h
    · exact .inl (idcinHeader_tables h)
    · split at h
      · have hdata := idcinData_tables h
        exact .inr hdata
      · cases h
        exact .inr ⟨rfl, rfl⟩

/-- Id CIN decoders. -/
def idcinClass (compute : Compute) : Instances.Component where
  Statics := HuffTables
  State := IdcinDecoder
  Input := BufElement
  Output := Frame (List Yuv)
  statics := .zero
  opened := .opened
  step := idcinvideoDecodeData compute

def idcinSpec (compute : Compute) : (idcinClass compute).Spec where
  Agree := IdcinAgree
  Inv := IdcinInv
  opened := fun hok => absurd hok Bool.false_ne_true
  own := by
    intro tables tables' this this' buf frames hinv hstep hok
    rcases idcin_tables hstep with hbuilt | ⟨htables, hkept⟩
    · exact hbuilt
    · rw [htables]
      exact hinv (hkept.symm.trans hok)
  other := by
    intro tables tables' this other other' buf frames hinv hstep hok
    rcases idcin_tables hstep with hbuilt | ⟨htables, -⟩
    · exact hbuilt
    · rw [htables]
      exact hinv hok
  agree := fun hinv hinv' h => (idcin_same hinv hinv' h).exists_some

end Xine.Codecs
