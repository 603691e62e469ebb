import Xine.Codecs.IdCinTrees

/-!
# Reading the codes of the Id CIN decoder

`huff_decode` walks down the tree of the token before for each pixel, with the bits that are left of a byte
carried along.
-/

namespace Xine.Codecs

open Octets (Byte)
open PrefixTrees

variable {hnodes : HNodes} {tables : HuffTables} {histograms : ℕ → Byte} {mem data : List Byte}
  {fuel node_num size prev : ℕ} {reader : BitReader} {t : CodeTree ℕ}

/-! ## The reader -/

/-- The bits that are left. -/
def BitReader.bits (reader : BitReader) (mem : List Byte) : List Bool :=
  lowBits reader.bit_pos reader.v ++ bitsOf (mem.drop reader.dat_pos)

/-- The start of the data. -/
def BitReader.start : BitReader := { bit_pos := 0, v := 0, dat_pos := 0 }

/-- A bit is taken. -/
def BitReader.shift (reader : BitReader) : BitReader :=
  { reader with v := reader.v / 2, bit_pos := reader.bit_pos - 1 }

/-- The node that a bit leads to. -/
def huffNext (hnodes : HNodes) (mem : List Byte) (size fuel node_num : ℕ) (reader : BitReader) : Walk :=
  match if reader.v % 2 = 0 then (hnodes node_num).children.1 else (hnodes node_num).children.2 with
  | none => .outside
  | some node_num => huffWalk hnodes mem size fuel node_num reader.shift

theorem huffWalk_node (h : HUF_TOKENS ≤ node_num) : huffWalk hnodes mem size (fuel + 1) node_num reader =
    if reader.bit_pos = 0 then
      if size < reader.dat_pos then .decodeError
      else
        match mem[reader.dat_pos]? with
        | none => .outside
        | some v => huffNext hnodes mem size fuel node_num
            { bit_pos := 8, v := v.toNat, dat_pos := reader.dat_pos + 1 }
    else huffNext hnodes mem size fuel node_num reader := by
  rw [huffWalk, if_neg (Nat.not_lt.2 h)]
  rfl

theorem huffWalk_leaf (h : node_num < HUF_TOKENS) :
    huffWalk hnodes mem size fuel node_num reader = .token node_num reader := by
  unfold huffWalk
  rw [if_pos h]

/-- What a walk over the bits of the data comes to. Without enough of them the memory is left. -/
def Reads (mem : List Byte) (walk : Walk) : Option (ℕ × List Bool) → Prop
  | none => walk = .outside
  | some (token, rest) => ∃ reader, walk = .token token reader ∧ reader.bits mem = rest ∧ reader.dat_pos ≤ mem.length

theorem huffWalk_reads (ht : IsTree hnodes node_num t) (hfuel : (reader.bits mem).length < fuel)
    (hpos : reader.dat_pos ≤ mem.length) :
    Reads mem (huffWalk hnodes mem mem.length fuel node_num reader) (t.walk (reader.bits mem)) := by
  induction ht generalizing fuel reader with
  | token h => exact ⟨reader, huffWalk_leaf h, rfl, hpos⟩
  | @node i child0 child1 zero one hge hroom hchildren hlt0 hlt1 h0 h1 ih0 ih1 =>
    obtain ⟨fuel, rfl⟩ : ∃ n, fuel = n + 1 := Nat.exists_eq_succ_of_ne_zero (Nat.ne_zero_of_lt hfuel)
    -- a bit that is there leads to a child
    have hbit (reader : BitReader) (k : ℕ) (hk : reader.bit_pos = k + 1)
        (hfuel : (reader.bits mem).length < fuel + 1) (hpos : reader.dat_pos ≤ mem.length) :
        Reads mem (huffNext hnodes mem mem.length fuel i reader) ((CodeTree.node zero one).walk (reader.bits mem)) := by
      have hbits : reader.bits mem = decide (reader.v % 2 = 1) :: reader.shift.bits mem := by
        unfold BitReader.bits BitReader.shift
        rw [hk]
        rfl
      rw [hbits] at hfuel ⊢
      have hshift : (reader.shift.bits mem).length < fuel := Nat.lt_of_succ_lt_succ hfuel
      unfold huffNext
      rw [hchildren]
      by_cases hzero : reader.v % 2 = 0
      · have hone : decide (reader.v % 2 = 1) = false := decide_eq_false (by omega)
        rw [if_pos hzero, hone]
        exact ih0 hshift hpos
      · have hone : decide (reader.v % 2 = 1) = true := decide_eq_true (by omega)
        rw [if_neg hzero, hone]
        exact ih1 hshift hpos
    rw [huffWalk_node hge]
    by_cases hempty : reader.bit_pos = 0
    · have hrest : reader.bits mem = bitsOf (mem.drop reader.dat_pos) := by
        unfold BitReader.bits
        rw [hempty]
        rfl
      rw [if_pos hempty, if_neg (Nat.not_lt.2 hpos)]
      obtain hlt | hend := Nat.lt_or_eq_of_le hpos
      · -- the next byte
        have hdrop := List.drop_eq_getElem_cons hlt
        rw [List.getElem?_eq_getElem hlt]
        have hsame : reader.bits mem = BitReader.bits
            { bit_pos := 8, v := mem[reader.dat_pos].toNat, dat_pos := reader.dat_pos + 1 } mem := by
          rw [hrest, hdrop, bitsOf_cons]
          rfl
        rw [hsame] at hfuel ⊢
        exact hbit _ 7 rfl hfuel hlt
      · -- the byte behind the data
        rw [hend, List.getElem?_eq_none (Nat.le_refl _), hrest, hend, List.drop_length]
        rfl
    · obtain ⟨k, hk⟩ := Nat.exists_eq_succ_of_ne_zero hempty
      rw [if_neg hempty]
      exact hbit reader k hk hfuel hpos

/-! ## Frames -/

/-- The trees of all tables. -/
def HuffTables.HasTrees (tables : HuffTables) (trees : ℕ → CodeTree ℕ) : Prop :=
  ∀ i < 256, IsTree (tables.huff_nodes i) (tables.num_huff_nodes i) (trees i)

variable {trees : ℕ → CodeTree ℕ} {n : ℕ}

theorem huffPixels_decode (htrees : tables.HasTrees trees) (yuv_palette : ℕ → Yuv) (hprev : prev < 256)
    (hlength : (reader.bits mem).length < (mem.length + 2) * 8) (hpos : reader.dat_pos ≤ mem.length) :
    huffPixels tables yuv_palette mem mem.length n prev reader =
      (decode trees n prev (reader.bits mem)).map fun r => r.1.map yuv_palette := by
  induction n generalizing prev reader with
  | zero => rfl
  | succ n ih =>
    have hreads := huffWalk_reads (htrees prev hprev) hlength hpos
    rw [huffPixels, decode]
    cases hwalk : (trees prev).walk (reader.bits mem) with
    | none =>
      rw [hwalk] at hreads
      rw [show huffWalk _ _ _ _ _ _ = Walk.outside from hreads]
      rfl
    | some r =>
      obtain ⟨token, rest⟩ := r
      rw [hwalk] at hreads
      obtain ⟨reader', htoken, rfl, hpos'⟩ := hreads
      obtain ⟨path, -, hpath⟩ := CodeTree.path_of_walk hwalk
      have hshorter : (reader'.bits mem).length < (mem.length + 2) * 8 := by
        rw [hpath, List.length_append] at hlength
        exact Nat.lt_of_le_of_lt (Nat.le_add_left _ _) hlength
      rw [htoken]
      dsimp only
      rw [ih (huffWalk_token htoken) hshorter hpos', Option.map_map, Option.map_map]
      rfl

theorem huffPixels_start (htrees : tables.HasTrees trees) (yuv_palette : ℕ → Yuv) :
    huffPixels tables yuv_palette data data.length n 0 .start =
      (decode trees n 0 (bitsOf data)).map fun r => r.1.map yuv_palette := by
  have hbits : BitReader.start.bits data = bitsOf data := rfl
  rw [← hbits]
  refine huffPixels_decode htrees yuv_palette (by decide) ?_ (Nat.zero_le _)
  rw [hbits, length_bitsOf]
  omega

theorem huffWalk_enough (h : reader.bit_pos + 8 * (size + 1 - reader.dat_pos) ≤ fuel) (more : ℕ) :
    huffWalk hnodes mem size (fuel + more) node_num reader = huffWalk hnodes mem size fuel node_num reader := by
  induction fuel generalizing node_num reader with
  | zero =>
    by_cases hleaf : node_num < HUF_TOKENS
    · rw [huffWalk_leaf hleaf, huffWalk_leaf hleaf]
    · -- nothing is left to be read
      cases more with
      | zero => rfl
      | succ more =>
        have hend : reader.bit_pos = 0 ∧ size < reader.dat_pos := by omega
        rw [Nat.zero_add, huffWalk_node (Nat.not_lt.1 hleaf), if_pos hend.1, if_pos hend.2, huffWalk,
          if_neg hleaf]
  | succ fuel ih =>
    by_cases hleaf : node_num < HUF_TOKENS
    · rw [huffWalk_leaf hleaf, huffWalk_leaf hleaf]
    · have hnext (reader : BitReader) (hbit : reader.bit_pos ≠ 0)
          (h : reader.bit_pos + 8 * (size + 1 - reader.dat_pos) ≤ fuel + 1) :
          huffNext hnodes mem size (fuel + more) node_num reader = huffNext hnodes mem size fuel node_num reader := by
        unfold huffNext
        split
        · rfl
        · apply ih
          show reader.bit_pos - 1 + 8 * (size + 1 - reader.dat_pos) ≤ fuel
          omega
      rw [Nat.succ_add, huffWalk_node (Nat.not_lt.1 hleaf), huffWalk_node (Nat.not_lt.1 hleaf)]
      split_ifs with hempty hend
      · rfl
      · split
        · rfl
        · apply hnext
          · exact Nat.succ_ne_zero 7
          · show 8 + 8 * (size + 1 - (reader.dat_pos + 1)) ≤ fuel + 1
            omega
      · exact hnext reader hempty h

/-! ## Round trips -/

/-- A sequence of pixels over the tokens of the histograms, each of which has two tokens or more. -/
def OverTokens (histograms : ℕ → Byte) : ℕ → List ℕ → Prop
  | _, [] => True
  | prev, token :: tokens =>
    2 ≤ (histogramTokens histograms prev).length ∧ token ∈ histogramTokens histograms prev ∧
      OverTokens histograms token tokens

/-- What is right about the tables for a set of histograms and the decoder for these: a full tree over the tokens of a
histogram inside the table, sequences of pixels that are read back from their codes, and walks that end. -/
structure HuffTables.Sound (tables : HuffTables) (histograms : ℕ → Byte) : Prop where
  full : ∀ i < 256, 2 ≤ (histogramTokens histograms i).length →
    ∃ t, IsTree (tables.huff_nodes i) (tables.num_huff_nodes i) t ∧ t.leaves.Perm (histogramTokens histograms i)
  coded : ∀ tokens, OverTokens histograms 0 tokens →
    ∃ trees code, tables.HasTrees trees ∧ Coded trees 0 tokens code
  back : ∀ tokens trees code, OverTokens histograms 0 tokens → tables.HasTrees trees → Coded trees 0 tokens code →
    ∀ yuv_palette, huffPixels tables yuv_palette (packBits code) (packBits code).length tokens.length 0 .start =
      some (tokens.map yuv_palette)
  ends : ∀ prev node_num mem size more, ∀ reader : BitReader, reader.bit_pos ≤ 8 →
    huffWalk (tables.huff_nodes prev) mem size ((size + 2) * 8 + more) node_num reader =
      huffWalk (tables.huff_nodes prev) mem size ((size + 2) * 8) node_num reader

/-- A frame is decoded with the memory of the data only. -/
def HuffTables.ReadsInside (tables : HuffTables) (data : List Byte) (pixels : ℕ) : Prop :=
  ∀ yuv_palette, (huffPixels tables yuv_palette data data.length pixels 0 .start).isSome

/-- The bits of the data begin with the codes of all pixels. -/
def HuffTables.HasCodes (tables : HuffTables) (data : List Byte) (pixels : ℕ) : Prop :=
  ∃ trees tokens code, tables.HasTrees trees ∧ tokens.length = pixels ∧ Coded trees 0 tokens code ∧
    code <+: bitsOf data

theorem readsInside_iff (htrees : tables.HasTrees trees) :
    tables.ReadsInside data n ↔ tables.HasCodes data n := by
  constructor
  · intro h
    obtain ⟨planes, hplanes⟩ := Option.isSome_iff_exists.1 (h fun _ => .zero)
    rw [huffPixels_start htrees] at hplanes
    obtain ⟨⟨tokens, rest⟩, hdecode, -⟩ := Option.map_eq_some_iff.1 hplanes
    obtain ⟨hlength, code, hcoded, hbits⟩ := decode_iff.1 hdecode
    exact ⟨trees, tokens, code, htrees, hlength, hcoded, rest, hbits.symm⟩
  · rintro ⟨trees, tokens, code, htrees, rfl, hcoded, rest, hbits⟩ yuv_palette
    rw [huffPixels_start htrees, ← hbits, hcoded.decode_append]
    rfl

theorem exists_code (htrees : ∀ i < 256, 2 ≤ (histogramTokens histograms i).length →
      (trees i).leaves.Perm (histogramTokens histograms i)) (hprev : prev < 256) {tokens : List ℕ}
    (h : OverTokens histograms prev tokens) : ∃ code, Coded trees prev tokens code := by
  induction tokens generalizing prev with
  | nil => exact ⟨[], .nil prev⟩
  | cons token tokens ih =>
    obtain ⟨htwo, hmem, hrest⟩ := h
    have htoken : token < 256 := lt_of_mem_countedTokens hmem
    obtain ⟨path, hpath⟩ := CodeTree.exists_path ((htrees prev hprev htwo).mem_iff.2 hmem)
    obtain ⟨code, hcode⟩ := ih htoken hrest
    exact ⟨path ++ code, .cons hpath hcode⟩

theorem HuffTables.exists_trees (h : ∀ i < 256, TreeFor histograms tables i) :
    ∃ trees, tables.HasTrees trees ∧ ∀ i < 256, 2 ≤ (histogramTokens histograms i).length →
      (trees i).leaves.Perm (histogramTokens histograms i) := by
  have hall (i : ℕ) : ∃ t, i < 256 → IsTree (tables.huff_nodes i) (tables.num_huff_nodes i) t ∧
      (2 ≤ (histogramTokens histograms i).length → t.leaves.Perm (histogramTokens histograms i)) := by
    by_cases hi : i < 256
    · obtain ⟨t, ht⟩ := h i hi
      exact ⟨t, fun _ => ht⟩
    · exact ⟨.leaf 0, fun hlt => absurd hlt hi⟩
  choose trees htrees using hall
  exact ⟨trees, fun i hi => (htrees i hi).1, fun i hi => (htrees i hi).2⟩

theorem HuffTables.sound (h : ∀ i < 256, TreeFor histograms tables i) : tables.Sound histograms where
  full i hi htwo := by
    obtain ⟨t, ht, hleaves⟩ := h i hi
    exact ⟨t, ht, hleaves htwo⟩
  coded tokens htokens := by
    obtain ⟨trees, htrees, hleaves⟩ := HuffTables.exists_trees h
    obtain ⟨code, hcode⟩ := exists_code hleaves (by decide) htokens
    exact ⟨trees, code, htrees, hcode⟩
  back tokens trees code _ htrees hcode yuv_palette := by
    obtain ⟨rest, hbits⟩ := prefix_bitsOf_packBits code
    rw [huffPixels_start htrees, ← hbits, hcode.decode_append]
    rfl
  ends prev node_num mem size more reader hbit := huffWalk_enough (by omega) more

/-- For each set of histograms, data and number of pixels, the tables are built with the right trees, sequences of
pixels are read back from their codes, and the frame is decoded with the data only, if and only if the bits of the
data begin with the codes of all pixels. -/
theorem huffDecode_inside_iff (tables : HuffTables) (histograms : ℕ → Byte) (data : List Byte) (pixels : ℕ) :
    (∃ built, initTables histograms tables = some built ∧ built.Sound histograms ∧ built.ReadsInside data pixels) ↔
      ∃ built, initTables histograms tables = some built ∧ built.HasCodes data pixels := by
  obtain ⟨built, hinit, htree⟩ := initTables_trees histograms tables
  obtain ⟨trees, htrees, -⟩ := HuffTables.exists_trees htree
  have hiff : built.ReadsInside data pixels ↔ built.HasCodes data pixels := readsInside_iff htrees
  constructor
  · rintro ⟨built', hinit', -, hreads⟩
    obtain rfl := Option.some.inj (hinit.symm.trans hinit')
    exact ⟨built, hinit, hiff.1 hreads⟩
  · rintro ⟨built', hinit', hcodes⟩
    obtain rfl := Option.some.inj (hinit.symm.trans hinit')
    exact ⟨built, hinit, HuffTables.sound htree, hiff.2 hcodes⟩

/-- Histograms with all tokens, a frame with a pixel, and no data: the byte behind the data is read. -/
theorem huffDecode_outside : ¬∃ built, initTables (fun _ => 1) .zero = some built ∧ built.Sound (fun _ => 1) ∧
    built.ReadsInside [] 1 := by
  rintro ⟨built, -, hsound, hreads⟩
  have htokens : histogramTokens (fun _ => 1) 0 = List.range HUF_TOKENS :=
    List.filter_eq_self.2 fun _ _ => rfl
  have hlength : (histogramTokens (fun _ => 1) 0).length = HUF_TOKENS := by
    rw [htokens, List.length_range]
  have htwo : 2 ≤ HUF_TOKENS := by decide
  obtain ⟨t, ht, hleaves⟩ := hsound.full 0 (by decide) (hlength ▸ htwo)
  have hroot := ht.tokens_le ((hleaves.length_eq.trans hlength) ▸ htwo)
  have hplanes := hreads fun _ => .zero
  rw [huffPixels, List.length_nil, huffWalk_node hroot] at hplanes
  exact Bool.false_ne_true hplanes

end Xine.Codecs
