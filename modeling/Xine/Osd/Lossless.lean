import Xine.Library.RunLength
import Xine.Osd.Boxes

/-!
# What `osd_show` shows

The rectangle that has changed is shown with its last column and its last row, but the area ends before the column
`width` and the row `height`: a point, a text and a rectangle that reach the right or the lower edge make
`osd_show` read behind the area.
-/

namespace Xine.Osd

open RunLength (expand runsFrom weight Short)

/-! ## The runs of the lines -/

/-- A run as a pair. -/
def RleElem.run (rle : RleElem) : ℕ × ℕ := (rle.len, rle.color)

/-- The pixels that runs stand for. -/
def expandRow (row : List RleElem) : List ℕ := row.flatMap fun rle => List.replicate rle.len rle.color

theorem expandRow_eq (row : List RleElem) : expandRow row = expand (row.map RleElem.run) := by
  unfold expandRow expand
  rw [List.flatMap_map]
  rfl

theorem sum_len_eq (row : List RleElem) : (row.map RleElem.len).sum = weight (row.map RleElem.run) := by
  unfold weight
  rw [List.map_map]
  rfl

theorem Show.write_pixels (spare : ℤ) (pixels : List ℕ) (s : Show) :
    (pixels.foldl (Show.pixel spare) s).write.elements.map RleElem.run =
      s.elements.map RleElem.run ++ runsFrom 65536 s.rle.run pixels := by
  induction pixels generalizing s with
  | nil =>
    unfold Show.write
    rw [List.map_append]
    rfl
  | cons c pixels ih =>
    rw [List.foldl_cons, ih]
    by_cases hsame : s.rle.color = c
    · have hpixel : s.pixel spare c = { s with rle := { s.rle with len := (s.rle.len + 1) % 65536 } } :=
        if_neg (not_not.2 hsame)
      rw [hpixel, RunLength.runsFrom_same hsame]
      rfl
    · have hne : s.rle.run.2 ≠ c := hsame
      rw [RunLength.runsFrom_ne hne, ← List.append_assoc]
      unfold Show.pixel RunLength.emit
      rw [if_pos hsame]
      by_cases hlen : s.rle.len = 0
      · have hzero : ¬s.rle.run.1 ≠ 0 := not_not.2 hlen
        rw [if_neg hzero, List.append_nil]
        simp only [hlen, ne_eq, not_true_eq_false, if_false]
        rfl
      · have hrun : s.rle.run.1 ≠ 0 := hlen
        have hgrow : (s.grow spare).elements = s.elements ∧ (s.grow spare).rle = s.rle := by
          unfold Show.grow
          split_ifs
          · exact ⟨rfl, rfl⟩
          · exact ⟨rfl, rfl⟩
        rw [if_pos hrun]
        simp only [hlen, ne_eq, not_false_eq_true, if_true]
        unfold Show.write
        dsimp only
        rw [hgrow.1, hgrow.2, List.map_append]
        rfl

theorem Show.elements_lines (spare : ℤ) (lines : List (List ℕ)) (s : Show) :
    (lines.foldl (Show.line spare) s).elements.map RleElem.run =
      s.elements.map RleElem.run ++ lines.flatMap (runsFrom 65536 (0, 0)) := by
  induction lines generalizing s with
  | nil => rw [List.foldl_nil, List.flatMap_nil, List.append_nil]
  | cons pixels lines ih =>
    rw [List.foldl_cons, ih, List.flatMap_cons, ← List.append_assoc]
    congr 1
    exact Show.write_pixels spare pixels { s with rle := { len := 0, color := 0 } }

theorem osdShow_elements {osd : OsdObject} {s : Show} (h : osd.osdShow = some s) :
    s.elements.map RleElem.run = osd.clamp.lines.flatMap (runsFrom 65536 (0, 0)) := by
  unfold OsdObject.osdShow at h
  split_ifs at h with hdrawn
  rw [← Option.some.inj h, Show.elements_lines]
  rfl

theorem osdShow_rows_iff {osd : OsdObject} {s : Show} (h : osd.osdShow = some s) :
    (∃ rows : List (List RleElem), rows.flatten = s.elements ∧ rows.map expandRow = osd.clamp.lines) ↔
      ∀ line ∈ osd.clamp.lines, Short 65536 line := by
  rw [← RunLength.rows_iff (by decide) 0, ← osdShow_elements h]
  constructor
  · rintro ⟨rows, hflatten, hlines⟩
    refine ⟨rows.map (List.map RleElem.run), ?_, ?_⟩
    · rw [← hflatten, List.map_flatten]
    · rw [← hlines, List.map_map]
      exact List.map_congr_left fun row _ => (expandRow_eq row).symm
  · rintro ⟨rows, hflatten, hlines⟩
    refine ⟨rows.map (List.map fun run => ⟨run.1, run.2⟩), ?_, ?_⟩
    · rw [← List.map_flatten, hflatten, List.map_map]
      exact List.map_id _
    · rw [← hlines, List.map_map]
      refine List.map_congr_left fun row _ => ?_
      rw [Function.comp_apply, expandRow_eq, List.map_map]
      exact congrArg expand (List.map_id row)

/-! ## What is shown -/

/-- The overlay `s` shows the rectangle that has changed. -/
structure Canvas.Shown (canvas : Canvas) (s : Show) : Prop where
  /-- The runs, line by line, are as wide as the overlay and give the pixels of the rectangle back. -/
  rows : ∃ rows : List (List RleElem), rows.flatten = s.elements ∧
    rows.map expandRow = canvas.osd.clamp.lines ∧
    ∀ row ∈ rows, ((row.map RleElem.len).sum : ℤ) = canvas.osd.clamp.x2 - canvas.osd.clamp.x1 + 1
  /-- Only pixels of the area are read. -/
  reads : ∀ x y, canvas.osd.clamp.x1 ≤ x → x ≤ canvas.osd.clamp.x2 → canvas.osd.clamp.y1 ≤ y →
    y ≤ canvas.osd.clamp.y2 → (0 ≤ x ∧ x < canvas.osd.width) ∧ 0 ≤ y ∧ y < canvas.osd.height
  /-- Whatever has been written since the area has been cleared is in the rectangle. -/
  drawn : ∀ c ∈ canvas.written, canvas.osd.clamp.box.Holds canvas.osd.width c

/-- What `osd_show` shows is what has been drawn. -/
def Canvas.Lossless (canvas : Canvas) : Prop :=
  match canvas.osd.osdShow with
  | some s => canvas.Shown s
  | none => canvas.written = []

section Lossless

variable {canvas : Canvas} {width height : ℤ} {calls : List Call} {box : Box} {c : ℤ}

theorem Box.Holds.not_empty (h : box.Holds width c) : ¬box.Empty := by
  obtain ⟨x, y, hleft, hright, htop, hbottom, -⟩ := h
  unfold Box.Empty
  omega

theorem length_line {osd : OsdObject} (hle : osd.x1 ≤ osd.x2) {line : List ℕ} (hline : line ∈ osd.lines) :
    (line.length : ℤ) = osd.x2 - osd.x1 + 1 := by
  obtain ⟨i, -, rfl⟩ := List.mem_map.1 hline
  unfold OsdObject.pixels
  rw [List.length_map, List.length_range]
  omega

theorem shown_rows {s : Show} (h : canvas.osd.osdShow = some s)
    (hle : canvas.osd.clamp.x1 ≤ canvas.osd.clamp.x2)
    (hshort : ∀ line ∈ canvas.osd.clamp.lines, Short 65536 line) :
    ∃ rows : List (List RleElem), rows.flatten = s.elements ∧
      rows.map expandRow = canvas.osd.clamp.lines ∧
      ∀ row ∈ rows, ((row.map RleElem.len).sum : ℤ) =
        canvas.osd.clamp.x2 - canvas.osd.clamp.x1 + 1 := by
  obtain ⟨rows, hflatten, hlines⟩ := (osdShow_rows_iff h).2 hshort
  refine ⟨rows, hflatten, hlines, fun row hrow => ?_⟩
  have hmem : expandRow row ∈ canvas.osd.clamp.lines := by
    rw [← hlines]
    exact List.mem_map_of_mem hrow
  rw [← length_line hle hmem, expandRow_eq, RunLength.length_expand, sum_len_eq]

theorem clamp_eq_self {osd : OsdObject} (hafter : osd.x1 ≤ osd.width ∧ osd.y1 ≤ osd.height)
    (hbefore : osd.box.Before (osd.width, osd.height)) : osd.clamp = osd := by
  obtain ⟨hx, hy⟩ := hbefore
  unfold OsdObject.box at hx hy
  dsimp only at hx hy
  unfold OsdObject.clamp
  rw [min_eq_left hafter.1, min_eq_left hafter.2, min_eq_left hx.le, min_eq_left hy.le]

theorem Drawn.holds {since : List Call} (h : Drawn width height since canvas)
    (hglyphs : ∀ call ∈ since, ∀ c, call.GlyphWrites width height c →
      (span width height since).Holds width c) (hc : c ∈ canvas.written) :
    (span width height since).Holds width c := by
  obtain ⟨call, hcall, hcovers | hglyph⟩ := h.written c hc
  · exact hcovers.holds hcall
  · exact hglyphs call hcall c hglyph

theorem Drawn.le {since : List Call} (h : Drawn width height since canvas) :
    canvas.osd.x1 ≤ canvas.osd.width ∧ canvas.osd.y1 ≤ canvas.osd.height := by
  have hafter := ((span_after width height since
    ((span width height since).x1, (span width height since).y1)).1 ⟨le_refl _, le_refl _⟩).1
  rw [← h.box, ← h.width_eq, ← h.height_eq] at hafter
  exact hafter

theorem Drawn.clamp_empty {since : List Call} (h : Drawn width height since canvas)
    (hempty : (span width height since).Empty) :
    canvas.osd.x2 < canvas.osd.x1 ∨ canvas.osd.clamp.y2 < canvas.osd.clamp.y1 := by
  have hle := h.le
  rw [← h.box] at hempty
  unfold Box.Empty OsdObject.box at hempty
  unfold OsdObject.clamp
  dsimp only at hempty ⊢
  omega

theorem Drawn.lossless_of_empty {since : List Call} (h : Drawn width height since canvas)
    (hglyphs : ∀ call ∈ since, ∀ c, call.GlyphWrites width height c →
      (span width height since).Holds width c) (hempty : (span width height since).Empty) :
    canvas.Lossless := by
  have hnone : ∀ c, c ∉ canvas.written := fun c hc => (h.holds hglyphs hc).not_empty hempty
  unfold Canvas.Lossless
  cases hshow : canvas.osd.osdShow with
  | none => exact List.eq_nil_iff_forall_not_mem.2 hnone
  | some s =>
    have hle : canvas.osd.x1 ≤ canvas.osd.x2 := by
      unfold OsdObject.osdShow at hshow
      split_ifs at hshow with hle
      exact hle
    have hrows : canvas.osd.clamp.y2 < canvas.osd.clamp.y1 := by
      rcases h.clamp_empty hempty with hlt | hlt
      · omega
      · exact hlt
    have hlines : canvas.osd.clamp.lines = [] := by
      unfold OsdObject.lines
      have hzero : (canvas.osd.clamp.y2 - canvas.osd.clamp.y1 + 1).toNat = 0 := by omega
      rw [hzero]
      rfl
    have hclamp : canvas.osd.clamp.x1 ≤ canvas.osd.clamp.x2 := by
      unfold OsdObject.clamp
      dsimp only
      omega
    refine ⟨shown_rows hshow hclamp ?_, fun x y _ _ htop hbottom => ?_, fun c hc => absurd hc (hnone c)⟩
    · rw [hlines]
      exact fun line hline => absurd hline List.not_mem_nil
    · omega

theorem Drawn.lossless_of_within {since : List Call} (h : Drawn width height since canvas)
    (hglyphs : ∀ call ∈ since, ∀ c, call.GlyphWrites width height c →
      (span width height since).Holds width c)
    (hwithin : (span width height since).After (0, 0) ∧ (span width height since).Before (width, height))
    (hshort : ∀ line ∈ canvas.osd.lines, Short 65536 line) : canvas.Lossless := by
  obtain ⟨hafter, hbefore⟩ := hwithin
  have hclamp : canvas.osd.clamp = canvas.osd := by
    refine clamp_eq_self h.le ?_
    rw [h.box, h.width_eq, h.height_eq]
    exact hbefore
  rw [← h.box] at hafter hbefore
  unfold Canvas.Lossless
  cases hshow : canvas.osd.osdShow with
  | none =>
    -- nothing can have been written
    refine List.eq_nil_iff_forall_not_mem.2 fun c hc => (h.holds hglyphs hc).not_empty ?_
    rw [← h.box]
    unfold OsdObject.osdShow at hshow
    split_ifs at hshow with hle
    exact Or.inl (not_le.1 hle)
  | some s =>
    have hle : canvas.osd.x1 ≤ canvas.osd.x2 := by
      unfold OsdObject.osdShow at hshow
      split_ifs at hshow with hle
      exact hle
    refine ⟨shown_rows hshow (by rwa [hclamp]) (by rwa [hclamp]), ?_, ?_⟩
    · rw [hclamp, h.width_eq, h.height_eq]
      intro x y hleft hright htop hbottom
      obtain ⟨hx1, hy1⟩ := hafter
      obtain ⟨hx2, hy2⟩ := hbefore
      unfold OsdObject.box at hx1 hy1 hx2 hy2
      dsimp only at hx1 hy1 hx2 hy2
      omega
    · rw [hclamp, h.box, h.width_eq]
      exact fun c hc => h.holds hglyphs hc

theorem Drawn.within_of_lossless {since : List Call} (h : Drawn width height since canvas)
    (hshown : canvas.Lossless) (hnonempty : ¬(span width height since).Empty) :
    ((span width height since).After (0, 0) ∧ (span width height since).Before (width, height)) ∧
      ∀ line ∈ canvas.osd.lines, Short 65536 line := by
  have hle := h.le
  rw [← h.box] at hnonempty ⊢
  unfold Box.Empty OsdObject.box at hnonempty
  dsimp only at hnonempty
  obtain ⟨hx, hy⟩ := not_or.1 hnonempty
  unfold Canvas.Lossless at hshown
  obtain ⟨s, hs⟩ : ∃ s, canvas.osd.osdShow = some s := by
    unfold OsdObject.osdShow
    rw [if_pos (not_lt.1 hx)]
    exact ⟨_, rfl⟩
  rw [hs] at hshown
  -- the first and the last pixel of the rectangle are read
  have hfirst := hshown.reads canvas.osd.x1 canvas.osd.y1
  have hlast := hshown.reads canvas.osd.clamp.x2 canvas.osd.clamp.y2
  unfold OsdObject.clamp at hfirst hlast
  dsimp only at hfirst hlast
  have hinside : 0 ≤ canvas.osd.x1 ∧ 0 ≤ canvas.osd.y1 ∧ canvas.osd.x2 < canvas.osd.width ∧
      canvas.osd.y2 < canvas.osd.height := by
    have hfirst' := hfirst (by omega) (by omega) (by omega) (by omega)
    have hlast' := hlast (by omega) (by omega) (by omega) (by omega)
    omega
  obtain ⟨hx1, hy1, hx2, hy2⟩ := hinside
  have hbefore : canvas.osd.box.Before (canvas.osd.width, canvas.osd.height) := ⟨hx2, hy2⟩
  refine ⟨⟨⟨hx1, hy1⟩, ?_⟩, ?_⟩
  · rw [← h.width_eq, ← h.height_eq]
    exact hbefore
  · obtain ⟨rows, hflatten, hlines, -⟩ := hshown.rows
    have hshort := (osdShow_rows_iff hs).1 ⟨rows, hflatten, hlines⟩
    rwa [clamp_eq_self hle hbefore] at hshort

/-- For every object and every sequence of calls, what is shown then is what has been drawn if and only if
the glyphs that FreeType has rendered are in the rectangle that the calls since the last clearing span, and
this rectangle is empty, or each of these calls stays within the area with all its corners, and no line has
65536 equal pixels in a row. -/
theorem osdShow_lossless_iff (width height : ℤ) (around : ℤ → ℕ) (calls : List Call) :
    (draw width height around calls).Lossless ↔
      (∀ call ∈ sinceClear calls, ∀ c, call.GlyphWrites width height c →
        (span width height (sinceClear calls)).Holds width c) ∧
      ((span width height (sinceClear calls)).Empty ∨
        (0 < width ∧ 0 < height ∧ ∀ call ∈ sinceClear calls, call.Within width height) ∧
          ∀ line ∈ (draw width height around calls).osd.lines, Short 65536 line) := by
  have h := drawn width height around calls
  rw [← span_within]
  constructor
  · intro hshown
    by_cases hempty : (span width height (sinceClear calls)).Empty
    · refine ⟨fun call hcall c hglyph => ?_, Or.inl hempty⟩
      -- an empty rectangle holds no glyph, but all that has been written
      have hc := h.glyphs call hcall c hglyph
      have hclamp := h.clamp_empty hempty
      unfold Canvas.Lossless at hshown
      cases hs : (draw width height around calls).osd.osdShow with
      | none =>
        rw [hs] at hshown
        dsimp only at hshown
        rw [hshown] at hc
        exact absurd hc List.not_mem_nil
      | some s =>
        rw [hs] at hshown
        obtain ⟨x, y, hleft, hright, htop, hbottom, -⟩ := hshown.drawn c hc
        unfold OsdObject.box OsdObject.clamp at hleft hright htop hbottom
        unfold OsdObject.clamp at hclamp
        dsimp only at hleft hright htop hbottom hclamp
        have hle := h.le
        omega
    · obtain ⟨hwithin, hshort⟩ := h.within_of_lossless hshown hempty
      refine ⟨fun call hcall c hglyph => ?_, Or.inr ⟨hwithin, hshort⟩⟩
      have hc := h.glyphs call hcall c hglyph
      have hclamp : (draw width height around calls).osd.clamp = (draw width height around calls).osd := by
        refine clamp_eq_self h.le ?_
        rw [h.box, h.width_eq, h.height_eq]
        exact hwithin.2
      unfold Canvas.Lossless at hshown
      cases hs : (draw width height around calls).osd.osdShow with
      | none =>
        rw [hs] at hshown
        dsimp only at hshown
        rw [hshown] at hc
        exact absurd hc List.not_mem_nil
      | some s =>
        rw [hs] at hshown
        have hholds := hshown.drawn c hc
        rwa [hclamp, h.box, h.width_eq] at hholds
  · rintro ⟨hglyphs, hempty | ⟨hwithin, hshort⟩⟩
    · exact h.lossless_of_empty hglyphs hempty
    · exact h.lossless_of_within hglyphs hwithin hshort

/-- A point in the last column of the last row makes `osd_show` read behind the area. -/
theorem corner_not_lossless : ¬(draw 10 10 (fun _ => 0) [.point 9 9 1]).Lossless := by
  intro hshown
  obtain ⟨⟨-, hbefore⟩, -⟩ :=
    (drawn 10 10 (fun _ => 0) [.point 9 9 1]).within_of_lossless hshown (by decide)
  unfold Box.Before at hbefore
  revert hbefore
  decide

end Lossless

end Xine.Osd
