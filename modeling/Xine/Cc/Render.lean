import Mathlib.Algebra.Order.Ring.Int
import Mathlib.Data.List.TakeWhile
import Mathlib.Data.Nat.Find
import Xine.Cc.Decoder

/-!
# Rendering a row of captions

`ccrow_render` of `cc_decoder.c` and the searches in a row that it is made of. A row is drawn in parts between
transparent spaces, and each part in segments between changes of the attributes. How large a text is comes from the
OSD renderer. A cell or a color that is not there is `none`.
-/

namespace Xine.Cc

abbrev NUM_FG_COL : ℕ := 7

def TEXT_PALETTE_SIZE : ℕ := 11

def CAP_BG_COL : ℕ := 1

def textColormap : Vector ℕ NUM_FG_COL := Vector.ofFn fun i => i.val * TEXT_PALETTE_SIZE

/-- What `cc_renderer_t` and its configuration have on how a caption looks. The font of a text is italic or not. -/
structure CcLook where
  width : ℤ
  height : ℤ
  max_char_width : ℤ
  max_char_height : ℤ
  center : Bool
  getTextSize : Bool → List ℕ → ℤ × ℤ

/-- What the OSD renderer is told to draw. -/
inductive CcDraw
  | filledRect (x1 y1 x2 y2 : ℤ) (color : ℕ)
  | renderText (italic : Bool) (x1 y1 : ℤ) (text : List ℕ) (color : ℕ)

/-- A segment: its cells, and the cell with its attributes. -/
structure CcSegment where
  seg_pos : ℕ
  seg_end : ℕ
  seg_attr : ℕ

/-- The characters in front of the first zero. -/
def cString (buf : List ℕ) : List ℕ := buf.takeWhile (· ≠ 0)

/-! ## Searches -/

/-- A search for the first cell without a property among some cells from a position on. -/
def ccrowAdvance (row : CcRow) (p : CcCharCell → Bool) : ℕ → ℕ → Option ℕ
  | 0, pos => some pos
  | n + 1, pos => do
    let cell ← row.cells[pos]?
    if p cell then ccrowAdvance row p n (pos + 1) else some pos

def ccrowFindNextTextPart (row : CcRow) (pos : ℕ) : Option ℕ :=
  ccrowAdvance row (fun cell => cell.c = TRANSP_SPACE) (row.num_chars - pos) pos

def ccrowFindEndOfTextPart (row : CcRow) (pos : ℕ) : Option ℕ :=
  ccrowAdvance row (fun cell => cell.c ≠ TRANSP_SPACE) (row.num_chars - pos) pos

def ccrowFindCurrentAttr (row : CcRow) : ℕ → Option ℕ
  | 0 => some 0
  | pos + 1 => do
    let cell ← row.cells[pos + 1]?
    if cell.midrow_attr then some (pos + 1) else ccrowFindCurrentAttr row pos

def ccrowFindNextAttrChange (row : CcRow) (pos lastpos : ℕ) : Option ℕ :=
  ccrowAdvance row (fun cell => !cell.midrow_attr) (lastpos - (pos + 1)) (pos + 1)

/-! ## Drawing -/

/-- The text of a segment. -/
def ccrowText (row : CcRow) (seg : CcSegment) : Option (List ℕ) :=
  (List.range' seg.seg_pos (seg.seg_end - seg.seg_pos)).mapM fun i => (row.cells[i]?).map CcCharCell.c

/-- The segments of a part from a position on. -/
def ccrowSegments (row : CcRow) (endpos : ℕ) : ℕ → ℕ → Option (List CcSegment)
  | 0, _ => some []
  | n + 1, seg_begin =>
    if seg_begin < endpos then do
      let attr_pos ← ccrowFindCurrentAttr row seg_begin
      let seg_end ← ccrowFindNextAttrChange row seg_begin endpos
      let segments ← ccrowSegments row endpos n seg_end
      some (⟨seg_begin, seg_end, attr_pos⟩ :: segments)
    else some []

/-- The width of a segment. -/
def ccrowSegWidth (look : CcLook) (row : CcRow) (seg : CcSegment) : Option ℤ := do
  let text ← ccrowText row seg
  let cell ← row.cells[seg.seg_attr]?
  some (look.getTextSize (cell.attributes.italic ≠ 0) (cString text)).1

/-- The segments of a part are drawn from left to right. The first and the last one are padded. -/
def ccrowDrawSegments (look : CcLook) (row : CcRow) (x y : ℤ) : Bool → List CcSegment → Option (List CcDraw)
  | _, [] => some []
  | first, seg :: segments => do
    let seg_w ← ccrowSegWidth look row seg
    let cell ← row.cells[seg.seg_attr]?
    let textcol ← textColormap[cell.attributes.foreground]?
    let text ← ccrowText row seg
    let box_x1 := if first then x - look.max_char_width else x
    let box_x2 := if segments = [] then x + seg_w + look.max_char_width else x + seg_w
    let draws ← ccrowDrawSegments look row (x + seg_w) y false segments
    some (.filledRect box_x1 y box_x2 (y + look.max_char_height) (textcol + CAP_BG_COL) ::
      .renderText (cell.attributes.italic ≠ 0) x y (cString text) textcol :: draws)

/-- Where a part is drawn. -/
def ccrowPlace (look : CcLook) (base_y text_w : ℤ) (pos endpos : ℕ) : ℤ × ℤ :=
  if look.center then
    let cell_width := look.width.tdiv CC_COLUMNS
    let x := ((look.width * (pos + endpos)).tdiv 2).tdiv CC_COLUMNS - text_w.tdiv 2
    ((x + cell_width.tdiv 2).tdiv CC_COLUMNS * CC_COLUMNS + cell_width,
      base_y - (look.max_char_height + 1).tdiv 2)
  else ((look.width * pos).tdiv CC_COLUMNS, base_y)

/-- The loop over the parts of a row. -/
def ccrowRenderParts (look : CcLook) (row : CcRow) (base_y : ℤ) : ℕ → ℕ → Option (List CcDraw)
  | 0, _ => some []
  | n + 1, pos =>
    if pos < row.num_chars then do
      let endpos ← ccrowFindEndOfTextPart row pos
      let segments ← ccrowSegments row endpos (endpos - pos) pos
      let widths ← segments.mapM (ccrowSegWidth look row)
      let place := ccrowPlace look base_y widths.sum pos endpos
      let part ← ccrowDrawSegments look row place.1 place.2 true segments
      let next ← ccrowFindNextTextPart row endpos
      let draws ← ccrowRenderParts look row base_y n next
      some (part ++ draws)
    else some []

def ccrowRender (look : CcLook) (row : CcRow) (rownum : ℕ) : Option (List CcDraw) := do
  let pos ← ccrowFindNextTextPart row 0
  let base_y :=
    if look.center then (look.height * rownum * 100 + look.height * 50).tdiv (CC_ROWS * 100)
    else (look.height * rownum).tdiv CC_ROWS
  ccrowRenderParts look row base_y row.num_chars pos

/-!
## What is drawn

The characters of a row that are not transparent are drawn in their order, each with the attributes of the nearest cell
at or before it that changes them.
-/

variable {row : CcRow} {look : CcLook} {p : CcCharCell → Bool} {pos n i j last : ℕ}

/-- A row whose cells are those of the memory, with colors that there are. The data ends with the row, and has no
zeros. -/
structure CcRow.Ok (row : CcRow) : Prop where
  pos_le : row.pos ≤ CC_COLUMNS
  num_chars_le : row.num_chars ≤ CC_COLUMNS
  pac_attr : row.pac_attr.foreground < NUM_FG_COL
  foreground : ∀ cell ∈ row.cells, cell.attributes.foreground < NUM_FG_COL
  chars : ∀ i cell, i < row.num_chars → row.cells[i]? = some cell → cell.c ≠ 0

/-- The cell at a position. -/
def CcRow.cellAt (row : CcRow) (i : ℕ) : CcCharCell := (row.cells[i]?).getD ⟨0, .zero, false⟩

/-- The nearest cell at or before a position that changes the attributes, and the first cell if there is none. -/
def CcRow.nearestAttr (row : CcRow) (i : ℕ) : ℕ := Nat.findGreatest (fun j => (row.cellAt j).midrow_attr = true) i

/-- A character as it is drawn: with its font and its color. -/
structure CcShown where
  c : ℕ
  italic : Bool
  color : ℕ

/-- The character of a cell with its attributes. -/
def CcRow.shownAt (row : CcRow) (i : ℕ) : CcShown :=
  let attributes := (row.cellAt (row.nearestAttr i)).attributes
  ⟨(row.cellAt i).c, attributes.italic ≠ 0, attributes.foreground * TEXT_PALETTE_SIZE⟩

/-- The cells of the data that are not transparent, from a position on. -/
def CcRow.visible (row : CcRow) (pos : ℕ) : List ℕ :=
  (List.range' pos (row.num_chars - pos)).filter fun i => (row.cellAt i).c ≠ TRANSP_SPACE

/-- The characters that are drawn. -/
def CcDraw.shown : CcDraw → List CcShown
  | .filledRect .. => []
  | .renderText italic _ _ text color => text.map fun c => ⟨c, italic, color⟩

theorem getElem?_cellAt (h : i < CC_COLUMNS) : row.cells[i]? = some (row.cellAt i) := by
  unfold CcRow.cellAt
  rw [Vector.getElem?_eq_getElem h, Option.getD_some]

/-! ### Searches -/

theorem exists_advance (row : CcRow) (p : CcCharCell → Bool) (h : pos + n ≤ CC_COLUMNS) :
    ∃ q, ccrowAdvance row p n pos = some q ∧ pos ≤ q ∧ q ≤ pos + n ∧
      (∀ i, pos ≤ i → i < q → p (row.cellAt i) = true) ∧ (q < pos + n → p (row.cellAt q) = false) := by
  induction n generalizing pos with
  | zero =>
    refine ⟨pos, rfl, le_rfl, le_rfl, fun i hi hlt => ?_, fun h => absurd h (lt_irrefl _)⟩
    exact absurd hlt (Nat.not_lt.2 hi)
  | succ n ih =>
    unfold ccrowAdvance
    rw [getElem?_cellAt (by omega)]
    cases hcell : p (row.cellAt pos) with
    | true =>
      obtain ⟨q, hq, hle, hqle, hall, hstop⟩ := @ih (pos + 1) (by omega)
      refine ⟨q, ?_, by omega, by omega, fun i hi hlt => ?_, fun hlt => hstop (by omega)⟩
      · change (if p (row.cellAt pos) = true then _ else _) = _
        rw [hcell, if_pos rfl, hq]
      · obtain rfl | hi := hi.eq_or_lt
        · exact hcell
        · exact hall i hi hlt
    | false =>
      refine ⟨pos, ?_, le_rfl, by omega, fun i hi hlt => absurd hlt (Nat.not_lt.2 hi), fun _ => hcell⟩
      change (if p (row.cellAt pos) = true then _ else _) = _
      rw [hcell, if_neg Bool.false_ne_true]

theorem findCurrentAttr_eq (h : pos < CC_COLUMNS) : ccrowFindCurrentAttr row pos = some (row.nearestAttr pos) := by
  induction pos with
  | zero => rfl
  | succ pos ih =>
    unfold ccrowFindCurrentAttr CcRow.nearestAttr
    rw [getElem?_cellAt h, Nat.findGreatest_succ]
    change (if (row.cellAt (pos + 1)).midrow_attr = true then _ else _) = _
    rw [ih (by omega), apply_ite some]
    rfl

theorem nearestAttr_eq (hle : pos ≤ i) (h : ∀ j, pos < j → j ≤ i → (row.cellAt j).midrow_attr = false) :
    row.nearestAttr i = row.nearestAttr pos := by
  induction i, hle using Nat.le_induction with
  | base => rfl
  | succ i hle ih =>
    have hnot : ¬(row.cellAt (i + 1)).midrow_attr = true := Bool.eq_false_iff.1 (h (i + 1) (by omega) le_rfl)
    unfold CcRow.nearestAttr at *
    rw [Nat.findGreatest_succ, if_neg hnot]
    exact ih fun j hj hlt => h j hj (by omega)

theorem mapM_eq_some {α β : Type} {f : α → Option β} {g : α → β} {l : List α} (h : ∀ a ∈ l, f a = some (g a)) :
    l.mapM f = some (l.map g) := by
  induction l with
  | nil => rfl
  | cons a l ih =>
    rw [List.mapM_cons, h a List.mem_cons_self, ih fun b hb => h b (List.mem_cons_of_mem a hb)]
    rfl

/-! ### Segments -/

/-- The segments of a part from a position on: they follow one another, and the attributes of each are those of its
cells. -/
def Splits (row : CcRow) (endpos : ℕ) : ℕ → List CcSegment → Prop
  | pos, [] => pos = endpos
  | pos, seg :: segments => seg.seg_pos = pos ∧ pos < seg.seg_end ∧ seg.seg_end ≤ endpos ∧
      (∀ i, pos ≤ i → i < seg.seg_end → row.nearestAttr i = seg.seg_attr) ∧
        Splits row endpos seg.seg_end segments

variable {endpos : ℕ} {segments : List CcSegment} {seg : CcSegment}

theorem exists_segments (hend : endpos ≤ CC_COLUMNS) (hpos : pos ≤ endpos) (hn : endpos ≤ pos + n) :
    ∃ segments, ccrowSegments row endpos n pos = some segments ∧ Splits row endpos pos segments := by
  induction n generalizing pos with
  | zero => exact ⟨[], rfl, Nat.le_antisymm hpos hn⟩
  | succ n ih =>
    unfold ccrowSegments
    by_cases hlt : pos < endpos
    · obtain ⟨q, hq, hle, hqle, hall, -⟩ := @exists_advance (pos + 1) (endpos - (pos + 1)) row
        (fun cell => !cell.midrow_attr) (by omega)
      obtain ⟨segments, hsegments, hsplits⟩ := @ih q (by omega) (by omega)
      refine ⟨⟨pos, q, row.nearestAttr pos⟩ :: segments, ?_, rfl, ?_, ?_, ?_, hsplits⟩
      · rw [if_pos hlt, findCurrentAttr_eq (by omega)]
        unfold ccrowFindNextAttrChange
        change (ccrowAdvance _ _ _ _ >>= fun seg_end => ccrowSegments row endpos n seg_end >>= _) = _
        rw [hq]
        change (ccrowSegments row endpos n q >>= _) = _
        rw [hsegments]
        rfl
      · exact hle
      · change q ≤ endpos
        omega
      · intro i hi hlt
        refine nearestAttr_eq hi fun j hj hji => ?_
        have hj' : (!(row.cellAt j).midrow_attr) = true := hall j hj (lt_of_le_of_lt hji hlt)
        rwa [Bool.not_eq_true'] at hj'
    · rw [if_neg hlt]
      exact ⟨[], rfl, Nat.le_antisymm hpos (Nat.not_lt.1 hlt)⟩

theorem text_eq (h : seg.seg_end ≤ CC_COLUMNS) : ccrowText row seg =
    some ((List.range' seg.seg_pos (seg.seg_end - seg.seg_pos)).map fun i => (row.cellAt i).c) := by
  refine mapM_eq_some fun i hi => ?_
  obtain ⟨hle, hlt⟩ := List.mem_range'_1.1 hi
  rw [getElem?_cellAt (by omega)]
  rfl

theorem nearestAttr_le (row : CcRow) (i : ℕ) : row.nearestAttr i ≤ i := Nat.findGreatest_le i

theorem cString_text (hrow : row.Ok) (h : seg.seg_end ≤ row.num_chars) :
    cString ((List.range' seg.seg_pos (seg.seg_end - seg.seg_pos)).map fun i => (row.cellAt i).c) =
      (List.range' seg.seg_pos (seg.seg_end - seg.seg_pos)).map fun i => (row.cellAt i).c := by
  have hle := hrow.num_chars_le
  refine List.takeWhile_eq_self_iff.2 fun c hc => ?_
  obtain ⟨i, hi, rfl⟩ := List.mem_map.1 hc
  obtain ⟨hge, hlt⟩ := List.mem_range'_1.1 hi
  exact decide_eq_true (hrow.chars i _ (by omega) (getElem?_cellAt (by omega)))

theorem foreground_lt (hrow : row.Ok) (h : i < CC_COLUMNS) :
    (row.cellAt i).attributes.foreground < NUM_FG_COL :=
  hrow.foreground _ (Vector.mem_of_getElem? (getElem?_cellAt h))

theorem textColormap_eq {color : ℕ} (h : color < NUM_FG_COL) :
    textColormap[color]? = some (color * TEXT_PALETTE_SIZE) := by
  unfold textColormap
  rw [Vector.getElem?_eq_getElem h, Vector.getElem_ofFn]

theorem Splits.cons (hsplits : Splits row endpos pos (seg :: segments)) :
    seg.seg_attr = row.nearestAttr seg.seg_pos ∧ seg.seg_attr < seg.seg_end ∧ seg.seg_end ≤ endpos := by
  obtain ⟨rfl, hlt, hle, hattr, -⟩ := hsplits
  have hfirst := hattr seg.seg_pos le_rfl hlt
  exact ⟨hfirst.symm, hfirst ▸ lt_of_le_of_lt (nearestAttr_le row _) hlt, hle⟩

theorem segWidth_eq (look : CcLook) (hrow : row.Ok) (hend : endpos ≤ row.num_chars)
    (hsplits : Splits row endpos pos (seg :: segments)) :
    ∃ seg_w, ccrowSegWidth look row seg = some seg_w := by
  have hle := hrow.num_chars_le
  obtain ⟨-, hlt, hseg⟩ := hsplits.cons
  unfold ccrowSegWidth
  rw [text_eq (by omega), getElem?_cellAt (by omega)]
  exact ⟨_, rfl⟩

theorem exists_widths (look : CcLook) (hrow : row.Ok) (hend : endpos ≤ row.num_chars)
    (hsplits : Splits row endpos pos segments) :
    ∃ widths, segments.mapM (ccrowSegWidth look row) = some widths := by
  induction segments generalizing pos with
  | nil => exact ⟨[], rfl⟩
  | cons seg segments ih =>
    obtain ⟨seg_w, hseg⟩ := segWidth_eq look hrow hend hsplits
    obtain ⟨widths, hwidths⟩ := ih hsplits.2.2.2.2
    refine ⟨seg_w :: widths, ?_⟩
    rw [List.mapM_cons, hseg, hwidths]
    rfl

theorem exists_drawSegments (look : CcLook) (hrow : row.Ok) (hend : endpos ≤ row.num_chars) (x y : ℤ) (first : Bool)
    (hsplits : Splits row endpos pos segments) :
    ∃ draws, ccrowDrawSegments look row x y first segments = some draws ∧
      draws.flatMap CcDraw.shown = (List.range' pos (endpos - pos)).map row.shownAt := by
  induction segments generalizing pos x first with
  | nil =>
    obtain rfl : pos = endpos := hsplits
    refine ⟨[], rfl, ?_⟩
    rw [Nat.sub_self]
    rfl
  | cons seg segments ih =>
    have hle := hrow.num_chars_le
    obtain ⟨seg_w, hseg_w⟩ := segWidth_eq look hrow hend hsplits
    obtain ⟨hattr, hattr_lt, hseg⟩ := hsplits.cons
    obtain ⟨rfl, hlt, -, hsame, hrest⟩ := hsplits
    obtain ⟨draws, hdraws, hshown⟩ := ih (x + seg_w) false hrest
    unfold ccrowDrawSegments
    rw [hseg_w, getElem?_cellAt (by omega : seg.seg_attr < CC_COLUMNS), text_eq (by omega)]
    have hcolor := textColormap_eq (foreground_lt hrow (by omega : seg.seg_attr < CC_COLUMNS))
    let box_x1 := if first then x - look.max_char_width else x
    let box_x2 := if segments = [] then x + seg_w + look.max_char_width else x + seg_w
    let attributes := (row.cellAt seg.seg_attr).attributes
    let textcol := attributes.foreground * TEXT_PALETTE_SIZE
    let text := (List.range' seg.seg_pos (seg.seg_end - seg.seg_pos)).map fun i => (row.cellAt i).c
    refine ⟨.filledRect box_x1 y box_x2 (y + look.max_char_height) (textcol + CAP_BG_COL) ::
      .renderText (attributes.italic ≠ 0) x y (cString text) textcol :: draws, ?_, ?_⟩
    · change (textColormap[_]? >>= fun textcol => ccrowDrawSegments look row (x + seg_w) y false segments >>= _) = _
      rw [hcolor]
      change (ccrowDrawSegments look row (x + seg_w) y false segments >>= _) = _
      rw [hdraws]
      rfl
    · rw [List.flatMap_cons, List.flatMap_cons, hshown, cString_text hrow (by omega)]
      have hsplit : List.range' seg.seg_pos (endpos - seg.seg_pos) =
          List.range' seg.seg_pos (seg.seg_end - seg.seg_pos) ++ List.range' seg.seg_end (endpos - seg.seg_end) := by
        have happend := List.range'_append_1 (s := seg.seg_pos) (m := seg.seg_end - seg.seg_pos)
          (n := endpos - seg.seg_end)
        rw [show seg.seg_pos + (seg.seg_end - seg.seg_pos) = seg.seg_end by omega] at happend
        rw [happend]
        congr 1
        omega
      rw [hsplit, List.map_append, CcDraw.shown, CcDraw.shown, List.nil_append, List.map_map]
      refine congrArg₂ (· ++ ·) (List.map_congr_left fun i hi => ?_) rfl
      obtain ⟨hge, hlt⟩ := List.mem_range'_1.1 hi
      unfold CcRow.shownAt
      rw [hsame i hge (by omega)]
      rfl

/-! ### Parts -/

theorem visible_append {q : ℕ} (hle : pos ≤ q) (hq : q ≤ row.num_chars) : row.visible pos =
    ((List.range' pos (q - pos)).filter fun i => (row.cellAt i).c ≠ TRANSP_SPACE) ++ row.visible q := by
  unfold CcRow.visible
  have happend := List.range'_append_1 (s := pos) (m := q - pos) (n := row.num_chars - q)
  rw [show pos + (q - pos) = q by omega, show q - pos + (row.num_chars - q) = row.num_chars - pos by omega]
    at happend
  rw [← happend, List.filter_append]

theorem visible_part {q : ℕ} (hle : pos ≤ q) (hq : q ≤ row.num_chars)
    (h : ∀ i, pos ≤ i → i < q → (row.cellAt i).c ≠ TRANSP_SPACE) :
    row.visible pos = List.range' pos (q - pos) ++ row.visible q := by
  rw [visible_append hle hq, List.filter_eq_self.2]
  intro i hi
  obtain ⟨hge, hlt⟩ := List.mem_range'_1.1 hi
  exact decide_eq_true (h i hge (by omega))

theorem visible_gap {q : ℕ} (hle : pos ≤ q) (hq : q ≤ row.num_chars)
    (h : ∀ i, pos ≤ i → i < q → (row.cellAt i).c = TRANSP_SPACE) : row.visible pos = row.visible q := by
  rw [visible_append hle hq, List.filter_eq_nil_iff.2, List.nil_append]
  intro i hi
  obtain ⟨hge, hlt⟩ := List.mem_range'_1.1 hi
  exact fun hne => of_decide_eq_true hne (h i hge (by omega))

theorem exists_nextTextPart (hrow : row.Ok) (hpos : pos ≤ row.num_chars) :
    ∃ q, ccrowFindNextTextPart row pos = some q ∧ pos ≤ q ∧ q ≤ row.num_chars ∧
      (q < row.num_chars → (row.cellAt q).c ≠ TRANSP_SPACE) ∧ row.visible pos = row.visible q := by
  have hle := hrow.num_chars_le
  obtain ⟨q, hq, hge, hqle, hall, hstop⟩ := @exists_advance pos (row.num_chars - pos) row
    (fun cell => cell.c = TRANSP_SPACE) (by omega)
  refine ⟨q, hq, hge, by omega, fun h => ?_, visible_gap hge (by omega) fun i hi hlt => ?_⟩
  · exact of_decide_eq_false (hstop (by omega))
  · exact of_decide_eq_true (hall i hi hlt)

theorem exists_endOfTextPart (hrow : row.Ok) (hpos : pos ≤ row.num_chars) :
    ∃ q, ccrowFindEndOfTextPart row pos = some q ∧ pos ≤ q ∧ q ≤ row.num_chars ∧
      (q < row.num_chars → (row.cellAt q).c = TRANSP_SPACE) ∧
        row.visible pos = List.range' pos (q - pos) ++ row.visible q := by
  have hle := hrow.num_chars_le
  obtain ⟨q, hq, hge, hqle, hall, hstop⟩ := @exists_advance pos (row.num_chars - pos) row
    (fun cell => cell.c ≠ TRANSP_SPACE) (by omega)
  refine ⟨q, hq, hge, by omega, fun h => ?_, visible_part hge (by omega) fun i hi hlt => ?_⟩
  · exact not_not.1 (of_decide_eq_false (hstop (by omega)))
  · exact of_decide_eq_true (hall i hi hlt)

theorem visible_eq_nil (h : row.num_chars ≤ pos) : row.visible pos = [] := by
  unfold CcRow.visible
  rw [Nat.sub_eq_zero_of_le h]
  rfl

theorem exists_renderParts (look : CcLook) (hrow : row.Ok) (base_y : ℤ) (hpos : pos ≤ row.num_chars)
    (hn : row.num_chars ≤ pos + n) (hstart : pos < row.num_chars → (row.cellAt pos).c ≠ TRANSP_SPACE) :
    ∃ draws, ccrowRenderParts look row base_y n pos = some draws ∧
      draws.flatMap CcDraw.shown = (row.visible pos).map row.shownAt := by
  have hle := hrow.num_chars_le
  induction n generalizing pos with
  | zero => exact ⟨[], rfl, by rw [visible_eq_nil (by omega)]; rfl⟩
  | succ n ih =>
    unfold ccrowRenderParts
    by_cases hlt : pos < row.num_chars
    · obtain ⟨endpos, hendpos, hge, hend, hstop, hpart⟩ := exists_endOfTextPart hrow hpos
      obtain ⟨next, hnext, hnext_ge, hnext_le, hnext_start, hgap⟩ := exists_nextTextPart hrow hend
      obtain ⟨segments, hsegments, hsplits⟩ := @exists_segments row pos (endpos - pos) endpos (by omega) hge (by omega)
      obtain ⟨widths, hwidths⟩ := exists_widths look hrow hend hsplits
      let place := ccrowPlace look base_y widths.sum pos endpos
      obtain ⟨part, hdraw, hshown⟩ := exists_drawSegments look hrow hend place.1 place.2 true hsplits
      -- the part is not empty
      have hlt' : pos < endpos := by
        refine lt_of_le_of_ne hge fun h => ?_
        subst h
        exact hstart hlt (hstop hlt)
      obtain ⟨draws, hdraws, hrest⟩ := ih hnext_le (by omega) hnext_start
      refine ⟨part ++ draws, ?_, ?_⟩
      · rw [if_pos hlt, hendpos]
        change (ccrowSegments row endpos (endpos - pos) pos >>= _) = _
        rw [hsegments]
        change (segments.mapM (ccrowSegWidth look row) >>= _) = _
        rw [hwidths]
        change (ccrowDrawSegments look row place.1 place.2 true segments >>= _) = _
        rw [hdraw]
        change (ccrowFindNextTextPart row endpos >>= _) = _
        rw [hnext]
        change (ccrowRenderParts look row base_y n next >>= _) = _
        rw [hdraws]
        rfl
      · rw [List.flatMap_append, hshown, hrest, hpart, hgap, List.map_append]
    · rw [if_neg hlt, visible_eq_nil (Nat.not_lt.1 hlt)]
      exact ⟨[], rfl, rfl⟩

theorem exists_render (hrow : row.Ok) (look : CcLook) (rownum : ℕ) :
    ∃ draws, ccrowRender look row rownum = some draws ∧
      draws.flatMap CcDraw.shown = (row.visible 0).map row.shownAt := by
  obtain ⟨pos, hpos, -, hle, hstart, hvisible⟩ := exists_nextTextPart hrow (Nat.zero_le _)
  let base_y :=
    if look.center then (look.height * rownum * 100 + look.height * 50).tdiv (CC_ROWS * 100)
    else (look.height * rownum).tdiv CC_ROWS
  obtain ⟨draws, hdraws, hshown⟩ := exists_renderParts look hrow base_y hle (Nat.le_add_left _ pos) hstart
  refine ⟨draws, ?_, ?_⟩
  · unfold ccrowRender
    rw [hpos]
    exact hdraws
  · rw [hshown, hvisible]

end Xine.Cc
