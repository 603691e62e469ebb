import Mathlib.Data.List.Induction
import Xine.Osd.Painting

/-!
# The changed rectangle

What the calls since the area has been cleared have made of the rectangle: it begins at the leftmost and
topmost of the corners that they begin at, and ends at the rightmost and lowest of those that they end at
(`span`). What a call writes lies between its corners, except for the glyphs that FreeType renders, which
are placed from the baseline.
-/

namespace Xine.Osd

/-- A rectangle, with its last column and row. -/
structure Box where
  x1 : ℤ
  y1 : ℤ
  x2 : ℤ
  y2 : ℤ

/-- The rectangle that has changed. -/
def OsdObject.box (osd : OsdObject) : Box := ⟨osd.x1, osd.y1, osd.x2, osd.y2⟩

namespace Box

variable (box : Box)

def extendFrom (p : ℤ × ℤ) : Box := { box with x1 := min box.x1 p.1, y1 := min box.y1 p.2 }

def extendTo (p : ℤ × ℤ) : Box := { box with x2 := max box.x2 p.1, y2 := max box.y2 p.2 }

/-- A rectangle without columns or without rows. -/
def Empty : Prop := box.x2 < box.x1 ∨ box.y2 < box.y1

/-- The offsets of the elements in a rectangle. -/
def Holds (width c : ℤ) : Prop := InRect width box.x1 box.y1 box.x2 box.y2 c

instance : Decidable box.Empty := inferInstanceAs (Decidable (_ ∨ _))

end Box

/-- What is drawn for a character: a picture, whose upper left corner is as far left and above as `left` and
`top` say, the column of the next character, and the row that it counts as its last. -/
structure Mark where
  left : ℤ
  top : ℤ
  width : ℕ
  height : ℕ
  advance : ℤ
  bottom : ℤ

def Face.mark (face : Face) (code : ℕ) : Option Mark :=
  match face with
  | .font fontchar =>
    fontchar[osdSearch fontchar code]?.map fun char => ⟨0, 0, char.width, char.height, char.width, char.height⟩
  | .ft2 load =>
    (load code).map fun slot =>
      ⟨slot.bitmap_left, slot.bitmap_top, slot.width, slot.rows, slot.advance_x / 64, 0⟩

/-- The offsets that the picture of a character at `x`, `y` writes. -/
def Mark.Writes (mark : Mark) (width height x y c : ℤ) : Prop :=
  ∃ row < mark.height, ∃ i < mark.width,
    c = y * width + x - mark.top * width + mark.left + (row : ℤ) * width + (i : ℤ) ∧ c ≤ width * height

/-- The offsets that a text writes. -/
def textWrites (face : Face) (width height y : ℤ) : ℤ → List ℕ → ℤ → Prop
  | _, [] => fun _ => False
  | x, code :: text =>
    match face.mark code with
    | some mark => fun c =>
      mark.Writes width height x y c ∨ textWrites face width height y (x + mark.advance) text c
    | none => textWrites face width height y x text

/-- The corners that the characters of a text end at. -/
def textTos (face : Face) (y : ℤ) : ℤ → List ℕ → List (ℤ × ℤ)
  | _, [] => []
  | x, code :: text =>
    match face.mark code with
    | some mark => (x + mark.advance, y + mark.bottom) :: textTos face y (x + mark.advance) text
    | none => textTos face y x text

namespace Call

/-- The upper left corner of a call, if it has one. -/
def froms : Call → List (ℤ × ℤ)
  | .point x y _ => [(x, y)]
  | .line x1 y1 x2 y2 _ => [(min x1 x2, min y1 y2)]
  | .filledRect x1 y1 x2 y2 _ => [(min x1 x2, min y1 y2)]
  | .renderText (some _) x1 y1 _ _ => [(x1, y1)]
  | .renderText none _ _ _ _ => []
  | .drawBitmap _ x1 y1 _ _ _ => [(x1, y1)]
  | .clear => []

/-- The corners that it ends at, as it counts them. -/
def tos : Call → List (ℤ × ℤ)
  | .point x y _ => [(x + 1, y + 1)]
  | .line x1 y1 x2 y2 _ => [(max x1 x2, max y1 y2)]
  | .filledRect x1 y1 x2 y2 _ => [(max x1 x2, max y1 y2)]
  | .renderText (some face) x1 y1 text _ => textTos face y1 x1 text
  | .renderText none _ _ _ _ => []
  | .drawBitmap _ x1 y1 width height _ => [(x1 + width - 1, y1 + height - 1)]
  | .clear => []

/-- The offsets that the glyphs that FreeType renders for the call write. -/
def GlyphWrites (width height : ℤ) : Call → ℤ → Prop
  | .renderText (some (.ft2 load)) x1 y1 text _, c => textWrites (.ft2 load) width height y1 x1 text c
  | _, _ => False

/-- The call stays within the area, with all its corners. -/
def Within (width height : ℤ) (call : Call) : Prop :=
  (∀ p ∈ call.froms, 0 ≤ p.1 ∧ 0 ≤ p.2) ∧ ∀ p ∈ call.tos, p.1 < width ∧ p.2 < height

instance (width height : ℤ) (call : Call) : Decidable (call.Within width height) :=
  inferInstanceAs (Decidable (_ ∧ _))

end Call

/-- The rectangle after a call. -/
def Box.extend (box : Box) (call : Call) : Box :=
  call.tos.foldl Box.extendTo (call.froms.foldl Box.extendFrom box)

/-- The rectangle of an object with nothing drawn on it. -/
def Box.start (width height : ℤ) : Box := ⟨width, height, 0, 0⟩

/-- The rectangle after some calls. -/
def span (width height : ℤ) (calls : List Call) : Box := calls.foldl Box.extend (Box.start width height)

/-- The calls since the last one that clears the area. -/
def sinceClear (calls : List Call) : List Call :=
  calls.foldl (fun since call => match call with | .clear => [] | call => since ++ [call]) []

/-! ## One call -/

section Calls

variable {canvas canvas' : Canvas} {width height : ℤ} {P : ℤ → Prop} {box : Box}

/-- What a call does: the rectangle is `box` afterwards, and the offsets with `P` have been written. -/
structure Effect (box : Box) (P : ℤ → Prop) (canvas canvas' : Canvas) : Prop where
  width : canvas'.osd.width = canvas.osd.width
  height : canvas'.osd.height = canvas.osd.height
  box : canvas'.osd.box = box
  area : ∀ c, ¬P c → canvas'.osd.area c = canvas.osd.area c
  written : ∀ c, c ∈ canvas'.written ↔ c ∈ canvas.written ∨ P c

theorem Paints.effect (h : Paints P canvas canvas') : Effect canvas.osd.box P canvas canvas' := by
  refine ⟨h.width, h.height, ?_, h.area, h.written⟩
  rw [h.osd]
  rfl

theorem Effect.trans {canvas'' : Canvas} {box' : Box} {Q : ℤ → Prop} (h : Effect box P canvas canvas')
    (h' : Effect box' Q canvas' canvas'') : Effect box' (fun c => P c ∨ Q c) canvas canvas'' := by
  refine ⟨h'.width.trans h.width, h'.height.trans h.height, h'.box, fun c hc => ?_, fun c => ?_⟩
  · obtain ⟨hP, hQ⟩ := not_or.1 hc
    rw [h'.area c hQ, h.area c hP]
  · rw [h'.written, h.written, or_assoc]

theorem Effect.of_extend {x1 y1 x2 y2 : ℤ}
    (h : Paints P ((canvas.extendFrom x1 y1).extendTo x2 y2) canvas') :
    Effect ((canvas.osd.box.extendFrom (x1, y1)).extendTo (x2, y2)) P canvas canvas' :=
  ⟨h.effect.width, h.effect.height, h.effect.box, h.area, h.written⟩

theorem Effect.of_extendFrom {x y : ℤ} (h : Effect box P (canvas.extendFrom x y) canvas') :
    Effect box P canvas canvas' :=
  ⟨h.width, h.height, h.box, h.area, h.written⟩

theorem Paints.extendTo (h : Paints P canvas canvas') (x y : ℤ) :
    Effect (canvas.osd.box.extendTo (x, y)) P canvas (canvas'.extendTo x y) := by
  refine ⟨h.width, h.height, ?_, h.area, h.written⟩
  rw [← h.effect.box]
  rfl

theorem drawCode_effect {face : Face} {code : ℕ} {mark : Mark} (hmark : face.mark code = some mark)
    (y1 : ℤ) (color_base : ℕ) (canvas : Canvas) (x1 : ℤ) :
    Effect (canvas.osd.box.extendTo (x1 + mark.advance, y1 + mark.bottom))
        (mark.Writes canvas.osd.width canvas.osd.height x1 y1) canvas
        (Canvas.drawCode face y1 color_base (canvas, x1) code).1 ∧
      (Canvas.drawCode face y1 color_base (canvas, x1) code).2 = x1 + mark.advance := by
  cases face with
  | font fontchar =>
    obtain ⟨char, hchar, rfl⟩ := Option.map_eq_some_iff.1 hmark
    unfold Canvas.drawCode
    dsimp only
    rw [hchar]
    refine ⟨?_, rfl⟩
    have hpaints := paints_putRows canvas (y1 * canvas.osd.width + x1) char.width char.height
      fun y x => char.bmp (y * char.width + x) + color_base
    refine (hpaints.congr fun c => ?_).extendTo (x1 + char.width) (y1 + char.height)
    unfold Mark.Writes
    simp only [zero_mul, sub_zero, add_zero]
  | ft2 load =>
    obtain ⟨slot, hslot, rfl⟩ := Option.map_eq_some_iff.1 hmark
    unfold Canvas.drawCode
    dsimp only
    rw [hslot, add_zero]
    refine ⟨?_, rfl⟩
    have hpaints := paints_putRows canvas
      (y1 * canvas.osd.width + x1 - slot.bitmap_top * canvas.osd.width + slot.bitmap_left) slot.width
      slot.rows fun y x => (slot.buffer (y * slot.pitch + x) / 26 + 1) % 256 + color_base
    exact hpaints.extendTo (x1 + slot.advance_x / 64) y1

theorem drawCode_none {face : Face} {code : ℕ} (hmark : face.mark code = none) (y1 : ℤ) (color_base : ℕ)
    (state : Canvas × ℤ) : Canvas.drawCode face y1 color_base state code = state := by
  cases face with
  | font fontchar =>
    have hchar := Option.map_eq_none_iff.1 hmark
    unfold Canvas.drawCode
    dsimp only
    rw [hchar]
  | ft2 load =>
    have hslot := Option.map_eq_none_iff.1 hmark
    unfold Canvas.drawCode
    dsimp only
    rw [hslot]

theorem text_effect (face : Face) (y1 : ℤ) (color_base : ℕ) (text : List ℕ) (canvas : Canvas) (x1 : ℤ) :
    Effect ((textTos face y1 x1 text).foldl Box.extendTo canvas.osd.box)
      (textWrites face canvas.osd.width canvas.osd.height y1 x1 text) canvas
      (text.foldl (Canvas.drawCode face y1 color_base) (canvas, x1)).1 := by
  induction text generalizing canvas x1 with
  | nil => exact (Paints.refl canvas).effect
  | cons code text ih =>
    rw [List.foldl_cons]
    unfold textTos textWrites
    cases hmark : face.mark code with
    | none =>
      rw [drawCode_none hmark]
      exact ih canvas x1
    | some mark =>
      obtain ⟨heffect, hx⟩ := drawCode_effect hmark y1 color_base canvas x1
      have hrest := ih (Canvas.drawCode face y1 color_base (canvas, x1) code).1 (x1 + mark.advance)
      rw [heffect.width, heffect.height, heffect.box] at hrest
      have hpair : Canvas.drawCode face y1 color_base (canvas, x1) code =
          ((Canvas.drawCode face y1 color_base (canvas, x1) code).1, x1 + mark.advance) :=
        Prod.ext rfl hx
      rw [hpair]
      exact heffect.trans hrest

/-- The offset of an element between a corner that the call begins at and one that it ends at. -/
def Call.Covers (width : ℤ) (call : Call) (c : ℤ) : Prop :=
  ∃ x y, (∃ p ∈ call.froms, p.1 ≤ x ∧ p.2 ≤ y) ∧ (∃ p ∈ call.tos, x ≤ p.1 ∧ y ≤ p.2) ∧
    c = y * width + x

theorem textWrites_font {fontchar : List FontChar} {y c : ℤ} (text : List ℕ) (x : ℤ)
    (h : textWrites (.font fontchar) width height y x text c) :
    ∃ x' y', x ≤ x' ∧ y ≤ y' ∧ (∃ p ∈ textTos (.font fontchar) y x text, x' ≤ p.1 ∧ y' ≤ p.2) ∧
      c = y' * width + x' := by
  induction text generalizing x with
  | nil => exact h.elim
  | cons code text ih =>
    unfold textWrites at h
    unfold textTos
    cases hmark : (Face.font fontchar).mark code with
    | none =>
      rw [hmark] at h
      exact ih x h
    | some mark =>
      rw [hmark] at h
      obtain ⟨char, -, rfl⟩ := Option.map_eq_some_iff.1 hmark
      rcases h with ⟨row, hrow, i, hi, hc, -⟩ | hrest
      · refine ⟨x + i, y + row, by omega, by omega, ⟨_, List.mem_cons_self, ?_, ?_⟩, ?_⟩
        · dsimp only at hi ⊢
          omega
        · dsimp only at hrow ⊢
          omega
        · rw [hc]
          ring
      · obtain ⟨x', y', hx, hy, ⟨p, hp, hle⟩, hc⟩ := ih _ hrest
        dsimp only at hx
        exact ⟨x', y', by omega, hy, ⟨p, List.mem_cons_of_mem _ hp, hle⟩, hc⟩

theorem call_effect (canvas : Canvas) (call : Call) (hclear : call ≠ .clear) :
    ∃ P, Effect (canvas.osd.box.extend call) P canvas (canvas.call call) ∧
      (∀ c, P c → call.Covers canvas.osd.width c ∨
        call.GlyphWrites canvas.osd.width canvas.osd.height c) ∧
      ∀ c, call.GlyphWrites canvas.osd.width canvas.osd.height c → P c := by
  cases call with
  | point x y color =>
    refine ⟨_, Effect.of_extend (paints_put _ _ color), ?_, fun _ => False.elim⟩
    rintro c ⟨rfl, -⟩
    exact Or.inl ⟨x, y, ⟨_, List.mem_singleton_self _, le_refl x, le_refl y⟩,
      ⟨_, List.mem_singleton_self _, by dsimp only; omega, by dsimp only; omega⟩, rfl⟩
  | line x1 y1 x2 y2 color =>
    have hcovers : ∀ c, InRect canvas.osd.width (min x1 x2) (min y1 y2) (max x1 x2) (max y1 y2) c →
        (Call.line x1 y1 x2 y2 color).Covers canvas.osd.width c := by
      rintro c ⟨x, y, hleft, hright, htop, hbottom, hc⟩
      exact ⟨x, y, ⟨_, List.mem_singleton_self _, hleft, htop⟩,
        ⟨_, List.mem_singleton_self _, hright, hbottom⟩, hc⟩
    unfold Canvas.call Canvas.osdLine
    dsimp only
    by_cases hflat : |x1 - x2| ≥ |y1 - y2|
    · rw [if_pos hflat]
      obtain ⟨P, hpaints, hrect⟩ := paints_flatLine
        ((canvas.extendFrom (min x1 x2) (min y1 y2)).extendTo (max x1 x2) (max y1 y2)) x1 y1 x2 y2 color
      exact ⟨P, Effect.of_extend hpaints, fun c hc => Or.inl (hcovers c (hrect c hc)),
        fun _ => False.elim⟩
    · rw [if_neg hflat]
      obtain ⟨P, hpaints, hrect⟩ := paints_steepLine
        ((canvas.extendFrom (min x1 x2) (min y1 y2)).extendTo (max x1 x2) (max y1 y2)) x1 y1 x2 y2 color
      exact ⟨P, Effect.of_extend hpaints, fun c hc => Or.inl (hcovers c (hrect c hc)),
        fun _ => False.elim⟩
  | filledRect x1 y1 x2 y2 color =>
    refine ⟨_, Effect.of_extend (paints_rows _ _ _ _ _ _), ?_, fun _ => False.elim⟩
    rintro c ⟨row, hrow, i, hi, rfl⟩
    refine Or.inl ⟨min x1 x2 + i, min y1 y2 + row, ⟨_, List.mem_singleton_self _, ?_, ?_⟩,
      ⟨_, List.mem_singleton_self _, ?_, ?_⟩, ?_⟩
    · dsimp only
      omega
    · dsimp only
      omega
    · dsimp only
      omega
    · dsimp only
      omega
    · rw [add_assoc]
      rfl
  | renderText face x1 y1 text color_base =>
    cases face with
    | none =>
      exact ⟨_, (Paints.refl canvas).effect, fun _ => False.elim, fun _ => False.elim⟩
    | some face =>
      refine ⟨_, (text_effect face y1 _ text (canvas.extendFrom x1 y1) x1).of_extendFrom, ?_, ?_⟩
      · intro c hc
        cases face with
        | font fontchar =>
          obtain ⟨x, y, hx, hy, hto, heq⟩ := textWrites_font text x1 hc
          exact Or.inl ⟨x, y, ⟨_, List.mem_singleton_self _, hx, hy⟩, hto, heq⟩
        | ft2 load => exact Or.inr hc
      · intro c hc
        cases face with
        | font fontchar => exact hc.elim
        | ft2 load => exact hc
  | drawBitmap bitmap x1 y1 width height palette_map =>
    refine ⟨_, Effect.of_extend (paints_rows _ _ _ _ _ _), ?_, fun _ => False.elim⟩
    rintro c ⟨row, hrow, i, hi, rfl⟩
    refine Or.inl ⟨x1 + i, y1 + row, ⟨_, List.mem_singleton_self _, ?_, ?_⟩,
      ⟨_, List.mem_singleton_self _, ?_, ?_⟩, ?_⟩
    · dsimp only
      omega
    · dsimp only
      omega
    · dsimp only
      omega
    · dsimp only
      omega
    · rw [add_assoc]
      rfl
  | clear => exact absurd rfl hclear

theorem osdClear_area (canvas : Canvas) {c : ℤ} (hc : 0 ≤ c)
    (hlt : c < canvas.osd.width * canvas.osd.height) : canvas.osdClear.osd.area c = 0 :=
  if_pos ⟨hc, hlt⟩

end Calls

/-! ## Sequences of calls -/

section Spans

variable {box : Box} {width height : ℤ} {calls : List Call} {z : ℤ × ℤ}

/-- The rectangle begins behind `z`. -/
def Box.After (box : Box) (z : ℤ × ℤ) : Prop := z.1 ≤ box.x1 ∧ z.2 ≤ box.y1

/-- The rectangle ends before `z`. -/
def Box.Before (box : Box) (z : ℤ × ℤ) : Prop := box.x2 < z.1 ∧ box.y2 < z.2

theorem after_foldl_extendFrom (ps : List (ℤ × ℤ)) (box : Box) :
    ((ps.foldl Box.extendFrom box).After z ↔ box.After z ∧ ∀ p ∈ ps, z.1 ≤ p.1 ∧ z.2 ≤ p.2) ∧
      ((ps.foldl Box.extendFrom box).Before z ↔ box.Before z) := by
  induction ps generalizing box with
  | nil => exact ⟨by simp, Iff.rfl⟩
  | cons p ps ih =>
    rw [List.foldl_cons]
    obtain ⟨hafter, hbefore⟩ := ih (box.extendFrom p)
    refine ⟨?_, hbefore⟩
    have hstep : (box.extendFrom p).After z ↔ box.After z ∧ z.1 ≤ p.1 ∧ z.2 ≤ p.2 := by
      unfold Box.After Box.extendFrom
      dsimp only
      omega
    rw [hafter, hstep, List.forall_mem_cons, and_assoc]

theorem before_foldl_extendTo (ps : List (ℤ × ℤ)) (box : Box) :
    ((ps.foldl Box.extendTo box).Before z ↔ box.Before z ∧ ∀ p ∈ ps, p.1 < z.1 ∧ p.2 < z.2) ∧
      ((ps.foldl Box.extendTo box).After z ↔ box.After z) := by
  induction ps generalizing box with
  | nil => exact ⟨by simp, Iff.rfl⟩
  | cons p ps ih =>
    rw [List.foldl_cons]
    obtain ⟨hbefore, hafter⟩ := ih (box.extendTo p)
    refine ⟨?_, hafter⟩
    have hstep : (box.extendTo p).Before z ↔ box.Before z ∧ p.1 < z.1 ∧ p.2 < z.2 := by
      unfold Box.Before Box.extendTo
      dsimp only
      omega
    rw [hbefore, hstep, List.forall_mem_cons, and_assoc]

theorem span_after (width height : ℤ) (calls : List Call) (z : ℤ × ℤ) :
    (span width height calls).After z ↔
      (z.1 ≤ width ∧ z.2 ≤ height) ∧ ∀ call ∈ calls, ∀ p ∈ call.froms, z.1 ≤ p.1 ∧ z.2 ≤ p.2 := by
  induction calls using List.reverseRecOn with
  | nil => exact (and_iff_left fun _ hcall => absurd hcall List.not_mem_nil).symm
  | append_singleton calls call ih =>
    unfold span at ih ⊢
    rw [List.foldl_append, List.foldl_cons, List.foldl_nil, Box.extend, (before_foldl_extendTo _ _).2,
      (after_foldl_extendFrom _ _).1, ih, List.forall_mem_append, List.forall_mem_singleton, and_assoc]

theorem span_before (width height : ℤ) (calls : List Call) (z : ℤ × ℤ) :
    (span width height calls).Before z ↔
      (0 < z.1 ∧ 0 < z.2) ∧ ∀ call ∈ calls, ∀ p ∈ call.tos, p.1 < z.1 ∧ p.2 < z.2 := by
  induction calls using List.reverseRecOn with
  | nil => exact (and_iff_left fun _ hcall => absurd hcall List.not_mem_nil).symm
  | append_singleton calls call ih =>
    unfold span at ih ⊢
    rw [List.foldl_append, List.foldl_cons, List.foldl_nil, Box.extend, (before_foldl_extendTo _ _).1,
      (after_foldl_extendFrom _ _).2, ih, List.forall_mem_append, List.forall_mem_singleton, and_assoc]

theorem span_within (width height : ℤ) (calls : List Call) :
    (span width height calls).After (0, 0) ∧ (span width height calls).Before (width, height) ↔
      0 < width ∧ 0 < height ∧ ∀ call ∈ calls, call.Within width height := by
  rw [span_after, span_before]
  unfold Call.Within
  constructor
  · rintro ⟨⟨-, hfroms⟩, ⟨hwidth, hheight⟩, htos⟩
    exact ⟨hwidth, hheight, fun call hcall => ⟨hfroms call hcall, htos call hcall⟩⟩
  · rintro ⟨hwidth, hheight, hwithin⟩
    exact ⟨⟨⟨hwidth.le, hheight.le⟩, fun call hcall => (hwithin call hcall).1⟩, ⟨hwidth, hheight⟩,
      fun call hcall => (hwithin call hcall).2⟩

theorem Call.Covers.holds {call : Call} {c : ℤ} (h : call.Covers width c) (hcall : call ∈ calls) :
    (span width height calls).Holds width c := by
  obtain ⟨x, y, ⟨p, hp, hfrom⟩, ⟨q, hq, hto⟩, hc⟩ := h
  have hafter := ((span_after width height calls
    ((span width height calls).x1, (span width height calls).y1)).1 ⟨le_refl _, le_refl _⟩).2 call hcall p hp
  have hbefore := ((span_before width height calls
    ((span width height calls).x2 + 1, (span width height calls).y2 + 1)).1
      ⟨Int.lt_succ _, Int.lt_succ _⟩).2 call hcall q hq
  dsimp only at hafter hbefore
  exact ⟨x, y, by omega, by omega, by omega, by omega, hc⟩

/-- What some calls since the last clearing have made of a canvas. -/
structure Drawn (width height : ℤ) (since : List Call) (canvas : Canvas) : Prop where
  width_eq : canvas.osd.width = width
  height_eq : canvas.osd.height = height
  box : canvas.osd.box = span width height since
  written : ∀ c ∈ canvas.written, ∃ call ∈ since,
    call.Covers width c ∨ call.GlyphWrites width height c
  glyphs : ∀ call ∈ since, ∀ c, call.GlyphWrites width height c → c ∈ canvas.written
  /-- What has not been written is as it was cleared. -/
  zero : ∀ c, 0 ≤ c → c < width * height → c ∉ canvas.written → canvas.osd.area c = 0

theorem Drawn.call {since : List Call} {canvas : Canvas} (h : Drawn width height since canvas)
    {call : Call} (hclear : call ≠ .clear) :
    Drawn width height (since ++ [call]) (canvas.call call) := by
  obtain ⟨P, heffect, hcovers, hglyphs⟩ := call_effect canvas call hclear
  rw [h.width_eq, h.height_eq] at hglyphs
  rw [h.width_eq, h.height_eq] at hcovers
  refine ⟨heffect.width.trans h.width_eq, heffect.height.trans h.height_eq, ?_, ?_, ?_, ?_⟩
  · rw [heffect.box, h.box]
    unfold span
    rw [List.foldl_append]
    rfl
  · intro c hc
    rcases (heffect.written c).1 hc with hc | hc
    · obtain ⟨call', hcall', hcovers'⟩ := h.written c hc
      exact ⟨call', List.mem_append_left _ hcall', hcovers'⟩
    · exact ⟨call, List.mem_append_right _ (List.mem_singleton_self call), hcovers c hc⟩
  · intro call' hcall' c hc
    rcases List.mem_append.1 hcall' with hcall' | hcall'
    · exact (heffect.written c).2 (Or.inl (h.glyphs call' hcall' c hc))
    · obtain rfl := List.mem_singleton.1 hcall'
      exact (heffect.written c).2 (Or.inr (hglyphs c hc))
  · intro c hc hlt hnot
    obtain ⟨hold, hP⟩ := not_or.1 (mt (heffect.written c).2 hnot)
    rw [heffect.area c hP]
    exact h.zero c hc hlt hold

theorem Drawn.clear {since : List Call} {canvas : Canvas} (h : Drawn width height since canvas) :
    Drawn width height [] (canvas.call .clear) := by
  refine ⟨h.width_eq, h.height_eq, ?_, fun c hc => absurd hc List.not_mem_nil,
    fun call hcall => absurd hcall List.not_mem_nil, ?_⟩
  · rw [span, List.foldl_nil, Box.start, ← h.width_eq, ← h.height_eq]
    rfl
  · intro c hc hlt _
    rw [← h.width_eq, ← h.height_eq] at hlt
    exact osdClear_area canvas hc hlt

theorem drawn (width height : ℤ) (around : ℤ → ℕ) (calls : List Call) :
    Drawn width height (sinceClear calls) (draw width height around calls) := by
  induction calls using List.reverseRecOn with
  | nil =>
    refine ⟨rfl, rfl, rfl, fun c hc => absurd hc List.not_mem_nil,
      fun call hcall => absurd hcall List.not_mem_nil, fun c hc hlt _ => if_pos ⟨hc, hlt⟩⟩
  | append_singleton calls call ih =>
    unfold draw sinceClear at ih ⊢
    rw [List.foldl_append, List.foldl_append, List.foldl_cons, List.foldl_cons, List.foldl_nil,
      List.foldl_nil]
    cases call with
    | clear => exact ih.clear
    | point x y color => exact ih.call (Call.noConfusion)
    | line x1 y1 x2 y2 color => exact ih.call (Call.noConfusion)
    | filledRect x1 y1 x2 y2 color => exact ih.call (Call.noConfusion)
    | renderText face x1 y1 text color_base => exact ih.call (Call.noConfusion)
    | drawBitmap bitmap x1 y1 width height palette_map => exact ih.call (Call.noConfusion)

end Spans

end Xine.Osd
