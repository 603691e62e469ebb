import Mathlib.Algebra.Order.Group.Abs
import Mathlib.Algebra.Order.Group.Int
import Mathlib.Tactic.Common

/-!
# The run-length encoding of an OSD

`osd_show` of `osd.c`: the changed rectangle of the drawing area goes into an overlay, line by line, as runs of
one color. The array of the runs begins with 1024 elements, and is enlarged by as many when a run that does not
end its line finds too little room.
-/

namespace Xine.Osd

/-- `osd_object_t`: the drawing area, and the rectangle of it that has changed. The area is a function of
the offset, with whatever is around it. -/
structure OsdObject where
  width : ℤ
  height : ℤ
  area : ℤ → ℕ
  x1 : ℤ
  y1 : ℤ
  x2 : ℤ
  y2 : ℤ

def osdNewObject (width height : ℤ) (around : ℤ → ℕ) : OsdObject where
  width := width
  height := height
  area := fun offset => if 0 ≤ offset ∧ offset < width * height then 0 else around offset
  x1 := width
  y1 := height
  x2 := 0
  y2 := 0

/-- `osd_filled_rect`. -/
def OsdObject.filledRect (osd : OsdObject) (x1 y1 x2 y2 : ℤ) (color : ℕ) : OsdObject :=
  let x := min x1 x2
  let y := min y1 y2
  let dx := max x1 x2 - x
  let dy := max y1 y2 - y
  { osd with
    x1 := min osd.x1 x
    x2 := max osd.x2 (max x1 x2)
    y1 := min osd.y1 y
    y2 := max osd.y2 (max y1 y2)
    area := fun offset =>
      if (List.range dy.toNat).any fun row =>
          decide ((y + row) * osd.width + x ≤ offset ∧ offset < (y + row) * osd.width + x + dx)
      then color % 256 else osd.area offset }

structure RleElem where
  len : ℕ
  color : ℕ

/-- What the loops of `osd_show` work on: the run that is counted, and the array of the overlay. -/
structure Show where
  rle : RleElem
  num_rle : ℕ
  data_size : ℕ
  elements : List RleElem
  writes : List (ℕ × ℕ)

/-- `*rle_p++ = rle; num_rle++`. -/
def Show.write (s : Show) : Show :=
  { s with
    num_rle := s.num_rle + 1
    elements := s.elements ++ [s.rle]
    writes := s.writes ++ [(s.num_rle, s.data_size)] }

/-- The array is enlarged. -/
def Show.grow (spare : ℤ) (s : Show) : Show :=
  if (s.data_size : ℤ) < s.num_rle + spare then { s with data_size := s.data_size + 1024 } else s

/-- A pixel of a line. -/
def Show.pixel (spare : ℤ) (s : Show) (c : ℕ) : Show :=
  if s.rle.color ≠ c then
    let s := if s.rle.len ≠ 0 then (s.grow spare).write else s
    { s with rle := { len := 1, color := c } }
  else
    { s with rle := { s.rle with len := (s.rle.len + 1) % 65536 } }

/-- A line. -/
def Show.line (spare : ℤ) (s : Show) (pixels : List ℕ) : Show :=
  (pixels.foldl (Show.pixel spare) { s with rle := { len := 0, color := 0 } }).write

/-- The rectangle that is shown, which is not larger than the object. -/
def OsdObject.clamp (osd : OsdObject) : OsdObject :=
  { osd with
    x1 := min osd.x1 osd.width
    x2 := min osd.x2 osd.width
    y1 := min osd.y1 osd.height
    y2 := min osd.y2 osd.height }

/-- The pixels of the line `y` of the rectangle. -/
def OsdObject.pixels (osd : OsdObject) (y : ℤ) : List ℕ :=
  (List.range (osd.x2 - osd.x1 + 1).toNat).map fun i : ℕ => osd.area (y * osd.width + osd.x1 + i)

/-- The lines of the rectangle. -/
def OsdObject.lines (osd : OsdObject) : List (List ℕ) :=
  (List.range (osd.y2 - osd.y1 + 1).toNat).map fun i : ℕ => osd.pixels (osd.y1 + i)

/-- The array of the overlay that `osd_show` makes. Nothing is made when nothing is drawn. -/
def OsdObject.osdShow (osd : OsdObject) : Option Show :=
  if osd.x1 ≤ osd.x2 then
    let osd := osd.clamp
    some (osd.lines.foldl (Show.line (osd.y2 - osd.y1))
      { rle := { len := 0, color := 0 }, num_rle := 0, data_size := 1024, elements := [],
        writes := [] })
  else
    none

end Xine.Osd

/-!
## Drawing on an OSD

The drawing functions of `osd.c`. Each of them widens the rectangle that has changed, and writes into the
area; the offsets that are written, since the area has been cleared, are logged in `written`, which is not
in the code.

A character of a text is a number of 16 bits, as `osd_iconv_getunicode` gives it. It is looked up in the
font of the OSD, or rendered by FreeType, of which the slot that it leaves is a parameter.
-/

namespace Xine.Osd

/-- An OSD, with the offsets that have been written since it has been cleared. -/
structure Canvas where
  osd : OsdObject
  written : List ℤ

/-- `osd_fontchar_t`. -/
structure FontChar where
  code : ℕ
  width : ℕ
  height : ℕ
  bmp : ℕ → ℕ

/-- `FT_GlyphSlot`, after a glyph has been loaded and rendered. -/
structure GlyphSlot where
  bitmap_left : ℤ
  bitmap_top : ℤ
  rows : ℕ
  width : ℕ
  pitch : ℤ
  buffer : ℤ → ℕ
  advance_x : ℤ

/-- What the characters of a text are drawn with: the characters of a font, or FreeType, which may fail
to load a glyph. -/
inductive Face where
  | font (fontchar : List FontChar)
  | ft2 (load : ℕ → Option GlyphSlot)

/-- `ALIAS_CHARACTER_FONT`, which is used if a character is not in the font. -/
def aliasCharacterFont : ℕ := 95

def ovlPaletteSize : ℤ := 256

def textPaletteSize : ℤ := 11

namespace Canvas

variable (canvas : Canvas)

/-- `*c = color`. -/
def store (c : ℤ) (color : ℕ) : Canvas where
  osd := { canvas.osd with area := Function.update canvas.osd.area c (color % 256) }
  written := canvas.written ++ [c]

/-- `*c = color`, unless `c` is too far behind the area. -/
def put (c : ℤ) (color : ℕ) : Canvas :=
  if c ≤ canvas.osd.width * canvas.osd.height then canvas.store c color else canvas

/-- `n` elements from `c` on, with `memset` or `memcpy`. -/
def fill (c : ℤ) (n : ℕ) (color : ℕ → ℕ) : Canvas :=
  (List.range n).foldl (fun canvas (i : ℕ) => canvas.store (c + i) (color i)) canvas

/-- The rectangle begins there at the latest. -/
def extendFrom (x y : ℤ) : Canvas :=
  { canvas with osd := { canvas.osd with x1 := min canvas.osd.x1 x, y1 := min canvas.osd.y1 y } }

/-- The rectangle ends there at the earliest. -/
def extendTo (x y : ℤ) : Canvas :=
  { canvas with osd := { canvas.osd with x2 := max canvas.osd.x2 x, y2 := max canvas.osd.y2 y } }

def osdClear : Canvas where
  osd := { canvas.osd with
    area := fun offset =>
      if 0 ≤ offset ∧ offset < canvas.osd.width * canvas.osd.height then 0 else canvas.osd.area offset
    x1 := canvas.osd.width
    y1 := canvas.osd.height
    x2 := 0
    y2 := 0 }
  written := []

def osdPoint (x y : ℤ) (color : ℕ) : Canvas :=
  ((canvas.extendFrom x y).extendTo (x + 1) (y + 1)).put (y * canvas.osd.width + x) color

end Canvas

/-! ## Lines -/

/-- Where `osd_line` is: the pixel, the decision variable, and the offset of the pixel. -/
structure Pen where
  x : ℤ
  y : ℤ
  d : ℤ
  c : ℤ

/-- The next pixel of a line that is as wide as it is high, or wider. -/
def Pen.flatStep (width inc inc1 inc2 : ℤ) (pen : Pen) : Pen :=
  if pen.d < 0 then
    { pen with c := pen.c + 1, x := pen.x + 1, d := pen.d + inc1 }
  else
    { x := pen.x + 1, y := pen.y + inc, d := pen.d + inc2
      c := (pen.y + inc) * width + (pen.x + 1) }

/-- The next pixel of a line that is higher than wide. -/
def Pen.steepStep (width inc inc1 inc2 : ℤ) (pen : Pen) : Pen :=
  if pen.d < 0 then
    { pen with c := pen.c + width, y := pen.y + 1, d := pen.d + inc1 }
  else
    { x := pen.x + inc, y := pen.y + 1, d := pen.d + inc2
      c := (pen.y + 1) * width + (pen.x + inc) }

namespace Canvas

variable (canvas : Canvas)

/-- The loops of `osd_line`, which draw a given number of pixels. -/
def stroke (step : Pen → Pen) (color : ℕ) : ℕ → Pen → Canvas → Canvas
  | 0, _, canvas => canvas
  | n + 1, pen, canvas => stroke step color n (step pen) (canvas.put pen.c color)

/-- `osd_line`, when the difference of the rows is at most that of the columns. The last pixel is not
drawn. -/
def flatLine (x1 y1 x2 y2 : ℤ) (color : ℕ) : Canvas :=
  let dx := |x1 - x2|
  let dy := |y1 - y2|
  let a : ℤ × ℤ := if x1 > x2 then (x2, y2) else (x1, y1)
  let b : ℤ × ℤ := if x1 > x2 then (x1, y1) else (x2, y2)
  let inc := if b.2 > a.2 then 1 else -1
  stroke (Pen.flatStep canvas.osd.width inc (2 * dy) (2 * (dy - dx))) color (b.1 - a.1).toNat
    ⟨a.1, a.2, 2 * dy - dx, a.2 * canvas.osd.width + a.1⟩ canvas

/-- `osd_line`, when the difference of the rows is greater. -/
def steepLine (x1 y1 x2 y2 : ℤ) (color : ℕ) : Canvas :=
  let dx := |x1 - x2|
  let dy := |y1 - y2|
  let a : ℤ × ℤ := if y1 > y2 then (x2, y2) else (x1, y1)
  let b : ℤ × ℤ := if y1 > y2 then (x1, y1) else (x2, y2)
  let inc := if b.1 > a.1 then 1 else -1
  stroke (Pen.steepStep canvas.osd.width inc (2 * dx) (2 * (dx - dy))) color (b.2 - a.2).toNat
    ⟨a.1, a.2, 2 * dx - dy, a.2 * canvas.osd.width + a.1⟩ canvas

def osdLine (x1 y1 x2 y2 : ℤ) (color : ℕ) : Canvas :=
  let canvas := (canvas.extendFrom (min x1 x2) (min y1 y2)).extendTo (max x1 x2) (max y1 y2)
  if |x1 - x2| ≥ |y1 - y2| then canvas.flatLine x1 y1 x2 y2 color
  else canvas.steepLine x1 y1 x2 y2 color

/-! ## Rectangles and bitmaps -/

/-- Rows of `width` elements, from the column `x` of the row `y` on. -/
def rows (x y : ℤ) (width height : ℕ) (color : ℕ → ℕ → ℕ) : Canvas :=
  (List.range height).foldl
    (fun canvas (row : ℕ) => canvas.fill ((y + row) * canvas.osd.width + x) width (color row)) canvas

def osdFilledRect (x1 y1 x2 y2 : ℤ) (color : ℕ) : Canvas :=
  let x := min x1 x2
  let y := min y1 y2
  let dx := max x1 x2
  let dy := max y1 y2
  ((canvas.extendFrom x y).extendTo dx dy).rows x y (dx - x).toNat (dy - y).toNat fun _ _ => color

/-- `osd_draw_bitmap`, with a palette or without. -/
def osdDrawBitmap (bitmap : ℕ → ℕ) (x1 y1 : ℤ) (width height : ℕ) (palette_map : Option (ℕ → ℕ)) :
    Canvas :=
  ((canvas.extendFrom x1 y1).extendTo (x1 + width - 1) (y1 + height - 1)).rows x1 y1 width height
    fun y x =>
      match palette_map with
      | some palette_map => palette_map (bitmap (y * width + x))
      | none => bitmap (y * width + x)

end Canvas

/-! ## Texts -/

/-- The loop of `osd_search`. -/
def searchLoop (array : List FontChar) (code : ℕ) : ℕ → ℕ → ℕ → ℕ
  | 0, _, right => right
  | fuel + 1, left, right =>
    if left < right then
      let i := (left + right) / 2
      if code ≤ (array[i]?.map FontChar.code).getD 0 then searchLoop array code fuel left i
      else searchLoop array code fuel (i + 1) right
    else right

/-- `osd_search`: the index of a character in the font, or of the alias, or the number of characters. -/
def osdSearch (array : List FontChar) (code : ℕ) : ℕ :=
  if array.length = 0 then 0
  else
    let right := searchLoop array code array.length 0 (array.length - 1)
    if array[right]?.map FontChar.code = some code then right
    else if aliasCharacterFont < array.length then aliasCharacterFont else array.length

namespace Canvas

variable (canvas : Canvas)

/-- A row of a character. -/
def putRow (c : ℤ) (n : ℕ) (color : ℕ → ℕ) : Canvas :=
  (List.range n).foldl (fun canvas (i : ℕ) => canvas.put (c + i) (color i)) canvas

/-- The rows of a character, the first of which is at `c`. -/
def putRows (c : ℤ) (width height : ℕ) (color : ℕ → ℕ → ℕ) : Canvas :=
  (List.range height).foldl
    (fun canvas (row : ℕ) => canvas.putRow (c + row * canvas.osd.width) width (color row)) canvas

/-- A character of a font. -/
def drawFontChar (char : FontChar) (x1 y1 : ℤ) (color_base : ℕ) : Canvas :=
  (canvas.putRows (y1 * canvas.osd.width + x1) char.width char.height fun y x =>
    char.bmp (y * char.width + x) + color_base).extendTo (x1 + char.width) (y1 + char.height)

/-- A glyph that FreeType has rendered. -/
def drawGlyph (slot : GlyphSlot) (x1 y1 : ℤ) (color_base : ℕ) : Canvas :=
  (canvas.putRows
    (y1 * canvas.osd.width + x1 - slot.bitmap_top * canvas.osd.width + slot.bitmap_left) slot.width
      slot.rows fun y x =>
        (slot.buffer (y * slot.pitch + x) / 26 + 1) % 256 + color_base).extendTo
    (x1 + slot.advance_x / 64) y1

/-- A character of a text, at the column `x1`, with the column of the next one. -/
def drawCode (face : Face) (y1 : ℤ) (color_base : ℕ) (state : Canvas × ℤ) (code : ℕ) : Canvas × ℤ :=
  match face with
  | .font fontchar =>
    match fontchar[osdSearch fontchar code]? with
    | some char => (state.1.drawFontChar char state.2 y1 color_base, state.2 + char.width)
    | none => state
  | .ft2 load =>
    match load code with
    | some slot => (state.1.drawGlyph slot state.2 y1 color_base, state.2 + slot.advance_x / 64)
    | none => state

/-- `osd_render_text`. Nothing is drawn when no font is defined. -/
def osdRenderText (face : Option Face) (x1 y1 : ℤ) (text : List ℕ) (color_base : ℤ) : Canvas :=
  match face with
  | some face =>
    let color_base := if color_base < 0 then 0
      else if color_base > ovlPaletteSize - textPaletteSize then ovlPaletteSize - textPaletteSize
      else color_base
    (text.foldl (drawCode face y1 color_base.toNat) (canvas.extendFrom x1 y1, x1)).1
  | none => canvas

end Canvas

/-! ## Calls -/

/-- A call of a drawing function. -/
inductive Call where
  | point (x y : ℤ) (color : ℕ)
  | line (x1 y1 x2 y2 : ℤ) (color : ℕ)
  | filledRect (x1 y1 x2 y2 : ℤ) (color : ℕ)
  | renderText (face : Option Face) (x1 y1 : ℤ) (text : List ℕ) (color_base : ℤ)
  | drawBitmap (bitmap : ℕ → ℕ) (x1 y1 : ℤ) (width height : ℕ) (palette_map : Option (ℕ → ℕ))
  | clear

/-- The canvas after a call. -/
def Canvas.call (canvas : Canvas) : Call → Canvas
  | .point x y color => canvas.osdPoint x y color
  | .line x1 y1 x2 y2 color => canvas.osdLine x1 y1 x2 y2 color
  | .filledRect x1 y1 x2 y2 color => canvas.osdFilledRect x1 y1 x2 y2 color
  | .renderText face x1 y1 text color_base => canvas.osdRenderText face x1 y1 text color_base
  | .drawBitmap bitmap x1 y1 width height palette_map =>
    canvas.osdDrawBitmap bitmap x1 y1 width height palette_map
  | .clear => canvas.osdClear

/-- The canvas after some calls on a new object. -/
def draw (width height : ℤ) (around : ℤ → ℕ) (calls : List Call) : Canvas :=
  calls.foldl Canvas.call ⟨osdNewObject width height around, []⟩

end Xine.Osd
