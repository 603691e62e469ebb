import Mathlib.Algebra.Order.Ring.Nat
import Mathlib.Data.Fin.Basic
import Xine.Library.Runs

/-!
# The closed caption decoder

`cc_decode_EIA608` of `cc_decoder.c` and what it calls: the captioning memories with both channels, and
the control codes. The decoder writes to the off-screen memory; the other one is on the screen. A store
beyond the cells of a row is `none`. When a caption is shown or hidden is left out.
-/

namespace Xine.Cc

abbrev CC_ROWS : ℕ := 15
abbrev CC_COLUMNS : ℕ := 32
abbrev CC_CHANNELS : ℕ := 2

scoped instance neZeroChannels : NeZero CC_CHANNELS := ⟨by decide⟩

def WHITE : ℕ := 0
def BLACK : ℕ := 7

/-- The code for transparent space. -/
def TRANSP_SPACE : ℕ := 0x19

/-! ## The captioning memory -/

structure CcAttribute where
  italic : ℕ
  underline : ℕ
  foreground : ℕ
  background : ℕ
deriving DecidableEq

structure CcCharCell where
  c : ℕ
  attributes : CcAttribute
  midrow_attr : Bool
deriving DecidableEq

structure CcRow where
  cells : Vector CcCharCell CC_COLUMNS
  pos : ℕ
  num_chars : ℕ
  attr_chg : Bool
  pac_attr_chg : Bool
  pac_attr : CcAttribute
deriving DecidableEq

/-- `cc_buffer_t`: the memory for a single channel. -/
structure CcBuffer where
  rows : Vector CcRow CC_ROWS
  rowpos : Fin CC_ROWS
deriving DecidableEq

/-- `cc_memory_t`: the memory for all channels, and the active channel. -/
structure CcMemory where
  channel : Vector CcBuffer CC_CHANNELS
  channel_no : Fin CC_CHANNELS

def CcAttribute.zero : CcAttribute := { italic := 0, underline := 0, foreground := 0, background := 0 }

def CcRow.zero : CcRow where
  cells := Vector.replicate CC_COLUMNS { c := 0, attributes := .zero, midrow_attr := false }
  pos := 0
  num_chars := 0
  attr_chg := false
  pac_attr_chg := false
  pac_attr := .zero

def CcBuffer.zero : CcBuffer := { rows := Vector.replicate CC_ROWS .zero, rowpos := 0 }

/-- `ccmem_clear`: all of the memory is zero. -/
def ccmemClear : CcMemory := { channel := Vector.replicate CC_CHANNELS .zero, channel_no := 0 }

/-! ## The buffer of a channel -/

/-- The attributes of a cell. -/
def CcRow.setAttributes (rowbuf : CcRow) (pos : ℕ) (attr : CcAttribute) (h : pos < CC_COLUMNS) : CcRow :=
  { rowbuf with cells := rowbuf.cells.set pos { rowbuf.cells[pos] with attributes := attr } }

def ccrowFillTransp (rowbuf : CcRow) : CcRow :=
  { rowbuf with
    cells := rowbuf.cells.mapIdx fun i cell =>
      if rowbuf.num_chars ≤ i ∧ i < rowbuf.pos then { cell with c := TRANSP_SPACE, midrow_attr := false }
      else cell }

def ccbufHasDisplayable (buf : CcBuffer) : Bool := buf.rows.any fun row => decide (0 < row.num_chars)

def ccbufAddChar (buf : CcBuffer) (c : ℕ) : CcBuffer :=
  let rowbuf := buf.rows[buf.rowpos]
  let pos := rowbuf.pos
  let left_displayable := decide (0 < pos ∧ pos ≤ rowbuf.num_chars)
  if h : pos < CC_COLUMNS then
    let rowbuf := if rowbuf.num_chars < pos then ccrowFillTransp rowbuf else rowbuf
    -- A pending attribute is applied only if no displayable character is to the left.
    let rowbuf := if rowbuf.pac_attr_chg && !rowbuf.attr_chg && !left_displayable then
        { rowbuf.setAttributes pos rowbuf.pac_attr h with attr_chg := true }
      else rowbuf
    let cell := { rowbuf.cells[pos] with c := c, midrow_attr := rowbuf.attr_chg }
    let rowbuf := { rowbuf with
      cells := rowbuf.cells.set pos cell
      pos := pos + 1
      num_chars := if rowbuf.num_chars < pos + 1 then pos + 1 else rowbuf.num_chars
      attr_chg := false
      pac_attr_chg := false }
    { buf with rows := buf.rows.set buf.rowpos rowbuf }
  else buf

def ccbufSetCursor (buf : CcBuffer) (row : Fin CC_ROWS) (column underline italics color : ℕ) :
    CcBuffer where
  rows := buf.rows.set row
    { buf.rows[row] with
      pac_attr :=
        { italic := italics, underline := underline, foreground := color, background := BLACK }
      pac_attr_chg := true
      pos := column
      attr_chg := false }
  rowpos := row

/-- `ccbuf_apply_attribute`. The attribute is stored at the cursor before `ccbuf_add_char` looks whether
the cursor is still on the row. -/
def ccbufApplyAttribute (buf : CcBuffer) (attr : CcAttribute) (space : ℕ) : Option CcBuffer :=
  let rowbuf := buf.rows[buf.rowpos]
  if h : rowbuf.pos < CC_COLUMNS then
    let rowbuf := { rowbuf.setAttributes rowbuf.pos attr h with attr_chg := true }
    some (ccbufAddChar { buf with rows := buf.rows.set buf.rowpos rowbuf } space)
  else none

def ccbufTab (buf : CcBuffer) (tabsize : ℕ) : CcBuffer :=
  let rowbuf := buf.rows[buf.rowpos]
  let pos := if CC_COLUMNS < rowbuf.pos + tabsize then CC_COLUMNS else rowbuf.pos + tabsize
  { buf with rows := buf.rows.set buf.rowpos { rowbuf with pos := pos } }

/-! ## Tables -/

/-- `rowdata`: the row of a preamble address code, where -1 is `none`. -/
def rowdata : Vector (Option (Fin CC_ROWS)) 16 :=
  #v[some 10, none, some 0, some 1, some 2, some 3, some 11, some 12, some 13, some 14, some 4, some 5,
    some 6, some 7, some 8, some 9]

def specialchar : Vector ℕ 16 :=
  #v[0xae, 0xb0, 0xbd, 0xbf, 0x54, 0xa2, 0xa3, 0xb6, 0xe0, TRANSP_SPACE, 0xe8, 0xe2, 0xea, 0xee, 0xf4,
    0xfb]

def rowOf (c1 c2 : ℕ) : Option (Fin CC_ROWS) :=
  rowdata[((c1 &&& 0x07) <<< 1 ||| (c2 &&& 0x20) >>> 5) % 16]

def specialOf (c2 : ℕ) : ℕ := specialchar[(c2 &&& 0xf) % 16]

/-- `chartbl` as `build_char_table` makes it. -/
def chartbl (c : ℕ) : ℕ :=
  match c with
  | 0x2a => 0xe1
  | 0x5c => 0xe9
  | 0x5e => 0xed
  | 0x5f => 0xf3
  | 0x60 => 0xfa
  | 0x7b => 0xe7
  | 0x7c => 0xf7
  | 0x7d => 0xd1
  | 0x7e => 0xf1
  | 0x7f => 0xa4
  | c => c

/-! ## The decoder -/

/-- What the renderer is told. -/
inductive CcDisplay
  | hideCaption
  | showCaption (buf : CcBuffer)
deriving DecidableEq

/-- `cc_decoder_t`. Where `on_buf` is the second memory, the memories are `swapped`; `active` always is
`off_buf`. `displayed` is that of the renderer, and `display` is what it was told so far. -/
structure CcDecoder where
  on_buf : CcMemory
  off_buf : CcMemory
  swapped : Bool
  lastcode : UInt16
  displayed : Bool
  display : List CcDisplay

def ccDecoderOpen : CcDecoder where
  on_buf := ccmemClear
  off_buf := ccmemClear
  swapped := false
  lastcode := 0
  displayed := false
  display := []

def ccSetChannel (d : CcDecoder) (channel : Fin CC_CHANNELS) : CcDecoder :=
  { d with off_buf := { d.off_buf with channel_no := channel } }

def activeCcbuffer (d : CcDecoder) : CcBuffer := d.off_buf.channel[d.off_buf.channel_no]

/-- A store to what `active_ccbuffer` points to. -/
def setActiveCcbuffer (d : CcDecoder) (buf : CcBuffer) : CcDecoder :=
  { d with
    off_buf := { d.off_buf with channel := d.off_buf.channel.set d.off_buf.channel_no buf } }

def ccHideDisplayed (d : CcDecoder) : CcDecoder :=
  if d.displayed then { d with displayed := false, display := d.display ++ [.hideCaption] } else d

/-- `cc_show_displayed`. A caption that is still displayed is hidden first. -/
def ccShowDisplayed (d : CcDecoder) : CcDecoder :=
  let buf := d.on_buf.channel[d.on_buf.channel_no]
  if ccbufHasDisplayable buf then
    let d := ccHideDisplayed d
    { d with displayed := true, display := d.display ++ [.showCaption buf] }
  else d

def ccSwapBuffers (d : CcDecoder) : CcDecoder :=
  let d := ccHideDisplayed d
  ccShowDisplayed { d with on_buf := d.off_buf, off_buf := d.on_buf, swapped := !d.swapped }

def ccDecodeStandardChar (d : CcDecoder) (c1 c2 : ℕ) : CcDecoder :=
  let buf := ccbufAddChar (activeCcbuffer d) (chartbl c1)
  setActiveCcbuffer d (if c2 &&& 0x60 ≠ 0 then ccbufAddChar buf (chartbl c2) else buf)

def ccDecodePAC (d : CcDecoder) (channel : Fin CC_CHANNELS) (c1 c2 : ℕ) : Option CcDecoder :=
  -- One combination is invalid and is ignored.
  if c1 = 0x10 ∧ 0x5f < c2 then some d
  else
    let d := ccSetChannel d channel
    match rowOf c1 c2 with
    | none => none
    | some row =>
      let column := if c2 &&& 0x10 ≠ 0 then ((c2 &&& 0x0e) >>> 1) * 4 else 0
      let italics := if c2 &&& 0x10 = 0 ∧ c2 &&& 0x0e = 0x0e then 1 else 0
      let color := if c2 &&& 0x10 ≠ 0 ∨ c2 &&& 0x0e = 0x0e then WHITE else (c2 &&& 0x0e) >>> 1
      some (setActiveCcbuffer d
        (ccbufSetCursor (activeCcbuffer d) row column (c2 &&& 0x01) italics color))

def ccDecodeExtAttribute (d : CcDecoder) (channel : Fin CC_CHANNELS) : CcDecoder := ccSetChannel d channel

def ccDecodeSpecialChar (d : CcDecoder) (channel : Fin CC_CHANNELS) (c2 : ℕ) : CcDecoder :=
  let d := ccSetChannel d channel
  setActiveCcbuffer d (ccbufAddChar (activeCcbuffer d) (specialOf c2))

def ccDecodeMidrowAttr (d : CcDecoder) (channel : Fin CC_CHANNELS) (c2 : ℕ) : Option CcDecoder :=
  let d := ccSetChannel d channel
  let attr : CcAttribute :=
    { italic := if c2 < 0x2e then 0 else 1
      underline := c2 &&& 0x1
      foreground := if c2 < 0x2e then (c2 &&& 0xe) >>> 1 else WHITE
      background := BLACK }
  (ccbufApplyAttribute (activeCcbuffer d) attr (chartbl 0x20)).map (setActiveCcbuffer d)

def ccDecodeMiscControlCode (d : CcDecoder) (channel : Fin CC_CHANNELS) (c2 : ℕ) : CcDecoder :=
  let d := ccSetChannel d channel
  match c2 with
  -- EDM, erase displayed memory
  | 0x2c => { ccHideDisplayed d with on_buf := ccmemClear }
  -- ENM, erase non-displayed memory
  | 0x2e => { d with off_buf := ccmemClear }
  -- EOC, swap displayed and non displayed memory
  | 0x2f => ccSwapBuffers d
  | _ => d

def ccDecodeTab (d : CcDecoder) (channel : Fin CC_CHANNELS) (c2 : ℕ) : CcDecoder :=
  let d := ccSetChannel d channel
  setActiveCcbuffer d (ccbufTab (activeCcbuffer d) (c2 &&& 0x3))

/-- The bytes of a pair without their parity. -/
def c1Of (data : UInt16) : ℕ := data.toNat &&& 0x7f
def c2Of (data : UInt16) : ℕ := (data.toNat >>> 8) &&& 0x7f

/-- The channel of a control code. -/
def channelOf (data : UInt16) : Fin CC_CHANNELS := if c1Of data &&& 0x08 ≠ 0 then 1 else 0

/-- What `cc_decode_EIA608` does with a control code that was not the last code. -/
def ccDecodeControl (d : CcDecoder) (channel : Fin CC_CHANNELS) (c1 c2 : ℕ) : Option CcDecoder :=
  if c2 &&& 0x40 ≠ 0 then ccDecodePAC d channel c1 c2
  else
    match c1 with
    | 0x10 => some (ccDecodeExtAttribute d channel)
    | 0x11 =>
      if c2 &&& 0x30 = 0x30 then some (ccDecodeSpecialChar d channel c2)
      else if c2 &&& 0x20 ≠ 0 then ccDecodeMidrowAttr d channel c2
      else some d
    | 0x14 => some (ccDecodeMiscControlCode d channel c2)
    | 0x17 => if 0x21 ≤ c2 ∧ c2 ≤ 0x23 then some (ccDecodeTab d channel c2) else some d
    | _ => some d

def ccDecodeEIA608 (d : CcDecoder) (data : UInt16) : Option CcDecoder :=
  let c1 := c1Of data
  let c2 := c2Of data
  let decoded :=
    if c1 &&& 0x60 ≠ 0 then some (ccDecodeStandardChar d c1 c2)
    else if c1 &&& 0x10 ≠ 0 then
      if data ≠ d.lastcode then ccDecodeControl d (channelOf data) (c1 &&& 0x77) c2 else some d
    else some d
  decoded.map fun d => { d with lastcode := data }

/-- The decoder after a sequence of pairs. -/
def decodeAll (d : CcDecoder) (pairs : List UInt16) : Option CcDecoder := Runs.run ccDecodeEIA608 d pairs

end Xine.Cc

/-!
## The commands of the caption decoder

A pair of bytes is a command, and `cc_decode_EIA608` executes it, unless it is a control code that comes a second
time in a row. The decoder has the captions of channel 1 in both memories, next to those of channel 2.
-/

namespace Xine.Cc

/-- What a pair of bytes is. The code that selects a channel does nothing else. -/
inductive CcCommand
  | idle
  | write (c1 c2 : ℕ)
  | select (channel : Fin CC_CHANNELS)
  | move (channel : Fin CC_CHANNELS) (row : Fin CC_ROWS) (column underline italics color : ℕ)
  | special (channel : Fin CC_CHANNELS) (c : ℕ)
  | midrow (channel : Fin CC_CHANNELS) (attr : CcAttribute)
  | tab (channel : Fin CC_CHANNELS) (tabsize : ℕ)
  | eraseDisplayed (channel : Fin CC_CHANNELS)
  | eraseNonDisplayed (channel : Fin CC_CHANNELS)
  | swap (channel : Fin CC_CHANNELS)
deriving DecidableEq

/-- A standard character. -/
def isChar (data : UInt16) : Bool := decide (c1Of data &&& 0x60 ≠ 0)

/-- A control code or a special character. -/
def isControl (data : UInt16) : Bool := decide (c1Of data &&& 0x60 = 0 ∧ c1Of data &&& 0x10 ≠ 0)

/-- A preamble address code. -/
def pacCommand (channel : Fin CC_CHANNELS) (c1 c2 : ℕ) : CcCommand :=
  if c1 = 0x10 ∧ 0x5f < c2 then .idle
  else
    match rowOf c1 c2 with
    | none => .idle
    | some row =>
      .move channel row (if c2 &&& 0x10 ≠ 0 then ((c2 &&& 0x0e) >>> 1) * 4 else 0) (c2 &&& 0x01)
        (if c2 &&& 0x10 = 0 ∧ c2 &&& 0x0e = 0x0e then 1 else 0)
        (if c2 &&& 0x10 ≠ 0 ∨ c2 &&& 0x0e = 0x0e then WHITE else (c2 &&& 0x0e) >>> 1)

/-- A miscellaneous control code. -/
def miscCommand (channel : Fin CC_CHANNELS) (c2 : ℕ) : CcCommand :=
  match c2 with
  | 0x2c => .eraseDisplayed channel
  | 0x2e => .eraseNonDisplayed channel
  | 0x2f => .swap channel
  | _ => .select channel

/-- A control code of a channel. -/
def controlCommand (channel : Fin CC_CHANNELS) (c1 c2 : ℕ) : CcCommand :=
  if c2 &&& 0x40 ≠ 0 then pacCommand channel c1 c2
  else
    match c1 with
    | 0x10 => .select channel
    | 0x11 =>
      if c2 &&& 0x30 = 0x30 then .special channel (specialOf c2)
      else if c2 &&& 0x20 ≠ 0 then
        .midrow channel
          { italic := if c2 < 0x2e then 0 else 1
            underline := c2 &&& 0x1
            foreground := if c2 < 0x2e then (c2 &&& 0xe) >>> 1 else WHITE
            background := BLACK }
      else .idle
    | 0x14 => miscCommand channel c2
    | 0x17 => if 0x21 ≤ c2 ∧ c2 ≤ 0x23 then .tab channel (c2 &&& 0x3) else .idle
    | _ => .idle

/-- The command of a pair. -/
def commandOf (data : UInt16) : CcCommand :=
  if isChar data then .write (c1Of data) (c2Of data)
  else if isControl data then controlCommand (channelOf data) (c1Of data &&& 0x77) (c2Of data)
  else .idle

/-- The characters of a pair in a buffer. -/
def writeChars (buf : CcBuffer) (c1 c2 : ℕ) : CcBuffer :=
  let buf := ccbufAddChar buf (chartbl c1)
  if c2 &&& 0x60 ≠ 0 then ccbufAddChar buf (chartbl c2) else buf

/-- What a command does to the buffer of its channel. -/
def CcCommand.edit : CcCommand → CcBuffer → Option CcBuffer
  | .write c1 c2, buf => some (writeChars buf c1 c2)
  | .move _ row column underline italics color, buf =>
    some (ccbufSetCursor buf row column underline italics color)
  | .special _ c, buf => some (ccbufAddChar buf c)
  | .midrow _ attr, buf => ccbufApplyAttribute buf attr (chartbl 0x20)
  | .tab _ tabsize, buf => some (ccbufTab buf tabsize)
  | .idle, buf | .select _, buf | .eraseDisplayed _, buf | .eraseNonDisplayed _, buf | .swap _, buf =>
    some buf

/-- The channel that a command names. -/
def CcCommand.channel : CcCommand → Option (Fin CC_CHANNELS)
  | .idle | .write _ _ => none
  | .select channel | .move channel _ _ _ _ _ | .special channel _ | .midrow channel _ | .tab channel _
  | .eraseDisplayed channel | .eraseNonDisplayed channel | .swap channel => some channel

/-- A command of the decoder. -/
def CcDecoder.exec (d : CcDecoder) (command : CcCommand) : Option CcDecoder :=
  let d := match command.channel with
    | some channel => ccSetChannel d channel
    | none => d
  match command with
  | .idle | .select _ => some d
  | .write _ _ | .move _ _ _ _ _ _ | .special _ _ | .midrow _ _ | .tab _ _ =>
    (command.edit (activeCcbuffer d)).map (setActiveCcbuffer d)
  | .eraseDisplayed _ => some { ccHideDisplayed d with on_buf := ccmemClear }
  | .eraseNonDisplayed _ => some { d with off_buf := ccmemClear }
  | .swap _ => some (ccSwapBuffers d)

variable {d d' : CcDecoder} {data : UInt16} {channel : Fin CC_CHANNELS} {c1 c2 : ℕ}

/-! ## The codes are these commands -/

theorem rowOf_ne_none (h : c1 &&& 0x07 = 0 → c2 &&& 0x20 = 0) : rowOf c1 c2 ≠ none := by
  have hrows : ∀ i : Fin 8, rowOf i.val 0 ≠ none ∧ (i.val ≠ 0 → rowOf i.val 0x20 ≠ none) := by decide
  have hbits : rowOf c1 c2 = rowOf (c1 &&& 0x07) (c2 &&& 0x20) := by
    unfold rowOf
    simp only [Nat.and_assoc, Nat.and_self]
  have hlt : c1 &&& 0x07 < 8 := Nat.and_lt_two_pow c1 (n := 3) (by decide)
  have hbit : c2 &&& 0x20 = 0 ∨ c2 &&& 0x20 = 0x20 := by
    have hall : ∀ c : Fin 64, c.val &&& 0x20 = 0 ∨ c.val &&& 0x20 = 0x20 := by decide
    have hlow : c2 &&& 0x3f < 64 := Nat.and_lt_two_pow c2 (n := 6) (by decide)
    have hsame : c2 &&& 0x20 = c2 &&& 0x3f &&& 0x20 := (Nat.and_assoc c2 0x3f 0x20).symm
    rw [hsame]
    exact hall ⟨_, hlow⟩
  obtain ⟨hclear, hset⟩ := hrows ⟨_, hlt⟩
  rw [hbits]
  rcases hbit with hbit | hbit
  · rw [hbit]
    exact hclear
  · rw [hbit] at h ⊢
    exact hset fun hzero => absurd (h hzero) (by decide)

theorem rowdata_ne_none (hcontrol : isControl data = true)
    (hvalid : ¬(c1Of data &&& 0x77 = 0x10 ∧ 0x5f < c2Of data)) (hpac : c2Of data &&& 0x40 ≠ 0) :
    rowOf (c1Of data &&& 0x77) (c2Of data) ≠ none := by
  have hfirst : ∀ c1 : Fin 128, (c1.val &&& 0x60 = 0 ∧ c1.val &&& 0x10 ≠ 0) →
      c1.val &&& 0x77 &&& 0x07 = 0 → c1.val &&& 0x77 = 0x10 := by
    decide +kernel
  have hsecond : ∀ c2 : Fin 128, c2.val &&& 0x40 ≠ 0 → ¬0x5f < c2.val → c2.val &&& 0x20 = 0 := by
    decide +kernel
  have hlt1 : c1Of data < 128 := Nat.and_lt_two_pow data.toNat (n := 7) (by decide)
  have hlt2 : c2Of data < 128 := Nat.and_lt_two_pow (data.toNat >>> 8) (n := 7) (by decide)
  apply rowOf_ne_none
  intro hrow
  have hcode := hfirst ⟨_, hlt1⟩ (of_decide_eq_true hcontrol) hrow
  exact hsecond ⟨_, hlt2⟩ hpac fun hlt => hvalid ⟨hcode, hlt⟩

theorem ccDecodePAC_eq (hrow : ¬(c1 = 0x10 ∧ 0x5f < c2) →
    rowOf c1 c2 ≠ none) :
    ccDecodePAC d channel c1 c2 = d.exec (pacCommand channel c1 c2) := by
  unfold ccDecodePAC pacCommand
  split
  · rfl
  · rename_i hvalid
    have hne := hrow hvalid
    generalize rowOf c1 c2 = row at hne
    cases row with
    | none => exact absurd rfl hne
    | some row => rfl

theorem ccDecodeMiscControlCode_eq :
    some (ccDecodeMiscControlCode d channel c2) = d.exec (miscCommand channel c2) := by
  unfold ccDecodeMiscControlCode miscCommand
  dsimp only
  split
  · rfl
  · rfl
  · rfl
  · -- none of the three codes: the command is the choice of the channel
    first
    | rfl
    | split <;> first | contradiction | rfl

theorem ccDecodeControl_eq (hrow : ¬(c1 = 0x10 ∧ 0x5f < c2) → c2 &&& 0x40 ≠ 0 →
    rowOf c1 c2 ≠ none) :
    ccDecodeControl d channel c1 c2 = d.exec (controlCommand channel c1 c2) := by
  unfold ccDecodeControl controlCommand
  split
  · rename_i hpac
    exact ccDecodePAC_eq fun hvalid => hrow hvalid hpac
  · split
    · rfl
    · split
      · rfl
      · split <;> rfl
    · exact ccDecodeMiscControlCode_eq
    · split <;> rfl
    · -- none of the four codes: the pair does nothing
      first
      | rfl
      | split <;> first | contradiction | rfl

theorem ccDecodeEIA608_eq : ccDecodeEIA608 d data =
    if isControl data = true ∧ data = d.lastcode then some d
    else (d.exec (commandOf data)).map fun d => { d with lastcode := data } := by
  unfold ccDecodeEIA608 commandOf isChar
  dsimp only
  by_cases hchar : c1Of data &&& 0x60 ≠ 0
  · -- A character is not a control code.
    have hcontrol : ¬(isControl data = true ∧ data = d.lastcode) := fun h =>
      hchar (of_decide_eq_true h.1).1
    rw [if_pos hchar, if_neg hcontrol, decide_eq_true hchar, if_pos rfl]
    rfl
  · rw [if_neg hchar, decide_eq_false hchar, if_neg Bool.false_ne_true]
    by_cases hcode : c1Of data &&& 0x10 ≠ 0
    · have hcontrol : isControl data = true := decide_eq_true ⟨not_not.1 hchar, hcode⟩
      rw [if_pos hcode, if_pos hcontrol]
      by_cases hlast : data = d.lastcode
      · rw [if_neg (not_not.2 hlast), if_pos ⟨hcontrol, hlast⟩, hlast]
        rfl
      · rw [if_pos hlast, if_neg fun h => hlast h.2, ccDecodeControl_eq]
        exact rowdata_ne_none hcontrol
    · have hcontrol : ¬isControl data = true := fun h => hcode (of_decide_eq_true h).2
      rw [if_neg hcode, if_neg hcontrol, if_neg fun h => hcontrol h.1]
      rfl

end Xine.Cc
