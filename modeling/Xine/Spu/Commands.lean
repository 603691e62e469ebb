import Xine.Spu.Reassembly

/-!
# The control sequences of a subpicture unit

`spudec_process` and `spudec_do_commands` of `spu.c`. A unit that has been reassembled has a chain of
control sequences: each has a delay, the offset of the next one and commands. Pointers into the unit
are offsets from `seq->buf`, and the bytes there are a function of the offset, with anything behind the
unit. Every offset that is read is noted.
-/

namespace Xine.Spu

open Octets

/-- The commands, and the bytes that are none. -/
inductive Command
  | forceDisplay
  | showSpu
  | hideSpu
  | setPalette
  | setAlpha
  | setSize
  | setPxdOffset
  | wipe
  | eof
  | unknown
deriving DecidableEq

/-- The bytes of the commands, `CMD_SPU_*`. -/
def Command.ofByte (b : Byte) : Command :=
  match b.toNat with
  | 0x00 => forceDisplay
  | 0x01 => showSpu
  | 0x02 => hideSpu
  | 0x03 => setPalette
  | 0x04 => setAlpha
  | 0x05 => setSize
  | 0x06 => setPxdOffset
  | 0x07 => wipe
  | 0xff => eof
  | _ => unknown

/-- `OVERLAY_EVENT_SHOW` and `OVERLAY_EVENT_HIDE`. -/
inductive OverlayEvent
  | eventShow
  | eventHide
deriving DecidableEq

/-- The area and the colours of `vo_overlay_t`. -/
structure VoOverlay where
  x : ℤ
  y : ℤ
  width : ℤ
  height : ℤ
  color : List ℕ
  trans : List ℕ
deriving DecidableEq

structure SpudecState where
  cmd_ptr : ℕ
  field_offs : ℕ × ℕ
  modified : Bool
  visible : OverlayEvent
  forced_display : Bool
  delay : ℕ
  cur_colors : List ℕ
  clut : List ℕ
deriving DecidableEq

/-- What `spudec_do_commands` works on, with the offsets that have been read. -/
structure Control where
  state : SpudecState
  seq : SpudecSeq
  ovl : VoOverlay
  reads : List ℕ
deriving DecidableEq

/-- Two bytes, with the most significant one first. -/
def word (mem : ℕ → Byte) (offset : ℕ) : ℕ := ofBig [mem offset, mem (offset + 1)]

/-- `spudec_clut_t`: the last entry is first, as the overlay has them. -/
def entries (mem : ℕ → Byte) (offset : ℕ) : List ℕ :=
  [(mem (offset + 1)).toNat % 16, (mem (offset + 1)).toNat / 16,
    (mem offset).toNat % 16, (mem offset).toNat / 16]

/-- The body of the loop of `spudec_do_commands` at `buf`, with what is to follow. -/
def Control.command (mem : ℕ → Byte) (next_seq buf : ℕ) (control : Control) : Control × ℕ :=
  let byte := fun i => (mem (buf + i)).toNat
  match Command.ofByte (mem buf) with
  | .showSpu => ({ control with state := { control.state with visible := .eventShow } }, buf + 1)
  | .hideSpu => ({ control with state := { control.state with visible := .eventHide } }, buf + 1)
  | .setPalette =>
    let clut := entries mem (buf + 1)
    ({ control with
        state := { control.state with cur_colors := clut, modified := true }
        ovl := { control.ovl with color := clut.map fun entry => control.state.clut.getD entry 0 }
        reads := control.reads ++ [buf + 1, buf + 2] }, buf + 3)
  | .setAlpha =>
    ({ control with
        state := { control.state with modified := true }
        ovl := { control.ovl with trans := entries mem (buf + 1) }
        reads := control.reads ++ [buf + 1, buf + 2] }, buf + 3)
  | .setSize =>
    let x : ℤ := 16 * byte 1 + byte 2 / 16
    let y : ℤ := 16 * byte 4 + byte 5 / 16
    ({ control with
        state := { control.state with modified := true }
        ovl := { control.ovl with
          x := x
          y := y
          width := 256 * (byte 2 % 16) + byte 3 - x + 1
          height := 256 * (byte 5 % 16) + byte 6 - y + 1 }
        reads := control.reads ++ [buf + 1, buf + 2, buf + 3, buf + 4, buf + 5, buf + 6] }, buf + 7)
  | .setPxdOffset =>
    let offs := (word mem (buf + 1), word mem (buf + 3))
    let faulty := decide (control.seq.seq_len ≤ offs.1) || decide (control.seq.seq_len ≤ offs.2)
    ({ control with
        state := { control.state with field_offs := offs, modified := true }
        seq := { control.seq with broken := faulty || control.seq.broken }
        reads := control.reads ++ [buf + 1, buf + 2, buf + 3, buf + 4] }, buf + 5)
  | .wipe => ({ control with reads := control.reads ++ [buf + 1, buf + 2] },
      buf + (1 + word mem (buf + 1)))
  | .forceDisplay =>
    ({ control with state := { control.state with forced_display := true } }, buf + 1)
  | .eof | .unknown => ({ control with seq := { control.seq with broken := true } }, next_seq)

/-- The loop of `spudec_do_commands`. -/
def Control.commands (mem : ℕ → Byte) (next_seq : ℕ) : ℕ → ℕ → Control → Option Control
  | 0, _, _ => none
  | fuel + 1, buf, control =>
    if buf < next_seq then
      let control := { control with reads := control.reads ++ [buf] }
      if Command.ofByte (mem buf) = .eof then
        some control
      else
        let (control, buf) := control.command mem next_seq buf
        control.commands mem next_seq fuel buf
    else
      some control

/-- The offset of the next sequence: a link that does not go forward is the end of the unit. -/
def nextSeq (mem : ℕ → Byte) (seq_len cmd_ptr : ℕ) : ℕ :=
  if word mem (cmd_ptr + 2) ≤ cmd_ptr then seq_len else word mem (cmd_ptr + 2)

/-- `spudec_do_commands`. -/
def Control.doCommands (mem : ℕ → Byte) (fuel : ℕ) (control : Control) : Option Control := do
  let buf := control.state.cmd_ptr
  let next_seq := nextSeq mem control.seq.seq_len buf
  let control ← Control.commands mem next_seq fuel (buf + 4)
    { control with
      state := { control.state with delay := word mem buf, cmd_ptr := next_seq }
      reads := control.reads ++ [buf, buf + 1, buf + 2, buf + 3] }
  pure { control with
    seq := { control.seq with
      finished := decide (control.seq.seq_len ≤ next_seq) || control.seq.finished } }

/-- What `spudec_process` meets in one turn of its loop: the channel of the stream, where it is looked
at first and where forced subpictures are let through, the time of the menu, and the handle that the
overlay manager has. -/
structure Turn where
  spu_channel : ℕ
  spu_channel_forced : ℕ
  hli_s_ptm : ℤ
  handle : ℤ

/-- What `spudec_process` works on: the events are what the overlay manager gets, with their time. -/
structure Process where
  control : Control
  menu_handle : ℤ
  last_event_vpts : ℤ
  events : List (OverlayEvent × ℤ)
deriving DecidableEq

/-- The event of a sequence. An event is not before the last one. -/
def Process.addEvent (vpts : ℤ) (process : Process) : Process :=
  let event_vpts := vpts + process.control.state.delay * 1000
  let event_vpts :=
    if event_vpts < process.last_event_vpts then process.last_event_vpts + 1 else event_vpts
  { process with
    last_event_vpts := event_vpts
    events := process.events ++ [(process.control.state.visible, event_vpts)] }

/-- The loop of `spudec_process`. The picture is drawn by `spudec_draw_picture`, which marks the state
as processed and leaves the chain alone. -/
def Process.loop (mem : ℕ → Byte) (stream_id : ℕ) (pts vpts : ℤ) (turns : ℕ → Turn)
    (commandFuel : ℕ) : ℕ → ℕ → Process → Option Process
  | 0, _, _ => none
  | fuel + 1, n, process =>
    let turn := turns n
    if process.control.seq.finished then
      some process
    else if turn.spu_channel % 32 ≠ stream_id then
      some process
    else do
      let control ← process.control.doCommands mem commandFuel
      let process := { process with control := control }
      if control.seq.broken then
        pure { process with control := { control with seq := { control.seq with broken := false } } }
      else if !control.state.forced_display && turn.spu_channel_forced.testBit 7 then
        pure process
      else if turn.hli_s_ptm = pts ∧ control.state.visible = .eventHide then
        -- menus are hidden elsewhere
        process.loop mem stream_id pts vpts turns commandFuel fuel (n + 1)
      else
        let control := { control with state := { control.state with modified := false } }
        let menu_handle := if process.menu_handle < 0 then turn.handle else process.menu_handle
        let process := { process with control := control, menu_handle := menu_handle }
        if menu_handle < 0 then
          pure process
        else
          (process.addEvent vpts).loop mem stream_id pts vpts turns commandFuel fuel (n + 1)

/-- What `spudec_process` finds: the unit, what is left of the units before it, and what it meets. A
broken unit is dropped before. -/
structure Arrival where
  mem : ℕ → Byte
  seq : SpudecSeq
  unbroken : seq.broken = false
  state : SpudecState
  ovl : VoOverlay
  stream_id : ℕ
  pts : ℤ
  vpts : ℤ
  menu_handle : ℤ
  last_event_vpts : ℤ
  turns : ℕ → Turn

/-- The standing in front of the loop of `spudec_process`. -/
def Arrival.start (arrival : Arrival) : Process where
  control :=
    { state := { arrival.state with
        cmd_ptr := arrival.seq.cmd_offs
        modified := true
        visible := .eventShow
        forced_display := false
        delay := 0 }
      seq := { arrival.seq with finished := false }
      ovl := arrival.ovl
      reads := [] }
  menu_handle := arrival.menu_handle
  last_event_vpts := arrival.last_event_vpts
  events := []

/-- `spudec_process`, with enough turns of its loops or with no result. -/
def Arrival.spudecProcess (arrival : Arrival) (fuel : ℕ) : Option Process :=
  Process.loop arrival.mem arrival.stream_id arrival.pts arrival.vpts arrival.turns fuel fuel 0
    arrival.start

end Xine.Spu

/-!
## The drawing of a subpicture

`spudec_draw_picture` of `spu.c`: the pixels of the two fields of a picture are run-length codes of 4, 8, 12 or 16
bits, line by line, the even lines in the field `0` and the odd lines in the field `1`. The bit reader has the
byte that it is in, and its variables are static. Pointers into the unit are offsets, as for the control
sequences, and every offset that is read is noted.
-/

namespace Xine.Spu

open Octets

structure RleElem where
  len : ℕ
  color : ℕ
deriving DecidableEq

/-- The static variables that the drawing works on, with the runs that have been written and the
offsets that have been read. `field` is whether the field `1` is decoded. -/
structure Drawing where
  bit_ptr : ℕ × ℕ
  field : Bool
  put_x : ℤ
  put_y : ℤ
  data : ℕ
  bits_left : ℕ
  rle : List RleElem
  reads : List ℕ
deriving DecidableEq

/-- `*bit_ptr[field]++`. -/
def Drawing.fetch (mem : ℕ → Byte) (d : Drawing) : Drawing :=
  let offset := if d.field then d.bit_ptr.2 else d.bit_ptr.1
  { d with
    bit_ptr := if d.field then (d.bit_ptr.1, offset + 1) else (offset + 1, d.bit_ptr.2)
    data := (mem offset).toNat
    bits_left := 8
    reads := d.reads ++ [offset] }

/-- The loop of `get_bits`. -/
def Drawing.getBitsLoop (mem : ℕ → Byte) : ℕ → ℕ → ℕ → Drawing → ℕ × Drawing
  | 0, _, ret, d => (ret, d)
  | fuel + 1, bits, ret, d =>
    if bits = 0 then
      (ret, d)
    else if d.bits_left < bits then
      (d.fetch mem).getBitsLoop mem fuel (bits - d.bits_left)
        (ret ||| d.data <<< (bits - d.bits_left))
    else
      let bits_left := d.bits_left - bits
      ({ d with data := d.data &&& (1 <<< bits_left - 1), bits_left := bits_left } : Drawing).getBitsLoop
        mem fuel 0 (ret ||| d.data >>> bits_left)

/-- `get_bits`. A turn of its loop takes at least one bit, but for the turn that fetches the first byte
and the one that ends the loop. -/
def Drawing.getBits (mem : ℕ → Byte) (bits : ℕ) (d : Drawing) : ℕ × Drawing :=
  Drawing.getBitsLoop mem (bits + 2) bits 0 (if bits = 0 then { d with bits_left := 0 } else d)

/-- `spudec_next_line`, with whether it is `-1`. -/
def Drawing.nextLine (mem : ℕ → Byte) (height : ℤ) (d : Drawing) : Bool × Drawing :=
  let d := (d.getBits mem 0).2
  let d := { d with put_x := 0, put_y := d.put_y + 1, field := !d.field }
  (decide (height ≤ d.put_y), d)

/-- The code of a run. -/
def Drawing.vlc (mem : ℕ → Byte) (d : Drawing) : ℕ × Drawing :=
  let (vlc, d) := d.getBits mem 4
  if vlc < 0x0004 then
    let (bits, d) := d.getBits mem 4
    let vlc := vlc <<< 4 ||| bits
    if vlc < 0x0010 then
      let (bits, d) := d.getBits mem 4
      let vlc := vlc <<< 4 ||| bits
      if vlc < 0x0040 then
        let (bits, d) := d.getBits mem 4
        (vlc <<< 4 ||| bits, d)
      else (vlc, d)
    else (vlc, d)
  else (vlc, d)

/-- The body of the loop of `spudec_draw_picture`, with whether it breaks. -/
def Drawing.run (mem : ℕ → Byte) (width height : ℤ) (d : Drawing) : Bool × Drawing :=
  let (vlc, d) := d.vlc mem
  let len : ℤ := if vlc >>> 2 = 0 then width - d.put_x else vlc >>> 2
  let d := { d with
    rle := d.rle ++ [{ len := (len % 65536).toNat, color := vlc &&& 0x03 }]
    put_x := d.put_x + len }
  if width ≤ d.put_x then d.nextLine mem height else (false, d)

/-- The loop of `spudec_draw_picture`. -/
def Drawing.loop (mem : ℕ → Byte) (width height : ℤ) (cmd_offs : ℕ) : ℕ → Drawing → Option Drawing
  | 0, _ => none
  | fuel + 1, d =>
    if d.bit_ptr.2 < cmd_offs then
      let (done, d) := d.run mem width height
      if done then some d else d.loop mem width height cmd_offs fuel
    else
      some d

/-- What `spudec_draw_picture` draws from: the unit, the area of the picture, where the fields begin,
and what is in the variables of the bit reader. The reassembly has looked at the offset of the
commands, and the bit reader has at most four bits of a byte left when it is not in use. -/
structure Picture where
  mem : ℕ → Byte
  seq_len : ℕ
  cmd_offs : ℕ
  commands : cmd_offs < seq_len
  field_offs : ℕ × ℕ
  width : ℤ
  height : ℤ
  data : ℕ
  left : data < 16

theorem no_left : 0 < 16 := by decide

/-- The elements that `spudec_draw_picture` allocates: `data_size` has four bytes for each. -/
def Picture.allocated (picture : Picture) : ℕ := picture.cmd_offs * 2

/-- The standing in front of the loop of `spudec_draw_picture`. -/
def Picture.start (picture : Picture) : Drawing where
  bit_ptr := picture.field_offs
  field := false
  put_x := 0
  put_y := 0
  data := picture.data
  bits_left := 0
  rle := []
  reads := []

/-- `spudec_draw_picture`, with enough turns of its loop or with no result. -/
def Picture.spudecDrawPicture (picture : Picture) (fuel : ℕ) : Option Drawing :=
  picture.start.loop picture.mem picture.width picture.height picture.cmd_offs fuel

end Xine.Spu
