import Xine.MpegBlock.Demuxer

/-!
# The streams of a block

The handlers of the stream ids, each of which either goes on behind a header or disposes of the buffer, and
`demux_mpeg_block_parse_pack`.
-/

namespace Xine.MpegBlock

open Octets (Byte)

variable (block : List Byte)

/-- A number of 32 bits, as an `int`. -/
def long (p : ℕ) : Option ℤ := do
  let high ← word block p
  let low ← word block (p + 2)
  some (int32 (high <<< 16 ||| low : ℕ))

/-- The time of a cell in a NAV packet, as hours, minutes, seconds and frames in decimal digits. -/
def cellTime (h m s f : ℕ) : ℤ :=
  let frames := ((f &&& 0x30) >>> 4) * 10 + (f &&& 0x0f)
  ((h >>> 4) * 10 * 60 * 60 * 1000 + (h &&& 0x0f) * 60 * 60 * 1000 + (m >>> 4) * 10 * 60 * 1000 +
    (m &&& 0x0f) * 60 * 1000 + (s >>> 4) * 10 * 1000 + (s &&& 0x0f) * 1000 +
    if f &&& 0x80 ≠ 0 then frames * 1000 / 25 else frames * 1000 / 30 : ℕ)

/-- The times of the NAV packet, when the buffer has a time. -/
def readCellTime (this : Demuxer) (p : ℕ) : Option Demuxer :=
  if this.buf.extra_info.input_time = 0 then some this
  else do
    let h ← byte block (p + 7 + 0x18)
    let m ← byte block (p + 7 + 0x19)
    let s ← byte block (p + 7 + 0x1a)
    let f ← byte block (p + 7 + 0x1b)
    some { this with
      last_cell_time := cellTime h m s f
      last_cell_pos := this.buf.extra_info.input_pos
      last_begin_time := this.buf.extra_info.input_time }

/-- `BUF_FLAG_SPECIAL` with the two words of `decoder_info` that belong to it. -/
def Buf.special (buf : Buf) (info1 info2 : ℤ) : Buf :=
  { buf with
    decoder_flags := buf.decoder_flags ||| BUF_FLAG_SPECIAL
    decoder_info := Function.update (Function.update buf.decoder_info 1 info1) 2 info2 }

def parsePrivateStream2 (this : Demuxer) (p : ℕ) : Option (ℤ × Demuxer) := do
  let packet_len ← word block (p + 4)
  let start_pts ← long block (p + 7 + 12)
  let end_pts ← long block (p + 7 + 16)
  let this ← readCellTime block { this with packet_len } p
  let told := if this.nav_last_end_pts ≠ start_pts ∧ ¬this.preview_mode then this.controlNewpts start_pts else this
  let this := { told with
    nav_last_end_pts := end_pts, nav_last_start_pts := start_pts, send_newpts := false, last_pts := fun _ => 0 }
  some (-1, this.put .video
    { this.buf.special 8 4 with content := p, size := packet_len, type := BUF_SPU_DVD, pts := 0 })

/-- The buffer with the rest of a packet, `skip` bytes behind its header. -/
def Demuxer.packet (this : Demuxer) (buf : Buf) (p skip type : ℕ) : Buf :=
  { buf with content := p + skip, size := int32 (sub32 this.packet_len skip), type, pts := this.pts }

/-- The second byte of a substream, which is looked at for the id of SVCD subtitles only. -/
def svcdId (id p : ℕ) : Option ℕ := if id = 0x70 then byte block (p + 1) else some 0xFF

/-- `parse_private_stream_1`, behind the header of the packet. -/
def parseSubstream (this : Demuxer) (p : ℕ) : Option (ℤ × Demuxer) := do
  let id ← byte block p
  if id &&& 0xE0 = 0x20 then
    some (-1, this.put .video (this.packet (this.buf.special 8 2) p 1 (BUF_SPU_DVD + (id &&& 0x1f))))
  else
    let svcd ← svcdId block id p
    if svcd &&& 0xFC = 0 then
      some (-1, this.put .video (this.packet this.buf p 1 (BUF_SPU_SVCD + svcd)))
    else if id &&& 0xFC = 0 then
      some (-1, this.put .video (this.packet this.buf p 1 (BUF_SPU_CVD + (id &&& 0x03))))
    else if id &&& 0xF0 = 0x80 then do
      let headers ← byte block (p + 1)
      let pointer ← word block (p + 2)
      let track := id &&& 0x0F
      let type := if track &&& 0x8 ≠ 0 then BUF_AUDIO_DTS + (track &&& 0x07) else BUF_AUDIO_A52 + track
      let buf := { this.buf with
        decoder_info := Function.update (Function.update this.buf.decoder_info 1 headers) 2 pointer }
      some (-1, (this.checkNewptsUnlessPreview this.pts .audio).putAudio (this.packet buf p 4 type))
    else if id &&& 0xF0 = 0xA0 then do
      let _ ← byte block (p + 1)
      let _ ← byte block (p + 3)
      let _ ← byte block (p + 4)
      let format ← byte block (p + 5)
      let _ ← byte block (p + 6)
      let type := BUF_AUDIO_LPCM_BE + (id &&& 0x0F)
      some (-1, (this.checkNewptsUnlessPreview this.pts .audio).putAudio
        (this.packet (this.buf.special 6 format) p 7 type))
    else some (-1, this.free)

/-- A handler behind `parse_pes_for_pts`. -/
def behindPes (this : Demuxer) (p : ℕ) (handler : Demuxer → ℕ → Option (ℤ × Demuxer)) : Option (ℤ × Demuxer) := do
  let (result, this) ← parsePesForPts block this p
  if result < 0 then some (-1, this) else handler this (p + result.toNat)

def parsePrivateStream1 (this : Demuxer) (p : ℕ) : Option (ℤ × Demuxer) :=
  behindPes block this p (parseSubstream block)

def parseVideoStream (this : Demuxer) (p : ℕ) : Option (ℤ × Demuxer) :=
  behindPes block this p fun this p =>
    let buf := { this.buf with decoder_info := Function.update this.buf.decoder_info 0 (this.pts - this.dts) }
    some (-1, (this.checkNewptsUnlessPreview this.pts .video).put .video (this.packet buf p 0 BUF_VIDEO_MPEG))

def parseAudioStream (this : Demuxer) (p : ℕ) : Option (ℤ × Demuxer) :=
  behindPes block this p fun this p =>
    let type := BUF_AUDIO_MPEG + (this.stream_id &&& 0x1f)
    some (-1, (this.checkNewptsUnlessPreview this.pts .audio).putAudio (this.packet this.buf p 0 type))

/-- The handler of a stream id. Those without one free the buffer, as the unknown ids do. -/
def parseStream (this : Demuxer) (p : ℕ) : Option (ℤ × Demuxer) :=
  let id := this.stream_id
  if id = 0xBA then parseProgramStreamPackHeader block this p
  else if id = 0xBB then parseProgramStreamSystemHeader block this p
  else if id = 0xBD then parsePrivateStream1 block this p
  else if id = 0xBF then parsePrivateStream2 block this p
  else if 0xC0 ≤ id ∧ id < 0xDF then parseAudioStream block this p
  else if 0xE0 ≤ id ∧ id < 0xEF then parseVideoStream block this p
  else some (-1, this.free)

/-- The three bytes `00 00 01`, which are looked at one by one. -/
def startsUnit (p : ℕ) : Option Bool := do
  let b0 ← byte block p
  if b0 ≠ 0 then some false
  else
    let b1 ← byte block (p + 1)
    if b1 ≠ 0 then some false
    else
      let b2 ← byte block (p + 2)
      some (b2 = 1)

/-- The loop of `demux_mpeg_block_parse_pack`, with as much fuel as there are bytes in front of the pointer. -/
def parseUnits (block : List Byte) : ℕ → Demuxer → ℕ → Option Demuxer
  | 0, this, _ => some this.free
  | fuel + 1, this, p =>
    if p < block.length then do
      let starts ← startsUnit block p
      if starts then do
        let stream_id ← byte block (p + 3)
        let (result, this) ← parseStream block { this with stream_id } p
        if result < 0 then some this else parseUnits block fuel this (p + result.toNat)
      else some this.free
    else some this.free

/-- `demux_mpeg_block_parse_pack`, with the buffer that `read_block` returns, and the position and length of the
input. -/
def demuxMpegBlockParsePack (this : Demuxer) (preview_mode : Bool) (read_block : Option Buf)
    (current_pos length : ℤ) : Option Demuxer :=
  let this := { this with scr := 0, preview_mode, disposals := [] }
  match read_block with
  | none => some { this with finished := true }
  | some buf =>
    if buf.type ≠ BUF_DEMUX_BLOCK then some (this.put .video buf)
    else
      let extra_info := if buf.extra_info.input_length = 0 then
        { buf.extra_info with input_pos := current_pos, input_length := length } else buf.extra_info
      let decoder_flags := if preview_mode then BUF_FLAG_PREVIEW else 0
      parseUnits block block.length { this with buf := { buf with decoder_flags, extra_info } } 0

end Xine.MpegBlock
