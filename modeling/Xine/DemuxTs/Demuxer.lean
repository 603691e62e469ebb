import Xine.DemuxTs.Pes
import Xine.Library.Runs

/-!
# The transport stream demuxer

`demux_ts_parse_packet` with its handlers of `demux_ts.c`. The tables of the demuxer are
functions, and each access to `media`, `program_number`, `pmt_pid`, `pmt` and `scrambled_pids` checks
the index against the declared size first: outside of it the step is a fault. Time stamps for the
fifos, the languages and the descriptors of subtitles are left out.
-/

namespace Xine.DemuxTs

def maxPids : ℕ := (bodySize - 1 - 13) / 4

def maxPmts : ℕ := (bodySize - 1 - 13) / 4

def nullPid : ℕ := 0x1fff

def maxNoSpuLangs : ℕ := 16

/-- The size of the buffers of the fifos. -/
def fifoBufSize : ℕ := 8192

/-- `demux_ts_spu_lang`, without the descriptor. -/
structure SpuLang where
  pid : ℕ
  media_index : ℕ

/-- `demux_ts_t`. An entry of `media` has the buffers that were put for it. -/
structure Demuxer where
  rate : ℤ
  media_num : ℕ
  media : ℕ → Stream
  program_number : ℕ → ℕ
  pmt_pid : ℕ → ℕ
  pmt : ℕ → Option Section
  pcrPid : ℕ
  videoPid : ℕ
  audioPid : ℕ
  videoMedia : ℕ
  audioMedia : ℕ
  scrambled_pids : ℕ → ℕ
  scrambled_npids : ℕ
  spu_pid : ℕ
  spu_media : ℕ
  spu_langs : ℕ → SpuLang
  no_spu_langs : ℕ
  current_spu_channel : ℤ

/-- The demuxer after `open_plugin` and `demux_ts_send_headers`. -/
def Demuxer.init (spu_channel : ℤ) : Demuxer where
  rate := 16000
  media_num := 0
  media _ := ⟨⟨invalid, 0, 0, 0, none, 0, 0, false, 0⟩, []⟩
  program_number _ := invalid
  pmt_pid _ := invalid
  pmt _ := none
  pcrPid := invalid
  videoPid := invalid
  audioPid := invalid
  videoMedia := 0
  audioMedia := 0
  scrambled_pids _ := 0
  scrambled_npids := 0
  spu_pid := invalid
  spu_media := 0
  spu_langs _ := ⟨0, 0⟩
  no_spu_langs := 0
  current_spu_channel := spu_channel

/-- The index is inside a table of the given size. -/
def inTable (size i : ℕ) : Except Fault Unit := if i < size then .ok () else .error .table

/-- The first index from `i` on at which a loop over a table stops, with as many entries left as there
are from `i` on. -/
def scan (stop : ℕ → Bool) : ℕ → ℕ → Except Fault ℕ
  | 0, _ => .error .table
  | left + 1, i => if stop i then .ok i else scan stop left (i + 1)

namespace Demuxer

/-! ## Elementary streams -/

/-- `demux_ts_pes_new` at an index of the table. -/
def pesNew (d : Demuxer) (mediaIndex pid descriptor : ℕ) : Except Fault Demuxer := do
  inTable maxPids mediaIndex
  let s := d.media mediaIndex
  return { d with media :=
    Function.update d.media mediaIndex { s with m := demuxTsPesNew s.m pid descriptor } }

/-- `media_num++`. -/
def countMedia (d : Demuxer) : Demuxer := { d with media_num := (d.media_num + 1) % 2 ^ 32 }

/-- `demux_ts_buffer_pes` at an index of the table. -/
def bufferPes (d : Demuxer) (p : Packet) (mediaIndex : ℕ) : Except Fault Demuxer := do
  inTable maxPids mediaIndex
  let payload : Payload := ⟨fun i => p.mem (p.data_offset + i), p.payload_unit_start_indicator,
    p.continuity_counter, pktSize - p.data_offset, p.pos, p.fresh⟩
  match demuxTsBufferPes fifoBufSize d.rate (d.media mediaIndex) payload with
  | some s => .ok { d with media := Function.update d.media mediaIndex s }
  | none => .error .memory

/-- `demux_ts_update_spu_channel`, without the buffer and the event that it sends. -/
def updateSpuChannel (d : Demuxer) (spu_channel : ℤ) : Demuxer :=
  if 0 ≤ spu_channel ∧ spu_channel < d.no_spu_langs then
    let lang := d.spu_langs spu_channel.toNat
    { d with current_spu_channel := spu_channel, spu_pid := lang.pid, spu_media := lang.media_index }
  else { d with current_spu_channel := spu_channel, spu_pid := invalid }

/-- The first video stream. -/
def openVideo (d : Demuxer) (pid descriptor : ℕ) : Except Fault Demuxer := do
  let d ← d.pesNew d.media_num pid descriptor
  return { d with videoMedia := d.media_num, videoPid := pid }

/-- The first audio stream. -/
def openAudio (d : Demuxer) (pid descriptor : ℕ) : Except Fault Demuxer := do
  let d ← d.pesNew d.media_num pid descriptor
  return { d with audioMedia := d.media_num, audioPid := pid }

/-! ## Association tables -/

/-- The program and the pid of its map table take an entry. -/
def setProgram (d : Demuxer) (program_count program_number pmt_pid : ℕ) : Demuxer :=
  -- the map table is parsed again when its pid changes
  let d := if d.pmt_pid program_count ≠ pmt_pid then
      { d with audioPid := invalid, videoPid := invalid, spu_pid := invalid }
    else d
  { d with
    program_number := Function.update d.program_number program_count program_number
    pmt_pid := Function.update d.pmt_pid program_count pmt_pid
    pmt := Function.update d.pmt program_count none }

/-- A program of an association table. -/
def learnProgram (d : Demuxer) (program : ℕ × ℕ) : Except Fault Demuxer :=
  let (program_number, pmt_pid) := program
  -- the pids of network information tables are skipped
  if program_number = 0 then .ok d
  else do
    let program_count ← scan
      (fun i => d.program_number i = invalid ∨ d.program_number i = program_number) maxPmts 0
    return d.setProgram program_count program_number pmt_pid

/-- `demux_ts_parse_pat`. -/
def parsePat (d : Demuxer) (p : Packet) (offset : ℕ) : Except Fault Demuxer := do
  (← patPrograms p offset).foldlM learnProgram d

/-! ## Map tables -/

/-- The pages of a subtitle descriptor. -/
def openSubtitles (e : Es) : ℕ → Demuxer → Except Fault Demuxer
  | 0, d => .ok d
  | pages + 1, d =>
    if d.no_spu_langs < maxNoSpuLangs then do
      let lang : SpuLang := ⟨e.pid, d.media_num⟩
      let d := { d with
        spu_langs := Function.update d.spu_langs d.no_spu_langs lang
        no_spu_langs := d.no_spu_langs + 1 }
      let d ← d.pesNew d.media_num e.pid (e.byte 0)
      openSubtitles e pages d
    else .ok d

/-- The descriptors of a private stream. -/
def openPrivate (e : Es) : List ℕ → Demuxer → Except Fault Demuxer
  | [], d => .ok d
  | i :: is, d =>
    if e.byte i = 0x6a ∧ d.audioPid = invalid then d.openAudio e.pid (e.byte 0)
    else if e.byte i = 0x59 then do
      openPrivate e is (← openSubtitles e (e.byte (i + 1) / 8) d)
    else openPrivate e is d

/-- An elementary stream of a map table, as far as it is opened. -/
def openEs (d : Demuxer) (e : Es) : Except Fault Demuxer :=
  let type := e.byte 0
  if type = 1 ∨ type = 2 then
    if d.videoPid = invalid then d.openVideo e.pid type else .ok d
  else if type = 3 ∨ type = 4 then
    if d.audioPid = invalid then d.openAudio e.pid type else .ok d
  else if type = 5 then .ok d
  else if type = 6 then openPrivate e e.descriptors d
  else if d.audioPid = invalid ∧ 0x80 ≤ type then
    if e.demuxTsGetRegDesc = 0x41432d33 then d.openAudio e.pid type else .ok d
  else .ok d

/-- An elementary stream of a map table. -/
def parseEs (d : Demuxer) (e : Es) : Except Fault Demuxer := do
  return (← d.openEs e).countMedia

/-- The end of a map table that is consistent. -/
def finishPmt (d : Demuxer) (mem : ℕ → Byte) (consistent : Bool) (spu_channel : ℤ) : Demuxer :=
  if consistent then
    { d with pcrPid := ((mem 8).toNat <<< 8 ||| (mem 9).toNat) &&& 0x1fff }.updateSpuChannel spu_channel
  else d

/-- The elementary streams of a map table that is accepted. -/
def parseSection (d : Demuxer) (mem : ℕ → Byte) (section_length : ℕ) (spu_channel : ℤ) :
    Except Fault Demuxer :=
  match pmtStreams mem section_length with
  | none => .ok d
  | some (es, consistent) => do
    return (← es.foldlM parseEs { d with no_spu_langs := 0 }).finishPmt mem consistent spu_channel

/-- `demux_ts_parse_pmt`. -/
def parsePmt (d : Demuxer) (p : Packet) (offset program_count : ℕ) (spu_channel : ℤ) :
    Except Fault Demuxer := do
  inTable maxPmts program_count
  let (pmt, accepted) ←
    collectSection p offset (d.program_number program_count) (d.pmt program_count)
  let d := { d with pmt := Function.update d.pmt program_count pmt }
  match accepted with
  | none => return d
  | some (s, section_length) => d.parseSection s.mem section_length spu_channel

/-! ## Packets -/

/-- The comparisons with the pids that are known to be scrambled, from `i` on. -/
def scanScrambled (d : Demuxer) (pid : ℕ) : ℕ → ℕ → Except Fault Bool
  | 0, _ => .ok false
  | left + 1, i => do
    inTable maxPids i
    if d.scrambled_pids i = pid then return true else d.scanScrambled pid left (i + 1)

/-- A scrambled packet. -/
def parseScrambled (d : Demuxer) (pid : ℕ) : Except Fault Demuxer := do
  if ← d.scanScrambled pid d.scrambled_npids 0 then return d
  else
    inTable maxPids d.scrambled_npids
    return { d with
      scrambled_pids := Function.update d.scrambled_pids d.scrambled_npids pid
      scrambled_npids := d.scrambled_npids + 1 }

/-- The detection of the first video and the first audio stream. -/
def autodetect (d : Demuxer) (p : Packet) : Except Fault Demuxer :=
  let pes_stream_id := p.byte (p.data_offset + 3)
  if ¬p.payload_unit_start_indicator then .ok d
  else if 0xE0 ≤ pes_stream_id ∧ pes_stream_id ≤ 0xEF then
    if d.videoPid = invalid then return (← d.openVideo p.pid pes_stream_id).countMedia else .ok d
  else if 0xC0 ≤ pes_stream_id ∧ pes_stream_id ≤ 0xDF then
    if d.audioPid = invalid then return (← d.openAudio p.pid pes_stream_id).countMedia else .ok d
  else .ok d

/-- The payload of a packet goes to its handler. -/
def parsePayload (d : Demuxer) (p : Packet) (spu_channel : ℤ) : Except Fault Demuxer :=
  if p.pid = d.videoPid then d.bufferPes p d.videoMedia
  else if p.pid = d.audioPid then d.bufferPes p d.audioMedia
  else if p.pid = 0 then d.parsePat p (p.data_offset - 4)
  else if p.pid = nullPid then .ok d
  else if p.pid = d.spu_pid then d.bufferPes p d.spu_media
  else do
    let program_count ← scan
      (fun i => d.program_number i = invalid ∨ d.pmt_pid i = p.pid) maxPmts 0
    if d.program_number program_count = invalid then return d
    else d.parsePmt p (p.data_offset - 4) program_count spu_channel

/-- `demux_ts_parse_packet`. -/
def parsePacket (d : Demuxer) (p : Packet) (spu_channel : ℤ) : Except Fault Demuxer :=
  if p.sync_byte ≠ 0x47 then .ok d
  else if p.transport_error_indicator ≠ 0 then .ok d
  else if p.pid = 0x1ffb then .ok d
  else if p.transport_scrambling_control ≠ 0 then d.parseScrambled p.pid
  else if p.adaptation_field_control &&& 0x1 = 0 then .ok d
  else do
    let d ← d.autodetect p
    -- the length of the payload is unsigned
    if p.data_offset > pktSize then return d else d.parsePayload p spu_channel

/-- A call of `demux_ts_send_chunk`: whether the pids have changed, the packet, and the subtitle
channel that is selected while it is parsed and after it. -/
structure Chunk where
  pidsChange : Bool
  packet : Option Packet
  spu_channel : ℤ
  spu_channel' : ℤ

/-- `demux_ts_event_handler`. -/
def eventHandler (d : Demuxer) (pidsChange : Bool) : Demuxer :=
  if pidsChange then { d with videoPid := invalid, audioPid := invalid, media_num := 0 } else d

/-- `demux_ts_send_chunk`. -/
def sendChunk (d : Demuxer) (c : Chunk) : Except Fault Demuxer := do
  let d := d.eventHandler c.pidsChange
  let d ← match c.packet with
    | some p => d.parsePacket p c.spu_channel
    | none => .ok d
  return if c.spu_channel' ≠ d.current_spu_channel then d.updateSpuChannel c.spu_channel' else d

/-- The demuxer and its faults: after a fault nothing is known. -/
def step (s : Except Fault Demuxer) (c : Chunk) : Option (Except Fault Demuxer) :=
  some (s.bind fun d => d.sendChunk c)

end Demuxer

end Xine.DemuxTs
