import Mathlib.Data.BitVec
import Xine.Library.Memory

/-!
# The elementary streams of a transport stream

`demux_ts_parse_pes_header` and `demux_ts_buffer_pes` of `demux_ts.c`, which collect the
payloads of the packets with one pid in buffers for the fifo of the stream. A payload is the memory
from its first byte on, with its length; reading further gives what lies behind it in the memory.

A copy that does not fit into a buffer is `none`. The position of the input is the caller's.
-/

namespace Xine.DemuxTs

abbrev Byte := BitVec 8

/-- `BODY_SIZE`, the bytes of a packet behind its header. -/
def bodySize : ℕ := 188 - 4

def maxPesBufSize : ℕ := 2048

/-- `INVALID_CC` and the other invalid values. -/
def invalid : ℕ := 2 ^ 32 - 1

def bufVideoMpeg : BitVec 32 := 0x02000000

def bufAudioA52 : BitVec 32 := 0x03000000

def bufAudioMpeg : BitVec 32 := 0x03010000

def bufAudioLpcmBe : BitVec 32 := 0x03020000

def bufSpuDvd : BitVec 32 := 0x04000000

def bufSpuDvb : BitVec 32 := 0x04030000

def bufFlagSpecial : BitVec 32 := 0x0200

def bufSpecialSpuDvdSubtype : ℕ := 8

def spuDvdSubtypePackage : ℕ := 2

/-- `buf_element_t`, as far as the demuxer sets it. -/
structure BufElement where
  mem : ℕ → Byte
  size : ℕ
  type : BitVec 32
  pts : ℕ
  decoder_flags : BitVec 32
  decoder_info : ℕ → ℕ
  input_pos : ℤ
  input_time : ℤ

/-- A buffer as `buffer_pool_alloc` returns it. Its memory holds what it held. -/
def bufferPoolAlloc (mem : ℕ → Byte) : BufElement := ⟨mem, 0, 0, 0, 0, fun _ => 0, 0, 0⟩

/-- The content of a buffer. -/
def BufElement.content (buf : BufElement) : List Byte := Memory.slice buf.mem 0 buf.size

/-- `demux_ts_media`, without the fifo and what nothing reads. The field `content` is known from the
size. -/
structure Media where
  pid : ℕ
  size : ℕ
  type : BitVec 32
  pts : ℕ
  buf : Option BufElement
  counter : ℕ
  descriptor_tag : ℕ
  corrupted_pes : Bool
  buffered_bytes : ℕ

/-- `demux_ts_pes_new`. A buffer that it has is freed. -/
def demuxTsPesNew (m : Media) (pid descriptor : ℕ) : Media :=
  { m with
    pid
    buf := none
    counter := invalid
    descriptor_tag := descriptor
    corrupted_pes := true
    buffered_bytes := 0 }

/-! ## Headers -/

/-- The 33 bits of a time stamp. -/
def parsePts (p : ℕ → ℕ) : ℕ :=
  (p 9 &&& 0x0E) <<< 29 ||| p 10 <<< 22 ||| (p 11 &&& 0xFE) <<< 14 ||| p 12 <<< 7 |||
    (p 13 &&& 0xFE) >>> 1

/-- The loop over `pcm_offset`, with as much fuel as there are bytes and one more. -/
def pcmOffset (p : ℕ → ℕ) (packet_len : ℤ) : ℕ → ℕ → ℕ
  | 0, pcm_offset => pcm_offset
  | fuel + 1, pcm_offset =>
    let pcm_offset := pcm_offset + 1
    if (pcm_offset : ℤ) < packet_len - 1 then
      if p pcm_offset = 0x01 ∧ p (pcm_offset + 1) = 0x80 then pcm_offset + 2
      else pcmOffset p packet_len fuel pcm_offset
    else pcm_offset

/-- The private stream 1: how many bytes its own header has, and the type of the stream. The pointer
`p` is behind the header of the packet, whose fields are in `buf`. -/
def parsePrivateStream (descriptor_tag : ℕ) (buf p : ℕ → ℕ) (packet_len : ℤ) :
    Option (ℕ × BitVec 32) :=
  let track := BitVec.ofNat 32 (p 0 &&& 0x0F)
  if descriptor_tag = 0x81 ∨ p 0 = 0x0B ∧ p 1 = 0x77 then some (0, bufAudioA52)
  else if descriptor_tag = 0x06 ∧ p 0 = 0x20 ∧ p 1 = 0x00 then
    let payload_len := BitVec.ofNat 32 (buf 4 <<< 8 ||| buf 5) - BitVec.ofNat 32 (buf 8) - 3
    some (0, bufSpuDvb + payload_len)
  else if p 0 &&& 0xE0 = 0x20 then some (1, bufSpuDvd + BitVec.ofNat 32 (p 0 &&& 0x1f))
  else if p 0 &&& 0xF0 = 0x80 then some (4, bufAudioA52 + track)
  else if p 0 &&& 0xF0 = 0xA0 then
    some (pcmOffset p packet_len (packet_len.toNat + 1) 0, bufAudioLpcmBe + track)
  else none

/-- The stream of a packet: how many bytes are to be removed behind its header, and the type. -/
def parseStream (descriptor_tag : ℕ) (buf : ℕ → ℕ) (packet_len : ℤ) : Option (ℕ × BitVec 32) :=
  let stream_id := buf 3
  if stream_id = 0xbd then
    parsePrivateStream descriptor_tag buf (fun i => buf (buf 8 + 9 + i)) packet_len
  else if 0xbc ≤ stream_id ∧ stream_id &&& 0xf0 = 0xe0 then some (0, bufVideoMpeg)
  else if stream_id &&& 0xe0 = 0xc0 then
    some (0, bufAudioMpeg + BitVec.ofNat 32 (stream_id &&& 0x1f))
  else none

/-- `demux_ts_parse_pes_header`. The size is of an unsigned type of 32 bits. -/
def demuxTsParsePesHeader (m : Media) (mem : ℕ → Byte) (pkt_len : ℕ) : Media × Bool :=
  let p := fun i => (mem i).toNat
  if p 0 ≠ 0 ∨ p 1 ≠ 0 ∨ p 2 ≠ 1 then (m, false)
  else if (pkt_len : ℤ) - 6 = 0 then (m, false)
  else
    let m := { m with pts := if p 7 &&& 0x80 ≠ 0 then parsePts p else 0 }
    let header_len := p 8
    if header_len + 9 > pkt_len then (m, false)
    else
      let packet_len : ℤ := (pkt_len : ℤ) - 6 - (header_len + 3)
      match parseStream m.descriptor_tag p packet_len with
      | some (removed, type) =>
        ({ m with size := ((packet_len - removed) % 2 ^ 32).toNat, type }, true)
      | none => (m, false)

/-! ## Buffers -/

/-- A payload of a packet, with the continuity counter and the position of the input. -/
structure Payload where
  mem : ℕ → Byte
  /-- The packet starts a packet of the elementary stream. -/
  pus : Bool
  cc : ℕ
  len : ℕ
  pos : ℤ
  /-- What is in the memory of the buffer that is allocated for it. -/
  fresh : ℕ → Byte

/-- An elementary stream and the buffers that were put into its fifo. -/
structure Stream where
  m : Media
  put : List BufElement

/-- The fields of a buffer that is put. -/
def finishBuffer (rate : ℤ) (m : Media) (pos : ℤ) (buf : BufElement) : BufElement :=
  { buf with
    size := m.buffered_bytes
    type := m.type
    pts := m.pts
    decoder_info := Function.update buf.decoder_info 0 1
    input_pos := pos
    input_time := if rate ≠ 0 then (pos * 1000).tdiv (rate * 50) else buf.input_time }

/-- A package of a subtitle stream is marked. -/
def markPackage (type : BitVec 32) (buf : BufElement) : BufElement :=
  if type &&& 0xffff0000 = bufSpuDvd then
    { buf with
      decoder_flags := buf.decoder_flags ||| bufFlagSpecial
      decoder_info := Function.update (Function.update buf.decoder_info 1 bufSpecialSpuDvdSubtype) 2
        spuDvdSubtypePackage }
  else buf

/-- The copy of a payload, or of the last bytes of it, into a buffer of the size `max_size`. -/
def copyPayload (max_size : ℕ) (buf : BufElement) (buffered_bytes : ℕ) (src : ℕ → Byte) (size : ℕ) :
    Option BufElement :=
  if buffered_bytes + size ≤ max_size then
    some { buf with mem := Memory.memcpy buf.mem buffered_bytes src size }
  else none

/-- A packet of the elementary stream starts: what was buffered is put, and the header parsed. -/
def startPes (max_size : ℕ) (rate : ℤ) (s : Stream) (p : Payload) : Option Stream :=
  (if s.m.buffered_bytes ≠ 0 then
    s.m.buf.map fun buf =>
      { s with
        m := { s.m with buffered_bytes := 0, buf := none }
        put := s.put ++ [finishBuffer rate s.m p.pos (markPackage s.m.type buf)] }
  else some s).bind fun s =>
    match demuxTsParsePesHeader s.m p.mem p.len with
    | (m, false) => some { s with m := { m with corrupted_pes := true } }
    | (m, true) =>
      -- the last bytes of the payload
      (copyPayload max_size (bufferPoolAlloc p.fresh) 0 (fun i => p.mem (p.len - m.size + i))
        m.size).map fun buf =>
          { s with m := { m with corrupted_pes := false, buf := some buf, buffered_bytes := m.size } }

/-- A packet of the elementary stream continues. -/
def continuePes (max_size : ℕ) (rate : ℤ) (s : Stream) (p : Payload) : Option Stream :=
  (if s.m.buffered_bytes + p.len > maxPesBufSize then
    s.m.buf.map fun buf =>
      { s with
        m := { s.m with
          buffered_bytes := 0
          buf := some (bufferPoolAlloc p.fresh)
          -- the next buffer is in the middle of a packet
          type := if s.m.type &&& 0xffff0000 = bufSpuDvb then bufSpuDvb else s.m.type }
        put := s.put ++ [finishBuffer rate s.m p.pos buf] }
  else some s).bind fun s =>
    s.m.buf.bind fun buf =>
      (copyPayload max_size buf s.m.buffered_bytes p.mem p.len).map fun buf =>
        { s with m := { s.m with buf := some buf, buffered_bytes := s.m.buffered_bytes + p.len } }

/-- `demux_ts_buffer_pes`, when there is a fifo. -/
def demuxTsBufferPes (max_size : ℕ) (rate : ℤ) (s : Stream) (p : Payload) : Option Stream :=
  let s := { s with m := { s.m with counter := p.cc + 1 } }
  if p.pus then startPes max_size rate s p
  else if s.m.corrupted_pes then some s
  else continuePes max_size rate s p

end Xine.DemuxTs

/-!
## The tables of a transport stream

What `demux_ts_parse_pat` and `demux_ts_parse_pmt` of `demux_ts.c` read: the programs of
an association table, and the elementary streams of a map table, which is collected from one or more
packets. A packet is the memory from its first byte on; reading further gives what lies behind it.
-/

namespace Xine.DemuxTs

/-- What a step must not do. -/
inductive Fault where
  /-- An index outside one of the tables of the demuxer. -/
  | table
  /-- A copy or a checksum outside the memory that was allocated. -/
  | memory

def pktSize : ℕ := 188

/-- The size of the memory for a map table. -/
def sectionSize : ℕ := 1024

/-- A packet, as `demux_synchronise` returns it. -/
structure Packet where
  mem : ℕ → Byte
  pos : ℤ
  /-- What is in the memory of a buffer that is allocated for it. -/
  fresh : ℕ → Byte
  /-- What lies behind the memory that is allocated for a map table. -/
  behind : ℕ → Byte

namespace Packet

/-- A byte of the packet. -/
def byte (p : Packet) (i : ℕ) : ℕ := (p.mem i).toNat

def sync_byte (p : Packet) : ℕ := p.byte 0

def transport_error_indicator (p : Packet) : ℕ := p.byte 1 >>> 7 &&& 0x01

def payload_unit_start_indicator (p : Packet) : Bool := p.byte 1 >>> 6 &&& 0x01 ≠ 0

def pid (p : Packet) : ℕ := (p.byte 1 <<< 8 ||| p.byte 2) &&& 0x1fff

def transport_scrambling_control (p : Packet) : ℕ := p.byte 3 >>> 6 &&& 0x03

def adaptation_field_control (p : Packet) : ℕ := p.byte 3 >>> 4 &&& 0x03

def continuity_counter (p : Packet) : ℕ := p.byte 3 &&& 0x0f

/-- Where the payload starts, behind the header and the adaptation field. -/
def data_offset (p : Packet) : ℕ :=
  if p.adaptation_field_control &&& 0x2 ≠ 0 then 4 + (p.byte 4 + 1) else 4

end Packet

/-! ## Checksums -/

/-- The loop of `demux_ts_build_crc32_table` for an entry, with as much fuel as a word has bits. -/
def crc32Entry : ℕ → BitVec 32 → BitVec 32 → BitVec 32
  | 0, _, k => k
  | fuel + 1, j, k =>
    if j = 0x80000000 then k
    else
      crc32Entry fuel (j <<< 1)
        (k <<< 1 ^^^ if (k ^^^ j) &&& 0x80000000 ≠ 0 then 0x04c11db7 else 0)

def crc32Table (i : BitVec 32) : BitVec 32 := crc32Entry 32 (i <<< 24 ||| 0x800000) 0

/-- `demux_ts_compute_crc32`, over the memory from an address on. -/
def demuxTsComputeCrc32 (mem : ℕ → Byte) (start length : ℕ) : BitVec 32 :=
  (Memory.slice mem start length).foldl
    (fun crc32 byte => crc32 <<< 8 ^^^ crc32Table (crc32 >>> 24 ^^^ byte.setWidth 32)) 0xffffffff

/-- Four bytes of the memory, the highest first. -/
def readWord (mem : ℕ → Byte) (i : ℕ) : BitVec 32 :=
  mem i ++ mem (i + 1) ++ mem (i + 2) ++ mem (i + 3)

/-! ## Association tables -/

/-- A program and the pid of its map table, four bytes of the memory. -/
def patProgram (mem : ℕ → Byte) (program : ℕ) : ℕ × ℕ :=
  ((mem program).toNat <<< 8 ||| (mem (program + 1)).toNat,
    ((mem (program + 2)).toNat &&& 0x1f) <<< 8 ||| (mem (program + 3)).toNat)

/-- The programs of an association table, if it is accepted. The offset is that of the payload less
the four bytes of the header. -/
def patPrograms (p : Packet) (offset : ℕ) : Except Fault (List (ℕ × ℕ)) :=
  -- sections start with a pointer
  let pkt := offset + p.byte (offset + 4)
  let section_length := (p.byte (pkt + 6) &&& 0x03) <<< 8 ||| p.byte (pkt + 7)
  if ¬p.payload_unit_start_indicator then .ok []
  else if pkt > pktSize then .ok []
  else if p.byte (pkt + 6) >>> 7 &&& 1 ≠ 1 ∨ p.byte (pkt + 10) &&& 0x01 = 0 then .ok []
  -- the section length is unsigned, and so is the difference
  else if pkt > (((bodySize : ℤ) - 1 - 3 - section_length) % 2 ^ 32).toNat then .ok []
  else if p.byte (pkt + 11) ≠ 0 ∨ p.byte (pkt + 12) ≠ 0 then .ok []
  else if section_length = 0 then .error .memory
  else if readWord p.mem (pkt + 4 + section_length) ≠
      demuxTsComputeCrc32 p.mem (pkt + 5) (section_length + 3 - 4) then .ok []
  else
    .ok ((List.range ((section_length - 9 + 3) / 4)).map fun k =>
      patProgram p.mem (pkt + 13 + 4 * k))

/-! ## Map tables -/

/-- The memory for a map table, and how much of it has been written. -/
structure Section where
  mem : ℕ → Byte
  write : ℕ

/-- Memory from `calloc`, with what lies behind it. -/
def Section.alloc (p : Packet) : Section := ⟨fun i => if i < sectionSize then 0 else p.behind i, 0⟩

/-- A section is skipped that is not the current one, or of another program, or one of several. -/
def skipsSection (p : Packet) (pkt program_number : ℕ) : Prop :=
  (p.byte (pkt + 6) >>> 7 &&& 0x01 ≠ 1 ∨ p.byte (pkt + 10) &&& 0x01 = 0) ∨
    p.byte (pkt + 8) <<< 8 ||| p.byte (pkt + 9) ≠ program_number ∨
    p.byte (pkt + 11) ≠ 0 ∨ p.byte (pkt + 12) ≠ 0

instance {p : Packet} {pkt program_number : ℕ} : Decidable (skipsSection p pkt program_number) := by
  unfold skipsSection
  infer_instance

/-- The length of a section, at the second byte of it. -/
def sectionLength (mem : ℕ → Byte) (start : ℕ) : ℕ :=
  ((mem (start + 1)).toNat <<< 8 ||| (mem (start + 2)).toNat) &&& 0x03ff

/-- A packet is copied behind what has been written of the section. The result says whether the
section is complete and its checksum right. -/
def appendSection (p : Packet) (pkt section_length : ℕ) (s : Section) : Except Fault (Section × Bool) :=
  let coded_length : ℤ := min ((bodySize : ℤ) - pkt - 1) ((section_length : ℤ) + 3 - s.write)
  -- a negative length is more than any memory holds
  if coded_length < 0 ∨ sectionSize < s.write + coded_length.toNat then .error .memory
  else
    let s : Section :=
      ⟨Memory.memcpy s.mem s.write (fun i => p.mem (pkt + 5 + i)) coded_length.toNat,
        s.write + coded_length.toNat⟩
    if s.write < section_length then .ok (s, false)
    else if section_length = 0 then .error .memory
    else .ok (s, readWord s.mem (section_length + 3 - 4) =
      demuxTsComputeCrc32 s.mem 0 (section_length + 3 - 4))

/-- What a packet does to the memory for the map table of a program, with the length of the section
when it is complete and accepted. -/
def collectSection (p : Packet) (offset program_number : ℕ) (pmt : Option Section) :
    Except Fault (Option Section × Option (Section × ℕ)) :=
  let pkt := offset + p.byte (offset + 4)
  let append (section_length : ℕ) (s : Section) :=
    (appendSection p pkt section_length s).map fun (s, complete) =>
      (some s, if complete then some (s, section_length) else none)
  if pkt > pktSize then .ok (pmt, none)
  else if p.payload_unit_start_indicator then
    if skipsSection p pkt program_number then .ok (some (Section.alloc p), none)
    else append (sectionLength p.mem (pkt + 5)) (Section.alloc p)
  else
    match pmt with
    | none => .ok (none, none)
    | some s => append (sectionLength s.mem 0) s

/-- An elementary stream in a map table: the memory from its entry on. -/
structure Es where
  mem : ℕ → Byte

namespace Es

/-- A byte of the entry. -/
def byte (e : Es) (i : ℕ) : ℕ := (e.mem i).toNat

def pid (e : Es) : ℕ := (e.byte 1 <<< 8 ||| e.byte 2) &&& 0x1fff

def stream_info_length (e : Es) : ℕ := (e.byte 3 <<< 8 ||| e.byte 4) &&& 0x0fff

def coded_length (e : Es) : ℕ := 5 + e.stream_info_length

/-- The offsets of the descriptors from `i` on, with as much fuel as the entry has bytes. -/
def descriptorsFrom (e : Es) : ℕ → ℕ → List ℕ
  | 0, _ => []
  | fuel + 1, i =>
    if i < e.coded_length then i :: e.descriptorsFrom fuel (i + (e.byte (i + 1) + 2)) else []

/-- The offsets of the descriptors. -/
def descriptors (e : Es) : List ℕ := e.descriptorsFrom e.coded_length 5

/-- `demux_ts_get_reg_desc`: the four bytes of the first registration descriptor. -/
def demuxTsGetRegDesc (e : Es) : BitVec 32 :=
  match e.descriptors.find? fun d => e.byte d = 5 ∧ 4 ≤ e.byte (d + 1) with
  | some d => readWord e.mem (d + 2)
  | none => 0

end Es

/-- The elementary streams from an address on, and whether their lengths are consistent. -/
def esFrom (mem : ℕ → Byte) : ℕ → ℕ → ℕ → List Es × Bool
  | 0, _, _ => ([], true)
  | fuel + 1, stream, section_length =>
    if 0 < section_length then
      let e : Es := ⟨fun i => mem (stream + i)⟩
      if e.coded_length > section_length then ([], false)
      else
        let (es, consistent) :=
          esFrom mem fuel (stream + e.coded_length) (section_length - e.coded_length)
        (e :: es, consistent)
    else ([], true)

/-- The elementary streams of a map table. -/
def pmtStreams (mem : ℕ → Byte) (section_length : ℕ) : Option (List Es × Bool) :=
  let program_info_length := ((mem 10).toNat <<< 8 ||| (mem 11).toNat) &&& 0x0fff
  let coded_length := 13 + program_info_length
  if coded_length > section_length then none
  else
    some (esFrom mem section_length (12 + program_info_length) (section_length - coded_length))

end Xine.DemuxTs
