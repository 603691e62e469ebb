import Mathlib.Data.BitVec
import Xine.Library.Octets
import Xine.Library.Stores

/-!
# The chunks of a RealMedia header

The structs of `rmff.h`, and the functions of `rmff.c` that write
one chunk to a buffer and read it back, `rmff_dump_*` and `rmff_scan_*`. The writers swap the fields of
the struct in place, copy them to the buffer and swap them back; what they leave in the struct is part
of their result.

`mlti_data` and its size, which none of them touches, and the warnings about unknown versions are left
out. The string that a pointer points to is given by its bytes without the null byte behind them; a null
pointer has none.
-/

namespace Xine.Rmff

open Octets Stores

/-- A buffer, by the offsets in it. -/
abbrev Buffer := ℤ → Byte

def fourccTag (ch0 ch1 ch2 ch3 : Char) : BitVec 32 :=
  BitVec.ofNat 32 (ch3.toNat ||| ch2.toNat <<< 8 ||| ch1.toNat <<< 16 ||| ch0.toNat <<< 24)

def RMF_TAG : BitVec 32 := fourccTag '.' 'R' 'M' 'F'
def PROP_TAG : BitVec 32 := fourccTag 'P' 'R' 'O' 'P'
def MDPR_TAG : BitVec 32 := fourccTag 'M' 'D' 'P' 'R'
def CONT_TAG : BitVec 32 := fourccTag 'C' 'O' 'N' 'T'
def DATA_TAG : BitVec 32 := fourccTag 'D' 'A' 'T' 'A'

/-! ## Bytes of numbers -/

/-- How a machine keeps its numbers in memory. -/
inductive ByteOrder
  | little
  | big
deriving DecidableEq

namespace ByteOrder

variable (order : ByteOrder)

/-- The bytes of a number in memory. -/
def bytes (len n : ℕ) : List Byte :=
  match order with
  | little => littleEndian len n
  | big => bigEndian len n

/-- What `memcpy` copies from a field of type `uint16_t`. -/
def field16 (x : BitVec 16) : List Byte := order.bytes 2 x.toNat

/-- What `memcpy` copies from a field of type `uint32_t`. -/
def field32 (x : BitVec 32) : List Byte := order.bytes 4 x.toNat

/-- `BE_16` of a field. -/
def be16 (x : BitVec 16) : BitVec 16 := BitVec.ofNat 16 (ofBig (order.field16 x))

/-- `BE_32` of a field. -/
def be32 (x : BitVec 32) : BitVec 32 := BitVec.ofNat 32 (ofBig (order.field32 x))

end ByteOrder

/-- `BE_16` of the bytes in a buffer. -/
def be16At (data : Buffer) (ptr : ℤ) : BitVec 16 := BitVec.ofNat 16 (ofBig (load data ptr 2))

/-- `BE_32` of the bytes in a buffer. -/
def be32At (data : Buffer) (ptr : ℤ) : BitVec 32 := BitVec.ofNat 32 (ofBig (load data ptr 4))

/-! ## The structs -/

structure RmffFileheader where
  object_id : BitVec 32
  size : BitVec 32
  object_version : BitVec 16
  file_version : BitVec 32
  num_headers : BitVec 32
deriving DecidableEq

structure RmffProp where
  object_id : BitVec 32
  size : BitVec 32
  object_version : BitVec 16
  max_bit_rate : BitVec 32
  avg_bit_rate : BitVec 32
  max_packet_size : BitVec 32
  avg_packet_size : BitVec 32
  num_packets : BitVec 32
  duration : BitVec 32
  preroll : BitVec 32
  index_offset : BitVec 32
  data_offset : BitVec 32
  num_streams : BitVec 16
  flags : BitVec 16
deriving DecidableEq

structure RmffMdpr where
  object_id : BitVec 32
  size : BitVec 32
  object_version : BitVec 16
  stream_number : BitVec 16
  max_bit_rate : BitVec 32
  avg_bit_rate : BitVec 32
  max_packet_size : BitVec 32
  avg_packet_size : BitVec 32
  start_time : BitVec 32
  preroll : BitVec 32
  duration : BitVec 32
  stream_name_size : Byte
  stream_name : List Byte
  mime_type_size : Byte
  mime_type : List Byte
  type_specific_len : BitVec 32
  type_specific_data : List Byte
deriving DecidableEq

structure RmffCont where
  object_id : BitVec 32
  size : BitVec 32
  object_version : BitVec 16
  title_len : BitVec 16
  title : List Byte
  author_len : BitVec 16
  author : List Byte
  copyright_len : BitVec 16
  copyright : List Byte
  comment_len : BitVec 16
  comment : List Byte
deriving DecidableEq

structure RmffData where
  object_id : BitVec 32
  size : BitVec 32
  object_version : BitVec 16
  num_packets : BitVec 32
  next_data_header : BitVec 32
deriving DecidableEq

/-! ## Writing a chunk -/

variable (order : ByteOrder)

def rmffDumpFileheader (fileheader : RmffFileheader) (buffer : Buffer) (start : ℤ) :
    RmffFileheader × Buffer :=
  let fileheader := { fileheader with
    object_id := order.be32 fileheader.object_id
    size := order.be32 fileheader.size
    object_version := order.be16 fileheader.object_version
    file_version := order.be32 fileheader.file_version
    num_headers := order.be32 fileheader.num_headers }
  let buffer := store buffer start (order.field32 fileheader.object_id ++ order.field32 fileheader.size)
  let buffer := store buffer (start + 8) (order.field16 fileheader.object_version)
  let buffer := store buffer (start + 10)
    (order.field32 fileheader.file_version ++ order.field32 fileheader.num_headers)
  let fileheader := { fileheader with
    size := order.be32 fileheader.size
    object_version := order.be16 fileheader.object_version
    file_version := order.be32 fileheader.file_version
    num_headers := order.be32 fileheader.num_headers
    object_id := order.be32 fileheader.object_id }
  (fileheader, buffer)

def rmffDumpProp (prop : RmffProp) (buffer : Buffer) (start : ℤ) : RmffProp × Buffer :=
  let prop := { prop with
    object_id := order.be32 prop.object_id
    size := order.be32 prop.size
    object_version := order.be16 prop.object_version
    max_bit_rate := order.be32 prop.max_bit_rate
    avg_bit_rate := order.be32 prop.avg_bit_rate
    max_packet_size := order.be32 prop.max_packet_size
    avg_packet_size := order.be32 prop.avg_packet_size
    num_packets := order.be32 prop.num_packets
    duration := order.be32 prop.duration
    preroll := order.be32 prop.preroll
    index_offset := order.be32 prop.index_offset
    data_offset := order.be32 prop.data_offset
    num_streams := order.be16 prop.num_streams
    flags := order.be16 prop.flags }
  let buffer := store buffer start (order.field32 prop.object_id ++ order.field32 prop.size)
  let buffer := store buffer (start + 8) (order.field16 prop.object_version)
  -- the nine fields from `max_bit_rate` on lie one behind the other
  let buffer := store buffer (start + 10)
    (order.field32 prop.max_bit_rate ++ order.field32 prop.avg_bit_rate ++
      order.field32 prop.max_packet_size ++ order.field32 prop.avg_packet_size ++
      order.field32 prop.num_packets ++ order.field32 prop.duration ++ order.field32 prop.preroll ++
      order.field32 prop.index_offset ++ order.field32 prop.data_offset)
  let buffer := store buffer (start + 46) (order.field16 prop.num_streams)
  let buffer := store buffer (start + 48) (order.field16 prop.flags)
  let prop := { prop with
    size := order.be32 prop.size
    object_version := order.be16 prop.object_version
    max_bit_rate := order.be32 prop.max_bit_rate
    avg_bit_rate := order.be32 prop.avg_bit_rate
    max_packet_size := order.be32 prop.max_packet_size
    avg_packet_size := order.be32 prop.avg_packet_size
    num_packets := order.be32 prop.num_packets
    duration := order.be32 prop.duration
    preroll := order.be32 prop.preroll
    index_offset := order.be32 prop.index_offset
    data_offset := order.be32 prop.data_offset
    num_streams := order.be16 prop.num_streams
    flags := order.be16 prop.flags
    object_id := order.be32 prop.object_id }
  (prop, buffer)

/-- `rmff_dump_mdpr`. The length of the type specific data goes through an `int`, and `memcpy` does not
come back from a negative one. -/
def rmffDumpMdpr (mdpr : RmffMdpr) (buffer : Buffer) (start : ℤ) : Option (RmffMdpr × Buffer) :=
  let mdpr := { mdpr with
    object_id := order.be32 mdpr.object_id
    size := order.be32 mdpr.size
    object_version := order.be16 mdpr.object_version
    stream_number := order.be16 mdpr.stream_number
    max_bit_rate := order.be32 mdpr.max_bit_rate
    avg_bit_rate := order.be32 mdpr.avg_bit_rate
    max_packet_size := order.be32 mdpr.max_packet_size
    avg_packet_size := order.be32 mdpr.avg_packet_size
    start_time := order.be32 mdpr.start_time
    preroll := order.be32 mdpr.preroll
    duration := order.be32 mdpr.duration }
  let buffer := store buffer start (order.field32 mdpr.object_id ++ order.field32 mdpr.size)
  let buffer := store buffer (start + 8) (order.field16 mdpr.object_version)
  let buffer := store buffer (start + 10) (order.field16 mdpr.stream_number)
  -- the seven fields from `max_bit_rate` on lie one behind the other
  let buffer := store buffer (start + 12)
    (order.field32 mdpr.max_bit_rate ++ order.field32 mdpr.avg_bit_rate ++
      order.field32 mdpr.max_packet_size ++ order.field32 mdpr.avg_packet_size ++
      order.field32 mdpr.start_time ++ order.field32 mdpr.preroll ++ order.field32 mdpr.duration)
  let buffer := store buffer (start + 40) [mdpr.stream_name_size]
  let s1 := mdpr.stream_name_size.toNat
  let buffer := store buffer (start + 41) (mdpr.stream_name.take s1)
  let buffer := store buffer (start + (41 + s1 : ℕ)) [mdpr.mime_type_size]
  let s2 := mdpr.mime_type_size.toNat
  let buffer := store buffer (start + (42 + s1 : ℕ)) (mdpr.mime_type.take s2)
  let mdpr := { mdpr with type_specific_len := order.be32 mdpr.type_specific_len }
  let buffer := store buffer (start + (42 + s1 + s2 : ℕ)) (order.field32 mdpr.type_specific_len)
  let mdpr := { mdpr with type_specific_len := order.be32 mdpr.type_specific_len }
  let s3 := mdpr.type_specific_len.toInt
  if s3 < 0 then
    none
  else
    let buffer := store buffer (start + (46 + s1 + s2 : ℕ)) (mdpr.type_specific_data.take s3.toNat)
    -- `object_version` is not swapped back
    let mdpr := { mdpr with
      size := order.be32 mdpr.size
      stream_number := order.be16 mdpr.stream_number
      max_bit_rate := order.be32 mdpr.max_bit_rate
      avg_bit_rate := order.be32 mdpr.avg_bit_rate
      max_packet_size := order.be32 mdpr.max_packet_size
      avg_packet_size := order.be32 mdpr.avg_packet_size
      start_time := order.be32 mdpr.start_time
      preroll := order.be32 mdpr.preroll
      duration := order.be32 mdpr.duration
      object_id := order.be32 mdpr.object_id }
    some (mdpr, buffer)

/-- The part of `rmff_dump_cont` that writes a text with its length in front of it. -/
def dumpText (len : BitVec 16) (text : List Byte) (buffer : Buffer) (p : ℤ) : BitVec 16 × Buffer :=
  let len := order.be16 len
  let buffer := store buffer p (order.field16 len)
  let len := order.be16 len
  (len, store buffer (p + 2) (text.take len.toNat))

def rmffDumpCont (cont : RmffCont) (buffer : Buffer) (start : ℤ) : RmffCont × Buffer :=
  let cont := { cont with
    object_id := order.be32 cont.object_id
    size := order.be32 cont.size
    object_version := order.be16 cont.object_version }
  let buffer := store buffer start (order.field32 cont.object_id ++ order.field32 cont.size)
  let buffer := store buffer (start + 8) (order.field16 cont.object_version)
  let (title_len, buffer) := dumpText order cont.title_len cont.title buffer (start + 10)
  let p := 12 + title_len.toNat
  let (author_len, buffer) := dumpText order cont.author_len cont.author buffer (start + p)
  let p := p + 2 + author_len.toNat
  let (copyright_len, buffer) := dumpText order cont.copyright_len cont.copyright buffer (start + p)
  let p := p + 2 + copyright_len.toNat
  let (comment_len, buffer) := dumpText order cont.comment_len cont.comment buffer (start + p)
  let cont := { cont with title_len, author_len, copyright_len, comment_len }
  let cont := { cont with
    size := order.be32 cont.size
    object_version := order.be16 cont.object_version
    object_id := order.be32 cont.object_id }
  (cont, buffer)

def rmffDumpDataheader (data : RmffData) (buffer : Buffer) (start : ℤ) : RmffData × Buffer :=
  let data := { data with
    object_id := order.be32 data.object_id
    size := order.be32 data.size
    object_version := order.be16 data.object_version
    num_packets := order.be32 data.num_packets
    next_data_header := order.be32 data.next_data_header }
  let buffer := store buffer start (order.field32 data.object_id ++ order.field32 data.size)
  let buffer := store buffer (start + 8) (order.field16 data.object_version)
  let buffer := store buffer (start + 10)
    (order.field32 data.num_packets ++ order.field32 data.next_data_header)
  let data := { data with
    num_packets := order.be32 data.num_packets
    next_data_header := order.be32 data.next_data_header
    size := order.be32 data.size
    object_version := order.be16 data.object_version
    object_id := order.be32 data.object_id }
  (data, buffer)

/-! ## Reading a chunk -/

def rmffScanFileheader (data : Buffer) (ptr : ℤ) : RmffFileheader where
  object_id := be32At data ptr
  size := be32At data (ptr + 4)
  object_version := be16At data (ptr + 8)
  file_version := be32At data (ptr + 10)
  num_headers := be32At data (ptr + 14)

def rmffScanProp (data : Buffer) (ptr : ℤ) : RmffProp where
  object_id := be32At data ptr
  size := be32At data (ptr + 4)
  object_version := be16At data (ptr + 8)
  max_bit_rate := be32At data (ptr + 10)
  avg_bit_rate := be32At data (ptr + 14)
  max_packet_size := be32At data (ptr + 18)
  avg_packet_size := be32At data (ptr + 22)
  num_packets := be32At data (ptr + 26)
  duration := be32At data (ptr + 30)
  preroll := be32At data (ptr + 34)
  index_offset := be32At data (ptr + 38)
  data_offset := be32At data (ptr + 42)
  num_streams := be16At data (ptr + 46)
  flags := be16At data (ptr + 48)

def rmffScanMdpr (data : Buffer) (ptr : ℤ) : RmffMdpr :=
  let stream_name_size := data (ptr + 40)
  let s1 := stream_name_size.toNat
  let mime_type_size := data (ptr + (41 + s1 : ℕ))
  let s2 := mime_type_size.toNat
  let type_specific_len := be32At data (ptr + (42 + s1 + s2 : ℕ))
  { object_id := be32At data ptr
    size := be32At data (ptr + 4)
    object_version := be16At data (ptr + 8)
    stream_number := be16At data (ptr + 10)
    max_bit_rate := be32At data (ptr + 12)
    avg_bit_rate := be32At data (ptr + 16)
    max_packet_size := be32At data (ptr + 20)
    avg_packet_size := be32At data (ptr + 24)
    start_time := be32At data (ptr + 28)
    preroll := be32At data (ptr + 32)
    duration := be32At data (ptr + 36)
    stream_name_size
    stream_name := load data (ptr + 41) s1
    mime_type_size
    mime_type := load data (ptr + (42 + s1 : ℕ)) s2
    type_specific_len
    type_specific_data := load data (ptr + (46 + s1 + s2 : ℕ)) type_specific_len.toNat }

/-- The part of `rmff_scan_cont` that reads a text with its length in front of it. -/
def scanText (data : Buffer) (pos : ℤ) : BitVec 16 × List Byte :=
  let len := be16At data pos
  (len, load data (pos + 2) len.toNat)

def rmffScanCont (data : Buffer) (ptr : ℤ) : RmffCont :=
  let (title_len, title) := scanText data (ptr + 10)
  let pos := title_len.toNat + 12
  let (author_len, author) := scanText data (ptr + pos)
  let pos := pos + 2 + author_len.toNat
  let (copyright_len, copyright) := scanText data (ptr + pos)
  let pos := pos + 2 + copyright_len.toNat
  let (comment_len, comment) := scanText data (ptr + pos)
  { object_id := be32At data ptr
    size := be32At data (ptr + 4)
    object_version := be16At data (ptr + 8)
    title_len, title, author_len, author, copyright_len, copyright, comment_len, comment }

def rmffScanDataheader (data : Buffer) (ptr : ℤ) : RmffData where
  object_id := be32At data ptr
  size := be32At data (ptr + 4)
  object_version := be16At data (ptr + 8)
  num_packets := be32At data (ptr + 10)
  next_data_header := be32At data (ptr + 14)

end Xine.Rmff
