import Mathlib.Algebra.Order.BigOperators.Group.List
import Mathlib.Algebra.Order.Group.Nat
import Xine.Rmff.Chunks

/-!
# The format of the chunks

`encode` gives the bytes of a chunk in a file. Each writer stores them and, but for the version of a
media properties chunk, leaves the struct as it was; each reader gets the struct back from them.
-/

namespace Xine.Rmff

open Octets Stores

variable {order : ByteOrder} {buffer data : Buffer} {start ptr : ℤ}

/-! ## Fields -/

/-- The bytes of a field of type `uint16_t` in a file. -/
def bytes16 (x : BitVec 16) : List Byte := bigEndian 2 x.toNat

/-- The bytes of a field of type `uint32_t` in a file. -/
def bytes32 (x : BitVec 32) : List Byte := bigEndian 4 x.toNat

@[simp] theorem length_bytes16 (x : BitVec 16) : (bytes16 x).length = 2 := length_bigEndian 2 _

@[simp] theorem length_bytes32 (x : BitVec 32) : (bytes32 x).length = 4 := length_bigEndian 4 _

theorem ofBig_bytes16 (x : BitVec 16) : BitVec.ofNat 16 (ofBig (bytes16 x)) = x := by
  have hx : x.toNat < 2^(8 * 2) := x.isLt
  rw [bytes16, ofBig_of_lt hx, BitVec.ofNat_toNat, BitVec.setWidth_eq]

theorem ofBig_bytes32 (x : BitVec 32) : BitVec.ofNat 32 (ofBig (bytes32 x)) = x := by
  have hx : x.toNat < 2^(8 * 4) := x.isLt
  rw [bytes32, ofBig_of_lt hx, BitVec.ofNat_toNat, BitVec.setWidth_eq]

theorem ByteOrder.length_bytes (len n : ℕ) : (order.bytes len n).length = len := by
  cases order with
  | little => exact length_littleEndian len n
  | big => exact length_bigEndian len n

theorem ByteOrder.bytes_ofBig (len n : ℕ) :
    order.bytes len (ofBig (order.bytes len n)) = bigEndian len n := by
  cases order with
  | little =>
    have h := littleEndian_ofLittle (littleEndian len n).reverse
    rw [List.length_reverse, length_littleEndian] at h
    exact h
  | big =>
    have h := bigEndian_ofBig (bigEndian len n)
    rw [length_bigEndian] at h
    exact h

theorem field16_be16 (x : BitVec 16) : order.field16 (order.be16 x) = bytes16 x := by
  have hlt := ofBig_lt (order.bytes 2 x.toNat)
  rw [ByteOrder.length_bytes] at hlt
  unfold ByteOrder.field16 ByteOrder.be16 ByteOrder.field16
  rw [BitVec.toNat_ofNat, Nat.mod_eq_of_lt hlt, ByteOrder.bytes_ofBig, bytes16]

theorem field32_be32 (x : BitVec 32) : order.field32 (order.be32 x) = bytes32 x := by
  have hlt := ofBig_lt (order.bytes 4 x.toNat)
  rw [ByteOrder.length_bytes] at hlt
  unfold ByteOrder.field32 ByteOrder.be32 ByteOrder.field32
  rw [BitVec.toNat_ofNat, Nat.mod_eq_of_lt hlt, ByteOrder.bytes_ofBig, bytes32]

theorem be16_be16 (x : BitVec 16) : order.be16 (order.be16 x) = x := by
  rw [ByteOrder.be16, field16_be16, ofBig_bytes16]

theorem be32_be32 (x : BitVec 32) : order.be32 (order.be32 x) = x := by
  rw [ByteOrder.be32, field32_be32, ofBig_bytes32]

theorem be16At_of_holds {x : BitVec 16} (h : Holds data ptr (bytes16 x)) : be16At data ptr = x := by
  rw [Holds, length_bytes16] at h
  rw [be16At, h, ofBig_bytes16]

theorem be32At_of_holds {x : BitVec 32} (h : Holds data ptr (bytes32 x)) : be32At data ptr = x := by
  rw [Holds, length_bytes32] at h
  rw [be32At, h, ofBig_bytes32]

/-! ## The file header -/

def RmffFileheader.encode (f : RmffFileheader) : List Byte :=
  bytes32 f.object_id ++ bytes32 f.size ++ bytes16 f.object_version ++ bytes32 f.file_version ++
    bytes32 f.num_headers

@[simp] theorem RmffFileheader.length_encode (f : RmffFileheader) : f.encode.length = 18 := by
  unfold encode
  simp only [List.length_append, length_bytes32, length_bytes16]

theorem rmffDumpFileheader_eq (f : RmffFileheader) :
    rmffDumpFileheader order f buffer start = (f, store buffer start f.encode) := by
  unfold rmffDumpFileheader RmffFileheader.encode
  simp only [field32_be32, field16_be16, be32_be32, be16_be16]
  rw [store_next, store_next]
  · simp only [List.append_assoc]
  all_goals
    simp only [List.length_append, length_bytes32, length_bytes16]
    omega

theorem rmffScanFileheader_eq {f : RmffFileheader} (h : Holds data ptr f.encode) :
    rmffScanFileheader data ptr = f := by
  unfold RmffFileheader.encode at h
  simp only [holds_append, List.length_append, length_bytes32, length_bytes16, Nat.reduceAdd,
    Nat.cast_ofNat] at h
  obtain ⟨⟨⟨⟨h0, h4⟩, h8⟩, h10⟩, h14⟩ := h
  unfold rmffScanFileheader
  rw [be32At_of_holds h0, be32At_of_holds h4, be16At_of_holds h8, be32At_of_holds h10,
    be32At_of_holds h14]

/-! ## Properties -/

def RmffProp.encode (p : RmffProp) : List Byte :=
  bytes32 p.object_id ++ bytes32 p.size ++ bytes16 p.object_version ++ bytes32 p.max_bit_rate ++
    bytes32 p.avg_bit_rate ++ bytes32 p.max_packet_size ++ bytes32 p.avg_packet_size ++
    bytes32 p.num_packets ++ bytes32 p.duration ++ bytes32 p.preroll ++ bytes32 p.index_offset ++
    bytes32 p.data_offset ++ bytes16 p.num_streams ++ bytes16 p.flags

@[simp] theorem RmffProp.length_encode (p : RmffProp) : p.encode.length = 50 := by
  unfold encode
  simp only [List.length_append, length_bytes32, length_bytes16]

theorem rmffDumpProp_eq (p : RmffProp) :
    rmffDumpProp order p buffer start = (p, store buffer start p.encode) := by
  unfold rmffDumpProp RmffProp.encode
  simp only [field32_be32, field16_be16, be32_be32, be16_be16]
  rw [store_next, store_next, store_next, store_next]
  · simp only [List.append_assoc]
  all_goals
    simp only [List.length_append, length_bytes32, length_bytes16]
    omega

theorem rmffScanProp_eq {p : RmffProp} (h : Holds data ptr p.encode) : rmffScanProp data ptr = p := by
  unfold RmffProp.encode at h
  simp only [holds_append, List.length_append, length_bytes32, length_bytes16, Nat.reduceAdd,
    Nat.cast_ofNat] at h
  obtain ⟨⟨⟨⟨⟨⟨⟨⟨⟨⟨⟨⟨⟨h0, h4⟩, h8⟩, h10⟩, h14⟩, h18⟩, h22⟩, h26⟩, h30⟩, h34⟩, h38⟩, h42⟩, h46⟩,
    h48⟩ := h
  unfold rmffScanProp
  rw [be32At_of_holds h0, be32At_of_holds h4, be16At_of_holds h8, be32At_of_holds h10,
    be32At_of_holds h14, be32At_of_holds h18, be32At_of_holds h22, be32At_of_holds h26,
    be32At_of_holds h30, be32At_of_holds h34, be32At_of_holds h38, be32At_of_holds h42,
    be16At_of_holds h46, be16At_of_holds h48]

/-! ## The data header -/

def RmffData.encode (d : RmffData) : List Byte :=
  bytes32 d.object_id ++ bytes32 d.size ++ bytes16 d.object_version ++ bytes32 d.num_packets ++
    bytes32 d.next_data_header

@[simp] theorem RmffData.length_encode (d : RmffData) : d.encode.length = 18 := by
  unfold encode
  simp only [List.length_append, length_bytes32, length_bytes16]

theorem rmffDumpDataheader_eq (d : RmffData) :
    rmffDumpDataheader order d buffer start = (d, store buffer start d.encode) := by
  unfold rmffDumpDataheader RmffData.encode
  simp only [field32_be32, field16_be16, be32_be32, be16_be16]
  rw [store_next, store_next]
  · simp only [List.append_assoc]
  all_goals
    simp only [List.length_append, length_bytes32, length_bytes16]
    omega

theorem rmffScanDataheader_eq {d : RmffData} (h : Holds data ptr d.encode) :
    rmffScanDataheader data ptr = d := by
  unfold RmffData.encode at h
  simp only [holds_append, List.length_append, length_bytes32, length_bytes16, Nat.reduceAdd,
    Nat.cast_ofNat] at h
  obtain ⟨⟨⟨⟨h0, h4⟩, h8⟩, h10⟩, h14⟩ := h
  unfold rmffScanDataheader
  rw [be32At_of_holds h0, be32At_of_holds h4, be16At_of_holds h8, be32At_of_holds h10,
    be32At_of_holds h14]

/-! ## Content description -/

/-- A text with its length in front of it. -/
def encodeText (len : BitVec 16) (text : List Byte) : List Byte := bytes16 len ++ text

/-- The sizes are those of the contents. -/
structure RmffCont.Consistent (c : RmffCont) : Prop where
  object_id : c.object_id = CONT_TAG
  title_len : c.title.length = c.title_len.toNat
  author_len : c.author.length = c.author_len.toNat
  copyright_len : c.copyright.length = c.copyright_len.toNat
  comment_len : c.comment.length = c.comment_len.toNat
  size : c.size.toNat =
    18 + c.title_len.toNat + c.author_len.toNat + c.copyright_len.toNat + c.comment_len.toNat

def RmffCont.encode (c : RmffCont) : List Byte :=
  bytes32 c.object_id ++ bytes32 c.size ++ bytes16 c.object_version ++
    encodeText c.title_len c.title ++ encodeText c.author_len c.author ++
    encodeText c.copyright_len c.copyright ++ encodeText c.comment_len c.comment

theorem length_encodeText {len : BitVec 16} {text : List Byte} (h : text.length = len.toNat) :
    (encodeText len text).length = 2 + len.toNat := by
  rw [encodeText, List.length_append, length_bytes16, h]

theorem RmffCont.length_encode {c : RmffCont} (h : c.Consistent) : c.encode.length = c.size.toNat := by
  have hsize := h.size
  unfold encode
  rw [List.length_append, List.length_append, List.length_append, List.length_append,
    List.length_append, List.length_append, length_bytes32, length_bytes32, length_bytes16,
    length_encodeText h.title_len, length_encodeText h.author_len,
    length_encodeText h.copyright_len, length_encodeText h.comment_len]
  omega

theorem dumpText_eq {len : BitVec 16} {text : List Byte} (h : text.length = len.toNat) :
    dumpText order len text buffer start = (len, store buffer start (encodeText len text)) := by
  have hnext : start + 2 = start + (bytes16 len).length := by rw [length_bytes16, Nat.cast_ofNat]
  unfold dumpText
  dsimp only
  rw [be16_be16, field16_be16, ← h, List.take_length, store_next hnext, encodeText]

theorem scanText_eq {len : BitVec 16} {text : List Byte} (h : text.length = len.toNat)
    (hheld : Holds data ptr (encodeText len text)) : scanText data ptr = (len, text) := by
  rw [encodeText, holds_append, length_bytes16, Nat.cast_ofNat] at hheld
  obtain ⟨hlen, htext⟩ := hheld
  rw [Holds, h] at htext
  unfold scanText
  dsimp only
  rw [be16At_of_holds hlen, htext]

theorem rmffDumpCont_eq {c : RmffCont} (h : c.Consistent) :
    rmffDumpCont order c buffer start = (c, store buffer start c.encode) := by
  unfold rmffDumpCont RmffCont.encode
  simp only [field32_be32, field16_be16, be32_be32, be16_be16, dumpText_eq h.title_len,
    dumpText_eq h.author_len, dumpText_eq h.copyright_len, dumpText_eq h.comment_len]
  rw [store_next, store_next, store_next, store_next, store_next]
  · simp only [List.append_assoc]
  all_goals
    simp only [List.length_append, length_bytes32, length_bytes16, length_encodeText h.title_len,
      length_encodeText h.author_len, length_encodeText h.copyright_len]
    omega

theorem rmffScanCont_eq {c : RmffCont} (h : c.Consistent) (hheld : Holds data ptr c.encode) :
    rmffScanCont data ptr = c := by
  unfold RmffCont.encode at hheld
  simp only [holds_append, List.length_append, length_bytes32, length_bytes16,
    length_encodeText h.title_len, length_encodeText h.author_len,
    length_encodeText h.copyright_len, Nat.reduceAdd, Nat.cast_ofNat] at hheld
  obtain ⟨⟨⟨⟨⟨⟨h0, h4⟩, h8⟩, htitle⟩, hauthor⟩, hcopyright⟩, hcomment⟩ := hheld
  have hpos1 : c.title_len.toNat + 12 = 10 + (2 + c.title_len.toNat) := by omega
  have hpos2 : c.title_len.toNat + 12 + 2 + c.author_len.toNat =
      10 + (2 + c.title_len.toNat) + (2 + c.author_len.toNat) := by omega
  have hpos3 : c.title_len.toNat + 12 + 2 + c.author_len.toNat + 2 + c.copyright_len.toNat =
      10 + (2 + c.title_len.toNat) + (2 + c.author_len.toNat) + (2 + c.copyright_len.toNat) := by
    omega
  rw [← hpos1] at hauthor
  rw [← hpos2] at hcopyright
  rw [← hpos3] at hcomment
  unfold rmffScanCont
  rw [scanText_eq h.title_len htitle]
  dsimp only
  rw [scanText_eq h.author_len hauthor]
  dsimp only
  rw [scanText_eq h.copyright_len hcopyright]
  dsimp only
  rw [scanText_eq h.comment_len hcomment, be32At_of_holds h0, be32At_of_holds h4, be16At_of_holds h8]

/-! ## Media properties -/

/-- The sizes are those of the contents. -/
structure RmffMdpr.Consistent (m : RmffMdpr) : Prop where
  object_id : m.object_id = MDPR_TAG
  stream_name_size : m.stream_name.length = m.stream_name_size.toNat
  mime_type_size : m.mime_type.length = m.mime_type_size.toNat
  type_specific_len : m.type_specific_data.length = m.type_specific_len.toNat
  size : m.size.toNat =
    46 + m.stream_name_size.toNat + m.mime_type_size.toNat + m.type_specific_len.toNat

def RmffMdpr.encode (m : RmffMdpr) : List Byte :=
  bytes32 m.object_id ++ bytes32 m.size ++ bytes16 m.object_version ++ bytes16 m.stream_number ++
    bytes32 m.max_bit_rate ++ bytes32 m.avg_bit_rate ++ bytes32 m.max_packet_size ++
    bytes32 m.avg_packet_size ++ bytes32 m.start_time ++ bytes32 m.preroll ++ bytes32 m.duration ++
    [m.stream_name_size] ++ m.stream_name ++ [m.mime_type_size] ++ m.mime_type ++
    bytes32 m.type_specific_len ++ m.type_specific_data

theorem RmffMdpr.length_encode {m : RmffMdpr} (h : m.Consistent) : m.encode.length = m.size.toNat := by
  have hsize := h.size
  unfold encode
  simp only [List.length_append, length_bytes32, length_bytes16, List.length_singleton,
    h.stream_name_size, h.mime_type_size, h.type_specific_len]
  omega

/-- A media properties chunk behind its writer. -/
def RmffMdpr.swapped (order : ByteOrder) (m : RmffMdpr) : RmffMdpr :=
  { m with object_version := order.be16 m.object_version }

theorem rmffDumpMdpr_eq {m : RmffMdpr} (h : m.Consistent) (hlen : m.type_specific_len.toNat < 2^31) :
    rmffDumpMdpr order m buffer start = some (m.swapped order, store buffer start m.encode) := by
  have hint : m.type_specific_len.toInt = m.type_specific_len.toNat :=
    BitVec.toInt_eq_toNat_of_lt (by omega)
  have hpos : ¬(m.type_specific_len.toNat : ℤ) < 0 := by omega
  have hname : m.stream_name.take m.stream_name_size.toNat = m.stream_name := by
    rw [← h.stream_name_size, List.take_length]
  have hmime : m.mime_type.take m.mime_type_size.toNat = m.mime_type := by
    rw [← h.mime_type_size, List.take_length]
  have hdata : m.type_specific_data.take m.type_specific_len.toNat = m.type_specific_data := by
    rw [← h.type_specific_len, List.take_length]
  unfold rmffDumpMdpr RmffMdpr.encode RmffMdpr.swapped
  simp only [field32_be32, field16_be16, be32_be32, be16_be16, hint, Int.toNat_natCast, hname, hmime,
    hdata, if_neg hpos]
  rw [store_next, store_next, store_next, store_next, store_next, store_next, store_next, store_next,
    store_next]
  · simp only [List.append_assoc]
  all_goals
    simp only [List.length_append, length_bytes32, length_bytes16, List.length_singleton,
      h.stream_name_size, h.mime_type_size]
    omega

theorem rmffDumpMdpr_fault {m : RmffMdpr} (hlen : 2^31 ≤ m.type_specific_len.toNat) :
    rmffDumpMdpr order m buffer start = none := by
  have hneg : m.type_specific_len.toInt < 0 := by
    rw [BitVec.toInt_eq_toNat_cond]
    split_ifs <;> omega
  unfold rmffDumpMdpr
  simp only [be32_be32, if_pos hneg]

theorem rmffScanMdpr_eq {m : RmffMdpr} (h : m.Consistent) (hheld : Holds data ptr m.encode) :
    rmffScanMdpr data ptr = m := by
  unfold RmffMdpr.encode at hheld
  simp only [holds_append, List.length_append, length_bytes32, length_bytes16, List.length_singleton,
    h.stream_name_size, h.mime_type_size, Nat.reduceAdd, Nat.cast_ofNat] at hheld
  obtain ⟨⟨⟨⟨⟨⟨⟨⟨⟨⟨⟨⟨⟨⟨⟨⟨h0, h4⟩, h8⟩, h10⟩, h12⟩, h16⟩, h20⟩, h24⟩, h28⟩, h32⟩, h36⟩,
    hname_size⟩, hname⟩, hmime_size⟩, hmime⟩, hlen⟩, hdata⟩ := hheld
  have hpos1 : 41 + m.stream_name_size.toNat + 1 = 42 + m.stream_name_size.toNat := by omega
  have hpos2 : 41 + m.stream_name_size.toNat + 1 + m.mime_type_size.toNat =
      42 + m.stream_name_size.toNat + m.mime_type_size.toNat := by omega
  have hpos3 : 41 + m.stream_name_size.toNat + 1 + m.mime_type_size.toNat + 4 =
      46 + m.stream_name_size.toNat + m.mime_type_size.toNat := by omega
  rw [hpos1, Holds, h.mime_type_size] at hmime
  rw [hpos2] at hlen
  rw [hpos3, Holds, h.type_specific_len] at hdata
  rw [Holds, h.stream_name_size] at hname
  unfold rmffScanMdpr
  dsimp only
  rw [holds_singleton.1 hname_size, holds_singleton.1 hmime_size, be32At_of_holds hlen,
    be32At_of_holds h0, be32At_of_holds h4, be16At_of_holds h8, be16At_of_holds h10,
    be32At_of_holds h12, be32At_of_holds h16, be32At_of_holds h20, be32At_of_holds h24,
    be32At_of_holds h28, be32At_of_holds h32, be32At_of_holds h36, hname, hmime, hdata]

end Xine.Rmff

/-!
## RealMedia headers

`rmff_fix_header`, `rmff_get_header_size`, `rmff_dump_header` and `rmff_scan_header` of
`rmff.c` on a whole header, and the two functions for the header of a packet. `none`
stands for an access outside the memory of the header: a null pointer that is followed, a `memcpy` of a
negative length, a stream that is put behind the array of streams.

The number of packets that `rmff_fix_header` assumes in a header without one comes from a computation with
`double`s, and is a parameter. Messages are left out, and `max`, the size of the buffer, which
`rmff_dump_header` does not look at.
-/

namespace Xine.Rmff

open Octets Stores

structure RmffHeader where
  fileheader : Option RmffFileheader
  prop : Option RmffProp
  /-- The array of pointers, if there is one. -/
  streams : Option (List (Option RmffMdpr))
  cont : Option RmffCont
  data : Option RmffData
deriving DecidableEq

/-- The chunks in front of the null pointer. -/
def chunksOf : List (Option RmffMdpr) → List RmffMdpr
  | some mdpr :: streams => mdpr :: chunksOf streams
  | _ => []

/-- The chunks in an array of streams, if there is one. -/
def streamChunks (streams : Option (List (Option RmffMdpr))) : List RmffMdpr :=
  match streams with
  | some streams => chunksOf streams
  | none => []

/-- The media properties chunks of a header. -/
def RmffHeader.chunks (h : RmffHeader) : List RmffMdpr := streamChunks h.streams

/-! ## Fixing a header -/

/-- The file header that `rmff_fix_header` creates. -/
def createdFileheader (num_headers : BitVec 32) : RmffFileheader where
  object_id := RMF_TAG
  size := 34
  object_version := 0
  file_version := 0
  num_headers := num_headers + 1

/-- The data header that it creates. -/
def createdData : RmffData where
  object_id := DATA_TAG
  object_version := 0
  size := 34
  num_packets := 0
  next_data_header := 0

/-- What `rmff_fix_header` does to the properties. -/
def fixProp (assumed : RmffProp → BitVec 32) (num_streams : ℕ) (header_size : BitVec 32)
    (prop : RmffProp) : RmffProp :=
  let prop := { prop with size := 50, num_streams := BitVec.ofNat 16 num_streams }
  let prop := { prop with data_offset := header_size }
  if prop.num_packets = 0 then { prop with num_packets := assumed prop } else prop

/-- What it does to the data header behind them. -/
def fixData (prop : RmffProp) (data : RmffData) : RmffData :=
  let data := if data.num_packets = 0 then { data with num_packets := prop.num_packets } else data
  { data with size := prop.num_packets * prop.avg_packet_size }

/-- `rmff_fix_header`. A field that is already right is set to the same value again. -/
def rmffFixHeader (assumed : RmffProp → BitVec 32) (h : RmffHeader) : RmffHeader :=
  let num_streams := h.chunks.length
  let num_headers : BitVec 32 := BitVec.ofNat 32 num_streams
  let header_size : BitVec 32 := (h.chunks.map RmffMdpr.size).sum
  let (num_headers, header_size) := match h.prop with
    | some _ => (num_headers + 1, header_size + 50)
    | none => (num_headers, header_size)
  let (num_headers, header_size) := match h.cont with
    | some cont => (num_headers + 1, header_size + cont.size)
    | none => (num_headers, header_size)
  let data := h.data.getD createdData
  let num_headers := num_headers + 1
  let fileheader := h.fileheader.getD (createdFileheader num_headers)
  let header_size := header_size + fileheader.size
  let num_headers := num_headers + 1
  let fileheader := { fileheader with num_headers }
  match h.prop with
  | some prop =>
    let prop := fixProp assumed num_streams header_size prop
    { h with fileheader := some fileheader, prop := some prop, data := some (fixData prop data) }
  | none => { h with fileheader := some fileheader, data := some data }

def rmffGetHeaderSize : Option RmffHeader → ℤ
  | none => 0
  | some h =>
    match h.prop with
    | none => -1
    | some prop => (prop.data_offset + 18).toInt

/-! ## Writing a header -/

variable (order : ByteOrder)

/-- The loop over the streams in `rmff_dump_header`. -/
def dumpStreams : List (Option RmffMdpr) → BitVec 32 → Buffer →
    Option (List (Option RmffMdpr) × BitVec 32 × Buffer)
  | some mdpr :: streams, written, buffer => do
    let (mdpr, buffer) ← rmffDumpMdpr order mdpr buffer written.toInt
    let (streams, written, buffer) ← dumpStreams streams (written + mdpr.size) buffer
    return (some mdpr :: streams, written, buffer)
  | streams, written, buffer => some (streams, written, buffer)

/-- `if (stream)` around it. -/
def dumpStreamArray (streams : Option (List (Option RmffMdpr))) (written : BitVec 32) (buffer : Buffer) :
    Option (Option (List (Option RmffMdpr)) × BitVec 32 × Buffer) :=
  match streams with
  | some streams =>
    (dumpStreams order streams written buffer).map fun (streams, written, buffer) =>
      (some streams, written, buffer)
  | none => some (none, written, buffer)

/-- `rmff_dump_header`, with the header that it leaves. -/
def rmffDumpHeader (h : RmffHeader) (buffer : Buffer) : Option (ℤ × RmffHeader × Buffer) := do
  let fileheader ← h.fileheader
  let (fileheader, buffer) := rmffDumpFileheader order fileheader buffer 0
  let written := fileheader.size
  let prop ← h.prop
  let (prop, buffer) := rmffDumpProp order prop buffer written.toInt
  let written := written + prop.size
  let cont ← h.cont
  let (cont, buffer) := rmffDumpCont order cont buffer written.toInt
  let written := written + cont.size
  let (streams, written, buffer) ← dumpStreamArray order h.streams written buffer
  let (data, buffer) := match h.data with
    | some data =>
      let (data, buffer) := rmffDumpDataheader order data buffer written.toInt
      (some data, buffer)
    | none => (none, buffer)
  let written := written + 18
  return (written.toInt, ⟨some fileheader, some prop, streams, some cont, data⟩, buffer)

/-! ## Reading a header -/

/-- `header->streams[mdpr->stream_number]=mdpr`. -/
def RmffHeader.putStream (header : RmffHeader) (mdpr : RmffMdpr) : Option RmffHeader := do
  let streams ← header.streams
  if mdpr.stream_number.toNat < streams.length then
    return { header with streams := some (streams.set mdpr.stream_number.toNat (some mdpr)) }
  else
    none

/-- The `switch` of `rmff_scan_header`, with `chunk_size`. -/
def scanChunk (data : Buffer) (ptr : ℤ) (header : RmffHeader) : Option (ℤ × RmffHeader) :=
  let chunk_type := be32At data ptr
  if chunk_type = PROP_TAG then
    let prop := rmffScanProp data ptr
    some (prop.size.toInt, { header with prop := some prop })
  else if chunk_type = MDPR_TAG then
    let mdpr := rmffScanMdpr data ptr
    (header.putStream mdpr).map fun header => (mdpr.size.toInt, header)
  else if chunk_type = CONT_TAG then
    let cont := rmffScanCont data ptr
    some (cont.size.toInt, { header with cont := some cont })
  else if chunk_type = DATA_TAG then
    some (34, { header with data := some (rmffScanDataheader data ptr) })
  else
    some (1, header)

/-- The loop of `rmff_scan_header`, for some chunks. -/
def scanChunks (data : Buffer) : ℕ → ℤ → RmffHeader → Option RmffHeader
  | 0, _, header => some header
  | left + 1, ptr, header =>
    if data ptr = 0 then
      some header
    else do
      let (chunk_size, header) ← scanChunk data ptr header
      scanChunks data left (ptr + chunk_size) header

/-- `rmff_scan_header`, which returns no header without the tag of a file header. -/
def rmffScanHeader (data : Buffer) : Option (Option RmffHeader) :=
  if be32At data 0 ≠ RMF_TAG then
    some none
  else
    let fileheader := rmffScanFileheader data 0
    let num_headers := fileheader.num_headers.toNat
    let header : RmffHeader :=
      ⟨some fileheader, none, some (List.replicate num_headers none), none, none⟩
    (scanChunks data (num_headers - 1) fileheader.size.toNat header).map some

/-! ## Packet headers -/

structure RmffPheader where
  object_version : BitVec 16
  length : BitVec 16
  stream_number : BitVec 16
  timestamp : BitVec 32
  reserved : Byte
  flags : Byte

def rmffDumpPheader (h : RmffPheader) (data : Buffer) : Buffer :=
  store data 0
    [((h.object_version >>> 8) &&& 0xff).setWidth 8, (h.object_version &&& 0xff).setWidth 8,
      ((h.length >>> 8) &&& 0xff).setWidth 8, (h.length &&& 0xff).setWidth 8,
      ((h.stream_number >>> 8) &&& 0xff).setWidth 8, (h.stream_number &&& 0xff).setWidth 8,
      ((h.timestamp >>> 24) &&& 0xff).setWidth 8, ((h.timestamp >>> 16) &&& 0xff).setWidth 8,
      ((h.timestamp >>> 8) &&& 0xff).setWidth 8, (h.timestamp &&& 0xff).setWidth 8,
      h.reserved, h.flags]

def rmffScanPheader (data : Buffer) : RmffPheader where
  object_version := be16At data 0
  length := be16At data 2
  stream_number := be16At data 4
  timestamp := be32At data 6
  reserved := data 10
  flags := data 11

end Xine.Rmff

/-!
## Where a header goes in the buffer

`rmff_dump_header` is a run of stores, one for each chunk, at places that it counts with an `int`.
-/

namespace Xine.Rmff

open Octets Stores

variable {order : ByteOrder} {buffer : Buffer} {streams : List (Option RmffMdpr)} {ms : List RmffMdpr}
  {m : RmffMdpr} {d : RmffData} {w : BitVec 32}

/-! ## Counting -/

/-- The sizes of some chunks together, as an `int` counts them. -/
def sizes (ms : List RmffMdpr) : BitVec 32 := (ms.map RmffMdpr.size).sum

/-- How many bytes they are. -/
def lengths (ms : List RmffMdpr) : ℕ := (ms.map fun m => m.size.toNat).sum

@[simp] theorem sizes_nil : sizes [] = 0#32 := rfl

@[simp] theorem lengths_nil : lengths [] = 0 := rfl

@[simp] theorem sizes_cons : sizes (m :: ms) = m.size + sizes ms := by
  rw [sizes, List.map_cons, List.sum_cons, sizes]

@[simp] theorem lengths_cons : lengths (m :: ms) = m.size.toNat + lengths ms := by
  rw [lengths, List.map_cons, List.sum_cons, lengths]

theorem toNat_sizes (h : lengths ms < 2^32) : (sizes ms).toNat = lengths ms := by
  induction ms with
  | nil => rfl
  | cons m ms ih =>
    rw [lengths_cons] at h
    rw [sizes_cons, lengths_cons, BitVec.toNat_add, ih (by omega), Nat.mod_eq_of_lt (by omega)]

theorem size_le_lengths (hm : m ∈ ms) : m.size.toNat ≤ lengths ms :=
  List.single_le_sum (fun _ _ => Nat.zero_le _) _ (List.mem_map_of_mem hm)

theorem toInt_small {x : BitVec 32} (h : x.toNat < 2^31) : x.toInt = x.toNat :=
  BitVec.toInt_eq_toNat_of_lt (by omega)

/-! ## The stores -/

/-- The chunks in front of the null pointer behind their writer. -/
def swapStreams (order : ByteOrder) : List (Option RmffMdpr) → List (Option RmffMdpr)
  | some mdpr :: streams => some (mdpr.swapped order) :: swapStreams order streams
  | streams => streams

/-- Where the chunks are stored, from a count on. -/
def streamStores : List RmffMdpr → BitVec 32 → List (ℤ × List Byte)
  | [], _ => []
  | m :: ms, w => (w.toInt, m.encode) :: streamStores ms (w + m.size)

/-- With the data header behind them. -/
def tailStores (d : RmffData) (ms : List RmffMdpr) (w : BitVec 32) : List (ℤ × List Byte) :=
  streamStores ms w ++ [((w + sizes ms).toInt, d.encode)]

theorem tailStores_nil : tailStores d [] w = [(w.toInt, d.encode)] := by
  rw [tailStores, streamStores, sizes_nil, List.nil_append, BitVec.add_zero]

theorem tailStores_cons :
    tailStores d (m :: ms) w = (w.toInt, m.encode) :: tailStores d ms (w + m.size) := by
  rw [tailStores, streamStores, sizes_cons, List.cons_append, tailStores, BitVec.add_assoc]

theorem dumpStreams_eq (hconsistent : ∀ m ∈ chunksOf streams, m.Consistent)
    (hlen : ∀ m ∈ chunksOf streams, m.type_specific_len.toNat < 2^31) :
    dumpStreams order streams w buffer =
      some (swapStreams order streams, w + sizes (chunksOf streams),
        storeAll buffer (streamStores (chunksOf streams) w)) := by
  induction streams generalizing w buffer with
  | nil =>
    change some ([], w, buffer) = some ([], w + sizes [], buffer)
    rw [sizes_nil, BitVec.add_zero]
  | cons m? streams ih =>
    cases m? with
    | none =>
      change some (none :: streams, w, buffer) = some (none :: streams, w + sizes [], buffer)
      rw [sizes_nil, BitVec.add_zero]
    | some m =>
      rw [chunksOf, List.forall_mem_cons] at hconsistent hlen
      have hrest := fun buffer => @ih buffer (w + m.size) hconsistent.2 hlen.2
      have hsize : (m.swapped order).size = m.size := rfl
      rw [dumpStreams, rmffDumpMdpr_eq hconsistent.1 hlen.1]
      simp only [Option.bind_eq_bind, Option.bind_some, hsize, hrest]
      rw [chunksOf, swapStreams, streamStores, storeAll, sizes_cons, ← BitVec.add_assoc]
      rfl

theorem dumpStreams_fault (hconsistent : ∀ m ∈ chunksOf streams, m.Consistent)
    (hlen : ∃ m ∈ chunksOf streams, 2^31 ≤ m.type_specific_len.toNat) :
    dumpStreams order streams w buffer = none := by
  induction streams generalizing w buffer with
  | nil =>
    obtain ⟨m, hm, -⟩ := hlen
    exact absurd hm List.not_mem_nil
  | cons m? streams ih =>
    cases m? with
    | none =>
      obtain ⟨m, hm, -⟩ := hlen
      exact absurd hm List.not_mem_nil
    | some m =>
      rw [chunksOf, List.forall_mem_cons] at hconsistent
      rw [chunksOf, List.exists_mem_cons_iff] at hlen
      rw [dumpStreams]
      rcases Nat.lt_or_ge m.type_specific_len.toNat (2^31) with hsmall | hlarge
      · have hrest := hlen.resolve_left (Nat.not_le_of_lt hsmall)
        rw [rmffDumpMdpr_eq hconsistent.1 hsmall]
        simp only [Option.bind_eq_bind, Option.bind_some, ih hconsistent.2 hrest, Option.bind_none]
      · rw [rmffDumpMdpr_fault hlarge]
        rfl

/-! ## Without an overflow -/

theorem storeAll_tailStores (hconsistent : ∀ m ∈ ms, m.Consistent)
    (hfit : w.toNat + lengths ms < 2^31) :
    storeAll buffer (tailStores d ms w) =
      store buffer w.toNat (ms.flatMap RmffMdpr.encode ++ d.encode) := by
  induction ms generalizing w buffer with
  | nil =>
    rw [lengths_nil] at hfit
    rw [tailStores_nil, toInt_small (by omega)]
    rfl
  | cons m ms ih =>
    rw [List.forall_mem_cons] at hconsistent
    rw [lengths_cons] at hfit
    have hnext : (w + m.size).toNat = w.toNat + m.size.toNat := by
      rw [BitVec.toNat_add, Nat.mod_eq_of_lt (by omega)]
    have hplace : ((w + m.size).toNat : ℤ) = w.toNat + m.encode.length := by
      rw [hnext, RmffMdpr.length_encode hconsistent.1, Nat.cast_add]
    rw [tailStores_cons, storeAll, ih hconsistent.2 (by omega), toInt_small (by omega),
      store_next hplace, List.flatMap_cons, List.append_assoc]

theorem length_chunks (hconsistent : ∀ m ∈ ms, m.Consistent) :
    (ms.flatMap RmffMdpr.encode).length = lengths ms := by
  induction ms with
  | nil => rfl
  | cons m ms ih =>
    rw [List.forall_mem_cons] at hconsistent
    rw [List.flatMap_cons, List.length_append, RmffMdpr.length_encode hconsistent.1, ih hconsistent.2,
      lengths_cons]

instance byteNontrivial : Nontrivial Byte := ⟨0, 1, by decide⟩

theorem covers_tailStores (hconsistent : ∀ m ∈ ms, m.Consistent) (hfit : w.toNat + lengths ms < 2^31)
    (i : ℤ) : Covers (tailStores d ms w) i ↔
      (w.toNat : ℤ) ≤ i ∧ i < w.toNat + (lengths ms + 18 : ℕ) := by
  have hlength : (ms.flatMap RmffMdpr.encode ++ d.encode).length = lengths ms + 18 := by
    rw [List.length_append, length_chunks hconsistent, RmffData.length_encode]
  have hsets : Sets (fun mem : Buffer => storeAll mem (tailStores d ms w)) w.toNat
      (w.toNat + (lengths ms + 18 : ℕ)) := by
    simp only [storeAll_tailStores hconsistent hfit]
    rw [← hlength]
    exact sets_store
  exact sets_storeAll_iff.1 hsets i

/-! ## With an overflow -/

theorem covers_place (hconsistent : ∀ m ∈ ms, m.Consistent) : Covers (tailStores d ms w) w.toInt := by
  cases ms with
  | nil =>
    rw [tailStores_nil, covers_cons, RmffData.length_encode]
    exact .inl (by omega)
  | cons m ms =>
    have hm := hconsistent m List.mem_cons_self
    have hsize := hm.size
    rw [tailStores_cons, covers_cons, RmffMdpr.length_encode hm]
    exact .inl (by omega)

theorem tailStores_overflow (hconsistent : ∀ m ∈ ms, m.Consistent) (hw : w.toNat < 2^31)
    (hover : 2^31 ≤ w.toNat + lengths ms + 18) :
    ∃ i, Covers (tailStores d ms w) i ∧ ¬(0 ≤ i ∧ i < (w + sizes ms + 18).toInt) := by
  induction ms generalizing w with
  | nil =>
    -- the data header still fits, and its end does not
    refine ⟨w.toInt, covers_place hconsistent, ?_⟩
    rw [lengths_nil] at hover
    have heighteen : (18 : BitVec 32).toNat = 18 := rfl
    rw [sizes_nil, BitVec.add_zero, toInt_small hw, BitVec.toInt_eq_toNat_cond, BitVec.toNat_add,
      heighteen]
    split_ifs <;> omega
  | cons m ms ih =>
    rw [List.forall_mem_cons] at hconsistent
    rw [lengths_cons] at hover
    have hm := hconsistent.1
    have hsize := m.size.isLt
    have hend : (w + sizes (m :: ms) + 18).toInt < 2^31 := BitVec.toInt_lt
    rcases Nat.lt_trichotomy (w.toNat + m.size.toNat) (2^31) with hlt | heq | hgt
    · have hnext : (w + m.size).toNat = w.toNat + m.size.toNat := by
        rw [BitVec.toNat_add, Nat.mod_eq_of_lt (by omega)]
      obtain ⟨i, hcovers, hout⟩ := ih hconsistent.2 (w := w + m.size) (by omega) (by omega)
      refine ⟨i, ?_, ?_⟩
      · rw [tailStores_cons, covers_cons]
        exact .inr hcovers
      · rw [sizes_cons, ← BitVec.add_assoc]
        exact hout
    · -- the next store is in front of the buffer
      have hnext : (w + m.size).toNat = 2^31 := by
        rw [BitVec.toNat_add, Nat.mod_eq_of_lt (by omega), heq]
      refine ⟨(w + m.size).toInt, ?_, ?_⟩
      · rw [tailStores_cons, covers_cons]
        exact .inr (covers_place hconsistent.2)
      · rw [BitVec.toInt_eq_toNat_cond, hnext]
        split_ifs <;> omega
    · -- the chunk itself goes beyond the largest `int`
      refine ⟨2^31, ?_, by omega⟩
      rw [tailStores_cons, covers_cons, RmffMdpr.length_encode hm, toInt_small hw]
      exact .inl (by omega)

end Xine.Rmff
