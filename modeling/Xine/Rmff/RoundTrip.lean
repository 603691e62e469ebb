import Xine.Rmff.Layout

/-!
# Writing a header and reading it back

`FixedHeader` is a header as `rmff_fix_header` leaves it. `rmff_dump_header` is a run of stores on it
(`rmffDumpHeader_eq`), and what it writes is read back by `rmff_scan_header`, chunk by chunk
(`rmffScanHeader_eq`), as long as the header fits and its file header has the size that it claims.
-/

namespace Xine.Rmff

open Octets Stores

variable {order : ByteOrder} {buffer data : Buffer}

/-! ## Reading chunks -/

section reading

variable {ptr : ℤ} {header : RmffHeader} {left : ℕ}

theorem be32At_lt (h : data ptr = 0) : (be32At data ptr).toNat < 2^24 := by
  have hload : load data ptr 4 =
      [data ptr, data (ptr + 1), data (ptr + 1 + 1), data (ptr + 1 + 1 + 1)] := rfl
  have hbig : ofBig (load data ptr 4) = (data (ptr + 1 + 1 + 1)).toNat + 2^8 *
      ((data (ptr + 1 + 1)).toNat + 2^8 *
        ((data (ptr + 1)).toNat + 2^8 * ((data ptr).toNat + 2^8 * 0))) := by
    rw [hload]
    rfl
  have h1 := (data (ptr + 1)).isLt
  have h2 := (data (ptr + 1 + 1)).isLt
  have h3 := (data (ptr + 1 + 1 + 1)).isLt
  have hzero : (0 : Byte).toNat = 0 := rfl
  rw [be32At, BitVec.toNat_ofNat, hbig, h, hzero]
  omega

theorem scanChunks_succ {tag : BitVec 32} {chunk_size : ℤ} {header' : RmffHeader}
    (htag : be32At data ptr = tag) (hlarge : 2^24 ≤ tag.toNat)
    (h : scanChunk data ptr header = some (chunk_size, header')) :
    scanChunks data (left + 1) ptr header = scanChunks data left (ptr + chunk_size) header' := by
  have hne : data ptr ≠ 0 := by
    intro hzero
    have hlt := be32At_lt hzero
    rw [htag] at hlt
    omega
  rw [scanChunks, if_neg hne, h]
  rfl

theorem scanChunks_prop {p : RmffProp} (htag : p.object_id = PROP_TAG) (h : Holds data ptr p.encode) :
    scanChunks data (left + 1) ptr header =
      scanChunks data left (ptr + p.size.toInt) { header with prop := some p } := by
  have hscan := rmffScanProp_eq h
  have hid : be32At data ptr = PROP_TAG := (congrArg RmffProp.object_id hscan).trans htag
  refine scanChunks_succ hid (by decide) ?_
  unfold scanChunk
  rw [if_pos hid, hscan]

theorem scanChunks_cont {c : RmffCont} (hc : c.Consistent) (h : Holds data ptr c.encode) :
    scanChunks data (left + 1) ptr header =
      scanChunks data left (ptr + c.size.toInt) { header with cont := some c } := by
  have hscan := rmffScanCont_eq hc h
  have hid : be32At data ptr = CONT_TAG := (congrArg RmffCont.object_id hscan).trans hc.object_id
  refine scanChunks_succ hid (by decide) ?_
  unfold scanChunk
  rw [hid, if_neg (by decide), if_neg (by decide), if_pos rfl, hscan]

theorem scanChunks_data {d : RmffData} (htag : d.object_id = DATA_TAG) (h : Holds data ptr d.encode) :
    scanChunks data (left + 1) ptr header =
      scanChunks data left (ptr + 34) { header with data := some d } := by
  have hscan := rmffScanDataheader_eq h
  have hid : be32At data ptr = DATA_TAG := (congrArg RmffData.object_id hscan).trans htag
  refine scanChunks_succ hid (by decide) ?_
  unfold scanChunk
  rw [hid, if_neg (by decide), if_neg (by decide), if_neg (by decide), if_pos rfl, hscan]

theorem scanChunks_mdpr {m : RmffMdpr} {header' : RmffHeader} (hm : m.Consistent)
    (h : Holds data ptr m.encode) (hput : header.putStream m = some header') :
    scanChunks data (left + 1) ptr header = scanChunks data left (ptr + m.size.toInt) header' := by
  have hscan := rmffScanMdpr_eq hm h
  have hid : be32At data ptr = MDPR_TAG := (congrArg RmffMdpr.object_id hscan).trans hm.object_id
  refine scanChunks_succ hid (by decide) ?_
  unfold scanChunk
  rw [hid, if_neg (by decide), if_pos rfl, hscan]
  dsimp only
  rw [hput]
  rfl

/-- The array of streams with some chunks at its start, and room for others behind them. -/
def streamArray (ms : List RmffMdpr) (room : ℕ) : Option (List (Option RmffMdpr)) :=
  some (ms.map some ++ List.replicate room none)

theorem putStream_next {ms : List RmffMdpr} {m : RmffMdpr} {room : ℕ}
    (hstreams : header.streams = streamArray ms (room + 1))
    (hnumber : m.stream_number.toNat = ms.length) :
    header.putStream m = some { header with streams := streamArray (ms ++ [m]) room } := by
  have hlength : (ms.map some).length = ms.length := List.length_map _
  have hset : (ms.map some ++ List.replicate (room + 1) none).set ms.length (some m) =
      (ms ++ [m]).map some ++ List.replicate room none := by
    rw [List.set_append_right _ _ (by rw [hlength]), hlength, Nat.sub_self, List.replicate_succ,
      List.set_cons_zero, List.map_append, List.append_assoc]
    rfl
  unfold RmffHeader.putStream
  rw [hstreams, hnumber]
  unfold streamArray
  simp only [Option.bind_eq_bind, Option.bind_some]
  rw [if_pos (by simp), hset]
  rfl

theorem scanChunks_streams {done ms : List RmffMdpr} {room : ℕ}
    (hstreams : header.streams = streamArray done (ms.length + room))
    (hconsistent : ∀ m ∈ ms, m.Consistent)
    (hnumbers : ∀ i m, ms[i]? = some m → m.stream_number.toNat = done.length + i)
    (hfit : lengths ms < 2^31) (h : Holds data ptr (ms.flatMap RmffMdpr.encode)) :
    scanChunks data (ms.length + left) ptr header =
      scanChunks data left (ptr + lengths ms)
        { header with streams := streamArray (done ++ ms) room } := by
  -- the chunks that are done go into the array, so it is generalized with the place in the buffer
  induction ms generalizing done ptr header with
  | nil =>
    have hsame : { header with streams := streamArray (done ++ []) room } = header := by
      rw [List.length_nil, Nat.zero_add] at hstreams
      rw [List.append_nil, ← hstreams]
    rw [hsame, List.length_nil, Nat.zero_add, lengths_nil, Int.natCast_zero, Int.add_zero]
  | cons m ms ih =>
    rw [List.forall_mem_cons] at hconsistent
    rw [lengths_cons] at hfit
    rw [List.flatMap_cons, holds_append, RmffMdpr.length_encode hconsistent.1] at h
    have hroom : (m :: ms).length + room = ms.length + room + 1 := by
      rw [List.length_cons]
      omega
    have hleft : (m :: ms).length + left = ms.length + left + 1 := by
      rw [List.length_cons]
      omega
    rw [hroom] at hstreams
    have hput := putStream_next hstreams (hnumbers 0 m rfl)
    have hrest : ∀ i m', ms[i]? = some m' → m'.stream_number.toNat = (done ++ [m]).length + i := by
      intro i m' hi
      rw [List.length_append, List.length_singleton, hnumbers (i + 1) m' hi]
      omega
    have hsize : m.size.toInt = m.size.toNat := toInt_small (by omega)
    rw [hleft, scanChunks_mdpr hconsistent.1 h.1 hput, hsize,
      ih rfl hconsistent.2 hrest (by omega) h.2, lengths_cons, Nat.cast_add, Int.add_assoc,
      List.append_assoc]
    rfl

end reading

/-! ## Headers -/

/-- A header as `rmff_fix_header` leaves it. -/
structure FixedHeader where
  fileheader : RmffFileheader
  prop : RmffProp
  streams : Option (List (Option RmffMdpr))
  cont : RmffCont
  data : RmffData
  fileheader_id : fileheader.object_id = RMF_TAG
  fileheader_size : fileheader.size = 18 ∨ fileheader.size = 34
  num_headers : fileheader.num_headers.toNat = (streamChunks streams).length + 4
  prop_id : prop.object_id = PROP_TAG
  prop_size : prop.size = 50
  data_offset : prop.data_offset = sizes (streamChunks streams) + 50 + cont.size + fileheader.size
  cont_consistent : cont.Consistent
  chunks_consistent : ∀ m ∈ streamChunks streams, m.Consistent
  stream_numbers : ∀ i (m : RmffMdpr), (streamChunks streams)[i]? = some m → m.stream_number.toNat = i
  data_id : data.object_id = DATA_TAG

namespace FixedHeader

variable (F : FixedHeader)

/-- The header itself. -/
def header : RmffHeader := ⟨some F.fileheader, some F.prop, F.streams, some F.cont, some F.data⟩

/-- Its media properties chunks. -/
def chunks : List RmffMdpr := streamChunks F.streams

theorem consistent_of_mem : ∀ m ∈ F.chunks, m.Consistent := F.chunks_consistent

/-- How many bytes the chunks are. -/
def length : ℕ := F.fileheader.size.toNat + 50 + F.cont.size.toNat + lengths F.chunks + 18

/-- The count behind the content description. -/
def count : BitVec 32 := F.fileheader.size + 50 + F.cont.size

theorem fileheader_toNat : F.fileheader.size.toNat = 18 ∨ F.fileheader.size.toNat = 34 := by
  rcases F.fileheader_size with h | h
  · rw [h]
    exact .inl rfl
  · rw [h]
    exact .inr rfl

theorem toNat_eighteen (h : F.fileheader.size = 18) : F.fileheader.size.toNat = 18 := by
  rw [h]
  rfl

theorem cont_toNat : 18 ≤ F.cont.size.toNat ∧ F.cont.size.toNat < 2^19 := by
  have hsize := F.cont_consistent.size
  have htitle := F.cont.title_len.isLt
  have hauthor := F.cont.author_len.isLt
  have hcopyright := F.cont.copyright_len.isLt
  have hcomment := F.cont.comment_len.isLt
  omega

theorem toNat_front : (F.fileheader.size + 50).toNat = F.fileheader.size.toNat + 50 := by
  have hfifty : (50 : BitVec 32).toNat = 50 := rfl
  have hfile := F.fileheader_toNat
  rw [BitVec.toNat_add, hfifty, Nat.mod_eq_of_lt (by omega)]

theorem toNat_count : F.count.toNat = F.fileheader.size.toNat + 50 + F.cont.size.toNat := by
  have hfile := F.fileheader_toNat
  have hcont := F.cont_toNat
  rw [count, BitVec.toNat_add, toNat_front, Nat.mod_eq_of_lt (by omega)]

/-- Where `rmff_dump_header` stores the chunks. -/
def stores : List (ℤ × List Byte) :=
  (0, F.fileheader.encode) :: ((F.fileheader.size.toNat : ℤ), F.prop.encode) ::
    ((F.fileheader.size.toNat + 50 : ℤ), F.cont.encode) :: tailStores F.data F.chunks F.count

theorem rmffGetHeaderSize_eq :
    rmffGetHeaderSize (some F.header) = (F.count + sizes F.chunks + 18).toInt := by
  have hsum : F.prop.data_offset = F.count + sizes F.chunks := by
    rw [F.data_offset, count, chunks]
    ac_rfl
  rw [← hsum]
  rfl

/-- The header behind `rmff_dump_header`. -/
def swapped (order : ByteOrder) : RmffHeader :=
  { F.header with streams := F.streams.map (swapStreams order) }

theorem dumpStreamArray_eq {w : BitVec 32}
    (hlen : ∀ m ∈ F.chunks, m.type_specific_len.toNat < 2^31) :
    dumpStreamArray order F.streams w buffer =
      some (F.streams.map (swapStreams order), w + sizes F.chunks,
        storeAll buffer (streamStores F.chunks w)) := by
  have hconsistent := F.chunks_consistent
  unfold chunks at hlen ⊢
  cases hstreams : F.streams with
  | none =>
    change some (none, w, buffer) = some (none, w + sizes [], buffer)
    rw [sizes_nil, BitVec.add_zero]
  | some streams =>
    rw [hstreams] at hconsistent hlen
    rw [dumpStreamArray, dumpStreams_eq hconsistent hlen]
    rfl

theorem rmffDumpHeader_eq (hlen : ∀ m ∈ F.chunks, m.type_specific_len.toNat < 2^31) :
    rmffDumpHeader order F.header buffer =
      some (rmffGetHeaderSize (some F.header), F.swapped order, storeAll buffer F.stores) := by
  have hfile := F.fileheader_toNat
  have hfront : F.fileheader.size.toInt = F.fileheader.size.toNat := toInt_small (by omega)
  have hfront' : (F.fileheader.size + 50).toInt = F.fileheader.size.toNat + 50 := by
    rw [toInt_small (by rw [toNat_front]; omega), toNat_front, Nat.cast_add, Nat.cast_ofNat]
  rw [rmffGetHeaderSize_eq]
  unfold rmffDumpHeader header
  simp only [Option.bind_eq_bind, Option.bind_some, rmffDumpFileheader_eq, rmffDumpProp_eq,
    rmffDumpCont_eq F.cont_consistent, F.prop_size, hfront, hfront', F.dumpStreamArray_eq hlen,
    rmffDumpDataheader_eq]
  rw [stores, storeAll, storeAll, storeAll, tailStores, storeAll_append]
  rfl

theorem rmffDumpHeader_fault (hlen : ∃ m ∈ F.chunks, 2^31 ≤ m.type_specific_len.toNat) :
    rmffDumpHeader order F.header buffer = none := by
  have hconsistent := F.chunks_consistent
  have hnone : ∀ w buffer, dumpStreamArray order F.streams w buffer = none := by
    intro w buffer
    unfold chunks at hlen
    cases hstreams : F.streams with
    | none =>
      rw [hstreams] at hlen
      obtain ⟨m, hm, -⟩ := hlen
      exact absurd hm List.not_mem_nil
    | some streams =>
      rw [hstreams] at hlen hconsistent
      rw [dumpStreamArray, dumpStreams_fault hconsistent hlen]
      rfl
  unfold rmffDumpHeader header
  simp only [Option.bind_eq_bind, Option.bind_some, hnone, Option.bind_none]

/-- The bytes of the chunks. -/
def encode : List Byte :=
  F.fileheader.encode ++ F.prop.encode ++ F.cont.encode ++
    (F.chunks.flatMap RmffMdpr.encode ++ F.data.encode)

variable {F}

theorem len_of_length (hfit : F.length < 2^31) {m : RmffMdpr} (hm : m ∈ F.chunks) :
    m.size.toNat < 2^31 ∧ m.type_specific_len.toNat < 2^31 := by
  have hle := size_le_lengths hm
  have hsize := (F.consistent_of_mem m hm).size
  unfold length at hfit
  omega

theorem length_encode (h : F.fileheader.size = 18) : F.encode.length = F.length := by
  have hsize := F.toNat_eighteen h
  unfold encode length
  rw [List.length_append, List.length_append, List.length_append, List.length_append,
    RmffFileheader.length_encode, RmffProp.length_encode, RmffCont.length_encode F.cont_consistent,
    length_chunks F.consistent_of_mem, RmffData.length_encode, hsize, ← Nat.add_assoc]

theorem size_of_length (hfit : F.length < 2^31) : rmffGetHeaderSize (some F.header) = F.length := by
  have hcount := F.toNat_count
  have heighteen : (18 : BitVec 32).toNat = 18 := rfl
  unfold length at hfit ⊢
  have hsum : (F.count + sizes F.chunks + 18).toNat =
      F.fileheader.size.toNat + 50 + F.cont.size.toNat + lengths F.chunks + 18 := by
    rw [BitVec.toNat_add, BitVec.toNat_add, toNat_sizes (by omega), hcount, heighteen,
      Nat.mod_eq_of_lt (by omega), Nat.mod_eq_of_lt (by omega)]
  rw [rmffGetHeaderSize_eq, toInt_small (by rw [hsum]; exact hfit), hsum]

theorem storeAll_stores (h : F.fileheader.size = 18) (hfit : F.length < 2^31) :
    storeAll buffer F.stores = store buffer 0 F.encode := by
  have hsize := F.toNat_eighteen h
  have hcount := F.toNat_count
  unfold length at hfit
  rw [hsize] at hcount hfit
  have hplace1 : ((18 : ℕ) : ℤ) = 0 + F.fileheader.encode.length := by
    rw [RmffFileheader.length_encode, Int.zero_add]
  have hplace2 : ((18 : ℕ) + 50 : ℤ) = 0 + (F.fileheader.encode ++ F.prop.encode).length := by
    rw [List.length_append, RmffFileheader.length_encode, RmffProp.length_encode]
    rfl
  have hplace3 : (F.count.toNat : ℤ) =
      0 + (F.fileheader.encode ++ F.prop.encode ++ F.cont.encode).length := by
    rw [hcount, List.length_append, List.length_append, RmffFileheader.length_encode,
      RmffProp.length_encode, RmffCont.length_encode F.cont_consistent, Int.zero_add]
  rw [stores, storeAll, storeAll, storeAll, storeAll_tailStores F.consistent_of_mem (by omega), hsize,
    store_next hplace1, store_next hplace2, store_next hplace3, encode]

theorem rmffScanHeader_eq (h : F.fileheader.size = 18) (hfit : F.length < 2^31)
    (hheld : Holds buffer 0 F.encode) :
    rmffScanHeader buffer = some (some { F.header with streams := streamArray F.chunks 4 }) := by
  have hsize := F.toNat_eighteen h
  have hcont := F.cont_toNat
  have hfifty : F.prop.size.toInt = 50 := by
    rw [F.prop_size]
    rfl
  have hcont_int : F.cont.size.toInt = F.cont.size.toNat := toInt_small (by omega)
  have hlengths : lengths F.chunks < 2^31 := by
    unfold length at hfit
    omega
  unfold encode at hheld
  simp only [holds_append, List.length_append, RmffFileheader.length_encode, RmffProp.length_encode,
    RmffCont.length_encode F.cont_consistent, length_chunks F.consistent_of_mem] at hheld
  obtain ⟨⟨⟨hfile, hprop⟩, hcont_held⟩, hchunks, hdata⟩ := hheld
  have hscan := rmffScanFileheader_eq hfile
  have hid : be32At buffer 0 = RMF_TAG :=
    (congrArg RmffFileheader.object_id hscan).trans F.fileheader_id
  -- all chunks but the file header are counted: properties, content description, streams, data
  have hrounds : F.fileheader.num_headers.toNat - 1 = F.chunks.length + 1 + 1 + 1 := by
    have hnum := F.num_headers
    unfold chunks
    omega
  -- the array has room for four more streams
  have hstreams : some (List.replicate F.fileheader.num_headers.toNat none) =
      streamArray [] (F.chunks.length + 4) := by
    rw [F.num_headers]
    rfl
  have hnumbers : ∀ i (m : RmffMdpr), F.chunks[i]? = some m →
      m.stream_number.toNat = ([] : List RmffMdpr).length + i := by
    intro i m hm
    rw [List.length_nil, Nat.zero_add]
    exact F.stream_numbers i m hm
  unfold rmffScanHeader
  rw [if_neg (not_not.2 hid), hscan]
  dsimp only
  rw [hrounds, hsize, hstreams, scanChunks_prop F.prop_id (by simpa using hprop), hfifty,
    scanChunks_cont F.cont_consistent (by simpa using hcont_held), hcont_int,
    scanChunks_streams rfl F.consistent_of_mem hnumbers hlengths
      (by simpa [Int.add_assoc] using hchunks),
    scanChunks_data F.data_id (by simpa [Int.add_assoc] using hdata)]
  rfl

end FixedHeader

end Xine.Rmff
