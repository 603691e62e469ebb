import Xine.Rmff.RoundTrip

/-!
# Which headers survive

A header `RoundTrips` if `rmff_dump_header` stores exactly the bytes that `rmff_get_header_size` counts, leaves
the header as it was, and `rmff_scan_header` reads the same header back.
-/

namespace Xine.Rmff

open Octets Stores

variable {order : ByteOrder}

/-! ## Versions -/

theorem be16_eq_self (x : BitVec 16) :
    order.be16 x = x ↔ order = .big ∨ x.toNat / 2^8 = x.toNat % 2^8 := by
  cases order with
  | big =>
    refine iff_of_true ?_ (.inl rfl)
    exact ofBig_bytes16 x
  | little =>
    have hx : x.toNat < 2^16 := x.isLt
    have hbig : ofBig (ByteOrder.little.field16 x) = x.toNat / 2^8 + 2^8 * (x.toNat % 2^8) := by
      change (BitVec.ofNat 8 (x.toNat / 2^8)).toNat + 2^8 * ((BitVec.ofNat 8 x.toNat).toNat + 2^8 * 0) = _
      rw [BitVec.toNat_ofNat, BitVec.toNat_ofNat]
      omega
    rw [ByteOrder.be16, hbig, ← BitVec.toNat_inj, BitVec.toNat_ofNat]
    constructor
    · intro h
      exact .inr (by omega)
    · rintro (h | h)
      · exact absurd h (by decide)
      · omega

theorem swapStreams_eq_self {streams : List (Option RmffMdpr)} : swapStreams order streams = streams ↔
    ∀ m ∈ chunksOf streams, order.be16 m.object_version = m.object_version := by
  induction streams with
  | nil => exact iff_of_true rfl fun m hm => absurd hm List.not_mem_nil
  | cons m? streams ih =>
    cases m? with
    | none => exact iff_of_true rfl fun m hm => absurd hm List.not_mem_nil
    | some m =>
      have hm : m.swapped order = m ↔ order.be16 m.object_version = m.object_version := by
        constructor
        · exact fun h => congrArg RmffMdpr.object_version h
        · intro h
          rw [RmffMdpr.swapped, h]
      rw [swapStreams, chunksOf, List.forall_mem_cons, List.cons.injEq, Option.some.injEq, hm, ih]

/-! ## Round trips -/

/-- Two headers have the same parts. Behind the chunks, their arrays of streams may differ. -/
def RmffHeader.Same (h h' : RmffHeader) : Prop :=
  h.fileheader = h'.fileheader ∧ h.prop = h'.prop ∧ h.chunks = h'.chunks ∧ h.cont = h'.cont ∧
    h.data = h'.data

/-- `rmff_dump_header` stores as many bytes as `rmff_get_header_size` says and leaves the header as it
was, and `rmff_scan_header` gets the same header from these bytes. -/
def RoundTrips (order : ByteOrder) (h : RmffHeader) : Prop :=
  ∃ dumped : Buffer → Buffer,
    (∀ buffer, rmffDumpHeader order h buffer = some (rmffGetHeaderSize (some h), h, dumped buffer)) ∧
    Sets dumped 0 (rmffGetHeaderSize (some h)) ∧
    ∀ buffer, ∃ h', rmffScanHeader (dumped buffer) = some (some h') ∧ h'.Same h

namespace FixedHeader

variable (F : FixedHeader)

theorem swapped_eq_self : F.swapped order = F.header ↔
    ∀ m ∈ F.chunks, order.be16 m.object_version = m.object_version := by
  have hstreams : F.swapped order = F.header ↔ F.streams.map (swapStreams order) = F.streams := by
    constructor
    · exact fun h => congrArg RmffHeader.streams h
    · intro h
      rw [swapped, h]
      rfl
  rw [hstreams, chunks]
  cases F.streams with
  | none => exact iff_of_true rfl fun m hm => absurd hm List.not_mem_nil
  | some streams =>
    rw [Option.map_some, Option.some.injEq, swapStreams_eq_self]
    rfl

theorem chunks_streamArray {ms : List RmffMdpr} {room : ℕ} :
    streamChunks (streamArray ms room) = ms := by
  unfold streamChunks streamArray
  induction ms with
  | nil =>
    cases room with
    | zero => rfl
    | succ room => rfl
  | cons m ms ih => exact congrArg (m :: ·) ih

theorem length_of_sets (hsets : Sets (fun buffer : Buffer => storeAll buffer F.stores) 0
      (rmffGetHeaderSize (some F.header))) :
    F.length < 2^31 := by
  by_contra hover
  have hcount := F.toNat_count
  have hfile := F.fileheader_toNat
  have hcont := F.cont_toNat
  unfold length at hover
  obtain ⟨i, hcovers, hout⟩ := @tailStores_overflow F.chunks F.data F.count F.consistent_of_mem
    (by omega) (by omega)
  have hstored : Covers F.stores i := by
    rw [stores, covers_cons, covers_cons, covers_cons]
    exact .inr (.inr (.inr hcovers))
  rw [← rmffGetHeaderSize_eq] at hout
  exact hout ((sets_storeAll_iff.1 hsets i).1 hstored)

theorem size_of_sets (hfit : F.length < 2^31)
    (hsets : Sets (fun buffer : Buffer => storeAll buffer F.stores) 0
      (rmffGetHeaderSize (some F.header))) :
    F.fileheader.size = 18 := by
  refine F.fileheader_size.resolve_right fun h => ?_
  have hsize : F.fileheader.size.toNat = 34 := by
    rw [h]
    rfl
  have hcount := F.toNat_count
  -- nothing is stored behind the 18 bytes of the file header
  have hstored := (sets_storeAll_iff.1 hsets 18).2
  rw [size_of_length hfit] at hstored
  unfold length at hfit hstored
  rw [stores, covers_cons, covers_cons, covers_cons, covers_tailStores F.consistent_of_mem (by omega),
    RmffFileheader.length_encode] at hstored
  have hcases := hstored (by omega)
  omega

theorem roundTrips_iff : RoundTrips order F.header ↔ F.fileheader.size = 18 ∧
    (∀ m ∈ F.chunks, order.be16 m.object_version = m.object_version) ∧ F.length < 2^31 := by
  constructor
  · rintro ⟨dumped, hdump, hsets, -⟩
    have hlen : ∀ m ∈ F.chunks, m.type_specific_len.toNat < 2^31 := by
      by_contra hlarge
      push Not at hlarge
      have hnone : rmffDumpHeader order F.header (fun _ => 0) = none := F.rmffDumpHeader_fault hlarge
      rw [hdump] at hnone
      exact Option.some_ne_none _ hnone
    simp only [F.rmffDumpHeader_eq hlen, Option.some.injEq, Prod.mk.injEq, true_and] at hdump
    have hdumped : dumped = fun buffer => storeAll buffer F.stores :=
      funext fun buffer => (hdump buffer).2.symm
    rw [hdumped] at hsets
    have hfit := F.length_of_sets hsets
    exact ⟨F.size_of_sets hfit hsets, F.swapped_eq_self.1 (hdump fun _ => 0).1, hfit⟩
  · rintro ⟨hsize, hversions, hfit⟩
    have hlen : ∀ m ∈ F.chunks, m.type_specific_len.toNat < 2^31 :=
      fun m hm => (len_of_length hfit hm).2
    refine ⟨fun buffer => store buffer 0 F.encode, fun buffer => ?_, ?_, fun buffer => ?_⟩
    · rw [F.rmffDumpHeader_eq hlen, F.swapped_eq_self.2 hversions, storeAll_stores hsize hfit]
    · have hend : rmffGetHeaderSize (some F.header) = 0 + F.encode.length := by
        rw [size_of_length hfit, length_encode hsize, Int.zero_add]
      rw [hend]
      exact sets_store
    · refine ⟨_, rmffScanHeader_eq hsize hfit holds_store, rfl, rfl, ?_, rfl, rfl⟩
      exact chunks_streamArray

end FixedHeader

/-! ## Fixed headers -/

/-- A header with the parts that it needs, whose sizes are those of their contents and whose media
properties chunks are numbered from 0. -/
structure RmffHeader.Consistent (h : RmffHeader) : Prop where
  fileheader : ∀ f, h.fileheader = some f → f.object_id = RMF_TAG ∧ f.size = 18
  prop : ∃ p, h.prop = some p ∧ p.object_id = PROP_TAG
  cont : ∃ c, h.cont = some c ∧ c.Consistent
  chunks : ∀ i (m : RmffMdpr), h.chunks[i]? = some m → m.Consistent ∧ m.stream_number.toNat = i
  data : ∀ d, h.data = some d → d.object_id = DATA_TAG

/-- How many bytes it has with a file header and a data header. -/
def RmffHeader.length (h : RmffHeader) : ℕ :=
  18 + 50 + (match h.cont with | some c => c.size.toNat | none => 0) + lengths h.chunks + 18

theorem RmffHeader.Consistent.length_chunks {h : RmffHeader} (hc : h.Consistent) :
    h.chunks.length ≤ 2^16 := by
  by_contra hmany
  have hlast : h.chunks[2^16]? = some h.chunks[2^16] := List.getElem?_eq_getElem (by omega)
  have hnumber := (hc.chunks _ _ hlast).2
  have hlt := (h.chunks[2^16]).stream_number.isLt
  omega

section fixing

variable {assumed : RmffProp → BitVec 32} {num_streams : ℕ} {header_size : BitVec 32} {p : RmffProp}

theorem fixProp_object_id : (fixProp assumed num_streams header_size p).object_id = p.object_id := by
  unfold fixProp
  dsimp only
  split_ifs <;> rfl

theorem fixProp_size : (fixProp assumed num_streams header_size p).size = 50 := by
  unfold fixProp
  dsimp only
  split_ifs <;> rfl

theorem fixProp_data_offset :
    (fixProp assumed num_streams header_size p).data_offset = header_size := by
  unfold fixProp
  dsimp only
  split_ifs <;> rfl

theorem fixData_object_id {d : RmffData} : (fixData p d).object_id = d.object_id := by
  unfold fixData
  dsimp only
  split_ifs <;> rfl

end fixing

theorem rmffFixHeader_eq (assumed : RmffProp → BitVec 32) {h : RmffHeader} (hc : h.Consistent) :
    ∃ F : FixedHeader, rmffFixHeader assumed h = F.header ∧ F.chunks = h.chunks ∧ h.cont = some F.cont ∧
      (F.fileheader.size = 18 ↔ h.fileheader.isSome) := by
  obtain ⟨p, hp, hp_id⟩ := hc.prop
  obtain ⟨c, hcont, hc_consistent⟩ := hc.cont
  have hmany := hc.length_chunks
  have hfile : ∀ n, (h.fileheader.getD (createdFileheader n)).object_id = RMF_TAG ∧
      ((h.fileheader.getD (createdFileheader n)).size = 18 ∧ h.fileheader.isSome ∨
        (h.fileheader.getD (createdFileheader n)).size = 34 ∧ ¬h.fileheader.isSome) := by
    intro n
    cases hfileheader : h.fileheader with
    | none => exact ⟨rfl, .inr ⟨rfl, Bool.false_ne_true⟩⟩
    | some f =>
      obtain ⟨hid, hsize⟩ := hc.fileheader f hfileheader
      exact ⟨hid, .inl ⟨hsize, rfl⟩⟩
  have hdata : (h.data.getD createdData).object_id = DATA_TAG := by
    cases hd : h.data with
    | none => rfl
    | some d => exact hc.data d hd
  unfold rmffFixHeader
  rw [hp, hcont]
  dsimp only
  generalize hn : BitVec.ofNat 32 h.chunks.length + 1 + 1 + 1 = n
  obtain ⟨hid, hsize⟩ := hfile n
  generalize h.fileheader.getD (createdFileheader n) = f at hid hsize ⊢
  have hnum : (n + 1).toNat = h.chunks.length + 4 := by
    have hone : (1 : BitVec 32).toNat = 1 := rfl
    rw [← hn, BitVec.toNat_add, BitVec.toNat_add, BitVec.toNat_add, BitVec.toNat_add, BitVec.toNat_ofNat,
      hone]
    omega
  refine ⟨{
    fileheader := { f with num_headers := n + 1 }
    prop := fixProp assumed h.chunks.length ((h.chunks.map RmffMdpr.size).sum + 50 + c.size + f.size) p
    streams := h.streams
    cont := c
    data := fixData _ (h.data.getD createdData)
    fileheader_id := hid
    fileheader_size := hsize.imp And.left And.left
    num_headers := hnum
    prop_id := fixProp_object_id.trans hp_id
    prop_size := fixProp_size
    data_offset := fixProp_data_offset
    cont_consistent := hc_consistent
    chunks_consistent := fun m hm => ?_
    stream_numbers := fun i m hi => (hc.chunks i m hi).2
    data_id := fixData_object_id.trans hdata }, rfl, rfl, rfl, ?_⟩
  · obtain ⟨i, hi⟩ := List.mem_iff_getElem?.1 hm
    exact (hc.chunks i m hi).1
  · rcases hsize with ⟨hsize, hsome⟩ | ⟨hsize, hnone⟩
    · exact iff_of_true hsize hsome
    · refine iff_of_false (fun h18 => ?_) hnone
      exact absurd (hsize.symm.trans h18) (by decide)

/-! ## Packet headers -/

/-- `rmff_dump_pheader` stores twelve bytes, and `rmff_scan_pheader` gets the header from them. -/
def PacketRoundTrips (ph : RmffPheader) : Prop :=
  Sets (rmffDumpPheader ph) 0 12 ∧ ∀ data, rmffScanPheader (rmffDumpPheader ph data) = ph

theorem setWidth_shift {w : ℕ} (hw : 8 ≤ w) (x : BitVec w) (k : ℕ) :
    ((x >>> k) &&& BitVec.ofNat w 0xff).setWidth 8 = BitVec.ofNat 8 (x.toNat / 2^k) := by
  have hpow : 2^8 ≤ 2^w := Nat.pow_le_pow_right (by decide) hw
  have hmask : (BitVec.ofNat w 0xff).toNat = 2^8 - 1 :=
    (BitVec.toNat_ofNat _ _).trans (Nat.mod_eq_of_lt (by omega))
  refine BitVec.eq_of_toNat_eq ?_
  rw [BitVec.toNat_setWidth, BitVec.toNat_and, hmask, Nat.and_two_pow_sub_one_eq_mod, Nat.mod_mod,
    BitVec.toNat_ushiftRight, Nat.shiftRight_eq_div_pow, BitVec.toNat_ofNat]

theorem bytes16_eq (x : BitVec 16) :
    [((x >>> 8) &&& 0xff).setWidth 8, (x &&& 0xff).setWidth 8] = bytes16 x := by
  have hlow := setWidth_shift (by decide) x 0
  have hhigh := setWidth_shift (by decide) x 8
  rw [BitVec.ushiftRight_zero, Nat.pow_zero, Nat.div_one] at hlow
  exact congrArg₂ (fun a b : Byte => [a, b]) hhigh hlow

theorem bytes32_eq (x : BitVec 32) :
    [((x >>> 24) &&& 0xff).setWidth 8, ((x >>> 16) &&& 0xff).setWidth 8, ((x >>> 8) &&& 0xff).setWidth 8,
      (x &&& 0xff).setWidth 8] = bytes32 x := by
  have h0 := setWidth_shift (by decide) x 0
  have h8 := setWidth_shift (by decide) x 8
  have h16 := setWidth_shift (by decide) x 16
  have h24 := setWidth_shift (by decide) x 24
  have hbytes : bytes32 x = [BitVec.ofNat 8 (x.toNat / 2^8 / 2^8 / 2^8),
      BitVec.ofNat 8 (x.toNat / 2^8 / 2^8), BitVec.ofNat 8 (x.toNat / 2^8), BitVec.ofNat 8 x.toNat] := rfl
  rw [BitVec.ushiftRight_zero, Nat.pow_zero, Nat.div_one] at h0
  have hdiv24 : x.toNat / 2^8 / 2^8 / 2^8 = x.toNat / 2^24 := by omega
  have hdiv16 : x.toNat / 2^8 / 2^8 = x.toNat / 2^16 := by omega
  rw [hbytes, hdiv24, hdiv16, ← h0, ← h8, ← h16, ← h24]
  rfl

/-- The bytes of a packet header. -/
def RmffPheader.encode (ph : RmffPheader) : List Byte :=
  bytes16 ph.object_version ++ bytes16 ph.length ++ bytes16 ph.stream_number ++ bytes32 ph.timestamp ++
    [ph.reserved] ++ [ph.flags]

theorem rmffDumpPheader_eq (ph : RmffPheader) (data : Buffer) :
    rmffDumpPheader ph data = store data 0 ph.encode := by
  rw [RmffPheader.encode, ← bytes16_eq, ← bytes16_eq, ← bytes16_eq, ← bytes32_eq]
  rfl

theorem packet_round_trips (ph : RmffPheader) : PacketRoundTrips ph := by
  have hlength : ph.encode.length = 12 := by
    unfold RmffPheader.encode
    simp only [List.length_append, length_bytes16, length_bytes32, List.length_singleton]
  constructor
  · have hsets : Sets (fun data : Buffer => store data 0 ph.encode) 0 (0 + ph.encode.length) := sets_store
    rw [hlength] at hsets
    have hdump : rmffDumpPheader ph = fun data => store data 0 ph.encode :=
      funext (rmffDumpPheader_eq ph)
    rw [hdump]
    exact hsets
  · intro data
    have hheld : Holds (rmffDumpPheader ph data) 0 ph.encode := by
      rw [rmffDumpPheader_eq]
      exact holds_store
    unfold RmffPheader.encode at hheld
    simp only [holds_append, List.length_append, length_bytes16, length_bytes32, List.length_singleton,
      Nat.reduceAdd, Nat.cast_ofNat, Int.zero_add] at hheld
    obtain ⟨⟨⟨⟨⟨h0, h2⟩, h4⟩, h6⟩, h10⟩, h11⟩ := hheld
    unfold rmffScanPheader
    rw [be16At_of_holds h0, be16At_of_holds h2, be16At_of_holds h4, be32At_of_holds h6,
      holds_singleton.1 h10, holds_singleton.1 h11]

/-! ## Which headers survive -/

/-- A header and the headers of packets survive exactly if the header had a file header, the two bytes
of each version of a media properties chunk are the same, unless the machine is big-endian, and all of
it has fewer than 2^31 bytes. -/
theorem header_round_trips_iff (order : ByteOrder) (assumed : RmffProp → BitVec 32) (h : RmffHeader)
    (hc : h.Consistent) :
    RoundTrips order (rmffFixHeader assumed h) ∧ (∀ ph, PacketRoundTrips ph) ↔
      h.fileheader.isSome ∧
      (order = .big ∨ ∀ m ∈ h.chunks, m.object_version.toNat / 2^8 = m.object_version.toNat % 2^8) ∧
      h.length < 2^31 := by
  obtain ⟨F, hfix, hchunks, hcont, hsize⟩ := rmffFixHeader_eq assumed hc
  have hversions : (∀ m ∈ h.chunks, order.be16 m.object_version = m.object_version) ↔
      (order = .big ∨ ∀ m ∈ h.chunks, m.object_version.toNat / 2^8 = m.object_version.toNat % 2^8) := by
    simp only [be16_eq_self]
    by_cases hbig : order = .big
    · simp only [hbig, true_or, implies_true]
    · simp only [hbig, false_or]
  rw [and_iff_left packet_round_trips, hfix, F.roundTrips_iff, hchunks, hversions, hsize]
  refine and_congr_right fun hsome => and_congr_right fun _ => ?_
  have hfile := F.toNat_eighteen (hsize.2 hsome)
  rw [FixedHeader.length, RmffHeader.length, hfile, hchunks, hcont]

/-- A header with one media properties chunk of some version. -/
def smallHeader (object_version : BitVec 16) : RmffHeader where
  fileheader := some ⟨RMF_TAG, 18, 0, 0, 5⟩
  prop := some ⟨PROP_TAG, 50, 0, 100, 100, 60, 60, 9, 1000, 0, 0, 0, 1, 0⟩
  streams := some [some ⟨MDPR_TAG, 49, object_version, 0, 100, 100, 60, 60, 0, 0, 1000, 1, [0x61], 0, [],
    2, [7, 8]⟩, none]
  cont := some ⟨CONT_TAG, 19, 0, 1, [0x62], 0, [], 0, [], 0, []⟩
  data := none

theorem smallHeader_consistent (object_version : BitVec 16) :
    (smallHeader object_version).Consistent where
  fileheader := by
    rintro f ⟨⟩
    exact ⟨rfl, rfl⟩
  prop := ⟨_, rfl, rfl⟩
  cont := ⟨_, rfl, ⟨rfl, rfl, rfl, rfl, rfl, rfl⟩⟩
  chunks := by
    intro i m hi
    cases i with
    | zero =>
      cases hi
      exact ⟨⟨rfl, rfl, rfl, rfl, rfl⟩, rfl⟩
    | succ i => exact absurd hi (by simp [RmffHeader.chunks, smallHeader, streamChunks, chunksOf])
  data := by
    rintro d ⟨⟩

theorem header_round_trips_small :
    RoundTrips .little (rmffFixHeader (fun _ => 0) (smallHeader 0)) ∧ (∀ ph, PacketRoundTrips ph) :=
  (header_round_trips_iff .little (fun _ => 0) (smallHeader 0) (smallHeader_consistent 0)).2
    ⟨rfl, .inr (by decide), by decide⟩

/-- A version of 1 is one of 256 behind the writer. -/
theorem version_is_swapped : (smallHeader 1).Consistent ∧
    ¬RoundTrips .little (rmffFixHeader (fun _ => 0) (smallHeader 1)) := by
  refine ⟨smallHeader_consistent 1, ?_⟩
  rintro ⟨dumped, hdump, -, -⟩
  have hleft : (rmffDumpHeader .little (rmffFixHeader (fun _ => 0) (smallHeader 1)) fun _ => 0).map
      (fun r => r.2.1) ≠ some (rmffFixHeader (fun _ => 0) (smallHeader 1)) := by
    decide
  rw [hdump] at hleft
  exact hleft rfl

end Xine.Rmff
