import Xine.Asf.Demuxer
import Xine.Library.Runs

/-!
# Fragments in payloads

A payload carries a fragment of a media object, with the fields that the types in the header of its packet call
for.
-/

namespace Xine.Asf

open Octets

/-- A fragment of an object, with what its payload says about it. `ext` is what else there is in the
replicated data, behind the size of the object and its timestamp. -/
structure Fragment where
  stream_id : ℕ
  key : Bool
  seq : ℕ
  frag_offset : ℕ
  payload_size : ℕ
  timestamp : ℕ
  ext : List Byte
  data : List Byte

/-- The byte before a payload. -/
def Fragment.rawId (f : Fragment) : ℕ := (if f.key then 2^7 else 0) + f.stream_id

/-- The bytes of a payload, for the types of the current packet. -/
def Fragment.encode (this : Packet) (f : Fragment) : List Byte :=
  littleEndian 1 f.rawId ++ (littleEndian (fieldSize this.seqType) f.seq ++
    (littleEndian (fieldSize this.offsetType) f.frag_offset ++
      (littleEndian (fieldSize this.rlenType) (8 + f.ext.length) ++
        (littleEndian 4 f.payload_size ++ (littleEndian 4 f.timestamp ++ (f.ext ++
          (littleEndian (if this.multiple then lengthSize this.lengthType else 0) f.data.length ++
            f.data)))))))

/-- Each number fits into its field. -/
structure Fragment.Fits (this : Packet) (f : Fragment) : Prop where
  stream_id : f.stream_id < 2^7
  seq : f.seq < 2^(8 * fieldSize this.seqType)
  frag_offset : f.frag_offset < 2^(8 * fieldSize this.offsetType)
  rlen : 8 + f.ext.length < 2^(8 * fieldSize this.rlenType)
  payload_size : f.payload_size < 2^32
  timestamp : f.timestamp < 2^32
  length : this.multiple = true → f.data.length < 2^(8 * lengthSize this.lengthType)

theorem Fragment.fits_iff {this : Packet} {f : Fragment} :
    f.Fits this ↔ f.stream_id < 2^7 ∧ f.seq < 2^(8 * fieldSize this.seqType) ∧
      f.frag_offset < 2^(8 * fieldSize this.offsetType) ∧
        8 + f.ext.length < 2^(8 * fieldSize this.rlenType) ∧ f.payload_size < 2^32 ∧
          f.timestamp < 2^32 ∧
            (this.multiple = true → f.data.length < 2^(8 * lengthSize this.lengthType)) := by
  constructor
  · rintro ⟨h₁, h₂, h₃, h₄, h₅, h₆, h₇⟩
    exact ⟨h₁, h₂, h₃, h₄, h₅, h₆, h₇⟩
  · rintro ⟨h₁, h₂, h₃, h₄, h₅, h₆, h₇⟩
    exact ⟨h₁, h₂, h₃, h₄, h₅, h₆, h₇⟩

instance (this : Packet) (f : Fragment) : Decidable (f.Fits this) :=
  decidable_of_iff _ Fragment.fits_iff.symm

/-- What is done with the bytes of a fragment of a selected stream. -/
def receive (h : Headers) (this : DemuxAsf) (k : Kind) (f : Fragment) : DemuxAsf :=
  let this := if f.frag_offset = 0 then resync this k f.rawId f.timestamp else this
  sendBuffer h this k f.frag_offset f.seq f.timestamp f.data.length f.payload_size

variable {h : Headers} {this : DemuxAsf} {k : Kind} {f : Fragment} {rest : List Byte}

theorem take_littleEndian (len n : ℕ) (rest : List Byte) :
    (littleEndian len n ++ rest).take len = littleEndian len n :=
  List.take_left' (length_littleEndian len n)

theorem drop_littleEndian (len n : ℕ) (rest : List Byte) :
    (littleEndian len n ++ rest).drop len = rest :=
  List.drop_left' (length_littleEndian len n)

theorem read_append {data : List Byte} (hinput : this.input = data ++ rest) :
    this.read data.length = (data, { this with input := rest }) := by
  unfold DemuxAsf.read
  rw [hinput, List.take_left, List.drop_left]

theorem select_streamId (h : Headers) (k : Kind) : h.select (h.streamId k) = some k := by
  cases k with
  | audio => exact if_pos rfl
  | video =>
    unfold Headers.select Headers.streamId
    rw [if_neg h.stream_id_ne.symm, if_pos rfl]

theorem setStream_toPacket (this : DemuxAsf) (k : Kind) (s : AsfStream) :
    (this.setStream k s).toPacket = this.toPacket := by
  cases k with
  | audio => rfl
  | video => rfl

theorem badSeq_toPacket (this : DemuxAsf) (k : Kind) : (badSeq this k).toPacket = this.toPacket := by
  cases k with
  | audio => rfl
  | video => rfl

theorem checkSeq_toPacket (this : DemuxAsf) (k : Kind) (seq : ℕ) :
    (checkSeq this k seq).toPacket = this.toPacket := by
  unfold checkSeq
  dsimp only
  split_ifs
  · exact (badSeq_toPacket _ _).trans (setStream_toPacket _ _ _)
  · exact setStream_toPacket _ _ _

theorem checkSeq_rest (this : DemuxAsf) (k : Kind) (seq : ℕ) (input : List Byte) (left : ℤ) :
    checkSeq { this with input := input, packet_size_left := left } k seq =
      { checkSeq this k seq with input := input, packet_size_left := left } := by
  by_cases hexp : expSeq (this.stream k) this.seqType seq ≠ seq
  · unfold checkSeq
    cases k with
    | audio =>
      rw [if_pos hexp]
      exact (if_pos hexp).trans rfl
    | video =>
      rw [if_pos hexp]
      exact (if_pos hexp).trans rfl
  · unfold checkSeq
    cases k with
    | audio =>
      rw [if_neg hexp]
      exact (if_neg hexp).trans rfl
    | video =>
      rw [if_neg hexp]
      exact (if_neg hexp).trans rfl

theorem asfParsePacketPayloadCommon_encode (this : DemuxAsf) {raw_id rlen : ℕ} (hselect : h.select (raw_id % 2^7) = some k)
    (hseq : f.seq < 2^(8 * fieldSize this.seqType))
    (hoffset : f.frag_offset < 2^(8 * fieldSize this.offsetType))
    (hrlen : rlen < 2^(8 * fieldSize this.rlenType))
    (hinput : this.input = littleEndian (fieldSize this.seqType) f.seq ++
      (littleEndian (fieldSize this.offsetType) f.frag_offset ++
        (littleEndian (fieldSize this.rlenType) rlen ++ rest)))
    (hleft : this.packet_size_left = this.input.length) (hlt : this.input.length < 2^32)
    (hle : rlen ≤ rest.length) :
    asfParsePacketPayloadCommon h this raw_id =
      (checkSeq { this with input := rest, packet_size_left := rest.length } k f.seq,
        some ⟨some k, f.frag_offset, rlen, f.seq⟩) := by
  have hlen := congrArg List.length hinput
  simp only [List.length_append, length_littleEndian] at hlen
  have hpacket := checkSeq_toPacket this k f.seq
  have hrest := checkSeq_rest this k f.seq
  generalize checkSeq this k f.seq = c at hpacket hrest
  obtain ⟨p, keyframe_ts, clock, audio, video⟩ := c
  obtain rfl : p = this.toPacket := hpacket
  unfold asfParsePacketPayloadCommon
  unfold Packet.seqType Packet.offsetType Packet.rlenType at *
  have hfits : ¬this.packet_size_left % 2^32 < rlen := by omega
  simp only [DemuxAsf.getLe, hinput, hselect, take_littleEndian, drop_littleEndian,
    ofLittle_of_lt hseq, ofLittle_of_lt hoffset, ofLittle_of_lt hrlen, hrest, hfits, if_false]
  have hlen' : this.packet_size_left - ((fieldSize (this.segtype.toNat / 2^4 % 4) +
      fieldSize (this.segtype.toNat / 2^2 % 4) + fieldSize (this.segtype.toNat % 4) : ℕ) : ℤ) =
        rest.length := by omega
  rw [hlen']

theorem asfParsePacketPayloadMultiple_encode (this : DemuxAsf) (hsize : f.payload_size < 2^(8 * 4))
    (hsize_pos : f.payload_size ≠ 0) (htimestamp : f.timestamp < 2^(8 * 4))
    (hlength : this.multiple = true → f.data.length < 2^(8 * lengthSize this.lengthType))
    (hinput : this.input = littleEndian 4 f.payload_size ++ (littleEndian 4 f.timestamp ++ (f.ext ++
      (littleEndian (if this.multiple then lengthSize this.lengthType else 0) f.data.length ++
        (f.data ++ rest)))))
    (hleft : this.packet_size_left = this.input.length) (hlt : this.input.length < 2^32)
    (hsingle : this.multiple = false → rest = []) :
    (asfParsePacketPayloadMultiple h this f.rawId
      ⟨some k, f.frag_offset, 8 + f.ext.length, f.seq⟩).1 =
      let this := receive h { this with
        input := f.data ++ rest
        packet_size_left := (f.data ++ rest).length } k f
      { this with packet_size_left := this.packet_size_left - f.data.length } := by
  have hlen := congrArg List.length hinput
  simp only [List.length_append, length_littleEndian] at hlen
  unfold asfParsePacketPayloadMultiple
  have hrlen : 8 ≤ 8 + f.ext.length := Nat.le_add_right 8 _
  have hext : 8 + f.ext.length - 8 = f.ext.length := Nat.add_sub_cancel_left 8 _
  have hext_take (bs : List Byte) : (f.ext ++ bs).drop f.ext.length = bs := List.drop_left
  unfold Packet.multiple Packet.lengthType at *
  by_cases hmultiple : this.packet_flags.toNat % 2 = 1
  · simp only [hmultiple, decide_true, if_true, forall_true_left] at hlength hinput hlen
    have hfits : ¬this.packet_size_left % 2^32 < f.data.length := by omega
    have hleft' : this.packet_size_left - ((8 + f.ext.length +
        lengthSize (this.frame_flag.toNat / 2^6 % 4) : ℕ) : ℤ) = (f.data ++ rest).length := by
      rw [List.length_append]
      omega
    simp only [hrlen, if_true, hext, DemuxAsf.getLe, DemuxAsf.read, hinput, take_littleEndian,
      drop_littleEndian, ofLittle_of_lt hsize, ofLittle_of_lt htimestamp, hext_take, hmultiple,
      decide_true, ofLittle_of_lt hlength, hfits, if_false, hsize_pos, hleft']
    rfl
  · simp only [hmultiple, decide_false, if_false, Bool.false_eq_true] at hinput hlen hsingle
    obtain rfl : rest = [] := hsingle trivial
    have hleft' : this.packet_size_left - ((8 + f.ext.length : ℕ) : ℤ) = f.data.length := by
      rw [List.length_nil] at hlen
      omega
    have hfits : ¬this.packet_size_left % 2^32 < f.data.length := by omega
    have hfrag_len : ((f.data.length : ℤ) % 2^32).toNat = f.data.length := by omega
    have hnil : littleEndian 0 f.data.length = [] := rfl
    rw [hnil, List.nil_append] at hinput
    simp only [hrlen, if_true, hext, DemuxAsf.getLe, DemuxAsf.read, hinput, take_littleEndian,
      drop_littleEndian, ofLittle_of_lt hsize, ofLittle_of_lt htimestamp, hext_take, hmultiple,
      decide_false, Bool.false_eq_true, hleft', hfrag_len, hfits, if_false, hsize_pos,
      List.append_nil]
    rfl

theorem asfParsePayload_encode (hfits : f.Fits this.toPacket) (hk : f.stream_id = h.streamId k)
    (hsize : f.payload_size ≠ 0) (hinput : this.input = f.encode this.toPacket ++ rest)
    (hleft : this.packet_size_left = this.input.length) (hlt : this.input.length < 2^32)
    (hsingle : this.multiple = false → rest = []) :
    (asfParsePayload h this).1 =
      let this := receive h (checkSeq { this with
        input := f.data ++ rest
        packet_size_left := (f.data ++ rest).length } k f.seq) k f
      { this with packet_size_left := this.packet_size_left - f.data.length } := by
  have hlen := congrArg List.length hinput
  unfold Fragment.encode at hinput hlen
  simp only [List.length_append, length_littleEndian, List.append_assoc] at hinput hlen
  have hraw_id : f.rawId < 2^(8 * 1) := by
    have hid := hfits.stream_id
    unfold Fragment.rawId
    split_ifs
    · omega
    · omega
  have hselect : h.select (f.rawId % 2^7) = some k := by
    have hid := hfits.stream_id
    have hmod : f.rawId % 2^7 = f.stream_id := by
      unfold Fragment.rawId
      split_ifs
      · omega
      · omega
    rw [hmod, hk, select_streamId]
  -- what is behind the fields that all payloads have
  obtain ⟨tail, htail⟩ : ∃ tail, tail = littleEndian 4 f.payload_size ++
    (littleEndian 4 f.timestamp ++ (f.ext ++
      (littleEndian (if this.multiple then lengthSize this.lengthType else 0) f.data.length ++
        (f.data ++ rest)))) := ⟨_, rfl⟩
  have htail_length := congrArg List.length htail
  simp only [List.length_append, length_littleEndian] at htail_length
  rw [← htail] at hinput
  have hcommon := asfParsePacketPayloadCommon_encode { this with
    input := littleEndian (fieldSize this.seqType) f.seq ++
      (littleEndian (fieldSize this.offsetType) f.frag_offset ++
        (littleEndian (fieldSize this.rlenType) (8 + f.ext.length) ++ tail))
    packet_size_left := this.packet_size_left - 1 } hselect hfits.seq hfits.frag_offset hfits.rlen rfl
    (by simp only [List.length_append, length_littleEndian]; omega)
    (by simp only [List.length_append, length_littleEndian]; omega) (by omega)
  have hne : 8 + f.ext.length ≠ 1 := by omega
  have hpayload : (asfParsePayload h this).1 =
      (asfParsePacketPayloadMultiple h
        (checkSeq { this with input := tail, packet_size_left := tail.length } k f.seq) f.rawId
        ⟨some k, f.frag_offset, 8 + f.ext.length, f.seq⟩).1 := by
    unfold asfParsePayload
    simp only [DemuxAsf.getLe, hinput, take_littleEndian, drop_littleEndian, ofLittle_of_lt hraw_id,
      hcommon, hne, if_false]
  rw [hpayload, checkSeq_rest this k f.seq tail, checkSeq_rest this k f.seq (f.data ++ rest)]
  have hpacket := checkSeq_toPacket this k f.seq
  generalize checkSeq this k f.seq = c at hpacket
  obtain ⟨p, keyframe_ts, clock, audio, video⟩ := c
  obtain rfl : p = this.toPacket := hpacket
  exact asfParsePacketPayloadMultiple_encode { this with
    input := tail, packet_size_left := tail.length, keyframe_ts := keyframe_ts, clock := clock,
    audio := audio, video := video } hfits.payload_size hsize hfits.timestamp hfits.length htail rfl
    (by dsimp only; omega) hsingle

end Xine.Asf

/-!
## Media objects

A run reads packets, whose payloads carry fragments of the media objects of both streams in any order
between the streams. An object starts with its first fragment and goes on with the next ones, as long
as no other object of its stream starts; so it may end early, and objects may be missing.

`Decoder` is what the fifo of a stream is for: the buffers up to a frame end are a unit, and a reset
drops those that have come since the last one. `Assembled` says that the units are the objects.
-/

namespace Xine.Asf

open Octets Runs

/-! ## Decoding -/

/-- Buffers that belong together, and whether the last one has ended a frame. -/
structure FrameUnit where
  bufs : List BufElement
  ended : Bool
deriving DecidableEq

/-- The units so far, and the buffers behind the last one. -/
structure Decoder where
  units : List FrameUnit
  pending : List BufElement

/-- A decoder takes an element of its fifo. -/
def Decoder.feed (d : Decoder) : Element → Decoder
  | .newpts .. => d
  | .resetDecoder => if d.pending = [] then d else ⟨d.units ++ [⟨d.pending, false⟩], []⟩
  | .data buf =>
    if buf.frame_end then ⟨d.units ++ [⟨d.pending ++ [buf], true⟩], []⟩
    else ⟨d.units, d.pending ++ [buf]⟩

/-- What a decoder has of the elements in a fifo. -/
def AsfStream.decoder (s : AsfStream) : Decoder := s.fifo.foldl Decoder.feed ⟨[], []⟩

/-- The units, with the one that has not ended. -/
def Decoder.all (d : Decoder) : List FrameUnit :=
  if d.pending = [] then d.units else d.units ++ [⟨d.pending, false⟩]

/-! ## Runs -/

structure MediaObject where
  key : Bool
  seq : ℕ
  timestamp : ℕ
  bytes : List Byte
deriving DecidableEq

/-- An object of which some bytes have been carried, and whether the demuxer has not skipped it. -/
structure Carried where
  object : MediaObject
  len : ℕ
  taken : Bool
deriving DecidableEq

/-- All bytes have been carried. -/
def Carried.complete (c : Carried) : Bool := decide (c.len = c.object.bytes.length)

/-- The fragment of an object at an offset. -/
def MediaObject.fragment (o : MediaObject) (stream_id offset len : ℕ) (ext : List Byte) : Fragment where
  stream_id := stream_id
  key := o.key
  seq := o.seq
  frag_offset := offset
  payload_size := o.bytes.length
  timestamp := o.timestamp
  ext := ext
  data := (o.bytes.drop offset).take len

/-- The demuxer, and the objects that have started in each stream. -/
structure World where
  demux : DemuxAsf
  audio : List Carried
  video : List Carried

def World.objects (w : World) : Kind → List Carried
  | .audio => w.audio
  | .video => w.video

/-- The world behind a payload with a fragment of an object of a stream. -/
def World.payload (h : Headers) (w : World) (k : Kind) (objects : DemuxAsf → List Carried) : World :=
  let demux := (asfParsePayload h w.demux).1
  match k with
  | .audio => { w with demux := demux, audio := objects demux }
  | .video => { w with demux := demux, video := objects demux }

/-- What can happen: the header of a packet is read, with its data in front of the demuxer, or a
payload with the first or the next `len` bytes of an object. -/
inductive Action
  | packet (packet_flags segtype frame_flag : Byte) (input : List Byte)
  | start (k : Kind) (object : MediaObject) (ext : List Byte) (len : ℕ)
  | next (k : Kind) (ext : List Byte) (len : ℕ)

/-- The fragment comes next in the packet, which it fills if there is no length. -/
def Fragment.Carries (this : Packet) (f : Fragment) : Prop :=
  f.Fits this ∧ f.encode this <+: this.input ∧ (this.multiple = false → this.input = f.encode this)

instance (this : Packet) (f : Fragment) : Decidable (f.Carries this) := by
  unfold Fragment.Carries
  infer_instance

def step (h : Headers) (w : World) : Action → Option World
  | .packet packet_flags segtype frame_flag input =>
    if input.length < 2^32 then
      some { w with demux := { w.demux with
        toPacket := ⟨input, packet_flags, segtype, frame_flag, input.length⟩ } }
    else
      none
  | .start k object ext len =>
    if 0 < len ∧ len ≤ object.bytes.length ∧
        (object.fragment (h.streamId k) 0 len ext).Carries w.demux.toPacket ∧
          object.bytes.length < 2^32 then
      some (w.payload h k fun demux => w.objects k ++ [⟨object, len, !(demux.stream k).skip⟩])
    else
      none
  | .next k ext len =>
    match (w.objects k).getLast? with
    | none => none
    | some c =>
      if 0 < len ∧ c.len + len ≤ c.object.bytes.length ∧
          (c.object.fragment (h.streamId k) c.len len ext).Carries w.demux.toPacket then
        some (w.payload h k fun _ => (w.objects k).dropLast ++ [{ c with len := c.len + len }])
      else
        none

/-- A stream behind a seek. -/
def AsfStream.start (skip resync first_seq : Bool) : AsfStream where
  seq := 0
  frag_offset := 0
  timestamp := 0
  buffer := []
  skip := skip
  resync := resync
  first_seq := first_seq
  fifo := []

/-- The demuxer behind a seek, before the first packet. -/
def World.start (keyframe_ts : ℤ) (clock : Clock) (audio video : Bool × Bool × Bool) : World where
  demux := {
    toPacket := ⟨[], 0, 0, 0, 0⟩
    keyframe_ts := keyframe_ts
    clock := clock
    audio := .start audio.1 audio.2.1 audio.2.2
    video := .start video.1 video.2.1 video.2.2 }
  audio := []
  video := []

/-! ## What the fifos receive -/

/-- The bytes of an object as they are to be sent. -/
def Headers.Sends (h : Headers) (k : Kind) (bytes content : List Byte) : Prop :=
  if h.defrag k then Deinterleaved h.audio_reorder bytes content else content = bytes

/-- Buffers with some bytes, of which only the last can end a frame, and the time of the first. -/
structure Chain (bufs : List BufElement) (bytes : List Byte) (ended : Bool) (pts : ℤ) : Prop where
  content : bufs.flatMap BufElement.content = bytes
  frame_end : ∃ init last, bufs = init ++ [last] ∧ (∀ b ∈ init, b.frame_end = false) ∧
    last.frame_end = ended
  pts : bufs.head?.map BufElement.pts = some pts

/-- A unit is that of an object: it has its bytes, or those that have been carried when it is not
complete, and it has ended when it is. -/
def Carried.IsUnit (h : Headers) (k : Kind) (c : Carried) (u : FrameUnit) : Prop :=
  u.ended = c.complete ∧
    ∃ content, Chain u.bufs content c.complete (90 * c.object.timestamp) ∧
      if c.complete then h.Sends k c.object.bytes content
      else content = c.object.bytes.take c.len

/-- The objects that are sent: those that the demuxer has not skipped, and when the objects of the
stream are put together first, only complete ones. -/
def Headers.sent (h : Headers) (k : Kind) (objects : List Carried) : List Carried :=
  objects.filter fun c => c.taken && (c.complete || !h.defrag k)

/-- The units of a stream are the objects that are sent, in their order. -/
def Assembled (h : Headers) (k : Kind) (objects : List Carried) (s : AsfStream) : Prop :=
  List.Forall₂ (Carried.IsUnit h k) (h.sent k objects) s.decoder.all

/-! ## The condition -/

/-- The condition on the first fragment of an object, in a stream whose objects are put together: the
fragment fits into the buffer, the stream is de-interleaved as its header says, and the last object has
not ended early, or had the same timestamp. -/
def RegularDefrag (h : Headers) (s : AsfStream) (object : MediaObject) (len : ℕ) : Prop :=
  len ≤ defragBufsize ∧ h.reorder = h.audio_reorder ∧
    (s.frag_offset = 0 ∨ s.timestamp = object.timestamp)

/-- The condition in the other streams: when the last object has ended early, the sequence number is
another one. -/
def RegularNodefrag (s : AsfStream) (object : MediaObject) : Prop :=
  s.frag_offset ≠ 0 → s.skip = false → asInt object.seq ≠ s.seq

instance (h : Headers) (s : AsfStream) (object : MediaObject) (len : ℕ) :
    Decidable (RegularDefrag h s object len) := by
  unfold RegularDefrag
  infer_instance

instance (s : AsfStream) (object : MediaObject) : Decidable (RegularNodefrag s object) := by
  unfold RegularNodefrag
  infer_instance

/-- The condition on the steps. An object has less than `2^31` bytes. -/
def Regular (h : Headers) (w : World) : Action → Prop
  | .packet .. => True
  | .start k object _ len =>
    object.bytes.length < 2^31 ∧
      if h.defrag k then RegularDefrag h (w.demux.stream k) object len
      else RegularNodefrag (w.demux.stream k) object
  | .next k _ len =>
    h.defrag k = true → (w.demux.stream k).skip = false →
      (w.demux.stream k).frag_offset + len ≤ defragBufsize

instance (h : Headers) (w : World) : DecidablePred (Regular h w) := by
  intro a
  unfold Regular
  cases a <;> infer_instance

end Xine.Asf
