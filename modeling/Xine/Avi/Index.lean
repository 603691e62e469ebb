import Mathlib.Algebra.BigOperators.Group.List.Basic
import Mathlib.Algebra.Order.Ring.Int

/-!
# The index of an AVI file

`idx_grow` of `demux_avi.c`, with what it reads and writes of the demuxer: the file at its current
length, the offset of the next tag, and the index of each stream. The number of an unsigned long is
kept as the signed one that it is congruent to, since it is added to offsets only. The events about
the progress are left out.

A call of `idx_grow` is a loop of rounds, which ends when the stopper of the call is satisfied or the
file is at its end. `idxGrow` is a call, and `idxGrowRound` a round of it.
-/

namespace Xine.Avi

abbrev Byte := BitVec 8

/-- The file as far as it has been written, and the position of the input. -/
structure Input where
  src : List Byte
  pos : ℤ
deriving DecidableEq

/-- `input->read`: the bytes, up to the end of the file. -/
def Input.read (input : Input) (len : ℕ) : List Byte × Input :=
  let data := (input.src.drop input.pos.toNat).take len
  (data, { input with pos := input.pos + data.length })

/-- `input->seek` from the start of the file, as `lseek` does it. -/
def Input.seek (input : Input) (offset : ℤ) : ℤ × Input :=
  if offset < 0 then (-1, input) else (offset, { input with pos := offset })

structure VideoIndexEntry where
  pos : ℤ
  len : ℤ
  flags : ℤ
deriving DecidableEq

structure AudioIndexEntry where
  pos : ℤ
  len : ℤ
  tot : ℤ
  block_no : ℤ
deriving DecidableEq

/-- The first two bytes of a tag, which are the number of its stream. -/
abbrev StreamTag := Byte × Byte

/-- What `idx_grow` uses of `avi_audio_t`. `nBlockAlign` is that of `wavex`, if there is one. -/
structure AviAudio where
  audio_tag : StreamTag
  nBlockAlign : Option ℕ
  block_no : ℤ
  audio_tot : ℤ
  aindex : List AudioIndexEntry
deriving DecidableEq

/-- The types of video that `idx_grow` tells apart. -/
inductive VideoType
  | msmpeg4V1 | msmpeg4V2 | msmpeg4V3 | divx5 | mpeg4 | xvid | other
deriving DecidableEq

/-- What `idx_grow` uses of `demux_avi_t` and `avi_t`. -/
structure DemuxAvi where
  input : Input
  nexttagoffset : ℤ
  video_tag : StreamTag
  video_type : VideoType
  vindex : List VideoIndexEntry
  audio : List AviAudio
deriving DecidableEq

def aviifKeyframe : ℤ := 0x10

/-- The number of bytes in the order of the machine that wrote them. -/
def littleEndian : List Byte → ℕ
  | [] => 0
  | b :: bs => b.toNat + 2^8 * littleEndian bs

/-- `str2ulong`, as a signed number. -/
def str2ulong (str : List Byte) : ℤ := Int.bmod (littleEndian str) (2^32)

def padEven (x : ℤ) : ℤ := x + 1 - (x + 1) % 2

/-- A letter in lower case, as `strncasecmp` compares it. -/
def lower (b : Byte) : Byte := if 65 ≤ b.toNat ∧ b.toNat ≤ 90 then b + 32 else b

/-- The tags `LIST` and `RIFF`, in either case. -/
def isList (tag : List Byte) : Bool :=
  let tag := tag.map lower
  tag = [108, 105, 115, 116] || tag = [114, 105, 102, 102]

/-- The chunk belongs to a stream. -/
def hasTag (data : List Byte) (tag : StreamTag) : Bool :=
  data[0]? = some tag.1 && data[1]? = some tag.2

/-- The flags of a video frame, from its first four bytes `data2` and the four behind them. -/
def keyframeFlags (video_type : VideoType) (data2 more : List Byte) : ℤ :=
  let tmp := littleEndian data2.reverse
  let next := littleEndian (more ++ data2.drop more.length).reverse * 2^5 % 2^32
  match video_type with
  | .msmpeg4V1 => if next.testBit 30 then 0 else aviifKeyframe
  | .msmpeg4V2 | .msmpeg4V3 => if tmp.testBit 30 then 0 else aviifKeyframe
  | .divx5 | .mpeg4 | .xvid => if tmp = 0x000001B6 then 0 else aviifKeyframe
  | .other => aviifKeyframe

/-- The part of a round for the video stream. There is no result when the first four bytes of the
frame cannot be read. -/
def DemuxAvi.growVideo (this : DemuxAvi) (data : List Byte) (curtagoffset n : ℤ) : Option DemuxAvi :=
  if hasTag data this.video_tag then
    let (data2, input) := this.input.read 4
    if data2.length ≠ 4 then
      none
    else
      let (more, input) := if this.video_type = .msmpeg4V1 then input.read 4 else ([], input)
      some { this with
        input := input
        vindex := this.vindex ++ [⟨curtagoffset + 8, n, keyframeFlags this.video_type data2 more⟩] }
  else
    some this

/-- The part of a round for an audio stream. -/
def AviAudio.grow (audio : AviAudio) (data : List Byte) (curtagoffset n : ℤ) : AviAudio :=
  if hasTag data audio.audio_tag then
    let align := audio.nBlockAlign.getD 0
    let block_no := audio.block_no + if align ≠ 0 then (n + align - 1).tdiv align else 1
    { audio with
      block_no := block_no
      audio_tot := audio.audio_tot + n
      aindex := audio.aindex ++ [⟨curtagoffset + 8, n, audio.audio_tot, block_no⟩] }
  else
    audio

/-- A round of the loop of `idx_grow`: the demuxer behind it, and the offset of the current tag if the
loop goes on. -/
def idxGrowRound (this : DemuxAvi) (curtagoffset : ℤ) : DemuxAvi × Option ℤ :=
  let (data, input) := this.input.read 8
  if data.length ≠ 8 then
    ({ this with input := input }, none)
  else if isList (data.take 4) then
    let (offset, input) := input.seek (input.pos + 4)
    ({ this with input := input, nexttagoffset := offset }, some curtagoffset)
  else
    let n := str2ulong (data.drop 4)
    let this := { this with input := input, nexttagoffset := this.nexttagoffset + padEven (n + 8) }
    match this.growVideo data curtagoffset n with
    | none => (this, none)
    | some this =>
      let this := { this with
        audio := this.audio.map fun audio : AviAudio => audio.grow data curtagoffset n }
      let (offset, input) := this.input.seek this.nexttagoffset
      ({ this with input := input }, if offset = this.nexttagoffset then some offset else none)

/-- The loop of `idx_grow`, in a number of rounds, with the position to go back to. -/
def idxGrowLoop (stopper : DemuxAvi → ℤ) (savepos : ℤ) :
    ℕ → DemuxAvi → ℤ → Option (ℤ × DemuxAvi)
  | 0, _, _ => none
  | rounds + 1, this, curtagoffset =>
    let retval := stopper this
    if retval < 0 then
      match idxGrowRound this curtagoffset with
      | (this, some curtagoffset) => idxGrowLoop stopper savepos rounds this curtagoffset
      | (this, none) => some (-1, { this with input := (this.input.seek savepos).2 })
    else
      some (retval, { this with input := (this.input.seek savepos).2 })

def idxGrow (stopper : DemuxAvi → ℤ) (rounds : ℕ) (this : DemuxAvi) : Option (ℤ × DemuxAvi) :=
  idxGrowLoop stopper this.input.pos rounds
    { this with input := (this.input.seek this.nexttagoffset).2 } this.nexttagoffset

end Xine.Avi

/-!
## The chunks of an AVI file

The data of an AVI file from the start of its `movi` list on: chunks, and the headers of lists and of
further segments, in the order of the file. A list does not have to be closed for its chunks to be
found, so that the nesting is left out: the header of a list counts as an item of its own. `chunks`
gives the position and the length of the payloads of a stream.
-/

namespace Xine.Avi

/-- The header of a list or of a segment, or a chunk with the byte that pads it. -/
inductive Item
  | header (tag size kind : List Byte)
  | chunk (tag payload : List Byte) (pad : Byte)

/-- A number in four bytes. -/
def le32 (n : ℕ) : List Byte :=
  [BitVec.ofNat 8 n, BitVec.ofNat 8 (n / 2^8), BitVec.ofNat 8 (n / 2^16), BitVec.ofNat 8 (n / 2^24)]

def Item.bytes : Item → List Byte
  | .header tag size kind => tag ++ (size ++ kind)
  | .chunk tag payload pad =>
    tag ++ (le32 payload.length ++ (payload ++ if payload.length % 2 = 1 then [pad] else []))

/-- The tags and the other fields of a header have four bytes, the tag of a chunk is not that of a
list, and its size fits into its field. -/
def Item.Formed : Item → Prop
  | .header tag size kind =>
    tag.length = 4 ∧ isList tag = true ∧ size.length = 4 ∧ kind.length = 4
  | .chunk tag payload _ => tag.length = 4 ∧ isList tag = false ∧ payload.length < 2^32

instance (item : Item) : Decidable item.Formed := by
  cases item <;> (unfold Item.Formed; infer_instance)

/-- The number of bytes of some items. -/
def sizeOf (items : List Item) : ℕ := (items.map fun item => item.bytes.length).sum

/-- The payload of a chunk of the stream, at an offset: its position and its length. -/
def Item.payload (tag : StreamTag) (offset : ℕ) : Item → List (ℤ × ℤ)
  | .header .. => []
  | .chunk t payload _ => if hasTag t tag then [((offset : ℤ) + 8, (payload.length : ℤ))] else []

/-- The payloads of a stream in the items that begin at an offset. -/
def chunks (tag : StreamTag) : ℕ → List Item → List (ℤ × ℤ)
  | _, [] => []
  | offset, item :: items => item.payload tag offset ++ chunks tag (offset + item.bytes.length) items

variable {tag : StreamTag} {offset : ℕ} {item : Item} {items items' : List Item}

theorem sizeOf_cons (item : Item) (items : List Item) :
    sizeOf (item :: items) = item.bytes.length + sizeOf items := by
  unfold sizeOf
  rw [List.map_cons, List.sum_cons]

theorem sizeOf_append (items items' : List Item) :
    sizeOf (items ++ items') = sizeOf items + sizeOf items' := by
  unfold sizeOf
  rw [List.map_append, List.sum_append]

theorem sizeOf_singleton (item : Item) : sizeOf [item] = item.bytes.length := by
  unfold sizeOf
  rw [List.map_singleton, List.sum_singleton]

theorem length_flatMap_bytes (items : List Item) : (items.flatMap Item.bytes).length = sizeOf items := by
  unfold sizeOf
  rw [List.length_flatMap]

theorem chunks_append (tag : StreamTag) (offset : ℕ) (items items' : List Item) :
    chunks tag offset (items ++ items') =
      chunks tag offset items ++ chunks tag (offset + sizeOf items) items' := by
  induction items generalizing offset with
  | nil => rfl
  | cons item items ih =>
    rw [List.cons_append, chunks, chunks, ih, sizeOf_cons, Nat.add_assoc, List.append_assoc]

theorem chunks_singleton (tag : StreamTag) (offset : ℕ) (item : Item) :
    chunks tag offset [item] = item.payload tag offset := List.append_nil _

theorem chunks_isPrefix (tag : StreamTag) (offset : ℕ) (items items' : List Item) :
    chunks tag offset items <+: chunks tag offset (items ++ items') :=
  ⟨_, (chunks_append tag offset items items').symm⟩

theorem length_le32 (n : ℕ) : (le32 n).length = 4 := rfl

theorem littleEndian_le32 {n : ℕ} (h : n < 2^32) : littleEndian (le32 n) = n := by
  unfold le32
  simp only [littleEndian, BitVec.toNat_ofNat]
  omega

theorem str2ulong_le32 {n : ℕ} (h : n < 2^31) : str2ulong (le32 n) = n := by
  unfold str2ulong
  rw [littleEndian_le32 (by omega)]
  exact Int.bmod_eq_of_le (by omega) (by omega)

theorem padEven_chunk (t payload : List Byte) (pad : Byte) (ht : t.length = 4) :
    padEven ((payload.length : ℤ) + 8) = ((Item.chunk t payload pad).bytes.length : ℤ) := by
  unfold padEven Item.bytes
  simp only [List.length_append, length_le32, ht]
  split_ifs with hodd
  · rw [List.length_singleton]
    omega
  · rw [List.length_nil]
    omega

end Xine.Avi
