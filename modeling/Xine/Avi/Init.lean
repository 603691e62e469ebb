import Xine.Avi.Index
import Xine.Library.Memory
import Xine.Library.Walks

/-!
# The header of an AVI file

The header scan and the interpretation of the header list of `AVI_init` of `demux_avi.c`. A `long` has 64
bits, and the size of a chunk is a signed number of 32 bits in it. What is left out is the data of the streams
and of the index, which no condition depends on.
-/

namespace Xine.Avi

open Spans

/-- The words that tags are compared with, in lower case. -/
def list : List Byte := [108, 105, 115, 116]

@[inherit_doc list] def riff : List Byte := [114, 105, 102, 102]

@[inherit_doc list] def avi : List Byte := [97, 118, 105, 32]

@[inherit_doc list] def hdrl : List Byte := [104, 100, 114, 108]

@[inherit_doc list] def movi : List Byte := [109, 111, 118, 105]

@[inherit_doc list] def idx1 : List Byte := [105, 100, 120, 49]

@[inherit_doc list] def iddx : List Byte := [105, 100, 100, 120]

@[inherit_doc list] def strh : List Byte := [115, 116, 114, 104]

@[inherit_doc list] def strf : List Byte := [115, 116, 114, 102]

@[inherit_doc list] def vids : List Byte := [118, 105, 100, 115]

@[inherit_doc list] def auds : List Byte := [97, 117, 100, 115]

/-- `strncasecmp` finds no difference between a tag and a word. -/
def isTag (tag word : List Byte) : Bool := tag.map lower = word

/-- What `AVI_init` works on: the bytes of the file, whether the input can only be read on, for which numbers
of bytes there is memory, whether there is some for another audio stream, and what there is around the memory
of the header list. -/
structure AviSource where
  bytes : List Byte
  streaming : Bool
  memory : ℕ → Bool
  audioMemory : Bool
  around : ℤ → Byte

namespace AviSource

/-- `xine_xmalloc` of a `long`. As a `size_t` a negative one is too much. -/
def alloc (src : AviSource) (n : ℤ) : Bool := 0 ≤ n && src.memory n.toNat

/-! ## The header scan -/

/-- The state of the scan: the position of the input, and the place of the header list in the file and its
length, if there is one. -/
structure Scan where
  pos : ℤ
  hdrl_data : Option (ℤ × ℤ)
  deriving DecidableEq

/-- What an iteration of the scan comes to: another one, its end, or that of `AVI_init`. -/
inductive Scanned where
  | next (s : Scan)
  | stop
  | exit

/-- `seek` with `SEEK_CUR`. If it fails the position stays. -/
def skip (input : Input) (n : ℤ) : ℤ := (input.seek (input.pos + n)).2.pos

/-- The part of an iteration for a list. -/
def scanList (src : AviSource) (s : Scan) (input : Input) (n : ℤ) : Scanned :=
  let (data, input) := input.read 4
  if data.length ≠ 4 then .exit
  else
    let n := n - 4
    if isTag data hdrl then
      if src.alloc n then
        let (hdrl_data, behind) := input.read n.toNat
        if (hdrl_data.length : ℤ) ≠ n then .exit else .next ⟨behind.pos, some (input.pos, n)⟩
      else .exit
    else if isTag data movi && src.streaming then .stop
    else .next { s with pos := skip input n }

/-- The part of an iteration for an index. -/
def scanIndex (src : AviSource) (s : Scan) (input : Input) (n : ℤ) : Scanned :=
  if src.alloc n then
    let (idx, input) := input.read n.toNat
    if (idx.length : ℤ) ≠ n then .stop else .next { s with pos := input.pos }
  else .exit

/-- An iteration of the scan. -/
def scanRound (src : AviSource) (s : Scan) : Scanned :=
  let (data, input) := Input.read ⟨src.bytes, s.pos⟩ 8
  if data.length ≠ 8 then .stop
  else
    let n := padEven (str2ulong (data.drop 4))
    if isTag (data.take 4) list then src.scanList s input n
    else if isTag (data.take 4) idx1 || isTag (data.take 4) iddx then src.scanIndex s input n
    else .next { s with pos := skip input n }

/-- The scan as a walk. -/
def scan (src : AviSource) (s : Scan) : Option Scan :=
  match src.scanRound s with
  | .next s => some s
  | .stop | .exit => none

/-- The scan starts behind the header of an AVI file, if there is one. -/
def scanStart (src : AviSource) : Option Scan :=
  let (data, input) := Input.read ⟨src.bytes, 0⟩ 12
  if data.length ≠ 12 then none
  else if isTag (data.take 4) riff && isTag (data.drop 8) avi then some ⟨input.pos, none⟩
  else none

end AviSource

/-! ## The interpretation of the header list -/

/-- A header list: its memory from its first byte on, with what is around it, its length, and what memory
there is. -/
structure HeaderList where
  mem : ℤ → Byte
  hdrl_len : ℕ
  src : AviSource

/-- The header list of a file, from a place on. -/
def AviSource.headerList (src : AviSource) (offset len : ℤ) : HeaderList where
  mem i := if 0 ≤ i ∧ i < len then src.bytes.getD (offset + i).toNat 0 else src.around i
  hdrl_len := len.toNat
  src := src

/-- The last stream header, to which a stream format belongs. -/
inductive Lasttag where
  | none | vids | auds

/-- The state of the interpretation. -/
structure Headers where
  i : ℤ
  lasttag : Lasttag
  vids_strh_seen : Bool
  n_audio : ℕ

namespace HeaderList

variable (l : HeaderList)

/-- Four bytes of the list. -/
def tag (i : ℤ) : List Byte := [l.mem i, l.mem (i + 1), l.mem (i + 2), l.mem (i + 3)]

/-- The padded size of the chunk at an index. -/
def size (i : ℤ) : ℤ := padEven (str2ulong (l.tag (i + 4)))

def sizeofBmiheader : ℕ := 40

/-- There is memory for a stream format of video. The sizes are compared as numbers of type `size_t`. -/
def bihMemory (n : ℤ) : Bool :=
  l.src.alloc (if 0 ≤ n ∧ n < sizeofBmiheader then sizeofBmiheader else n)

/-- `palette_count`, from the first `n` bytes of the stream format. -/
def paletteCount (i n : ℤ) : ℤ :=
  let byte (k : ℤ) : Byte := if k < n then l.mem (i + k) else 0
  min 256 (Int.bmod (littleEndian [byte 32, byte 33, byte 34, byte 35]) (2 ^ 32))

def maxAudioStreams : ℕ := 8

/-- A stream header at an index is the first one of a video stream. -/
def isVideo (s : Headers) (i : ℤ) : Prop := isTag (l.tag i) vids = true ∧ s.vids_strh_seen = false

instance {s : Headers} {i : ℤ} : Decidable (l.isVideo s i) := by
  unfold isVideo
  infer_instance

/-- The part of an iteration for a stream header, with the index behind its tag. -/
def streamHeader (s : Headers) (i n : ℤ) : Option Headers :=
  if l.isVideo s i then some ⟨i + n, .vids, true, s.n_audio⟩
  else if isTag (l.tag i) auds then
    if s.n_audio < maxAudioStreams then
      if l.src.audioMemory then some ⟨i + n, .auds, s.vids_strh_seen, s.n_audio + 1⟩ else none
    else some { s with i := i + n }
  else some { s with i := i + n, lasttag := .none }

/-- The part of an iteration for a stream format, with the index behind its tag. The copy to memory that is not
there is the end of the program. -/
def streamFormat (s : Headers) (i n : ℤ) : Option Headers :=
  match s.lasttag with
  | .vids => if l.bihMemory n then some { s with i := i + n, lasttag := .none } else none
  | .auds => if l.src.alloc n then some { s with i := i + n, lasttag := .none } else none
  | .none => some { s with i := i + n, lasttag := .none }

/-- An iteration of the interpretation. -/
def interpret (s : Headers) : Option Headers :=
  if s.i < l.hdrl_len then
    if isTag (l.tag s.i) list then some { s with i := s.i + 12 }
    else
      let n := l.size s.i
      if isTag (l.tag s.i) strh then l.streamHeader s (s.i + 8) n
      else if isTag (l.tag s.i) strf then l.streamFormat s (s.i + 8) n
      else some { s with i := s.i + 8 + n, lasttag := .none }
  else none

/-- The interpretation starts at the first byte of the list. -/
def start : Headers := ⟨0, .none, false, 0⟩

/-! ## Reads -/

/-- How many bytes `strncasecmp` reads at an index: it goes on up to the first difference. -/
def compared (i : ℤ) : List Byte → ℕ
  | [] => 0
  | b :: word => if lower (l.mem i) = b then compared (i + 1) word + 1 else 1

/-- A comparison with a word. -/
def compare (i : ℤ) (word : List Byte) : List (Span Unit) := [⟨(), i, l.compared i word⟩]

/-- The reads for the data of a stream header. -/
def wordsAt (i : ℤ) (offsets : List ℤ) : List (Span Unit) := offsets.map fun k => ⟨(), i + k, 4⟩

/-- The reads of a stream header. The type of the video is read from the start of the list. -/
def streamHeaderReads (s : Headers) (i : ℤ) : List (Span Unit) :=
  l.compare i vids ++
    if l.isVideo s i then ⟨(), 0, 4⟩ :: wordsAt i [16, 20, 24, 28]
    else
      l.compare i auds ++
        if isTag (l.tag i) auds = true ∧ s.n_audio < maxAudioStreams ∧ l.src.audioMemory = true then
          wordsAt i [16, 20, 24, 28, 44]
        else []

/-- The reads of the palette. -/
def paletteReads (i : ℤ) (palette_count : ℕ) : List (Span Unit) :=
  (List.range palette_count).map fun j : ℕ => ⟨(), i + sizeofBmiheader + j * 4, 3⟩

/-- The reads of a stream format. The number of the bytes that are copied is a `size_t`. -/
def streamFormatReads (s : Headers) (i n : ℤ) : List (Span Unit) :=
  match s.lasttag with
  | .vids =>
    if l.bihMemory n then ⟨(), i, n.toNat⟩ :: paletteReads i (l.paletteCount i n).toNat else []
  | .auds => [⟨(), i, (n % 2 ^ 64).toNat⟩]
  | .none => []

/-- The reads of an iteration. -/
def reads (s : Headers) : List (Span Unit) :=
  if s.i < l.hdrl_len then
    l.compare s.i list ++
      if isTag (l.tag s.i) list then []
      else
        ⟨(), s.i + 4, 4⟩ :: (l.compare s.i strh ++
          if isTag (l.tag s.i) strh then l.streamHeaderReads s (s.i + 8)
          else
            l.compare s.i strf ++
              if isTag (l.tag s.i) strf then l.streamFormatReads s (s.i + 8) (l.size s.i) else [])
  else []

end HeaderList

end Xine.Avi

/-!
## The interpretation of the header list

Each iteration goes on by the size of its chunk, which is a signed number, and reads what it takes to be there.
-/

namespace Xine.Avi

open Spans Walks

theorem str2ulong_mem (str : List Byte) : -2 ^ 31 ≤ str2ulong str ∧ str2ulong str < 2 ^ 31 := by
  have hle := @Int.le_bmod (littleEndian str) (2 ^ 32) (by decide)
  have hlt := @Int.bmod_lt (littleEndian str) (2 ^ 32) (by decide)
  unfold str2ulong
  omega

theorem padEven_mem {x : ℤ} (h : -2 ^ 31 ≤ x) (h' : x < 2 ^ 31) :
    -2 ^ 31 ≤ padEven x ∧ padEven x ≤ 2 ^ 31 := by
  unfold padEven
  omega

theorem padEven_str2ulong_mem (str : List Byte) :
    -2 ^ 31 ≤ padEven (str2ulong str) ∧ padEven (str2ulong str) ≤ 2 ^ 31 :=
  padEven_mem (str2ulong_mem str).1 (str2ulong_mem str).2

namespace HeaderList

variable {l : HeaderList} {s t : Headers} {i n : ℤ} {word : List Byte}

/-! ## Steps -/

theorem streamHeader_i (h : l.streamHeader s i n = some t) : t.i = i + n := by
  unfold streamHeader at h
  split_ifs at h <;> exact (Option.some.inj h) ▸ rfl

theorem streamFormat_i (h : l.streamFormat s i n = some t) : t.i = i + n := by
  unfold streamFormat at h
  split at h
  · obtain rfl := Option.some.inj (Option.ite_none_right_eq_some.1 h).2
    rfl
  · obtain rfl := Option.some.inj (Option.ite_none_right_eq_some.1 h).2
    rfl
  · cases h
    rfl

theorem interpret_i (h : l.interpret s = some t) :
    s.i < l.hdrl_len ∧ (isTag (l.tag s.i) list = true ∧ t.i = s.i + 12 ∨
      isTag (l.tag s.i) list = false ∧ t.i = s.i + 8 + l.size s.i) := by
  unfold interpret at h
  dsimp only at h
  split_ifs at h with hlt hlist hstrh hstrf
  · cases h
    exact ⟨hlt, .inl ⟨hlist, rfl⟩⟩
  · exact ⟨hlt, .inr ⟨Bool.eq_false_iff.2 hlist, streamHeader_i h⟩⟩
  · exact ⟨hlt, .inr ⟨Bool.eq_false_iff.2 hlist, streamFormat_i h⟩⟩
  · cases h
    exact ⟨hlt, .inr ⟨Bool.eq_false_iff.2 hlist, rfl⟩⟩

/-- The chunk that an iteration goes on behind is not of a size that leads back. -/
def Forward (l : HeaderList) (s : Headers) : Prop :=
  isTag (l.tag s.i) list = false → (l.interpret s).isSome → -8 < l.size s.i

theorem lt_iff_forward (h : l.interpret s = some t) : s.i < t.i ↔ l.Forward s := by
  have hsome : (l.interpret s).isSome := by rw [h]; rfl
  unfold Forward
  obtain ⟨-, ⟨hlist, hi⟩ | ⟨hlist, hi⟩⟩ := interpret_i h
  · exact iff_of_true (by omega) fun hfalse => absurd hlist (hfalse ▸ Bool.false_ne_true)
  · rw [imp_iff_right hlist, imp_iff_right hsome]
    omega

theorem interpret_le (h : l.interpret s = some t) : t.i ≤ l.hdrl_len + 2 ^ 31 + 8 := by
  have hsize := (padEven_str2ulong_mem (l.tag (s.i + 4))).2
  obtain ⟨hlt, ⟨-, hi⟩ | ⟨-, hi⟩⟩ := interpret_i h
  · omega
  · unfold HeaderList.size at hi
    omega

/-! ## Reads -/

theorem compared_le : l.compared i word ≤ word.length := by
  induction word generalizing i with
  | nil => exact le_rfl
  | cons b word ih =>
    unfold compared
    rw [List.length_cons]
    split_ifs
    · exact Nat.succ_le_succ ih
    · exact Nat.succ_le_succ (Nat.zero_le _)

theorem compared_of_isTag (h : isTag (l.tag i) word = true) : l.compared i word = 4 := by
  obtain rfl : (l.tag i).map lower = word := of_decide_eq_true h
  unfold tag
  simp only [List.map_cons, List.map_nil, compared, add_assoc, Int.reduceAdd, if_true, Nat.reduceAdd]

theorem compare_inside_iff {size : Unit → ℕ} :
    AllInside size (l.compare i word) ↔ 0 ≤ i ∧ i + l.compared i word ≤ size () := by
  unfold compare
  rw [allInside_cons, and_iff_left allInside_nil]
  rfl

theorem wordsAt_inside_iff {size : Unit → ℕ} (hi : 0 ≤ i) {offsets : List ℤ}
    (hpos : ∀ k ∈ offsets, 0 ≤ k) :
    AllInside size (wordsAt i offsets) ↔ ∀ k ∈ offsets, i + k + 4 ≤ size () := by
  unfold wordsAt AllInside
  rw [List.forall_mem_map]
  refine forall₂_congr fun k hk => ?_
  have hk := hpos k hk
  unfold Span.Inside
  dsimp only
  omega

/-- A stream header that is whole. -/
def StreamHeaderFits (l : HeaderList) (s : Headers) (i : ℤ) : Prop :=
  i + l.compared i vids ≤ l.hdrl_len ∧
    if l.isVideo s i then i + 32 ≤ l.hdrl_len
    else
      i + l.compared i auds ≤ l.hdrl_len ∧
        (isTag (l.tag i) auds = true ∧ s.n_audio < maxAudioStreams ∧ l.src.audioMemory = true →
          i + 48 ≤ l.hdrl_len)

/-- A stream format that is whole. -/
def StreamFormatFits (l : HeaderList) (s : Headers) (i n : ℤ) : Prop :=
  match s.lasttag with
  | .vids => l.bihMemory n = true → i + n ≤ l.hdrl_len ∧
      (0 < l.paletteCount i n → i + sizeofBmiheader + (l.paletteCount i n - 1) * 4 + 3 ≤ l.hdrl_len)
  | .auds => 0 ≤ n ∧ i + n ≤ l.hdrl_len
  | .none => True

/-- A chunk of the list that is whole, as far as it is read. -/
def HeaderFits (l : HeaderList) (s : Headers) : Prop :=
  0 ≤ s.i ∧
    if isTag (l.tag s.i) list then s.i + 4 ≤ l.hdrl_len
    else
      s.i + 8 ≤ l.hdrl_len ∧
        if isTag (l.tag s.i) strh then l.StreamHeaderFits s (s.i + 8)
        else isTag (l.tag s.i) strf = true → l.StreamFormatFits s (s.i + 8) (l.size s.i)

theorem streamHeaderReads_inside_iff (hi : 8 ≤ i) :
    AllInside (fun _ => l.hdrl_len) (l.streamHeaderReads s i) ↔ l.StreamHeaderFits s i := by
  have hpos : 0 ≤ i := by omega
  unfold streamHeaderReads StreamHeaderFits
  rw [allInside_append, compare_inside_iff, and_iff_right hpos]
  refine and_congr Iff.rfl ?_
  by_cases hvideo : l.isVideo s i
  · rw [if_pos hvideo, if_pos hvideo, allInside_cons, wordsAt_inside_iff (by omega) (by decide)]
    simp only [List.forall_mem_cons, List.not_mem_nil, IsEmpty.forall_iff, implies_true, and_true]
    unfold Span.Inside
    dsimp only
    omega
  · rw [if_neg hvideo, if_neg hvideo, allInside_append, compare_inside_iff, and_iff_right hpos,
      allInside_if_else_nil, wordsAt_inside_iff (by omega) (by decide)]
    simp only [List.forall_mem_cons, List.not_mem_nil, IsEmpty.forall_iff, implies_true, and_true]
    refine and_congr Iff.rfl (imp_congr_right fun _ => ?_)
    omega

theorem paletteReads_inside_iff (hi : 0 ≤ i) {palette_count : ℤ} :
    AllInside (fun _ => l.hdrl_len) (paletteReads i palette_count.toNat) ↔
      (0 < palette_count → i + sizeofBmiheader + (palette_count - 1) * 4 + 3 ≤ l.hdrl_len) := by
  unfold paletteReads AllInside
  rw [List.forall_mem_map]
  unfold Span.Inside
  dsimp only
  constructor
  · intro h hpos
    have hlast := (h (palette_count.toNat - 1) (List.mem_range.2 (by omega))).2
    omega
  · intro h j hj
    have hlt := List.mem_range.1 hj
    have hlast := h (by omega)
    omega

theorem streamFormatReads_inside_iff (hi : 8 ≤ i) (hn : -2 ^ 31 ≤ n) (hn' : n ≤ 2 ^ 31)
    (hlen : l.hdrl_len < 2 ^ 63) :
    AllInside (fun _ => l.hdrl_len) (l.streamFormatReads s i n) ↔ l.StreamFormatFits s i n := by
  unfold streamFormatReads StreamFormatFits
  cases s.lasttag with
  | none => exact iff_of_true allInside_nil trivial
  | vids =>
    dsimp only
    rw [allInside_if_else_nil, allInside_cons, paletteReads_inside_iff (by omega)]
    refine imp_congr_right fun hmemory => and_congr ?_ Iff.rfl
    have hpos : 0 ≤ n := by
      unfold bihMemory AviSource.alloc at hmemory
      split_ifs at hmemory with hsmall
      · exact hsmall.1
      · exact of_decide_eq_true (Bool.and_eq_true_iff.1 hmemory).1
    unfold Span.Inside
    dsimp only
    omega
  | auds =>
    dsimp only
    rw [allInside_cons, and_iff_left allInside_nil]
    unfold Span.Inside
    dsimp only
    omega

theorem reads_inside_iff (hlen : l.hdrl_len < 2 ^ 63) (hlt : s.i < l.hdrl_len) :
    AllInside (fun _ => l.hdrl_len) (l.reads s) ↔ l.HeaderFits s := by
  unfold reads HeaderFits
  rw [if_pos hlt, allInside_append, compare_inside_iff]
  by_cases hpos : 0 ≤ s.i
  · rw [and_iff_right hpos, and_iff_right hpos]
    by_cases hlist : isTag (l.tag s.i) list = true
    · rw [if_pos hlist, if_pos hlist, and_iff_left allInside_nil, compared_of_isTag hlist]
      exact Iff.rfl
    · have hle : l.compared s.i list ≤ 4 := compared_le
      have hle' : l.compared s.i strh ≤ 4 := compared_le
      have hle'' : l.compared s.i strf ≤ 4 := compared_le
      rw [if_neg hlist, if_neg hlist, allInside_cons, allInside_append, compare_inside_iff]
      by_cases hstrh : isTag (l.tag s.i) strh = true
      · rw [if_pos hstrh, if_pos hstrh, streamHeaderReads_inside_iff (by omega)]
        unfold Span.Inside
        dsimp only
        constructor
        · rintro ⟨-, hsize, -, hfits⟩
          exact ⟨by omega, hfits⟩
        · rintro ⟨hsize, hfits⟩
          exact ⟨by omega, by omega, by omega, hfits⟩
      · have hsize : -2 ^ 31 ≤ l.size s.i ∧ l.size s.i ≤ 2 ^ 31 := padEven_str2ulong_mem _
        have hformat := @streamFormatReads_inside_iff l s (s.i + 8) (l.size s.i) (by omega) hsize.1
          hsize.2 hlen
        rw [if_neg hstrh, if_neg hstrh, allInside_append, compare_inside_iff, allInside_if_else_nil,
          hformat]
        unfold Span.Inside
        dsimp only
        constructor
        · rintro ⟨-, hsize, -, -, hfits⟩
          exact ⟨by omega, hfits⟩
        · rintro ⟨hsize, hfits⟩
          exact ⟨by omega, by omega, by omega, by omega, hfits⟩
  · exact iff_of_false (fun h => hpos h.1.1) fun h => hpos h.1

/-! ## All iterations -/

/-- The interpretation ends, goes forward, and reads inside of the list. -/
def Sound (l : HeaderList) : Prop :=
  Ends l.interpret start ∧ Advances l.interpret Headers.i start ∧
    ∀ s, Reaches l.interpret start s → AllInside (fun _ => l.hdrl_len) (l.reads s)

/-- The chunks that the interpretation comes to are whole, and do not lead back. -/
def Whole (l : HeaderList) : Prop :=
  ∀ s, Reaches l.interpret start s → s.i < l.hdrl_len → l.HeaderFits s ∧ l.Forward s

theorem sound_iff_whole (hlen : l.hdrl_len < 2 ^ 63) : l.Sound ↔ l.Whole := by
  constructor
  · rintro ⟨-, hadvances, hinside⟩ s hs hlt
    refine ⟨(reads_inside_iff hlen hlt).1 (hinside s hs), fun hlist hsome => ?_⟩
    obtain ⟨t, ht⟩ := Option.isSome_iff_exists.1 hsome
    exact (lt_iff_forward ht).1 (hadvances s hs t ht) hlist hsome
  · intro h
    have hadvances : Advances l.interpret Headers.i start := fun s hs t ht =>
      (lt_iff_forward ht).2 (h s hs (interpret_i ht).1).2
    refine ⟨hadvances.ends fun s _ t ht => interpret_le ht, hadvances, fun s hs => ?_⟩
    by_cases hlt : s.i < l.hdrl_len
    · exact (reads_inside_iff hlen hlt).2 (h s hs hlt).1
    · unfold reads
      rw [if_neg hlt]
      exact allInside_nil

end HeaderList

end Xine.Avi
