import Xine.Qt.Atoms
import Xine.Qt.Expansion

/-!
# Trak atoms

`parse_trak_atom` of `demux_qt.c`, as far as it loads what the frames of a trak are made of: the
type, the time scale, the audio properties and the sample tables. What the atoms have for decoders is left out.
An index is an `int`, and so is the place that is read.
-/

namespace Xine.Qt

def vmhdAtom : ℕ := qtAtom 'v' 'm' 'h' 'd'

def smhdAtom : ℕ := qtAtom 's' 'm' 'h' 'd'

def mdhdAtom : ℕ := qtAtom 'm' 'd' 'h' 'd'

def elstAtom : ℕ := qtAtom 'e' 'l' 's' 't'

def stsdAtom : ℕ := qtAtom 's' 't' 's' 'd'

def stszAtom : ℕ := qtAtom 's' 't' 's' 'z'

def stscAtom : ℕ := qtAtom 's' 't' 's' 'c'

def stcoAtom : ℕ := qtAtom 's' 't' 'c' 'o'

def sttsAtom : ℕ := qtAtom 's' 't' 't' 's'

def stssAtom : ℕ := qtAtom 's' 't' 's' 's'

def co64Atom : ℕ := qtAtom 'c' 'o' '6' '4'

def ima4Fourcc : ℕ := qtAtom 'i' 'm' 'a' '4'

def mp4aFourcc : ℕ := qtAtom 'm' 'p' '4' 'a'

/-- `TWOS_FOURCC`, `SOWT_FOURCC` and `RAW_FOURCC`. -/
def pcmFourccs : List ℕ :=
  [qtAtom 't' 'w' 'o' 's', qtAtom 's' 'o' 'w' 't', qtAtom 'r' 'a' 'w' ' ']

/-- Why a trak is not loaded: a table that is there twice, no memory, or a fault of the code. -/
inductive TrakFailure where
  | headerTrouble | noMemory | fault

/-- What a trak atom is parsed with: the machine, whether there is memory for the table of the atom at an
index, and the bytes from the start of the atom on. -/
structure TrakSource where
  x86 : Bool
  bigEndian : Bool
  memory : ℕ → Bool
  mem : ℤ → Byte

namespace TrakSource

variable (src : TrakSource)

/-- `BE_32` at an index. -/
def be (i : ℤ) : Word := BitVec.ofNat 32 (word src.mem (Int.bmod i (2 ^ 32)))

/-- `BE_16` at an index. -/
def be16 (i : ℤ) : ℕ := Octets.ofBig [src.mem i, src.mem (i + 1)]

/-- `ME_32` at an index. -/
def me (i : ℤ) : ℕ :=
  let bytes := [src.mem i, src.mem (i + 1), src.mem (i + 2), src.mem (i + 3)]
  if src.bigEndian then Octets.ofBig bytes else Octets.ofLittle bytes

/-! ## Sample description -/

/-- A value of the sample description that is taken if it is not zero. -/
def orElse (value default : Word) : Word := if value ≠ 0 then value else default

/-- The audio properties of an entry of the sample description. The packets of an entry can be of zero
bytes. -/
def audioProperties (atom_pos current_stsd_atom_size : Word) : Except TrakFailure AudioProperties :=
  let long (offset : Word) : Word := BitVec.ofNat 32 (word src.mem (atom_pos + offset).toNat)
  let channels : Word := (src.mem (atom_pos + 0x15).toNat).setWidth 32
  let bits : Word := (src.mem (atom_pos + 0x17).toNat).setWidth 32
  let ima4 := (long 0).toNat = ima4Fourcc
  let bytes_per_sample := if ima4 then 2 else bits / 8
  let samples_per_frame := if ima4 then 64 * channels else channels
  let bytes_per_frame := if ima4 then 34 * channels else bytes_per_sample * samples_per_frame
  let samples_per_packet := if ima4 then 64 else samples_per_frame
  let bytes_per_packet := if ima4 then 34 else bytes_per_sample
  let vbr : Word :=
    if (long 0).toNat = mp4aFourcc ∨ src.be16 (atom_pos + 0x18).toNat = 0xFFFE then 1 else 0
  -- further parameters, unless the audio is PCM
  if current_stsd_atom_size.toNat > 0x24 ∧ src.me atom_pos.toNat ∉ pcmFourccs then
    let samples_per_packet := orElse (long 0x20) samples_per_packet
    let bytes_per_packet := orElse (long 0x24) bytes_per_packet
    let bytes_per_frame := orElse (long 0x28) bytes_per_frame
    if bytes_per_packet = 0 then .error .fault
    else
      let samples_per_frame := bytes_per_frame / bytes_per_packet * samples_per_packet
      .ok ⟨channels, samples_per_frame, bytes_per_frame, vbr⟩
  else .ok ⟨channels, samples_per_frame, bytes_per_frame, vbr⟩

/-- The audio properties of some entries of the sample description. -/
def stsdEntries : ℕ → Word → Except TrakFailure (List AudioProperties)
  | 0, _ => .ok []
  | k + 1, atom_pos => do
    let current_stsd_atom_size := BitVec.ofNat 32 (word src.mem (atom_pos - 4).toNat)
    let properties ← src.audioProperties atom_pos current_stsd_atom_size
    let rest ← stsdEntries k (atom_pos + current_stsd_atom_size)
    .ok (properties :: rest)

/-- The sample description. The properties are those of its first entry. -/
def loadStsd (trak : QtTrak) (i : ℕ) : Except TrakFailure QtTrak :=
  let count := (src.be (i + 8)).toNat
  if h : count < 2 ^ 31 then
    if src.memory i = false then .error .noMemory
    else do
      let entries ← if trak.type = .audio then src.stsdEntries count (BitVec.ofNat 32 (i + 0x10)) else .ok []
      .ok { trak with
        stsd_atoms_count := count
        properties := entries.head?.or trak.properties
        stsd_atoms_count_lt := h }
  else .error .noMemory

/-! ## Sample tables -/

/-- A table with a number of entries. The index of more of them than an `int` has is negative. -/
def loadTable {α : Type} (i : ℕ) (count : Word) (entry : ℕ → α) : Except TrakFailure (Table α) :=
  if src.memory i = false then .error .noMemory
  else if h : count.toNat ≤ 2 ^ 31 then
    .ok ⟨(List.range count.toNat).map entry, by rwa [List.length_map, List.length_range]⟩
  else .error .fault

/-- The sizes of the samples, which are loaded if there is not one for all of them. -/
def loadStsz (trak : QtTrak) (i : ℕ) : Except TrakFailure QtTrak :=
  let sample_size := src.be (i + 8)
  let sample_size_count := src.be (i + 12)
  if trak.sample_size_table.isSome then .error .headerTrouble
  else if hsize : sample_size = 0 then
    if src.memory i = false then .error .noMemory
    else if h : sample_size_count.toNat ≤ 2 ^ 31 then
      .ok { trak with
        sample_size
        sample_size_count
        sample_size_table := some ⟨(List.range sample_size_count.toNat).map fun j : ℕ =>
          src.be (i + 16 + j * 4), by rwa [List.length_map, List.length_range]⟩
        sample_size_table_length := fun _ => by
          rw [Option.elim_some, List.length_map, List.length_range] }
    else .error .fault
  else
    .ok { trak with
      sample_size
      sample_size_count
      sample_size_table := some ⟨[], Nat.zero_le _⟩
      sample_size_table_length := fun hzero => absurd hzero hsize }

/-- A table that may be there once. -/
def loadOnce {α : Type} (table : Option (Table α)) (i : ℕ) (entry : ℕ → α) :
    Except TrakFailure (Table α) :=
  if table.isSome then .error .headerTrouble else src.loadTable i (src.be (i + 8)) entry

/-- An iteration of the loop that searches for the useful atoms. -/
def atomStep (trak : QtTrak) (i : ℕ) : Except TrakFailure QtTrak :=
  let atom := (src.be i).toNat
  if atom = elstAtom then do
    let table ← src.loadOnce trak.edit_list_table i fun j =>
      ⟨src.be (i + 12 + j * 12), src.be (i + 12 + j * 12 + 4)⟩
    .ok { trak with edit_list_table := some table }
  else if atom = mdhdAtom then .ok { trak with timescale := src.be (i + 0x10) }
  else if atom = stsdAtom then src.loadStsd trak i
  else if atom = stszAtom then src.loadStsz trak i
  else if atom = stssAtom then do
    let table ← src.loadOnce trak.sync_sample_table i fun j => src.be (i + 12 + j * 4)
    .ok { trak with sync_sample_table := some table }
  else if atom = stcoAtom then do
    let table ← src.loadOnce trak.chunk_offset_table i fun j =>
      BitVec.ofInt 64 (be32 src.x86 src.mem (Int.bmod (i + 12 + j * 4) (2 ^ 32)))
    .ok { trak with chunk_offset_table := some table }
  else if atom = co64Atom then do
    let table ← src.loadOnce trak.chunk_offset_table i fun j =>
      BitVec.ofInt 64 (extendedSize src.x86 src.mem (Int.bmod (i + 12 + j * 8) (2 ^ 32)))
    .ok { trak with chunk_offset_table := some table }
  else if atom = stscAtom then do
    let table ← src.loadOnce trak.sample_to_chunk_table i fun j =>
      ⟨src.be (i + 12 + j * 12), src.be (i + 12 + j * 12 + 4), src.be (i + 12 + j * 12 + 8)⟩
    .ok { trak with sample_to_chunk_table := some table }
  else if atom = sttsAtom then do
    let table ← src.loadOnce trak.time_to_sample_table i fun j =>
      ⟨src.be (i + 12 + j * 8), src.be (i + 12 + j * 8 + 4)⟩
    .ok { trak with time_to_sample_table := some table }
  else .ok trak

/-- The indexes of the loops over the atom, which are compared with an unsigned number. -/
def indexes : List ℕ :=
  List.range' atomPreambleSize ((src.be 0 - 4).toNat - atomPreambleSize)

/-- The type of the trak, which is that of the first header of a media type. -/
def mediaType : MediaType :=
  (src.indexes.findSome? fun i =>
    if (src.be i).toNat = vmhdAtom then some .video
    else if (src.be i).toNat = smhdAtom then some .audio
    else none).getD .other

/-- A trak without any tables. -/
def initialTrak (type : MediaType) : QtTrak where
  type := type
  stsd_atoms_count := 0
  properties := none
  timescale := 0
  edit_list_table := none
  chunk_offset_table := none
  sample_size := 0
  sample_size_count := 0
  sample_size_table := none
  sync_sample_table := none
  sample_to_chunk_table := none
  time_to_sample_table := none
  stsd_atoms_count_lt := by decide
  sample_size_table_length := fun _ => rfl

def parseTrakAtom : Except TrakFailure QtTrak :=
  src.indexes.foldlM src.atomStep (initialTrak src.mediaType)

end TrakSource

/-- A trak atom that has the header of a video media and nothing else. -/
def videoHeader : TrakSource where
  x86 := true
  bigEndian := false
  memory _ := true
  mem i := [0, 0, 0, 20, 0x74, 0x72, 0x61, 0x6b, 0, 0, 0, 12, 0x76, 0x6d, 0x68, 0x64, 0, 0, 0, 0].getD
    i.toNat 0

/-- The time-to-sample table of a trak without one is read. -/
theorem videoHeader_faults :
    ∃ trak, videoHeader.parseTrakAtom = .ok trak ∧ trak.buildFrameTable someMemory 600 = none :=
  ⟨TrakSource.initialTrak .video, rfl, rfl⟩

end Xine.Qt
