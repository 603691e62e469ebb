import Mathlib.Data.List.ReduceOption
import Xine.Qt.TrakAtom

/-!
# The traks of a moov atom

`parse_moov_atom` of `demux_qt.c`, as far as it collects traks, and `parse_trak_atom` with the memory
that it allocates for a trak and frees when it gives the trak up. `free_trak` and `free_qt_info` free the same
pointers of a trak. What the loop has for texts and references is left out.
-/

namespace Xine.Qt

open Walks

/-- `QT_ATOM('e', 's', 'd', 's')`. -/
def esdsAtom : ℕ := qtAtom 'e' 's' 'd' 's'

/-- The values of `qt_error` that a moov atom can lead to. -/
inductive QtError where
  | ok | noMemory | noMoovAtom | headerTrouble
  deriving DecidableEq

/-- Memory that was allocated for an atom of a trak atom, or for an entry of it. -/
structure Block where
  trak_atom : ℤ
  atom : ℕ
  entry : Option ℕ

/-- The pointers of a trak. The table of sample sizes can be the special pointer -1, for no memory. -/
structure TrakTables where
  edit_list_table : Option Block
  chunk_offset_table : Option Block
  sample_size_table : Option Block
  sync_sample_table : Option Block
  sample_to_chunk_table : Option Block
  time_to_sample_table : Option Block
  decoder_config : Option Block
  stsd_atoms : Option Block
  /-- The `video.properties_atom` of the entries. -/
  properties_atoms : List (Option Block)

namespace TrakTables

/-- A trak without memory. -/
def initial : TrakTables := ⟨none, none, none, none, none, none, none, none, []⟩

/-- The memory that a trak refers to, in the order in which it is freed. -/
def blocks (tables : TrakTables) : List Block :=
  [tables.edit_list_table, tables.chunk_offset_table, tables.sample_size_table, tables.sync_sample_table,
    tables.sample_to_chunk_table, tables.time_to_sample_table, tables.decoder_config].reduceOption ++
      tables.properties_atoms.reduceOption ++ [tables.stsd_atoms].reduceOption

end TrakTables

/-- A trak with its memory. -/
structure HeldTrak where
  trak : QtTrak
  tables : TrakTables

/-- What `parse_trak_atom` comes to. A trak that is rejected has the pointers to what was freed still. -/
inductive TrakParse where
  | loaded (held : HeldTrak)
  | rejected (last_error : QtError) (held : HeldTrak) (freed : List Block)
  | crashed

/-- What a moov atom is parsed with: the machine, the moov atom, and whether there is memory for an atom of the
trak atom at a place, and for the entries of that atom. -/
structure MoovSource where
  x86 : Bool
  bigEndian : Bool
  moov : MoovBuffer
  memory : ℤ → ℕ → Option ℕ → Bool

namespace MoovSource

variable (src : MoovSource)

/-- The trak atom at a place. -/
def trakSource (place : ℤ) : TrakSource where
  x86 := src.x86
  bigEndian := src.bigEndian
  memory i := src.memory place i none
  mem i := src.moov.mem (place + i)

/-- Memory, if there is any. -/
def alloc (place : ℤ) (i : ℕ) (entry : Option ℕ) : Option Block :=
  if src.memory place i entry then some ⟨place, i, entry⟩ else none

/-! ## Parts of atoms -/

/-- A byte of a trak atom. -/
def byte (place j : ℤ) : Byte := (src.trakSource place).mem (Int.bmod j (2 ^ 32))

/-- The loop of `mp4_read_descr_len`, with where it comes to and the length. -/
def mp4ReadDescrLen (place : ℤ) : ℕ → ℤ → Word → ℤ × Word
  | 0, j, length => (j, length)
  | n + 1, j, length =>
    let b := src.byte place j
    let length := (length <<< 7) ||| (b &&& 0x7F).setWidth 32
    if b &&& 0x80 ≠ 0 then mp4ReadDescrLen place n (j + 1) length else (j + 1, length)

/-- The length of the decoder config in an esds atom. -/
def esdsLength (place : ℤ) (i : ℕ) : Option Word :=
  let descr (j : ℤ) := src.mp4ReadDescrLen place 4 j 0
  let j : ℤ := i + 8
  let j := if src.byte place j = 0x03 then (descr (j + 1)).1 + 1 else j + 1
  let j := j + 2
  if src.byte place j = 0x04 then
    let j := (descr (j + 1)).1 + 13
    if src.byte place j = 0x05 then some (descr (j + 1)).2 else none
  else none

/-- The entries of a stsd atom from the one at a position on. Bytes are copied to memory that may not be there.
The pointer of an audio entry is not where that of a video entry is. -/
def propertiesAtoms (place : ℤ) (i : ℕ) (type : MediaType) : List ℕ → Word → Option (List (Option Block))
  | [], _ => some []
  | k :: ks, atom_pos => do
    let current_stsd_atom_size := BitVec.ofNat 32 (word (src.trakSource place).mem (atom_pos - 4).toNat)
    let rest := propertiesAtoms place i type ks (atom_pos + current_stsd_atom_size)
    let properties_atom := src.alloc place i (some k)
    if type = .other then rest.map (none :: ·)
    else if properties_atom = none ∧ current_stsd_atom_size - 4 ≠ 0 then none
    else rest.map ((if type = .video then properties_atom else none) :: ·)

/-- The memory of a trak when an atom of it has been loaded. -/
def allocate (place : ℤ) (held : HeldTrak) (i : ℕ) : Option TrakTables :=
  let trak := src.trakSource place
  let atom := (trak.be i).toNat
  let tables := held.tables
  let table := src.alloc place i none
  if atom = elstAtom then some { tables with edit_list_table := table }
  else if atom = stsdAtom then do
    let count := (trak.be (i + 8)).toNat
    let properties_atoms ← src.propertiesAtoms place i held.trak.type (List.range count)
      (BitVec.ofNat 32 (i + 0x10))
    some { tables with stsd_atoms := table, properties_atoms }
  else if atom = esdsAtom then
    if held.trak.type = .other then some tables
    else match src.esdsLength place i with
      | none => some tables
      | some len =>
        -- no bytes of memory are freed memory
        if len = 0 then
          some { tables with decoder_config := if tables.decoder_config.isSome then none else table }
        else if table = none then none
        else some { tables with decoder_config := table }
  else if atom = stszAtom then
    some { tables with sample_size_table := if trak.be (i + 8) = 0 then table else none }
  else if atom = stssAtom then some { tables with sync_sample_table := table }
  else if atom = stcoAtom ∨ atom = co64Atom then some { tables with chunk_offset_table := table }
  else if atom = stscAtom then some { tables with sample_to_chunk_table := table }
  else if atom = sttsAtom then some { tables with time_to_sample_table := table }
  else some tables

/-- What is at `free_trak`, when a trak is given up at an atom. If there is no memory for the entries of a stsd
atom, they are looked at all the same. -/
def freeTrak (place : ℤ) (held : HeldTrak) (i : ℕ) : TrakFailure → TrakParse
  | .headerTrouble => .rejected .headerTrouble held held.tables.blocks
  | .noMemory =>
    let trak := src.trakSource place
    let count := (trak.be (i + 8)).toNat
    if (trak.be i).toNat = stsdAtom then
      if 0 < count ∧ count < 2 ^ 31 then .crashed
      else
        let held := { held with tables := { held.tables with stsd_atoms := none, properties_atoms := [] } }
        .rejected .noMemory held held.tables.blocks
    else .rejected .noMemory held held.tables.blocks
  | .fault => .crashed

/-- An iteration of the loop that searches for the useful atoms, with the memory. -/
def trakStep (place : ℤ) (held : HeldTrak) (i : ℕ) : Except TrakParse HeldTrak :=
  match (src.trakSource place).atomStep held.trak i with
  | .ok trak =>
    match src.allocate place held i with
    | some tables => .ok ⟨trak, tables⟩
    | none => .error .crashed
  | .error failure => .error (src.freeTrak place held i failure)

/-- `parse_trak_atom` for the trak atom at a place. -/
def parseTrakAtom (place : ℤ) : TrakParse :=
  let trak := src.trakSource place
  match trak.indexes.foldlM (src.trakStep place) ⟨TrakSource.initialTrak trak.mediaType, .initial⟩ with
  | .ok held => .loaded held
  | .error parse => parse

end MoovSource

/-- `qt_info`: the movie header, the traks, and the error. -/
structure QtInfo where
  creation_time : Word
  modification_time : Word
  timescale : Word
  duration : Word
  traks : List HeldTrak
  last_error : QtError

/-- What `create_qt_info` makes. -/
def QtInfo.create : QtInfo := ⟨0, 0, 0, 0, [], .ok⟩

/-- The loop of `parse_moov_atom`: the index, and what has been collected. -/
structure MoovLoop where
  i : ℤ
  info : QtInfo

/-- What an iteration of the loop comes to. -/
inductive MoovRound where
  | next (loop : MoovLoop)
  | done (info : QtInfo)
  | crashed

namespace MoovSource

variable (src : MoovSource)

def parseMvhdAtom (info : QtInfo) (place : ℤ) : QtInfo :=
  let field (offset : ℤ) : Word := BitVec.ofNat 32 (word src.moov.mem (place + offset))
  { info with
    creation_time := field 0x0C
    modification_time := field 0x10
    timescale := field 0x14
    duration := field 0x18 }

/-- The trak structure is there before the trak atom is parsed, and what `parse_trak_atom` returns is not looked
at. -/
def trakRound (i j : ℤ) (info : QtInfo) : MoovRound :=
  match src.parseTrakAtom (i - 4) with
  | .loaded held | .rejected _ held _ =>
    let traks := info.traks ++ [held]
    if info.last_error ≠ .ok then .done { info with traks := traks.dropLast }
    else .next ⟨j, { info with traks }⟩
  | .crashed => .crashed

/-- An iteration of the loop. -/
def round (loop : MoovLoop) : MoovRound :=
  match src.moov.scan loop.i with
  | none => .done loop.info
  | some j =>
    let atom := word src.moov.mem loop.i
    if atom = mvhdAtom then
      let info := src.parseMvhdAtom loop.info (loop.i - 4)
      if info.last_error ≠ .ok then .done info else .next ⟨j, info⟩
    else if atom = trakAtom then src.trakRound loop.i j loop.info
    else .next ⟨j, loop.info⟩

/-- The loop goes on. -/
def step (loop : MoovLoop) : Option MoovLoop :=
  match src.round loop with
  | .next loop => some loop
  | .done _ | .crashed => none

/-- Where the loop begins. -/
def start : MoovLoop := ⟨atomPreambleSize, .create⟩

/-- `parse_moov_atom` comes to its loop, and the loop comes to a state. -/
def Comes (loop : MoovLoop) : Prop := src.moov.IsMoov ∧ Reaches src.step start loop

/-- `parse_moov_atom` collects the traks of a `qt_info`, which it then builds the frame tables of. -/
def Collects (info : QtInfo) : Prop :=
  if src.moov.IsMoov then ∃ loop, Reaches src.step start loop ∧ src.round loop = .done info
  else info = { QtInfo.create with last_error := .noMoovAtom }

end MoovSource

end Xine.Qt
