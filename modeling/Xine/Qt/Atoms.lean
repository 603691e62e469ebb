import Xine.Library.Octets
import Xine.Library.Walks

/-!
# The atoms of a QuickTime file

`find_moov_atom` and the scan loop of `parse_moov_atom` of `demux_qt.c`: the walk over the
top level atoms of a file, and the walk over the bytes of the moov atom. `BE_32` is an unsigned number on
x86 and a signed one elsewhere, which matters where it is widened to an offset of 64 bits.
-/

namespace Xine.Qt

open Walks

abbrev Byte := BitVec 8

def qtAtom (ch0 ch1 ch2 ch3 : Char) : ℕ :=
  ch3.toNat ||| ch2.toNat <<< 8 ||| ch1.toNat <<< 16 ||| ch0.toNat <<< 24

def freeAtom : ℕ := qtAtom 'f' 'r' 'e' 'e'

def moovAtom : ℕ := qtAtom 'm' 'o' 'o' 'v'

def cmovAtom : ℕ := qtAtom 'c' 'm' 'o' 'v'

def mvhdAtom : ℕ := qtAtom 'm' 'v' 'h' 'd'

def trakAtom : ℕ := qtAtom 't' 'r' 'a' 'k'

def rmdaAtom : ℕ := qtAtom 'r' 'm' 'd' 'a'

/-- The other top level atoms. -/
def topLevelAtoms : List ℕ :=
  [freeAtom, qtAtom 'j' 'u' 'n' 'k', qtAtom 'm' 'd' 'a' 't', qtAtom 'p' 'n' 'o' 't',
    qtAtom 's' 'k' 'i' 'p', qtAtom 'w' 'i' 'd' 'e', qtAtom 'P' 'I' 'C' 'T', qtAtom 'f' 't' 'y' 'p']

def atomPreambleSize : ℕ := 8

/-- The four bytes at a place. -/
def word (mem : ℤ → Byte) (i : ℤ) : ℕ := Octets.ofBig [mem i, mem (i + 1), mem (i + 2), mem (i + 3)]

/-- The four bytes as a signed number, or as `BE_32` has it on x86. -/
def be32 (x86 : Bool) (mem : ℤ → Byte) (i : ℤ) : ℤ :=
  if x86 then word mem i else Int.bmod (word mem i) (2 ^ 32)

/-! ## Top level atoms -/

/-- A file. Its length is an offset. -/
structure QtFile where
  bytes : List Byte
  length_lt : bytes.length < 2 ^ 63

namespace QtFile

/-- The bytes at their positions. -/
def mem (file : QtFile) (i : ℤ) : Byte := file.bytes.getD i.toNat 0

/-- The number of bytes. -/
def length (file : QtFile) : ℕ := file.bytes.length

end QtFile

/-- `seek` of the input with `SEEK_CUR`. To a position that is not an offset it fails, and the position
stays. -/
def seekCur (pos : ℕ) (offset : ℤ) : ℕ :=
  if pos + offset < 0 ∨ 2 ^ 63 ≤ pos + offset then pos else (pos + offset).toNat

/-- The 64 bit length of an atom, of a signed type. A low word that is signed is widened before it is
combined. -/
def extendedSize (x86 : Bool) (mem : ℤ → Byte) (i : ℤ) : ℤ :=
  let high := word mem i
  let low := word mem (i + 4)
  if x86 = false ∧ 2 ^ 31 ≤ low then low - 2 ^ 32 else Int.bmod (high * 2 ^ 32 + low) (2 ^ 64)

/-- What an iteration of `find_moov_atom` comes to. -/
inductive Search where
  | next (pos : ℕ)
  | found (moov_offset moov_size : ℤ)
  | stop

/-- An iteration of the loop of `find_moov_atom`. -/
def findMoovStep (x86 : Bool) (file : QtFile) (pos : ℕ) : Search :=
  if file.length < pos + atomPreambleSize then .stop
  else
    let atom_size := be32 x86 file.mem pos
    let atom := word file.mem (pos + 4)
    -- a free atom with a cmov or mvhd atom in it is a moov atom
    if atom = freeAtom ∧ file.length < pos + 2 * atomPreambleSize then .stop
    else if atom = freeAtom ∧
        (word file.mem (pos + 12) = cmovAtom ∨ word file.mem (pos + 12) = mvhdAtom) then
      .found pos atom_size
    else if atom = moovAtom then .found pos atom_size
    else if atom ∉ topLevelAtoms then .stop
    else
      let atom_size := if atom_size = 0 then 8 else atom_size
      if atom_size = 1 then
        if file.length < pos + 2 * atomPreambleSize then .stop
        else
          .next (seekCur (pos + 2 * atomPreambleSize)
            (Int.bmod (extendedSize x86 file.mem (pos + 8) - 2 * atomPreambleSize) (2 ^ 64)))
      else .next (seekCur (pos + atomPreambleSize) (atom_size - atomPreambleSize))

/-- The walk over the top level atoms. -/
def findMoovWalk (x86 : Bool) (file : QtFile) (pos : ℕ) : Option ℕ :=
  match findMoovStep x86 file pos with
  | .next pos => some pos
  | .found .. | .stop => none

/-! ## The moov atom -/

/-- A moov atom in memory. -/
structure MoovBuffer where
  /-- The memory from the first byte on, and what is around it. -/
  mem : ℤ → Byte
  /-- How many bytes were allocated. -/
  length : ℕ

namespace MoovBuffer

def moov_atom_size (moov : MoovBuffer) : ℕ := word moov.mem 0

/-- The condition of the loop. The index and the size are compared as unsigned numbers. -/
def Scans (moov : MoovBuffer) (i : ℤ) : Prop :=
  i % 2 ^ 32 < ((moov.moov_atom_size : ℤ) - 4) % 2 ^ 32

instance {moov : MoovBuffer} {i : ℤ} : Decidable (moov.Scans i) := by
  unfold Scans
  infer_instance

/-- The loop of `parse_moov_atom`, which is at the type of an atom. An `int` is added to and goes on. -/
def scan (moov : MoovBuffer) (i : ℤ) : Option ℤ :=
  if moov.Scans i then
    let atom := word moov.mem i
    if atom = mvhdAtom ∨ atom = trakAtom then
      some (Int.bmod (Int.bmod (i + word moov.mem (i - 4) - 4) (2 ^ 32) + 1) (2 ^ 32))
    else some (Int.bmod (i + 1) (2 ^ 32))
  else none

/-- The atom that an iteration hands on to `parse_mvhd_atom`, `parse_trak_atom` or
`parse_reference_atom`: its place and its size. -/
def handsOn (moov : MoovBuffer) (i : ℤ) : Option (ℤ × ℕ) :=
  if moov.Scans i ∧ word moov.mem i ∈ [mvhdAtom, trakAtom, rmdaAtom] then
    some (i - 4, word moov.mem (i - 4))
  else none

end MoovBuffer

end Xine.Qt

/-!
## The walks over atoms end

The search for the moov atom goes on behind an atom by its length, and the loop over the moov atom behind some of
the atoms in it.
-/

namespace Xine.Qt

open Walks

variable {x86 : Bool} {file : QtFile} {pos q : ℕ} {moov : MoovBuffer} {i j : ℤ}

theorem word_lt (mem : ℤ → Byte) (i : ℤ) : word mem i < 2 ^ 32 := Octets.ofBig_lt _

/-! ## Top level atoms -/

/-- The length of the atom at a position does not lead to it or in front of it. A length that leads in
front of the file does no harm, since the seek fails. -/
def AtomForward (x86 : Bool) (file : QtFile) (pos : ℕ) : Prop :=
  if be32 x86 file.mem pos = 1 then
    ¬(extendedSize x86 file.mem (pos + 8) ≤ 0 ∧ 0 ≤ pos + extendedSize x86 file.mem (pos + 8))
  else ¬(be32 x86 file.mem pos < 0 ∧ 0 ≤ pos + be32 x86 file.mem pos)

theorem seekCur_le (pos : ℕ) (hpos : pos ≤ 2 ^ 63) (offset : ℤ) : seekCur pos offset ≤ 2 ^ 63 := by
  unfold seekCur
  split_ifs <;> omega

theorem lt_seekCur_iff {preamble : ℕ} (hpreamble : 0 < preamble) (hpos : pos < 2 ^ 63) {offset : ℤ} :
    pos < seekCur (pos + preamble) offset ↔ ¬(preamble + offset ≤ 0 ∧ 0 ≤ pos + (preamble + offset)) := by
  unfold seekCur
  split_ifs <;> push_cast at * <;> omega

theorem findMoovWalk_eq_some (h : findMoovWalk x86 file pos = some q) :
    pos + 8 ≤ file.length ∧
      (be32 x86 file.mem pos = 1 ∧ pos + 16 ≤ file.length ∧
          q = seekCur (pos + 16)
            (Int.bmod (extendedSize x86 file.mem (pos + 8) - 16) (2 ^ 64)) ∨
        be32 x86 file.mem pos ≠ 1 ∧
          q = seekCur (pos + 8)
            ((if be32 x86 file.mem pos = 0 then 8 else be32 x86 file.mem pos) - 8)) := by
  unfold findMoovWalk findMoovStep atomPreambleSize at h
  dsimp only at h
  generalize be32 x86 file.mem pos = size at *
  have hone : (if size = 0 then 8 else size) = 1 ↔ size = 1 := by split_ifs <;> omega
  simp only [hone] at h
  generalize (if size = 0 then 8 else size) = skip at *
  split_ifs at h with hend hfree hmoov hfound htop hext hshort
  · cases h
    exact ⟨by omega, .inl ⟨hext, by omega, rfl⟩⟩
  · cases h
    exact ⟨by omega, .inr ⟨hext, rfl⟩⟩

theorem length_lt (file : QtFile) : file.length < 2 ^ 63 := file.length_lt

theorem extendedSize_mem (x86 : Bool) (mem : ℤ → Byte) (i : ℤ) :
    -2 ^ 63 ≤ extendedSize x86 mem i ∧ extendedSize x86 mem i < 2 ^ 63 := by
  have hlow := word_lt mem (i + 4)
  have hle := @Int.le_bmod (word mem i * 2 ^ 32 + word mem (i + 4) : ℤ) (2 ^ 64) (by decide)
  have hlt := @Int.bmod_lt (word mem i * 2 ^ 32 + word mem (i + 4) : ℤ) (2 ^ 64) (by decide)
  unfold extendedSize
  dsimp only
  split_ifs <;> omega

theorem findMoovWalk_lt_iff (h : findMoovWalk x86 file pos = some q) :
    pos < q ↔ AtomForward x86 file pos := by
  have hfile := length_lt file
  obtain ⟨hpos, ⟨hone, hpos', rfl⟩ | ⟨hone, rfl⟩⟩ := findMoovWalk_eq_some h
  · obtain ⟨hlow, hhigh⟩ := extendedSize_mem x86 file.mem (pos + 8)
    unfold AtomForward
    rw [if_pos hone, lt_seekCur_iff (by decide) (by omega)]
    generalize extendedSize x86 file.mem (pos + 8) = size at *
    rw [Int.bmod_def]
    split_ifs <;> omega
  · unfold AtomForward
    rw [if_neg hone, lt_seekCur_iff (by decide) (by omega)]
    split_ifs <;> omega

theorem findMoovWalk_le (h : findMoovWalk x86 file pos = some q) : q ≤ 2 ^ 63 := by
  have hfile := length_lt file
  obtain ⟨hpos, ⟨-, hpos', rfl⟩ | ⟨-, rfl⟩⟩ := findMoovWalk_eq_some h
  · exact seekCur_le _ (by omega) _
  · exact seekCur_le _ (by omega) _

theorem findMoov_advances_iff :
    (Ends (findMoovWalk x86 file) 0 ∧ Advances (findMoovWalk x86 file) (fun pos => (pos : ℤ)) 0) ↔
      ∀ pos, Reaches (findMoovWalk x86 file) 0 pos → (findMoovWalk x86 file pos).isSome →
        AtomForward x86 file pos := by
  constructor
  · rintro ⟨-, hadvances⟩ pos hpos hsome
    obtain ⟨q, hq⟩ := Option.isSome_iff_exists.1 hsome
    exact (findMoovWalk_lt_iff hq).1 (Int.ofNat_lt.1 (hadvances pos hpos q hq))
  · intro hall
    have hadvances : Advances (findMoovWalk x86 file) (fun pos => (pos : ℤ)) 0 := by
      intro pos hpos q hq
      have hlt := (findMoovWalk_lt_iff hq).2 (hall pos hpos (by rw [hq]; rfl))
      exact Int.ofNat_lt.2 hlt
    refine ⟨@Advances.ends _ _ _ _ (2 ^ 63) hadvances fun pos _ q hq => ?_, hadvances⟩
    exact_mod_cast findMoovWalk_le hq

/-! ## The moov atom -/

namespace MoovBuffer

/-- The atom at an index goes on and lies in the buffer, if it is one that is looked for. -/
def Forward (moov : MoovBuffer) (i : ℤ) : Prop :=
  let atom := word moov.mem i
  let size := word moov.mem (i - 4)
  (if atom = mvhdAtom ∨ atom = trakAtom then 4 ≤ size ∧ i + size - 3 < 2 ^ 31 else i + 1 < 2 ^ 31) ∧
    (atom ∈ [mvhdAtom, trakAtom, rmdaAtom] → i - 4 + size ≤ moov.length)

theorem bmod_lt_int (x : ℤ) : -2 ^ 31 ≤ Int.bmod x (2 ^ 32) ∧ Int.bmod x (2 ^ 32) < 2 ^ 31 := by
  have hle := @Int.le_bmod x (2 ^ 32) (by decide)
  have hlt := @Int.bmod_lt x (2 ^ 32) (by decide)
  omega

theorem scan_lt_iff (hi : 8 ≤ i) (hlt : i < 2 ^ 31) (h : moov.scan i = some j) :
    i < j ↔ if word moov.mem i = mvhdAtom ∨ word moov.mem i = trakAtom then
      4 ≤ word moov.mem (i - 4) ∧ i + word moov.mem (i - 4) - 3 < 2 ^ 31 else i + 1 < 2 ^ 31 := by
  have hsize := word_lt moov.mem (i - 4)
  unfold scan at h
  dsimp only at h
  generalize word moov.mem (i - 4) = size at *
  split_ifs at h ⊢ with hscans hatom
  · cases h
    simp only [Int.bmod_def]
    split_ifs <;> omega
  · cases h
    simp only [Int.bmod_def]
    split_ifs <;> omega

theorem scan_lt (h : moov.scan i = some j) : j < 2 ^ 31 := by
  unfold scan at h
  dsimp only at h
  split_ifs at h
  all_goals
    cases h
    exact (bmod_lt_int _).2

/-- The indexes of an atom in memory. -/
def Indexes (i : ℤ) : Prop := 8 ≤ i ∧ i < 2 ^ 31

/-- The loop ends, each iteration of it goes on in the buffer, and the atoms that it hands on lie in the
buffer. -/
def Sound (moov : MoovBuffer) : Prop :=
  Ends moov.scan atomPreambleSize ∧ Advances moov.scan id atomPreambleSize ∧
    ∀ i, Reaches moov.scan atomPreambleSize i → ∀ place size, moov.handsOn i = some (place, size) →
      0 ≤ place ∧ place + size ≤ moov.length

theorem reaches_mem (hadvances : Advances moov.scan id atomPreambleSize)
    (h : Reaches moov.scan atomPreambleSize i) : Indexes i := by
  have hstart : Indexes atomPreambleSize := ⟨by decide, by decide⟩
  refine h.invariant hstart fun i hi hmem j hj => ?_
  have hlt : i < j := hadvances i hi j hj
  exact ⟨hmem.1.trans hlt.le, scan_lt hj⟩

theorem isSome_scan_iff : (moov.scan i).isSome ↔ moov.Scans i := by
  unfold scan
  dsimp only
  split_ifs with h h'
  · exact iff_of_true rfl h
  · exact iff_of_true rfl h
  · exact iff_of_false (by decide) h

theorem sound_iff :
    moov.Sound ↔ ∀ i, Reaches moov.scan atomPreambleSize i → moov.Scans i → moov.Forward i := by
  constructor
  · rintro ⟨-, hadvances, hinside⟩ i hi hscans
    obtain ⟨hge, hlt⟩ := reaches_mem hadvances hi
    obtain ⟨j, hj⟩ := Option.isSome_iff_exists.1 (isSome_scan_iff.2 hscans)
    refine ⟨(scan_lt_iff hge hlt hj).1 (hadvances i hi j hj), fun hatom => ?_⟩
    refine (hinside i hi (i - 4) (word moov.mem (i - 4)) ?_).2
    unfold handsOn
    rw [if_pos ⟨hscans, hatom⟩]
  · intro hall
    have hmem : ∀ i, Reaches moov.scan atomPreambleSize i → Indexes i := by
      intro i hi
      have hstart : Indexes atomPreambleSize := ⟨by decide, by decide⟩
      refine hi.invariant hstart fun i hi hmem j hj => ?_
      have hscans : moov.Scans i := isSome_scan_iff.1 (by rw [hj]; rfl)
      have hlt := (scan_lt_iff hmem.1 hmem.2 hj).2 (hall i hi hscans).1
      exact ⟨hmem.1.trans hlt.le, scan_lt hj⟩
    have hadvances : Advances moov.scan id atomPreambleSize := by
      intro i hi j hj
      have hscans : moov.Scans i := isSome_scan_iff.1 (by rw [hj]; rfl)
      exact (scan_lt_iff (hmem i hi).1 (hmem i hi).2 hj).2 (hall i hi hscans).1
    refine ⟨hadvances.ends fun i _ j hj => (scan_lt hj).le, hadvances, fun i hi place size h => ?_⟩
    unfold handsOn at h
    split_ifs at h with hatom
    obtain ⟨rfl, rfl⟩ := Prod.mk.inj (Option.some.inj h)
    have hge := (hmem i hi).1
    exact ⟨by omega, (hall i hi hatom.1).2 hatom.2⟩

end MoovBuffer

/-- `parse_moov_atom` looks at a moov atom, or a free atom that is taken for one. -/
def MoovBuffer.IsMoov (moov : MoovBuffer) : Prop := word moov.mem 4 = moovAtom ∨ word moov.mem 4 = freeAtom

instance {moov : MoovBuffer} : Decidable moov.IsMoov := by
  unfold MoovBuffer.IsMoov
  infer_instance

/-- Both walks end, go on at each step, and hand on atoms in the buffer only, if and only if the lengths of
the atoms that they come to do not lead back, nor out of the buffer. -/
theorem atom_walks_sound_iff (x86 : Bool) (file : QtFile) (moov : MoovBuffer) :
    ((Ends (findMoovWalk x86 file) 0 ∧ Advances (findMoovWalk x86 file) (fun pos => (pos : ℤ)) 0) ↔
      ∀ pos, Reaches (findMoovWalk x86 file) 0 pos → (findMoovWalk x86 file pos).isSome →
        AtomForward x86 file pos) ∧
    ((moov.IsMoov → moov.Sound) ↔ (moov.IsMoov →
      ∀ i, Reaches moov.scan atomPreambleSize i → moov.Scans i → moov.Forward i)) :=
  ⟨findMoov_advances_iff, imp_congr_right fun _ => MoovBuffer.sound_iff⟩

/-- A file with the given bytes. -/
def fileOf (bytes : List Byte) (h : bytes.length < 2 ^ 63) : QtFile := ⟨bytes, h⟩

/-- An mdat atom with a 64 bit length of zero. -/
def emptyMdat : QtFile :=
  fileOf [0, 0, 0, 1, 0x6d, 0x64, 0x61, 0x74, 0, 0, 0, 0, 0, 0, 0, 0] (by decide)

/-- A moov atom with a trak atom that is three bytes long. -/
def shortTrak : MoovBuffer :=
  ⟨fun i => [0, 0, 0, 24, 0x6d, 0x6f, 0x6f, 0x76, 0, 0, 0, 3, 0x74, 0x72, 0x61, 0x6b].getD i.toNat 0, 24⟩

/-- The search stays at the mdat atom, and the loop at the trak atom. -/
theorem atom_walks_stay :
    ¬Ends (findMoovWalk true emptyMdat) 0 ∧ shortTrak.IsMoov ∧ Reaches shortTrak.scan 8 12 ∧
      ¬Ends shortTrak.scan 12 := by
  have hreach : Reaches shortTrak.scan 8 12 :=
    (((reaches_refl.next (u := 9) (by decide)).next (u := 10) (by decide)).next (u := 11)
      (by decide)).next (u := 12) (by decide)
  exact ⟨not_ends_of_step_self (by decide), by decide, hreach, not_ends_of_step_self (by decide)⟩

end Xine.Qt
