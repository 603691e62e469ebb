import Xine.DemuxTs.Pes
import Xine.Library.Registers

/-!
# Damaged sections

The checksum of `demux_ts_compute_crc32` is a register with a table. A section is not accepted when up to four bytes in
a row are damaged, of the section or of its checksum.
-/

namespace Xine.DemuxTs

variable {mem mem' : ℕ → Byte} {start n a i : ℕ}

def crc32TableAt (i : Byte) : BitVec 32 := crc32Table (i.setWidth 32)

/-- The index of the entry whose last byte is the first one of `w`, bit by bit. -/
def indexOf (w : BitVec 32) : Byte :=
  ([0xa9, 0x57, 0xae, 0x59, 0xb2, 0x61, 0xc3, 0x82].zipIdx.map fun (i, k) =>
    if w.getLsbD (24 + k) then i else 0).foldl (· ^^^ ·) 0

theorem indexOf_crc32TableAt : ∀ i, indexOf (crc32TableAt i <<< 24) = i := by decide +kernel

theorem crc32TableAt_injective (i j : Byte) (h : crc32TableAt i <<< 24 = crc32TableAt j <<< 24) : i = j := by
  rw [← indexOf_crc32TableAt i, h, indexOf_crc32TableAt]

/-- The register behind some bytes. -/
abbrev register (bytes : List Byte) (c : BitVec 32) : BitVec 32 := bytes.foldl (ShiftRegister.step crc32TableAt) c

theorem demuxTsComputeCrc32_eq :
    demuxTsComputeCrc32 mem start n = register (Memory.slice mem start n) 0xffffffff := by
  have hindex (c : BitVec 32) (b : Byte) :
      c >>> 24 ^^^ b.setWidth 32 = (c.extractLsb' 24 8 ^^^ b).setWidth 32 := by
    rw [BitVec.setWidth_xor]
    congr 1
    ext i hi
    by_cases hlow : i < 8
    · simp [hlow]
    · simp [hlow, BitVec.getLsbD_of_ge c (24 + i) (by omega)]
  unfold demuxTsComputeCrc32 register ShiftRegister.step crc32TableAt
  simp only [hindex]

theorem toNat_append_byte {w : ℕ} (c : BitVec w) (b : Byte) : (c ++ b).toNat = c.toNat * 256 + b.toNat := by
  rw [BitVec.toNat_append, ← Nat.shiftLeft_add_eq_or_of_lt b.isLt, Nat.shiftLeft_eq]

theorem slice_four : Memory.slice mem i 4 =
    [(readWord mem i).extractLsb' 24 8, (readWord mem i <<< 8).extractLsb' 24 8,
      (readWord mem i <<< 8 <<< 8).extractLsb' 24 8, (readWord mem i <<< 8 <<< 8 <<< 8).extractLsb' 24 8] := by
  change [mem i, mem (i + 1), mem (i + 2), mem (i + 3)] = _
  congr
  all_goals
    apply BitVec.eq_of_toNat_eq
    simp only [readWord, BitVec.extractLsb'_toNat, BitVec.toNat_shiftLeft, toNat_append_byte, Nat.shiftLeft_eq,
      Nat.shiftRight_eq_div_pow]
    omega

/-- Four bytes of the memory may be added to the register as a word. -/
theorem register_slice {p r : ℕ} : register (Memory.slice mem start (p + (4 + r))) 0xffffffff =
    register (Memory.slice mem (start + p + 4) r) (register [0#8, 0#8, 0#8, 0#8]
      (register (Memory.slice mem start p) 0xffffffff ^^^ readWord mem (start + p))) := by
  unfold register
  rw [Memory.slice_add, Memory.slice_add, List.foldl_append, List.foldl_append, slice_four, ShiftRegister.foldl_word]

/-- The register is zero behind an accepted section with its checksum. -/
theorem accepted (h : readWord mem (start + n) = demuxTsComputeCrc32 mem start n) :
    register (Memory.slice mem start (n + (4 + 0))) 0xffffffff = 0#32 := by
  rw [register_slice, h, demuxTsComputeCrc32_eq, BitVec.xor_self, show Memory.slice mem (start + n + 4) 0 = [] from rfl]
  decide +kernel

/-- A section with its checksum is not accepted both before and after damage of up to four bytes in a row. -/
theorem not_accepted_damaged (h : readWord mem (start + n) = demuxTsComputeCrc32 mem start n)
    (hsame : ∀ i, mem i ≠ mem' i → a ≤ i ∧ i < a + 4) (hi : start ≤ i ∧ i < start + (n + 4)) (hne : mem i ≠ mem' i) :
    readWord mem' (start + n) ≠ demuxTsComputeCrc32 mem' start n := by
  intro h'
  obtain ⟨hle, hlt⟩ := hsame i hne
  -- before the damage, four bytes that cover it, and behind them
  obtain ⟨p, r, hn, hp, hr, hpi⟩ : ∃ p r, n + (4 + 0) = p + (4 + r) ∧ (0 < p → start + p ≤ a) ∧
      (0 < r → a + 4 ≤ start + p + 4) ∧ start + p ≤ i ∧ i < start + p + 4 :=
    ⟨min (a - start) n, n - min (a - start) n, by omega, by omega, by omega, by omega⟩
  have hsame' : ∀ j, j < a ∨ a + 4 ≤ j → mem j = mem' j := fun j hj => by
    by_contra hne
    have := hsame j hne
    omega
  have heq := (accepted h).trans (accepted h').symm
  have hfirst : Memory.slice mem start p = Memory.slice mem' start p :=
    Memory.slice_congr fun j hj => hsame' _ (by omega)
  have hlast : Memory.slice mem (start + p + 4) r = Memory.slice mem' (start + p + 4) r :=
    Memory.slice_congr fun j hj => hsame' _ (by omega)
  rw [hn, register_slice, register_slice, hfirst, hlast] at heq
  have hword := (BitVec.xor_right_inj _).1 (ShiftRegister.foldl_step_injective crc32TableAt_injective
    (ShiftRegister.foldl_step_injective crc32TableAt_injective heq))
  have hbytes : Memory.slice mem (start + p) 4 = Memory.slice mem' (start + p) 4 := by rw [slice_four, hword, slice_four]
  refine hne ?_
  have hat := congrArg (fun bytes => bytes[i - (start + p)]?) hbytes
  simpa [Memory.slice, show i - (start + p) < 4 by omega, show start + p + (i - (start + p)) = i by omega] using hat

/-- An association table is not accepted any more when up to four bytes in a row behind its length are damaged. -/
theorem patPrograms_damaged {p q : Packet} {offset pkt section_length : ℕ} {programs : List (ℕ × ℕ)}
    (hpkt : pkt = offset + p.byte (offset + 4))
    (hlength : section_length = (p.byte (pkt + 6) &&& 0x03) <<< 8 ||| p.byte (pkt + 7))
    (h : patPrograms p offset = .ok programs) (hprograms : programs ≠ [])
    (hsame : ∀ i, p.mem i ≠ q.mem i → a ≤ i ∧ i < a + 4) (hbehind : pkt + 8 ≤ a)
    (hdamaged : ∃ i < pkt + 8 + section_length, p.mem i ≠ q.mem i) : patPrograms q offset = .ok [] := by
  obtain ⟨i, hi, hne⟩ := hdamaged
  have hle := (hsame i hne).1
  have hbefore : ∀ i < a, q.byte i = p.byte i := fun i hi => by
    by_contra hne
    have := hsame i fun heq => hne (by rw [Packet.byte, Packet.byte, heq])
    omega
  have hstart : q.payload_unit_start_indicator = p.payload_unit_start_indicator := by
    rw [Packet.payload_unit_start_indicator, hbefore 1 (by omega), Packet.payload_unit_start_indicator]
  have hnil : ∀ {c : Prop} [Decidable c] {r : Except Fault (List (ℕ × ℕ))},
      (if c then .ok [] else r) = .ok programs → r = .ok programs := fun h => by
    split_ifs at h
    · exact absurd (Except.ok.inj h).symm hprograms
    · exact h
  unfold patPrograms at h ⊢
  rw [hstart, hbefore _ (by omega), ← hpkt]
  rw [← hpkt] at h
  dsimp only at h ⊢
  rw [hbefore (pkt + 6) (by omega), hbefore (pkt + 7) (by omega), ← hlength]
  rw [← hlength] at h
  have hchecked := hnil (hnil (hnil (hnil (hnil h))))
  split_ifs at hchecked with hzero hcrc
  · exact absurd (Except.ok.inj hchecked).symm hprograms
  have hsum : pkt + 5 + (section_length + 3 - 4) = pkt + 4 + section_length := by omega
  rw [not_not, ← hsum] at hcrc
  have hrejected := not_accepted_damaged hcrc hsame (by omega) hne
  rw [hsum] at hrejected
  simp only [hzero, hrejected, ne_eq, not_false_eq_true, if_true, if_false, ite_self]

/-- A packet with an association table of one program, whose map table has a pid. -/
def tablePacket (pid : Byte) : Packet where
  mem i := if i = 16 then pid else [71, 64, 0, 16, 0, 0, 128, 13, 0, 1, 1, 0, 0, 0, 1, 0, 0, 27, 187, 228, 111].getD i 0
  pos := 0
  fresh _ := 0
  behind _ := 0

theorem patPrograms_damaged_pid :
    patPrograms (tablePacket 32) 0 = .ok [(1, 32)] ∧ patPrograms (tablePacket 33) 0 = .ok [] := by
  have haccepted : patPrograms (tablePacket 32) 0 = .ok [(1, 32)] := by rfl
  refine ⟨haccepted, patPrograms_damaged (a := 16) (show 0 = _ by decide) (show 13 = _ by decide) haccepted
    (List.cons_ne_nil _ _) (fun i hne => ?_) (by decide) ⟨16, by decide, by decide⟩⟩
  by_contra hi
  exact hne ((if_neg (by omega)).trans (if_neg (by omega)).symm)

end Xine.DemuxTs
