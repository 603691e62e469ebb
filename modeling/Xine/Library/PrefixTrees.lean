import Xine.Library.Octets

/-!
# Codes along the paths of trees

A binary tree with letters at its leaves codes a letter as the path to it. In a text each letter is coded with
the tree of the letter before it. A walk down the trees takes a text back off the front of its code
(`decode_iff`), whatever comes behind, because no path goes on where another one ends.

Bits are stored in bytes, the least significant bit first.
-/

namespace PrefixTrees

open Octets (Byte)

/-- A binary tree in which every inner node has two children. -/
inductive CodeTree (α : Type*)
  | leaf (a : α)
  | node (zero one : CodeTree α)

variable {α : Type*} {t zero one : CodeTree α} {a : α} {bits code rest : List Bool}

namespace CodeTree

def leaves : CodeTree α → List α
  | leaf a => [a]
  | node zero one => zero.leaves ++ one.leaves

/-- The letter that the bits lead to, and the bits behind its path. -/
def walk : CodeTree α → List Bool → Option (α × List Bool)
  | leaf a, bits => some (a, bits)
  | node _ _, [] => none
  | node zero one, bit :: bits => if bit then one.walk bits else zero.walk bits

/-- The path to a letter. -/
inductive Path : CodeTree α → α → List Bool → Prop
  | leaf (a : α) : Path (leaf a) a []
  | zero {zero one : CodeTree α} {a : α} {bits : List Bool} (h : Path zero a bits) :
      Path (node zero one) a (false :: bits)
  | one {zero one : CodeTree α} {a : α} {bits : List Bool} (h : Path one a bits) :
      Path (node zero one) a (true :: bits)

theorem Path.walk_append (h : Path t a bits) (rest : List Bool) : t.walk (bits ++ rest) = some (a, rest) := by
  induction h with
  | leaf a => rfl
  | zero h ih => exact ih
  | one h ih => exact ih

theorem path_of_walk (h : t.walk bits = some (a, rest)) : ∃ code, Path t a code ∧ bits = code ++ rest := by
  induction t generalizing bits with
  | leaf b =>
    obtain ⟨rfl, rfl⟩ := Prod.mk.inj (Option.some.inj h)
    exact ⟨[], .leaf b, rfl⟩
  | node zero one ih0 ih1 =>
    cases bits with
    | nil => exact absurd h.symm (Option.some_ne_none _)
    | cons bit bits =>
      cases bit with
      | false =>
        obtain ⟨code, hpath, rfl⟩ := ih0 h
        exact ⟨false :: code, .zero hpath, rfl⟩
      | true =>
        obtain ⟨code, hpath, rfl⟩ := ih1 h
        exact ⟨true :: code, .one hpath, rfl⟩

theorem exists_path (h : a ∈ t.leaves) : ∃ code, Path t a code := by
  induction t with
  | leaf b =>
    obtain rfl := List.mem_singleton.1 h
    exact ⟨[], .leaf a⟩
  | node zero one ih0 ih1 =>
    obtain h0 | h1 := List.mem_append.1 h
    · obtain ⟨code, hpath⟩ := ih0 h0
      exact ⟨false :: code, .zero hpath⟩
    · obtain ⟨code, hpath⟩ := ih1 h1
      exact ⟨true :: code, .one hpath⟩

end CodeTree

/-! ## Texts -/

section Texts

variable {trees : α → CodeTree α} {prev : α} {text : List α}

/-- The code of a text behind a letter. -/
inductive Coded (trees : α → CodeTree α) : α → List α → List Bool → Prop
  | nil (prev : α) : Coded trees prev [] []
  | cons {prev a : α} {text : List α} {path code : List Bool} (h : (trees prev).Path a path)
      (hrest : Coded trees a text code) : Coded trees prev (a :: text) (path ++ code)

/-- Some letters off the front of the bits. -/
def decode (trees : α → CodeTree α) : ℕ → α → List Bool → Option (List α × List Bool)
  | 0, _, bits => some ([], bits)
  | n + 1, prev, bits =>
    match (trees prev).walk bits with
    | none => none
    | some (a, bits) => (decode trees n a bits).map fun (text, bits) => (a :: text, bits)

theorem Coded.decode_append (h : Coded trees prev text code) (rest : List Bool) :
    decode trees text.length prev (code ++ rest) = some (text, rest) := by
  induction h with
  | nil prev => rfl
  | @cons prev a text path code hpath hrest ih =>
    have hwalk := hpath.walk_append (code ++ rest)
    rw [List.append_assoc, List.length_cons, decode, hwalk]
    exact congrArg (Option.map fun r : List α × List Bool => (a :: r.1, r.2)) ih

theorem decode_iff {n : ℕ} : decode trees n prev bits = some (text, rest) ↔
    text.length = n ∧ ∃ code, Coded trees prev text code ∧ bits = code ++ rest := by
  constructor
  · intro h
    induction n generalizing prev bits text with
    | zero =>
      obtain ⟨rfl, rfl⟩ := Prod.mk.inj (Option.some.inj h)
      exact ⟨rfl, [], .nil prev, rfl⟩
    | succ n ih =>
      unfold decode at h
      cases hwalk : (trees prev).walk bits with
      | none =>
        rw [hwalk] at h
        exact absurd h.symm (Option.some_ne_none _)
      | some r =>
        rw [hwalk] at h
        obtain ⟨⟨text, rest⟩, hdecode, heq⟩ := Option.map_eq_some_iff.1 h
        obtain ⟨rfl, rfl⟩ := Prod.mk.inj heq
        obtain ⟨path, hpath, rfl⟩ := CodeTree.path_of_walk hwalk
        obtain ⟨hlength, code, hcoded, hbits⟩ := ih hdecode
        refine ⟨congrArg Nat.succ hlength, path ++ code, .cons hpath hcoded, ?_⟩
        rw [hbits, List.append_assoc]
  · rintro ⟨rfl, code, hcoded, rfl⟩
    exact hcoded.decode_append rest

end Texts

/-! ## Bits in bytes -/

/-- Some bits of a number, the least significant first. -/
def lowBits : ℕ → ℕ → List Bool
  | 0, _ => []
  | n + 1, v => decide (v % 2 = 1) :: lowBits n (v / 2)

/-- The number with the given bits. -/
def ofBits : List Bool → ℕ
  | [] => 0
  | bit :: bits => bit.toNat + 2 * ofBits bits

/-- The bits of bytes. -/
def bitsOf (bytes : List Byte) : List Bool := bytes.flatMap fun b => lowBits 8 b.toNat

/-- Bits in some bytes. -/
def packBytes : ℕ → List Bool → List Byte
  | 0, _ => []
  | n + 1, bits => BitVec.ofNat 8 (ofBits (bits.take 8)) :: packBytes n (bits.drop 8)

/-- Bits in as many bytes as they need. -/
def packBits (bits : List Bool) : List Byte := packBytes ((bits.length + 7) / 8) bits

theorem length_lowBits (n v : ℕ) : (lowBits n v).length = n := by
  induction n generalizing v with
  | zero => rfl
  | succ n ih => exact congrArg Nat.succ (ih (v / 2))

theorem bitsOf_cons (b : Byte) (bytes : List Byte) : bitsOf (b :: bytes) = lowBits 8 b.toNat ++ bitsOf bytes :=
  List.flatMap_cons

theorem length_bitsOf (bytes : List Byte) : (bitsOf bytes).length = 8 * bytes.length := by
  induction bytes with
  | nil => rfl
  | cons b bytes ih =>
    rw [bitsOf_cons, List.length_append, length_lowBits, ih, List.length_cons]
    omega

theorem ofBits_lt (bits : List Bool) : ofBits bits < 2 ^ bits.length := by
  induction bits with
  | nil => exact Nat.one_pos
  | cons bit bits ih =>
    have hbit := Bool.toNat_lt bit
    rw [List.length_cons, pow_succ]
    unfold ofBits
    omega

theorem prefix_lowBits {n : ℕ} (h : bits.length ≤ n) : bits <+: lowBits n (ofBits bits) := by
  induction bits generalizing n with
  | nil => exact List.nil_prefix
  | cons bit bits ih =>
    obtain ⟨n, rfl⟩ : ∃ m, n = m + 1 := Nat.exists_eq_succ_of_ne_zero (Nat.ne_of_gt (Nat.lt_of_lt_of_le
      (Nat.succ_pos _) h))
    have hbit : decide (ofBits (bit :: bits) % 2 = 1) = bit := by
      cases bit <;> simp [ofBits]
    have hrest : ofBits (bit :: bits) / 2 = ofBits bits := by
      have hlt := Bool.toNat_lt bit
      show (bit.toNat + 2 * ofBits bits) / 2 = ofBits bits
      omega
    unfold lowBits
    rw [hbit, hrest]
    exact (List.prefix_cons_inj bit).2 (ih (Nat.le_of_succ_le_succ h))

theorem prefix_bitsOf_packBytes {n : ℕ} (h : bits.length ≤ 8 * n) : bits <+: bitsOf (packBytes n bits) := by
  induction n generalizing bits with
  | zero =>
    obtain rfl := List.length_eq_zero_iff.1 (Nat.le_zero.1 h)
    exact List.nil_prefix
  | succ n ih =>
    have hbyte : (BitVec.ofNat 8 (ofBits (bits.take 8))).toNat = ofBits (bits.take 8) := by
      have hlt := ofBits_lt (bits.take 8)
      have hle : 2 ^ (bits.take 8).length ≤ 2 ^ 8 := Nat.pow_le_pow_right (by decide) (List.length_take_le 8 bits)
      exact Nat.mod_eq_of_lt (Nat.lt_of_lt_of_le hlt hle)
    have hhead := prefix_lowBits (List.length_take_le 8 bits)
    have hrest : bits.drop 8 <+: bitsOf (packBytes n (bits.drop 8)) := ih (by rw [List.length_drop]; omega)
    unfold packBytes
    rw [bitsOf_cons, hbyte]
    by_cases hshort : bits.length ≤ 8
    · rw [List.take_of_length_le hshort] at hhead ⊢
      exact hhead.trans (List.prefix_append _ _)
    · -- the byte is full, and has these bits only
      have hlength : (bits.take 8).length = (lowBits 8 (ofBits (bits.take 8))).length := by
        rw [length_lowBits, List.length_take]
        omega
      rw [← hhead.eq_of_length hlength]
      calc bits = bits.take 8 ++ bits.drop 8 := (List.take_append_drop 8 bits).symm
        _ <+: bits.take 8 ++ bitsOf (packBytes n (bits.drop 8)) := (List.prefix_append_right_inj _).2 hrest

theorem prefix_bitsOf_packBits (bits : List Bool) : bits <+: bitsOf (packBits bits) :=
  prefix_bitsOf_packBytes (by omega)

end PrefixTrees
