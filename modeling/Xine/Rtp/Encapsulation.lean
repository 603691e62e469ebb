import Xine.Rtp.System

/-!
# Payloads of RTP packets

What is inserted for a datagram is a part of it. For a packet in the layout of RFC 1889 it is the payload unless the
packet has an extension, whose length counts words and not its own four bytes, or a padding, whose length counts
itself.
-/

namespace Xine.Rtp

open Octets (Byte)

/-- A packet: the bytes of the header behind the first one, the contributing sources, the words of an extension behind
its profile, the payload, and the bytes of a padding in front of its length. -/
structure RtpPacket where
  cc : Fin 16
  header : List Byte
  csrc : List Byte
  extension : Option (List Byte × List Byte)
  payload : List Byte
  padding : Option (List Byte)
  length_header : header.length = 11
  length_csrc : csrc.length = cc * 4
  length_extension : ∀ e ∈ extension, e.1.length = 2 ∧ 4 ∣ e.2.length ∧ e.2.length / 4 < 2 ^ 16
  length_padding : ∀ bs ∈ padding, bs.length < 255

namespace RtpPacket

variable (p : RtpPacket)

def first : Byte :=
  0x80 ||| (if p.padding = none then 0 else 0x20) ||| (if p.extension = none then 0 else 0x10) |||
    BitVec.ofNat 8 p.cc

def extensionBytes : List Byte :=
  match p.extension with
  | none => []
  | some (profile, words) =>
    profile ++ [BitVec.ofNat 8 (words.length / 4 / 256), BitVec.ofNat 8 (words.length / 4)] ++ words

def paddingBytes : List Byte :=
  match p.padding with
  | none => []
  | some bs => bs ++ [BitVec.ofNat 8 (bs.length + 1)]

/-- The datagram. -/
def bytes : List Byte :=
  p.first :: (p.header ++ (p.csrc ++ (p.extensionBytes ++ (p.payload ++ p.paddingBytes))))

end RtpPacket

/-! ## Only what was received -/

theorem skipPadding_part (first : Byte) (data : List Byte) (length : ℤ) :
    payload.skipPadding first data length <:+: data := by
  unfold payload.skipPadding
  split_ifs
  · exact List.nil_infix
  · exact (List.take_prefix _ _).isInfix
  · exact (List.take_prefix _ _).isInfix

theorem payload_part (is_rtp : Bool) (packet : List Byte) : payload is_rtp packet <:+: packet := by
  unfold payload
  split_ifs
  · exact List.nil_infix
  · dsimp only
    unfold payload.skipExtension
    split_ifs
    · exact List.nil_infix
    · exact (skipPadding_part _ _ _).trans
        ((List.drop_suffix _ _).isInfix.trans (List.drop_suffix _ _).isInfix)
    · exact (skipPadding_part _ _ _).trans (List.drop_suffix _ _).isInfix
  · exact List.infix_rfl

/-! ## The parts of a packet -/

section Packet

variable (p : RtpPacket)

theorem first_bits : p.first &&& 0x0f = BitVec.ofNat 8 p.cc ∧
    (p.first &&& 0x10 ≠ 0 ↔ p.extension ≠ none) ∧ (p.first &&& 0x20 ≠ 0 ↔ p.padding ≠ none) := by
  have hall : ∀ (cc : Fin 16) (x y : Bool),
      let first : Byte := 0x80 ||| (if y then 0 else 0x20) ||| (if x then 0 else 0x10) ||| BitVec.ofNat 8 cc
      first &&& 0x0f = BitVec.ofNat 8 cc ∧ (first &&& 0x10 ≠ 0 ↔ x = false) ∧ (first &&& 0x20 ≠ 0 ↔ y = false) := by
    decide
  have h := hall p.cc (decide (p.extension = none)) (decide (p.padding = none))
  simp only [decide_eq_true_eq, decide_eq_false_iff_not] at h
  exact h

/-- What is behind the header and the sources. -/
def RtpPacket.rest : List Byte := p.extensionBytes ++ (p.payload ++ p.paddingBytes)

theorem payload_bytes : payload true p.bytes = payload.skipExtension p.first p.rest p.rest.length := by
  have hlength : p.bytes.length = 12 + p.cc * 4 + p.rest.length := by
    simp only [RtpPacket.bytes, List.length_cons, List.length_append, p.length_header, p.length_csrc, RtpPacket.rest]
    omega
  have hcc : (p.first &&& 0x0f).toNat = p.cc := by
    rw [(first_bits p).1, BitVec.toNat_ofNat]
    exact Nat.mod_eq_of_lt (p.cc.isLt.trans (by decide))
  have hdrop : p.bytes.drop (12 + p.cc * 4) = p.rest := by
    have hheader : (p.first :: (p.header ++ p.csrc)).length = 12 + p.cc * 4 := by
      rw [List.length_cons, List.length_append, p.length_header, p.length_csrc]
      omega
    have happend : p.bytes = (p.first :: (p.header ++ p.csrc)) ++ p.rest := by
      unfold RtpPacket.bytes RtpPacket.rest
      rw [List.cons_append, List.append_assoc]
    rw [happend]
    exact List.drop_left' hheader
  have hfirst : p.bytes.getD 0 0 = p.first := rfl
  unfold payload
  rw [if_pos rfl, if_neg (by omega), hfirst]
  simp only [hcc, hdrop, hlength]
  congr 1
  omega

theorem skipPadding_eq_iff {pre : List Byte} (hone : pre.length ≠ 1) :
    payload.skipPadding p.first (pre ++ (p.payload ++ p.paddingBytes))
        (pre ++ (p.payload ++ p.paddingBytes)).length = p.payload ↔
      pre = [] ∧ (p.padding = none ∨ p.payload = []) := by
  have hpad := (first_bits p).2.2
  unfold payload.skipPadding
  cases hp : p.padding with
  | none =>
    have hbytes : p.paddingBytes = [] := by unfold RtpPacket.paddingBytes; rw [hp]
    rw [if_neg (by rw [hpad]; exact fun h => h hp), hbytes, List.append_nil, Int.toNat_natCast, List.take_length]
    constructor
    · intro h
      have hlength := congrArg List.length h
      rw [List.length_append] at hlength
      exact ⟨List.eq_nil_of_length_eq_zero (by omega), .inl rfl⟩
    · rintro ⟨rfl, -⟩
      rfl
  | some bs =>
    have hlt := p.length_padding bs hp
    have hbytes : p.paddingBytes = bs ++ [BitVec.ofNat 8 (bs.length + 1)] := by
      unfold RtpPacket.paddingBytes
      rw [hp]
    rw [if_pos (by rw [hpad, hp]; exact Option.some_ne_none bs), hbytes]
    generalize hall : pre ++ (p.payload ++ (bs ++ [BitVec.ofNat 8 (bs.length + 1)])) = all
    have hlength : all.length = pre.length + p.payload.length + bs.length + 1 := by
      rw [← hall]
      simp only [List.length_append, List.length_singleton]
      omega
    have hlast : (all.getD ((all.length : ℤ) - 1).toNat 0).toNat = bs.length + 1 := by
      have hplace : ((all.length : ℤ) - 1).toNat = (pre ++ (p.payload ++ bs)).length := by
        rw [hlength]
        simp only [List.length_append]
        omega
      have happend : all = (pre ++ (p.payload ++ bs)) ++ [BitVec.ofNat 8 (bs.length + 1)] := by
        rw [← hall]
        simp only [List.append_assoc]
      rw [hplace, happend, List.getD_eq_getElem?_getD, List.getElem?_concat_length, Option.getD_some,
        BitVec.toNat_ofNat]
      omega
    rw [if_neg (by omega), hlast]
    constructor
    · intro h
      have htake := congrArg List.length h
      rw [List.length_take, hlength] at htake
      have hzero : pre.length = 0 ∧ p.payload.length = 0 := by omega
      exact ⟨List.eq_nil_of_length_eq_zero hzero.1, .inr (List.eq_nil_of_length_eq_zero hzero.2)⟩
    · rintro ⟨rfl, hnone | hempty⟩
      · exact absurd hnone (Option.some_ne_none bs)
      · rw [hempty]
        refine List.take_eq_nil_iff.2 (.inl ?_)
        rw [hlength, hempty, List.length_nil]
        omega

/-- What is inserted for a packet is its payload if and only if it has no extension, and no padding behind a
payload; what is inserted for any datagram is a part of it. -/
theorem payload_bytes_eq_iff :
    (payload true p.bytes = p.payload ↔ p.extension = none ∧ (p.padding = none ∨ p.payload = [])) ∧
      ∀ is_rtp packet, payload is_rtp packet <:+: packet := by
  refine ⟨?_, payload_part⟩
  have hext := (first_bits p).2.1
  rw [payload_bytes]
  unfold payload.skipExtension
  cases he : p.extension with
  | none =>
    have hrest : p.rest = [] ++ (p.payload ++ p.paddingBytes) := by
      unfold RtpPacket.rest RtpPacket.extensionBytes
      rw [he]
    rw [if_neg (by rw [hext]; exact fun h => h he), hrest, skipPadding_eq_iff p (by decide)]
    simp
  | some e =>
    obtain ⟨profile, words⟩ := e
    obtain ⟨hprofile, hdvd, hwords⟩ := p.length_extension _ he
    dsimp only at hprofile hdvd hwords
    have hrest : p.rest = profile ++ [BitVec.ofNat 8 (words.length / 4 / 256), BitVec.ofNat 8 (words.length / 4)] ++
        (words ++ (p.payload ++ p.paddingBytes)) := by
      unfold RtpPacket.rest RtpPacket.extensionBytes
      rw [he]
      simp only [List.append_assoc]
    obtain ⟨a, b, rfl⟩ := List.length_eq_two.1 hprofile
    have hhigh : (p.rest.getD 2 0).toNat * 256 + (p.rest.getD 3 0).toNat = words.length / 4 := by
      rw [hrest]
      change (BitVec.ofNat 8 _).toNat * 256 + (BitVec.ofNat 8 _).toNat = _
      rw [BitVec.toNat_ofNat, BitVec.toNat_ofNat]
      omega
    have hlength : p.rest.length = 4 + words.length + (p.payload ++ p.paddingBytes).length := by
      rw [hrest]
      simp only [List.length_append, List.length_cons, List.length_nil]
      omega
    -- the extension is skipped by the number of its words, so that some of it stays
    obtain ⟨pre, hpre, hdrop⟩ : ∃ pre : List Byte, 1 < pre.length ∧
        p.rest.drop (words.length / 4) = pre ++ (p.payload ++ p.paddingBytes) := by
      have hsplit : p.rest = ([a, b, BitVec.ofNat 8 (words.length / 4 / 256), BitVec.ofNat 8 (words.length / 4)] ++
          words) ++ (p.payload ++ p.paddingBytes) := by
        rw [hrest, List.append_assoc]
        rfl
      refine ⟨_, ?_, by rw [hsplit, List.drop_append_of_le_length (by simp; omega)]⟩
      simp only [List.length_drop, List.length_append, List.length_cons, List.length_nil]
      omega
    rw [if_pos (by rw [hext, he]; exact Option.some_ne_none _), if_neg (by omega)]
    dsimp only
    rw [hhigh, hdrop]
    have hcast : (p.rest.length : ℤ) - ((words.length / 4 : ℕ) : ℤ) =
        ((pre ++ (p.payload ++ p.paddingBytes)).length : ℤ) := by
      rw [← hdrop, List.length_drop]
      omega
    rw [hcast, skipPadding_eq_iff p hpre.ne']
    refine iff_of_false (fun h => ?_) fun h => absurd h.1 (Option.some_ne_none _)
    rw [h.1] at hpre
    exact absurd hpre (by decide)

end Packet

/-- Not every payload is inserted: a padding of one byte costs the only byte of this one. -/
theorem not_payload_bytes : ¬∀ p : RtpPacket, payload true p.bytes = p.payload := by
  intro h
  exact absurd (h ⟨0, List.replicate 11 0, [], none, [7], some [], rfl, rfl, nofun, fun bs hbs => by cases hbs; decide⟩)
    (by decide)

end Xine.Rtp
