import Xine.Codecs.Adpcm
import Xine.Library.Cuts

/-!
# Dialogic packets

`dialogic_ima_decode_block` keeps the predictor and the index in static variables, but not the step, which starts
as the index itself at each packet. The first sample of a packet is thus another one than in the middle of a
packet, unless it is clamped to the same value in both.
-/

namespace Xine.Codecs

open Octets (Byte)
open Runs Cuts

/-- The nibbles of a packet, in the order of the samples. -/
def dialogicNibbles (data : List Byte) : List (Fin 16) := data.flatMap fun b => [highNibble b, lowNibble b]

/-- The samples that `dialogic_ima_decode_block` puts out for one packet after the other. -/
def dialogicPackets : DialogicStatics → List (List Byte) → List ℕ
  | _, [] => []
  | statics, data :: packets =>
    let (samples, statics) := dialogicLoop statics statics.index (dialogicNibbles data)
    samples ++ dialogicPackets statics packets

theorem dialogicImaDecodeBlock_mem {statics statics' : DialogicStatics} {this this' : AdpcmDecoder}
    {data : List Byte} {buf : BufElement} {out : List AudioBuffer}
    (h : dialogicImaDecodeBlock statics this data buf = some (statics', this', out))
    (packets : List (List Byte)) :
    dialogicPackets statics (data :: packets) = out.flatMap AudioBuffer.mem ++ dialogicPackets statics' packets := by
  unfold dialogicImaDecodeBlock at h
  dsimp only at h
  generalize (if this.out_block_size < buf.content.length * 2 % 2^32 then
    { this with out_block_size := buf.content.length * 2 % 2^32 } else this) = enlarged at h
  split at h
  · exact absurd h.symm (Option.some_ne_none _)
  · obtain ⟨rfl, -, rfl⟩ := Prod.mk.inj (Option.some.inj h) |>.imp_right Prod.mk.inj
    simp only [List.flatMap_cons, List.flatMap_nil, List.append_nil]
    rfl

/-- The statics and the local variable `step`, which is the index itself until a nibble of the packet has been
decoded. -/
structure DialogicState where
  statics : DialogicStatics
  start : Bool
deriving DecidableEq

namespace DialogicState

def step (s : DialogicState) : ℕ := if s.start then s.statics.index else dialogic_ima_step[s.statics.index]

/-- The start of a packet. -/
def anew (s : DialogicState) : DialogicState := { s with start := true }

/-- The predictor that a nibble leads to, before it is clamped. -/
def sum (s : DialogicState) (delta : Fin 16) : ℤ := s.statics.predictor + nibbleDiff s.step delta

/-- The loop body: `predictor << 4`, and what is kept for the next nibble. -/
def nibble (s : DialogicState) (delta : Fin 16) : ℤ × DialogicState :=
  let predictor := clamp (-2048) 2048 (s.sum delta)
  (predictor * 16,
    { statics := { predictor := predictor, index := clampIndex 48 (s.statics.index + ima_adpcm_index.get delta) }
      start := false })

/-- Packets, as nibbles with a mark at the first of each. -/
def marks (packets : List (List Byte)) : List (Bool × Fin 16) :=
  packets.flatMap fun data => mark (dialogicNibbles data)

end DialogicState

/-- The values of `predictor << 4` for one packet after the other. -/
def DialogicStatics.values (statics : DialogicStatics) (packets : List (List Byte)) : List ℤ :=
  (trace (marked DialogicState.nibble DialogicState.anew) { statics := statics, start := true }
    (DialogicState.marks packets)).1

/-- `decode_buffer` has words. -/
def sampleWord (value : ℤ) : ℕ := (value % 2^16).toNat

/-- The samples of the packets are those of all the data in one packet, and each is a 12-bit value shifted left
by 4 that fits in 16 bits. -/
structure DialogicStatics.CutsAlike (statics : DialogicStatics) (packets : List (List Byte)) : Prop where
  alike : dialogicPackets statics packets = dialogicPackets statics [packets.flatten]
  fits : ∀ value ∈ statics.values packets,
    (∃ x : ℤ, -2048 ≤ x ∧ x < 2048 ∧ value = x * 16) ∧ -2^15 ≤ value ∧ value < 2^15

/-- A nibble does not go past the top. It is not the first of a later packet, or it goes to the bottom or below
with the index as the step, and also with the step from the table. -/
def DialogicState.Hidden (s : DialogicState) (a : Bool × Fin 16) : Prop :=
  (if a.1 then s.anew else s).sum a.2 < 2048 ∧
    (a.1 → s.start ∨ s.anew.sum a.2 ≤ -2048 ∧ s.sum a.2 ≤ -2048)

instance (s : DialogicState) (a : Bool × Fin 16) : Decidable (s.Hidden a) :=
  inferInstanceAs (Decidable (_ ∧ (_ → _ ∨ _ ∧ _)))

namespace DialogicState

variable {s : DialogicState} {nibbles : List (Fin 16)} {packets : List (List Byte)}

/-! ## The loop as a machine -/

theorem dialogicLoop_eq (s : DialogicState) (nibbles : List (Fin 16)) : dialogicLoop s.statics s.step nibbles =
    ((trace nibble s nibbles).1.map sampleWord, (trace nibble s nibbles).2.statics) := by
  induction nibbles generalizing s with
  | nil => rfl
  | cons delta nibbles ih =>
    have hrest := ih (nibble s delta).2
    unfold dialogicLoop
    simp only [trace, List.map_cons]
    exact congrArg
      (fun r : List ℕ × DialogicStatics => (sampleWord (clamp (-2048) 2048 (s.sum delta) * 16) :: r.1, r.2)) hrest

theorem marks_cons (data : List Byte) : marks (data :: packets) = mark (dialogicNibbles data) ++ marks packets :=
  List.flatMap_cons

theorem marked_anew (delta : Fin 16) :
    marked nibble anew s.anew (true, delta) = marked nibble anew s (true, delta) :=
  rfl

theorem trace_marks_anew : (trace (marked nibble anew) s.anew (marks packets)).1 =
    (trace (marked nibble anew) s (marks packets)).1 := by
  induction packets with
  | nil => rfl
  | cons data packets ih =>
    rw [marks_cons]
    cases hdata : dialogicNibbles data with
    | nil => exact ih
    | cons delta nibbles => simp only [mark, List.cons_append, trace, marked_anew]

theorem dialogicPackets_eq : dialogicPackets s.statics packets =
    (trace (marked nibble anew) s (marks packets)).1.map sampleWord := by
  induction packets generalizing s with
  | nil => rfl
  | cons data packets ih =>
    have hloop := s.anew.dialogicLoop_eq (dialogicNibbles data)
    have hpacket : dialogicPackets s.statics (data :: packets) =
        (trace nibble s.anew (dialogicNibbles data)).1.map sampleWord ++
          dialogicPackets (trace nibble s.anew (dialogicNibbles data)).2.statics packets :=
      congrArg (fun r : List ℕ × DialogicStatics => r.1 ++ dialogicPackets r.2 packets) hloop
    rw [hpacket, ih, marks_cons, trace_append, List.map_append]
    cases hdata : dialogicNibbles data with
    | nil => exact congrArg (List.map sampleWord) trace_marks_anew
    | cons delta nibbles => rw [trace_mark]

theorem dialogicPackets_flatten : dialogicPackets s.statics [packets.flatten] =
    (trace nibble s.anew ((marks packets).map Prod.snd)).1.map sampleWord := by
  have hnibbles : dialogicNibbles packets.flatten = (marks packets).map Prod.snd := by
    induction packets with
    | nil => rfl
    | cons data packets ih =>
      rw [marks_cons, List.map_append, map_mark, ← ih]
      exact List.flatMap_append
  rw [← hnibbles]
  have hloop := s.anew.dialogicLoop_eq (dialogicNibbles packets.flatten)
  have hpacket := congrArg Prod.fst hloop
  exact (List.append_nil _).trans hpacket

/-! ## A nibble -/

theorem diff_gap (index : Fin 49) (delta : Fin 16) :
    nibbleDiff index delta ≠ nibbleDiff dialogic_ima_step[index] delta ∧
      nibbleDiff index delta < nibbleDiff dialogic_ima_step[index] delta + 4096 ∧
      nibbleDiff dialogic_ima_step[index] delta < nibbleDiff index delta + 4096 := by
  revert index delta
  decide +kernel

theorem clamp_le (x : ℤ) : -2048 ≤ clamp (-2048) 2048 x ∧ clamp (-2048) 2048 x ≤ 2048 := by
  unfold clamp
  split_ifs <;> omega

theorem clamp_eq_iff {x y : ℤ} (hne : x ≠ y) (hlt : x < 2048) :
    clamp (-2048) 2048 x = clamp (-2048) 2048 y ↔ x ≤ -2048 ∧ y ≤ -2048 := by
  unfold clamp
  constructor
  · intro h
    split_ifs at h <;> omega
  · intro h
    split_ifs <;> omega

theorem eq_of_sampleWord (x y : ℤ)
    (h : sampleWord (clamp (-2048) 2048 x * 16) = sampleWord (clamp (-2048) 2048 y * 16)) :
    clamp (-2048) 2048 x = clamp (-2048) 2048 y ∨ x + 4096 ≤ y ∨ y + 4096 ≤ x := by
  have hx := clamp_le x
  have hy := clamp_le y
  unfold sampleWord at h
  unfold clamp at *
  split_ifs at * <;> omega

theorem nibble_anew_iff (delta : Fin 16) : nibble s.anew delta = nibble s delta ↔
    clamp (-2048) 2048 (s.anew.sum delta) = clamp (-2048) 2048 (s.sum delta) := by
  constructor
  · exact fun h => congrArg (fun r : ℤ × DialogicState => r.2.statics.predictor) h
  · intro h
    unfold nibble
    rw [h]
    rfl

theorem anew_of_start (h : s.start = true) : s.anew = s := by
  obtain ⟨statics, start⟩ := s
  obtain rfl : start = true := h
  rfl

theorem sum_gap (h : s.start = false) (delta : Fin 16) : s.anew.sum delta ≠ s.sum delta ∧
    s.anew.sum delta < s.sum delta + 4096 ∧ s.sum delta < s.anew.sum delta + 4096 := by
  have hgap := diff_gap s.statics.index delta
  have hanew : s.anew.sum delta = s.statics.predictor + nibbleDiff s.statics.index delta := rfl
  have hsum : s.sum delta = s.statics.predictor + nibbleDiff dialogic_ima_step[s.statics.index] delta := by
    unfold sum step
    rw [h]
    rfl
  omega

theorem nibble_same (s : DialogicState) (delta : Fin 16)
    (h : sampleWord (nibble s.anew delta).1 = sampleWord (nibble s delta).1) :
    nibble s.anew delta = nibble s delta := by
  cases hstart : s.start with
  | true => rw [anew_of_start hstart]
  | false =>
    obtain hsame | hfar := eq_of_sampleWord _ _ h
    · exact (nibble_anew_iff delta).2 hsame
    · have := sum_gap hstart delta
      omega

theorem fits_iff (x : ℤ) : ((∃ p : ℤ, -2048 ≤ p ∧ p < 2048 ∧ clamp (-2048) 2048 x * 16 = p * 16) ∧
    -2^15 ≤ clamp (-2048) 2048 x * 16 ∧ clamp (-2048) 2048 x * 16 < 2^15) ↔ x < 2048 := by
  have hlow := (clamp_le x).1
  have hclamp : clamp (-2048) 2048 x < 2048 ↔ x < 2048 := by
    unfold clamp
    split_ifs <;> omega
  constructor
  · rintro ⟨-, -, hlt⟩
    omega
  · intro h
    have hlt := hclamp.2 h
    refine ⟨⟨_, hlow, hlt, rfl⟩, ?_, ?_⟩ <;> omega

theorem hidden_iff (a : Bool × Fin 16) : s.Hidden a ↔
    (a.1 → nibble s.anew a.2 = nibble s a.2) ∧ (if a.1 then s.anew else s).sum a.2 < 2048 := by
  obtain ⟨first, delta⟩ := a
  unfold Hidden
  rw [and_comm]
  refine and_congr_left fun hlt => forall_congr' fun hfirst => ?_
  obtain rfl : first = true := hfirst
  cases hstart : s.start with
  | true => exact iff_of_true (.inl rfl) (by rw [anew_of_start hstart])
  | false =>
    rw [nibble_anew_iff, clamp_eq_iff (sum_gap hstart delta).1 hlt]
    exact or_iff_right Bool.false_ne_true

end DialogicState

/-! ## Packets -/

/-- Where the packets end makes no difference, and all samples fit, if and only if every nibble stays below the
top and every start of a packet is hidden. -/
theorem DialogicStatics.cutsAlike_iff (statics : DialogicStatics) (packets : List (List Byte)) :
    statics.CutsAlike packets ↔
      Guarded (next (marked DialogicState.nibble DialogicState.anew)) DialogicState.Hidden
        { statics := statics, start := true } (DialogicState.marks packets) := by
  let s : DialogicState := { statics := statics, start := true }
  have halike : dialogicPackets statics packets = dialogicPackets statics [packets.flatten] ↔
      Guarded (next (marked DialogicState.nibble DialogicState.anew))
        (fun s a => a.1 → DialogicState.nibble s.anew a.2 = DialogicState.nibble s a.2) s
        (DialogicState.marks packets) := by
    rw [DialogicState.dialogicPackets_eq (s := s), DialogicState.dialogicPackets_flatten (s := s)]
    exact outputs_marked_iff DialogicState.nibble_same
  have hfits : (∀ value ∈ statics.values packets,
      (∃ x : ℤ, -2048 ≤ x ∧ x < 2048 ∧ value = x * 16) ∧ -2^15 ≤ value ∧ value < 2^15) ↔
      Guarded (next (marked DialogicState.nibble DialogicState.anew))
        (fun s a => (if a.1 then s.anew else s).sum a.2 < 2048) s (DialogicState.marks packets) :=
    forall_outputs_iff.trans (guarded_iff_of_forall fun s a => DialogicState.fits_iff _)
  calc statics.CutsAlike packets
      ↔ dialogicPackets statics packets = dialogicPackets statics [packets.flatten] ∧
          ∀ value ∈ statics.values packets,
            (∃ x : ℤ, -2048 ≤ x ∧ x < 2048 ∧ value = x * 16) ∧ -2^15 ≤ value ∧ value < 2^15 :=
        ⟨fun h => ⟨h.alike, h.fits⟩, fun h => ⟨h.1, h.2⟩⟩
    _ ↔ Guarded (next (marked DialogicState.nibble DialogicState.anew))
          (fun s a => (a.1 → DialogicState.nibble s.anew a.2 = DialogicState.nibble s a.2) ∧
            (if a.1 then s.anew else s).sum a.2 < 2048) s (DialogicState.marks packets) :=
        (and_congr halike hfits).trans guarded_and.symm
    _ ↔ _ := guarded_iff_of_forall fun s a => DialogicState.hidden_iff a |>.symm

/-- Two packets of a byte with the nibbles 0 each: the second starts with the index 14 as the step. -/
theorem DialogicStatics.zeros_not_cutsAlike : ¬DialogicStatics.initial.CutsAlike [[0], [0]] := by
  intro h
  have halike := h.alike
  revert halike
  decide

end Xine.Codecs
