import Xine.DemuxTs.Demuxer

/-!
# What the table handlers touch

The bytes that `demux_ts_parse_pat` and `demux_ts_parse_pmt` of `demux_ts.c` copy, read and
checksum, in their order: spans of the packet and of the memory for a map table. Two fields of the
demuxer decide what is read of the elementary streams, the pid of the audio stream and the number of
subtitle languages.
-/

namespace Xine.DemuxTs

open Spans

/-- The memory that a handler may touch. -/
inductive Area where
  | packet
  | buffer

/-- The size of the memory. -/
def Area.size : Area → ℕ
  | .packet => pktSize
  | .buffer => sectionSize

/-- The number of bytes under a checksum, of an unsigned type of 32 bits. -/
def crcLength (section_length : ℕ) : ℕ := (((section_length : ℤ) + 3 - 4) % 2 ^ 32).toNat

/-! ## Association tables -/

/-- The start of the section, less the five bytes of the header and the pointer. -/
def sectionStart (p : Packet) (offset : ℕ) : ℕ := offset + p.byte (offset + 4)

/-- The length of an association table. -/
def patLength (p : Packet) (pkt : ℕ) : ℕ := (p.byte (pkt + 6) &&& 0x03) <<< 8 ||| p.byte (pkt + 7)

/-- A table is parsed that is the current one, is thought to be in one packet and is one section. -/
def PatParsed (p : Packet) (pkt : ℕ) : Prop :=
  ¬(p.byte (pkt + 6) >>> 7 &&& 1 ≠ 1 ∨ p.byte (pkt + 10) &&& 0x01 = 0) ∧
    ¬pkt > (((bodySize : ℤ) - 1 - 3 - patLength p pkt) % 2 ^ 32).toNat ∧
    ¬(p.byte (pkt + 11) ≠ 0 ∨ p.byte (pkt + 12) ≠ 0)

instance {p : Packet} {pkt : ℕ} : Decidable (PatParsed p pkt) := by
  unfold PatParsed
  infer_instance

/-- The accesses of `demux_ts_parse_pat`. -/
def patSpans (p : Packet) (offset : ℕ) : List (Span Area) :=
  let pkt := sectionStart p offset
  let section_length := patLength p pkt
  if ¬p.payload_unit_start_indicator then []
  else
    ⟨.packet, (offset + 4 : ℕ), 1⟩ ::
    if pkt > pktSize then []
    else
      -- the header of the section, and its checksum before any check of the length
      ⟨.packet, (pkt + 5 : ℕ), 8⟩ :: ⟨.packet, (pkt + 4 + section_length : ℕ), 4⟩ ::
      if ¬PatParsed p pkt then []
      else
        ⟨.packet, (pkt + 5 : ℕ), crcLength section_length⟩ ::
        if readWord p.mem (pkt + 4 + section_length) ≠
            demuxTsComputeCrc32 p.mem (pkt + 5) (crcLength section_length) then []
        else
          (List.range ((section_length - 9 + 3) / 4)).map fun k =>
            ⟨.packet, (pkt + 13 + 4 * k : ℕ), 4⟩

/-! ## Elementary streams -/

/-- What the parser of the elementary streams looks at in the demuxer. -/
structure Reader where
  /-- There is no audio stream yet. -/
  audioFree : Bool
  no_spu_langs : ℕ

namespace Es

/-- The descriptors up to the first one with a tag and a length of at least four, of which `n` bytes are
read: `demux_ts_get_lang_desc` and `demux_ts_get_reg_desc`. The entry is at the place `stream`. -/
def scanSpans (e : Es) (stream tag n : ℕ) : List ℕ → List (Span Area)
  | [] => []
  | d :: ds =>
    ⟨.buffer, (stream + d : ℕ), 2⟩ ::
    if e.byte d = tag ∧ 4 ≤ e.byte (d + 1) then [⟨.buffer, (stream + d + 2 : ℕ), n⟩]
    else e.scanSpans stream tag n ds

/-- `demux_ts_get_lang_desc`. -/
def langSpans (e : Es) (stream : ℕ) : List (Span Area) := e.scanSpans stream 10 3 e.descriptors

/-- `demux_ts_get_reg_desc`. -/
def regSpans (e : Es) (stream : ℕ) : List (Span Area) := e.scanSpans stream 5 4 e.descriptors

/-- The pages of a subtitle descriptor that are read, as long as there are entries for languages. -/
def pages (e : Es) (i no_spu_langs : ℕ) : ℕ := min (e.byte (i + 1) / 8) (maxNoSpuLangs - no_spu_langs)

/-- The pages of a subtitle descriptor: the language, and the identifiers. -/
def pageSpans (e : Es) (stream i no_spu_langs : ℕ) : List (Span Area) :=
  (List.range (e.pages i no_spu_langs)).flatMap fun k =>
    [⟨.buffer, (stream + i + 2 + 8 * k : ℕ), 3⟩, ⟨.buffer, (stream + i + 2 + 8 * k + 4 : ℕ), 4⟩]

/-- The descriptors of a private stream. -/
def privateSpans (e : Es) (stream : ℕ) : List ℕ → Reader → List (Span Area)
  | [], _ => []
  | i :: is, r =>
    ⟨.buffer, (stream + i : ℕ), 1⟩ ::
    if e.byte i = 0x6a ∧ r.audioFree then e.langSpans stream
    else
      ⟨.buffer, (stream + i + 1 : ℕ), 1⟩ ::
      if e.byte i = 0x59 then
        e.pageSpans stream i r.no_spu_langs ++
          e.privateSpans stream is { r with no_spu_langs := r.no_spu_langs + e.pages i r.no_spu_langs }
      else e.privateSpans stream is r

/-- What the descriptors of a private stream change. -/
def privateReader (e : Es) : List ℕ → Reader → Reader
  | [], r => r
  | i :: is, r =>
    if e.byte i = 0x6a ∧ r.audioFree then { r with audioFree := false }
    else if e.byte i = 0x59 then
      e.privateReader is { r with no_spu_langs := r.no_spu_langs + e.pages i r.no_spu_langs }
    else e.privateReader is r

/-- The entry of an elementary stream, behind its first five bytes. -/
def spans (e : Es) (stream : ℕ) (r : Reader) : List (Span Area) :=
  let type := e.byte 0
  if type = 1 ∨ type = 2 then []
  else if type = 3 ∨ type = 4 then if r.audioFree then e.langSpans stream else []
  else if type = 5 then []
  else if type = 6 then e.privateSpans stream e.descriptors r
  else if r.audioFree ∧ 0x80 ≤ type then
    e.regSpans stream ++ if e.demuxTsGetRegDesc = 0x41432d33 then e.langSpans stream else []
  else []

/-- What the entry of an elementary stream changes. -/
def nextReader (e : Es) (r : Reader) : Reader :=
  let type := e.byte 0
  if type = 1 ∨ type = 2 then r
  else if type = 3 ∨ type = 4 then { r with audioFree := false }
  else if type = 5 then r
  else if type = 6 then e.privateReader e.descriptors r
  else if r.audioFree ∧ 0x80 ≤ type ∧ e.demuxTsGetRegDesc = 0x41432d33 then
    { r with audioFree := false }
  else r

end Es

/-! What the entries change is what the demuxer does with them. -/

section Readers

variable {d t : Demuxer} {e : Es} {pid descriptor mediaIndex : ℕ}

end Readers

/-- The elementary streams from a place on, and the pid of the clock reference behind them. -/
def esSpans (mem : ℕ → Byte) : ℕ → ℕ → ℕ → Reader → List (Span Area)
  | 0, _, _, _ => []
  | fuel + 1, stream, section_length, r =>
    if 0 < section_length then
      let e : Es := ⟨fun i => mem (stream + i)⟩
      ⟨.buffer, (stream + 1 : ℕ), 4⟩ ::
      if e.coded_length > section_length then []
      else
        ⟨.buffer, (stream : ℕ), 1⟩ :: (e.spans stream r ++
          esSpans mem fuel (stream + e.coded_length) (section_length - e.coded_length) (e.nextReader r))
    else [⟨.buffer, 8, 2⟩]

/-! ## Map tables -/

/-- The length of the descriptors of a program. -/
def programInfoLength (mem : ℕ → Byte) : ℕ := ((mem 10).toNat <<< 8 ||| (mem 11).toNat) &&& 0x0fff

/-- A table whose checksum is right. Each entry has five bytes at least, so that the fuel lasts. -/
def tableSpans (mem : ℕ → Byte) (section_length : ℕ) (r : Reader) : List (Span Area) :=
  ⟨.buffer, 10, 2⟩ ::
  if 13 + programInfoLength mem > section_length then []
  else
    esSpans mem (section_length + 1) (12 + programInfoLength mem)
      (section_length - (13 + programInfoLength mem)) { r with no_spu_langs := 0 }

/-- How many bytes of a packet are copied, as far as a signed type goes. -/
def codedLength (pkt section_length write : ℕ) : ℤ :=
  min ((bodySize : ℤ) - pkt - 1) ((section_length : ℤ) + 3 - write)

/-- The memory when a packet has been copied into it. The length is of an unsigned type of 32 bits. -/
def Section.copy (p : Packet) (pkt section_length : ℕ) (s : Section) : Section :=
  let coded_length := (codedLength pkt section_length s.write % 2 ^ 32).toNat
  ⟨Memory.memcpy s.mem s.write (fun i => p.mem (pkt + 5 + i)) coded_length, s.write + coded_length⟩

/-- The checksum of a table is right. -/
def Section.Accepted (s : Section) (section_length : ℕ) : Prop :=
  readWord s.mem (crcLength section_length) =
    demuxTsComputeCrc32 s.mem 0 (crcLength section_length)

instance {s : Section} {section_length : ℕ} : Decidable (s.Accepted section_length) := by
  unfold Section.Accepted
  infer_instance

/-- The accesses from the copy on. -/
def appendSpans (p : Packet) (pkt section_length : ℕ) (s : Section) (r : Reader) : List (Span Area) :=
  let coded_length := (codedLength pkt section_length s.write % 2 ^ 32).toNat
  let t := s.copy p pkt section_length
  ⟨.packet, (pkt + 5 : ℕ), coded_length⟩ :: ⟨.buffer, (s.write : ℕ), coded_length⟩ ::
  if t.write < section_length then []
  else
    -- the checksum, whose first byte has an unsigned index, and what it is compared with
    ⟨.buffer, (crcLength section_length : ℕ), 1⟩ :: ⟨.buffer, (section_length : ℕ), 3⟩ ::
    ⟨.buffer, 0, crcLength section_length⟩ ::
    if t.Accepted section_length then tableSpans t.mem section_length r else []

/-- The accesses of `demux_ts_parse_pmt`. -/
def pmtSpans (p : Packet) (offset program_number : ℕ) (pmt : Option Section) (r : Reader) :
    List (Span Area) :=
  let pkt := sectionStart p offset
  ⟨.packet, (offset + 4 : ℕ), 1⟩ ::
  if pkt > pktSize then []
  else if p.payload_unit_start_indicator then
    ⟨.packet, (pkt + 5 : ℕ), 8⟩ ::
    if skipsSection p pkt program_number then []
    else appendSpans p pkt (sectionLength p.mem (pkt + 5)) (Section.alloc p) r
  else
    match pmt with
    | none => []
    | some s => ⟨.buffer, 1, 2⟩ :: appendSpans p pkt (sectionLength s.mem 0) s r

end Xine.DemuxTs

/-!
## The table handlers inside their memory
-/

namespace Xine.DemuxTs

open Spans

variable {p : Packet} {offset pkt section_length program_number stream : ℕ} {s : Section} {r : Reader}
  {mem : ℕ → Byte} {e : Es}

theorem inside_packet {start length : ℕ} :
    Span.Inside Area.size ⟨.packet, start, length⟩ ↔ start + length ≤ pktSize := inside_iff

theorem inside_buffer {start length : ℕ} :
    Span.Inside Area.size ⟨.buffer, start, length⟩ ↔ start + length ≤ sectionSize := inside_iff

/-! ## Association tables -/

theorem patLength_lt : patLength p pkt < 2 ^ 10 := by
  unfold patLength
  refine Nat.or_lt_two_pow ?_ ((p.mem (pkt + 7)).isLt.trans (by decide))
  have hlt : p.byte (pkt + 6) &&& 0x03 < 2 ^ 2 := Nat.and_lt_two_pow _ (by decide)
  rw [Nat.shiftLeft_eq]
  omega

theorem crcLength_zero : crcLength 0 = 2 ^ 32 - 1 := by decide

theorem crcLength_of_pos (h : 0 < section_length) (hlt : section_length < 2 ^ 32) :
    crcLength section_length = section_length - 1 := by
  unfold crcLength
  omega

/-- The pointer, the header of the section and its checksum are in the packet, and the section is not
empty when it is parsed. -/
def PatFits (p : Packet) (offset : ℕ) : Prop :=
  p.payload_unit_start_indicator = true → offset + 4 < pktSize ∧
    (sectionStart p offset ≤ pktSize →
      sectionStart p offset + 12 < pktSize ∧
      sectionStart p offset + 8 + patLength p (sectionStart p offset) ≤ pktSize ∧
      (PatParsed p (sectionStart p offset) → patLength p (sectionStart p offset) ≠ 0))

theorem patSpans_inside_iff : AllInside Area.size (patSpans p offset) ↔ PatFits p offset := by
  unfold patSpans PatFits
  generalize sectionStart p offset = pkt
  have hlt : patLength p pkt < 2 ^ 10 := patLength_lt
  dsimp only
  generalize hlength : patLength p pkt = section_length at *
  rw [allInside_if_nil, not_not]
  refine imp_congr_right fun _ => ?_
  rw [allInside_cons, inside_packet, allInside_if_nil, Nat.not_lt]
  refine and_congr Iff.rfl (imp_congr_right fun _ => ?_)
  rw [allInside_cons, allInside_cons, inside_packet, inside_packet, allInside_if_nil, not_not,
    allInside_cons, inside_packet, allInside_if_nil]
  constructor
  · rintro ⟨hheader, hcrc, hrest⟩
    refine ⟨by omega, by omega, fun hparsed hzero => ?_⟩
    have hsum := (hrest hparsed).1
    rw [hzero, crcLength_zero] at hsum
    unfold pktSize at hsum
    omega
  · rintro ⟨hheader, hcrc, hrest⟩
    refine ⟨by omega, by omega, fun hparsed => ⟨?_, fun _ => ?_⟩⟩
    · rw [crcLength_of_pos (Nat.pos_of_ne_zero (hrest hparsed)) (by omega)]
      omega
    · intro span hspan
      obtain ⟨k, hk, rfl⟩ := List.mem_map.1 hspan
      rw [List.mem_range] at hk
      rw [inside_packet]
      omega

/-! ## Elementary streams -/

namespace Es

theorem lt_of_mem_descriptorsFrom {fuel i d : ℕ} (h : d ∈ e.descriptorsFrom fuel i) :
    d < e.coded_length := by
  induction fuel generalizing i with
  | zero => exact absurd h List.not_mem_nil
  | succ fuel ih =>
    unfold descriptorsFrom at h
    split_ifs at h with hlt
    · rcases List.mem_cons.1 h with rfl | h
      · exact hlt
      · exact ih h
    · exact absurd h List.not_mem_nil

theorem lt_of_mem_descriptors {d : ℕ} (h : d ∈ e.descriptors) : d < e.coded_length :=
  lt_of_mem_descriptorsFrom h

theorem scanSpans_inside_iff {tag n : ℕ} {ds : List ℕ} (h : ∀ d ∈ ds, stream + d + 2 ≤ sectionSize) :
    AllInside Area.size (e.scanSpans stream tag n ds) ↔
      ∀ d ∈ ds.find? fun d => e.byte d = tag ∧ 4 ≤ e.byte (d + 1), stream + d + 2 + n ≤ sectionSize := by
  induction ds with
  | nil => exact iff_of_true allInside_nil fun d hd => nomatch hd
  | cons d ds ih =>
    have hd := h d List.mem_cons_self
    unfold scanSpans
    rw [allInside_cons, inside_buffer, and_iff_right hd]
    by_cases hmatch : e.byte d = tag ∧ 4 ≤ e.byte (d + 1)
    · rw [if_pos hmatch, List.find?_cons_of_pos (by simpa using hmatch), allInside_cons, inside_buffer,
        and_iff_left allInside_nil]
      simp only [Option.mem_def, Option.some.injEq, forall_eq']
    · rw [if_neg hmatch, List.find?_cons_of_neg (by simpa using hmatch)]
      exact ih fun d hd => h d (List.mem_cons_of_mem _ hd)

theorem mem_descriptors_le (h : stream + e.coded_length + 4 ≤ sectionSize) {d : ℕ}
    (hd : d ∈ e.descriptors) : stream + d + 5 ≤ sectionSize := by
  have hlt := lt_of_mem_descriptors hd
  omega

theorem langSpans_inside (h : stream + e.coded_length + 4 ≤ sectionSize) :
    AllInside Area.size (e.langSpans stream) := by
  refine (scanSpans_inside_iff fun d hd => ?_).2 fun d hd => ?_
  · have hle := mem_descriptors_le h hd
    omega
  · exact mem_descriptors_le h (List.mem_of_find?_eq_some hd)

/-- The four bytes of the registration descriptor are in the memory. -/
def RegFits (e : Es) (stream : ℕ) : Prop :=
  ∀ d ∈ e.descriptors.find? fun d => e.byte d = 5 ∧ 4 ≤ e.byte (d + 1), stream + d + 6 ≤ sectionSize

instance : Decidable (e.RegFits stream) := by
  unfold RegFits
  infer_instance

theorem regSpans_inside_iff (h : stream + e.coded_length + 4 ≤ sectionSize) :
    AllInside Area.size (e.regSpans stream) ↔ e.RegFits stream := by
  refine scanSpans_inside_iff fun d hd => ?_
  have hle := mem_descriptors_le h hd
  omega

theorem pageSpans_inside_iff {i no_spu_langs : ℕ} (h : stream + i + 2 ≤ sectionSize) :
    AllInside Area.size (e.pageSpans stream i no_spu_langs) ↔
      stream + i + 2 + 8 * e.pages i no_spu_langs ≤ sectionSize := by
  unfold pageSpans
  rw [allInside_flatMap]
  simp only [allInside_cons, inside_buffer, allInside_nil, and_true, List.mem_range]
  constructor
  · intro hall
    rcases Nat.eq_zero_or_pos (e.pages i no_spu_langs) with hzero | hpos
    · omega
    · have hlast := hall (e.pages i no_spu_langs - 1) (by omega)
      omega
  · intro hle k hk
    omega

/-- The pages of the subtitle descriptors that are read are in the memory. -/
def PrivateFits (e : Es) (stream : ℕ) : List ℕ → Reader → Prop
  | [], _ => True
  | i :: is, r =>
    ¬(e.byte i = 0x6a ∧ r.audioFree) →
      if e.byte i = 0x59 then
        stream + i + 2 + 8 * e.pages i r.no_spu_langs ≤ sectionSize ∧
          e.PrivateFits stream is { r with no_spu_langs := r.no_spu_langs + e.pages i r.no_spu_langs }
      else e.PrivateFits stream is r

instance instDecidablePrivateFits : ∀ (is : List ℕ) (r : Reader), Decidable (e.PrivateFits stream is r)
  | [], _ => isTrue trivial
  | i :: is, r =>
    have := fun r => instDecidablePrivateFits is r
    by unfold PrivateFits; infer_instance

theorem privateSpans_inside_iff {is : List ℕ} (h : ∀ i ∈ is, stream + i + 5 ≤ sectionSize)
    (he : stream + e.coded_length + 4 ≤ sectionSize) :
    AllInside Area.size (e.privateSpans stream is r) ↔ e.PrivateFits stream is r := by
  induction is generalizing r with
  | nil => exact iff_of_true allInside_nil trivial
  | cons i is ih =>
    have hi := h i List.mem_cons_self
    have ih := fun r => @ih r fun i hi => h i (List.mem_cons_of_mem _ hi)
    unfold privateSpans PrivateFits
    rw [allInside_cons, inside_buffer, and_iff_right (by omega)]
    by_cases haudio : e.byte i = 0x6a ∧ r.audioFree
    · rw [if_pos haudio]
      exact iff_of_true (langSpans_inside he) fun hno => absurd haudio hno
    · rw [if_neg haudio, allInside_cons, inside_buffer, and_iff_right (by omega)]
      refine Iff.trans ?_ (imp_iff_right haudio).symm
      by_cases hpages : e.byte i = 0x59
      · rw [if_pos hpages, if_pos hpages, allInside_append, pageSpans_inside_iff (by omega), ih]
      · rw [if_neg hpages, if_neg hpages, ih]

/-- What is read of an entry is in the memory. -/
def Fits (e : Es) (stream : ℕ) (r : Reader) : Prop :=
  (e.byte 0 = 6 → e.PrivateFits stream e.descriptors r) ∧
    (0x80 ≤ e.byte 0 → r.audioFree = true → e.RegFits stream)

instance : Decidable (e.Fits stream r) := by
  unfold Fits
  infer_instance

theorem spans_inside_iff (h : stream + e.coded_length + 4 ≤ sectionSize) :
    AllInside Area.size (e.spans stream r) ↔ e.Fits stream r := by
  have hlang := langSpans_inside h
  unfold spans Fits
  dsimp only
  by_cases hprivate : e.byte 0 = 6
  · rw [if_neg (by omega), if_neg (by omega), if_neg (by omega), if_pos hprivate,
      privateSpans_inside_iff (fun i hi => mem_descriptors_le h hi) h]
    exact ⟨fun hall => ⟨fun _ => hall, by omega⟩, fun hall => hall.1 hprivate⟩
  by_cases hreg : 0x80 ≤ e.byte 0
  · rw [if_neg (by omega), if_neg (by omega), if_neg (by omega), if_neg hprivate, allInside_if_else_nil,
      allInside_append, regSpans_inside_iff h, allInside_if_else_nil]
    constructor
    · exact fun hall => ⟨fun h6 => absurd h6 hprivate, fun _ haudio => (hall ⟨haudio, hreg⟩).1⟩
    · exact fun hall haudio => ⟨hall.2 hreg haudio.1, fun _ => hlang⟩
  · refine iff_of_true ?_ ⟨fun h6 => absurd h6 hprivate, fun h80 => absurd h80 hreg⟩
    have hno : ¬(r.audioFree = true ∧ 0x80 ≤ e.byte 0) := fun haudio => hreg haudio.2
    simp only [if_neg hprivate, if_neg hno]
    split_ifs
    · exact allInside_nil
    · exact hlang
    · exact allInside_nil
    · exact allInside_nil
    · exact allInside_nil

end Es

/-- What is read of the elementary streams is in the memory. -/
def EsFits (mem : ℕ → Byte) : ℕ → ℕ → ℕ → Reader → Prop
  | 0, _, _, _ => True
  | fuel + 1, stream, section_length, r =>
    let e : Es := ⟨fun i => mem (stream + i)⟩
    0 < section_length → e.coded_length ≤ section_length →
      e.Fits stream r ∧
        EsFits mem fuel (stream + e.coded_length) (section_length - e.coded_length) (e.nextReader r)

instance instDecidableEsFits : ∀ (fuel stream section_length : ℕ) (r : Reader),
    Decidable (EsFits mem fuel stream section_length r)
  | 0, _, _, _ => isTrue trivial
  | fuel + 1, _, _, _ =>
    have := instDecidableEsFits fuel
    by unfold EsFits; infer_instance

theorem esSpans_inside_iff {fuel : ℕ} (h : stream + section_length + 4 ≤ sectionSize) :
    AllInside Area.size (esSpans mem fuel stream section_length r) ↔
      EsFits mem fuel stream section_length r := by
  induction fuel generalizing stream section_length r with
  | zero => exact iff_of_true allInside_nil trivial
  | succ fuel ih =>
    unfold esSpans EsFits
    dsimp only
    by_cases hpos : 0 < section_length
    · rw [if_pos hpos, allInside_cons, inside_buffer, and_iff_right (by omega), allInside_if_nil,
        Nat.not_lt]
      refine Iff.trans (imp_congr_right fun hcoded => ?_) (imp_iff_right hpos).symm
      rw [allInside_cons, inside_buffer, and_iff_right (by omega), allInside_append,
        Es.spans_inside_iff (by omega), ih (by omega)]
    · rw [if_neg hpos]
      exact iff_of_true (by decide) fun hlt => absurd hlt hpos

/-! ## Map tables -/

/-- What is read of a table whose checksum is right. -/
def TableFits (mem : ℕ → Byte) (section_length : ℕ) (r : Reader) : Prop :=
  13 + programInfoLength mem ≤ section_length →
    EsFits mem (section_length + 1) (12 + programInfoLength mem)
      (section_length - (13 + programInfoLength mem)) { r with no_spu_langs := 0 }

instance : Decidable (TableFits mem section_length r) := by
  unfold TableFits
  infer_instance

theorem tableSpans_inside_iff (h : section_length + 3 ≤ sectionSize) :
    AllInside Area.size (tableSpans mem section_length r) ↔ TableFits mem section_length r := by
  have hinfo : Span.Inside Area.size ⟨.buffer, 10, 2⟩ := by decide
  unfold tableSpans TableFits
  rw [allInside_cons, and_iff_right hinfo, allInside_if_nil, Nat.not_lt]
  exact imp_congr_right fun hle => esSpans_inside_iff (by omega)

/-- The packet reaches to where the copy starts, no more has been written than the section has, and a
section that the packet brings to `section_length` bytes is not empty and fits into the memory. -/
def AppendFits (p : Packet) (pkt section_length : ℕ) (s : Section) (r : Reader) : Prop :=
  pkt + 5 ≤ pktSize ∧ s.write ≤ section_length + 3 ∧
    (section_length + (pkt + 5) ≤ s.write + pktSize →
      0 < section_length ∧ section_length + 3 ≤ sectionSize ∧
      ((s.copy p pkt section_length).Accepted section_length →
        TableFits (s.copy p pkt section_length).mem section_length r))

instance : Decidable (AppendFits p pkt section_length s r) := by
  unfold AppendFits
  infer_instance

theorem coded_toNat {coded : ℤ} (h : 0 ≤ coded) (hlt : coded ≤ bodySize) :
    (coded % 2 ^ 32).toNat = coded.toNat := by
  unfold bodySize at hlt
  rw [Int.emod_eq_of_lt h (by omega)]

theorem sectionSize_lt_coded {coded : ℤ} (h : coded < 0) (hlt : -2 ^ 20 < coded) :
    sectionSize < (coded % 2 ^ 32).toNat := by
  unfold sectionSize
  omega

theorem codedLength_nonneg_iff {write : ℕ} :
    0 ≤ codedLength pkt section_length write ↔ pkt + 5 ≤ pktSize ∧ write ≤ section_length + 3 := by
  unfold codedLength bodySize pktSize
  omega

theorem codedLength_le {write : ℕ} : codedLength pkt section_length write ≤ bodySize := by
  unfold codedLength
  omega

theorem copy_write (h : 0 ≤ codedLength pkt section_length s.write) :
    (s.copy p pkt section_length).write ≤ section_length + 3 ∧
      (section_length + 3 ≤ (s.copy p pkt section_length).write ↔
        section_length + 3 + (pkt + 5) ≤ s.write + pktSize) ∧
      (section_length ≤ (s.copy p pkt section_length).write ↔
        section_length + (pkt + 5) ≤ s.write + pktSize) ∧
      ((s.copy p pkt section_length).write : ℤ) =
        s.write + codedLength pkt section_length s.write := by
  have hwritten : (s.copy p pkt section_length).write =
      s.write + (codedLength pkt section_length s.write % 2 ^ 32).toNat := rfl
  rw [hwritten, coded_toNat h codedLength_le]
  unfold codedLength bodySize at *
  unfold pktSize
  omega

theorem appendSpans_inside_iff (hpkt : pkt ≤ pktSize) (hlength : section_length < 2 ^ 10)
    (hwrite : s.write ≤ sectionSize) :
    AllInside Area.size (appendSpans p pkt section_length s r) ↔ AppendFits p pkt section_length s r := by
  have hwritten : (s.copy p pkt section_length).write =
      s.write + (codedLength pkt section_length s.write % 2 ^ 32).toNat := rfl
  unfold appendSpans AppendFits
  dsimp only
  rw [allInside_cons, allInside_cons, inside_packet, inside_buffer, ← and_assoc (a := pkt + 5 ≤ pktSize),
    ← codedLength_nonneg_iff]
  rcases Int.lt_or_le (codedLength pkt section_length s.write) 0 with hneg | hpos
  · have hbig := sectionSize_lt_coded hneg (by
      unfold codedLength bodySize
      unfold pktSize at hpkt
      unfold sectionSize at hwrite
      omega)
    exact iff_of_false (fun hall => by omega) fun hall => by omega
  obtain ⟨hle, -, hdone, hsum⟩ := copy_write (p := p) hpos
  have hpacket : pkt + 5 + (codedLength pkt section_length s.write % 2 ^ 32).toNat ≤ pktSize := by
    rw [coded_toNat hpos codedLength_le]
    unfold codedLength bodySize at *
    unfold pktSize
    omega
  rw [and_iff_right hpacket, and_iff_right hpos, allInside_if_nil, Nat.not_lt, ← hwritten, hdone,
    allInside_cons, allInside_cons, allInside_cons, allInside_if_else_nil, inside_buffer, inside_buffer]
  have hcrc : Span.Inside Area.size ⟨.buffer, 0, crcLength section_length⟩ ↔
      0 + crcLength section_length ≤ sectionSize := inside_buffer
  rw [hcrc]
  constructor
  · rintro ⟨-, hall⟩ hreached
    obtain ⟨hfirst, hword, -, htable⟩ := hall hreached
    rcases Nat.eq_zero_or_pos section_length with rfl | hlengthPos
    · rw [crcLength_zero] at hfirst
      unfold sectionSize at hfirst
      omega
    · exact ⟨hlengthPos, hword, fun hacc => (tableSpans_inside_iff hword).1 (htable hacc)⟩
  · intro hall
    constructor
    · by_cases hreached : section_length + (pkt + 5) ≤ s.write + pktSize
      · exact hle.trans (hall hreached).2.1
      · have hlt := mt hdone.1 hreached
        unfold sectionSize
        omega
    · intro hreached
      obtain ⟨hlengthPos, hword, htable⟩ := hall hreached
      rw [crcLength_of_pos hlengthPos (by omega)]
      exact ⟨by omega, hword, by omega, fun hacc => (tableSpans_inside_iff hword).2 (htable hacc)⟩

/-- What a packet of a map table may be, with what is in the memory for it. -/
def PmtFits (p : Packet) (offset program_number : ℕ) (pmt : Option Section) (r : Reader) : Prop :=
  offset + 4 < pktSize ∧
    (sectionStart p offset ≤ pktSize →
      if p.payload_unit_start_indicator then
        sectionStart p offset + 12 < pktSize ∧
          (¬skipsSection p (sectionStart p offset) program_number →
            AppendFits p (sectionStart p offset) (sectionLength p.mem (sectionStart p offset + 5))
              (Section.alloc p) r)
      else ∀ s ∈ pmt, AppendFits p (sectionStart p offset) (sectionLength s.mem 0) s r)

instance {pmt : Option Section} : Decidable (PmtFits p offset program_number pmt r) := by
  unfold PmtFits
  infer_instance

theorem sectionLength_lt {start : ℕ} : sectionLength mem start < 2 ^ 10 :=
  Nat.and_lt_two_pow _ (by decide)

theorem pmtSpans_inside_iff {pmt : Option Section} (hpmt : ∀ s ∈ pmt, s.write ≤ sectionSize) :
    AllInside Area.size (pmtSpans p offset program_number pmt r) ↔
      PmtFits p offset program_number pmt r := by
  unfold pmtSpans PmtFits
  generalize sectionStart p offset = pkt
  dsimp only
  rw [allInside_cons, inside_packet, allInside_if_nil, Nat.not_lt]
  refine and_congr Iff.rfl (imp_congr_right fun hpkt => ?_)
  by_cases hpusi : p.payload_unit_start_indicator = true
  · rw [if_pos hpusi, if_pos hpusi, allInside_cons, inside_packet, allInside_if_nil,
      appendSpans_inside_iff hpkt sectionLength_lt (Nat.zero_le _)]
    exact and_congr (by omega) Iff.rfl
  · rw [if_neg hpusi, if_neg hpusi]
    cases pmt with
    | none => exact iff_of_true allInside_nil fun s hs => nomatch hs
    | some s =>
      have hhead : Span.Inside Area.size ⟨.buffer, 1, 2⟩ := by decide
      dsimp only
      rw [allInside_cons, and_iff_right hhead,
        appendSpans_inside_iff hpkt sectionLength_lt (hpmt s rfl)]
      simp only [Option.mem_def, Option.some.injEq, forall_eq']

end Xine.DemuxTs
