import Xine.MpegBlock.Clocks

/-!
# Clocks in headers

The headers with a clock in the standard encoding, and which clocks the demuxers read exactly.
-/

namespace Xine.MpegBlock

open Octets (Byte)

/-- The clocks of a packet. -/
structure PesClocks where
  pts : ℕ
  dts : Option ℕ
  pts_lt : pts < 2 ^ 33
  dts_lt : ∀ d ∈ dts, d < 2 ^ 33

def Clock.bytes (b : Clock) : List Byte := [b.b0, b.b1, b.b2, b.b3, b.b4]

def PesClocks.bytes (c : PesClocks) : List Byte :=
  match c.dts with
  | none => (Clock.ofTime 2 c.pts).bytes
  | some d => (Clock.ofTime 3 c.pts).bytes ++ (Clock.ofTime 1 d).bytes

/-- The header of a packet of MPEG-1: stuffing, perhaps the size of a buffer, and the clocks. -/
def Pes1 (block : List Byte) (p : ℕ) (c : PesClocks) : Prop :=
  ∃ id l1 l0 stuffed std rest,
    (std = [] ∨ ∃ s s' : Byte, std = [s, s'] ∧ s.toNat / 2 ^ 6 = 1) ∧
    block.drop p = [0, 0, 1, id, l1, l0] ++ (List.replicate stuffed 0xFF ++ (std ++ (c.bytes ++ rest)))

/-- The header of a packet of MPEG-2 that is not scrambled. -/
def Pes2 (block : List Byte) (p : ℕ) (c : PesClocks) : Prop :=
  ∃ (id l1 l0 b6 flags hl : Byte) (rest : List Byte), b6.toNat / 2 ^ 4 = 8 ∧
    flags.toNat / 2 ^ 6 = (if c.dts = none then 2 else 3) ∧
    block.drop p = [0, 0, 1, id, l1, l0, b6, flags, hl] ++ (c.bytes ++ rest)

/-- The header of a pack with a clock, and as many bytes behind it as the demuxer looks at. -/
def Pack (block : List Byte) (p : ℕ) (b : Clock) (more : ℕ) : Prop :=
  ∃ rest, more ≤ rest.length ∧ block.drop p = [0, 0, 1, 0xBA] ++ (b.bytes ++ rest)

variable {block l : List Byte} {p pre t : ℕ} {this : Demuxer} {c : PesClocks}

theorem byte_drop (h : block.drop p = l) (i : ℕ) : byte block (p + i) = byte l i := by
  unfold byte
  rw [← h, List.getElem?_drop]

theorem clock_drop (h : block.drop p = l) (i : ℕ) : clock block (p + i) = clock l i := by
  unfold clock
  rw [← h, List.drop_drop]

theorem word_drop (h : block.drop p = l) (i : ℕ) : word block (p + i) = word l i := by
  unfold word
  rw [byte_drop h, Nat.add_assoc, byte_drop h]

theorem bmod_eq_iff {n : ℕ} : Int.bmod n (2 ^ 32) = t ↔ n % 2 ^ 32 = t ∧ t < 2 ^ 31 := by
  have hlt := @Int.bmod_lt n (2 ^ 32) (by decide)
  have hmod : Int.bmod n (2 ^ 32) % (2 ^ 32 : ℕ) = n % (2 ^ 32 : ℕ) := Int.bmod_emod
  constructor
  · intro h
    rw [h] at hlt hmod
    omega
  · rintro ⟨heq, h⟩
    rw [← Int.emod_bmod, ← heq]
    exact Int.bmod_eq_of_le (by omega) (by omega)

theorem stamp_eq_iff (hpre : pre < 2 ^ 4) (ht : t < 2 ^ 33) : (Clock.ofTime pre t).stamp = t ↔ t < 2 ^ 31 := by
  rw [stamp_ofTime hpre ht, bmod_eq_iff]
  omega

theorem scr1_eq_iff (ht : t < 2 ^ 33) : (Clock.ofTime 2 t).scr1 = t ↔ t < 2 ^ 30 := by
  rw [scr1_ofTime (by decide), bmod_eq_iff]
  omega

theorem scr2_eq_iff (ext : ℕ) : (Clock.ofScr t ext).scr2 = t ↔ t < 2 ^ 31 := by
  rw [scr2_ofScr, bmod_eq_iff]
  omega

/-- The clocks that are read from a header are these. -/
def Reads (c : PesClocks) (this : Demuxer) : Prop :=
  ∃ pre < 2 ^ 4, this.pts = (Clock.ofTime pre c.pts).stamp ∧ ∀ d ∈ c.dts, this.dts = (Clock.ofTime 1 d).stamp

theorem Reads.eq_iff (h : Reads c this) :
    (this.pts = c.pts ↔ c.pts < 2 ^ 31) ∧ ∀ d ∈ c.dts, (this.dts = d ↔ d < 2 ^ 31) := by
  obtain ⟨pre, hpre, hpts, hdts⟩ := h
  refine ⟨hpts ▸ stamp_eq_iff hpre c.pts_lt, fun d hd => ?_⟩
  exact hdts d hd ▸ stamp_eq_iff (by decide) (c.dts_lt d hd)

theorem parsePes_pes2 (h : Pes2 block p c) (hmpeg : this.mpeg1 = false) :
    ∃ r, parsePesForPts block this p = some r ∧ Reads c r.2 := by
  obtain ⟨id, l1, l0, b6, flags, hl, rest, hb6, hflags, hblock⟩ := h
  have hC0 : b6.toNat &&& 0xC0 = 0x80 := (and_mask _ 6 2).trans (by omega)
  have h30 : b6.toNat &&& 0x30 = 0 := (and_mask _ 4 2).trans (by omega)
  have h80 : flags.toNat &&& 0x80 = flags.toNat / 2 ^ 7 % 2 ^ 1 * 2 ^ 7 := and_mask _ 7 1
  have h40 : flags.toNat &&& 0x40 = flags.toNat / 2 ^ 6 % 2 ^ 1 * 2 ^ 6 := and_mask _ 6 1
  have hword : word block (p + 4) = some (l1.toNat <<< 8 ||| l0.toNat) := (word_drop hblock 4).trans rfl
  have h6 : byte block (p + 6) = some b6.toNat := (byte_drop hblock 6).trans rfl
  have h7 : byte block (p + 7) = some flags.toNat := (byte_drop hblock 7).trans rfl
  have h8 : byte block (p + 8) = some hl.toNat := (byte_drop hblock 8).trans rfl
  have hm (packet_len : ℕ) : (estimateTimes { this with packet_len }).mpeg1 = false := hmpeg
  unfold parsePesForPts parsePesMpeg2 stampIf
  simp only [hword, hm, h6, h7, h8, hC0, h30, Option.bind_eq_bind, Option.bind_some]
  obtain ⟨pts, dts, hpts, hdts⟩ := c
  cases dts with
  | none =>
    have h9 : clock block (p + 9) = some (.ofTime 2 pts) := (clock_drop hblock 9).trans rfl
    rw [if_pos rfl] at hflags
    have h80' : flags.toNat &&& 0x80 ≠ 0 := by omega
    have h40' : ¬flags.toNat &&& 0x40 ≠ 0 := by omega
    simp only [if_pos h80', if_neg h40', h9]
    exact ⟨_, rfl, 2, by decide, rfl, nofun⟩
  | some d =>
    have h9 : clock block (p + 9) = some (.ofTime 3 pts) := (clock_drop hblock 9).trans rfl
    have h14 : clock block (p + 14) = some (.ofTime 1 d) := (clock_drop hblock 14).trans rfl
    rw [if_neg (Option.some_ne_none d)] at hflags
    have h80' : flags.toNat &&& 0x80 ≠ 0 := by omega
    have h40' : flags.toNat &&& 0x40 ≠ 0 := by omega
    simp only [if_pos h80', if_pos h40', h9, h14]
    refine ⟨_, rfl, 3, by decide, rfl, fun d' hd' => ?_⟩
    cases hd'
    rfl

theorem stuffing_replicate {bs : List Byte} {b : Byte} (hb : b.toNat < 2 ^ 7) (n : ℕ) :
    stuffing (List.replicate n 0xFF ++ b :: bs) = some n := by
  induction n with
  | zero =>
    have h80 : b.toNat &&& 0x80 = 0 := (and_mask _ 7 1).trans (by omega)
    exact if_neg (by rw [h80]; decide)
  | succ n ih =>
    have hFF : stuffing (List.replicate (n + 1) 0xFF ++ b :: bs) =
        (stuffing (List.replicate n 0xFF ++ b :: bs)).map (· + 1) := if_pos (by decide)
    rw [hFF, ih, Option.map_some]

theorem PesClocks.bytes_eq (c : PesClocks) :
    ∃ more, c.bytes = (Clock.ofTime (if c.dts = none then 2 else 3) c.pts).bytes ++ more := by
  obtain ⟨pts, dts, hpts, hdts⟩ := c
  cases dts with
  | none => exact ⟨[], (List.append_nil _).symm⟩
  | some d => exact ⟨_, rfl⟩

theorem ofTime_b0 (hpre : pre < 2 ^ 4) (t : ℕ) : (Clock.ofTime pre t).b0.toNat / 2 ^ 4 = pre := by
  simp only [Clock.ofTime, BitVec.toNat_ofNat]
  omega

theorem parsePes_pes1 (h : Pes1 block p c) (hmpeg : this.mpeg1 = true) :
    ∃ r, parsePesForPts block this p = some r ∧ Reads c r.2 := by
  obtain ⟨id, l1, l0, stuffed, std, rest, hstd, hblock⟩ := h
  obtain ⟨more, hbytes⟩ := c.bytes_eq
  generalize hpre : (if c.dts = none then 2 else 3) = pre at hbytes
  have hlt : pre ≤ 3 := by rw [← hpre]; split <;> decide
  have hb := ofTime_b0 (show pre < 2 ^ 4 by omega) c.pts
  generalize hb0 : (Clock.ofTime pre c.pts).b0 = b at hb
  have hword : word block (p + 4) = some (l1.toNat <<< 8 ||| l0.toNat) := (word_drop hblock 4).trans rfl
  have h6 : block.drop (p + 6) = List.replicate stuffed 0xFF ++ (std ++ (c.bytes ++ rest)) := by
    rw [← List.drop_drop, hblock]
    rfl
  have hbehind : block.drop (p + 6 + stuffed) = std ++ (c.bytes ++ rest) := by
    rw [← List.drop_drop, h6]
    exact List.drop_left' List.length_replicate
  have hm (packet_len : ℕ) : (estimateTimes { this with packet_len }).mpeg1 = true := hmpeg
  -- where the clocks start, behind the stuffing and the size of a buffer
  have hplace : ∃ skipped std', stuffing (block.drop (p + 6)) = some stuffed ∧
      byte block (p + 6 + stuffed) = some std' ∧
      (if std' &&& 0xc0 = 0x40 then stuffed + 2 else stuffed) = skipped ∧
      block.drop (p + 6 + skipped) = c.bytes ++ rest := by
    obtain rfl | ⟨s, s', rfl, hs⟩ := hstd
    · have hc0 : b.toNat &&& 0xc0 = 0 := (and_mask _ 6 2).trans (by omega)
      have hstart : c.bytes ++ rest = b :: ((c.bytes ++ rest).drop 1) := by rw [hbytes, ← hb0]; rfl
      refine ⟨stuffed, b.toNat, ?_, (byte_drop hbehind 0).trans (by rw [List.nil_append, hstart]; rfl), ?_, hbehind⟩
      · rw [h6, List.nil_append, hstart]
        exact stuffing_replicate (by omega) _
      rw [hc0]
      exact if_neg (by decide)
    · have hc0 : s.toNat &&& 0xc0 = 0x40 := (and_mask _ 6 2).trans (by omega)
      refine ⟨stuffed + 2, s.toNat, h6 ▸ stuffing_replicate (by omega) _, (byte_drop hbehind 0).trans rfl,
        if_pos hc0, ?_⟩
      rw [← Nat.add_assoc, ← List.drop_drop, hbehind]
      rfl
  obtain ⟨skipped, std', hstuffing, hstd', hskipped, hclocks⟩ := hplace
  have hfirst : byte block (p + 6 + skipped) = some b.toNat := 
    (byte_drop hclocks 0).trans (by rw [hbytes, ← hb0]; rfl)
  have hf0 : b.toNat &&& 0xf0 = b.toNat / 2 ^ 4 % 2 ^ 4 * 2 ^ 4 := and_mask _ 4 4
  unfold parsePesForPts parsePesMpeg1
  simp only [hword, hm, if_true, hstuffing, hstd', hskipped, hfirst, Option.bind_eq_bind, Option.bind_some]
  obtain ⟨pts, dts, hpts, hdts⟩ := c
  cases dts with
  | none =>
    rw [if_pos rfl] at hpre
    have hclock : clock block (p + 6 + skipped) = some (.ofTime 2 pts) := (clock_drop hclocks 0).trans rfl
    have h20 : b.toNat &&& 0xf0 = 0x20 := by omega
    simp only [if_pos h20, hclock]
    exact ⟨_, rfl, 2, by decide, rfl, nofun⟩
  | some d =>
    rw [if_neg (Option.some_ne_none d)] at hpre
    have hclock : clock block (p + 6 + skipped) = some (.ofTime 3 pts) := (clock_drop hclocks 0).trans rfl
    have hclock' : clock block (p + 6 + skipped + 5) = some (.ofTime 1 d) := (clock_drop hclocks 5).trans rfl
    have h20 : ¬b.toNat &&& 0xf0 = 0x20 := by omega
    have h30 : b.toNat &&& 0xf0 = 0x30 := by omega
    simp only [if_neg h20, if_pos h30, hclock, hclock']
    refine ⟨_, rfl, 3, by decide, rfl, fun d' hd' => ?_⟩
    cases hd'
    rfl

theorem byte_isSome (h : p < block.length) : ∃ b, byte block p = some b :=
  ⟨_, by unfold byte; rw [List.getElem?_eq_getElem h, Option.map_some]⟩

theorem pack_MPEG1 (h : Pack block p (.ofTime 2 t) 3) :
    ∃ r, parseProgramStreamPackHeader block this p = some r ∧ r.2.scr = (Clock.ofTime 2 t).scr1 := by
  obtain ⟨rest, hmore, hblock⟩ := h
  have hlength := congrArg List.length hblock
  simp only [List.length_drop, List.length_append, List.length_cons, List.length_nil, Clock.bytes] at hlength
  have hclock : clock block (p + 4) = some (.ofTime 2 t) := (clock_drop hblock 4).trans rfl
  have h40 : (Clock.ofTime 2 t).b0.toNat &&& 0x40 = 0 :=
    (and_mask _ 6 1).trans (by simp only [Clock.ofTime, BitVec.toNat_ofNat]; omega)
  obtain ⟨m0, hm0⟩ := @byte_isSome block (p + 9) (by omega)
  obtain ⟨m1, hm1⟩ := @byte_isSome block (p + 10) (by omega)
  obtain ⟨m2, hm2⟩ := @byte_isSome block (p + 11) (by omega)
  unfold parseProgramStreamPackHeader
  simp only [hclock, Option.bind_eq_bind, Option.bind_some, if_pos h40, hm0, hm1, hm2]
  split <;> exact ⟨_, rfl, rfl⟩

theorem pack_MPEG2 {ext : ℕ} (h : Pack block p (.ofScr t ext) 5) :
    ∃ r, parseProgramStreamPackHeader block this p = some r ∧ r.2.scr = (Clock.ofScr t ext).scr2 := by
  obtain ⟨rest, hmore, hblock⟩ := h
  have hlength := congrArg List.length hblock
  simp only [List.length_drop, List.length_append, List.length_cons, List.length_nil, Clock.bytes] at hlength
  have hclock : clock block (p + 4) = some (.ofScr t ext) := (clock_drop hblock 4).trans rfl
  have h40 : (Clock.ofScr t ext).b0.toNat &&& 0x40 = 0x40 :=
    (and_mask _ 6 1).trans (by simp only [Clock.ofScr, BitVec.toNat_ofNat]; omega)
  have h40' : ¬(Clock.ofScr t ext).b0.toNat &&& 0x40 = 0 := by omega
  obtain ⟨m0, hm0⟩ := @byte_isSome block (p + 0xA) (by omega)
  obtain ⟨m1, hm1⟩ := @byte_isSome block (p + 0xB) (by omega)
  obtain ⟨m3, hm3⟩ := @byte_isSome block (p + 0xD) (by omega)
  unfold parseProgramStreamPackHeader
  simp only [hclock, Option.bind_eq_bind, Option.bind_some, if_neg h40', hm0, hm1, hm3]
  split <;> exact ⟨_, rfl, rfl⟩

theorem ts_pes2 (h : Pes2 block p c) {mem : ℕ → Byte} (hmem : ∀ i b, block[p + i]? = some b → mem i = b)
    (m : DemuxTs.Media) {pkt_len : ℕ} (hlen : pkt_len ≠ 6) :
    (DemuxTs.demuxTsParsePesHeader m mem pkt_len).1.pts = c.pts := by
  obtain ⟨id, l1, l0, b6, flags, hl, rest, -, hflags, hblock⟩ := h
  have hread (i : ℕ) (b : Byte) (hb : (block.drop p)[i]? = some b) : mem i = b :=
    hmem i b (by rwa [List.getElem?_drop] at hb)
  rw [hblock] at hread
  have h0 := hread 0 _ rfl
  have h1 := hread 1 _ rfl
  have h2 := hread 2 _ rfl
  have h7 := hread 7 _ rfl
  obtain ⟨more, hbytes⟩ := c.bytes_eq
  rw [hbytes] at hread
  have hpts : DemuxTs.parsePts (fun i => (mem i).toNat) = c.pts :=
    parsePts_ofTime c.pts_lt (congrArg BitVec.toNat (hread 9 _ rfl)) (congrArg BitVec.toNat (hread 10 _ rfl))
      (congrArg BitVec.toNat (hread 11 _ rfl)) (congrArg BitVec.toNat (hread 12 _ rfl))
      (congrArg BitVec.toNat (hread 13 _ rfl))
  have h80 : flags.toNat &&& 0x80 ≠ 0 := by
    have hmask : flags.toNat &&& 0x80 = flags.toNat / 2 ^ 7 % 2 ^ 1 * 2 ^ 7 := and_mask _ 7 1
    split at hflags <;> omega
  unfold DemuxTs.demuxTsParsePesHeader
  simp only [h0, h1, h2, h7, if_pos h80, hpts]
  rw [if_neg (by decide), if_neg (by omega)]
  split
  · rfl
  · split <;> rfl

variable (block p this) in
/-- The transport stream demuxer reads every clock exactly; the block demuxer a time stamp and the clock of a pack of
MPEG-2 if and only if it is below `2 ^ 31`, and that of a pack of MPEG-1 if and only if it is below `2 ^ 30`. -/
theorem clocks_exact_iff :
    (∀ c, Pes2 block p c → ∀ mem : ℕ → Byte, (∀ i b, block[p + i]? = some b → mem i = b) → ∀ m pkt_len,
      pkt_len ≠ 6 → (DemuxTs.demuxTsParsePesHeader m mem pkt_len).1.pts = c.pts) ∧
    (∀ pre < 2 ^ 4, ∀ t < 2 ^ 33, (Clock.ofTime pre t).tsStamp = t) ∧
    (∀ t < 2 ^ 33, ∀ ext, ∀ data : ℕ → Byte, (data 0).toNat >>> 4 &&& 0x01 ≠ 0 →
      Clock.mk (data 1) (data 2) (data 3) (data 4) (data 5) = .ofPcr t ext →
      demuxTsAdaptationFieldParse data = t) ∧
    (∀ c, (if this.mpeg1 then Pes1 else Pes2) block p c → ∃ r, parsePesForPts block this p = some r ∧
      (r.2.pts = c.pts ↔ c.pts < 2 ^ 31) ∧ ∀ d ∈ c.dts, (r.2.dts = d ↔ d < 2 ^ 31)) ∧
    (∀ t < 2 ^ 33, Pack block p (.ofTime 2 t) 3 →
      ∃ r, parseProgramStreamPackHeader block this p = some r ∧ (r.2.scr = t ↔ t < 2 ^ 30)) ∧
    ∀ t < 2 ^ 33, ∀ ext, Pack block p (.ofScr t ext) 5 →
      ∃ r, parseProgramStreamPackHeader block this p = some r ∧ (r.2.scr = t ↔ t < 2 ^ 31) := by
  refine ⟨fun c h mem hmem m pkt_len hlen => ts_pes2 h hmem m hlen, fun pre hpre t ht => tsStamp_ofTime hpre ht,
    fun t ht ext data hflag hdata => ?_, fun c h => ?_, fun t ht h => ?_, fun t ht ext h => ?_⟩
  · unfold demuxTsAdaptationFieldParse
    rw [if_neg hflag, hdata, pcr_ofPcr ht]
  · cases hmpeg : this.mpeg1 with
    | true =>
      rw [hmpeg, if_pos rfl] at h
      obtain ⟨r, hr, hreads⟩ := parsePes_pes1 h hmpeg
      exact ⟨r, hr, hreads.eq_iff⟩
    | false =>
      rw [hmpeg, if_neg Bool.false_ne_true] at h
      obtain ⟨r, hr, hreads⟩ := parsePes_pes2 h hmpeg
      exact ⟨r, hr, hreads.eq_iff⟩
  · obtain ⟨r, hr, hscr⟩ := @pack_MPEG1 block p t this h
    exact ⟨r, hr, hscr ▸ scr1_eq_iff ht⟩
  · obtain ⟨r, hr, hscr⟩ := @pack_MPEG2 block p t this ext h
    exact ⟨r, hr, hscr ▸ scr2_eq_iff ext⟩

/-- Not every time stamp is read exactly: that of `2 ^ 31` is not. -/
theorem not_clocks_exact : ¬∀ (block : List Byte) (p : ℕ) (this : Demuxer) (c : PesClocks), this.mpeg1 = false →
    Pes2 block p c → ∃ r, parsePesForPts block this p = some r ∧ r.2.pts = c.pts := by
  intro h
  let this : Demuxer := {
    finished := false, audio_fifo := true, rate := 0, nav_last_end_pts := 0, nav_last_start_pts := 0
    last_pts := fun _ => 0, send_newpts := false, preview_mode := false, buf_flag_seek := false, scr := 0
    packet_len := 0, pts := 0, dts := 0, stream_id := 0xE0, mpeg1 := false, last_cell_time := 0, last_cell_pos := 0
    last_begin_time := 0, buf := ⟨0, 0, 0, 0, fun _ => 0, 0, ⟨0, 0, 0, 0⟩⟩, disposals := [], newpts := [] }
  obtain ⟨r, hr, hpts⟩ := h ([0, 0, 1, 0xE0, 0, 8, 0x80, 0x80, 5] ++ (Clock.ofTime 2 (2 ^ 31)).bytes) 0 this
    ⟨2 ^ 31, none, by decide, nofun⟩ rfl
    ⟨0xE0, 0, 8, 0x80, 0x80, 5, [], by decide, by decide, rfl⟩
  have heval : (parsePesForPts ([0, 0, 1, 0xE0, 0, 8, 0x80, 0x80, 5] ++ (Clock.ofTime 2 (2 ^ 31)).bytes) this 0).map
      (·.2.pts) = some (-2 ^ 31) := by decide
  rw [hr, Option.map_some, Option.some.injEq, hpts] at heval
  exact absurd heval (by decide)

end Xine.MpegBlock
