import Mathlib.Data.List.Forall2
import Xine.Asf.Sending

/-!
# Objects are put together again

In a run whose steps meet the condition, the units that a decoder finds in the fifo of a stream are the objects of
the stream, one by one: their bytes, de-interleaved where they are scrambled, with their time in the first buffer
and the end of the frame in the last.
-/

namespace Xine.Asf

open Octets Runs

variable {h : Headers} {k : Kind} {objects : List Carried} {s s' : AsfStream} {c : Carried}
  {o : MediaObject} {len : ℕ}

/-! ## The invariant of a stream -/

/-- No object goes on, or it is skipped. -/
structure Resting (h : Headers) (k : Kind) (objects : List Carried) (s : AsfStream) : Prop where
  pending : s.decoder.pending = []
  units : List.Forall₂ (Carried.IsUnit h k) (h.sent k objects) s.decoder.units
  offset : s.frag_offset = 0 ∨ s.skip = true
  last : ∀ c, objects.getLast? = some c → c.complete = false →
    c.taken = false ∧ s.skip = true ∧ 0 < c.len

/-- The object `c`, which comes behind `objects`, goes on. -/
structure Going (h : Headers) (k : Kind) (objects : List Carried) (c : Carried) (s : AsfStream) :
    Prop where
  taken : c.taken = true
  len_pos : 0 < c.len
  len_lt : c.len < c.object.bytes.length
  size : c.object.bytes.length < 2^31
  seq_lt : c.object.seq < 2^32
  skip : s.skip = false
  frag_offset : s.frag_offset = c.len
  seq : s.seq = asInt c.object.seq
  units : List.Forall₂ (Carried.IsUnit h k) (h.sent k objects) s.decoder.units
  store :
    if h.defrag k then
      s.decoder.pending = [] ∧ s.buffer = c.object.bytes.take c.len ∧
        s.timestamp = c.object.timestamp ∧ h.reorder = h.audio_reorder
    else
      Chain s.decoder.pending (c.object.bytes.take c.len) false (90 * c.object.timestamp)

/-- The invariant of a stream. -/
structure StreamInv (h : Headers) (k : Kind) (objects : List Carried) (s : AsfStream) : Prop where
  first_seq : s.frag_offset ≠ 0 → s.first_seq = false
  state : Resting h k objects s ∨ ∃ before c, objects = before ++ [c] ∧ Going h k before c s

theorem StreamInv.of_same (hinv : StreamInv h k objects s) (hsame : s.Same s') :
    StreamInv h k objects s' := by
  obtain ⟨hcore, hdec⟩ := hsame
  obtain ⟨seq, frag_offset, timestamp, buffer, skip, resync, first_seq, fifo⟩ := s
  obtain ⟨seq', frag_offset', timestamp', buffer', skip', resync', first_seq', fifo'⟩ := s'
  simp only [AsfStream.core, AsfStream.mk.injEq, and_true] at hcore
  obtain ⟨rfl, rfl, rfl, rfl, rfl, rfl, rfl⟩ := hcore
  refine ⟨hinv.first_seq, ?_⟩
  rcases hinv.state with hrest | ⟨before, c, hobjects, hgoing⟩
  · refine Or.inl ⟨?_, ?_, hrest.offset, hrest.last⟩
    · rw [hdec]
      exact hrest.pending
    · rw [hdec]
      exact hrest.units
  · refine Or.inr ⟨before, c, hobjects, ?_⟩
    obtain ⟨h₁, h₂, h₃, h₄, h₅, h₆, h₇, h₈, hunits, hstore⟩ := hgoing
    refine ⟨h₁, h₂, h₃, h₄, h₅, h₆, h₇, h₈, ?_, ?_⟩
    · rw [hdec]
      exact hunits
    · rw [hdec]
      exact hstore

theorem sent_append (h : Headers) (k : Kind) (objects objects' : List Carried) :
    h.sent k (objects ++ objects') = h.sent k objects ++ h.sent k objects' := List.filter_append ..

theorem sent_singleton_nil (hc : (c.taken && (c.complete || !h.defrag k)) = false) :
    h.sent k [c] = [] := by
  unfold Headers.sent
  rw [List.filter_cons, if_neg (by rw [hc]; exact Bool.false_ne_true), List.filter_nil]

theorem sent_singleton (hc : (c.taken && (c.complete || !h.defrag k)) = true) : h.sent k [c] = [c] := by
  unfold Headers.sent
  rw [List.filter_cons, if_pos hc, List.filter_nil]

theorem isUnit_incomplete {bufs : List BufElement} (hcomplete : c.complete = false)
    (hchain : Chain bufs (c.object.bytes.take c.len) false (90 * c.object.timestamp)) :
    c.IsUnit h k ⟨bufs, false⟩ := by
  refine ⟨hcomplete.symm, c.object.bytes.take c.len, ?_, ?_⟩
  · rwa [hcomplete]
  · rw [hcomplete]
    exact rfl

theorem isUnit_complete {bufs : List BufElement} {content : List Byte} (hcomplete : c.complete = true)
    (hchain : Chain bufs content true (90 * c.object.timestamp))
    (hsends : h.Sends k c.object.bytes content) : c.IsUnit h k ⟨bufs, true⟩ := by
  refine ⟨hcomplete.symm, content, ?_, ?_⟩
  · rwa [hcomplete]
  · rw [hcomplete]
    exact hsends

theorem StreamInv.assembled (hinv : StreamInv h k objects s) : Assembled h k objects s := by
  unfold Assembled Decoder.all
  rcases hinv.state with hrest | ⟨before, c, rfl, hgoing⟩
  · rw [if_pos hrest.pending]
    exact hrest.units
  · have hstore := hgoing.store
    have hcomplete : c.complete = false := decide_eq_false hgoing.len_lt.ne
    rw [sent_append]
    split_ifs at hstore with hdefrag
    · rw [if_pos hstore.1, sent_singleton_nil (by rw [hcomplete, hdefrag, Bool.not_true, Bool.or_false,
        Bool.and_false]), List.append_nil]
      exact hgoing.units
    · rw [if_neg hstore.ne_nil, sent_singleton (by rw [hgoing.taken, Bool.eq_false_iff.2 hdefrag,
        Bool.not_false, Bool.or_true, Bool.and_self])]
      exact List.rel_append hgoing.units (.cons (isUnit_incomplete hcomplete hstore) .nil)

/-! ## The sequence number -/

theorem asInt_of_lt {n : ℕ} (hn : n < 2^31) : asInt n = n := Int.bmod_eq_of_le (by omega) (by omega)

theorem asInt_emod {n : ℕ} (hn : n < 2^32) : asInt n % 2^32 = n := by
  unfold asInt
  have hmod : Int.bmod n (2^32) % ((2^32 : ℕ) : ℤ) = (n : ℤ) % ((2^32 : ℕ) : ℤ) := Int.bmod_emod
  omega

theorem checkSeq_kept (this : DemuxAsf) (k : Kind) (seq : ℕ) :
    Kept k this (checkSeq this k seq) ∧ (checkSeq this k seq).input = this.input := by
  have hpacket := checkSeq_toPacket this k seq
  refine ⟨⟨?_, ?_⟩, congrArg Packet.input hpacket⟩
  · rw [hpacket]
  · unfold checkSeq
    dsimp only
    split_ifs
    · cases k <;> exact AsfStream.Same.rfl
    · cases k <;> exact AsfStream.Same.rfl

theorem checkSeq_stream_of_eq {this : DemuxAsf} {seq : ℕ}
    (hseq : expSeq (this.stream k) this.seqType seq = seq) :
    (checkSeq this k seq).stream k = { this.stream k with first_seq := false } := by
  unfold checkSeq
  dsimp only
  rw [if_neg (not_not.2 hseq), stream_setStream]

theorem checkSeq_stream (this : DemuxAsf) (k : Kind) (seq : ℕ) :
    let s := this.stream k
    let s' := (checkSeq this k seq).stream k
    s'.seq = s.seq ∧ s'.frag_offset = s.frag_offset ∧ s'.timestamp = s.timestamp ∧
      s'.buffer = s.buffer ∧ s'.first_seq = false ∧
      (s'.decoder = s.decoder ∨ s'.decoder = s.decoder.feed .resetDecoder) ∧
      (expSeq s this.seqType seq ≠ seq → s'.decoder = s.decoder.feed .resetDecoder) := by
  by_cases hseq : expSeq (this.stream k) this.seqType seq = seq
  · dsimp only
    rw [checkSeq_stream_of_eq hseq]
    exact ⟨rfl, rfl, rfl, rfl, rfl, Or.inl rfl, fun hno => absurd hseq hno⟩
  · have hdec : ((checkSeq this k seq).stream k).decoder =
        (this.stream k).decoder.feed .resetDecoder := by
      unfold checkSeq AsfStream.decoder
      dsimp only
      rw [if_pos hseq]
      cases k with
      | audio => exact List.foldl_append
      | video => exact List.foldl_append
    refine ⟨?_, ?_, ?_, ?_, ?_, Or.inr hdec, fun _ => hdec⟩
    all_goals
      unfold checkSeq
      dsimp only
      rw [if_pos hseq]
      cases k <;> rfl

/-! ## The start of an object -/

theorem checkSeq_clean {this : DemuxAsf} (hinv : StreamInv h k objects (this.stream k))
    (hreg : h.defrag k = false → RegularNodefrag (this.stream k) o) :
    let s' := (checkSeq this k o.seq).stream k
    s'.decoder.pending = [] ∧ List.Forall₂ (Carried.IsUnit h k) (h.sent k objects) s'.decoder.units := by
  obtain ⟨-, -, -, -, -, hdec, hreset⟩ := checkSeq_stream this k o.seq
  have hfeed (d : Decoder) (hd : d.pending = []) : d.feed .resetDecoder = d := if_pos hd
  rcases hinv.state with hrest | ⟨before, c, rfl, hgoing⟩
  · -- there is nothing to drop
    rw [hfeed _ hrest.pending, or_self] at hdec
    dsimp only
    rw [hdec]
    exact ⟨hrest.pending, hrest.units⟩
  · have hcomplete : c.complete = false := decide_eq_false hgoing.len_lt.ne
    have hstore := hgoing.store
    rw [sent_append]
    by_cases hdefrag : h.defrag k = true
    · -- the bytes of the last object have not been sent
      rw [if_pos hdefrag] at hstore
      rw [hfeed _ hstore.1, or_self] at hdec
      rw [sent_singleton_nil (by rw [hcomplete, hdefrag, Bool.not_true, Bool.or_false,
        Bool.and_false]), List.append_nil]
      dsimp only
      rw [hdec]
      exact ⟨hstore.1, hgoing.units⟩
    · -- the number is not that of the last object, so that the decoder is reset
      rw [if_neg hdefrag] at hstore
      have hlen := hgoing.len_pos
      have hne : (this.stream k).frag_offset ≠ 0 := by
        rw [hgoing.frag_offset]
        omega
      have hdiff : expSeq (this.stream k) this.seqType o.seq ≠ o.seq := by
        unfold expSeq
        rw [if_neg (by rw [hinv.first_seq hne, hgoing.skip]; simp), if_pos hne, hgoing.seq,
          asInt_emod hgoing.seq_lt]
        intro hno
        refine hreg (Bool.eq_false_iff.2 hdefrag) hne hgoing.skip ?_
        rw [hgoing.seq, Int.natCast_inj.1 hno]
      rw [sent_singleton (by rw [hgoing.taken, Bool.eq_false_iff.2 hdefrag, Bool.not_false, Bool.or_true,
        Bool.and_self])]
      dsimp only
      rw [hreset hdiff, Decoder.feed, if_neg hstore.ne_nil]
      refine ⟨rfl, ?_⟩
      exact List.rel_append hgoing.units (.cons (isUnit_incomplete hcomplete hstore) .nil)

theorem resync_spec (this : DemuxAsf) (k : Kind) (raw_id : ℕ) (timestamp : ℤ) :
    Kept k this (resync this k raw_id timestamp) ∧
      (resync this k raw_id timestamp).input = this.input ∧
        ∃ skip resync', (resync this k raw_id timestamp).stream k =
          { this.stream k with skip := skip, resync := resync' } := by
  have hkey : ∀ keyframe_ts, Kept k this { this with keyframe_ts := keyframe_ts } ∧
      ({ this with keyframe_ts := keyframe_ts } : DemuxAsf).stream k = this.stream k := by
    intro keyframe_ts
    cases k with
    | audio => exact ⟨⟨rfl, AsfStream.Same.rfl⟩, rfl⟩
    | video => exact ⟨⟨rfl, AsfStream.Same.rfl⟩, rfl⟩
  unfold resync
  dsimp only
  split_ifs
  · obtain ⟨hkept, -⟩ := hkey 1
    exact ⟨hkept.trans (kept_setStream _ _ _), setStream_input _ _ _, _, _, stream_setStream _ _ _⟩
  · obtain ⟨hkept, hstream⟩ := hkey 1
    exact ⟨hkept, rfl, _, _, hstream⟩
  · exact ⟨kept_setStream _ _ _, setStream_input _ _ _, _, _, stream_setStream _ _ _⟩
  · exact ⟨Kept.rfl, rfl, _, _, rfl⟩

theorem resting_skip {this : DemuxAsf} (hpending : (this.stream k).decoder.pending = [])
    (hunits : List.Forall₂ (Carried.IsUnit h k) (h.sent k objects) (this.stream k).decoder.units)
    (hskip : (this.stream k).skip = true) (htaken : c.taken = false) (hlen : 0 < c.len) :
    Resting h k (objects ++ [c]) (this.stream k) := by
  refine ⟨hpending, ?_, Or.inr hskip, ?_⟩
  · rw [sent_append, sent_singleton_nil (by rw [htaken, Bool.false_and]), List.append_nil]
    exact hunits
  · intro c' hc' _
    rw [List.getLast?_concat] at hc'
    cases hc'
    exact ⟨htaken, hskip, hlen⟩

theorem resting_complete {s : AsfStream} {d : Decoder} {bufs : List BufElement} {content : List Byte}
    (hunits : List.Forall₂ (Carried.IsUnit h k) (h.sent k objects) d.units)
    (htaken : c.taken = true) (hcomplete : c.complete = true)
    (hchain : Chain (d.pending ++ bufs) content true (90 * c.object.timestamp))
    (hsends : h.Sends k c.object.bytes content) (hdec : s.decoder = d.feedAll bufs true)
    (hoffset : s.frag_offset = 0) : Resting h k (objects ++ [c]) s := by
  refine ⟨?_, ?_, Or.inl hoffset, ?_⟩
  · rw [hdec]
    rfl
  · rw [sent_append, sent_singleton (by rw [htaken, hcomplete, Bool.true_or, Bool.and_self]), hdec]
    exact List.rel_append hunits (.cons (isUnit_complete hcomplete hchain hsends) .nil)
  · intro c' hc' hno
    rw [List.getLast?_concat] at hc'
    cases hc'
    exact absurd (hcomplete.symm.trans hno) (by decide)

theorem sends_arrange (hdefrag : h.defrag k = true) (hreorder : h.reorder = h.audio_reorder)
    (bytes : List Byte) :
    (h.arrange k bytes).length = bytes.length ∧ h.Sends k bytes (h.arrange k bytes) := by
  cases k with
  | audio =>
    have hscrambled : h.audio_reorder.Scrambled := of_decide_eq_true hdefrag
    have hblock : 0 < h.audio_reorder.block := by
      obtain ⟨hh, hw⟩ := hscrambled
      exact Nat.mul_pos (by omega) (Nat.mul_pos (by omega) h.reorder_b_pos)
    have hdeinterleaved := asfReorder_deinterleaved hblock bytes
    unfold Headers.Sends Headers.arrange
    rw [hreorder, if_pos ⟨rfl, hscrambled⟩, if_pos hdefrag]
    exact ⟨hdeinterleaved.length_eq, hdeinterleaved⟩
  | video => exact absurd hdefrag Bool.false_ne_true

/-- The stream can take the bytes of an object from an offset on. -/
structure Ready (h : Headers) (k : Kind) (objects : List Carried) (o : MediaObject) (off : ℕ)
    (s : AsfStream) : Prop where
  size : o.bytes.length < 2^31
  seq_lt : o.seq < 2^32
  skip : s.skip = false
  first_seq : s.first_seq = false
  frag_offset : s.frag_offset = off
  seq : s.seq = asInt o.seq
  units : List.Forall₂ (Carried.IsUnit h k) (h.sent k objects) s.decoder.units
  store :
    if h.defrag k then
      s.decoder.pending = [] ∧ s.buffer.take off = o.bytes.take off ∧
        s.timestamp = o.timestamp ∧ h.reorder = h.audio_reorder
    else
      off = 0 ∧ s.decoder.pending = [] ∨
        Chain s.decoder.pending (o.bytes.take off) false (90 * o.timestamp)

/-- What is known of a fragment. -/
structure Piece (o : MediaObject) (off len : ℕ) (data : List Byte) : Prop where
  data_eq : data = (o.bytes.drop off).take len
  pos : 0 < len
  le : off + len ≤ o.bytes.length

theorem Piece.length_eq {off : ℕ} {data : List Byte} (hp : Piece o off len data) : data.length = len := by
  have hle := hp.le
  rw [hp.data_eq, List.length_take, List.length_drop]
  omega

theorem Piece.ne_nil {off : ℕ} {data : List Byte} (hp : Piece o off len data) : data ≠ [] := by
  have hpos := hp.pos
  have hlen := hp.length_eq
  exact List.ne_nil_of_length_pos (by omega)

theorem Piece.take_append {off : ℕ} {data : List Byte} (hp : Piece o off len data) :
    o.bytes.take off ++ data = o.bytes.take (off + len) := by
  rw [hp.data_eq, List.take_add]

theorem Ready.nodefrag {this : DemuxAsf} {data rest : List Byte} {off : ℕ}
    (hready : Ready h k objects o off (this.stream k)) (hp : Piece o off len data)
    (hdefrag : h.defrag k = false) (hinput : this.input = data ++ rest) :
    let this' := nodefragLoop h k o.bytes.length data.length this o.timestamp data.length
    Kept k this this' ∧ this'.input = rest ∧ (this'.stream k).skip = false ∧
      StreamInv h k (objects ++ [⟨o, off + len, true⟩]) (this'.stream k) := by
  obtain ⟨hsize, hseq_lt, hskip, hfirst, hoffset, hseq, hunits, hstore⟩ := hready
  have hlen := hp.length_eq
  have hle := hp.le
  have hpos := hp.pos
  rw [hdefrag, if_neg Bool.false_ne_true] at hstore
  obtain ⟨hkept, hin, hcore, bufs, hbufs, hdec⟩ := nodefragLoop_spec h k o.bytes.length data.length this
    data o.timestamp hp.ne_nil le_rfl hinput (by omega)
  dsimp only at hcore hbufs hdec
  generalize nodefragLoop _ _ _ _ _ _ _ = t at hkept hin hcore hdec ⊢
  obtain ⟨hseq_t, hoffset_t, -, -, hskip_t, hfirst_t⟩ := AsfStream.of_core hcore
  dsimp only at hseq_t hoffset_t hskip_t hfirst_t
  rw [hseq] at hseq_t
  rw [hskip] at hskip_t
  rw [hfirst] at hfirst_t
  rw [hoffset, hlen] at hoffset_t hbufs hdec
  refine ⟨hkept, hin, hskip_t, fun _ => hfirst_t, ?_⟩
  -- the buffers of the object so far
  have hchain : Chain ((this.stream k).decoder.pending ++ bufs) (o.bytes.take (off + len))
      (decide ((off : ℤ) + len = o.bytes.length)) (90 * o.timestamp) := by
    rw [mul_comm] at hbufs
    rw [← hp.take_append]
    rcases hstore with ⟨rfl, hpending⟩ | hstore
    · rw [hpending, List.nil_append, List.take_zero, List.nil_append]
      exact hbufs
    · exact hstore.append hbufs
  by_cases hdone : off + len = o.bytes.length
  · have hended : decide ((off : ℤ) + len = o.bytes.length) = true := decide_eq_true (by omega)
    rw [hended] at hoffset_t hchain hdec
    refine Or.inl (resting_complete hunits rfl (decide_eq_true hdone) hchain ?_ hdec hoffset_t)
    unfold Headers.Sends
    rw [hdefrag, if_neg Bool.false_ne_true, hdone, List.take_length]
  · have hended : decide ((off : ℤ) + len = o.bytes.length) = false := decide_eq_false (by omega)
    rw [hended] at hoffset_t hchain hdec
    refine Or.inr ⟨objects, ⟨o, off + len, true⟩, rfl, ?_⟩
    constructor
    · rfl
    · exact Nat.add_pos_right off hpos
    · exact lt_of_le_of_ne hle hdone
    · exact hsize
    · exact hseq_lt
    · exact hskip_t
    · rw [hoffset_t, if_neg Bool.false_ne_true]
      exact (Int.natCast_add off len).symm
    · exact hseq_t
    · rw [hdec]
      exact hunits
    · rw [hdefrag, if_neg Bool.false_ne_true, hdec]
      exact hchain

theorem Ready.defrag {this : DemuxAsf} {data rest : List Byte} {off : ℕ}
    (hready : Ready h k objects o off (this.stream k)) (hp : Piece o off len data)
    (hdefrag : h.defrag k = true) (hfits : (off : ℤ) + len ≤ defragBufsize)
    (hinput : this.input = data ++ rest) :
    let this' := defragSend h (defragRead this k data.length) k o.bytes.length
    Kept k this this' ∧ this'.input = rest ∧ (this'.stream k).skip = false ∧
      StreamInv h k (objects ++ [⟨o, off + len, true⟩]) (this'.stream k) := by
  obtain ⟨hsize, hseq_lt, hskip, hfirst, hoffset, hseq, hunits, hstore⟩ := hready
  have hlen := hp.length_eq
  have hle := hp.le
  have hpos := hp.pos
  rw [if_pos hdefrag] at hstore
  obtain ⟨hpending, hbuffer, htimestamp, hreorder⟩ := hstore
  obtain ⟨hkept, hin, hstream⟩ := defragRead_spec hinput hoffset (by omega)
  dsimp only at hkept hin hstream
  generalize defragRead _ _ _ = t at hkept hin hstream ⊢
  rw [hbuffer, hp.take_append, hlen] at hstream
  have hdec : (t.stream k).decoder = (this.stream k).decoder := by
    rw [hstream]
    rfl
  have hseq_t : (t.stream k).seq = asInt o.seq := by rw [hstream, ← hseq]
  have hskip_t : (t.stream k).skip = false := by rw [hstream, ← hskip]
  have hfirst_t : (t.stream k).first_seq = false := by rw [hstream, ← hfirst]
  have hoffset_t : (t.stream k).frag_offset = ((off + len : ℕ) : ℤ) := by rw [hstream]
  have hbuffer_t : (t.stream k).buffer = o.bytes.take (off + len) := by rw [hstream]
  have htimestamp_t : (t.stream k).timestamp = o.timestamp := by rw [hstream, ← htimestamp]
  by_cases hdone : off + len = o.bytes.length
  · obtain ⟨harrange, hsends⟩ := sends_arrange hdefrag hreorder o.bytes
    rw [hdone, List.take_length] at hbuffer_t
    rw [hdone] at hoffset_t
    obtain ⟨hkept', hin', hcore, bufs, hbufs, hdec'⟩ := defragSend_spec
      (List.ne_nil_of_length_pos (by omega)) hoffset_t hbuffer_t rfl harrange
    dsimp only at hkept' hin' hcore hdec'
    generalize defragSend _ _ _ _ = t' at hkept' hin' hcore hdec' ⊢
    obtain ⟨-, hoffset', -, -, hskip', hfirst'⟩ := AsfStream.of_core hcore
    dsimp only at hoffset' hskip' hfirst'
    rw [htimestamp_t, mul_comm] at hbufs
    rw [hdec] at hdec'
    refine ⟨hkept.trans hkept', hin'.trans hin, hskip'.trans hskip_t,
      fun _ => hfirst'.trans hfirst_t, Or.inl ?_⟩
    refine resting_complete hunits rfl (decide_eq_true hdone) ?_ hsends hdec' hoffset'
    rw [hpending, List.nil_append]
    exact hbufs
  · have hsend : defragSend h t k o.bytes.length = t := by
      unfold defragSend
      dsimp only
      rw [hoffset_t, if_neg (by omega)]
    rw [hsend]
    refine ⟨hkept, hin, hskip_t, fun _ => hfirst_t, Or.inr ⟨objects, ⟨o, off + len, true⟩, rfl, ?_⟩⟩
    constructor
    · rfl
    · exact Nat.add_pos_right off hpos
    · exact lt_of_le_of_ne hle hdone
    · exact hsize
    · exact hseq_lt
    · exact hskip_t
    · exact hoffset_t
    · exact hseq_t
    · rw [hdec]
      exact hunits
    · rw [if_pos hdefrag, hdec]
      exact ⟨hpending, hbuffer_t, htimestamp_t, hreorder⟩

theorem sendBuffer_start (this : DemuxAsf) {data rest : List Byte}
    (hpending : (this.stream k).decoder.pending = [])
    (hunits : List.Forall₂ (Carried.IsUnit h k) (h.sent k objects) (this.stream k).decoder.units)
    (hfirst : (this.stream k).first_seq = false) (hp : Piece o 0 len data)
    (hsize : o.bytes.length < 2^31) (hseq : o.seq < 2^32)
    (hreg : h.defrag k = true → RegularDefrag h (this.stream k) o len)
    (hinput : this.input = data ++ rest) :
    let this' := sendBuffer h this k 0 o.seq o.timestamp data.length o.bytes.length
    Kept k this this' ∧ this'.input = rest ∧
      StreamInv h k (objects ++ [⟨o, len, !(this'.stream k).skip⟩]) (this'.stream k) := by
  have hlen := hp.length_eq
  have hle := hp.le
  have hdata : asInt data.length = data.length := asInt_of_lt (by omega)
  unfold sendBuffer
  obtain ⟨seq, hseq_eq⟩ : ∃ seq, seq = asInt o.seq := ⟨_, rfl⟩
  have hzero : asInt 0 = 0 := by decide
  rw [← hseq_eq, hdata, asInt_of_lt hsize, hzero]
  by_cases hskip : (this.stream k).skip = true
  · -- the object is skipped
    dsimp only
    rw [if_pos hskip, read_append hinput]
    have hstream : ({ this with input := rest } : DemuxAsf).stream k = this.stream k := by
      cases k <;> rfl
    refine ⟨?_, rfl, ?_⟩
    · cases k <;> exact ⟨rfl, AsfStream.Same.rfl⟩
    · rw [hstream]
      refine ⟨fun _ => hfirst, Or.inl (resting_skip hpending hunits hskip ?_ hp.pos)⟩
      rw [hskip]
      rfl
  · have hskip' : (this.stream k).skip = false := Bool.eq_false_iff.2 hskip
    dsimp only
    rw [if_neg hskip]
    by_cases hdefrag : h.defrag k = true
    · -- the fragment goes to the buffer of the stream
      obtain ⟨hfits, hreorder, htimestamp⟩ := hreg hdefrag
      rw [if_pos hdefrag, asfSendBufferDefrag_start]
      have htime : (if (this.stream k).frag_offset = 0 then (o.timestamp : ℤ)
          else (this.stream k).timestamp) = o.timestamp := by
        split_ifs with hzero
        · rfl
        · exact htimestamp.resolve_left hzero
      rw [htime]
      have hready : Ready h k objects o 0 ((this.setStream k { this.stream k with
          seq := seq, frag_offset := 0, timestamp := o.timestamp }).stream k) := by
        rw [stream_setStream]
        constructor
        · exact hsize
        · exact hseq
        · exact hskip'
        · exact hfirst
        · rfl
        · exact hseq_eq
        · exact hunits
        · rw [if_pos hdefrag]
          exact ⟨hpending, rfl, rfl, hreorder⟩
      obtain ⟨hkept, hin, hskip_t, hinv⟩ := hready.defrag hp hdefrag (by omega)
        ((setStream_input _ _ _).trans hinput)
      refine ⟨(kept_setStream _ _ _).trans hkept, hin, ?_⟩
      rw [hskip_t]
      rw [Nat.zero_add] at hinv
      exact hinv
    · -- the fragment goes to the fifo
      rw [if_neg hdefrag, asfSendBufferNodefrag_start]
      have hready : Ready h k objects o 0 ((this.setStream k { this.stream k with
          seq := seq, frag_offset := 0 }).stream k) := by
        rw [stream_setStream]
        constructor
        · exact hsize
        · exact hseq
        · exact hskip'
        · exact hfirst
        · rfl
        · exact hseq_eq
        · exact hunits
        · rw [if_neg hdefrag]
          exact Or.inl ⟨rfl, hpending⟩
      obtain ⟨hkept, hin, hskip_t, hinv⟩ := hready.nodefrag hp (Bool.eq_false_iff.2 hdefrag)
        ((setStream_input _ _ _).trans hinput)
      refine ⟨(kept_setStream _ _ _).trans hkept, hin, ?_⟩
      rw [hskip_t]
      rw [Nat.zero_add] at hinv
      exact hinv

/-! ## One payload -/

theorem receive_start {this : DemuxAsf} {rest ext : List Byte}
    (hinv : StreamInv h k objects (this.stream k)) (hpos : 0 < len) (hlen : len ≤ o.bytes.length)
    (hseq : o.seq < 2^32) (hsize : o.bytes.length < 2^31)
    (hreg : if h.defrag k then RegularDefrag h (this.stream k) o len
      else RegularNodefrag (this.stream k) o)
    (hinput : this.input = (o.fragment (h.streamId k) 0 len ext).data ++ rest) :
    let this' := receive h (checkSeq this k o.seq) k (o.fragment (h.streamId k) 0 len ext)
    Kept k this this' ∧ this'.input = rest ∧
      StreamInv h k (objects ++ [⟨o, len, !(this'.stream k).skip⟩]) (this'.stream k) := by
  have hp : Piece o 0 len (o.fragment (h.streamId k) 0 len ext).data :=
    ⟨rfl, hpos, by omega⟩
  obtain ⟨hkept, hin⟩ := checkSeq_kept this k o.seq
  obtain ⟨-, hoffset, htimestamp, -, hfirst, -, -⟩ := checkSeq_stream this k o.seq
  obtain ⟨hpending, hunits⟩ := checkSeq_clean hinv
    fun hdefrag => by rwa [hdefrag, if_neg Bool.false_ne_true] at hreg
  generalize checkSeq this k o.seq = t at hkept hin hoffset htimestamp hfirst hpending hunits ⊢
  obtain ⟨hkept', hin', skip, resync', hstream⟩ := resync_spec t k
    (o.fragment (h.streamId k) 0 len ext).rawId o.timestamp
  have hreceive : receive h t k (o.fragment (h.streamId k) 0 len ext) =
      sendBuffer h (resync t k (o.fragment (h.streamId k) 0 len ext).rawId o.timestamp) k 0
        o.seq o.timestamp (o.fragment (h.streamId k) 0 len ext).data.length o.bytes.length := by
    have hoffset_eq : (o.fragment (h.streamId k) 0 len ext).frag_offset = 0 := rfl
    unfold receive
    rw [if_pos hoffset_eq, hoffset_eq]
    rfl
  rw [hreceive]
  have hdecoder : ((resync t k (o.fragment (h.streamId k) 0 len ext).rawId o.timestamp).stream k).decoder =
      (t.stream k).decoder := by
    rw [hstream]
    rfl
  have hreg' : h.defrag k = true → RegularDefrag h
      ((resync t k (o.fragment (h.streamId k) 0 len ext).rawId o.timestamp).stream k) o len := by
    intro hdefrag
    rw [if_pos hdefrag] at hreg
    obtain ⟨hfits, hreorder, htime⟩ := hreg
    refine ⟨hfits, hreorder, ?_⟩
    rw [hstream]
    dsimp only
    rw [hoffset, htimestamp]
    exact htime
  obtain ⟨hkept'', hin'', hinv'⟩ := sendBuffer_start
    (resync t k (o.fragment (h.streamId k) 0 len ext).rawId o.timestamp)
    (by rw [hdecoder]; exact hpending) (by rw [hdecoder]; exact hunits) (by rw [hstream]; exact hfirst) hp
    hsize hseq hreg' (by rw [hin', hin, hinput])
  exact ⟨(hkept.trans hkept').trans hkept'', hin'', hinv'⟩

theorem receive_next {this : DemuxAsf} {rest ext : List Byte}
    (hinv : StreamInv h k objects (this.stream k)) (hlast : objects.getLast? = some c) (hpos : 0 < len)
    (hlen : c.len + len ≤ c.object.bytes.length)
    (hreg : h.defrag k = true → (this.stream k).skip = false →
      (this.stream k).frag_offset + len ≤ defragBufsize)
    (hinput : this.input = (c.object.fragment (h.streamId k) c.len len ext).data ++ rest) :
    let this' := receive h (checkSeq this k c.object.seq) k
      (c.object.fragment (h.streamId k) c.len len ext)
    Kept k this this' ∧ this'.input = rest ∧
      StreamInv h k (objects.dropLast ++ [{ c with len := c.len + len }]) (this'.stream k) := by
  have hp : Piece c.object c.len len (c.object.fragment (h.streamId k) c.len len ext).data :=
    ⟨rfl, hpos, hlen⟩
  have hlen' := hp.length_eq
  obtain ⟨hkept, hin⟩ := checkSeq_kept this k c.object.seq
  rcases hinv.state with hrest | ⟨before, c', rfl, hgoing⟩
  · -- the object is skipped
    obtain ⟨htaken, hskip, hpos'⟩ := hrest.last c hlast (decide_eq_false (by omega))
    have hexp : expSeq (this.stream k) this.seqType c.object.seq = c.object.seq :=
      if_pos (Or.inr hskip)
    have hstream := checkSeq_stream_of_eq hexp
    generalize checkSeq this k c.object.seq = t at hkept hin hstream ⊢
    have hskip_t : (t.stream k).skip = true := by rw [hstream, ← hskip]
    have hreceive : receive h t k (c.object.fragment (h.streamId k) c.len len ext) =
        { t with input := rest } := by
      have hne : ¬(c.object.fragment (h.streamId k) c.len len ext).frag_offset = 0 := hpos'.ne'
      unfold receive sendBuffer
      rw [if_neg hne, if_pos hskip_t, read_append (hin.trans hinput)]
    rw [hreceive]
    obtain ⟨before, rfl⟩ : ∃ before, objects = before ++ [c] :=
      ⟨objects.dropLast, (List.dropLast_append_getLast? c hlast).symm⟩
    have hstream' : ({ t with input := rest } : DemuxAsf).stream k =
        { this.stream k with first_seq := false } := by
      cases k <;> exact hstream
    have hunits := hrest.units
    rw [sent_append, sent_singleton_nil (by rw [htaken, Bool.false_and]), List.append_nil] at hunits
    rw [List.dropLast_concat]
    refine ⟨hkept.trans ?_, rfl, ?_, Or.inl ?_⟩
    · cases k <;> exact ⟨rfl, AsfStream.Same.rfl⟩
    · intro _
      rw [hstream']
    · refine resting_skip ?_ ?_ ?_ htaken (Nat.add_pos_left hpos' len)
      · rw [hstream']
        exact hrest.pending
      · rw [hstream']
        exact hunits
      · rw [hstream']
        exact hskip
  · rw [List.getLast?_concat] at hlast
    obtain rfl := Option.some.inj hlast
    have hoffset := hgoing.frag_offset
    have hpos' := hgoing.len_pos
    have hne : (this.stream k).frag_offset ≠ 0 := by omega
    have hexp : expSeq (this.stream k) this.seqType c'.object.seq = c'.object.seq := by
      unfold expSeq
      rw [if_neg (by rw [hinv.first_seq hne, hgoing.skip]; simp), if_pos hne, hgoing.seq,
        asInt_emod hgoing.seq_lt]
    have hstream := checkSeq_stream_of_eq hexp
    generalize checkSeq this k c'.object.seq = t at hkept hin hstream ⊢
    have hready : Ready h k before c'.object c'.len (t.stream k) := by
      rw [hstream]
      have hstore := hgoing.store
      constructor
      · exact hgoing.size
      · exact hgoing.seq_lt
      · exact hgoing.skip
      · rfl
      · exact hoffset
      · exact hgoing.seq
      · exact hgoing.units
      · split_ifs at hstore ⊢ with hdefrag
        · obtain ⟨hpending, hbuffer, htimestamp, hreorder⟩ := hstore
          refine ⟨hpending, ?_, htimestamp, hreorder⟩
          dsimp only
          rw [hbuffer, List.take_take, Nat.min_self]
        · exact Or.inr hstore
    have hreceive : receive h t k (c'.object.fragment (h.streamId k) c'.len len ext) =
        if h.defrag k then
          defragSend h (defragRead t k (c'.object.fragment (h.streamId k) c'.len len ext).data.length) k
            c'.object.bytes.length
        else
          nodefragLoop h k c'.object.bytes.length
            (c'.object.fragment (h.streamId k) c'.len len ext).data.length t c'.object.timestamp
            (c'.object.fragment (h.streamId k) c'.len len ext).data.length := by
      have hsize := hgoing.size
      have hne' : ¬(c'.object.fragment (h.streamId k) c'.len len ext).frag_offset = 0 := hpos'.ne'
      have hskip : ¬(t.stream k).skip = true := by rw [hready.skip]; exact Bool.false_ne_true
      have hoffset_t : asInt (c'.object.fragment (h.streamId k) c'.len len ext).frag_offset =
          (t.stream k).frag_offset :=
        (asInt_of_lt (hgoing.len_lt.trans hsize)).trans hready.frag_offset.symm
      have hseq_t : asInt (c'.object.fragment (h.streamId k) c'.len len ext).seq =
          (t.stream k).seq := hready.seq.symm
      have hdata : asInt (c'.object.fragment (h.streamId k) c'.len len ext).data.length =
          (c'.object.fragment (h.streamId k) c'.len len ext).data.length := asInt_of_lt (by omega)
      have hpayload_size : asInt (c'.object.fragment (h.streamId k) c'.len len ext).payload_size =
          c'.object.bytes.length := asInt_of_lt hsize
      have hne_t : (t.stream k).frag_offset ≠ 0 := by
        rw [hready.frag_offset]
        omega
      unfold receive sendBuffer
      rw [if_neg hne', if_neg hskip, hoffset_t, hseq_t, hdata, hpayload_size,
        asfSendBufferDefrag_next _ _ _ _ _ _ hne_t, asfSendBufferNodefrag_next _ _ _ _ _ _ hne_t]
      rfl
    rw [hreceive, List.dropLast_concat]
    obtain ⟨object, len', taken⟩ := c'
    obtain rfl : taken = true := hgoing.taken
    split_ifs with hdefrag
    · have hfits := hreg hdefrag hgoing.skip
      rw [hoffset] at hfits
      obtain ⟨hkept', hin', -, hinv'⟩ := hready.defrag hp hdefrag hfits (hin.trans hinput)
      exact ⟨hkept.trans hkept', hin', hinv'⟩
    · obtain ⟨hkept', hin', -, hinv'⟩ :=
        hready.nodefrag hp (Bool.eq_false_iff.2 hdefrag) (hin.trans hinput)
      exact ⟨hkept.trans hkept', hin', hinv'⟩

/-! ## Runs -/

/-- The invariant of the regular runs. -/
structure Inv (h : Headers) (w : World) : Prop where
  left : w.demux.packet_size_left = w.demux.input.length
  length_lt : w.demux.input.length < 2^32
  streams : ∀ k, StreamInv h k (w.objects k) (w.demux.stream k)

theorem Fragment.Carries.split {this : Packet} {f : Fragment} (hc : f.Carries this) :
    ∃ rest, this.input = f.encode this ++ rest ∧ (this.multiple = false → rest = []) := by
  obtain ⟨-, ⟨rest, hrest⟩, hsingle⟩ := hc
  refine ⟨rest, hrest.symm, fun hm => ?_⟩
  have heq := hsingle hm
  rw [← hrest] at heq
  exact List.append_right_eq_self.1 heq

theorem inv_payload {w : World} {f : Fragment} {objects' : DemuxAsf → List Carried} (hinv : Inv h w)
    (hcarries : f.Carries w.demux.toPacket) (hk : f.stream_id = h.streamId k) (hsize : f.payload_size ≠ 0)
    (hreceive : ∀ (this : DemuxAsf) rest, this.stream k = w.demux.stream k →
      this.input = f.data ++ rest →
      let this' := receive h (checkSeq this k f.seq) k f
      Kept k this this' ∧ this'.input = rest ∧ StreamInv h k (objects' this') (this'.stream k))
    (hobjects : ∀ this this' : DemuxAsf, this.stream k = this'.stream k →
      objects' this = objects' this') :
    Inv h (w.payload h k objects') := by
  obtain ⟨rest, hinput, hsingle⟩ := hcarries.split
  have hpayload := asfParsePayload_encode hcarries.1 hk hsize hinput hinv.left hinv.length_lt hsingle
  have hlen := congrArg List.length hinput
  have hdata : f.data.length ≤ (f.encode w.demux.toPacket).length := by
    unfold Fragment.encode
    simp only [List.length_append]
    omega
  rw [List.length_append] at hlen
  obtain ⟨hkept, hin, hstream⟩ := hreceive { w.demux with
    input := f.data ++ rest, packet_size_left := (f.data ++ rest).length } rest
    (by cases k <;> rfl) rfl
  dsimp only at hpayload
  generalize receive _ _ _ _ = t at hpayload hkept hin hstream
  have hleft : t.packet_size_left = (f.data ++ rest).length := congrArg Packet.packet_size_left hkept.packet
  rw [List.length_append] at hleft
  have hother := hkept.other
  have hstreams : ∀ j, StreamInv h j ((w.payload h k objects').objects j)
      ((w.payload h k objects').demux.stream j) := by
    intro j
    rcases Kind.eq_or_other k j with rfl | rfl
    · have hw : (w.payload h j objects').objects j = objects' (asfParsePayload h w.demux).1 ∧
          (w.payload h j objects').demux = (asfParsePayload h w.demux).1 := by
        cases j <;> exact ⟨rfl, rfl⟩
      have hstream' : (asfParsePayload h w.demux).1.stream j = t.stream j := by
        rw [hpayload]
        cases j <;> rfl
      rw [hw.1, hw.2, hobjects _ _ hstream', hstream']
      exact hstream
    · have hw : (w.payload h k objects').objects k.other = w.objects k.other ∧
          (w.payload h k objects').demux = (asfParsePayload h w.demux).1 := by
        cases k <;> exact ⟨rfl, rfl⟩
      have hstream' : (asfParsePayload h w.demux).1.stream k.other = t.stream k.other := by
        rw [hpayload]
        cases k <;> rfl
      rw [hw.1, hw.2, hstream']
      have hold := hinv.streams k.other
      cases k <;> exact hold.of_same hother
  have hdemux : (w.payload h k objects').demux = (asfParsePayload h w.demux).1 := by
    cases k <;> rfl
  refine ⟨?_, ?_, hstreams⟩
  · rw [hdemux, hpayload]
    dsimp only
    rw [hin]
    omega
  · rw [hdemux, hpayload]
    dsimp only
    rw [hin]
    have hlt := hinv.length_lt
    omega

theorem step_inv {w w' : World} {a : Action} (hinv : Inv h w) (hreg : Regular h w a)
    (hstep : step h w a = some w') : Inv h w' := by
  cases a with
  | packet packet_flags segtype frame_flag input =>
    dsimp only [step] at hstep
    split_ifs at hstep with hlt
    cases hstep
    refine ⟨rfl, hlt, fun k => ?_⟩
    have hold := hinv.streams k
    cases k <;> exact hold
  | start k object ext len =>
    dsimp only [step] at hstep
    split_ifs at hstep with hcond
    cases hstep
    obtain ⟨hpos, hle, hcarries, hlt⟩ := hcond
    obtain ⟨hsize, hreg⟩ := hreg
    have hseq : object.seq < 2^32 := by
      have hfits := hcarries.1.seq
      have htype : 2^(8 * fieldSize w.demux.toPacket.seqType) ≤ 2^32 := by
        refine Nat.pow_le_pow_right (by decide) ?_
        unfold fieldSize
        split <;> omega
      exact lt_of_lt_of_le hfits htype
    refine inv_payload hinv hcarries rfl (by change object.bytes.length ≠ 0; omega) ?_ ?_
    · intro this rest hstream hinput
      refine receive_start ?_ hpos hle hseq hsize ?_ hinput
      · rw [hstream]
        exact hinv.streams k
      · rw [hstream]
        exact hreg
    · intro this this' hstream
      rw [hstream]
  | next k ext len =>
    dsimp only [step] at hstep
    split at hstep
    · cases hstep
    · next c hlast =>
      split_ifs at hstep with hcond
      cases hstep
      obtain ⟨hpos, hle, hcarries⟩ := hcond
      refine inv_payload hinv hcarries rfl (by change c.object.bytes.length ≠ 0; omega) ?_ ?_
      · intro this rest hstream hinput
        refine receive_next ?_ hlast hpos hle ?_ hinput
        · rw [hstream]
          exact hinv.streams k
        · rw [hstream]
          exact hreg
      · intro this this' _
        rfl

theorem start_inv (h : Headers) (keyframe_ts : ℤ) (clock : Clock) (audio video : Bool × Bool × Bool) :
    Inv h (World.start keyframe_ts clock audio video) := by
  refine ⟨rfl, Nat.two_pow_pos 32, fun k => ?_⟩
  have hstream (skip resync first_seq : Bool) :
      StreamInv h k [] (AsfStream.start skip resync first_seq) := by
    refine ⟨fun hno => absurd rfl hno, Or.inl ⟨rfl, .nil, Or.inl rfl, ?_⟩⟩
    intro c hc
    exact absurd hc.symm (Option.some_ne_none c)
  cases k with
  | audio => exact hstream _ _ _
  | video => exact hstream _ _ _

/-- Sound that is scrambled in blocks of two cells by two, and a video. -/
def film : Headers where
  audio_stream_id := 1
  video_stream_id := 2
  audio_buf_size := 3
  video_buf_size := 3
  audio_reorder := ⟨2, 2, 1⟩
  reorder := ⟨2, 2, 1⟩
  stream_id_ne := by decide
  audio_buf_size_pos := by decide
  video_buf_size_pos := by decide
  reorder_b_pos := by decide

def sound₁ : MediaObject := ⟨false, 1, 5, [1, 2, 3, 4]⟩
def sound₂ : MediaObject := ⟨false, 2, 7, [5, 6, 7, 8]⟩
def picture : MediaObject := ⟨true, 9, 6, [11, 12, 13, 14, 15, 16, 17]⟩

/-- A packet with some fragments, with one byte for a sequence number, four for an offset and two for a
length. -/
def packetOf (fragments : List Fragment) : Action :=
  .packet 1 0x1D 0x82 (fragments.flatMap (Fragment.encode ⟨[], 1, 0x1D, 0x82, 0⟩))

/-- Two packets, in which the fragments of a picture and of sound take turns. -/
def filmRun : List Action := [
  packetOf [picture.fragment 2 0 4 [], sound₁.fragment 1 0 3 []],
  .start .video picture [] 4,
  .start .audio sound₁ [] 3,
  packetOf [sound₁.fragment 1 3 1 [], picture.fragment 2 4 3 []],
  .next .audio [] 1,
  .next .video [] 3]

end Xine.Asf
