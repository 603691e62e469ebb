import Xine.Asf.Payload

/-!
# Sending a fragment

What the functions that send the bytes of a fragment do to a stream, to its fifo as a decoder sees it,
and to the other stream, whose fifo receives notices of discontinuities only.
-/

namespace Xine.Asf

open Octets

variable {h : Headers} {this this' this'' : DemuxAsf} {k j : Kind} {d : Decoder}

/-! ## Streams -/

theorem Kind.eq_or_other (k j : Kind) : j = k ∨ j = k.other := by
  cases k <;> cases j <;> simp [Kind.other]

@[simp] theorem stream_setStream (this : DemuxAsf) (k : Kind) (s : AsfStream) :
    (this.setStream k s).stream k = s := by
  cases k with
  | audio => rfl
  | video => rfl

@[simp] theorem stream_setStream_other (this : DemuxAsf) (k : Kind) (s : AsfStream) :
    (this.setStream k s).stream k.other = this.stream k.other := by
  cases k with
  | audio => rfl
  | video => rfl

@[simp] theorem setStream_input (this : DemuxAsf) (k : Kind) (s : AsfStream) :
    (this.setStream k s).input = this.input := congrArg Packet.input (setStream_toPacket this k s)

/-- A stream without what its fifo has received. -/
def AsfStream.core (s : AsfStream) : AsfStream := { s with fifo := [] }

theorem AsfStream.of_core {s s' : AsfStream} (h : s'.core = s.core) :
    s'.seq = s.seq ∧ s'.frag_offset = s.frag_offset ∧ s'.timestamp = s.timestamp ∧
      s'.buffer = s.buffer ∧ s'.skip = s.skip ∧ s'.first_seq = s.first_seq := by
  obtain ⟨hseq, hoffset, htimestamp, hbuffer, hskip, -, hfirst, -⟩ := AsfStream.mk.inj h
  exact ⟨hseq, hoffset, htimestamp, hbuffer, hskip, hfirst⟩

theorem core_setOffset {s s' : AsfStream} (h : s'.core = s.core) (offset : ℤ) :
    { s' with frag_offset := offset }.core = { s with frag_offset := offset }.core :=
  congrArg (fun s : AsfStream => { s with frag_offset := offset }) h

/-- A stream stays, up to notices in its fifo. -/
structure AsfStream.Same (s s' : AsfStream) : Prop where
  core : s'.core = s.core
  decoder : s'.decoder = s.decoder

theorem AsfStream.Same.rfl {s : AsfStream} : s.Same s := ⟨Eq.refl _, Eq.refl _⟩

theorem AsfStream.Same.trans {s s' s'' : AsfStream} (h : s.Same s') (h' : s'.Same s'') : s.Same s'' :=
  ⟨h'.core.trans h.core, h'.decoder.trans h.decoder⟩

/-- The header of the packet, the time to wait for, and the other stream stay. -/
structure Kept (k : Kind) (this this' : DemuxAsf) : Prop where
  packet : { this'.toPacket with input := [] } = { this.toPacket with input := [] }
  other : (this.stream k.other).Same (this'.stream k.other)

theorem Kept.rfl : Kept k this this := ⟨Eq.refl _, AsfStream.Same.rfl⟩

theorem Kept.trans (h : Kept k this this') (h' : Kept k this' this'') : Kept k this this'' :=
  ⟨h'.packet.trans h.packet, h.other.trans h'.other⟩

theorem kept_setStream (this : DemuxAsf) (k : Kind) (s : AsfStream) :
    Kept k this (this.setStream k s) := by
  constructor
  · rw [setStream_toPacket]
  · rw [stream_setStream_other]
    exact AsfStream.Same.rfl

/-! ## Fifos -/

theorem decoder_put (this : DemuxAsf) (k : Kind) (e : Element) :
    ((this.put k e).stream k).decoder = (this.stream k).decoder.feed e := by
  unfold DemuxAsf.put AsfStream.decoder
  rw [stream_setStream]
  simp only [List.foldl_append, List.foldl_cons, List.foldl_nil]

theorem core_put (this : DemuxAsf) (k : Kind) (e : Element) :
    ((this.put k e).stream k).core = (this.stream k).core := by
  unfold DemuxAsf.put
  rw [stream_setStream]
  rfl

theorem kept_put (this : DemuxAsf) (k : Kind) (e : Element) : Kept k this (this.put k e) :=
  kept_setStream _ _ _

theorem same_newpts (s : AsfStream) (pts : ℤ) (seek : Bool) :
    s.Same { s with fifo := s.fifo ++ [.newpts pts seek] } := by
  constructor
  · rfl
  · unfold AsfStream.decoder
    simp only [List.foldl_append, List.foldl_cons, List.foldl_nil]
    rfl

theorem checkNewpts_same (this : DemuxAsf) (pts : ℤ) (k : Kind) (frame_end : Bool) (j : Kind) :
    (this.stream j).Same ((checkNewpts this pts k frame_end).stream j) := by
  have hsame : (this.stream j).Same ((checkDiscontinuity this pts k).stream j) := by
    unfold checkDiscontinuity
    dsimp only
    split_ifs
    · cases j with
      | audio => exact same_newpts _ _ _
      | video => exact same_newpts _ _ _
    · exact AsfStream.Same.rfl
  unfold checkNewpts
  cases j with
  | audio => exact hsame
  | video => exact hsame

theorem checkNewpts_toPacket (this : DemuxAsf) (pts : ℤ) (k : Kind) (frame_end : Bool) :
    (checkNewpts this pts k frame_end).toPacket = this.toPacket := by
  have hpacket : (checkDiscontinuity this pts k).toPacket = this.toPacket := by
    unfold checkDiscontinuity
    dsimp only
    split_ifs
    · exact (setStream_toPacket _ _ _).trans (setStream_toPacket _ _ _)
    · rfl
  exact hpacket

theorem kept_checkNewpts (this : DemuxAsf) (pts : ℤ) (k : Kind) (frame_end : Bool) :
    Kept k this (checkNewpts this pts k frame_end) := by
  constructor
  · rw [checkNewpts_toPacket]
  · exact checkNewpts_same this pts k frame_end k.other

/-! ## Chains of buffers -/

/-- A decoder takes buffers of which only the last can end a frame. -/
def Decoder.feedAll (d : Decoder) (bufs : List BufElement) (ended : Bool) : Decoder :=
  if ended then ⟨d.units ++ [⟨d.pending ++ bufs, true⟩], []⟩ else ⟨d.units, d.pending ++ bufs⟩

theorem feed_data (d : Decoder) (b : BufElement) : d.feed (.data b) = d.feedAll [b] b.frame_end := rfl

theorem feedAll_cons (d : Decoder) (b : BufElement) (bufs : List BufElement) (ended : Bool) :
    (d.feedAll [b] false).feedAll bufs ended = d.feedAll (b :: bufs) ended := by
  unfold Decoder.feedAll
  simp only [Bool.false_eq_true, if_false, List.append_assoc, List.singleton_append]

theorem chain_singleton (content : List Byte) (pts : ℤ) (ended : Bool) (framerate : Option ℤ) :
    Chain [⟨content, pts, ended, framerate⟩] content ended pts := by
  refine ⟨List.flatMap_singleton _ _, ⟨[], _, rfl, ?_, rfl⟩, rfl⟩
  intro b' hb'
  exact absurd hb' List.not_mem_nil

theorem Chain.append {bufs bufs' : List BufElement} {bytes bytes' : List Byte} {ended : Bool} {pts pts' : ℤ}
    (h : Chain bufs bytes false pts) (h' : Chain bufs' bytes' ended pts') :
    Chain (bufs ++ bufs') (bytes ++ bytes') ended pts := by
  obtain ⟨init, last, rfl, hinit, hlast⟩ := h.frame_end
  obtain ⟨init', last', rfl, hinit', hlast'⟩ := h'.frame_end
  refine ⟨?_, ⟨init ++ [last] ++ init', last', (List.append_assoc _ _ _).symm, ?_, hlast'⟩, ?_⟩
  · rw [List.flatMap_append, h.content, h'.content]
  · intro b hb
    rcases List.mem_append.1 hb with hb | hb
    · rcases List.mem_append.1 hb with hb | hb
      · exact hinit b hb
      · rwa [List.mem_singleton.1 hb]
    · exact hinit' b hb
  · rw [List.head?_append, ← h.pts]
    cases init with
    | nil => rfl
    | cons b init => rfl

theorem Chain.ne_nil {bufs : List BufElement} {bytes : List Byte} {ended : Bool} {pts : ℤ}
    (h : Chain bufs bytes ended pts) : bufs ≠ [] := by
  obtain ⟨init, last, rfl, -, -⟩ := h.frame_end
  exact List.append_ne_nil_of_right_ne_nil _ (List.cons_ne_nil _ _)

/-! ## The loops -/

theorem checkAndPut_spec (this : DemuxAsf) (k : Kind) (s : AsfStream) (content : List Byte) (pts : ℤ)
    (ended rate : Bool) :
    let this' := checkAndPut (this.setStream k s) k content pts ended rate
    Kept k this this' ∧ this'.input = this.input ∧ (this'.stream k).core = s.core ∧
      ∃ b, Chain [b] content ended pts ∧ (this'.stream k).decoder = s.decoder.feedAll [b] ended := by
  have hsame := checkNewpts_same (this.setStream k s) pts k ended k
  rw [stream_setStream] at hsame
  unfold checkAndPut
  dsimp only
  generalize (if ended = true ∧ rate = true then
    some (checkNewpts (this.setStream k s) pts k ended).clock.frame_duration else none) = framerate
  refine ⟨?_, ?_, ?_, ⟨content, pts, ended, framerate⟩, chain_singleton _ _ _ _, ?_⟩
  · exact ((kept_setStream this k s).trans (kept_checkNewpts _ pts k ended)).trans (kept_put _ k _)
  · have hinput := congrArg Packet.input (checkNewpts_toPacket (this.setStream k s) pts k ended)
    exact (setStream_input _ _ _).trans (hinput.trans (setStream_input _ _ _))
  · exact (core_put _ _ _).trans hsame.core
  · rw [decoder_put, hsame.decoder, feed_data]

theorem bufSize_pos (h : Headers) (k : Kind) : 0 < h.bufSize k := by
  cases k with
  | audio => exact h.audio_buf_size_pos
  | video => exact h.video_buf_size_pos

theorem nodefragLoop_spec (h : Headers) (k : Kind) (size : ℤ) {rest : List Byte} (rounds : ℕ) :
    ∀ (this : DemuxAsf) (data : List Byte) (timestamp : ℤ), data ≠ [] → data.length ≤ rounds →
      this.input = data ++ rest → (this.stream k).frag_offset + data.length ≤ size →
      let this' := nodefragLoop h k size rounds this timestamp data.length
      let frag_offset := (this.stream k).frag_offset + data.length
      let ended := decide (frag_offset = size)
      Kept k this this' ∧ this'.input = rest ∧
        (this'.stream k).core =
          { this.stream k with frag_offset := if ended then 0 else frag_offset }.core ∧
        ∃ bufs, Chain bufs data ended (timestamp * 90) ∧
          (this'.stream k).decoder = (this.stream k).decoder.feedAll bufs ended := by
  induction rounds with
  | zero =>
    intro this data timestamp hne hrounds
    exact absurd (List.eq_nil_of_length_eq_zero (by omega)) hne
  | succ rounds ih =>
    intro this data timestamp hne hrounds hinput hsize
    have hpos := List.length_pos_of_ne_nil hne
    have hbufSize := bufSize_pos h k
    -- the bytes of the first buffer, and those behind it
    obtain ⟨n, hn⟩ : ∃ n, n = min data.length (h.bufSize k) := ⟨_, rfl⟩
    have hbufsize : (if (data.length : ℤ) < h.bufSize k then (data.length : ℤ) else h.bufSize k) = n := by
      split_ifs <;> omega
    have htake : this.input.take n = data.take n := by
      rw [hinput, List.take_append_of_le_length (by omega)]
    have hdrop : this.input.drop n = data.drop n ++ rest := by
      rw [hinput, List.drop_append_of_le_length (by omega)]
    unfold nodefragLoop
    rw [if_neg (by omega)]
    have hread : this.read n = (data.take n, { this with input := data.drop n ++ rest }) := by
      unfold DemuxAsf.read
      rw [htake, hdrop]
    have hstream : ({ this with input := data.drop n ++ rest } : DemuxAsf).stream k = this.stream k := by
      cases k <;> rfl
    simp only [hbufsize, Int.toNat_natCast, hread, hstream]
    have hended : decide (size ≤ (this.stream k).frag_offset + n) =
        decide ((this.stream k).frag_offset + n = size) := decide_eq_decide.2 (by omega)
    rw [hended]
    obtain ⟨hkept, hin, hcore, b, hb, hdec⟩ := checkAndPut_spec
      { this with input := data.drop n ++ rest } k
      { this.stream k with
        frag_offset := if decide ((this.stream k).frag_offset + n = size) then 0
          else (this.stream k).frag_offset + n }
      (data.take n) (timestamp * 90) (decide ((this.stream k).frag_offset + n = size))
      (decide (k = .video))
    generalize checkAndPut _ _ _ _ _ _ = t at hkept hin hcore hdec ⊢
    have hkept' : Kept k this t := by
      refine Kept.trans ?_ hkept
      cases k <;> exact ⟨rfl, AsfStream.Same.rfl⟩
    have hfrag_offset := congrArg AsfStream.frag_offset hcore
    dsimp only [AsfStream.core] at hfrag_offset
    rcases Nat.lt_or_ge n data.length with hlt | hge
    · -- more buffers follow
      have hne' : decide ((this.stream k).frag_offset + n = size) = false := decide_eq_false (by omega)
      have hlen : (data.drop n).length = data.length - n := List.length_drop
      have hlen' : (data.length : ℤ) - n = (data.drop n).length := by omega
      rw [hne'] at hcore hb hdec hfrag_offset
      simp only [Bool.false_eq_true, if_false] at hcore hfrag_offset
      have hih := ih t (data.drop n) 0 (List.ne_nil_of_length_pos (by omega)) (by omega) hin (by omega)
      rw [hlen']
      obtain ⟨hkept'', hin', hcore', bufs, hbufs, hdec'⟩ := hih
      have htotal : (t.stream k).frag_offset + (data.drop n).length =
          (this.stream k).frag_offset + data.length := by omega
      rw [htotal] at hcore' hbufs hdec'
      refine ⟨hkept'.trans hkept'', hin', ?_, [b] ++ bufs, ?_, ?_⟩
      · rw [hcore', core_setOffset hcore]
      · have hchain := hb.append hbufs
        rwa [List.take_append_drop] at hchain
      · rw [hdec', hdec]
        exact feedAll_cons _ _ _ _
    · -- the fragment has been sent
      obtain rfl : n = data.length := by omega
      rw [Int.sub_self]
      have hstop : nodefragLoop h k size rounds t 0 0 = t := by
        cases rounds with
        | zero => rfl
        | succ rounds => exact if_pos rfl
      rw [hstop]
      rw [List.drop_length] at hin
      rw [List.take_length] at hb
      exact ⟨hkept', hin, hcore, [b], hb, hdec⟩

theorem defragLoop_spec (h : Headers) (k : Kind) (rounds : ℕ) :
    ∀ (this : DemuxAsf) (p : List Byte), p ≠ [] → p.length ≤ rounds →
      (this.stream k).frag_offset = p.length →
      let this' := defragLoop h k rounds this p
      Kept k this this' ∧ this'.input = this.input ∧
        (this'.stream k).core = { this.stream k with frag_offset := 0 }.core ∧
        ∃ bufs, Chain bufs p true ((this.stream k).timestamp * 90) ∧
          (this'.stream k).decoder = (this.stream k).decoder.feedAll bufs true := by
  induction rounds with
  | zero =>
    intro this p hne hrounds
    exact absurd (List.eq_nil_of_length_eq_zero (by omega)) hne
  | succ rounds ih =>
    intro this p hne hrounds hoffset
    have hpos := List.length_pos_of_ne_nil hne
    have hbufSize := bufSize_pos h k
    obtain ⟨n, hn⟩ : ∃ n, n = min p.length (h.bufSize k) := ⟨_, rfl⟩
    have hbufsize : (if (this.stream k).frag_offset < h.bufSize k then (this.stream k).frag_offset
        else (h.bufSize k : ℤ)) = n := by
      split_ifs <;> omega
    unfold defragLoop
    dsimp only
    rw [if_neg (by omega), hbufsize, Int.toNat_natCast]
    obtain ⟨hkept, hin, hcore, b, hb, hdec⟩ := checkAndPut_spec this k
      { this.stream k with frag_offset := (this.stream k).frag_offset - n } (p.take n)
      ((this.stream k).timestamp * 90) (decide ((this.stream k).frag_offset - n = 0)) false
    generalize checkAndPut _ _ _ _ _ _ = t at hkept hin hcore hdec ⊢
    have hfrag_offset := congrArg AsfStream.frag_offset hcore
    have htimestamp := congrArg AsfStream.timestamp hcore
    dsimp only [AsfStream.core] at hfrag_offset htimestamp
    rcases Nat.lt_or_ge n p.length with hlt | hge
    · -- more buffers follow
      have hlen : (p.drop n).length = p.length - n := List.length_drop
      obtain ⟨hkept', hin', hcore', bufs, hbufs, hdec'⟩ := ih t (p.drop n)
        (List.ne_nil_of_length_pos (by omega)) (by omega) (by omega)
      have hended : decide ((this.stream k).frag_offset - n = 0) = false := decide_eq_false (by omega)
      rw [hended] at hb hdec
      refine ⟨hkept.trans hkept', hin'.trans hin, ?_, [b] ++ bufs, ?_, ?_⟩
      · rw [hcore', core_setOffset hcore]
      · have hchain := hb.append hbufs
        rwa [List.take_append_drop] at hchain
      · rw [hdec', hdec]
        exact feedAll_cons _ _ _ _
    · -- the object has been sent
      obtain rfl : n = p.length := by omega
      have hzero : (this.stream k).frag_offset - p.length = 0 := by omega
      have hstop : defragLoop h k rounds t (p.drop p.length) = t := by
        cases rounds with
        | zero => rfl
        | succ rounds => exact if_pos (by omega)
      rw [hstop]
      have hended : decide ((this.stream k).frag_offset - p.length = 0) = true := decide_eq_true hzero
      rw [List.take_length, hended] at hb
      rw [hended] at hdec
      rw [hzero] at hcore
      exact ⟨hkept, hin, hcore, [b], hb, hdec⟩

/-! ## Fragments -/

theorem asfSendBufferNodefrag_start (h : Headers) (this : DemuxAsf) (k : Kind) (seq timestamp size : ℤ)
    (len : ℕ) :
    asfSendBufferNodefrag h this k 0 seq timestamp len size =
      nodefragLoop h k size len (this.setStream k { this.stream k with seq := seq, frag_offset := 0 })
        timestamp len := by
  unfold asfSendBufferNodefrag
  dsimp only
  by_cases hzero : (this.stream k).frag_offset = 0
  · rw [if_pos ⟨hzero, rfl⟩, Int.toNat_natCast, ← hzero]
  · rw [if_neg fun hno => hzero hno.1, if_neg fun hno => hzero hno.2.symm, if_neg (not_not.2 rfl),
      Int.toNat_natCast]

theorem asfSendBufferNodefrag_next (h : Headers) (this : DemuxAsf) (k : Kind) (timestamp size : ℤ)
    (len : ℕ) (hne : (this.stream k).frag_offset ≠ 0) :
    asfSendBufferNodefrag h this k (this.stream k).frag_offset (this.stream k).seq timestamp len size =
      nodefragLoop h k size len this timestamp len := by
  unfold asfSendBufferNodefrag
  dsimp only
  rw [if_neg fun hno => hne hno.1, if_pos ⟨rfl, rfl⟩, Int.toNat_natCast]

theorem asfSendBufferDefrag_start (h : Headers) (this : DemuxAsf) (k : Kind) (seq timestamp size : ℤ)
    (len : ℕ) :
    asfSendBufferDefrag h this k 0 seq timestamp len size =
      defragSend h (defragRead (this.setStream k { this.stream k with
        seq := seq
        frag_offset := 0
        timestamp := if (this.stream k).frag_offset = 0 then timestamp
          else (this.stream k).timestamp }) k len) k size := by
  unfold asfSendBufferDefrag
  dsimp only
  by_cases hzero : (this.stream k).frag_offset = 0
  · rw [if_pos ⟨hzero, rfl⟩, if_pos hzero, ← hzero]
  · rw [if_neg fun hno => hzero hno.1, if_neg fun hno => hzero hno.2.symm, if_neg (not_not.2 rfl),
      if_neg hzero]

theorem asfSendBufferDefrag_next (h : Headers) (this : DemuxAsf) (k : Kind) (timestamp size : ℤ)
    (len : ℕ) (hne : (this.stream k).frag_offset ≠ 0) :
    asfSendBufferDefrag h this k (this.stream k).frag_offset (this.stream k).seq timestamp len size =
      defragSend h (defragRead this k len) k size := by
  unfold asfSendBufferDefrag
  dsimp only
  rw [if_neg fun hno => hne hno.1, if_pos ⟨rfl, rfl⟩]

theorem defragRead_spec {data rest : List Byte} {off : ℕ} (hinput : this.input = data ++ rest)
    (hoff : (this.stream k).frag_offset = off) (hfits : (off : ℤ) + data.length ≤ defragBufsize) :
    let this' := defragRead this k data.length
    Kept k this this' ∧ this'.input = rest ∧
      this'.stream k = { this.stream k with
        buffer := (this.stream k).buffer.take off ++ data
        frag_offset := ((off + data.length : ℕ) : ℤ) } := by
  have hread : this.read data.length = (data, { this with input := rest }) := read_append hinput
  unfold defragRead
  dsimp only
  rw [hoff, if_neg (by omega), Int.toNat_natCast, Int.toNat_natCast, hread]
  refine ⟨?_, setStream_input _ _ _, stream_setStream _ _ _⟩
  cases k <;> exact ⟨rfl, AsfStream.Same.rfl⟩

theorem defragSend_spec {size : ℤ} {p : List Byte} (hne : p ≠ [])
    (hoff : (this.stream k).frag_offset = p.length) (hbuffer : (this.stream k).buffer = p)
    (hsize : (p.length : ℤ) = size) (harrange : (h.arrange k p).length = p.length) :
    let this' := defragSend h this k size
    Kept k this this' ∧ this'.input = this.input ∧
      (this'.stream k).core =
        { this.stream k with buffer := h.arrange k p, frag_offset := 0 }.core ∧
      ∃ bufs, Chain bufs (h.arrange k p) true ((this.stream k).timestamp * 90) ∧
        (this'.stream k).decoder = (this.stream k).decoder.feedAll bufs true := by
  have hpos := List.length_pos_of_ne_nil hne
  unfold defragSend
  dsimp only
  rw [hoff, if_pos hsize.ge, Int.toNat_natCast, hbuffer, List.take_length]
  obtain ⟨hkept, hin, hcore, bufs, hbufs, hdec⟩ := defragLoop_spec h k p.length
    (this.setStream k { this.stream k with buffer := h.arrange k p, frag_offset := p.length })
    (h.arrange k p) (List.ne_nil_of_length_pos (by omega)) harrange.le
    (by rw [stream_setStream, harrange])
  rw [stream_setStream] at hcore hbufs hdec
  refine ⟨(kept_setStream _ _ _).trans hkept, hin.trans (setStream_input _ _ _), hcore, bufs, hbufs, hdec⟩

end Xine.Asf
