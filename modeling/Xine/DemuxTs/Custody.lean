import Xine.DemuxTs.Reassembly

/-!
# The buffers of an elementary stream

Who has the buffers that `demux_ts_buffer_pes` takes from the pool of its fifo: the stream itself, the
fifo they were put into, or nobody after they were freed. The account beside a stream follows each
assignment of `m->buf`.

A header that is accepted replaces the pending buffer without looking at it, and it has been put before
only when there are bytes in it. A packet of the elementary stream that starts with nothing behind its
header leaves such a buffer, and the next start loses it.
-/

namespace Xine.DemuxTs

/-- The buffers that were taken from the pool, each known by how many were taken before it. -/
structure Account where
  taken : ℕ
  /-- The buffer in `m->buf`. -/
  pending : Option ℕ
  put : List ℕ
  freed : List ℕ

namespace Account

variable {a : Account} {b : ℕ}

/-- `buffer_pool_alloc`, whose result is assigned to `m->buf`. -/
def alloc (a : Account) : Account := { a with taken := a.taken + 1, pending := some a.taken }

/-- The buffer in `m->buf` is put into the fifo and forgotten. -/
def putBuf (a : Account) : Account := { a with pending := none, put := a.put ++ a.pending.toList }

/-- The buffer in `m->buf` is freed, if there is one. -/
def freeBuf (a : Account) : Account := { a with pending := none, freed := a.freed ++ a.pending.toList }

/-- How often a buffer is pending, was put or was freed. -/
def owners (a : Account) (b : ℕ) : ℕ := a.pending.toList.count b + a.put.count b + a.freed.count b

/-- Each buffer that was taken is pending, was put or was freed, and this once. -/
def Owned (a : Account) : Prop := ∀ b < a.taken, a.owners b = 1

instance : Decidable a.Owned := by
  unfold Owned
  infer_instance

/-- Nothing else has an owner. -/
def Exact (a : Account) : Prop := ∀ b, a.owners b = if b < a.taken then 1 else 0

theorem Exact.owned (h : a.Exact) : a.Owned := fun b hb => (h b).trans (if_pos hb)

@[simp] theorem owners_putBuf : a.putBuf.owners b = a.owners b := by
  unfold owners putBuf
  dsimp only
  rw [List.count_append, Option.toList_none, List.count_nil]
  omega

@[simp] theorem owners_freeBuf : a.freeBuf.owners b = a.owners b := by
  unfold owners freeBuf
  dsimp only
  rw [List.count_append, Option.toList_none, List.count_nil]
  omega

theorem Exact.putBuf (h : a.Exact) : a.putBuf.Exact := fun b => owners_putBuf.trans (h b)

theorem Exact.freeBuf (h : a.Exact) : a.freeBuf.Exact := fun b => owners_freeBuf.trans (h b)

theorem Exact.alloc (h : a.Exact) (hpending : a.pending = none) : a.alloc.Exact := by
  intro b
  have hb := h b
  unfold owners at hb ⊢
  unfold Account.alloc
  dsimp only
  rw [hpending] at hb
  rw [Option.toList_none, List.count_nil] at hb
  rw [Option.toList_some, List.count_singleton]
  by_cases hnew : b = a.taken
  · subst hnew
    rw [if_neg (Nat.lt_irrefl _)] at hb
    rw [beq_self_eq_true, if_pos rfl, if_pos (Nat.lt_succ_self _)]
    omega
  · have hlt : b < a.taken + 1 ↔ b < a.taken := by omega
    rw [if_neg (by simpa using Ne.symm hnew), if_congr hlt rfl rfl]
    omega

theorem Exact.not_owned_alloc (h : a.Exact) (hpending : a.pending = some b) : ¬a.alloc.Owned := by
  intro howned
  have hb := h b
  unfold owners at hb
  rw [hpending, Option.toList_some, List.count_singleton_self] at hb
  have hlt : b < a.taken := by
    by_contra hge
    rw [if_neg hge] at hb
    omega
  rw [if_pos hlt] at hb
  have hlost := howned b (Nat.lt_succ_of_lt hlt)
  unfold owners Account.alloc at hlost
  dsimp only at hlost
  rw [Option.toList_some, List.count_singleton, if_neg (by simpa using hlt.ne')] at hlost
  omega

/-- What `demux_ts_buffer_pes` does to the account of a stream with a fifo. -/
def bufferPes (m : Media) (p : Payload) (a : Account) : Account :=
  if p.pus then
    let a := if m.buffered_bytes ≠ 0 then a.putBuf else a
    if (demuxTsParsePesHeader m p.mem p.len).2 then a.alloc else a
  else if m.corrupted_pes then a
  else if m.buffered_bytes + p.len > maxPesBufSize then a.putBuf.alloc
  else a

end Account

/-- An elementary stream with its account, and whether it has a fifo. -/
structure Custody where
  fifo : Bool
  stream : Stream
  account : Account

/-- The calls that reach the buffer of a stream. -/
inductive Call where
  | bufferPes (p : Payload)
  | pesNew (pid : ℕ) (fifo : Bool) (descriptor : ℕ)
  | seek

/-- `demux_ts_seek` for one stream. A buffer that it has is freed. -/
def demuxTsSeek (m : Media) : Media :=
  { m with
    buf := none
    counter := invalid
    corrupted_pes := true
    buffered_bytes := 0 }

namespace Custody

variable {max_size : ℕ} {rate : ℤ} {c d : Custody} {p : Payload} {call : Call} {calls : List Call}

/-- A stream of a new demuxer. -/
def new : Custody := ⟨false, ⟨⟨invalid, 0, 0, 0, none, 0, 0, false, 0⟩, []⟩, ⟨0, none, [], []⟩⟩

/-- A call. A copy that does not fit into a buffer ends the run. -/
def step (max_size : ℕ) (rate : ℤ) (c : Custody) : Call → Option Custody
  | .bufferPes p =>
    if c.fifo then
      (demuxTsBufferPes max_size rate c.stream p).map fun stream =>
        { c with stream, account := c.account.bufferPes c.stream.m p }
    else some c
  | .pesNew pid fifo descriptor =>
    some ⟨fifo, { c.stream with m := demuxTsPesNew c.stream.m pid descriptor }, c.account.freeBuf⟩
  | .seek => some ⟨c.fifo, { c.stream with m := demuxTsSeek c.stream.m }, c.account.freeBuf⟩

/-- The call is not the start of a packet with an accepted header while an empty buffer is pending. -/
def KeepsBuffer (c : Custody) : Call → Prop
  | .bufferPes p =>
    ¬(c.fifo = true ∧ p.pus = true ∧ p.Accepted c.stream.m.descriptor_tag ∧
      c.stream.m.buf.isSome ∧ c.stream.m.buffered_bytes = 0)
  | .pesNew .. | .seek => True

instance : Decidable (c.KeepsBuffer call) :=
  match call with
  | .bufferPes p =>
    have : Decidable (p.Accepted c.stream.m.descriptor_tag) :=
      decidable_of_iff ((demuxTsParsePesHeader c.stream.m p.mem p.len).2 = true)
        demuxTsParsePesHeader_snd_iff
    inferInstanceAs (Decidable (¬(c.fifo = true ∧ p.pus = true ∧
      p.Accepted c.stream.m.descriptor_tag ∧ c.stream.m.buf.isSome ∧ c.stream.m.buffered_bytes = 0)))
  | .pesNew .. | .seek => isTrue trivial

/-- The account is that of the stream. -/
structure Sound (c : Custody) : Prop where
  exact : c.account.Exact
  pending : c.account.pending.isSome = c.stream.m.buf.isSome
  put : c.account.put.length = c.stream.put.length
  buf : c.stream.m.buffered_bytes ≠ 0 → c.stream.m.buf.isSome

/-! ## Steps -/

section Steps

variable {s t : Stream} {a : Account}

theorem demuxTsParsePesHeader_snd_congr {m m' : Media} (h : m'.descriptor_tag = m.descriptor_tag) :
    (demuxTsParsePesHeader m' p.mem p.len).2 = (demuxTsParsePesHeader m p.mem p.len).2 := by
  rw [Bool.eq_iff_iff, demuxTsParsePesHeader_snd_iff, demuxTsParsePesHeader_snd_iff, h]

theorem demuxTsParsePesHeader_buf {m : Media} :
    (demuxTsParsePesHeader m p.mem p.len).1.buf = m.buf ∧
      (demuxTsParsePesHeader m p.mem p.len).1.buffered_bytes = m.buffered_bytes := by
  rw [demuxTsParsePesHeader_payload]
  split_ifs
  · exact ⟨rfl, rfl⟩
  · exact ⟨rfl, rfl⟩
  · cases hstream : p.stream m.descriptor_tag with
    | none => exact ⟨rfl, rfl⟩
    | some r => exact ⟨rfl, rfl⟩
  · exact ⟨rfl, rfl⟩

/-- The start of a packet when what was buffered has been put. -/
def openPes (max_size : ℕ) (s : Stream) (p : Payload) : Option Stream :=
  match demuxTsParsePesHeader s.m p.mem p.len with
  | (m, false) => some { s with m := { m with corrupted_pes := true } }
  | (m, true) =>
    (copyPayload max_size (bufferPoolAlloc p.fresh) 0 (fun i => p.mem (p.len - m.size + i))
      m.size).map fun buf =>
        { s with m := { m with corrupted_pes := false, buf := some buf, buffered_bytes := m.size } }

theorem openPes_buffers (h : openPes max_size s p = some t) :
    t.put = s.put ∧
    t.m.buf.isSome = ((demuxTsParsePesHeader s.m p.mem p.len).2 || s.m.buf.isSome) ∧
    ((s.m.buffered_bytes ≠ 0 → s.m.buf.isSome) → t.m.buffered_bytes ≠ 0 → t.m.buf.isSome) := by
  obtain ⟨hbuf, hbuffered⟩ := demuxTsParsePesHeader_buf (p := p) (m := s.m)
  unfold openPes at h
  revert h hbuf hbuffered
  cases demuxTsParsePesHeader s.m p.mem p.len with
  | mk m accepted =>
    intro h hbuf hbuffered
    dsimp only at hbuf hbuffered
    cases accepted with
    | false =>
      cases h
      refine ⟨rfl, ?_, fun hs hne => ?_⟩
      · rw [Bool.false_or]
        exact congrArg Option.isSome hbuf
      · dsimp only at hne ⊢
        rw [hbuf]
        exact hs (hbuffered ▸ hne)
    | true =>
      obtain ⟨buf, -, rfl⟩ := Option.map_eq_some_iff.1 h
      exact ⟨rfl, (Bool.true_or _).symm, fun _ _ => rfl⟩

theorem startPes_buffers (h : startPes max_size rate s p = some t) :
    t.put.length = s.put.length + (if s.m.buffered_bytes ≠ 0 then 1 else 0) ∧
    t.m.buf.isSome = ((demuxTsParsePesHeader s.m p.mem p.len).2 ||
      (s.m.buf.isSome && s.m.buffered_bytes = 0)) ∧
    (t.m.buffered_bytes ≠ 0 → t.m.buf.isSome) := by
  obtain ⟨r, hr, ht⟩ := Option.bind_eq_some_iff.1 h
  replace ht : openPes max_size r p = some t := ht
  obtain ⟨hput, hsome, hbuf⟩ := openPes_buffers ht
  by_cases hbuffered : s.m.buffered_bytes = 0
  · rw [if_neg (not_not.2 hbuffered)] at hr ⊢
    cases hr
    refine ⟨congrArg List.length hput, ?_, hbuf fun hne => absurd hbuffered hne⟩
    rw [hsome, decide_eq_true hbuffered, Bool.and_true]
  · rw [if_pos hbuffered] at hr ⊢
    obtain ⟨buf, -, rfl⟩ := Option.map_eq_some_iff.1 hr
    refine ⟨?_, ?_, hbuf fun hne => absurd rfl hne⟩
    · rw [hput, List.length_append, List.length_singleton]
    · rw [hsome, decide_eq_false hbuffered, Bool.and_false]
      exact congrArg (· || false) (demuxTsParsePesHeader_snd_congr rfl)

theorem continuePes_buffers (h : continuePes max_size rate s p = some t) :
    t.put.length = s.put.length + (if s.m.buffered_bytes + p.len > maxPesBufSize then 1 else 0) ∧
    s.m.buf.isSome ∧ t.m.buf.isSome := by
  obtain ⟨r, hr, ht⟩ := Option.bind_eq_some_iff.1 h
  obtain ⟨buf, hbuf, ht⟩ := Option.bind_eq_some_iff.1 ht
  obtain ⟨buf', -, rfl⟩ := Option.map_eq_some_iff.1 ht
  by_cases hfull : s.m.buffered_bytes + p.len > maxPesBufSize
  · rw [if_pos hfull] at hr ⊢
    obtain ⟨old, hold, rfl⟩ := Option.map_eq_some_iff.1 hr
    refine ⟨?_, ?_, rfl⟩
    · rw [List.length_append, List.length_singleton]
    · rw [hold]
      rfl
  · rw [if_neg hfull] at hr ⊢
    cases hr
    refine ⟨rfl, ?_, rfl⟩
    rw [hbuf]
    rfl

theorem length_putBuf (h : a.pending.isSome) : a.putBuf.put.length = a.put.length + 1 := by
  obtain ⟨b, hb⟩ := Option.isSome_iff_exists.1 h
  unfold Account.putBuf
  rw [hb, Option.toList_some, List.length_append, List.length_singleton]

theorem Sound.startPes (h : c.Sound) {m : Media} (hbuf : m.buf = c.stream.m.buf)
    (hbuffered : m.buffered_bytes = c.stream.m.buffered_bytes)
    (htag : m.descriptor_tag = c.stream.m.descriptor_tag)
    (hkeeps : ¬(p.Accepted c.stream.m.descriptor_tag ∧ c.stream.m.buf.isSome ∧
      c.stream.m.buffered_bytes = 0)) (hpus : p.pus = true)
    (ht : startPes max_size rate ⟨m, c.stream.put⟩ p = some t) :
    Sound ⟨c.fifo, t, c.account.bufferPes c.stream.m p⟩ := by
  obtain ⟨hput, hsome, hheld⟩ := startPes_buffers ht
  dsimp only at hput hsome
  rw [hbuffered, ← h.put] at hput
  rw [hbuffered, hbuf, demuxTsParsePesHeader_snd_congr htag, ← h.pending] at hsome
  unfold Account.bufferPes
  rw [if_pos hpus]
  dsimp only
  rw [← demuxTsParsePesHeader_snd_iff, ← h.pending] at hkeeps
  set a : Account := if c.stream.m.buffered_bytes ≠ 0 then c.account.putBuf else c.account with ha
  have hexact : a.Exact := by
    rw [ha]
    split_ifs
    exacts [h.exact.putBuf, h.exact]
  have hlength : a.put.length = t.put.length := by
    rw [ha, hput]
    split_ifs with hne
    · exact length_putBuf (h.pending ▸ h.buf hne)
    · rfl
  have hpending : a.pending.isSome =
      (c.account.pending.isSome && decide (c.stream.m.buffered_bytes = 0)) := by
    rw [ha]
    split_ifs with hne
    · rw [decide_eq_false hne, Bool.and_false]
      rfl
    · rw [decide_eq_true (not_not.1 hne), Bool.and_true]
  rw [← hpending] at hsome
  by_cases hacc : (demuxTsParsePesHeader c.stream.m p.mem p.len).2 = true
  · have hnone : a.pending = none := by
      rw [← Option.not_isSome_iff_eq_none, hpending, Bool.and_eq_true, decide_eq_true_eq]
      exact fun hempty => hkeeps ⟨hacc, hempty⟩
    rw [if_pos hacc]
    rw [hacc, Bool.true_or] at hsome
    exact ⟨hexact.alloc hnone, hsome.symm, hlength, hheld⟩
  · rw [if_neg hacc]
    rw [Bool.eq_false_iff.2 hacc, Bool.false_or] at hsome
    exact ⟨hexact, hsome.symm, hlength, hheld⟩

theorem Sound.continuePes (h : c.Sound) {m : Media} (hbuf : m.buf = c.stream.m.buf)
    (hbuffered : m.buffered_bytes = c.stream.m.buffered_bytes) (hpus : ¬p.pus = true)
    (hcorrupted : ¬c.stream.m.corrupted_pes = true)
    (ht : continuePes max_size rate ⟨m, c.stream.put⟩ p = some t) :
    Sound ⟨c.fifo, t, c.account.bufferPes c.stream.m p⟩ := by
  obtain ⟨hput, hs, hsome⟩ := continuePes_buffers ht
  dsimp only at hput hs
  rw [hbuffered, ← h.put] at hput
  rw [hbuf, ← h.pending] at hs
  unfold Account.bufferPes
  rw [if_neg hpus, if_neg hcorrupted]
  split_ifs at hput ⊢ with hfull
  · refine ⟨h.exact.putBuf.alloc rfl, hsome.symm, ?_, fun _ => hsome⟩
    exact (length_putBuf hs).trans hput.symm
  · exact ⟨h.exact, hs.trans hsome.symm, hput.symm, fun _ => hsome⟩

theorem Sound.bufferPes (h : c.Sound) (hfifo : c.fifo = true) (hkeeps : c.KeepsBuffer (.bufferPes p))
    (ht : demuxTsBufferPes max_size rate c.stream p = some t) :
    Sound ⟨c.fifo, t, c.account.bufferPes c.stream.m p⟩ := by
  unfold demuxTsBufferPes at ht
  dsimp only at ht
  let m : Media := { c.stream.m with counter := p.cc + 1 }
  by_cases hpus : p.pus = true
  · rw [if_pos hpus] at ht
    refine h.startPes (m := m) rfl rfl rfl (fun hlost => hkeeps ?_) hpus ht
    exact ⟨hfifo, hpus, hlost⟩
  · rw [if_neg hpus] at ht
    by_cases hcorrupted : c.stream.m.corrupted_pes = true
    · rw [if_pos hcorrupted] at ht
      cases ht
      unfold Account.bufferPes
      rw [if_neg hpus, if_pos hcorrupted]
      exact ⟨h.exact, h.pending, h.put, h.buf⟩
    · rw [if_neg hcorrupted] at ht
      exact h.continuePes (m := m) rfl rfl hpus hcorrupted ht

theorem Sound.freeBuf (h : c.Sound) {m : Media} (hbuf : m.buf = none) (hbuffered : m.buffered_bytes = 0)
    (fifo : Bool) : Sound ⟨fifo, ⟨m, c.stream.put⟩, c.account.freeBuf⟩ := by
  refine ⟨h.exact.freeBuf, ?_, h.put, fun hne => absurd hbuffered hne⟩
  rw [hbuf]
  rfl

theorem Sound.step (h : c.Sound) (hkeeps : c.KeepsBuffer call)
    (hd : step max_size rate c call = some d) : d.Sound := by
  cases call with
  | bufferPes p =>
    unfold Custody.step at hd
    dsimp only at hd
    split_ifs at hd with hfifo
    · obtain ⟨t, ht, rfl⟩ := Option.map_eq_some_iff.1 hd
      exact h.bufferPes hfifo hkeeps ht
    · cases hd
      exact h
  | pesNew pid fifo descriptor =>
    cases hd
    exact h.freeBuf rfl rfl fifo
  | seek =>
    cases hd
    exact h.freeBuf rfl rfl c.fifo

theorem Sound.not_owned (h : c.Sound) (hloses : ¬c.KeepsBuffer call)
    (hd : Custody.step max_size rate c call = some d) : ¬d.account.Owned := by
  cases call with
  | bufferPes p =>
    obtain ⟨hfifo, hpus, hacc, hbuf, hempty⟩ := not_not.1 hloses
    unfold Custody.step at hd
    dsimp only at hd
    rw [if_pos hfifo] at hd
    obtain ⟨t, -, rfl⟩ := Option.map_eq_some_iff.1 hd
    rw [← h.pending] at hbuf
    obtain ⟨b, hb⟩ := Option.isSome_iff_exists.1 hbuf
    dsimp only
    unfold Account.bufferPes
    rw [if_pos hpus, if_neg (not_not.2 hempty), if_pos (demuxTsParsePesHeader_snd_iff.2 hacc)]
    exact h.exact.not_owned_alloc hb
  | pesNew pid fifo descriptor => exact absurd trivial hloses
  | seek => exact absurd trivial hloses

end Steps

/-! ## Runs -/

theorem sound_new : new.Sound where
  exact _ := rfl
  pending := rfl
  put := rfl
  buf hne := absurd rfl hne

/-- After every part of a run each buffer that was taken is pending, was put or was freed, and this once,
if and only if no header is accepted while an empty buffer is pending. -/
theorem buffers_owned_iff (max_size : ℕ) (rate : ℤ) (calls : List Call) (c : Custody)
    (h : Runs.run (step max_size rate) new calls = some c) :
    Runs.Guarded (step max_size rate) KeepsBuffer new calls ↔
      ∀ before d, before <+: calls → Runs.run (step max_size rate) new before = some d →
        d.account.Owned :=
  Runs.guarded_iff (fun _ h => h.exact.owned) (fun _ _ _ h => h.step)
    (fun _ _ _ h => h.not_owned) sound_new h

/-- A new video stream, a packet in two payloads and the start of the next. -/
def videoCalls : List Call := .pesNew 0x100 true 0x1b :: videoPayloads.map .bufferPes

theorem buffers_owned_iff_video :
    ∃ c, Runs.run (step 8192 0) new videoCalls = some c ∧ c.account.Owned :=
  ⟨_, rfl, (buffers_owned_iff 8192 0 videoCalls _ rfl).1 (by decide) videoCalls _
    (List.prefix_refl _) rfl⟩

/-- A packet whose elementary stream has nothing behind the header. -/
def emptyStart : Payload := payloadOf true [0, 0, 1, 0xe0, 0, 0, 0x80, 0, 0]

/-- The second of two such packets takes a buffer in the place of the first one's. -/
theorem buffer_lost :
    ∃ c, Runs.run (step 8192 0) new [.pesNew 0x100 true 0x1b, .bufferPes emptyStart,
      .bufferPes emptyStart] = some c ∧ ¬c.account.Owned :=
  ⟨_, rfl, by decide⟩

end Custody

end Xine.DemuxTs

/-!
## The sizes in the headers of an elementary stream

Where `demux_ts_parse_pes_header` leaves the content of a packet, and how much of it it finds. The
length of the header of the packet is compared with the length of the packet, the length of the header
of a substream of a private stream is only subtracted from what is left.
-/

namespace Xine.DemuxTs

variable {descriptor_tag : ℕ} {p : Payload} {m m' : Media}

/-- The offset of `m->content`: the pointer behind the header, and the header of the substream. -/
def Payload.content (descriptor_tag : ℕ) (p : Payload) : ℕ := p.headerLen + p.removed descriptor_tag

/-- The bytes that the header of a substream of a private stream has at least, whose kind is seen from the
first two bytes `q` of the substream. -/
def privateHeader (descriptor_tag : ℕ) (q : ℕ → ℕ) : ℕ :=
  if descriptor_tag = 0x81 ∨ q 0 = 0x0B ∧ q 1 = 0x77 then 0
  else if descriptor_tag = 0x06 ∧ q 0 = 0x20 ∧ q 1 = 0x00 then 0
  -- subtitles
  else if q 0 &&& 0xE0 = 0x20 then 1
  -- A/52
  else if q 0 &&& 0xF0 = 0x80 then 4
  -- LPCM
  else if q 0 &&& 0xF0 = 0xA0 then 1
  else 0

/-- The bytes that the header of the substream has at least. -/
def Payload.substreamHeader (descriptor_tag : ℕ) (p : Payload) : ℕ :=
  if (p.mem 3).toNat = 0xbd then
    privateHeader descriptor_tag fun i => (p.mem (p.headerLen + i)).toNat
  else 0

/-- The content lies in the packet, and the size is that of bytes behind it. -/
def Payload.Sane (descriptor_tag : ℕ) (p : Payload) (size : ℕ) : Prop :=
  p.content descriptor_tag ≤ p.len ∧ size ≤ p.len - p.content descriptor_tag

theorem lt_pcmOffset (q : ℕ → ℕ) (packet_len : ℤ) (fuel pcm_offset : ℕ) :
    pcm_offset < pcmOffset q packet_len (fuel + 1) pcm_offset := by
  induction fuel generalizing pcm_offset with
  | zero =>
    rw [pcmOffset]
    dsimp only [pcmOffset]
    split_ifs <;> omega
  | succ fuel ih =>
    have hnext := ih (pcm_offset + 1)
    rw [pcmOffset]
    split_ifs <;> omega

theorem pcmOffset_le_iff (q : ℕ → ℕ) (left : ℕ) :
    pcmOffset q left (left + 1) 0 ≤ left ↔ 1 ≤ left := by
  have hle := pcmOffset_le q left (left + 1) 0
  have hlt := lt_pcmOffset q left left 0
  omega

theorem parsePrivateStream_le_iff {q b : ℕ → ℕ} {left removed : ℕ} {type : BitVec 32}
    (h : parsePrivateStream descriptor_tag b q left = some (removed, type)) :
    removed ≤ left ↔ privateHeader descriptor_tag q ≤ left := by
  have hpcm := pcmOffset_le_iff q left
  unfold parsePrivateStream at h
  unfold privateHeader
  dsimp only at h
  rw [Int.toNat_natCast] at h
  split_ifs at h ⊢ <;> simp only [Option.some.injEq, Prod.mk.injEq] at h <;> obtain ⟨rfl, -⟩ := h
  · exact Iff.rfl
  · exact Iff.rfl
  · exact Iff.rfl
  · exact Iff.rfl
  · exact hpcm

theorem longEnough_iff (h : p.Accepted descriptor_tag) :
    p.LongEnough descriptor_tag ↔ p.substreamHeader descriptor_tag ≤ p.len - p.headerLen := by
  obtain ⟨⟨removed, type⟩, hr⟩ := Option.isSome_iff_exists.1 h.stream
  have hle := h.headerLen_le
  obtain ⟨left, hleft⟩ : ∃ left : ℕ, p.len = p.headerLen + left := ⟨p.len - p.headerLen, by omega⟩
  have hcast : (p.len : ℤ) - p.headerLen = left := by omega
  have hremoved : p.removed descriptor_tag = removed := by
    unfold Payload.removed
    rw [hr, Option.map_some, Option.getD_some]
  have hiff : removed ≤ left ↔ p.substreamHeader descriptor_tag ≤ left := by
    unfold Payload.stream parseStream at hr
    rw [hcast] at hr
    unfold Payload.substreamHeader
    dsimp only at hr
    split_ifs at hr ⊢
    · exact parsePrivateStream_le_iff hr
    all_goals
      obtain ⟨rfl, -⟩ := Prod.mk.inj (Option.some.inj hr)
      exact Iff.rfl
  unfold Payload.LongEnough
  rw [hremoved, hleft, Nat.add_sub_cancel_left, ← hiff]
  omega

/-- When a header is accepted, the content lies in the packet, and the size is that of bytes behind it,
if and only if the packet has the bytes of the header of the substream. -/
theorem pes_header_sane_iff (m m' : Media) (p : Payload) (hlen : p.len < 2 ^ 31)
    (h : demuxTsParsePesHeader m p.mem p.len = (m', true)) :
    p.Sane m.descriptor_tag m'.size ↔ p.substreamHeader m.descriptor_tag ≤ p.len - p.headerLen := by
  have hacc : p.Accepted m.descriptor_tag := demuxTsParsePesHeader_snd_iff.1 (congrArg Prod.snd h)
  obtain ⟨type, heq⟩ := demuxTsParsePesHeader_eq hacc
  have hm' : m'.size = (((p.len : ℤ) - p.headerLen - p.removed m.descriptor_tag) % 2 ^ 32).toNat := by
    rw [heq] at h
    rw [← (Prod.mk.inj h).1]
  rw [← longEnough_iff hacc]
  constructor
  · exact fun hsane => hsane.1
  · intro hlong
    refine ⟨hlong, ?_⟩
    rw [hm', size_of_longEnough (by omega) hlong]
    exact Nat.le_refl _

/-- The payload of a private stream with a byte behind the header of an A/52 substream. -/
def a52Payload : Payload := payloadOf true [0, 0, 1, 0xbd, 0, 8, 0x80, 0, 0, 0x80, 1, 0, 1, 0xaa]

theorem pes_header_sane_iff_a52 :
    (demuxTsParsePesHeader newStream.m a52Payload.mem a52Payload.len).2 = true ∧
      a52Payload.Sane newStream.m.descriptor_tag
        (demuxTsParsePesHeader newStream.m a52Payload.mem a52Payload.len).1.size :=
  ⟨by decide, (pes_header_sane_iff newStream.m _ a52Payload (by decide) rfl).2 (by decide)⟩

/-- A payload that ends in the header of the substream is accepted. -/
theorem pes_header_not_sane :
    (demuxTsParsePesHeader newStream.m shortPayload.mem shortPayload.len).2 = true ∧
      ¬shortPayload.Sane newStream.m.descriptor_tag
        (demuxTsParsePesHeader newStream.m shortPayload.mem shortPayload.len).1.size := by
  constructor
  · decide
  · unfold Payload.Sane
    decide

end Xine.DemuxTs
