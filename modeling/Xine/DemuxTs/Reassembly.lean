import Xine.DemuxTs.Pes
import Xine.Library.Runs

/-!
# The bytes of an elementary stream

What `demux_ts_buffer_pes` has put into the fifo and what is still in its buffer are the bytes of the packets of
the elementary stream, each with the time stamp of its packet, as long as each packet starts with a payload that
is long enough for the headers that are removed from it.
-/

namespace Xine.DemuxTs

variable {max_size descriptor_tag : ℕ} (rate : ℤ) {s t u : Stream} {p : Payload}
  {ps : List Payload} {m m' : Media} {buf buf' : BufElement} {b b' : ℕ → ℕ}

/-! ## Packets of the elementary stream -/

/-- The length of the header. -/
def Payload.headerLen (p : Payload) : ℕ := (p.mem 8).toNat + 9

/-- The time stamp in the header. -/
def Payload.pts (p : Payload) : ℕ :=
  if (p.mem 7).toNat &&& 0x80 ≠ 0 then parsePts (fun i => (p.mem i).toNat) else 0

/-- What the header and the bytes behind it say about the stream. -/
def Payload.stream (descriptor_tag : ℕ) (p : Payload) : Option (ℕ × BitVec 32) :=
  parseStream descriptor_tag (fun i => (p.mem i).toNat) ((p.len : ℤ) - p.headerLen)

/-- The length of the header of the substream. -/
def Payload.removed (descriptor_tag : ℕ) (p : Payload) : ℕ :=
  ((p.stream descriptor_tag).map Prod.fst).getD 0

/-- The payload holds the headers that are removed from it. -/
def Payload.LongEnough (descriptor_tag : ℕ) (p : Payload) : Prop :=
  p.headerLen + p.removed descriptor_tag ≤ p.len

instance : Decidable (p.LongEnough descriptor_tag) := by
  unfold Payload.LongEnough
  infer_instance

/-- The bytes of the elementary stream in a payload. -/
def Payload.esBytes (descriptor_tag : ℕ) (p : Payload) : List Byte :=
  if p.pus then
    Memory.slice p.mem (p.headerLen + p.removed descriptor_tag)
      (p.len - (p.headerLen + p.removed descriptor_tag))
  else Memory.slice p.mem 0 p.len

/-- The bytes of the elementary stream in a list of payloads, each with the time stamp of the packet
that it comes from, after a packet with the time stamp `pts`. -/
def taggedBytes (descriptor_tag : ℕ) : ℕ → List Payload → List (Byte × ℕ)
  | _, [] => []
  | pts, p :: ps =>
    let pts := if p.pus then p.pts else pts
    (p.esBytes descriptor_tag).map (·, pts) ++ taggedBytes descriptor_tag pts ps

/-- The bytes of a buffer with its time stamp. -/
def BufElement.tagged (buf : BufElement) : List (Byte × ℕ) := buf.content.map (·, buf.pts)

/-- The bytes that are buffered. -/
def Stream.pending (s : Stream) : List Byte :=
  (s.m.buf.map fun buf => Memory.slice buf.mem 0 s.m.buffered_bytes).getD []

/-- The bytes that were put and those that are buffered. -/
def Stream.bytes (s : Stream) : List (Byte × ℕ) :=
  s.put.flatMap BufElement.tagged ++ s.pending.map (·, s.m.pts)

/-- The run succeeds with the bytes of the elementary stream, and every buffer within its size. -/
def Reassembles (max_size : ℕ) (rate : ℤ) (s : Stream) (ps : List Payload) : Prop :=
  ∃ u, Runs.run (demuxTsBufferPes max_size rate) s ps = some u ∧
    u.bytes = taggedBytes s.m.descriptor_tag 0 ps ∧
    (∀ buf ∈ u.put, buf.content.length ≤ max_size) ∧ u.m.buffered_bytes ≤ max_size

/-! ## The header -/

theorem pcmOffset_le (q : ℕ → ℕ) (packet_len : ℤ) (fuel pcm_offset : ℕ) :
    (pcmOffset q packet_len fuel pcm_offset : ℤ) ≤ max ((pcm_offset : ℤ) + 1) packet_len := by
  induction fuel generalizing pcm_offset with
  | zero =>
    unfold pcmOffset
    omega
  | succ fuel ih =>
    unfold pcmOffset
    have := ih (pcm_offset + 1)
    dsimp only
    split_ifs <;> omega

theorem parseStream_le {packet_len : ℤ} {removed : ℕ} {type : BitVec 32} (hlen : 0 ≤ packet_len)
    (h : parseStream descriptor_tag b packet_len = some (removed, type)) :
    (removed : ℤ) ≤ packet_len + 4 := by
  have hpcm (q : ℕ → ℕ) := pcmOffset_le q packet_len (packet_len.toNat + 1) 0
  unfold parseStream parsePrivateStream at h
  dsimp only at h
  split_ifs at h <;> simp only [Option.some.injEq, Prod.mk.injEq] at h <;> obtain ⟨rfl, -⟩ := h <;>
    first
    | omega
    | exact (hpcm _).trans (by omega)

/-- The header is accepted, whatever the stream has received before. -/
structure Payload.Accepted (descriptor_tag : ℕ) (p : Payload) : Prop where
  start : p.mem 0 = 0 ∧ p.mem 1 = 0 ∧ p.mem 2 = 1
  len_ne : (p.len : ℤ) - 6 ≠ 0
  headerLen_le : p.headerLen ≤ p.len
  stream : (p.stream descriptor_tag).isSome

theorem demuxTsParsePesHeader_payload :
    demuxTsParsePesHeader m p.mem p.len =
      if ¬(p.mem 0 = 0 ∧ p.mem 1 = 0 ∧ p.mem 2 = 1) then (m, false)
      else if (p.len : ℤ) - 6 = 0 then (m, false)
      else if p.len < p.headerLen then ({ m with pts := p.pts }, false)
      else match p.stream m.descriptor_tag with
        | some (removed, type) =>
          ({ m with
            pts := p.pts
            size := (((p.len : ℤ) - p.headerLen - removed) % 2 ^ 32).toNat
            type }, true)
        | none => ({ m with pts := p.pts }, false) := by
  have hleft : (p.len : ℤ) - 6 - ((p.mem 8).toNat + 3) = (p.len : ℤ) - p.headerLen := by
    unfold Payload.headerLen
    omega
  have hstart : ((p.mem 0).toNat ≠ 0 ∨ (p.mem 1).toNat ≠ 0 ∨ (p.mem 2).toNat ≠ 1) ↔
      ¬(p.mem 0 = 0 ∧ p.mem 1 = 0 ∧ p.mem 2 = 1) := by
    simp only [BitVec.toNat_eq, ne_eq, not_and_or]
    rfl
  unfold demuxTsParsePesHeader Payload.stream
  dsimp only
  rw [hleft]
  exact if_congr hstart rfl rfl

theorem demuxTsParsePesHeader_snd_iff :
    (demuxTsParsePesHeader m p.mem p.len).2 = true ↔ p.Accepted m.descriptor_tag := by
  rw [demuxTsParsePesHeader_payload]
  constructor
  · intro h
    split_ifs at h with h1 h2 h3
    refine ⟨h1, h2, Nat.not_lt.1 h3, ?_⟩
    cases hstream : p.stream m.descriptor_tag with
    | none => simp [hstream] at h
    | some r => rfl
  · intro h
    obtain ⟨r, hr⟩ := Option.isSome_iff_exists.1 h.stream
    rw [if_neg (not_not.2 h.start), if_neg h.len_ne, if_neg (Nat.not_lt.2 h.headerLen_le), hr]

theorem demuxTsParsePesHeader_eq (h : p.Accepted m.descriptor_tag) :
    ∃ type, demuxTsParsePesHeader m p.mem p.len = ({ m with
      pts := p.pts
      size := (((p.len : ℤ) - p.headerLen - p.removed m.descriptor_tag) % 2 ^ 32).toNat
      type }, true) := by
  obtain ⟨⟨removed, type⟩, hr⟩ := Option.isSome_iff_exists.1 h.stream
  have hremoved : p.removed m.descriptor_tag = removed := by
    unfold Payload.removed
    rw [hr, Option.map_some, Option.getD_some]
  refine ⟨type, ?_⟩
  rw [demuxTsParsePesHeader_payload, if_neg (not_not.2 h.start), if_neg h.len_ne,
    if_neg (Nat.not_lt.2 h.headerLen_le), hr, hremoved]

theorem size_of_longEnough (hlen : p.len < 2 ^ 32) (h : p.LongEnough descriptor_tag) :
    (((p.len : ℤ) - p.headerLen - p.removed descriptor_tag) % 2 ^ 32).toNat =
      p.len - (p.headerLen + p.removed descriptor_tag) := by
  unfold Payload.LongEnough at h
  rw [Int.emod_eq_of_lt (by omega) (by omega)]
  omega

theorem size_of_not_longEnough (hacc : p.Accepted descriptor_tag) (h : ¬p.LongEnough descriptor_tag) :
    2 ^ 32 - 4 ≤
      (((p.len : ℤ) - p.headerLen - p.removed descriptor_tag) % 2 ^ 32).toNat := by
  obtain ⟨⟨removed, type⟩, hr⟩ := Option.isSome_iff_exists.1 hacc.stream
  have hremoved : p.removed descriptor_tag = removed := by
    unfold Payload.removed
    rw [hr, Option.map_some, Option.getD_some]
  have hlen := hacc.headerLen_le
  have hle := parseStream_le (by omega) hr
  unfold Payload.LongEnough at h
  rw [hremoved] at h ⊢
  omega

/-! ## Steps -/

/-- What is buffered is in a buffer, and the buffers that were put are within their size. -/
structure Stream.Held (s : Stream) : Prop where
  le : s.m.buffered_bytes ≤ maxPesBufSize
  buf : s.m.buffered_bytes ≠ 0 → s.m.buf.isSome
  put_le : ∀ buf ∈ s.put, buf.size ≤ maxPesBufSize

/-- A packet of the elementary stream is being received. -/
structure Stream.Receiving (s : Stream) : Prop extends s.Held where
  not_corrupted : s.m.corrupted_pes = false
  some_buf : s.m.buf.isSome

/-- The step from `s` to `t` has received a payload. -/
structure Received (s t : Stream) (p : Payload) : Prop where
  receiving : t.Receiving
  descriptor_tag : t.m.descriptor_tag = s.m.descriptor_tag
  pts : t.m.pts = if p.pus then p.pts else s.m.pts
  bytes : t.bytes = s.bytes ++ (p.esBytes s.m.descriptor_tag).map (·, t.m.pts)

@[simp] theorem markPackage_mem {type : BitVec 32} : (markPackage type buf).mem = buf.mem := by
  unfold markPackage
  split_ifs <;> rfl

theorem pending_of_empty (h : s.m.buffered_bytes = 0) : s.pending = [] := by
  unfold Stream.pending
  rw [h]
  cases s.m.buf <;> rfl

theorem bytes_put (hbuf : s.m.buf = some buf) (hmem : buf'.mem = buf.mem) {pos : ℤ}
    (hm : m'.buffered_bytes = 0) :
    Stream.bytes ⟨m', s.put ++ [finishBuffer rate s.m pos buf']⟩ = s.bytes := by
  have htagged : (finishBuffer rate s.m pos buf').tagged = s.pending.map (·, s.m.pts) := by
    unfold BufElement.tagged BufElement.content Stream.pending
    rw [hbuf, Option.map_some, Option.getD_some, ← hmem]
    rfl
  unfold Stream.bytes
  rw [pending_of_empty (s := ⟨m', _⟩) hm, List.flatMap_append, List.flatMap_singleton, htagged,
    List.map_nil, List.append_nil]

theorem Stream.Held.put (h : s.Held) {pos : ℤ} (hm : m'.buffered_bytes = 0) :
    Stream.Held ⟨m', s.put ++ [finishBuffer rate s.m pos buf']⟩ where
  le := by
    rw [hm]
    exact Nat.zero_le _
  buf hne := absurd hm hne
  put_le buf hbuf := by
    rcases List.mem_append.1 hbuf with hbuf | hbuf
    · exact h.put_le buf hbuf
    · rw [List.mem_singleton.1 hbuf]
      exact h.le

theorem bytes_copy (hbuf : s.m.buf = some buf) {src : ℕ → Byte} {n : ℕ}
    (hm : m'.buf = some { buf with mem := Memory.memcpy buf.mem s.m.buffered_bytes src n })
    (hn : m'.buffered_bytes = s.m.buffered_bytes + n) (hpts : m'.pts = s.m.pts) :
    Stream.bytes ⟨m', s.put⟩ = s.bytes ++ (Memory.slice src 0 n).map (·, s.m.pts) := by
  unfold Stream.bytes Stream.pending
  rw [hm, hbuf, hn, hpts]
  simp only [Option.map_some, Option.getD_some, Memory.slice_memcpy_append, List.map_append,
    List.append_assoc]

theorem startPes_put (p : Payload) (hs : s.Held) :
    ∃ t, (if s.m.buffered_bytes ≠ 0 then
        s.m.buf.map fun buf =>
          { s with
            m := { s.m with buffered_bytes := 0, buf := none }
            put := s.put ++ [finishBuffer rate s.m p.pos (markPackage s.m.type buf)] }
      else some s) = some t ∧
      t.Held ∧ t.m.buffered_bytes = 0 ∧ t.m.descriptor_tag = s.m.descriptor_tag ∧
        t.bytes = s.bytes := by
  split_ifs with h
  · obtain ⟨buf, hbuf⟩ := Option.isSome_iff_exists.1 (hs.buf h)
    refine ⟨⟨{ s.m with buffered_bytes := 0, buf := none },
      s.put ++ [finishBuffer rate s.m p.pos (markPackage s.m.type buf)]⟩, ?_, hs.put rate rfl, rfl, rfl,
      bytes_put rate hbuf markPackage_mem rfl⟩
    rw [hbuf, Option.map_some]
  · exact ⟨s, rfl, hs, not_not.1 h, rfl, rfl⟩

theorem startPes_received (hs : s.Held) (hpus : p.pus = true)
    (hacc : p.Accepted s.m.descriptor_tag) (hmax : maxPesBufSize ≤ max_size)
    (hlen : p.len ≤ maxPesBufSize) (hlong : p.LongEnough s.m.descriptor_tag) :
    ∃ t, startPes max_size rate s p = some t ∧ Received s t p := by
  obtain ⟨s₁, hs₁, hheld, hempty, htag, hbytes⟩ := startPes_put rate p hs
  rw [← htag] at hacc hlong
  obtain ⟨type, hparse⟩ := demuxTsParsePesHeader_eq hacc
  have hlt : p.len < 2 ^ 32 := by
    unfold maxPesBufSize at hlen
    omega
  rw [size_of_longEnough hlt hlong] at hparse
  set skip := p.headerLen + p.removed s₁.m.descriptor_tag with hskip
  have hle : skip ≤ p.len := hlong
  -- the stream after the header, before the copy
  let m₁ : Media := { s₁.m with
    pts := p.pts
    size := p.len - skip
    type
    corrupted_pes := false
    buf := some (bufferPoolAlloc p.fresh) }
  let buf : BufElement := { bufferPoolAlloc p.fresh with
    mem := Memory.memcpy p.fresh 0 (fun i => p.mem (p.len - (p.len - skip) + i)) (p.len - skip) }
  have hm₁ : Stream.bytes ⟨m₁, s₁.put⟩ = s₁.bytes := by
    unfold Stream.bytes
    rw [pending_of_empty hempty, pending_of_empty (s := ⟨m₁, s₁.put⟩) hempty]
    rfl
  have hslice : Memory.slice (fun i => p.mem (p.len - (p.len - skip) + i)) 0 (p.len - skip) =
      p.esBytes s.m.descriptor_tag := by
    unfold Payload.esBytes
    rw [if_pos hpus, ← htag]
    refine Memory.slice_congr fun i _ => ?_
    congr 1
    omega
  refine ⟨⟨{ m₁ with buf := some buf, buffered_bytes := p.len - skip }, s₁.put⟩, ?_, ?_⟩
  · unfold startPes
    rw [hs₁, Option.bind_some, hparse]
    dsimp only
    unfold copyPayload
    rw [if_pos (by omega)]
    rfl
  · constructor
    · refine ⟨⟨?_, fun _ => rfl, hheld.put_le⟩, rfl, rfl⟩
      exact (Nat.sub_le _ _).trans hlen
    · exact htag
    · rw [if_pos hpus]
    · rw [← hslice, ← hbytes, ← hm₁]
      refine bytes_copy (s := ⟨m₁, s₁.put⟩) rfl ?_ ?_ rfl
      · change some buf = _
        rw [hempty]
        rfl
      · change p.len - skip = s₁.m.buffered_bytes + _
        rw [hempty, Nat.zero_add]

theorem startPes_eq_none (hs : s.Held) (hacc : p.Accepted s.m.descriptor_tag)
    (hmax : max_size < 2 ^ 31) (hlong : ¬p.LongEnough s.m.descriptor_tag) :
    startPes max_size rate s p = none := by
  obtain ⟨s₁, hs₁, -, -, htag, -⟩ := startPes_put rate p hs
  rw [← htag] at hacc hlong
  obtain ⟨type, hparse⟩ := demuxTsParsePesHeader_eq hacc
  have hsize := size_of_not_longEnough hacc hlong
  unfold startPes
  rw [hs₁, Option.bind_some, hparse]
  dsimp only
  unfold copyPayload
  rw [if_neg (by omega), Option.map_none]

theorem continuePes_put (hs : s.Receiving) (hlen : p.len ≤ maxPesBufSize) :
    ∃ t, (if s.m.buffered_bytes + p.len > maxPesBufSize then
        s.m.buf.map fun buf =>
          { s with
            m := { s.m with
              buffered_bytes := 0
              buf := some (bufferPoolAlloc p.fresh)
              type := if s.m.type &&& 0xffff0000 = bufSpuDvb then bufSpuDvb else s.m.type }
            put := s.put ++ [finishBuffer rate s.m p.pos buf] }
      else some s) = some t ∧
      t.Receiving ∧ t.m.buffered_bytes + p.len ≤ maxPesBufSize ∧
        t.m.descriptor_tag = s.m.descriptor_tag ∧ t.m.pts = s.m.pts ∧ t.bytes = s.bytes := by
  by_cases h : s.m.buffered_bytes + p.len > maxPesBufSize
  · obtain ⟨buf, hbuf⟩ := Option.isSome_iff_exists.1 hs.some_buf
    refine ⟨⟨{ s.m with
      buffered_bytes := 0
      buf := some (bufferPoolAlloc p.fresh)
      type := if s.m.type &&& 0xffff0000 = bufSpuDvb then bufSpuDvb else s.m.type },
      s.put ++ [finishBuffer rate s.m p.pos buf]⟩, ?_, ?_, ?_, rfl, rfl, bytes_put rate hbuf rfl rfl⟩
    · rw [if_pos h, hbuf, Option.map_some]
    · exact ⟨hs.toHeld.put rate rfl, hs.not_corrupted, rfl⟩
    · exact (Nat.zero_add _).trans_le hlen
  · exact ⟨s, if_neg h, hs, Nat.not_lt.1 h, rfl, rfl, rfl⟩

theorem continuePes_received (hs : s.Receiving) (hpus : p.pus = false)
    (hmax : maxPesBufSize ≤ max_size) (hlen : p.len ≤ maxPesBufSize) :
    ∃ t, continuePes max_size rate s p = some t ∧ Received s t p := by
  obtain ⟨s₁, hs₁, hrec, hfits, htag, hpts, hbytes⟩ := continuePes_put rate hs hlen
  obtain ⟨buf, hbuf⟩ := Option.isSome_iff_exists.1 hrec.some_buf
  let m₁ : Media := { s₁.m with
    buf := some { buf with mem := Memory.memcpy buf.mem s₁.m.buffered_bytes p.mem p.len }
    buffered_bytes := s₁.m.buffered_bytes + p.len }
  refine ⟨⟨m₁, s₁.put⟩, ?_, ?_⟩
  · unfold continuePes
    rw [hs₁, Option.bind_some, hbuf, Option.bind_some]
    unfold copyPayload
    rw [if_pos (hfits.trans hmax), Option.map_some]
  · constructor
    · exact ⟨⟨hfits, fun _ => rfl, hrec.put_le⟩, hrec.not_corrupted, rfl⟩
    · exact htag
    · rw [hpus]
      exact hpts
    · unfold Payload.esBytes
      rw [hpus, ← hbytes]
      exact bytes_copy hbuf rfl rfl rfl

theorem demuxTsBufferPes_received (hs : s.Receiving ∨ s.Held ∧ p.pus = true)
    (hacc : p.pus = true → p.Accepted s.m.descriptor_tag) (hmax : maxPesBufSize ≤ max_size)
    (hlen : p.len ≤ maxPesBufSize) (hlong : p.pus = true → p.LongEnough s.m.descriptor_tag) :
    ∃ t, demuxTsBufferPes max_size rate s p = some t ∧ Received s t p := by
  let s₁ : Stream := { s with m := { s.m with counter := p.cc + 1 } }
  have hheld : s₁.Held := by
    obtain ⟨hle, hbuf, hput⟩ : s.Held := hs.elim (fun h => h.toHeld) And.left
    exact ⟨hle, hbuf, hput⟩
  suffices ∃ t, demuxTsBufferPes max_size rate s p = some t ∧ Received s₁ t p by
    obtain ⟨t, ht, hrec⟩ := this
    exact ⟨t, ht, ⟨hrec.receiving, hrec.descriptor_tag, hrec.pts, hrec.bytes⟩⟩
  unfold demuxTsBufferPes
  dsimp only
  by_cases hpus : p.pus = true
  · rw [if_pos hpus]
    exact startPes_received rate hheld hpus (hacc hpus) hmax hlen (hlong hpus)
  · have hrec := hs.resolve_right fun h => hpus h.2
    rw [if_neg hpus, if_neg (by simp [hrec.not_corrupted])]
    exact continuePes_received rate ⟨hheld, hrec.not_corrupted, hrec.some_buf⟩ (by simpa using hpus)
      hmax hlen

theorem demuxTsBufferPes_eq_none (hs : s.Held) (hpus : p.pus = true)
    (hacc : p.Accepted s.m.descriptor_tag) (hmax : max_size < 2 ^ 31)
    (hlong : ¬p.LongEnough s.m.descriptor_tag) : demuxTsBufferPes max_size rate s p = none := by
  unfold demuxTsBufferPes
  dsimp only
  rw [if_pos hpus]
  exact startPes_eq_none rate ⟨hs.le, hs.buf, hs.put_le⟩ hacc hmax hlong

/-! ## Runs -/

/-- The packets of the elementary stream start with payloads that are long enough. -/
def LongEnough (descriptor_tag : ℕ) (ps : List Payload) : Prop :=
  ∀ p ∈ ps, p.pus = true → p.LongEnough descriptor_tag

/-- The headers are accepted, and the payloads are those of packets. -/
def AcceptedPayloads (descriptor_tag : ℕ) (ps : List Payload) : Prop :=
  ∀ p ∈ ps, (p.pus = true → p.Accepted descriptor_tag) ∧ p.len ≤ maxPesBufSize

theorem run_received (hs : s.Receiving ∨ s.Held ∧ ∀ p ∈ ps.head?, p.pus = true)
    (hacc : AcceptedPayloads s.m.descriptor_tag ps) (hmax : maxPesBufSize ≤ max_size)
    (hlong : LongEnough s.m.descriptor_tag ps) :
    ∃ u, Runs.run (demuxTsBufferPes max_size rate) s ps = some u ∧ u.Held ∧
      u.bytes = s.bytes ++ taggedBytes s.m.descriptor_tag s.m.pts ps := by
  induction ps generalizing s with
  | nil => exact ⟨s, rfl, hs.elim (fun h => h.toHeld) And.left, (List.append_nil _).symm⟩
  | cons p ps ih =>
    have hmem : p ∈ p :: ps := List.mem_cons_self
    obtain ⟨t, ht, hrec⟩ := demuxTsBufferPes_received rate
      (hs.imp_right fun h => ⟨h.1, h.2 p rfl⟩) (hacc p hmem).1 hmax (hacc p hmem).2 (hlong p hmem)
    have htag := hrec.descriptor_tag
    obtain ⟨u, hu, hheld, hbytes⟩ := ih (.inl hrec.receiving)
      (fun q hq => by rw [htag]; exact hacc q (List.mem_cons_of_mem _ hq))
      (fun q hq => by rw [htag]; exact hlong q (List.mem_cons_of_mem _ hq))
    refine ⟨u, Runs.run_cons_eq_some.2 ⟨t, ht, hu⟩, hheld, ?_⟩
    calc u.bytes = t.bytes ++ taggedBytes t.m.descriptor_tag t.m.pts ps := hbytes
      _ = s.bytes ++ ((p.esBytes s.m.descriptor_tag).map (·, t.m.pts) ++
            taggedBytes s.m.descriptor_tag t.m.pts ps) := by
          rw [hrec.bytes, htag, List.append_assoc]
      _ = s.bytes ++ taggedBytes s.m.descriptor_tag s.m.pts (p :: ps) := by
          rw [hrec.pts]
          rfl

theorem longEnough_of_run (hs : s.Receiving ∨ s.Held ∧ ∀ p ∈ ps.head?, p.pus = true)
    (hacc : AcceptedPayloads s.m.descriptor_tag ps) (hmax : maxPesBufSize ≤ max_size)
    (hmax' : max_size < 2 ^ 31) (h : Runs.run (demuxTsBufferPes max_size rate) s ps = some u) :
    LongEnough s.m.descriptor_tag ps := by
  induction ps generalizing s with
  | nil => exact fun p hp => absurd hp List.not_mem_nil
  | cons p ps ih =>
    have hmem : p ∈ p :: ps := List.mem_cons_self
    obtain ⟨t, ht, hu⟩ := Runs.run_cons_eq_some.1 h
    have hlong : p.pus = true → p.LongEnough s.m.descriptor_tag := by
      intro hpus
      by_contra hshort
      have hheld : s.Held := hs.elim (fun h => h.toHeld) And.left
      rw [demuxTsBufferPes_eq_none rate hheld hpus ((hacc p hmem).1 hpus) hmax' hshort] at ht
      exact Option.some_ne_none _ ht.symm
    obtain ⟨t', ht', hrec⟩ := demuxTsBufferPes_received rate
      (hs.imp_right fun h => ⟨h.1, h.2 p rfl⟩) (hacc p hmem).1 hmax (hacc p hmem).2 hlong
    obtain rfl := Option.some.inj (ht.symm.trans ht')
    have htag := hrec.descriptor_tag
    have hrest := ih (.inl hrec.receiving)
      (fun q hq => by rw [htag]; exact hacc q (List.mem_cons_of_mem _ hq)) hu
    intro q hq
    rcases List.mem_cons.1 hq with rfl | hq
    · exact hlong
    · rw [← htag]
      exact hrest q hq

theorem taggedBytes_head (h : ∀ p ∈ ps.head?, p.pus = true) (pts pts' : ℕ) :
    taggedBytes descriptor_tag pts ps = taggedBytes descriptor_tag pts' ps := by
  cases ps with
  | nil => rfl
  | cons p ps =>
    unfold taggedBytes
    rw [if_pos (h p rfl), if_pos (h p rfl)]

/-- A new stream. -/
def newStream : Stream := ⟨demuxTsPesNew ⟨0, 0, 0, 0, none, 0, 0, false, 0⟩ 0x100 0x1b, []⟩

/-- A payload with the given bytes, in a memory that is zero behind them. -/
def payloadOf (pus : Bool) (bytes : List Byte) : Payload :=
  ⟨fun i => bytes.getD i 0, pus, 0, bytes.length, 0, fun _ => 0⟩

/-- A packet of a video stream in two payloads, and the start of the next. -/
def videoPayloads : List Payload :=
  [payloadOf true [0, 0, 1, 0xe0, 0, 0, 0x80, 0x80, 5, 0x21, 0, 1, 0, 3, 0xaa, 0xbb],
    payloadOf false [0xcc],
    payloadOf true [0, 0, 1, 0xe0, 0, 0, 0x80, 0, 0, 0xdd]]

/-- The payload of a private stream that ends in the first of the four bytes of a substream header. -/
def shortPayload : Payload := payloadOf true [0, 0, 1, 0xbd, 0, 4, 0x80, 0, 0, 0x80]

end Xine.DemuxTs
