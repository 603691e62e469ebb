import Xine.Rtp.System

/-!
# The RTP buffer loses and reorders nothing

`Inv` is kept by every step. The bytes that came in are those that were taken, those in the buffer and what is
left of the packet of the reader thread, in this order.
-/

namespace Xine.Rtp

open Octets (Byte)
open Runs (run)

/-- What is left of the packet. -/
def ReaderPc.data : ReaderPc → List Byte
  | .receiving => []
  | .inserting data | .waiting data | .woken data => data

/-- What a read has copied so far. -/
def ReadPc.copied : ReadPc → List Byte
  | .outside => []
  | .copying _ copied | .waiting _ copied | .woken _ copied | .expired _ copied => copied

structure Inv (s : State) : Prop where
  bounds : s.input.Bounds
  pending : s.payloads = s.taken ++ s.input.unread ++ s.reader.data
  taken : s.taken = s.reads.flatten ++ s.read.copied
  previews : ∀ p ∈ s.previews, p.2 <+: s.payloads.drop p.1
  packet : s.reader.data.length ≤ PACKET_BUFFER_SIZE
  room : s.ReaderWaits → s.input.buffer_length = BUFFER_SIZE
  data : s.ReadWaits → s.input.buffer_length < MAX_PREVIEW_SIZE + PACKET_BUFFER_SIZE ∧
    (s.preview = .waiting → s.input.buffer_length < MAX_PREVIEW_SIZE)

theorem inv_initial (buffer : ℕ → Byte) : Inv (State.initial buffer) where
  bounds := ⟨(by decide : 0 < BUFFER_SIZE), Nat.zero_le _⟩
  pending := rfl
  taken := rfl
  previews := fun p hp => by cases hp
  packet := Nat.zero_le _
  room := fun h => h.elim
  data := fun h => h.elim

variable {s s' : State} {t : Thread} {a : Action}

/-! ## Waking -/

/-- A thread that is woken goes on with what it had. -/
structure Woken (s s' : State) : Prop where
  input : s'.input = s.input
  payloads : s'.payloads = s.payloads
  taken : s'.taken = s.taken
  reads : s'.reads = s.reads
  previews : s'.previews = s.previews
  readerData : s'.reader.data = s.reader.data
  copied : s'.read.copied = s.read.copied
  reader : s'.ReaderWaits → s.ReaderWaits
  read : s'.ReadWaits → s.ReadWaits
  preview : s'.preview = .waiting → s.preview = .waiting

theorem woken_refl (s : State) : Woken s s :=
  ⟨rfl, rfl, rfl, rfl, rfl, rfl, rfl, id, id, id⟩

theorem woken_wake (h : s.wake t = some s') : Woken s s' := by
  unfold State.wake at h
  cases t with
  | reader =>
    dsimp only at h
    split at h
    · rename_i data hreader
      cases h
      exact ⟨rfl, rfl, rfl, rfl, rfl, by rw [hreader]; rfl, rfl, fun hw => hw.elim, id, id⟩
    · cases h
  | read =>
    dsimp only at h
    split at h
    · rename_i length copied hread
      cases h
      exact ⟨rfl, rfl, rfl, rfl, rfl, rfl, by rw [hread]; rfl, id, fun hw => hw.elim, id⟩
    · cases h
  | preview =>
    dsimp only at h
    split at h
    · cases h
      exact ⟨rfl, rfl, rfl, rfl, rfl, rfl, rfl, id, id, fun hw => by cases hw⟩
    · cases h

theorem Inv.woken (h : Inv s) (hw : Woken s s') : Inv s' where
  bounds := by rw [hw.input]; exact h.bounds
  pending := by rw [hw.payloads, hw.taken, hw.input, hw.readerData]; exact h.pending
  taken := by rw [hw.taken, hw.reads, hw.copied]; exact h.taken
  previews := by rw [hw.previews, hw.payloads]; exact h.previews
  packet := by rw [hw.readerData]; exact h.packet
  room := by rw [hw.input]; exact fun hr => h.room (hw.reader hr)
  data := by
    rw [hw.input]
    exact fun hr => ⟨(h.data (hw.read hr)).1, fun hp => (h.data (hw.read hr)).2 (hw.preview hp)⟩

theorem reader_not_waiting_signalEmpty (s : State) : ¬s.signalEmpty.ReaderWaits := by
  unfold State.signalEmpty State.wake
  cases hreader : s.reader with
  | waiting data => exact fun h => h.elim
  | receiving | inserting data | woken data =>
    dsimp only [Option.getD]
    unfold State.ReaderWaits
    rw [hreader]
    exact id

theorem woken_signalEmpty (s : State) : Woken s s.signalEmpty := by
  unfold State.signalEmpty
  cases hwake : s.wake .reader with
  | none => exact woken_refl s
  | some s' => exact woken_wake hwake

/-! ## Turns -/

theorem inv_receive (h : Inv s) {packet : List Byte} (is_rtp : Bool)
    (hreader : s.reader = .receiving) (hpacket : packet.length ≤ PACKET_BUFFER_SIZE) :
    Inv { s with
      buffer_mutex := some .reader
      reader := .inserting (payload is_rtp packet)
      payloads := s.payloads ++ payload is_rtp packet } where
  bounds := h.bounds
  pending := by
    have hpending := h.pending
    rw [hreader] at hpending
    dsimp only [ReaderPc.data] at hpending ⊢
    rw [hpending, List.append_nil]
  taken := h.taken
  previews := by
    intro p hp
    dsimp only
    rw [List.drop_append]
    exact (h.previews p hp).trans (List.prefix_append _ _)
  packet := (length_payload_le is_rtp packet).trans hpacket
  room := fun hw => hw.elim
  data := h.data

theorem inv_insert (h : Inv s) {data : List Byte} {woken : Option Thread}
    (hreader : s.reader = .inserting data) (hdata : data ≠ [])
    (hroom : s.input.buffer_length ≠ BUFFER_SIZE)
    (hsignal : ({ s with
      input := s.input.insert data
      reader := .inserting (data.drop (s.input.insertLen data.length)) } : State).signalNotempty woken =
        some s') : Inv s' := by
  obtain ⟨hbounds, hunread⟩ := RtpInput.insert_spec h.bounds hroom hdata
  have hlen : (s.input.insert data).buffer_length =
      s.input.buffer_length + s.input.insertLen data.length := rfl
  have hpacket := h.packet
  have hpending := h.pending
  rw [hreader] at hpacket hpending
  dsimp only [ReaderPc.data] at hpacket hpending
  have hn : s.input.insertLen data.length ≤ data.length :=
    (RtpInput.insertLen_spec h.bounds hroom fun hzero => hdata (List.length_eq_zero_iff.1 hzero)).2.1
  -- all but who is woken
  have hall : ∀ {s'' : State}, Woken { s with
      input := s.input.insert data
      reader := .inserting (data.drop (s.input.insertLen data.length)) } s'' →
      (s''.ReadWaits → s.preview = .waiting ∧ s''.preview ≠ .waiting) → Inv s'' := by
    intro s'' hw hpreview
    constructor
    case bounds => rw [hw.input]; exact hbounds
    case pending =>
      rw [hw.payloads, hw.taken, hw.input, hw.readerData]
      dsimp only [ReaderPc.data]
      rw [hunread, hpending, List.append_assoc, List.append_assoc, List.append_assoc,
        List.take_append_drop]
    case taken => rw [hw.taken, hw.reads, hw.copied]; exact h.taken
    case previews => rw [hw.previews, hw.payloads]; exact h.previews
    case packet =>
      rw [hw.readerData]
      dsimp only [ReaderPc.data]
      rw [List.length_drop]
      omega
    case room => exact fun hr => (hw.reader hr).elim
    case data =>
      intro hr
      obtain ⟨hbefore, hafter⟩ := hpreview hr
      have hshort := (h.data (hw.read hr)).2 hbefore
      rw [hw.input]
      dsimp only
      rw [hlen]
      exact ⟨by omega, fun hp => absurd hp hafter⟩
  unfold State.signalNotempty at hsignal
  split at hsignal
  · -- nobody waits
    split at hsignal
    · cases hsignal
    · rename_i hno
      cases hsignal
      exact hall (woken_refl _) fun hr => absurd (.inl hr) hno
  · cases hsignal
  · rename_i t hne
    refine hall (woken_wake hsignal) fun hr => ?_
    cases t with
    | reader => exact absurd rfl hne
    | read =>
      unfold State.wake at hsignal
      dsimp only at hsignal
      split at hsignal
      · cases hsignal
        exact hr.elim
      · cases hsignal
    | preview =>
      -- the preview request takes the signal, and the buffer had less than a preview
      unfold State.wake at hsignal
      dsimp only at hsignal
      split at hsignal
      · rename_i hp
        cases hsignal
        exact ⟨hp, fun hw => by cases hw⟩
      · cases hsignal

theorem inv_readCopy (h : Inv s) {length : ℕ} {copied : List Byte} (hread : s.read = .copying length copied)
    (hlength : length ≠ 0) (hsome : s.input.buffer_length ≠ 0) :
    Inv ({ s with
      input := (s.input.read length).2
      read := .copying (length - (s.input.read length).1.length) (copied ++ (s.input.read length).1)
      taken := s.taken ++ (s.input.read length).1 } : State).signalEmpty := by
  obtain ⟨hbounds, hbytes, hunread⟩ := RtpInput.read_spec h.bounds hlength hsome
  generalize hs₁ : ({ s with
      input := (s.input.read length).2
      read := .copying (length - (s.input.read length).1.length) (copied ++ (s.input.read length).1)
      taken := s.taken ++ (s.input.read length).1 } : State) = s₁
  have hw := woken_signalEmpty s₁
  have hno := reader_not_waiting_signalEmpty s₁
  subst hs₁
  constructor
  case bounds => rw [hw.input]; exact hbounds
  case pending =>
    rw [hw.payloads, hw.taken, hw.input, hw.readerData]
    dsimp only
    rw [hunread, hbytes]
    calc s.payloads = s.taken ++ s.input.unread ++ s.reader.data := h.pending
      _ = s.taken ++ (s.input.unread.take (s.input.readLen length) ++
            s.input.unread.drop (s.input.readLen length)) ++ s.reader.data := by
          rw [List.take_append_drop]
      _ = s.taken ++ s.input.unread.take (s.input.readLen length) ++
            s.input.unread.drop (s.input.readLen length) ++ s.reader.data := by
          rw [← List.append_assoc s.taken]
  case taken =>
    have htaken := h.taken
    rw [hread] at htaken
    rw [hw.taken, hw.reads, hw.copied]
    dsimp only [ReadPc.copied] at htaken ⊢
    rw [htaken, List.append_assoc]
  case previews => rw [hw.previews, hw.payloads]; exact h.previews
  case packet => rw [hw.readerData]; exact h.packet
  case room => exact fun hr => absurd hr hno
  case data => exact fun hr => (hw.read hr).elim

theorem inv_previewReturn (h : Inv s) : Inv s.previewReturn where
  bounds := h.bounds
  pending := h.pending
  taken := h.taken
  previews := by
    intro p hp
    rcases List.mem_append.1 hp with hp | hp
    · exact h.previews p hp
    · -- it has the first bytes behind those that were taken
      obtain rfl := List.mem_singleton.1 hp
      dsimp only [State.previewReturn]
      rw [h.pending, RtpInput.preview_spec h.bounds, List.append_assoc, List.drop_left]
      exact (List.take_prefix _ _).trans (List.prefix_append _ _)
  packet := h.packet
  room := h.room
  data := fun hr => ⟨(h.data hr).1, fun hp => by cases hp⟩

theorem inv_readReturn (h : Inv s) {copied : List Byte} (hcopied : s.read.copied = copied) :
    Inv (s.readReturn copied) where
  bounds := h.bounds
  pending := h.pending
  taken := by
    dsimp only [State.readReturn, ReadPc.copied]
    rw [List.flatten_append, List.flatten_singleton, List.append_nil, ← hcopied]
    exact h.taken
  previews := h.previews
  packet := h.packet
  room := h.room
  data := fun hr => hr.elim

theorem inv_step (h : Inv s) (hstep : step s a = some s') : Inv s' := by
  cases a with
  | receive is_rtp packet =>
    dsimp only [step] at hstep
    split at hstep
    · rename_i hpc
      cases hstep
      exact inv_receive h is_rtp hpc.1 hpc.2.2
    · cases hstep
  | insert woken =>
    dsimp only [step] at hstep
    split at hstep
    · rename_i data hreader
      split at hstep
      · cases hstep
      · rename_i hgo
        obtain ⟨hdata, hroom⟩ := not_or.1 hgo
        exact inv_insert h hreader hdata hroom hstep
    · cases hstep
  | insertWait =>
    dsimp only [step] at hstep
    split at hstep
    · rename_i data hreader
      split at hstep
      · rename_i hfull
        cases hstep
        have hpending := h.pending
        have hpacket := h.packet
        rw [hreader] at hpending hpacket
        exact ⟨h.bounds, hpending, h.taken, h.previews, hpacket, fun _ => hfull.2, h.data⟩
      · cases hstep
    · cases hstep
  | insertDone =>
    dsimp only [step] at hstep
    split at hstep
    · rename_i hreader
      cases hstep
      have hpending := h.pending
      rw [hreader] at hpending
      exact ⟨h.bounds, hpending, h.taken, h.previews, Nat.zero_le _, fun hr => hr.elim, h.data⟩
    · cases hstep
  | read length =>
    dsimp only [step] at hstep
    split at hstep
    · rename_i hread
      cases hstep
      have htaken := h.taken
      rw [hread.1] at htaken
      exact ⟨h.bounds, h.pending, htaken, h.previews, h.packet, h.room, fun hr => hr.elim⟩
    · cases hstep
  | readCopy =>
    dsimp only [step] at hstep
    split at hstep
    · rename_i length copied hread
      split at hstep
      · cases hstep
      · rename_i hgo
        obtain ⟨hlength, hsome⟩ := not_or.1 hgo
        cases hstep
        exact inv_readCopy h hread hlength hsome
    · cases hstep
  | readWait =>
    dsimp only [step] at hstep
    split at hstep
    · rename_i length copied hread
      split at hstep
      · rename_i hempty
        cases hstep
        have htaken := h.taken
        rw [hread] at htaken
        refine ⟨h.bounds, h.pending, htaken, h.previews, h.packet, h.room, fun _ => ?_⟩
        dsimp only
        rw [hempty.2]
        exact ⟨by decide, fun _ => by decide⟩
      · cases hstep
    · cases hstep
  | readDone =>
    dsimp only [step] at hstep
    split at hstep
    · rename_i copied hread
      cases hstep
      have hpos : Inv { s with
          input := { s.input with curpos := s.input.curpos + BitVec.ofNat 32 copied.length } } :=
        ⟨⟨h.bounds.start, h.bounds.length⟩, h.pending, h.taken, h.previews, h.packet, h.room, h.data⟩
      exact inv_readReturn hpos (by rw [hread]; rfl)
    · cases hstep
  | preview =>
    dsimp only [step] at hstep
    split at hstep
    · cases hstep
      exact ⟨h.bounds, h.pending, h.taken, h.previews, h.packet, h.room,
        fun hr => ⟨(h.data hr).1, fun hp => by cases hp⟩⟩
    · cases hstep
  | previewWait =>
    dsimp only [step] at hstep
    split at hstep
    · rename_i hshort
      cases hstep
      exact ⟨h.bounds, h.pending, h.taken, h.previews, h.packet, h.room,
        fun hr => ⟨(h.data hr).1, fun _ => hshort.2⟩⟩
    · cases hstep
  | previewCopy =>
    dsimp only [step] at hstep
    split at hstep
    · cases hstep
      exact inv_previewReturn h
    · cases hstep
  | wake t => exact h.woken (woken_wake hstep)
  | timeout t =>
    dsimp only [step] at hstep
    split at hstep
    · cases hstep
    · split at hstep
      · rename_i length copied hread
        cases hstep
        have htaken := h.taken
        rw [hread] at htaken
        exact ⟨h.bounds, h.pending, htaken, h.previews, h.packet, h.room, fun hr => hr.elim⟩
      · cases hstep
    · split at hstep
      · cases hstep
        exact ⟨h.bounds, h.pending, h.taken, h.previews, h.packet, h.room,
          fun hr => ⟨(h.data hr).1, fun hp => by cases hp⟩⟩
      · cases hstep
  | resume t =>
    dsimp only [step] at hstep
    split at hstep
    · cases hstep
    · split at hstep
      · -- the reader thread goes on in its loop
        split at hstep
        · rename_i data hreader
          cases hstep
          have hpending := h.pending
          have hpacket := h.packet
          rw [hreader] at hpending hpacket
          exact ⟨h.bounds, hpending, h.taken, h.previews, hpacket, fun hr => hr.elim, h.data⟩
        · cases hstep
      · split at hstep
        · rename_i length copied hread
          cases hstep
          have htaken := h.taken
          rw [hread] at htaken
          exact ⟨h.bounds, h.pending, htaken, h.previews, h.packet, h.room, fun hr => hr.elim⟩
        · rename_i length copied hread
          cases hstep
          exact inv_readReturn h (by rw [hread]; rfl)
        · cases hstep
      · split at hstep
        · cases hstep
          exact ⟨h.bounds, h.pending, h.taken, h.previews, h.packet, h.room,
            fun hr => ⟨(h.data hr).1, fun hp => by cases hp⟩⟩
        · cases hstep
          exact inv_previewReturn h
        · cases hstep

/-! ## Runs -/

/-- What is promised of the buffer. -/
structure Conserves (s : State) : Prop where
  /-- What the reads have returned is a beginning of what came in. -/
  reads : s.reads.flatten <+: s.payloads
  /-- A preview has bytes from the first one on that was not taken when it was returned. -/
  previews : ∀ p ∈ s.previews, p.2 <+: s.payloads.drop p.1
  bounds : s.input.buffer_start < BUFFER_SIZE ∧ s.input.buffer_length ≤ BUFFER_SIZE
  /-- When there is room, the next copy of the insertion loop has some bytes, and ends in front of the end of
  the buffer without overwriting unread data. -/
  inserts : ∀ length, length ≠ 0 → s.input.buffer_length ≠ BUFFER_SIZE →
    s.input.insertLen length ≠ 0 ∧ s.input.insertPos + s.input.insertLen length ≤ BUFFER_SIZE ∧
      ∀ i < s.input.buffer_length,
        ¬(s.input.insertPos ≤ (s.input.buffer_start + i) % BUFFER_SIZE ∧
          (s.input.buffer_start + i) % BUFFER_SIZE < s.input.insertPos + s.input.insertLen length)
  /-- When there is data, the next copy of a read has some bytes, and ends in front of the end of the buffer
  and of the data. -/
  copies : ∀ length, length ≠ 0 → s.input.buffer_length ≠ 0 →
    s.input.readLen length ≠ 0 ∧ s.input.readLen length ≤ s.input.buffer_length ∧
      s.input.buffer_start + s.input.readLen length ≤ BUFFER_SIZE
  /-- So do the copies of a preview. -/
  spans : ∀ span ∈ s.input.previewSpans, span.1 + span.2 ≤ BUFFER_SIZE
  /-- The reader thread does not wait for room while a read waits for data. -/
  live : ¬(s.ReaderWaits ∧ s.ReadWaits)

theorem Inv.conserves (h : Inv s) : Conserves s where
  reads := by
    rw [h.pending, h.taken, List.append_assoc, List.append_assoc]
    exact List.prefix_append _ _
  previews := h.previews
  bounds := ⟨h.bounds.start, h.bounds.length⟩
  inserts := by
    intro length hlength hroom
    obtain ⟨hne, -, hend, -⟩ := RtpInput.insertLen_spec h.bounds hroom hlength
    exact ⟨hne, hend, fun i hi => RtpInput.insert_free h.bounds hroom hlength hi⟩
  copies := by
    intro length hlength hsome
    obtain ⟨hne, -, hle, hend⟩ := RtpInput.readLen_spec h.bounds hlength hsome
    exact ⟨hne, hle, hend⟩
  spans := RtpInput.previewSpans_le h.bounds
  live := by
    rintro ⟨hreader, hread⟩
    have hfull := h.room hreader
    have hshort := (h.data hread).1
    rw [hfull] at hshort
    exact absurd hshort (by decide)

end Xine.Rtp
