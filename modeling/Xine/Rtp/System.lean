import Xine.Library.Octets
import Xine.Library.Ring
import Xine.Library.Runs

/-!
# The cyclic buffer of the RTP input

The payload of a packet, and the copies to and from `buffer` of `input_rtp.c`: those of the insertion loop of
`input_plugin_read_loop`, of the loop of `rtp_plugin_read` and of the preview.
-/

namespace Xine.Rtp

open Octets (Byte)

def BUFFER_SIZE : ℕ := 1024 * 1024
def MAX_PREVIEW_SIZE : ℕ := 4096
def PACKET_BUFFER_SIZE : ℕ := 65536

/-- The bytes of a packet that go to the buffer. With `is_rtp` the header is left out, and what is too short
for its header. -/
def payload (is_rtp : Bool) (packet : List Byte) : List Byte :=
  if is_rtp then
    if packet.length < 12 then []
    else
      let first := packet.getD 0 0
      let header := 12 + (first &&& 0x0f).toNat * 4
      skipExtension first (packet.drop header) (packet.length - header)
  else packet
where
  skipExtension (first : Byte) (data : List Byte) (length : ℤ) : List Byte :=
    if first &&& 0x10 ≠ 0 then
      if length < 4 then []
      else
        let hlen := (data.getD 2 0).toNat * 256 + (data.getD 3 0).toNat
        skipPadding first (data.drop hlen) (length - hlen)
    else skipPadding first data length
  skipPadding (first : Byte) (data : List Byte) (length : ℤ) : List Byte :=
    if first &&& 0x20 ≠ 0 then
      if length < 1 then []
      else data.take (length - ((data.getD (length - 1).toNat 0).toNat + 1)).toNat
    else data.take length.toNat

theorem length_payload_le (is_rtp : Bool) (packet : List Byte) :
    (payload is_rtp packet).length ≤ packet.length := by
  have hpadding : ∀ first data length, (payload.skipPadding first data length).length ≤ data.length := by
    intro first data length
    unfold payload.skipPadding
    split_ifs
    · exact Nat.zero_le _
    · exact List.length_take_le' _ _
    · exact List.length_take_le' _ _
  have hextension : ∀ first data length,
      (payload.skipExtension first data length).length ≤ data.length := by
    intro first data length
    unfold payload.skipExtension
    split_ifs
    · exact Nat.zero_le _
    · refine (hpadding _ _ _).trans ?_
      rw [List.length_drop]
      exact Nat.sub_le _ _
    · exact hpadding _ _ _
  unfold payload
  split_ifs
  · exact Nat.zero_le _
  · refine (hextension _ _ _).trans ?_
    rw [List.length_drop]
    exact Nat.sub_le _ _
  · exact Nat.le_refl _

/-- The buffer in `rtp_input_plugin_t`, with the position of `rtp_plugin_read`. -/
structure RtpInput where
  buffer : ℕ → Byte
  buffer_start : ℕ
  buffer_length : ℕ
  curpos : BitVec 32

namespace RtpInput

/-- The bytes that were inserted and not read. -/
def unread (this : RtpInput) : List Byte :=
  Ring.contents this.buffer BUFFER_SIZE this.buffer_start this.buffer_length

/-- Where the next bytes of a packet are copied to. -/
def insertPos (this : RtpInput) : ℕ := (this.buffer_start + this.buffer_length) % BUFFER_SIZE

/-- How many bytes of a packet are copied at once: not past the end of the buffer, and not into the start of
the data. -/
def insertLen (this : RtpInput) (length : ℕ) : ℕ :=
  let pos := this.insertPos
  let n := if BUFFER_SIZE < pos + length then BUFFER_SIZE - pos else length
  if pos < this.buffer_start ∧ this.buffer_start < pos + n then this.buffer_start - pos else n

/-- A turn of the insertion loop. -/
def insert (this : RtpInput) (data : List Byte) : RtpInput :=
  let n := this.insertLen data.length
  { this with
    buffer := Ring.store this.buffer this.insertPos (data.take n)
    buffer_length := this.buffer_length + n }

/-- How many bytes are read at once: not past the end of the buffer, and not past the end of the data. -/
def readLen (this : RtpInput) (length : ℕ) : ℕ :=
  let n := if BUFFER_SIZE < this.buffer_start + length then BUFFER_SIZE - this.buffer_start else length
  if this.buffer_length < n then this.buffer_length else n

/-- A turn of the loop of `rtp_plugin_read`: the bytes that are copied, and the buffer without them. -/
def read (this : RtpInput) (length : ℕ) : List Byte × RtpInput :=
  let n := this.readLen length
  (Ring.copy this.buffer this.buffer_start n,
    { this with
      buffer_start := (this.buffer_start + n) % BUFFER_SIZE
      buffer_length := this.buffer_length - n })

/-- The copies of the preview: where they begin, and how many bytes they have. -/
def previewSpans (this : RtpInput) : List (ℕ × ℕ) :=
  let len := if this.buffer_length < MAX_PREVIEW_SIZE then this.buffer_length else MAX_PREVIEW_SIZE
  let pos := this.buffer_start
  if BUFFER_SIZE < pos + len then
    [(pos, BUFFER_SIZE - pos), (0, len - (BUFFER_SIZE - pos))]
  else [(pos, len)]

/-- The preview of `rtp_plugin_get_optional_data`. -/
def preview (this : RtpInput) : List Byte :=
  this.previewSpans.flatMap fun (pos, n) => Ring.copy this.buffer pos n

/-- The bounds of the buffer. -/
structure Bounds (this : RtpInput) : Prop where
  start : this.buffer_start < BUFFER_SIZE
  length : this.buffer_length ≤ BUFFER_SIZE

variable {this : RtpInput} {data : List Byte} {length : ℕ}

theorem insertLen_spec (h : this.Bounds) (hroom : this.buffer_length ≠ BUFFER_SIZE)
    (hlength : length ≠ 0) :
    this.insertLen length ≠ 0 ∧ this.insertLen length ≤ length ∧
      this.insertPos + this.insertLen length ≤ BUFFER_SIZE ∧
        this.buffer_length + this.insertLen length ≤ BUFFER_SIZE := by
  obtain ⟨hstart, hle⟩ := h
  unfold insertLen insertPos
  unfold BUFFER_SIZE at *
  dsimp only
  -- the data wraps around the end, or it does not
  by_cases hwrap : this.buffer_start + this.buffer_length < 1024 * 1024
  · rw [Nat.mod_eq_of_lt hwrap]
    split_ifs <;> omega
  · have hmod : (this.buffer_start + this.buffer_length) % (1024 * 1024) =
        this.buffer_start + this.buffer_length - 1024 * 1024 := by omega
    rw [hmod]
    split_ifs <;> omega

theorem insert_free (h : this.Bounds) (hroom : this.buffer_length ≠ BUFFER_SIZE) (hlength : length ≠ 0)
    {i : ℕ} (hi : i < this.buffer_length) :
    ¬(this.insertPos ≤ (this.buffer_start + i) % BUFFER_SIZE ∧
      (this.buffer_start + i) % BUFFER_SIZE < this.insertPos + this.insertLen length) := by
  obtain ⟨-, -, -, hlen⟩ := insertLen_spec h hroom hlength
  exact Ring.free_behind hlen hi

theorem insert_spec (h : this.Bounds) (hroom : this.buffer_length ≠ BUFFER_SIZE) (hdata : data ≠ []) :
    (this.insert data).Bounds ∧
      (this.insert data).unread = this.unread ++ data.take (this.insertLen data.length) := by
  obtain ⟨-, hle, hend, hlen⟩ :=
    insertLen_spec h hroom (fun hzero => hdata (List.length_eq_zero_iff.1 hzero))
  have htake : (data.take (this.insertLen data.length)).length = this.insertLen data.length := by
    rw [List.length_take]
    omega
  refine ⟨⟨h.start, hlen⟩, ?_⟩
  rw [← htake] at hend hlen
  have hstore := Ring.contents_store this.buffer hlen hend
  rw [htake] at hstore
  exact hstore

theorem readLen_spec (h : this.Bounds) (hlength : length ≠ 0) (hsome : this.buffer_length ≠ 0) :
    this.readLen length ≠ 0 ∧ this.readLen length ≤ length ∧
      this.readLen length ≤ this.buffer_length ∧
        this.buffer_start + this.readLen length ≤ BUFFER_SIZE := by
  obtain ⟨hstart, hle⟩ := h
  unfold readLen
  dsimp only
  split_ifs <;> omega

theorem read_spec (h : this.Bounds) (hlength : length ≠ 0) (hsome : this.buffer_length ≠ 0) :
    (this.read length).2.Bounds ∧ (this.read length).1 = this.unread.take (this.readLen length) ∧
      (this.read length).2.unread = this.unread.drop (this.readLen length) := by
  obtain ⟨-, -, hle, hend⟩ := readLen_spec h hlength hsome
  refine ⟨⟨Nat.mod_lt _ (by decide), (Nat.sub_le _ _).trans h.length⟩, ?_, ?_⟩
  · exact (Ring.take_contents hle hend).symm
  · exact (Ring.drop_contents hle).symm

theorem previewSpans_le (h : this.Bounds) : ∀ span ∈ this.previewSpans, span.1 + span.2 ≤ BUFFER_SIZE := by
  obtain ⟨hstart, hle⟩ := h
  unfold previewSpans
  unfold BUFFER_SIZE MAX_PREVIEW_SIZE at *
  dsimp only
  intro span hspan
  split_ifs at hspan <;> simp only [List.mem_cons, List.not_mem_nil, or_false] at hspan
  · rcases hspan with rfl | rfl <;> dsimp only <;> omega
  · subst hspan
    dsimp only
    omega
  · rcases hspan with rfl | rfl <;> dsimp only <;> omega
  · subst hspan
    dsimp only
    omega

theorem preview_spec (h : this.Bounds) : this.preview = this.unread.take MAX_PREVIEW_SIZE := by
  obtain ⟨hstart, hle⟩ := h
  unfold preview previewSpans
  generalize hlen : (if this.buffer_length < MAX_PREVIEW_SIZE then this.buffer_length
    else MAX_PREVIEW_SIZE) = len
  have hlen_le : len ≤ this.buffer_length := by
    rw [← hlen]
    split_ifs <;> omega
  have htake : this.unread.take MAX_PREVIEW_SIZE = this.unread.take len := by
    have hall : this.unread.length = this.buffer_length := Ring.length_contents
    rw [← hlen]
    split_ifs with hshort
    · rw [List.take_of_length_le (by omega), List.take_of_length_le (by omega)]
    · rfl
  rw [htake]
  dsimp only
  split_ifs with hwrap
  · -- the data wraps around the end
    have hparts : len = (BUFFER_SIZE - this.buffer_start) + (len - (BUFFER_SIZE - this.buffer_start)) := by
      omega
    have hturn : (this.buffer_start + (BUFFER_SIZE - this.buffer_start)) % BUFFER_SIZE = 0 := by
      rw [Nat.add_sub_cancel' hstart.le, Nat.mod_self]
    have hbefore : this.unread.take (BUFFER_SIZE - this.buffer_start) =
        Ring.copy this.buffer this.buffer_start (BUFFER_SIZE - this.buffer_start) :=
      Ring.take_contents (by omega) (by omega)
    have hbehind : (this.unread.drop (BUFFER_SIZE - this.buffer_start)).take
        (len - (BUFFER_SIZE - this.buffer_start)) =
          Ring.copy this.buffer 0 (len - (BUFFER_SIZE - this.buffer_start)) := by
      unfold unread
      rw [Ring.drop_contents (by omega), hturn]
      exact Ring.take_contents (by omega) (by omega)
    nth_rewrite 2 [hparts]
    rw [List.take_add, hbefore, hbehind, List.flatMap_cons, List.flatMap_cons, List.flatMap_nil,
      List.append_nil]
  · rw [List.flatMap_cons, List.flatMap_nil, List.append_nil]
    exact (Ring.take_contents (by omega) (by omega)).symm

end RtpInput

end Xine.Rtp

/-!
## The threads of the RTP input

The reader thread, which puts packets in the buffer, `rtp_plugin_read` and the preview request. Each turn of
their loops is an action. They hold `buffer_mutex` from one end to the other, except in the waits; a wait ends
by a signal, without one, or, outside of the reader thread, by a timeout. A read and a preview request may
overlap, as long as there is one of each.

`payloads`, `taken`, `reads` and `previews` are not in the code: they are the logs of the bytes that came in,
those that were copied out by reads, what the reads returned, and what the previews returned with the number
of bytes taken until then.
-/

namespace Xine.Rtp

open Octets (Byte)

/-- A thread that can hold the mutex or wait. -/
inductive Thread where
  | reader
  | read
  | preview

/-- Where the reader thread is: at `recv`, in the insertion loop with what is left of a packet, or there in the
wait for room. -/
inductive ReaderPc where
  | receiving
  | inserting (data : List Byte)
  | waiting (data : List Byte)
  | woken (data : List Byte)
deriving DecidableEq

/-- Where `rtp_plugin_read` is: in its loop, with the length that is left and the bytes that were copied, or
there in the wait for data, from which it was woken or which has timed out. -/
inductive ReadPc where
  | outside
  | copying (length : ℕ) (copied : List Byte)
  | waiting (length : ℕ) (copied : List Byte)
  | woken (length : ℕ) (copied : List Byte)
  | expired (length : ℕ) (copied : List Byte)
deriving DecidableEq

/-- Where a preview request is. -/
inductive PreviewPc where
  | outside
  | checking
  | waiting
  | woken
  | expired
deriving DecidableEq

structure State where
  input : RtpInput
  buffer_mutex : Option Thread
  reader : ReaderPc
  read : ReadPc
  preview : PreviewPc
  payloads : List Byte
  taken : List Byte
  reads : List (List Byte)
  previews : List (ℕ × List Byte)

/-- The plugin before the first packet. -/
def State.initial (buffer : ℕ → Byte) : State where
  input := { buffer := buffer, buffer_start := 0, buffer_length := 0, curpos := 0 }
  buffer_mutex := none
  reader := .receiving
  read := .outside
  preview := .outside
  payloads := []
  taken := []
  reads := []
  previews := []

inductive Action where
  | receive (is_rtp : Bool) (packet : List Byte)
  | insert (woken : Option Thread)
  | insertWait
  | insertDone
  | read (length : ℕ)
  | readCopy
  | readWait
  | readDone
  | preview
  | previewWait
  | previewCopy
  | wake (t : Thread)
  | timeout (t : Thread)
  | resume (t : Thread)

namespace State

/-- A waiter is woken, by a signal or without one. -/
def wake (s : State) : Thread → Option State
  | .reader =>
    match s.reader with
    | .waiting data => some { s with reader := .woken data }
    | _ => none
  | .read =>
    match s.read with
    | .waiting length copied => some { s with read := .woken length copied }
    | _ => none
  | .preview =>
    match s.preview with
    | .waiting => some { s with preview := .woken }
    | _ => none

/-- The read waits on `buffer_notempty`. -/
def ReadWaits (s : State) : Prop :=
  match s.read with
  | .waiting _ _ => True
  | _ => False

instance (s : State) : Decidable s.ReadWaits := by
  unfold ReadWaits
  cases s.read <;> infer_instance

/-- The reader thread waits on `buffer_empty`. -/
def ReaderWaits (s : State) : Prop :=
  match s.reader with
  | .waiting _ => True
  | _ => False

instance (s : State) : Decidable s.ReaderWaits := by
  unfold ReaderWaits
  cases s.reader <;> infer_instance

/-- `pthread_cond_signal (&this->buffer_notempty)` wakes one waiter, if there is one. -/
def signalNotempty (s : State) : Option Thread → Option State
  | none => if s.ReadWaits ∨ s.preview = .waiting then none else some s
  | some .reader => none
  | some t => s.wake t

/-- `pthread_cond_signal (&this->buffer_empty)`, on which only the reader thread waits. -/
def signalEmpty (s : State) : State := (s.wake .reader).getD s

/-- The end of a read, with what it returns. -/
def readReturn (s : State) (copied : List Byte) : State :=
  { s with buffer_mutex := none, read := .outside, reads := s.reads ++ [copied] }

/-- The end of a preview request, with what it returns. -/
def previewReturn (s : State) : State :=
  { s with
    buffer_mutex := none
    preview := .outside
    previews := s.previews ++ [(s.taken.length, s.input.preview)] }

end State

def step (s : State) : Action → Option State
  | .receive is_rtp packet =>
    -- `recv` has at most `sizeof (this->packet_buffer)` bytes
    if s.reader = .receiving ∧ s.buffer_mutex = none ∧ packet.length ≤ PACKET_BUFFER_SIZE then
      some { s with
        buffer_mutex := some .reader
        reader := .inserting (payload is_rtp packet)
        payloads := s.payloads ++ payload is_rtp packet }
    else none
  | .insert woken =>
    match s.reader with
    | .inserting data =>
      if data = [] ∨ s.input.buffer_length = BUFFER_SIZE then none
      else
        ({ s with
          input := s.input.insert data
          reader := .inserting (data.drop (s.input.insertLen data.length)) } : State).signalNotempty woken
    | _ => none
  | .insertWait =>
    match s.reader with
    | .inserting data =>
      if data ≠ [] ∧ s.input.buffer_length = BUFFER_SIZE then
        some { s with buffer_mutex := none, reader := .waiting data }
      else none
    | _ => none
  | .insertDone =>
    if s.reader = .inserting [] then some { s with buffer_mutex := none, reader := .receiving } else none
  | .read length =>
    if s.read = .outside ∧ s.buffer_mutex = none then
      some { s with buffer_mutex := some .read, read := .copying length [] }
    else none
  | .readCopy =>
    match s.read with
    | .copying length copied =>
      if length = 0 ∨ s.input.buffer_length = 0 then none
      else
        let bytes := (s.input.read length).1
        some ({ s with
          input := (s.input.read length).2
          read := .copying (length - bytes.length) (copied ++ bytes)
          taken := s.taken ++ bytes } : State).signalEmpty
    | _ => none
  | .readWait =>
    match s.read with
    | .copying length copied =>
      if length ≠ 0 ∧ s.input.buffer_length = 0 then
        some { s with buffer_mutex := none, read := .waiting length copied }
      else none
    | _ => none
  | .readDone =>
    match s.read with
    | .copying 0 copied =>
      some (State.readReturn { s with
        input := { s.input with curpos := s.input.curpos + BitVec.ofNat 32 copied.length } } copied)
    | _ => none
  | .preview =>
    if s.preview = .outside ∧ s.buffer_mutex = none then
      some { s with buffer_mutex := some .preview, preview := .checking }
    else none
  | .previewWait =>
    if s.preview = .checking ∧ s.input.buffer_length < MAX_PREVIEW_SIZE then
      some { s with buffer_mutex := none, preview := .waiting }
    else none
  | .previewCopy =>
    if s.preview = .checking ∧ MAX_PREVIEW_SIZE ≤ s.input.buffer_length then some s.previewReturn else none
  | .wake t => s.wake t
  | .timeout t =>
    match t with
    | .reader => none
    | .read =>
      match s.read with
      | .waiting length copied => some { s with read := .expired length copied }
      | _ => none
    | .preview => if s.preview = .waiting then some { s with preview := .expired } else none
  | .resume t =>
    if s.buffer_mutex ≠ none then none
    else
      match t with
      | .reader =>
        match s.reader with
        | .woken data => some { s with buffer_mutex := some .reader, reader := .inserting data }
        | _ => none
      | .read =>
        match s.read with
        | .woken length copied => some { s with buffer_mutex := some .read, read := .copying length copied }
        | .expired _ copied => some (s.readReturn copied)
        | _ => none
      | .preview =>
        match s.preview with
        | .woken => some { s with buffer_mutex := some .preview, preview := .checking }
        | .expired => some s.previewReturn
        | _ => none

end Xine.Rtp
