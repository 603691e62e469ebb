import Xine.Buffer.Refinement

/-!
# A decoder fifo and its decoder

The video or the audio side of a stream: the fifo, as the list of its buffers, and the decoder loop of
`video_decoder.c` or `audio_decoder.c`, as far as it concerns the fifo and the count of headers.
Every buffer that is put gets a serial number, which the code does not have.

The operations on the list are those of `buffer.c`, as `contents_put`, `contents_get` and
`contents_clear` say.
-/

namespace Xine.Demux

open Buffer

def bufControlStart : BitVec 32 := 0x01000000#32

def bufControlEnd : BitVec 32 := 0x01010000#32

def bufControlDiscontinuity : BitVec 32 := 0x01030000#32

def bufControlNop : BitVec 32 := 0x01040000#32

def bufControlNewpts : BitVec 32 := 0x01070000#32

def bufControlResetDecoder : BitVec 32 := 0x01080000#32

def bufControlHeadersDone : BitVec 32 := 0x01090000#32

/-- What a control buffer carries. -/
structure Buf where
  type : BitVec 32
  decoder_flags : BitVec 32
  disc_off : ℤ

/-- The test of `fifo_buffer_clear` for the buffers that it keeps. -/
def Buf.isControl (b : Buf) : Bool := b.type &&& bufMajorMask == bufControlBase

section Contents

variable {fifo fifo' : FifoBuffer} {xs kept rest : List Elem} {bufs : List Buf} {e : Elem}

end Contents

/-! ## A track -/

/-- A buffer with its serial number. -/
structure Item where
  serial : ℕ
  buf : Buf

/-- One side of a stream: its fifo, the buffer that the decoder loop works on, the count of headers,
the number of buffers put so far, and the types of the buffers that the decoder has finished with. -/
structure Track where
  fifo : List Item
  hand : Option Item
  header_count : ℕ
  puts : ℕ
  handled : List (BitVec 32)

namespace Track

variable (x : Track)

/-- `put` of a new buffer. -/
def put (b : Buf) : Track :=
  { x with fifo := x.fifo ++ [⟨x.puts, b⟩], puts := x.puts + 1 }

def clear : Track := { x with fifo := x.fifo.filter fun i => i.buf.isControl }

/-- The decoder loop gets the next buffer. -/
def get : Option Track :=
  match x.hand, x.fifo with
  | none, i :: fifo => some { x with fifo, hand := some i }
  | _, _ => none

/-- The decoder loop is through with its buffer, and frees it. The count of headers is under the lock
`counter_lock`, and `isHeaders` is the loop's test for it. -/
def handle (isHeaders : BitVec 32 → Bool) (counter_lock : Bool) : Option Track :=
  match x.hand with
  | none => none
  | some i =>
    if isHeaders i.buf.type then
      if counter_lock then none
      else some { x with
        hand := none, header_count := x.header_count + 1, handled := x.handled ++ [i.buf.type] }
    else some { x with hand := none, handled := x.handled ++ [i.buf.type] }

/-- What the decoder has not finished with. -/
def line : List Item := x.hand.toList ++ x.fifo

/-- The markers of a kind that are handled or pending. -/
def total (kind : BitVec 32) : ℕ :=
  x.handled.count kind + (x.line.map fun i => i.buf.type).count kind

end Track

/-- A track before anything is put. -/
def emptyTrack : Track := ⟨[], none, 0, 0, []⟩

end Xine.Demux

/-!
## The line of a decoder

What the operations on a track do to its line. The serial numbers increase along it, since they do so as buffers
are put and nothing overtakes.
-/

namespace Xine.Demux

namespace Track

variable {x x' : Track} {b : Buf} {isHeaders : BitVec 32 → Bool} {counter_lock : Bool}

/-! ## The line -/

theorem line_put (x : Track) (b : Buf) : (x.put b).line = x.line ++ [⟨x.puts, b⟩] := by
  simp [line, put]

theorem line_clear_sublist (x : Track) : x.clear.line.Sublist x.line :=
  List.Sublist.append_left List.filter_sublist x.hand.toList

theorem line_clear_filter (x : Track) (p : Item → Bool) (hp : ∀ i, p i → i.buf.isControl) :
    x.clear.line.filter p = x.line.filter p := by
  simp only [line, clear, List.filter_append, List.filter_filter]
  congr 1
  refine List.filter_congr fun i _ => ?_
  cases hpi : p i with
  | false => rfl
  | true => simp [hp i hpi]

theorem get_spec (h : x.get = some x') :
    x'.line = x.line ∧ x'.header_count = x.header_count ∧ x'.puts = x.puts ∧
      x'.handled = x.handled := by
  unfold get at h
  split at h
  · rename_i i fifo hhand hfifo
    cases h
    exact ⟨by simp [line, hhand, hfifo], rfl, rfl, rfl⟩
  · simp at h

theorem handle_spec (h : x.handle isHeaders counter_lock = some x') :
    ∃ i, x.line = i :: x'.line ∧ x'.handled = x.handled ++ [i.buf.type] ∧ x'.puts = x.puts ∧
      ((isHeaders i.buf.type ∧ counter_lock = false ∧ x'.header_count = x.header_count + 1) ∨
        (isHeaders i.buf.type = false ∧ x'.header_count = x.header_count)) := by
  unfold handle at h
  split at h
  · simp at h
  · rename_i i hhand
    have hline : x.line = i :: x.fifo := by simp [line, hhand]
    split_ifs at h with hheaders hlock
    · cases h
      exact ⟨i, hline, rfl, rfl, .inl ⟨hheaders, by simpa using hlock, rfl⟩⟩
    · cases h
      exact ⟨i, hline, rfl, rfl, .inr ⟨by simpa using hheaders, rfl⟩⟩

/-! ## Order -/

/-- The serial numbers increase along the line. -/
structure Ordered (x : Track) : Prop where
  pairwise : x.line.Pairwise fun i j => i.serial < j.serial
  lt_puts : ∀ i ∈ x.line, i.serial < x.puts

theorem ordered_empty : emptyTrack.Ordered :=
  ⟨List.Pairwise.nil, fun _ hi => absurd hi (by simp [emptyTrack, line])⟩

theorem Ordered.put (h : x.Ordered) (b : Buf) : (x.put b).Ordered := by
  refine ⟨?_, fun i hi => ?_⟩
  · rw [line_put, List.pairwise_append]
    refine ⟨h.pairwise, List.pairwise_singleton _ _, fun i hi j hj => ?_⟩
    rw [List.mem_singleton.1 hj]
    exact h.lt_puts i hi
  · rw [line_put, List.mem_append, List.mem_singleton] at hi
    change i.serial < x.puts + 1
    rcases hi with hi | rfl
    · exact Nat.lt_succ_of_lt (h.lt_puts i hi)
    · exact Nat.lt_succ_self _

theorem Ordered.clear (h : x.Ordered) : x.clear.Ordered :=
  ⟨h.pairwise.sublist (line_clear_sublist x),
    fun i hi => h.lt_puts i ((line_clear_sublist x).subset hi)⟩

theorem Ordered.get (h : x.Ordered) (hget : x.get = some x') : x'.Ordered := by
  obtain ⟨hline, -, hputs, -⟩ := get_spec hget
  refine ⟨by rw [hline]; exact h.pairwise, fun i hi => ?_⟩
  rw [hputs]
  exact h.lt_puts i (hline ▸ hi)

theorem Ordered.handle (h : x.Ordered) (hhandle : x.handle isHeaders counter_lock = some x') :
    x'.Ordered := by
  obtain ⟨i, hline, -, hputs, -⟩ := handle_spec hhandle
  have hpair := h.pairwise
  rw [hline] at hpair
  refine ⟨(List.pairwise_cons.1 hpair).2, fun j hj => ?_⟩
  rw [hputs]
  exact h.lt_puts j (by rw [hline]; exact List.mem_cons_of_mem i hj)

/-! ## Headers -/

/-- The serial numbers of the headers in the line. -/
def headers (x : Track) (isHeaders : BitVec 32 → Bool) : List ℕ :=
  (x.line.filter fun i => isHeaders i.buf.type).map Item.serial

theorem headers_put (x : Track) (hb : isHeaders b.type = false) :
    (x.put b).headers isHeaders = x.headers isHeaders := by
  simp [headers, line_put, hb]

theorem headers_put_header (x : Track) (hb : isHeaders b.type = true) :
    (x.put b).headers isHeaders = x.headers isHeaders ++ [x.puts] := by
  simp [headers, line_put, hb]

theorem headers_clear (x : Track) (hheaders : ∀ b : Buf, isHeaders b.type → b.isControl) :
    x.clear.headers isHeaders = x.headers isHeaders := by
  unfold headers
  rw [line_clear_filter x _ fun i => hheaders i.buf]

theorem headers_get (h : x.get = some x') : x'.headers isHeaders = x.headers isHeaders := by
  unfold headers
  rw [(get_spec h).1]

/-- No header is in the line, and `n` headers will have been counted after the next one. -/
def Quiet (x : Track) (isHeaders : BitVec 32 → Bool) (n : ℕ) : Prop :=
  x.headers isHeaders = [] ∧ n = x.header_count + 1

/-- The header with the serial number `m` is the only one in the line and will be the `n`-th, or it
has been the `n`-th and nothing is left of what was put before it. -/
def Awaits (x : Track) (isHeaders : BitVec 32 → Bool) (m n : ℕ) : Prop :=
  x.headers isHeaders = [m] ∧ n = x.header_count + 1 ∨
    x.headers isHeaders = [] ∧ n = x.header_count ∧ m < x.puts ∧ ∀ i ∈ x.line, m < i.serial

variable {m n : ℕ}

theorem headers_handle_nil (hnil : x.headers isHeaders = [])
    (h : x.handle isHeaders counter_lock = some x') :
    x'.headers isHeaders = [] ∧ x'.header_count = x.header_count := by
  obtain ⟨i, hline, -, -, hcount⟩ := handle_spec h
  unfold headers at hnil ⊢
  rw [hline] at hnil
  rcases hcount with ⟨hi, -, -⟩ | ⟨hi, hcount⟩
  · simp [hi] at hnil
  · rw [List.filter_cons, hi] at hnil
    exact ⟨hnil, hcount⟩

theorem Quiet.put (h : x.Quiet isHeaders n) (hb : isHeaders b.type = false) :
    (x.put b).Quiet isHeaders n :=
  ⟨(headers_put x hb).trans h.1, h.2⟩

theorem Quiet.clear (h : x.Quiet isHeaders n) (hheaders : ∀ b : Buf, isHeaders b.type → b.isControl) :
    x.clear.Quiet isHeaders n :=
  ⟨(headers_clear x hheaders).trans h.1, h.2⟩

theorem Quiet.get (h : x.Quiet isHeaders n) (hget : x.get = some x') : x'.Quiet isHeaders n := by
  refine ⟨(headers_get hget).trans h.1, ?_⟩
  rw [(get_spec hget).2.1]
  exact h.2

theorem Quiet.handle (h : x.Quiet isHeaders n) (hhandle : x.handle isHeaders counter_lock = some x') :
    x'.Quiet isHeaders n := by
  obtain ⟨hnil, hcount⟩ := headers_handle_nil h.1 hhandle
  exact ⟨hnil, hcount ▸ h.2⟩

theorem Quiet.put_header (h : x.Quiet isHeaders n) (hb : isHeaders b.type = true) :
    (x.put b).Awaits isHeaders x.puts n := by
  refine .inl ⟨?_, h.2⟩
  rw [headers_put_header x hb, h.1]
  rfl

theorem Awaits.put (h : x.Awaits isHeaders m n) (hb : isHeaders b.type = false) :
    (x.put b).Awaits isHeaders m n := by
  rcases h with ⟨hone, hn⟩ | ⟨hnil, hn, hputs, hafter⟩
  · exact .inl ⟨(headers_put x hb).trans hone, hn⟩
  · refine .inr ⟨(headers_put x hb).trans hnil, hn, Nat.lt_succ_of_lt hputs, fun i hi => ?_⟩
    rw [line_put, List.mem_append, List.mem_singleton] at hi
    rcases hi with hi | rfl
    · exact hafter i hi
    · exact hputs

theorem Awaits.clear (h : x.Awaits isHeaders m n)
    (hheaders : ∀ b : Buf, isHeaders b.type → b.isControl) : x.clear.Awaits isHeaders m n := by
  rcases h with ⟨hone, hn⟩ | ⟨hnil, hn, hputs, hafter⟩
  · exact .inl ⟨(headers_clear x hheaders).trans hone, hn⟩
  · exact .inr ⟨(headers_clear x hheaders).trans hnil, hn, hputs,
      fun i hi => hafter i ((line_clear_sublist x).subset hi)⟩

theorem Awaits.get (h : x.Awaits isHeaders m n) (hget : x.get = some x') :
    x'.Awaits isHeaders m n := by
  obtain ⟨hline, hcount, hputs, -⟩ := get_spec hget
  unfold Awaits
  rwa [headers_get hget, hline, hcount, hputs]

theorem Awaits.handle (h : x.Awaits isHeaders m n) (hord : x.Ordered)
    (hhandle : x.handle isHeaders counter_lock = some x') : x'.Awaits isHeaders m n := by
  rcases h with ⟨hone, hn⟩ | ⟨hnil, hn, hputs, hafter⟩
  · obtain ⟨i, hline, -, hputs', hcount⟩ := handle_spec hhandle
    unfold headers at hone
    rw [hline, List.filter_cons] at hone
    rcases hcount with ⟨hi, -, hcount⟩ | ⟨hi, hcount⟩
    · -- the header itself: what is behind it was put later
      rw [if_pos hi, List.map_cons, List.cons.injEq] at hone
      obtain ⟨rfl, hnil⟩ := hone
      have hpair := hord.pairwise
      rw [hline] at hpair
      refine .inr ⟨hnil, hn.trans hcount.symm, ?_, (List.pairwise_cons.1 hpair).1⟩
      rw [hputs']
      exact hord.lt_puts i (by rw [hline]; exact List.mem_cons_self)
    · rw [if_neg (by simp [hi])] at hone
      exact .inl ⟨hone, hcount ▸ hn⟩
  · obtain ⟨hnil', hcount⟩ := headers_handle_nil hnil hhandle
    obtain ⟨i, hline, -, hputs', -⟩ := handle_spec hhandle
    refine .inr ⟨hnil', hcount ▸ hn, hputs' ▸ hputs, fun j hj => hafter j ?_⟩
    rw [hline]
    exact List.mem_cons_of_mem i hj

/-! ## Markers -/

theorem total_put (x : Track) (b : Buf) (kind : BitVec 32) :
    (x.put b).total kind = x.total kind + if b.type = kind then 1 else 0 := by
  unfold total
  rw [line_put, List.map_append, List.count_append, List.map_singleton, List.count_singleton]
  change x.handled.count kind + _ = _
  by_cases h : b.type = kind
  · simp [h]
    omega
  · simp [h]

theorem total_get (h : x.get = some x') (kind : BitVec 32) : x'.total kind = x.total kind := by
  obtain ⟨hline, -, -, hhandled⟩ := get_spec h
  unfold total
  rw [hline, hhandled]

theorem total_handle (h : x.handle isHeaders counter_lock = some x') (kind : BitVec 32) :
    x'.total kind = x.total kind := by
  obtain ⟨i, hline, hhandled, -, -⟩ := handle_spec h
  unfold total
  rw [hline, hhandled, List.count_append, List.map_cons]
  simp only [List.count_cons, List.count_nil]
  omega

theorem total_clear (x : Track) {kind : BitVec 32}
    (hkind : ∀ b : Buf, b.type = kind → b.isControl) : x.clear.total kind = x.total kind := by
  have hcount : ∀ l : List Item, (l.map fun i => i.buf.type).count kind =
      (l.filter fun i => i.buf.type == kind).length := by
    intro l
    rw [List.count_eq_countP, List.countP_map, List.countP_eq_length_filter]
    rfl
  unfold total
  rw [hcount, hcount, line_clear_filter x _ fun i hi => hkind i.buf (by simpa using hi)]
  rfl

end Track

end Xine.Demux
