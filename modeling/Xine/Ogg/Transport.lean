import Xine.Library.Runs

/-!
# Theora packets in buffers

`send_ogg_packet` of `demux_ogg.c` cuts a packet over buffers of `max_size` bytes, and `collect_data` of
`libtheora/xine_decoder.c` joins it again, with `readin_op`, whose memory grows as needed. The `size` of a buffer is the
length of its content. What is written behind a buffer or read in front of one is `none`, and so is a loop without an end.
-/

namespace Xine.Ogg

def BUF_FLAG_FRAME_START : BitVec 32 := 0x0002
def BUF_FLAG_FRAME_END : BitVec 32 := 0x0004
def BUF_FLAG_HEADER : BitVec 32 := 0x0008
def BUF_FLAG_PREVIEW : BitVec 32 := 0x0010

/-- The flags that `send_ogg_buf` passes on: it is called with the last one or none, and adds the other. -/
def passedFlags : List (BitVec 32) := [0, BUF_FLAG_HEADER, BUF_FLAG_PREVIEW, BUF_FLAG_HEADER ||| BUF_FLAG_PREVIEW]

/-- `ogg_packet`: the bytes of the record, and those that it points to. -/
structure OggPacket where
  record : List (BitVec 8)
  packet : List (BitVec 8)

structure BufElement where
  content : List (BitVec 8)
  decoder_flags : BitVec 32

/-- The loop of `send_ogg_packet` over what is left of the packet. -/
def sendRest (max_size : ℕ) (decoder_flags : BitVec 32) (rest : List (BitVec 8)) : Option (List BufElement) :=
  if rest = [] then some []
  else if max_size < rest.length then
    if 0 < max_size then (sendRest max_size decoder_flags (rest.drop max_size)).map fun bufs =>
      ⟨rest.take max_size, decoder_flags⟩ :: bufs
    else none
  else some [⟨rest, BUF_FLAG_FRAME_END ||| decoder_flags⟩]
termination_by rest.length
decreasing_by
  rw [List.length_drop]
  omega

def sendOggPacket (max_size : ℕ) (op : OggPacket) (decoder_flags : BitVec 32) : Option (List BufElement) :=
  let room := max_size - op.record.length
  if max_size < op.record.length then none
  else if op.packet.length < room then
    some [⟨op.record ++ op.packet, BUF_FLAG_FRAME_START ||| BUF_FLAG_FRAME_END ||| decoder_flags⟩]
  else (sendRest max_size decoder_flags (op.packet.drop room)).map fun bufs =>
    ⟨op.record ++ op.packet.take room, BUF_FLAG_FRAME_START ||| decoder_flags⟩ :: bufs

/-- What `collect_data` uses of the decoder: `op`, whose packet has `done` bytes by now. `packets` is not in the code: it is
the log of the packets that were complete. -/
structure TheoraDecoder where
  op : OggPacket
  reject : Bool
  packets : List OggPacket

def readinOp (this : TheoraDecoder) (src : List (BitVec 8)) : TheoraDecoder :=
  { this with op.packet := this.op.packet ++ src }

def collectData (op_size : ℕ) (this : TheoraDecoder) (buf : BufElement) : Option TheoraDecoder :=
  let finish (this : TheoraDecoder) :=
    if buf.decoder_flags &&& BUF_FLAG_FRAME_END = 0 then this else { this with packets := this.packets ++ [this.op] }
  if buf.decoder_flags &&& BUF_FLAG_FRAME_START ≠ 0 then
    if buf.content.length < op_size then none
    else some (finish (readinOp { this with op := ⟨buf.content.take op_size, []⟩, reject := false }
      (buf.content.drop op_size)))
  else if this.op.packet = [] ∨ this.reject then some { this with reject := true }
  else some (finish (readinOp this buf.content))

section Collecting

variable {this : TheoraDecoder} {op : OggPacket} {ps : List OggPacket} {op_size max_size : ℕ} {f flags : BitVec 32}
  {rest src : List (BitVec 8)}

theorem passed (hf : f ∈ passedFlags) :
    f &&& BUF_FLAG_FRAME_START = 0 ∧ f &&& BUF_FLAG_FRAME_END = 0 ∧
      (BUF_FLAG_FRAME_END ||| f) &&& BUF_FLAG_FRAME_START = 0 ∧ (BUF_FLAG_FRAME_END ||| f) &&& BUF_FLAG_FRAME_END ≠ 0 ∧
      (BUF_FLAG_FRAME_START ||| f) &&& BUF_FLAG_FRAME_START ≠ 0 ∧ (BUF_FLAG_FRAME_START ||| f) &&& BUF_FLAG_FRAME_END = 0 ∧
      (BUF_FLAG_FRAME_START ||| BUF_FLAG_FRAME_END ||| f) &&& BUF_FLAG_FRAME_START ≠ 0 ∧
      (BUF_FLAG_FRAME_START ||| BUF_FLAG_FRAME_END ||| f) &&& BUF_FLAG_FRAME_END ≠ 0 := by
  simp only [passedFlags, List.mem_cons, List.not_mem_nil, or_false] at hf
  rcases hf with rfl | rfl | rfl | rfl <;> decide

/-- A packet of which `op` has come, and those before it. -/
def collected (op : OggPacket) (ps : List OggPacket) (flags : BitVec 32) : TheoraDecoder :=
  ⟨op, false, ps ++ if flags &&& BUF_FLAG_FRAME_END = 0 then [] else [op]⟩

theorem collectData_more (hpacket : op.packet ≠ []) (hstart : flags &&& BUF_FLAG_FRAME_START = 0) :
    collectData op_size ⟨op, false, ps⟩ ⟨src, flags⟩ = some (collected ⟨op.record, op.packet ++ src⟩ ps flags) := by
  unfold collectData collected
  rw [if_neg (not_not.2 hstart), if_neg (by simpa using hpacket)]
  split_ifs
  · rw [List.append_nil]
    rfl
  · rfl

theorem collectData_first (hstart : flags &&& BUF_FLAG_FRAME_START ≠ 0) :
    collectData op.record.length this ⟨op.record ++ src, flags⟩ =
      some (collected ⟨op.record, src⟩ this.packets flags) := by
  unfold collectData collected readinOp
  rw [if_pos hstart, if_neg (by rw [List.length_append]; omega), List.take_left, List.drop_left]
  split_ifs
  · rw [List.append_nil]
    rfl
  · rfl

/-- The decoder joins what is left of a packet to what it has of it. -/
theorem run_rest (hf : f ∈ passedFlags) (hmax : 0 < max_size) (hpacket : op.packet ≠ []) :
    ∃ bufs, sendRest max_size f rest = some bufs ∧ Runs.run (collectData op_size) ⟨op, false, ps⟩ bufs =
      some ⟨⟨op.record, op.packet ++ rest⟩, false,
        ps ++ if rest = [] then [] else [⟨op.record, op.packet ++ rest⟩]⟩ := by
  obtain ⟨hs, he, hes, hee, -⟩ := passed hf
  induction rest using sendRest.induct max_size generalizing op with
  | case1 => exact ⟨[], by rw [sendRest, if_pos rfl], by simp⟩
  | case2 rest hne hlt _ ih =>
    obtain ⟨bufs, hbufs, hrun⟩ := @ih ⟨op.record, op.packet ++ rest.take max_size⟩ (by simp [hpacket])
    have hdrop : rest.drop max_size ≠ [] := fun h => by have := List.drop_eq_nil_iff.1 h; omega
    rw [if_neg hdrop, List.append_assoc, List.take_append_drop] at hrun
    refine ⟨_, by rw [sendRest, if_neg hne, if_pos hlt, if_pos hmax, hbufs]; rfl,
      Runs.run_cons_eq_some.2 ⟨_, collectData_more hpacket hs, ?_⟩⟩
    rw [collected, if_pos he, List.append_nil, if_neg hne]
    exact hrun
  | case3 rest hne hlt hzero => exact absurd hmax hzero
  | case4 rest hne hle =>
    refine ⟨_, by rw [sendRest, if_neg hne, if_neg hle], Runs.run_cons_eq_some.2 ⟨_, collectData_more hpacket hes, ?_⟩⟩
    rw [collected, if_neg hee, if_neg hne]
    rfl

/-- A packet comes out of its buffers as it was, unless it just fills the first one. -/
theorem run_packet (hf : f ∈ passedFlags) (hrecord : op.record.length < max_size) :
    ∃ bufs, sendOggPacket max_size op f = some bufs ∧ Runs.run (collectData op.record.length) this bufs =
      some ⟨op, false, this.packets ++ if op.record.length + op.packet.length = max_size then [] else [op]⟩ := by
  obtain ⟨-, -, -, -, hss, hse, hos, hoe⟩ := passed hf
  unfold sendOggPacket
  rw [if_neg (by omega)]
  by_cases hlt : op.packet.length < max_size - op.record.length
  · refine ⟨_, if_pos hlt, Runs.run_cons_eq_some.2 ⟨_, collectData_first hos, ?_⟩⟩
    rw [collected, if_neg hoe, if_neg (by omega)]
    rfl
  · have hdrop : op.packet.drop (max_size - op.record.length) = [] ↔ op.record.length + op.packet.length = max_size := by
      rw [List.drop_eq_nil_iff]
      omega
    have htake : op.packet.take (max_size - op.record.length) ≠ [] := fun h => by
      have := congrArg List.length h
      rw [List.length_take, List.length_nil] at this
      omega
    obtain ⟨bufs, hbufs, hrun⟩ := @run_rest ⟨op.record, op.packet.take (max_size - op.record.length)⟩ this.packets
      op.record.length max_size f (op.packet.drop (max_size - op.record.length)) hf (by omega) htake
    simp only [hdrop, List.take_append_drop] at hrun
    refine ⟨_, by rw [if_neg hlt, hbufs]; rfl, Runs.run_cons_eq_some.2 ⟨_, collectData_first hss, ?_⟩⟩
    rw [collected, if_pos hse, List.append_nil]
    exact hrun

end Collecting

/-- Whatever the decoder had before, of all packets that are sent to it exactly those come out that do not just fill the first
buffer with their record, in order and as they were: the end of such a packet is not marked. -/
theorem packets_transported {op_size max_size : ℕ} (hmax : op_size < max_size) (sent : List (OggPacket × BitVec 32))
    (hsent : ∀ s ∈ sent, s.1.record.length = op_size ∧ s.2 ∈ passedFlags) (this : TheoraDecoder) :
    ∃ bufs this', sent.mapM (fun s => sendOggPacket max_size s.1 s.2) = some bufs ∧
      Runs.run (collectData op_size) this bufs.flatten = some this' ∧ this'.packets =
        this.packets ++ (sent.map Prod.fst).filter fun op => op_size + op.packet.length ≠ max_size := by
  induction sent generalizing this with
  | nil => exact ⟨[], this, rfl, rfl, (List.append_nil _).symm⟩
  | cons s sent ih =>
    obtain ⟨⟨rfl, hflags⟩, hrest⟩ := List.forall_mem_cons.1 hsent
    obtain ⟨bufs, hbufs, hrun⟩ := @run_packet this s.1 max_size s.2 hflags hmax
    obtain ⟨rest, this', hrest, hrun', hpackets⟩ := ih hrest _
    refine ⟨bufs :: rest, this', by rw [List.mapM_cons, hbufs, hrest]; rfl, Runs.run_append_eq_some.2 ⟨_, hrun, hrun'⟩, ?_⟩
    rw [hpackets, List.append_assoc]
    by_cases hfill : s.1.record.length + s.1.packet.length = max_size
    · simp [hfill]
    · simp [hfill]

/-- A packet of two buffers behind one that just fills its buffer. -/
theorem packets_transported_second : ∃ bufs this',
    [(⟨[7], [1, 2]⟩, 0), (⟨[7], [1, 2, 3]⟩, 0)].mapM
      (fun s : OggPacket × BitVec 32 => sendOggPacket 3 s.1 s.2) = some bufs ∧
      Runs.run (collectData 1) ⟨⟨[], []⟩, false, []⟩ bufs.flatten = some this' ∧ this'.packets = [⟨[7], [1, 2, 3]⟩] :=
  packets_transported (by decide) [(⟨[7], [1, 2]⟩, 0), (⟨[7], [1, 2, 3]⟩, 0)] (by decide) _

end Xine.Ogg
