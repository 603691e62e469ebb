import Xine.Http.Stripping

/-!
# Seeking

`http_plugin_seek` of `input_http.c` outside of shoutcast mode. It reads what it passes into `seek_buf` and goes
back inside the preview only. A position below 0, a read that does not fit in `seek_buf` and what overflows an
`int` are `none`.
-/

namespace Xine.Http

open Octets (Byte)
open Runs (run Guarded)

/-- `SEEK_SET`, `SEEK_CUR` and everything else. -/
inductive Origin
  | set | cur | other

/-- A read into `seek_buf`. -/
def readSeekBuf (this : HttpInput) (n : ℤ) : Option (List Byte × HttpInput) :=
  if 0 ≤ n ∧ n ≤ BUFSIZE then plainRead this n.toNat else none

/-- The loop over blocks of `seek_buf`, which is left at once when nothing is read, and the read behind it. The offset
is converted to an `int` in each turn. -/
def skipLoop : ℕ → HttpInput → ℤ → Option HttpInput
  | 0, _, _ => none
  | fuel + 1, this, offset =>
    let ahead := offset.bmod (2 ^ 32) - BUFSIZE
    if ahead < -2 ^ 31 then none
    else if 0 < ahead then
      (readSeekBuf this BUFSIZE).bind fun (bytes, this) =>
        if bytes = [] then some this else skipLoop fuel this (offset - BUFSIZE)
    else (readSeekBuf this offset).map Prod.snd

def skip (this : HttpInput) (offset : ℤ) : Option HttpInput := skipLoop (offset.toNat / BUFSIZE + 1) this offset

def httpPluginSeek (this : HttpInput) (offset : ℤ) : Origin → Option HttpInput
  | .cur => if 0 ≤ offset then skip this offset else some this
  | .set =>
    if offset < this.curpos then
      if this.curpos ≤ this.preview_size then
        if 0 ≤ offset then some { this with curpos := offset.toNat } else none
      else some this
    else skip this (offset - this.curpos)
  | .other => some this

/-! ## Bytes at their places -/

variable {this this' : HttpInput} {body out : List Byte} {n fuel : ℕ} {d : ℤ}

/-- The input stands in a body at its position. -/
structure Placed (body : List Byte) (this : HttpInput) : Prop where
  good : this.Good
  mode : this.shoutcast_mode = false
  curpos : this.curpos ≤ body.length
  preview : this.preview.take this.preview_size = body.take this.preview_size
  rest : this.sock.bytes = body.drop (max this.preview_size this.curpos)

theorem Placed.preview_size (h : Placed body this) : this.preview_size ≤ body.length := by
  have hlen := congrArg List.length h.preview
  have hgood := h.good.preview
  rw [List.length_take, List.length_take] at hlen
  omega

theorem Placed.raw (h : Placed body this) : this.raw = body.drop this.curpos := by
  have hcurpos := h.curpos
  unfold HttpInput.raw HttpInput.ahead
  rw [h.preview, h.rest]
  rcases Nat.le_total this.curpos this.preview_size with hle | hle
  · rw [Nat.max_eq_left hle]
    conv_rhs => rw [← List.take_append_drop this.preview_size body, List.drop_append]
    have hzero : this.curpos - (body.take this.preview_size).length = 0 := by
      rw [List.length_take]
      omega
    rw [hzero, List.drop_zero]
  · rw [Nat.max_eq_right hle, List.drop_eq_nil_of_le (by rw [List.length_take]; omega), List.nil_append]

theorem plainRead_curpos (hgood : this.Good) (h : plainRead this n = some (out, this')) :
    this'.curpos = this.curpos + out.length ∧ this'.shoutcast_mode = false := by
  have hpreview : ∃ head this₁, readPreview (fun _ => none) { this with shoutcast_mode := false } n = some (head, this₁) ∧
      this₁.curpos = this.curpos + head.length ∧ this₁.shoutcast_mode = false ∧ this₁.sock = this.sock := by
    unfold readPreview
    dsimp only
    split
    · have hsize := hgood.preview
      rw [if_neg fun hno => Bool.false_ne_true hno.1]
      unfold copyPreview
      rw [if_neg (by dsimp only; omega)]
      refine ⟨_, _, rfl, ?_, rfl, rfl⟩
      rw [List.nil_append, List.length_take, List.length_drop]
      dsimp only
      omega
    · exact ⟨_, _, rfl, rfl, rfl, rfl⟩
  obtain ⟨head, this₁, hhead, hpos₁, hmode₁, hsock₁⟩ := hpreview
  have hsocket (k : ℕ) : ∃ rest this₂, readSocket (fun _ => none) this₁ k = some (some rest, this₂) ∧
      this₂.curpos = this₁.curpos + rest.length ∧ this₂.shoutcast_mode = false := by
    have hmode : ¬this₁.shoutcast_mode = true := by rw [hmode₁]; exact Bool.false_ne_true
    unfold readSocket
    split
    · exact ⟨_, _, rfl, rfl, hmode₁⟩
    · rw [if_neg fun hno => hmode hno.1]
      unfold finishSocket xioTcpRead
      obtain ⟨hread, -, -⟩ := xioLoop_spec (k : ℤ).toNat this₁.sock.bytes (hsock₁ ▸ hgood.recvs)
      generalize xioLoop (k : ℤ).toNat this₁.sock.bytes this₁.sock.recvs = r at hread
      obtain ⟨got, sock⟩ := r
      cases hread
      exact ⟨_, _, rfl, rfl, hmode₁⟩
  obtain ⟨rest, this₂, hrest, hpos₂, hmode₂⟩ := hsocket (n - head.length)
  unfold plainRead readWith at h
  rw [if_neg fun hno => Bool.false_ne_true hno.1, Option.bind_some, hhead, Option.bind_some] at h
  dsimp only at h
  rw [hrest] at h
  cases h
  exact ⟨by rw [hpos₂, hpos₁, Option.elim_some, List.length_append, Nat.add_assoc], hmode₂⟩

theorem Placed.read (h : Placed body this) (n : ℕ) :
    ∃ this', plainRead this n = some ((body.drop this.curpos).take n, this') ∧ Placed body this' ∧
      this'.curpos = min (this.curpos + n) body.length ∧ this'.preview_size = this.preview_size := by
  obtain ⟨this', hread, hadv⟩ := plainRead_spec n h.good
  obtain ⟨hpos, hmode⟩ := plainRead_curpos h.good hread
  have hcurpos := h.curpos
  have hsize := h.preview_size
  rw [h.raw] at hread hpos
  have hpos' : this'.curpos = min (this.curpos + n) body.length := by
    rw [hpos, List.length_take, List.length_drop]
    omega
  refine ⟨this', hread, ⟨hadv.good h.good, hmode, by omega, ?_, ?_⟩, hpos', hadv.preview_size⟩
  · rw [hadv.preview, hadv.preview_size]
    exact h.preview
  · rw [hadv.bytes, h.rest, List.drop_drop, h.good.length_ahead, hadv.preview_size, hpos']
    rcases Nat.le_total (this.curpos + n) body.length with hle | hle
    · congr 1
      omega
    · rw [List.drop_eq_nil_of_le (by omega), List.drop_eq_nil_of_le (by omega)]

theorem Placed.readSeekBuf (h : Placed body this) (hd : 0 ≤ d) (hle : d ≤ BUFSIZE) :
    ∃ this', readSeekBuf this d = some ((body.drop this.curpos).take d.toNat, this') ∧ Placed body this' ∧
      this'.curpos = min (this.curpos + d.toNat) body.length ∧ this'.preview_size = this.preview_size := by
  unfold Http.readSeekBuf
  rw [if_pos ⟨hd, hle⟩]
  exact h.read d.toNat

theorem Placed.skipLoop (h : Placed body this) (hd : 0 ≤ d) (hlt : d < 2 ^ 31) (hfuel : d.toNat < BUFSIZE * fuel) :
    ∃ this', skipLoop fuel this d = some this' ∧ Placed body this' ∧
      this'.curpos = min (this.curpos + d.toNat) body.length ∧ this'.preview_size = this.preview_size := by
  induction fuel generalizing this d with
  | zero => exact absurd hfuel (Nat.not_lt_zero _)
  | succ fuel ih =>
    have hmod : d.bmod (2 ^ 32) = d := by
      rw [Int.bmod_def]
      split <;> omega
    have hnat : BUFSIZE = 1024 := rfl
    have hbuf : (BUFSIZE : ℤ) = 1024 := rfl
    rw [hnat] at hfuel
    unfold Http.skipLoop
    dsimp only
    rw [hmod, if_neg (by omega)]
    split
    · obtain ⟨this₁, hread, h₁, hpos₁, hsize₁⟩ := h.readSeekBuf (show 0 ≤ (BUFSIZE : ℤ) by omega) le_rfl
      rw [hread, Option.bind_some]
      dsimp only
      have hcurpos := h.curpos
      rw [Int.toNat_natCast] at hpos₁
      split
      · rename_i hnil
        have hend : body.length ≤ this.curpos := by
          rcases List.take_eq_nil_iff.1 hnil with hzero | hdrop
          · exact absurd hzero (by decide)
          · exact List.drop_eq_nil_iff.1 hdrop
        exact ⟨this₁, rfl, h₁, by omega, hsize₁⟩
      · have hfuel' : (d - BUFSIZE).toNat < BUFSIZE * fuel := by
          rw [hnat]
          omega
        obtain ⟨this₂, hloop, h₂, hpos₂, hsize₂⟩ := @ih this₁ (d - BUFSIZE) h₁ (by omega) (by omega) hfuel'
        exact ⟨this₂, hloop, h₂, by omega, hsize₂.trans hsize₁⟩
    · obtain ⟨this₁, hread, h₁, hpos₁, hsize₁⟩ := h.readSeekBuf hd (by omega)
      rw [hread]
      exact ⟨this₁, rfl, h₁, hpos₁, hsize₁⟩

theorem Placed.skip (h : Placed body this) (hd : 0 ≤ d) (hlt : d < 2 ^ 31) :
    ∃ this', skip this d = some this' ∧ Placed body this' ∧
      this'.curpos = min (this.curpos + d.toNat) body.length ∧ this'.preview_size = this.preview_size :=
  h.skipLoop hd hlt (Nat.lt_mul_div_succ d.toNat (by decide))

/-! ## Runs of seeks and reads -/

inductive Op
  | read (n : ℕ)
  | seek (offset : ℤ) (origin : Origin)

/-- A call: where the input stood, how far its preview reaches, what was called and returned, and where it ended. -/
structure Call where
  before : ℕ
  preview_size : ℕ
  op : Op
  out : List Byte
  after : ℕ

/-- The input, and the calls so far. -/
structure Seeker where
  input : HttpInput
  log : List Call

def seekerStep (c : Seeker) (op : Op) : Option Seeker :=
  let done := fun (out, input) =>
    { input, log := c.log ++ [⟨c.input.curpos, c.input.preview_size, op, out, input.curpos⟩] }
  match op with
  | .read n => (plainRead c.input n).map done
  | .seek offset origin => (httpPluginSeek c.input offset origin).map fun input => done ([], input)

/-- A call goes to no position below 0, and passes less than `2 ^ 31` bytes. -/
def Reaches (this : HttpInput) : Op → Prop
  | .read _ => True
  | .seek offset .cur => offset < 2 ^ 31
  | .seek offset .set => (this.curpos ≤ this.preview_size → 0 ≤ offset) ∧ offset - this.curpos < 2 ^ 31
  | .seek _ .other => True

/-- A call returns and ends where it should. -/
def Call.Lands (body : List Byte) (call : Call) : Prop :=
  match call.op with
  | .read n => call.out = (body.drop call.before).take n ∧ call.after = call.before + call.out.length
  | .seek offset .cur =>
    if 0 ≤ offset then (call.after : ℤ) = min (call.before + offset) body.length else call.after = call.before
  | .seek offset .set =>
    if call.before ≤ offset then (call.after : ℤ) = min offset body.length
    else if call.before ≤ call.preview_size then (call.after : ℤ) = offset else call.after = call.before
  | .seek _ .other => call.after = call.before

/-- What a run keeps. -/
structure Seeking (body : List Byte) (c : Seeker) : Prop where
  placed : Placed body c.input
  lands : ∀ call ∈ c.log, call.Lands body

theorem seek_spec (h : Placed body this) {offset : ℤ} {origin : Origin} (hreaches : Reaches this (.seek offset origin)) :
    ∃ this', httpPluginSeek this offset origin = some this' ∧ Placed body this' ∧
      Call.Lands body ⟨this.curpos, this.preview_size, .seek offset origin, [], this'.curpos⟩ := by
  have hcurpos := h.curpos
  cases origin with
  | cur =>
    unfold httpPluginSeek Call.Lands
    dsimp only
    split
    · rename_i hpos
      obtain ⟨this', hskip, h', hend, -⟩ := h.skip hpos hreaches
      exact ⟨this', hskip, h', by omega⟩
    · exact ⟨this, rfl, h, rfl⟩
  | set =>
    unfold httpPluginSeek Call.Lands
    dsimp only
    split
    · rename_i hlt
      split
      · rename_i hinside
        have hpos := hreaches.1 hinside
        rw [if_pos hpos]
        refine ⟨_, rfl, ⟨⟨h.good.preview, h.good.recvs⟩, h.mode, by dsimp only; omega, h.preview, ?_⟩, ?_⟩
        · dsimp only
          rw [h.rest]
          congr 1
          omega
        · rw [if_neg (Int.not_le.2 hlt)]
          exact Int.toNat_of_nonneg hpos
      · refine ⟨this, rfl, h, ?_⟩
        rw [if_neg (Int.not_le.2 hlt)]
    · rename_i hge
      obtain ⟨this', hskip, h', hend, -⟩ := h.skip (Int.sub_nonneg_of_le (Int.not_lt.1 hge)) hreaches.2
      refine ⟨this', hskip, h', ?_⟩
      rw [if_pos (Int.not_lt.1 hge)]
      omega
  | other => exact ⟨this, rfl, h, rfl⟩

theorem seeking_step {c : Seeker} {op : Op} (h : Seeking body c) (hreaches : Reaches c.input op) :
    ∃ c', seekerStep c op = some c' ∧ Seeking body c' := by
  have hlog {input : HttpInput} {out : List Byte} (hplaced : Placed body input)
      (hlands : Call.Lands body ⟨c.input.curpos, c.input.preview_size, op, out, input.curpos⟩) :
      Seeking body ⟨input, c.log ++ [⟨c.input.curpos, c.input.preview_size, op, out, input.curpos⟩]⟩ := by
    refine ⟨hplaced, fun call hcall => ?_⟩
    rcases List.mem_append.1 hcall with hcall | hcall
    · exact h.lands call hcall
    · rw [List.mem_singleton.1 hcall]
      exact hlands
  cases op with
  | read n =>
    obtain ⟨input, hread, hplaced, -, -⟩ := h.placed.read n
    obtain ⟨hpos, -⟩ := plainRead_curpos h.placed.good hread
    unfold seekerStep
    dsimp only
    rw [hread]
    exact ⟨_, rfl, hlog hplaced ⟨rfl, hpos⟩⟩
  | seek offset origin =>
    obtain ⟨input, hseek, hplaced, hlands⟩ := seek_spec h.placed hreaches
    unfold seekerStep
    dsimp only
    rw [hseek]
    exact ⟨_, rfl, hlog hplaced hlands⟩

theorem openBody_placed {sock : Socket} (hsock : Recv.fails ∉ sock.recvs)
    (hopen : openBody false sock = some (true, this)) (hmode : this.shoutcast_mode = false) : Placed this.raw this := by
  have hbody : (atBody sock).Good := ⟨Nat.zero_le _, hsock⟩
  obtain ⟨this₁, hread, hadv⟩ := plainRead_spec MAX_PREVIEW_SIZE hbody
  unfold openBody at hopen
  rw [hread, Option.bind_some] at hopen
  dsimp only at hopen
  split at hopen
  · obtain ⟨⟨done, this₂⟩, -, hopen⟩ := Option.map_eq_some_iff.1 hopen
    dsimp only at hopen
    split at hopen
    · cases hopen
      exact absurd hmode.symm Bool.false_ne_true
    · cases hopen
  · cases hopen
    refine ⟨⟨?_, (hadv.good hbody).recvs⟩, rfl, Nat.zero_le _, ?_, ?_⟩
    · rw [List.length_append]
      exact Nat.le_add_right _ _
    · unfold HttpInput.raw HttpInput.ahead
      dsimp only
      rw [List.drop_zero, List.take_left, List.take_left]
    · unfold HttpInput.raw HttpInput.ahead
      dsimp only
      rw [List.drop_zero, List.take_left, Nat.max_zero, List.drop_left]

theorem exists_openBody : ∃ this, openBody false ⟨[], []⟩ = some (true, this) ∧ this.shoutcast_mode = false := by
  have hstart : (openBody false ⟨[], []⟩).any (fun r => r.1 && !r.2.shoutcast_mode) = true := by decide +kernel
  obtain ⟨⟨ok, this⟩, hopen, hall⟩ := (Option.any_eq_true _ _).1 hstart
  obtain ⟨hok, hmode⟩ := Bool.and_eq_true_iff.1 hall
  obtain rfl : ok = true := hok
  exact ⟨this, hopen, by simpa using hmode⟩

end Xine.Http
