import Mathlib.Algebra.Group.Int.Defs
import Xine.Library.Octets
import Xine.Library.Text

/-!
# The HTTP input

`http_plugin_read` and `http_plugin_read_metainf` of `input_http.c`, with `xio_tcp_read` below them, and
the end of `http_plugin_open`, where the preview is filled and a shoutcast stream starts. Stores and loads
outside of an array, and a call that waits for ever, are `none`.
-/

namespace Xine.Http

open Octets (Byte)

def MAX_PREVIEW_SIZE : ℕ := 4096
def BUFSIZE : ℕ := 1024

/-- `sizeof(metadata_buf)`, and that of `str` of `xine_ui_data_t`. -/
def METADATA_BUF_SIZE : ℕ := 255 * 16
def UI_STR_SIZE : ℕ := 256

/-! ## The socket -/

/-- What a `recv` of `xio_rw_abort` does: it has some bytes, one more than `more` at most, or none at the
end of the stream; or it fails, or the wait for it is aborted. -/
inductive Recv
  | part (more : ℕ)
  | fails
deriving DecidableEq

/-- The bytes that are still to be received, and how they will be: behind the `recvs`, each `recv` has all
that it is asked for. -/
structure Socket where
  bytes : List Byte
  recvs : List Recv

/-- The loop of `xio_rw_abort` for `XIO_TCP_READ`: the bytes read, or `none` for -1. What was received
before a failure is lost. -/
def xioLoop : ℕ → List Byte → List Recv → Option (List Byte) × Socket
  | todo, bytes, [] => (some (bytes.take todo), { bytes := bytes.drop todo, recvs := [] })
  | todo, bytes, recv :: recvs =>
    if todo = 0 then (some [], { bytes := bytes, recvs := recv :: recvs })
    else
      match recv with
      | .fails => (none, { bytes := bytes, recvs := recvs })
      | .part more =>
        let got := bytes.take (min (more + 1) todo)
        if got = [] then (some [], { bytes := bytes, recvs := recvs })
        else
          let rest := xioLoop (todo - got.length) (bytes.drop got.length) recvs
          (rest.1.map fun bytes => got ++ bytes, rest.2)

/-- `xio_tcp_read`. Nothing is read where less than nothing is asked for. -/
def xioTcpRead (sock : Socket) (todo : ℤ) : Option (List Byte) × Socket :=
  xioLoop todo.toNat sock.bytes sock.recvs

/-! ## The plugin -/

/-- `http_input_plugin_t`. `preview` is the whole array; `album` and `title` are the meta information of
the stream, and `titles` the events that were sent. -/
structure HttpInput where
  curpos : ℕ
  preview : List Byte
  preview_size : ℕ
  shoutcast_mode : Bool
  shoutcast_metaint : ℤ
  shoutcast_pos : ℤ
  shoutcast_songtitle : Option (List Byte)
  album : Option (List Byte)
  title : Option (List Byte)
  titles : List (List Byte)
  sock : Socket

/-- A string in memory ends before its first zero byte. -/
def cString (bytes : List Byte) : List Byte := bytes.takeWhile fun b => b ≠ 0

/-- The bytes of a text. -/
def text (s : String) : List Byte := s.toList.map fun c => BitVec.ofNat 8 c.toNat

/-- What follows the first occurrence of a text, as by `strstr`. -/
def afterText (needle : List Byte) : List Byte → Option (List Byte)
  | [] => if needle = [] then some [] else none
  | b :: bytes =>
    if needle.isPrefixOf (b :: bytes) then some ((b :: bytes).drop needle.length)
    else afterText needle bytes

/-- The title in metadata: between `StreamTitle='` and the next apostrophe. -/
def streamTitle (metadata : List Byte) : Option (List Byte) :=
  match afterText (text "StreamTitle='") (cString metadata) with
  | none => none
  | some songtitle =>
    if songtitle.contains 0x27 then some (songtitle.takeWhile fun b => b ≠ 0x27) else none

/-- The string of the title event. -/
def titleString (album : Option (List Byte)) (songtitle : List Byte) : List Byte :=
  match album with
  | some radio => radio ++ text " - " ++ songtitle
  | none => songtitle

/-- What is done with a title: if it is a new one, it is kept and an event is sent. The string of the event
and its zero byte are copied to an array without a look at its size. -/
def announceTitle (this : HttpInput) (songtitle : List Byte) : Option HttpInput :=
  if this.shoutcast_songtitle = some songtitle ∨ songtitle = [] then some this
  else if UI_STR_SIZE < (titleString this.album songtitle).length + 1 then none
  else
    some { this with
      shoutcast_songtitle := some songtitle
      title := some songtitle
      titles := this.titles ++ [titleString this.album songtitle] }

/-- The end of the part of a read that comes from the preview: `n` bytes behind those of `head`, wherever
the preview ends. -/
def copyPreview (this : HttpInput) (head : List Byte) (n : ℕ) : Option (List Byte × HttpInput) :=
  if this.preview.length < this.curpos + n ∧ n ≠ 0 then none
  else
    some (head ++ (this.preview.drop this.curpos).take n,
      { this with
        shoutcast_pos := if this.shoutcast_mode then this.shoutcast_pos + n else this.shoutcast_pos
        curpos := this.curpos + n })

/-- The part of a read that comes from the preview, where it is not at its end. -/
def readPreview (metainf : HttpInput → Option HttpInput) (this : HttpInput) (nlen : ℕ) :
    Option (List Byte × HttpInput) :=
  if this.curpos < this.preview_size then
    let n := min (this.preview_size - this.curpos) nlen
    if this.shoutcast_mode ∧ this.shoutcast_metaint ≤ this.shoutcast_pos + n then
      let i := this.shoutcast_metaint - this.shoutcast_pos
      if i < 0 ∨ this.preview.length < this.curpos + i.toNat then none
      else
        (metainf { this with
          shoutcast_pos := this.shoutcast_pos + i
          curpos := this.curpos + i.toNat }).bind fun this' =>
            copyPreview this' ((this.preview.drop this.curpos).take i.toNat) (n - i.toNat)
    else copyPreview this [] n
  else some ([], this)

/-- The end of the part of a read that comes from the socket: `n` bytes behind those of `head`. -/
def finishSocket (this : HttpInput) (head : List Byte) (n : ℕ) : Option (List Byte) × HttpInput :=
  match xioTcpRead this.sock n with
  | (none, sock) => (none, { this with sock := sock })
  | (some rest, sock) =>
    (some (head ++ rest), { this with curpos := this.curpos + rest.length, sock := sock })

/-- The part of a read that comes from the socket; `none` for a read error. In shoutcast mode the position
is advanced by what is asked for. -/
def readSocket (metainf : HttpInput → Option HttpInput) (this : HttpInput) (n : ℕ) :
    Option (Option (List Byte) × HttpInput) :=
  if n = 0 then some (some [], this)
  else if this.shoutcast_mode ∧ this.shoutcast_metaint ≤ this.shoutcast_pos + n then
    match xioTcpRead this.sock (this.shoutcast_metaint - this.shoutcast_pos) with
    | (none, sock) => some (none, { this with sock := sock })
    | (some head, sock) =>
      (metainf { this with
        shoutcast_pos := this.shoutcast_pos + head.length
        curpos := this.curpos + head.length
        sock := sock }).bind fun this =>
          let n := n - head.length
          some (finishSocket { this with shoutcast_pos := this.shoutcast_pos + n } head n)
  else if this.shoutcast_mode then
    some (finishSocket { this with shoutcast_pos := this.shoutcast_pos + n } [] n)
  else some (finishSocket this [] n)

/-- `http_plugin_read` with the function that reads metadata: the bytes that it returns, of which there
are none after a read error. -/
def readWith (metainf : HttpInput → Option HttpInput) (this : HttpInput) (nlen : ℕ) :
    Option (List Byte × HttpInput) :=
  (if this.shoutcast_mode ∧ this.shoutcast_pos = this.shoutcast_metaint then metainf this
    else some this).bind fun this =>
  (readPreview metainf this nlen).bind fun (head, this) =>
  (readSocket metainf this (nlen - head.length)).map fun (rest, this) =>
    (rest.elim [] fun rest => head ++ rest, this)

/-- `http_plugin_read` outside of shoutcast mode, where it does not read metadata. -/
def plainRead (this : HttpInput) (nlen : ℕ) : Option (List Byte × HttpInput) :=
  readWith (fun _ => none) { this with shoutcast_mode := false } nlen

/-- What `http_plugin_read_metainf` does with the bytes of `metadata_buf`. Bytes that were not read are
undefined, and a zero byte is stored behind those that were. -/
def parseMetadata (this : HttpInput) (metadata : List Byte) (len : ℕ) : Option HttpInput :=
  if metadata.length ≠ len ∨ METADATA_BUF_SIZE ≤ len then none
  else
    match streamTitle metadata with
    | none => some this
    | some songtitle => announceTitle this songtitle

def httpPluginReadMetainf (this : HttpInput) : Option HttpInput :=
  (plainRead this 1).bind fun (bytes, this) =>
  let len := (bytes.headD 0).toNat
  (if len = 0 then some this
    else (plainRead this (len * 16)).bind fun (metadata, this) =>
      parseMetadata this metadata (len * 16)).map fun this =>
  { this with shoutcast_mode := true, shoutcast_pos := 0 }

def httpPluginRead (this : HttpInput) (nlen : ℕ) : Option (List Byte × HttpInput) :=
  readWith httpPluginReadMetainf this nlen

/-! ## Opening -/

/-- A byte as `strncasecmp` compares it. -/
def lower (b : Byte) : Byte := if 0x41 ≤ b.toNat ∧ b.toNat ≤ 0x5A then b + 0x20 else b

/-- `!strncasecmp (bytes, s, strlen (s))`. -/
def beginsWithCase (s : String) (bytes : List Byte) : Bool :=
  ((text s).map lower).isPrefixOf ((cString bytes).map lower)

/-- `sscanf (line, "icy-metaint:%d", …)`. -/
def scanMetaint (line : List Byte) : Option ℤ :=
  if (text "icy-metaint:").isPrefixOf line then
    Decimal.read ((line.drop 12).map fun b => Char.ofNat b.toNat)
  else none

/-- What is done with a line of the header. A number that is no `int` is undefined. -/
def headerLine (this : HttpInput) (line : List Byte) : Option HttpInput :=
  let rest := line.drop 9
  let name := if rest.head? = some 0x20 then rest.drop 1 else rest
  let this :=
    if beginsWithCase "icy-name:" line then { this with album := some name, title := some name } else this
  match scanMetaint line with
  | none => some this
  | some metaint =>
    if metaint < -2^31 ∨ 2^31 ≤ metaint then none else some { this with shoutcast_metaint := metaint }

/-- The line in `this->buf` before a line feed, without the carriage return. -/
def chomp (line : List Byte) : List Byte :=
  if line.getLast? = some 0x0D then line.dropLast else line

/-- The loop of `read_shoutcast_header`, with the line that is in `this->buf`; the result tells whether the
header has an end. A line that does not fit is stored behind the array. -/
def headerLoop : ℕ → HttpInput → List Byte → Option (Bool × HttpInput)
  | 0, _, _ => none
  | fuel + 1, this, line =>
    if BUFSIZE ≤ line.length then none
    else
      (plainRead this 1).bind fun (bytes, this) =>
        match bytes with
        | [] => some (false, this)
        | b :: _ =>
          if b = 0x0A then
            (headerLine this (cString (chomp line))).bind fun this =>
              if chomp line = [] then some (true, this) else headerLoop fuel this []
          else headerLoop fuel this (line ++ [b])

/-- The bytes that are still to be read: those of the preview and those of the socket. -/
def HttpInput.ahead (this : HttpInput) : List Byte := (this.preview.take this.preview_size).drop this.curpos

def HttpInput.raw (this : HttpInput) : List Byte := this.ahead ++ this.sock.bytes

/-- `read_shoutcast_header`. Each turn of the loop reads a byte. -/
def readShoutcastHeader (this : HttpInput) : Option (Bool × HttpInput) :=
  headerLoop (this.raw.length + 1) this []

/-- The plugin at the end of the HTTP header. -/
def atBody (sock : Socket) : HttpInput where
  curpos := 0
  preview := List.replicate MAX_PREVIEW_SIZE 0
  preview_size := 0
  shoutcast_mode := false
  shoutcast_metaint := 0
  shoutcast_pos := 0
  shoutcast_songtitle := none
  album := none
  title := none
  titles := []
  sock := sock

/-- The end of `http_plugin_open`, which fills the preview: whether it succeeds. `shoutcast` tells whether
the status line was that of a shoutcast server. -/
def openBody (shoutcast : Bool) (sock : Socket) : Option (Bool × HttpInput) :=
  (plainRead (atBody sock) MAX_PREVIEW_SIZE).bind fun (bytes, this) =>
    let this := { this with
      preview := bytes ++ this.preview.drop bytes.length
      preview_size := bytes.length
      curpos := 0 }
    if shoutcast || beginsWithCase "ICY" this.preview then
      (readShoutcastHeader this).map fun (done, this) =>
        if done then (true, { this with shoutcast_mode := true, shoutcast_pos := 0 }) else (false, this)
    else some (true, { this with shoutcast_mode := false })

end Xine.Http

/-!
## Reading metadata

What a read outside of shoutcast mode returns when the socket does not fail: the bytes that are ahead, as many as
it is asked for. `Advanced` says that the input has passed some bytes.
-/

namespace Xine.Http

open Octets (Byte)

/-- The preview is inside its array, and no `recv` will fail. -/
structure HttpInput.Good (this : HttpInput) : Prop where
  preview : this.preview_size ≤ this.preview.length
  recvs : Recv.fails ∉ this.sock.recvs

/-- The input has passed `n` bytes. -/
structure Advanced (this this' : HttpInput) (n : ℕ) : Prop where
  ahead : this'.ahead = this.ahead.drop n
  bytes : this'.sock.bytes = this.sock.bytes.drop (n - this.ahead.length)
  recvs : this'.sock.recvs <:+ this.sock.recvs
  preview : this'.preview = this.preview
  preview_size : this'.preview_size = this.preview_size
  metaint : this'.shoutcast_metaint = this.shoutcast_metaint
  album : this'.album = this.album

variable {this this' this'' : HttpInput} {m n : ℕ}

namespace Advanced

theorem raw (h : Advanced this this' n) : this'.raw = this.raw.drop n := by
  rw [HttpInput.raw, h.ahead, h.bytes, HttpInput.raw, List.drop_append]

theorem good (h : Advanced this this' n) (hgood : this.Good) : this'.Good where
  preview := by rw [h.preview, h.preview_size]; exact hgood.preview
  recvs := fun hmem => hgood.recvs (h.recvs.subset hmem)

theorem trans (h : Advanced this this' m) (h' : Advanced this' this'' n) :
    Advanced this this'' (m + n) where
  ahead := by rw [h'.ahead, h.ahead, List.drop_drop]
  bytes := by
    rw [h'.bytes, h.bytes, h.ahead, List.drop_drop, List.length_drop]
    congr 1
    omega
  recvs := h'.recvs.trans h.recvs
  preview := h'.preview.trans h.preview
  preview_size := h'.preview_size.trans h.preview_size
  metaint := h'.metaint.trans h.metaint
  album := h'.album.trans h.album

theorem refl (this : HttpInput) : Advanced this this 0 := by
  constructor <;> simp

theorem set (h : Advanced this this' n) (mode : Bool) (pos : ℤ) :
    Advanced this { this' with shoutcast_mode := mode, shoutcast_pos := pos } n :=
  ⟨h.ahead, h.bytes, h.recvs, h.preview, h.preview_size, h.metaint, h.album⟩

theorem of_set {mode : Bool} {pos : ℤ}
    (h : Advanced { this with shoutcast_mode := mode, shoutcast_pos := pos } this' n) :
    Advanced this this' n :=
  ⟨h.ahead, h.bytes, h.recvs, h.preview, h.preview_size, h.metaint, h.album⟩

end Advanced

/-! ## The socket -/

theorem xioLoop_spec (todo : ℕ) (bytes : List Byte) {recvs : List Recv} (hrecvs : Recv.fails ∉ recvs) :
    (xioLoop todo bytes recvs).1 = some (bytes.take todo) ∧
      (xioLoop todo bytes recvs).2.bytes = bytes.drop todo ∧
        (xioLoop todo bytes recvs).2.recvs <:+ recvs := by
  fun_induction xioLoop todo bytes recvs with
  | case1 todo bytes => exact ⟨rfl, rfl, List.suffix_refl _⟩
  | case2 bytes recv recvs => exact ⟨rfl, rfl, List.suffix_refl _⟩
  | case3 todo bytes recvs => exact absurd List.mem_cons_self hrecvs
  | case4 todo bytes recvs htodo more got hgot =>
    -- nothing was received, at the end of the stream
    have hnil : bytes = [] := by
      rcases List.take_eq_nil_iff.1 hgot with hmin | hnil
      · omega
      · exact hnil
    subst hnil
    exact ⟨by simp, by simp, List.suffix_cons _ _⟩
  | case5 todo bytes recvs htodo more got hgot rest ih =>
    obtain ⟨hsome, hbytes, hsuffix⟩ := ih fun hmem => hrecvs (List.mem_cons_of_mem _ hmem)
    have hlen : got.length ≤ todo := by
      rw [List.length_take]
      omega
    have htake : bytes.take got.length = got := by
      rw [List.length_take]
      exact (List.take_eq_take_min).symm
    have hsplit : bytes.take todo = got ++ (bytes.drop got.length).take (todo - got.length) := by
      calc bytes.take todo = bytes.take (got.length + (todo - got.length)) := by congr 1; omega
        _ = got ++ (bytes.drop got.length).take (todo - got.length) := by rw [List.take_add, htake]
    refine ⟨?_, ?_, hsuffix.trans (List.suffix_cons _ _)⟩
    · rw [hsplit]
      exact congrArg (Option.map fun bytes => got ++ bytes) hsome
    · refine hbytes.trans ?_
      rw [List.drop_drop]
      congr 1
      omega

/-! ## Reading without metadata -/

theorem HttpInput.Good.length_ahead (hgood : this.Good) :
    this.ahead.length = this.preview_size - this.curpos := by
  have hsize := hgood.preview
  rw [HttpInput.ahead, List.length_drop, List.length_take]
  omega

theorem HttpInput.Good.take_ahead (hgood : this.Good) (hn : n ≤ this.ahead.length) :
    (this.preview.drop this.curpos).take n = this.raw.take n := by
  have hlen := hgood.length_ahead
  have hsize := hgood.preview
  rw [HttpInput.raw, List.take_append_of_le_length hn, HttpInput.ahead, List.drop_take, List.take_take]
  congr 1
  omega

theorem copyPreview_spec (head : List Byte) (hgood : this.Good) (hn : n ≤ this.ahead.length) :
    ∃ this', copyPreview this head n = some (head ++ this.raw.take n, this') ∧ Advanced this this' n ∧
      this'.shoutcast_mode = this.shoutcast_mode ∧
        this'.shoutcast_pos =
          if this.shoutcast_mode then this.shoutcast_pos + n else this.shoutcast_pos := by
  have hlen := hgood.length_ahead
  have hsize := hgood.preview
  unfold copyPreview
  rw [if_neg (by omega), hgood.take_ahead hn]
  refine ⟨_, rfl, ?_, rfl, rfl⟩
  constructor
  case ahead => exact (List.drop_drop).symm
  case bytes =>
    have hzero : n - this.ahead.length = 0 := by omega
    rw [hzero, List.drop_zero]
  case recvs => exact List.suffix_refl _
  all_goals rfl

theorem xioTcpRead_spec (n : ℕ) (hgood : this.Good) (hahead : this.ahead = []) :
    ∃ sock, xioTcpRead this.sock n = (some (this.raw.take n), sock) ∧
      ∀ k, Advanced this { this with curpos := this.curpos + k, sock := sock } n := by
  obtain ⟨hsome, hbytes, hsuffix⟩ :=
    xioLoop_spec n this.sock.bytes hgood.recvs
  have hraw : this.raw = this.sock.bytes := by rw [HttpInput.raw, hahead, List.nil_append]
  unfold xioTcpRead
  rw [Int.toNat_natCast, hraw]
  generalize xioLoop n this.sock.bytes this.sock.recvs = result at hsome hbytes hsuffix
  obtain ⟨got, sock⟩ := result
  dsimp only at hsome hbytes hsuffix
  subst hsome
  refine ⟨sock, rfl, fun k => ?_⟩
  constructor
  case ahead =>
    -- the position moves on behind the end of the preview
    rw [hahead, List.drop_nil]
    refine List.drop_eq_nil_of_le ?_
    have hend : (this.preview.take this.preview_size).length ≤ this.curpos :=
      List.drop_eq_nil_iff.1 hahead
    dsimp only
    omega
  case bytes => rw [hahead, List.length_nil, Nat.sub_zero, ← hbytes]
  case recvs => exact hsuffix
  all_goals rfl

theorem finishSocket_spec (head : List Byte) (n : ℕ) (hgood : this.Good) (hahead : this.ahead = []) :
    ∃ this', finishSocket this head n = (some (head ++ this.raw.take n), this') ∧ Advanced this this' n ∧
      this'.shoutcast_mode = this.shoutcast_mode ∧ this'.shoutcast_pos = this.shoutcast_pos := by
  obtain ⟨sock, hread, hadv⟩ := xioTcpRead_spec n hgood hahead
  unfold finishSocket
  rw [hread]
  exact ⟨_, rfl, hadv _, rfl, rfl⟩

theorem readPreview_copy (metainf : HttpInput → Option HttpInput) (nlen : ℕ) (hgood : this.Good)
    (hno : ¬(this.shoutcast_mode = true ∧
      this.shoutcast_metaint ≤ this.shoutcast_pos + min this.ahead.length nlen)) :
    ∃ this', readPreview metainf this nlen = some (this.raw.take (min this.ahead.length nlen), this') ∧
      Advanced this this' (min this.ahead.length nlen) ∧ this'.shoutcast_mode = this.shoutcast_mode ∧
        this'.shoutcast_pos = if this.shoutcast_mode then
          this.shoutcast_pos + (min this.ahead.length nlen : ℕ) else this.shoutcast_pos := by
  have hlen := hgood.length_ahead
  obtain ⟨this', hcopy, hadv, hmode, hpos⟩ := copyPreview_spec [] hgood (Nat.min_le_left _ nlen)
  unfold readPreview
  by_cases hcur : this.curpos < this.preview_size
  · rw [hlen] at hno hcopy hadv hpos ⊢
    rw [if_pos hcur, if_neg (by exact_mod_cast hno), hcopy, List.nil_append]
    exact ⟨this', rfl, hadv, hmode, hpos⟩
  · -- nothing of the preview is ahead
    have hzero : min this.ahead.length nlen = 0 := by omega
    rw [if_neg hcur, hzero]
    exact ⟨this, rfl, Advanced.refl this, rfl, by simp⟩

theorem readSocket_finish (metainf : HttpInput → Option HttpInput) (n : ℕ) (hgood : this.Good)
    (hahead : n ≠ 0 → this.ahead = [])
    (hno : ¬(n ≠ 0 ∧ this.shoutcast_mode = true ∧
      this.shoutcast_metaint ≤ this.shoutcast_pos + n)) :
    ∃ this', readSocket metainf this n = some (some (this.raw.take n), this') ∧ Advanced this this' n ∧
      this'.shoutcast_mode = this.shoutcast_mode ∧
        this'.shoutcast_pos =
          if this.shoutcast_mode then this.shoutcast_pos + n else this.shoutcast_pos := by
  unfold readSocket
  by_cases hn : n = 0
  · subst hn
    rw [if_pos rfl]
    exact ⟨this, rfl, Advanced.refl this, rfl, by simp⟩
  · rw [if_neg hn, if_neg fun hcross => hno ⟨hn, hcross⟩]
    by_cases hmode : this.shoutcast_mode = true
    · rw [if_pos hmode, if_pos hmode]
      have hgood' : ({ this with shoutcast_pos := this.shoutcast_pos + n } : HttpInput).Good :=
        ⟨hgood.preview, hgood.recvs⟩
      obtain ⟨this', hfinish, hadv, hmode', hpos⟩ := finishSocket_spec [] n hgood' (hahead hn)
      refine ⟨this', ?_, hadv.of_set, hmode', hpos⟩
      rw [hfinish]
      rfl
    · rw [if_neg hmode, if_neg hmode]
      obtain ⟨this', hfinish, hadv, hmode', hpos⟩ := finishSocket_spec [] n hgood (hahead hn)
      refine ⟨this', ?_, hadv, hmode', hpos⟩
      rw [hfinish]
      rfl

theorem plainRead_spec (n : ℕ) (hgood : this.Good) :
    ∃ this', plainRead this n = some (this.raw.take n, this') ∧ Advanced this this' n := by
  let plain : HttpInput := { this with shoutcast_mode := false }
  have hplain : plain.Good := ⟨hgood.preview, hgood.recvs⟩
  obtain ⟨this₁, hhead, hadv₁, hmode₁, -⟩ :=
    readPreview_copy (fun _ => none) n hplain fun hno => Bool.false_ne_true hno.1
  have hmode₁' : this₁.shoutcast_mode = false := hmode₁
  have hlen : (plain.raw.take (min plain.ahead.length n)).length = min plain.ahead.length n := by
    rw [List.length_take, HttpInput.raw, List.length_append]
    omega
  have hahead₁ : n - min plain.ahead.length n ≠ 0 → this₁.ahead = [] := by
    intro hrest
    rw [hadv₁.ahead]
    exact List.drop_eq_nil_of_le (by omega)
  obtain ⟨this₂, hrest, hadv₂, -, -⟩ :=
    readSocket_finish (fun _ => none) (n - min plain.ahead.length n) (hadv₁.good hplain) hahead₁
      fun hno => by rw [hmode₁'] at hno; exact Bool.false_ne_true hno.2.1
  have hall : min plain.ahead.length n + (n - min plain.ahead.length n) = n := by omega
  have hadv := hadv₁.trans hadv₂
  rw [hall] at hadv
  refine ⟨this₂, ?_, hadv.of_set⟩
  unfold plainRead readWith
  rw [if_neg fun h => Bool.false_ne_true h.1, Option.bind_some, hhead, Option.bind_some]
  dsimp only
  rw [hlen, hrest, hadv₁.raw, Option.map_some]
  dsimp only [Option.elim]
  rw [← List.take_add, hall]
  rfl

/-! ## Metadata -/

/-- The bytes of metadata that a length byte announces. -/
def metaSize (len : Byte) : ℕ := len.toNat * 16

/-- The title in metadata, if there is one, fits the event with the name of the radio station. -/
def TitleFits (album : Option (List Byte)) (metadata : List Byte) : Prop :=
  ∀ songtitle ∈ streamTitle metadata,
    songtitle = [] ∨ (titleString album songtitle).length + 1 ≤ UI_STR_SIZE

/-- A whole block of metadata is ahead, shorter than the buffer for it, and its title fits. -/
def BlockFits (album : Option (List Byte)) : List Byte → Prop
  | [] => False
  | len :: bytes =>
    metaSize len ≤ bytes.length ∧ metaSize len < METADATA_BUF_SIZE ∧
      TitleFits album (bytes.take (metaSize len))

/-- The bytes of the block of metadata that is ahead, with its length byte. -/
def blockLen : List Byte → ℕ
  | [] => 0
  | len :: _ => 1 + metaSize len

instance (album : Option (List Byte)) (metadata : List Byte) : Decidable (TitleFits album metadata) := by
  unfold TitleFits
  infer_instance

instance (album : Option (List Byte)) : DecidablePred (BlockFits album)
  | [] => inferInstanceAs (Decidable False)
  | _ :: _ => inferInstanceAs (Decidable (_ ∧ _ ∧ _))

theorem announceTitle_spec {songtitle : List Byte}
    (hfits : songtitle = [] ∨ (titleString this.album songtitle).length + 1 ≤ UI_STR_SIZE) :
    ∃ this', announceTitle this songtitle = some this' ∧ Advanced this this' 0 := by
  unfold announceTitle
  by_cases hknown : this.shoutcast_songtitle = some songtitle ∨ songtitle = []
  · rw [if_pos hknown]
    exact ⟨this, rfl, Advanced.refl this⟩
  · rw [if_neg hknown, if_neg]
    · refine ⟨_, rfl, ?_⟩
      constructor
      case ahead => rfl
      case bytes => simp
      case recvs => exact List.suffix_refl _
      all_goals rfl
    · rcases hfits with hnil | hlen
      · exact absurd (Or.inr hnil) hknown
      · omega

theorem parseMetadata_spec {metadata : List Byte} {len : ℕ} (hlen : metadata.length = len)
    (hbuf : len < METADATA_BUF_SIZE) (hfits : TitleFits this.album metadata) :
    ∃ this', parseMetadata this metadata len = some this' ∧ Advanced this this' 0 := by
  unfold parseMetadata
  rw [if_neg (by omega)]
  cases htitle : streamTitle metadata with
  | none =>
    exact ⟨this, rfl, Advanced.refl this⟩
  | some songtitle => exact announceTitle_spec (hfits songtitle htitle)

theorem metainf_spec (hgood : this.Good) (hfits : BlockFits this.album this.raw) :
    ∃ this', httpPluginReadMetainf this = some this' ∧ Advanced this this' (blockLen this.raw) ∧
      this'.shoutcast_mode = true ∧ this'.shoutcast_pos = 0 := by
  obtain ⟨this₁, hone, hadv₁⟩ := plainRead_spec 1 hgood
  unfold httpPluginReadMetainf
  rw [hone, Option.bind_some]
  cases hraw : this.raw with
  | nil =>
    rw [hraw] at hfits
    exact hfits.elim
  | cons len bytes =>
    rw [hraw] at hfits
    obtain ⟨hall, hbuf, htitle⟩ := hfits
    have hraw₁ : this₁.raw = bytes := by rw [hadv₁.raw, hraw, List.drop_one, List.tail_cons]
    have hhead : ((len :: bytes).take 1).headD 0 = len := rfl
    dsimp only
    rw [hhead]
    have hlen : len.toNat * 16 = metaSize len := rfl
    have hblock : blockLen (len :: bytes) = 1 + metaSize len := rfl
    rw [hlen, hblock]
    by_cases hzero : len.toNat = 0
    · -- a length of zero announces nothing
      have hnone : metaSize len = 0 := by rw [metaSize, hzero]
      rw [if_pos hzero, hnone]
      exact ⟨_, rfl, hadv₁.set true 0, rfl, rfl⟩
    · obtain ⟨this₂, htwo, hadv₂⟩ := plainRead_spec (metaSize len) (hadv₁.good hgood)
      have htake : (bytes.take (metaSize len)).length = metaSize len := by
        rw [List.length_take]
        omega
      rw [← hadv₁.album, ← hadv₂.album] at htitle
      obtain ⟨this₃, hparse, hadv₃⟩ := parseMetadata_spec htake hbuf htitle
      have hadv : Advanced this this₃ (1 + metaSize len) := (hadv₁.trans hadv₂).trans hadv₃
      rw [if_neg hzero, htwo, Option.bind_some, hraw₁, hparse]
      exact ⟨_, rfl, hadv.set true 0, rfl, rfl⟩

end Xine.Http
