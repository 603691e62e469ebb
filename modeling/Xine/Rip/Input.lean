import Mathlib.Data.BitVec

/-!
# The input plugin that saves a stream

`rip_plugin_read`, `rip_plugin_read_block`, `rip_plugin_seek` and `rip_plugin_get_instance` of
`input_rip.c`, over the input plugin that they wrap and the file that they write. A
call returns `none` where the source returns -1 or no buffer, with the state that it leaves.

The allocation of buffers, the messages and the names of files are left out. A position is an
`off_t`.
-/

namespace Xine.Rip

abbrev Byte := BitVec 8

/-! ## The wrapped input -/

/-- An input plugin at a position in its bytes. -/
structure InputPlugin where
  src : List Byte
  pos : ℕ
  /-- `INPUT_CAP_SEEKABLE`. -/
  seekable : Bool
  /-- The size of a block, with `INPUT_CAP_BLOCK`. -/
  blocksize : Option ℕ
  /-- How the next reads come out: with an error, or with at most so many bytes. When there is none
  left, a read gets what it asks for, up to the end. -/
  answers : List (Option ℕ)

namespace InputPlugin

/-- The bytes from the position on, and the position behind them. -/
def take (m : InputPlugin) (n : ℕ) : List Byte × InputPlugin :=
  let data := (m.src.drop m.pos).take n
  (data, { m with pos := m.pos + data.length })

def read (m : InputPlugin) (n : ℕ) : Option (List Byte) × InputPlugin :=
  match m.answers with
  | [] => let (data, m) := m.take n; (some data, m)
  | none :: answers => (none, { m with answers })
  | some k :: answers => let (data, m) := { m with answers }.take (min k n); (some data, m)

/-- `read_block`, without a block at the end. -/
def readBlock (m : InputPlugin) (n : ℕ) : Option (List Byte) × InputPlugin :=
  match m.read n with
  | (some [], m) => (none, m)
  | r => r

/-- `seek`. Without `INPUT_CAP_SEEKABLE` it goes forward, and back only if `back` holds; otherwise
the position stays. -/
def seek (m : InputPlugin) (reqpos : ℤ) (back : Bool) : Option (ℤ × InputPlugin) :=
  if reqpos < 0 then none
  else if m.seekable ∨ m.pos ≤ reqpos ∨ back then some (reqpos, { m with pos := reqpos.toNat })
  else some (m.pos, m)

end InputPlugin

/-! ## The file -/

/-- The target file. -/
structure File where
  content : List Byte
  pos : ℕ

namespace File

/-- `fread` of one item. -/
def fread (f : File) (n : ℕ) : Option (List Byte × File) :=
  if f.pos + n ≤ f.content.length then
    some ((f.content.drop f.pos).take n, { f with pos := f.pos + n })
  else none

/-- `fwrite` of one item. -/
def fwrite (f : File) (data : List Byte) : File :=
  ⟨f.content.take f.pos ++ data ++ f.content.drop (f.pos + data.length), f.pos + data.length⟩

/-- `fseek` from the start. -/
def fseek (f : File) (pos : ℤ) : Option File :=
  if 0 ≤ pos then some { f with pos := pos.toNat } else none

end File

/-! ## The plugin -/

/-- `rip_input_plugin_t`. The preview is a pointer into a memory. -/
structure RipInputPlugin where
  main_input_plugin : InputPlugin
  file : File
  regular : Bool
  preview : Option (ℤ → Byte)
  preview_size : ℤ
  curpos : ℤ
  savepos : ℤ

/-- What a read returns: the number of bytes, and the buffer. -/
structure Data where
  retlen : ℤ
  buf : List Byte

namespace RipInputPlugin

/-- How many bytes come from the preview, and how many have been saved. -/
def sizes (r : RipInputPlugin) (len : ℕ) : ℤ × ℤ :=
  if r.curpos < r.preview_size ∧ r.preview.isSome then
    let npreview := r.preview_size - r.curpos
    if npreview > len then (len, 0) else (npreview, min (r.savepos - r.preview_size) (len - npreview))
  else (0, min (r.savepos - r.curpos) len)

/-- The bytes of the preview from the position on. -/
def fromPreview (r : RipInputPlugin) (npreview : ℤ) : List Byte :=
  match r.preview with
  | some preview => (List.range npreview.toNat).map fun i : ℕ => preview (r.curpos + i)
  | none => []

/-- Bytes that have been saved, if there are any to read. -/
def fromFile (r : RipInputPlugin) (nread_file : ℤ) : Option (List Byte × File) :=
  if nread_file ≠ 0 then r.file.fread nread_file.toNat else some ([], r.file)

/-- Bytes of the wrapped input are written to the file, from the position in the buffer up to which
they have been saved. A position before the buffer is an error. -/
def write (r : RipInputPlugin) (buf : List Byte) (retlen nread_orig : ℤ) :
    Option (ℤ × RipInputPlugin) :=
  if retlen > nread_orig then
    let nwrite := retlen - nread_orig
    let start := r.savepos - r.curpos
    if start < 0 then none
    else
      some (nwrite,
        { r with
          file := r.file.fwrite ((buf.drop start.toNat).take nwrite.toNat)
          savepos := r.savepos + nwrite })
  else some (0, r)

/-- The position advances. -/
def advance (r : RipInputPlugin) (buf : List Byte) (n : ℤ) : Option Data × RipInputPlugin :=
  (some ⟨n, buf⟩, { r with curpos := r.curpos + n })

/-- The bytes that were read from the wrapped input are written, and the position advances. -/
def finish (r : RipInputPlugin) (buf : List Byte) (retlen nread_orig npreview nread : ℤ) :
    Option Data × RipInputPlugin :=
  match r.write buf retlen nread_orig with
  | none => (none, r)
  | some (nwrite, r) => r.advance buf (npreview + nread + nwrite)

def ripPluginRead (r : RipInputPlugin) (len : ℕ) : Option Data × RipInputPlugin :=
  let (npreview, nread) := r.sizes len
  let nwrite := len - npreview - nread
  let nread_file := if r.regular then nread else 0
  let nread_orig := if r.regular then 0 else nread
  match r.fromFile nread_file with
  | none => (none, r)
  | some (saved, file) =>
    let buf := r.fromPreview npreview ++ saved
    let r := { r with file }
    if nread_orig + nwrite ≠ 0 then
      match r.main_input_plugin.read (nread_orig + nwrite).toNat with
      | (none, main_input_plugin) => (none, { r with main_input_plugin })
      | (some data, main_input_plugin) =>
        { r with main_input_plugin }.finish (buf ++ data) data.length nread_orig npreview nread
    else r.advance buf (npreview + nread + nwrite)

def ripPluginReadBlock (r : RipInputPlugin) (todo : ℕ) : Option Data × RipInputPlugin :=
  if todo = 0 then (none, r)
  else
    let (npreview, nread) := r.sizes todo
    let nwrite := todo - npreview - nread
    let nread_file := if r.regular then nread else 0
    let nread_orig := if r.regular then 0 else nread
    match r.fromFile nread_file with
    | none => (none, r)
    | some (saved, file) =>
      let buf := r.fromPreview npreview ++ saved
      let r := { r with file }
      if nread_orig + nwrite ≠ 0 then
        -- a block of its own when it has bytes for it, else the block of the wrapped input
        let n := (nread_orig + nwrite).toNat
        match if npreview + nread_file ≠ 0 then r.main_input_plugin.read n
            else r.main_input_plugin.readBlock n with
        | (none, main_input_plugin) => (none, { r with main_input_plugin })
        | (some data, main_input_plugin) =>
          let r := { r with main_input_plugin }
          if (data.length : ℤ) ≠ nread_orig + nwrite then (none, r)
          else r.finish (buf ++ data) data.length nread_orig npreview nread
      else r.advance buf (npreview + nread + nwrite)

def ripSeekOriginal (r : RipInputPlugin) (reqpos : ℤ) (back : Bool) : Option RipInputPlugin :=
  (r.main_input_plugin.seek reqpos back).map fun (pos, main_input_plugin) =>
    { r with main_input_plugin, curpos := pos }

def scratchSize : ℕ := 1024

/-- The loop that reads up to a position, with as much fuel as there are bytes up to it. The result
says whether all reads in it have succeeded. -/
def catchUp (newpos : ℤ) : ℕ → RipInputPlugin → Bool × RipInputPlugin
  | 0, r => (true, r)
  | fuel + 1, r =>
    if r.curpos < newpos then
      match r.main_input_plugin.blocksize with
      | some blocksize =>
        match r.ripPluginReadBlock blocksize with
        | (some _, r) => catchUp newpos fuel r
        | (none, r) => (false, r)
      | none =>
        match r.ripPluginRead (min (newpos - r.curpos).toNat scratchSize) with
        | (some data, r) => if data.retlen ≤ 0 then (true, r) else catchUp newpos fuel r
        | (none, r) => (false, r)
    else (true, r)

/-- The origin of a seek. -/
inductive Origin where
  | set
  | cur
  | other

/-- An `off_t` that wraps around. -/
def offT (x : ℤ) : ℤ := (BitVec.ofInt 64 x).toInt

/-- The position that a seek asks for, aligned down to blocks. -/
def newPosition (r : RipInputPlugin) (offset : ℤ) (origin : Origin) : ℤ :=
  let newpos := match origin with
    | .set => offset
    | .cur => offT (r.curpos + offset)
    | .other => r.curpos
  match r.main_input_plugin.blocksize with
  | some blocksize => newpos.tdiv blocksize * blocksize
  | none => newpos

/-- A seek to a position that has been saved. -/
def seekBack (r : RipInputPlugin) (newpos : ℤ) (back : Bool) : Option RipInputPlugin :=
  -- not into the preview
  let reqpos := if r.preview.isSome ∧ newpos < r.preview_size then r.preview_size else newpos
  if r.regular then
    (if reqpos ≠ r.savepos then r.file.fseek reqpos else some r.file).map fun file =>
      { r with file, curpos := newpos }
  else
    (r.ripSeekOriginal reqpos back).map fun r =>
      if r.curpos = reqpos then { r with curpos := newpos } else r

/-- A seek to the end of what has been saved. -/
def seekEnd (r : RipInputPlugin) (back : Bool) : Option RipInputPlugin :=
  if r.curpos < r.savepos then
    if r.regular then
      (r.file.fseek r.savepos).map fun file => { r with file, curpos := r.savepos }
    else r.ripSeekOriginal r.savepos back
  else some r

/-- `rip_plugin_seek`. The result has the position, and says whether all reads have succeeded. -/
def ripPluginSeek (r : RipInputPlugin) (offset : ℤ) (origin : Origin) (back : Bool) :
    Option (ℤ × Bool) × RipInputPlugin :=
  let newpos := r.newPosition offset origin
  if newpos < r.savepos then
    match r.seekBack newpos back with
    | none => (none, r)
    | some r => (some (r.curpos, true), r)
  else
    match r.seekEnd back with
    | none => (none, r)
    | some r =>
      let (ok, r) := catchUp newpos (newpos - r.curpos).toNat r
      (some (r.curpos, ok), r)

/-! ## The instance -/

def maxPreviewSize : ℕ := 4096

/-- A memory that holds the given bytes from the address 0 on, and others around them. -/
def memory (data : List Byte) (around : ℤ → Byte) (i : ℤ) : Byte :=
  if 0 ≤ i ∧ i < data.length then data.getD i.toNat 0 else around i

/-- `rip_plugin_get_instance` with an input plugin and an empty target file. An input that is not
seekable is read for a preview. -/
def ripPluginGetInstance (m : InputPlugin) (regular : Bool) (around : ℤ → Byte) :
    Option RipInputPlugin :=
  if m.seekable then some ⟨m, ⟨[], 0⟩, regular, none, 0, 0, 0⟩
  else
    match (match m.blocksize with
      | some blocksize => m.readBlock blocksize
      | none => m.read maxPreviewSize) with
    | (none, _) => none
    | (some data, m) =>
      some ⟨m, File.fwrite ⟨[], 0⟩ data, regular, some (memory data around), data.length, 0,
        data.length⟩

end RipInputPlugin

/-! ## Calls -/

/-- A call of the plugin. A seek has the choice of an input that is not seekable whether to go back. -/
inductive Call where
  | read (len : ℕ)
  | readBlock (todo : ℕ)
  | seek (offset : ℤ) (origin : RipInputPlugin.Origin) (back : Bool)

/-- A read that has succeeded, with the positions before and after it. -/
structure Result where
  pos : ℤ
  data : Data
  pos' : ℤ

/-- The plugin and what has been read. -/
structure System where
  rip : RipInputPlugin
  log : List Result

/-- The state after a read, if it has succeeded. -/
def System.received (s : System) : Option Data × RipInputPlugin → Option System
  | (some data, r) => some ⟨r, s.log ++ [⟨s.rip.curpos, data, r.curpos⟩]⟩
  | (none, _) => none

/-- A successful call. -/
def step (s : System) : Call → Option System
  | .read len => s.received (s.rip.ripPluginRead len)
  | .readBlock todo => s.received (s.rip.ripPluginReadBlock todo)
  | .seek offset origin back =>
    match s.rip.ripPluginSeek offset origin back with
    | (some (_, true), r) => some { s with rip := r }
    | _ => none

end Xine.Rip
