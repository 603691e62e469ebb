import Xine.Http.Metadata
import Xine.Library.Interleave
import Xine.Library.Runs

/-!
# Removing metadata

A shoutcast stream is an interleaving of audio bytes and blocks of metadata in the sense of
`Xine.Library.Interleave`, with `metaSize` for the size that a length byte announces. `Passed` says what a reader
makes of some bytes of it.

A read of `http_plugin_read` has two parts, the preview and the socket, and each looks for one block of metadata
only, where the position reaches the interval. `Fits` is what a read asks for so that nothing goes wrong.
-/

namespace Xine.Http

open Octets (Byte)
open Interleave (strip phase)
open Runs (run Guarded)

/-! ## Passing bytes -/

/-- A reader at position `pos` of an interval of `M` bytes that passes `k` bytes has the bytes `out` of
audio, and comes to the position `pos'`. -/
structure Passed (M pos : ℕ) (raw : List Byte) (k : ℕ) (out : List Byte) (pos' : ℕ) : Prop where
  strip : strip metaSize M (M - pos) 0 (raw.take k) = out
  phase : phase metaSize M (M - pos) 0 (raw.take k) = (M - pos', 0)

variable {album : Option (List Byte)} {M pos pos' pos'' n k k' : ℕ} {raw out out' : List Byte}

theorem Passed.trans (h : Passed M pos raw k out pos') (h' : Passed M pos' (raw.drop k) k' out' pos'') :
    Passed M pos raw (k + k') (out ++ out') pos'' where
  strip := by rw [List.take_add, Interleave.strip_append, h.strip, h.phase, h'.strip]
  phase := by rw [List.take_add, Interleave.phase_append, h.phase, h'.phase]

theorem Passed.refl (M pos : ℕ) (raw : List Byte) : Passed M pos raw 0 [] pos where
  strip := by rw [List.take_zero]; cases M - pos <;> rfl
  phase := by rw [List.take_zero]; cases M - pos <;> rfl

theorem passed_data (hraw : n ≤ raw.length) (hn : pos + n ≤ M) :
    Passed M pos raw n (raw.take n) (pos + n) := by
  have hlen : (raw.take n).length = n := by rw [List.length_take]; omega
  constructor
  · exact Interleave.strip_data (by omega)
  · rw [Interleave.phase_data (by omega), hlen]
    congr 1
    omega

theorem passed_block (hfits : BlockFits album raw) : Passed M M raw (blockLen raw) [] 0 := by
  cases raw with
  | nil => exact hfits.elim
  | cons len bytes =>
    obtain ⟨hall, -, -⟩ := hfits
    have htake : (len :: bytes).take (blockLen (len :: bytes)) = len :: bytes.take (metaSize len) := by
      rw [blockLen, Nat.add_comm, List.take_succ_cons]
    have hlen : (bytes.take (metaSize len)).length = metaSize len := by
      rw [List.length_take]
      omega
    constructor
    · rw [htake, Nat.sub_self, Interleave.strip_block hlen]
    · rw [htake, Nat.sub_self, Interleave.phase_block hlen, Nat.sub_zero]

/-! ## The parts of a read -/

/-- A part of `n` bytes reaches the end of the interval. -/
def Crosses (M pos n : ℕ) : Prop := n ≠ 0 ∧ M ≤ pos + n

instance (M pos n : ℕ) : Decidable (Crosses M pos n) := inferInstanceAs (Decidable (_ ∧ _))

/-- The metadata that a part passes. -/
def metaLen (M pos n : ℕ) (raw : List Byte) : ℕ :=
  if Crosses M pos n then blockLen (raw.drop (M - pos)) else 0

/-- The position behind a part. -/
def posAfter (M pos n : ℕ) : ℕ := if Crosses M pos n then pos + n - M else pos + n

/-- The bytes that a part returns. -/
def partOut (M pos n : ℕ) (raw : List Byte) : List Byte :=
  if Crosses M pos n then
    raw.take (M - pos) ++
      (raw.drop (M - pos + blockLen (raw.drop (M - pos)))).take (n - (M - pos))
  else raw.take n

/-- A part can be read: the bytes that it asks for are ahead, and where it reaches the end of the interval,
the block of metadata fits and the next interval ends not before the part. -/
def PartFits (album : Option (List Byte)) (M pos n : ℕ) (raw : List Byte) : Prop :=
  n + metaLen M pos n raw ≤ raw.length ∧
    (Crosses M pos n → BlockFits album (raw.drop (M - pos)) ∧ pos + n ≤ 2 * M)

instance (album : Option (List Byte)) (M pos n : ℕ) (raw : List Byte) :
    Decidable (PartFits album M pos n raw) := inferInstanceAs (Decidable (_ ∧ (_ → _)))

theorem posAfter_le (hfits : PartFits album M pos n raw) (hpos : pos ≤ M) : posAfter M pos n ≤ M := by
  unfold posAfter
  split_ifs with hcross
  · have := (hfits.2 hcross).2
    omega
  · by_cases hn : n = 0
    · omega
    · have : ¬M ≤ pos + n := fun hle => hcross ⟨hn, hle⟩
      omega

theorem PartFits.passed (hfits : PartFits album M pos n raw) (hpos : pos ≤ M) :
    Passed M pos raw (n + metaLen M pos n raw) (partOut M pos n raw) (posAfter M pos n) := by
  obtain ⟨hlen, hblock⟩ := hfits
  unfold metaLen at hlen ⊢
  unfold partOut posAfter
  by_cases hcross : Crosses M pos n
  · rw [if_pos hcross] at hlen
    rw [if_pos hcross, if_pos hcross, if_pos hcross]
    obtain ⟨hfits, hsingle⟩ := hblock hcross
    have hle : M ≤ pos + n := hcross.2
    -- the audio before the block, the block, and the audio behind it
    have hbefore : Passed M pos raw (M - pos) (raw.take (M - pos)) M := by
      have hend : pos + (M - pos) = M := by omega
      have hdata : Passed M pos raw (M - pos) (raw.take (M - pos)) (pos + (M - pos)) :=
        passed_data (by omega) hend.le
      rwa [hend] at hdata
    have hmeta := hbefore.trans (passed_block hfits)
    rw [List.append_nil] at hmeta
    have hbehind : Passed M 0 (raw.drop (M - pos + blockLen (raw.drop (M - pos)))) (n - (M - pos))
        ((raw.drop (M - pos + blockLen (raw.drop (M - pos)))).take (n - (M - pos)))
        (0 + (n - (M - pos))) := by
      refine passed_data ?_ (by omega)
      rw [List.length_drop]
      omega
    have hall := hmeta.trans hbehind
    rwa [show M - pos + blockLen (raw.drop (M - pos)) + (n - (M - pos)) =
        n + blockLen (raw.drop (M - pos)) by omega,
      show 0 + (n - (M - pos)) = pos + n - M by omega] at hall
  · rw [if_neg hcross] at hlen
    rw [if_neg hcross, if_neg hcross, if_neg hcross]
    by_cases hn : n = 0
    · subst hn
      exact Passed.refl M pos raw
    · have hno : ¬M ≤ pos + n := fun hle => hcross ⟨hn, hle⟩
      exact passed_data (by omega) (by omega)

theorem PartFits.length_partOut (hfits : PartFits album M pos n raw) : (partOut M pos n raw).length = n := by
  obtain ⟨hlen, -⟩ := hfits
  unfold metaLen at hlen
  unfold partOut
  split_ifs at hlen ⊢ with hcross
  · have hle : M ≤ pos + n := hcross.2
    rw [List.length_append, List.length_take, List.length_take, List.length_drop]
    omega
  · rw [List.length_take]
    omega

variable {this : HttpInput}

/-- The input has advanced by what it was asked for and by the metadata in between, and is where the next
read starts. -/
structure PartRead (this this' : HttpInput) (k pos : ℕ) : Prop where
  advanced : Advanced this this' k
  mode : this'.shoutcast_mode = true
  pos : this'.shoutcast_pos = pos

theorem readPreview_spec {nlen : ℕ} (hgood : this.Good) (hmode : this.shoutcast_mode = true)
    (hM : this.shoutcast_metaint = M) (hpos : this.shoutcast_pos = pos) (hlt : pos < M)
    (hn : n = min this.ahead.length nlen) (hfits : PartFits this.album M pos n this.raw)
    (hinside : M < pos + n → n + metaLen M pos n this.raw ≤ this.ahead.length) :
    ∃ this', readPreview httpPluginReadMetainf this nlen = some (partOut M pos n this.raw, this') ∧
      PartRead this this' (n + metaLen M pos n this.raw) (posAfter M pos n) := by
  have hlen := hgood.length_ahead
  by_cases hcross : Crosses M pos n
  · obtain ⟨hne, hle⟩ := hcross
    obtain ⟨hblock, -⟩ := hfits.2 ⟨hne, hle⟩
    unfold metaLen partOut posAfter at *
    rw [if_pos ⟨hne, hle⟩] at hinside ⊢
    rw [if_pos ⟨hne, hle⟩, if_pos ⟨hne, hle⟩]
    have hi : this.shoutcast_metaint - this.shoutcast_pos = (M - pos : ℕ) := by omega
    have hmin : min (this.preview_size - this.curpos) nlen = n := by rw [hn, hlen]
    -- the audio before the block is copied
    have hbefore : M - pos ≤ this.ahead.length := by omega
    let this₁ : HttpInput := { this with
      shoutcast_pos := this.shoutcast_pos + (M - pos : ℕ)
      curpos := this.curpos + (M - pos) }
    have hadv₁ : Advanced this this₁ (M - pos) := by
      have hzero : M - pos - this.ahead.length = 0 := by omega
      constructor
      case ahead => exact (List.drop_drop).symm
      case bytes => rw [hzero, List.drop_zero]
      case recvs => exact List.suffix_refl _
      all_goals rfl
    -- the block is passed
    have hblock₁ : BlockFits this₁.album this₁.raw := by rwa [hadv₁.raw]
    obtain ⟨this₂, hmeta, hadv₂, hmode₂, hpos₂⟩ := metainf_spec (hadv₁.good hgood) hblock₁
    rw [hadv₁.raw] at hadv₂
    -- the audio behind it is copied
    have hadv₁₂ := hadv₁.trans hadv₂
    have hbehind : n - (M - pos) ≤ this₂.ahead.length := by
      rw [hadv₁₂.ahead, List.length_drop]
      by_cases hmore : M < pos + n
      · have := hinside hmore
        omega
      · omega
    obtain ⟨this₃, hcopy, hadv₃, hmode₃, hpos₃⟩ :=
      copyPreview_spec (this.raw.take (M - pos)) (hadv₂.good (hadv₁.good hgood)) hbehind
    rw [hadv₁₂.raw] at hcopy
    have hadv := hadv₁₂.trans hadv₃
    rw [show M - pos + blockLen (this.raw.drop (M - pos)) + (n - (M - pos)) =
      n + blockLen (this.raw.drop (M - pos)) by omega] at hadv
    refine ⟨this₃, ?_, hadv, hmode₃.trans hmode₂, ?_⟩
    · have hcur : this.curpos < this.preview_size := by omega
      have hmem : ¬((M - pos : ℕ) < (0 : ℤ) ∨ this.preview.length < this.curpos + (M - pos)) := by
        have := hgood.preview
        omega
      unfold readPreview
      rw [if_pos hcur]
      dsimp only
      rw [hmin, if_pos ⟨hmode, by omega⟩, hi, Int.toNat_natCast, if_neg hmem,
        hgood.take_ahead hbefore]
      change (httpPluginReadMetainf this₁).bind _ = _
      rw [hmeta, Option.bind_some, hcopy]
    · rw [hpos₃, hmode₂, if_pos rfl, hpos₂]
      omega
  · have hno : ¬(this.shoutcast_mode = true ∧
        this.shoutcast_metaint ≤ this.shoutcast_pos + min this.ahead.length nlen) := by
      rintro ⟨-, hle⟩
      rw [hM, hpos] at hle
      exact hcross ⟨by omega, by omega⟩
    obtain ⟨this', hread, hadv, hmode', hpos'⟩ :=
      readPreview_copy httpPluginReadMetainf nlen hgood hno
    rw [← hn] at hread hadv hpos'
    unfold metaLen partOut posAfter
    rw [if_neg hcross, if_neg hcross, if_neg hcross]
    refine ⟨this', hread, hadv, hmode'.trans hmode, ?_⟩
    rw [hpos', hmode, if_pos rfl, hpos]
    omega

theorem readSocket_spec (hgood : this.Good) (hmode : this.shoutcast_mode = true)
    (hM : this.shoutcast_metaint = M) (hpos : this.shoutcast_pos = pos) (hle : pos ≤ M)
    (hahead : n ≠ 0 → this.ahead = []) (hfits : PartFits this.album M pos n this.raw) :
    ∃ this', readSocket httpPluginReadMetainf this n = some (some (partOut M pos n this.raw), this') ∧
      PartRead this this' (n + metaLen M pos n this.raw) (posAfter M pos n) := by
  by_cases hcross : Crosses M pos n
  · obtain ⟨hne, hreach⟩ := hcross
    obtain ⟨hblock, -⟩ := hfits.2 ⟨hne, hreach⟩
    have hlen := hfits.1
    unfold metaLen partOut posAfter at *
    rw [if_pos ⟨hne, hreach⟩] at hlen ⊢
    rw [if_pos ⟨hne, hreach⟩, if_pos ⟨hne, hreach⟩]
    have hi : this.shoutcast_metaint - this.shoutcast_pos = (M - pos : ℕ) := by omega
    -- the audio before the block is read
    have hhead : (this.raw.take (M - pos)).length = M - pos := by
      rw [List.length_take]
      omega
    obtain ⟨sock, hread, hadv₀⟩ := xioTcpRead_spec (M - pos) hgood (hahead hne)
    let this₁ : HttpInput := { this with
      shoutcast_pos := this.shoutcast_pos + (M - pos : ℕ)
      curpos := this.curpos + (M - pos)
      sock := sock }
    have hadv₁ : Advanced this this₁ (M - pos) := (hadv₀ (M - pos)).set this.shoutcast_mode _
    -- the block is passed
    have hblock₁ : BlockFits this₁.album this₁.raw := by rwa [hadv₁.raw]
    obtain ⟨this₂, hmeta, hadv₂, hmode₂, hpos₂⟩ := metainf_spec (hadv₁.good hgood) hblock₁
    rw [hadv₁.raw] at hadv₂
    have hadv₁₂ := hadv₁.trans hadv₂
    -- the audio behind it is read
    let this₂' : HttpInput := { this₂ with
      shoutcast_pos := this₂.shoutcast_pos + (n - (M - pos) : ℕ) }
    have hadv₂' : Advanced this this₂' (M - pos + blockLen (this.raw.drop (M - pos))) :=
      hadv₁₂.set this₂.shoutcast_mode _
    have hend : this₂'.ahead = [] := by rw [hadv₂'.ahead, hahead hne, List.drop_nil]
    obtain ⟨this₃, hfinish, hadv₃, hmode₃, hpos₃⟩ :=
      finishSocket_spec (this.raw.take (M - pos)) (n - (M - pos)) (hadv₂'.good hgood) hend
    rw [hadv₂'.raw] at hfinish
    have hadv := hadv₂'.trans hadv₃
    rw [show M - pos + blockLen (this.raw.drop (M - pos)) + (n - (M - pos)) =
      n + blockLen (this.raw.drop (M - pos)) by omega] at hadv
    refine ⟨this₃, ?_, hadv, hmode₃.trans hmode₂, ?_⟩
    · unfold readSocket
      rw [if_neg hne, if_pos ⟨hmode, by omega⟩, hi, hread]
      dsimp only
      rw [hhead]
      change (httpPluginReadMetainf this₁).bind _ = _
      rw [hmeta, Option.bind_some]
      exact congrArg some hfinish
    · have hpos₂' : this₃.shoutcast_pos = this₂.shoutcast_pos + (n - (M - pos) : ℕ) := hpos₃
      rw [hpos₂', hpos₂]
      omega
  · have hno : ¬(n ≠ 0 ∧ this.shoutcast_mode = true ∧
        this.shoutcast_metaint ≤ this.shoutcast_pos + n) := by
      rintro ⟨hne, -, hreach⟩
      rw [hM, hpos] at hreach
      exact hcross ⟨hne, by omega⟩
    obtain ⟨this', hread, hadv, hmode', hpos'⟩ :=
      readSocket_finish httpPluginReadMetainf n hgood hahead hno
    unfold metaLen partOut posAfter
    rw [if_neg hcross, if_neg hcross, if_neg hcross]
    refine ⟨this', hread, hadv, hmode'.trans hmode, ?_⟩
    rw [hpos', hmode, if_pos rfl, hpos]
    omega

/-! ## Reads -/

/-- A read of `nlen` bytes can be served. The metadata interval is positive. Where a block of metadata is due
at once, and in the part of the read that comes from the preview, and in the part that comes from the
socket, the bytes that are asked for are ahead, and no more than one block with each part, which fits. What
follows a block in the part from the preview is in the preview. -/
def Fits (this : HttpInput) (nlen : ℕ) : Prop :=
  let M := this.shoutcast_metaint.toNat
  let pos := this.shoutcast_pos.toNat
  let first := if pos = M then blockLen this.raw else 0
  let raw := this.raw.drop first
  let start := if pos = M then 0 else pos
  let left := this.ahead.length - first
  let n := min left nlen
  1 ≤ M ∧ (pos = M → BlockFits this.album this.raw) ∧ PartFits this.album M start n raw ∧
    (M < start + n → n + metaLen M start n raw ≤ left) ∧
      PartFits this.album M (posAfter M start n) (nlen - n) (raw.drop (n + metaLen M start n raw))

instance (this : HttpInput) (nlen : ℕ) : Decidable (Fits this nlen) :=
  inferInstanceAs (Decidable (_ ∧ (_ → _) ∧ _ ∧ (_ → _) ∧ _))

theorem start_spec (hgood : this.Good) (hmode : this.shoutcast_mode = true)
    (hM : this.shoutcast_metaint = M) (hpos : this.shoutcast_pos = pos) (hone : 1 ≤ M)
    (hfits : pos = M → BlockFits this.album this.raw) :
    ∃ this', (if this.shoutcast_mode = true ∧ this.shoutcast_pos = this.shoutcast_metaint then
        httpPluginReadMetainf this else some this) = some this' ∧
      PartRead this this' (if pos = M then blockLen this.raw else 0) (if pos = M then 0 else pos) ∧
        Passed M pos this.raw (if pos = M then blockLen this.raw else 0) []
          (if pos = M then 0 else pos) := by
  by_cases hdue : pos = M
  · subst hdue
    obtain ⟨this', hmeta, hadv, hmode', hpos'⟩ := metainf_spec hgood (hfits rfl)
    rw [if_pos ⟨hmode, by omega⟩, if_pos rfl, if_pos rfl]
    exact ⟨this', hmeta, ⟨hadv, hmode', hpos'⟩, passed_block (hfits rfl)⟩
  · rw [if_neg (by omega), if_neg hdue, if_neg hdue]
    exact ⟨this, rfl, ⟨Advanced.refl this, hmode, hpos⟩, Passed.refl M pos this.raw⟩

theorem httpPluginRead_spec {nlen : ℕ} (hgood : this.Good) (hmode : this.shoutcast_mode = true)
    (hM : this.shoutcast_metaint = M) (hpos : this.shoutcast_pos = pos) (hle : pos ≤ M)
    (hfits : Fits this nlen) :
    ∃ out this' k pos', httpPluginRead this nlen = some (out, this') ∧ PartRead this this' k pos' ∧
      Passed M pos this.raw k out pos' ∧ pos' ≤ M ∧ out.length = nlen := by
  unfold Fits at hfits
  rw [hM, hpos, Int.toNat_natCast, Int.toNat_natCast] at hfits
  obtain ⟨hone, hfirst, hpreview, hinside, hsocket⟩ := hfits
  obtain ⟨this₁, hstart, ⟨hadv₁, hmode₁, hpos₁⟩, hpassed₁⟩ :=
    start_spec hgood hmode hM hpos hone hfirst
  unfold httpPluginRead readWith
  rw [hstart, Option.bind_some]
  have hlt : (if pos = M then 0 else pos) < M := by split_ifs <;> omega
  generalize (if pos = M then blockLen this.raw else 0) = first at *
  generalize (if pos = M then 0 else pos) = start at *
  have hahead₁ : this₁.ahead.length = this.ahead.length - first := by
    rw [hadv₁.ahead, List.length_drop]
  rw [← hadv₁.raw, ← hadv₁.album, ← hahead₁] at hpreview hsocket
  rw [← hadv₁.raw, ← hahead₁] at hinside
  generalize hn : min this₁.ahead.length nlen = n at *
  -- the preview
  obtain ⟨this₂, hread₂, ⟨hadv₂, hmode₂, hpos₂⟩⟩ :=
    readPreview_spec (hadv₁.good hgood) hmode₁ (hadv₁.metaint.trans hM) hpos₁ hlt hn.symm hpreview hinside
  have hpassed₂ : Passed M start (this.raw.drop first) (n + metaLen M start n this₁.raw)
      (partOut M start n this₁.raw) (posAfter M start n) := by
    rw [← hadv₁.raw]
    exact hpreview.passed hlt.le
  have hle₂ := posAfter_le hpreview hlt.le
  have hlen₂ := hpreview.length_partOut
  rw [hread₂, Option.bind_some]
  dsimp only
  rw [hlen₂]
  -- the socket
  have hahead₂ : nlen - n ≠ 0 → this₂.ahead = [] := by
    intro hrest
    rw [hadv₂.ahead]
    exact List.drop_eq_nil_of_le (by omega)
  rw [← hadv₂.raw, ← hadv₂.album] at hsocket
  obtain ⟨this₃, hread₃, ⟨hadv₃, hmode₃, hpos₃⟩⟩ :=
    readSocket_spec (hadv₂.good (hadv₁.good hgood)) hmode₂
      (hadv₂.metaint.trans (hadv₁.metaint.trans hM)) hpos₂ hle₂ hahead₂ hsocket
  have hpassed₃ := hsocket.passed hle₂
  have hraw₂ : this.raw.drop (first + (n + metaLen M start n this₁.raw)) = this₂.raw := by
    rw [hadv₂.raw, hadv₁.raw, List.drop_drop]
  nth_rewrite 1 [← hraw₂] at hpassed₃
  have hlen₃ := hsocket.length_partOut
  rw [hread₃, Option.map_some]
  dsimp only [Option.elim]
  refine ⟨_, this₃, _, _, rfl, ⟨(hadv₁.trans hadv₂).trans hadv₃, hmode₃, hpos₃⟩, ?_,
    posAfter_le hsocket hle₂, ?_⟩
  · have hpassed := (hpassed₁.trans hpassed₂).trans hpassed₃
    rwa [List.nil_append] at hpassed
  · rw [List.length_append, hlen₂, hlen₃]
    omega

end Xine.Http

/-!
## Listening to a shoutcast stream

The runs of `http_plugin_read` from the end of `http_plugin_open`: `Client` is the input with a log of what was
asked for and what was returned.
-/

namespace Xine.Http

open Octets (Byte)
open Interleave (strip phase)
open Runs (run Guarded)

variable {this this' : HttpInput} {M : ℕ}

/-! ## Opening -/

theorem headerLine_good {line : List Byte} (hgood : this.Good) (h : headerLine this line = some this') :
    this'.Good := by
  unfold headerLine at h
  dsimp only at h
  split at h
  · cases h
    split_ifs <;> exact ⟨hgood.preview, hgood.recvs⟩
  · split at h
    · cases h
    · cases h
      split_ifs <;> exact ⟨hgood.preview, hgood.recvs⟩

theorem headerLoop_good {fuel : ℕ} {line : List Byte} {done : Bool} (hgood : this.Good)
    (h : headerLoop fuel this line = some (done, this')) : this'.Good := by
  induction fuel generalizing this line with
  | zero => cases h
  | succ fuel ih =>
    unfold headerLoop at h
    obtain ⟨this₁, hread, hadv⟩ := plainRead_spec 1 hgood
    have hgood₁ := hadv.good hgood
    split at h
    · cases h
    · rw [hread, Option.bind_some] at h
      dsimp only at h
      split at h
      · obtain ⟨-, rfl⟩ := Prod.mk.inj (Option.some.inj h)
        exact hgood₁
      · split at h
        · -- a line has its end
          obtain ⟨this₂, hline, h⟩ := Option.bind_eq_some_iff.1 h
          have hgood₂ := headerLine_good hgood₁ hline
          split at h
          · obtain ⟨-, rfl⟩ := Prod.mk.inj (Option.some.inj h)
            exact hgood₂
          · exact ih hgood₂ h
        · exact ih hgood₁ h

theorem openBody_good {shoutcast : Bool} {sock : Socket} (hsock : Recv.fails ∉ sock.recvs)
    (hopen : openBody shoutcast sock = some (true, this)) (hmode : this.shoutcast_mode = true) :
    this.Good ∧ this.shoutcast_pos = 0 := by
  have hbody : (atBody sock).Good := ⟨Nat.zero_le _, hsock⟩
  obtain ⟨this₁, hread, hadv⟩ := plainRead_spec MAX_PREVIEW_SIZE hbody
  unfold openBody at hopen
  rw [hread, Option.bind_some] at hopen
  dsimp only at hopen
  split at hopen
  · obtain ⟨⟨done, this₂⟩, hheader, hopen⟩ := Option.map_eq_some_iff.1 hopen
    have hgood : this₂.Good := by
      unfold readShoutcastHeader at hheader
      refine headerLoop_good ?_ hheader
      refine ⟨?_, (hadv.good hbody).recvs⟩
      rw [List.length_append]
      exact Nat.le_add_right _ _
    dsimp only at hopen
    split at hopen
    · obtain ⟨-, rfl⟩ := Prod.mk.inj hopen
      exact ⟨⟨hgood.preview, hgood.recvs⟩, rfl⟩
    · exact absurd (Prod.mk.inj hopen).1 Bool.false_ne_true
  · obtain ⟨-, rfl⟩ := Prod.mk.inj (Option.some.inj hopen)
    exact absurd hmode Bool.false_ne_true

/-! ## Runs of reads -/

/-- The input, and the reads so far: how many bytes were asked for, and the bytes that were returned. -/
structure Client where
  input : HttpInput
  log : List (ℕ × List Byte)

/-- A read of a number of bytes. -/
def readStep (c : Client) (nlen : ℕ) : Option Client :=
  (httpPluginRead c.input nlen).map fun (out, this) => { input := this, log := c.log ++ [(nlen, out)] }

/-- The bytes that were returned. -/
def Client.returned (c : Client) : List Byte := c.log.flatMap Prod.snd

/-- What was returned is the audio of the bytes of `body` that were passed, and the position in the interval
is the number of bytes of audio since the last metadata. -/
structure Stripped (M : ℕ) (body : List Byte) (c : Client) : Prop where
  bounded : ∀ e ∈ c.log, e.2.length ≤ e.1
  removed : c.returned <+: strip metaSize M M 0 body
  position : 0 ≤ c.input.shoutcast_pos ∧ c.input.shoutcast_pos ≤ M
  passed : ∃ k, c.input.raw = body.drop k ∧ strip metaSize M M 0 (body.take k) = c.returned ∧
    phase metaSize M M 0 (body.take k) = (M - c.input.shoutcast_pos.toNat, 0)

/-- What a run of reads keeps. -/
structure Listening (M : ℕ) (body : List Byte) (c : Client) : Prop where
  stripped : Stripped M body c
  good : c.input.Good
  mode : c.input.shoutcast_mode = true
  metaint : c.input.shoutcast_metaint.toNat = M

theorem listening_step {body : List Byte} {c : Client} {nlen : ℕ} (h : Listening M body c)
    (hfits : Fits c.input nlen) : ∃ c', readStep c nlen = some c' ∧ Listening M body c' := by
  obtain ⟨k, hraw, hstrip, hphase⟩ := h.stripped.passed
  obtain ⟨hzero, hle⟩ := h.stripped.position
  have hM : c.input.shoutcast_metaint = M := by
    have hone : 1 ≤ c.input.shoutcast_metaint.toNat := hfits.1
    have := h.metaint
    omega
  have hpos : c.input.shoutcast_pos = (c.input.shoutcast_pos.toNat : ℕ) := (Int.toNat_of_nonneg hzero).symm
  obtain ⟨out, this, k', pos', hread, ⟨hadv, hmode, hpos'⟩, hpassed, hle', hlen⟩ :=
    httpPluginRead_spec h.good h.mode hM hpos (by omega) hfits
  have hbefore : Passed M 0 body k c.returned c.input.shoutcast_pos.toNat := ⟨hstrip, hphase⟩
  rw [hraw] at hpassed
  have hall := hbefore.trans hpassed
  have hreturned : (c.log ++ [(nlen, out)]).flatMap Prod.snd = c.returned ++ out := by
    rw [List.flatMap_append, List.flatMap_singleton, Client.returned]
  have hnat : this.shoutcast_pos.toNat = pos' := by rw [hpos', Int.toNat_natCast]
  refine ⟨{ input := this, log := c.log ++ [(nlen, out)] }, ?_, ?_⟩
  · rw [readStep, hread, Option.map_some]
  · refine ⟨⟨?_, ?_, ?_, k + k', ?_, ?_, ?_⟩, hadv.good h.good, hmode, ?_⟩
    · intro e he
      rcases List.mem_append.1 he with he | he
      · exact h.stripped.bounded e he
      · obtain rfl := List.mem_singleton.1 he
        exact hlen.le
    · -- the bytes that were passed are the beginning of the body
      rw [Client.returned, hreturned, ← hall.strip]
      conv_rhs => rw [← List.take_append_drop (k + k') body, Interleave.strip_append]
      exact List.prefix_append _ _
    · dsimp only
      rw [hpos']
      omega
    · rw [← List.drop_drop, ← hraw]
      exact hadv.raw
    · rw [Client.returned, hreturned]
      exact hall.strip
    · dsimp only
      rw [hnat]
      exact hall.phase
    · rw [hadv.metaint]
      exact h.metaint

/-- In every run of reads that can be served, from the start of a shoutcast stream, the metadata is removed
exactly. -/
theorem reads_stripped {shoutcast : Bool} {sock : Socket} (hsock : Recv.fails ∉ sock.recvs)
    (hopen : openBody shoutcast sock = some (true, this)) (hmode : this.shoutcast_mode = true)
    {nlens : List ℕ}
    (hfits : Guarded readStep (fun c nlen => Fits c.input nlen) { input := this, log := [] } nlens) :
    ∃ c, run readStep { input := this, log := [] } nlens = some c ∧
      Stripped this.shoutcast_metaint.toNat this.raw c := by
  obtain ⟨hgood, hpos⟩ := openBody_good hsock hopen hmode
  have hstart : Listening this.shoutcast_metaint.toNat this.raw { input := this, log := [] } := by
    refine ⟨⟨?_, ?_, ?_, 0, ?_, ?_, ?_⟩, hgood, hmode, rfl⟩
    · intro e he
      cases he
    · exact List.nil_prefix
    · dsimp only
      rw [hpos]
      omega
    · rfl
    · exact (Passed.refl _ 0 this.raw).strip
    · dsimp only
      rw [hpos]
      exact (Passed.refl _ 0 this.raw).phase
  obtain ⟨c, hrun, hlistening⟩ := Runs.guarded_progress (fun c nlen => listening_step) hstart hfits
  exact ⟨c, hrun, hlistening.stripped⟩

/-! ## Two streams -/

/-- The header of a stream that announces an interval, before its body. -/
def streamOf (header : String) (body : List Byte) : Socket where
  bytes := text header ++ [0x0D, 0x0A, 0x0D, 0x0A] ++ body
  recvs := [.part 0, .part 6]

/-- A stream with an interval of two bytes, its metadata at the start of a read. -/
theorem reads_stripped_two :
    ∃ this, openBody false (streamOf "ICY 200 OK\nicy-metaint:2" [1, 2, 0, 3, 4, 0, 5, 6, 0]) =
        some (true, this) ∧
      ∃ c, run readStep { input := this, log := [] } [2, 1, 2] = some c ∧
        Stripped this.shoutcast_metaint.toNat this.raw c := by
  have hstart : (openBody false (streamOf "ICY 200 OK\nicy-metaint:2" [1, 2, 0, 3, 4, 0, 5, 6, 0])).any
      (fun r => r.1 && r.2.shoutcast_mode &&
        decide (Guarded readStep (fun c nlen => Fits c.input nlen) { input := r.2, log := [] }
          [2, 1, 2])) = true := by
    decide +kernel
  obtain ⟨⟨ok, this⟩, hopen, hall⟩ := (Option.any_eq_true _ _).1 hstart
  obtain ⟨hmodes, hfits⟩ := Bool.and_eq_true_iff.1 hall
  obtain ⟨hok, hmode⟩ := Bool.and_eq_true_iff.1 hmodes
  obtain rfl : ok = true := hok
  exact ⟨this, hopen, reads_stripped (by decide) hopen hmode (of_decide_eq_true hfits)⟩

/-- A read that spans two blocks of metadata returns one of them. -/
theorem reads_not_stripped :
    ∃ this c, openBody false (streamOf "ICY 200 OK\nicy-metaint:2" [1, 2, 0, 3, 4, 0, 5, 6, 0]) =
        some (true, this) ∧ this.shoutcast_mode = true ∧ this.shoutcast_metaint = 2 ∧
      run readStep { input := this, log := [] } [6] = some c ∧
        ¬c.returned <+: strip metaSize 2 2 0 this.raw := by
  have hstart : (openBody false (streamOf "ICY 200 OK\nicy-metaint:2" [1, 2, 0, 3, 4, 0, 5, 6, 0])).any
      (fun r => r.1 && r.2.shoutcast_mode && decide (r.2.shoutcast_metaint = 2) &&
        (run readStep { input := r.2, log := [] } [6]).any fun c =>
          decide ¬c.returned <+: strip metaSize 2 2 0 r.2.raw) = true := by
    decide +kernel
  obtain ⟨⟨ok, this⟩, hopen, hall⟩ := (Option.any_eq_true _ _).1 hstart
  obtain ⟨hbefore, hread⟩ := Bool.and_eq_true_iff.1 hall
  obtain ⟨hmodes, hmetaint⟩ := Bool.and_eq_true_iff.1 hbefore
  obtain ⟨hok, hmode⟩ := Bool.and_eq_true_iff.1 hmodes
  obtain ⟨c, hrun, hno⟩ := (Option.any_eq_true _ _).1 hread
  obtain rfl : ok = true := hok
  exact ⟨this, c, hopen, hmode, of_decide_eq_true hmetaint, hrun, of_decide_eq_true hno⟩

end Xine.Http
