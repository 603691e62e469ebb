import Xine.Library.Runs
import Xine.Rip.Input

/-!
# Saving a stream does not change it

Every read gives the bytes of the wrapped input at the current position, and the file holds the first
`savepos` bytes of it, as long as no bytes are read at a negative position. A seek goes to one when
there is a preview, where the position that it asks the file for is that behind the preview.
-/

namespace Xine.Rip

variable {src : List Byte} {r t : RipInputPlugin} {m : InputPlugin} {len np nr : ℕ} {data : Data}
  {newpos : ℤ} {back : Bool}

/-! ## Bytes of the wrapped input -/

/-- The bytes from a position on. -/
def bytes (src : List Byte) (pos n : ℕ) : List Byte := (src.drop pos).take n

theorem length_bytes (src : List Byte) (pos n : ℕ) :
    (bytes src pos n).length = min n (src.length - pos) := by
  unfold bytes
  rw [List.length_take, List.length_drop]

theorem bytes_add (src : List Byte) (pos k n : ℕ) :
    bytes src pos (k + n) = bytes src pos k ++ bytes src (pos + k) n := by
  unfold bytes
  rw [List.take_add, List.drop_drop]

theorem take_append_bytes (src : List Byte) (pos n : ℕ) :
    src.take pos ++ bytes src pos n = src.take (pos + n) :=
  (List.take_add ..).symm

theorem bytes_length (src : List Byte) (pos n : ℕ) :
    bytes src pos (bytes src pos n).length = bytes src pos n := by
  unfold bytes
  rw [List.take_eq_take_iff, List.length_take]
  omega

theorem drop_bytes (src : List Byte) (pos k n : ℕ) :
    (bytes src pos n).drop k = bytes src (pos + k) (n - k) := by
  unfold bytes
  rw [List.drop_take, List.drop_drop]

/-! ## The invariant -/

namespace RipInputPlugin

/-- The plugin holds the bytes of the wrapped input, and its positions agree. -/
structure Good (src : List Byte) (r : RipInputPlugin) : Prop where
  src_eq : r.main_input_plugin.src = src
  answers : r.main_input_plugin.answers = []
  preview_eq : ∀ preview, r.preview = some preview →
    ∀ i : ℕ, i < r.preview_size → src[i]? = some (preview i)
  preview_size_nonneg : 0 ≤ r.preview_size
  preview_size_le : r.preview_size ≤ r.savepos
  preview_none : r.preview = none → r.preview_size = 0 ∧ 0 ≤ r.curpos
  curpos_le : r.curpos ≤ r.savepos
  savepos_le : r.savepos ≤ src.length
  content : r.file.content = src.take r.savepos.toNat
  file_pos : (r.file.pos : ℤ) = if r.regular then max r.curpos r.preview_size else r.savepos
  main_pos : (r.main_input_plugin.pos : ℤ) =
    if r.regular then r.savepos else max r.curpos r.preview_size

/-- How the sizes of a read divide it. -/
structure Sizes (r : RipInputPlugin) (len np nr : ℕ) : Prop where
  eq : r.sizes len = ((np : ℤ), (nr : ℤ))
  le : np + nr ≤ len
  upTo : r.curpos + np + nr ≤ r.savepos
  rest : np + nr < len → r.curpos + np + nr = r.savepos
  behind : 0 < nr ∨ np + nr < len → r.curpos + np = max r.curpos r.preview_size
  within : np ≠ 0 → r.preview.isSome ∧ r.curpos + np ≤ r.preview_size
  pos : r.curpos < 0 → 0 < len → 0 < np

theorem exists_sizes (h : Good src r) (len : ℕ) : ∃ np nr, Sizes r len np nr := by
  have hpre0 := h.preview_size_nonneg
  have hpre1 := h.preview_size_le
  have hcur := h.curpos_le
  have hnone := h.preview_none
  by_cases hin : r.curpos < r.preview_size ∧ r.preview.isSome
  · by_cases hlen : r.preview_size - r.curpos > len
    · refine ⟨len, 0, ?_, ?_, ?_, ?_, ?_, ?_, ?_⟩
      · unfold sizes
        rw [if_pos hin]
        dsimp only
        rw [if_pos hlen]
        rfl
      all_goals first | omega | exact fun _ => ⟨hin.2, by omega⟩
    · refine ⟨(r.preview_size - r.curpos).toNat,
        (min (r.savepos - r.preview_size) (len - (r.preview_size - r.curpos))).toNat,
        ?_, ?_, ?_, ?_, ?_, ?_, ?_⟩
      · unfold sizes
        rw [if_pos hin]
        dsimp only
        rw [if_neg hlen, Int.toNat_of_nonneg (by omega), Int.toNat_of_nonneg (by omega)]
      all_goals first | omega | exact fun _ => ⟨hin.2, by omega⟩
  · have hcur0 : r.preview_size ≤ r.curpos := by
      by_contra hlt
      cases hpreview : r.preview with
      | none =>
        have := hnone hpreview
        omega
      | some preview => exact hin ⟨by omega, by rw [hpreview]; rfl⟩
    refine ⟨0, (min (r.savepos - r.curpos) len).toNat, ?_, ?_, ?_, ?_, ?_, ?_, ?_⟩
    · unfold sizes
      rw [if_neg hin, Int.toNat_of_nonneg (by omega)]
      rfl
    all_goals omega

/-- What a read gives: as many bytes as the position advances by, which are those of the wrapped
input, unless the position is negative. -/
structure Reads (src : List Byte) (r t : RipInputPlugin) (data : Data) : Prop where
  good : Good src t
  length : (data.buf.length : ℤ) = data.retlen
  curpos : t.curpos = r.curpos + data.retlen
  buf : 0 ≤ r.curpos → data.buf = bytes src r.curpos.toNat data.buf.length

theorem length_fromPreview (hs : Sizes r len np nr) : (r.fromPreview np).length = np := by
  unfold fromPreview
  cases hpreview : r.preview with
  | none =>
    by_contra hne
    have hsome := (hs.within (Ne.symm hne)).1
    rw [hpreview] at hsome
    cases hsome
  | some preview => simp

theorem fromPreview_eq (h : Good src r) (hs : Sizes r len np nr) (hcur : 0 ≤ r.curpos) :
    r.fromPreview np = bytes src r.curpos.toNat np := by
  have hlength := length_fromPreview hs
  unfold fromPreview at hlength ⊢
  cases hpreview : r.preview with
  | none =>
    rw [hpreview] at hlength
    obtain rfl : 0 = np := hlength
    rfl
  | some preview =>
    refine List.ext_getElem? fun i => ?_
    unfold bytes
    by_cases hi : i < np
    · have hwithin := (hs.within (by omega)).2
      have hsrc := h.preview_eq preview hpreview (r.curpos.toNat + i) (by omega)
      have hpos : ((r.curpos.toNat + i : ℕ) : ℤ) = r.curpos + i := by omega
      rw [List.getElem?_take_of_lt hi, List.getElem?_drop, hsrc, hpos]
      simp [hi]
    · rw [List.getElem?_eq_none (by simpa using Nat.not_lt.1 hi),
        List.getElem?_eq_none (by simpa using Or.inl (Nat.not_lt.1 hi))]

theorem buf_eq (h : Good src r) (hs : Sizes r len np nr) (hcur : 0 ≤ r.curpos) {nf fpos : ℕ}
    (k mpos : ℕ)
    (hfpos : nf ≠ 0 → (fpos : ℤ) = r.curpos + np) (hmpos : k ≠ 0 → (mpos : ℤ) = r.curpos + np + nf) :
    r.fromPreview np ++ bytes src fpos nf ++ bytes src mpos k =
      bytes src r.curpos.toNat (np + nf + k) := by
  have hfile : bytes src fpos nf = bytes src (r.curpos.toNat + np) nf := by
    rcases eq_or_ne nf 0 with rfl | hne
    · rfl
    · congr 1
      have := hfpos hne
      omega
  have hmain : bytes src mpos k = bytes src (r.curpos.toNat + (np + nf)) k := by
    rcases eq_or_ne k 0 with rfl | hne
    · rfl
    · congr 1
      have := hmpos hne
      omega
  rw [fromPreview_eq h hs hcur, hfile, hmain, bytes_add, bytes_add]

theorem fwrite_eq {n : ℕ} (hn : n ≤ src.length) (k : ℕ) :
    File.fwrite ⟨src.take n, n⟩ (bytes src n k) =
      ⟨src.take (n + k), n + (bytes src n k).length⟩ := by
  have hdrop : (src.take n).drop (n + (bytes src n k).length) = [] := by
    rw [List.drop_eq_nil_iff, List.length_take]
    omega
  unfold File.fwrite
  rw [hdrop, List.append_nil, List.take_take, Nat.min_self, take_append_bytes]

/-- The state after the reads of a call, before it writes. -/
def received (r : RipInputPlugin) (nf k : ℕ) : RipInputPlugin :=
  { r with
    file := { r.file with pos := r.file.pos + nf }
    main_input_plugin := { r.main_input_plugin with pos := r.main_input_plugin.pos + k } }

theorem positions (h : Good src r) (hs : Sizes r len np nr) {nf no : ℕ}
    (hnf : nf = if r.regular then nr else 0) (hno : no = if r.regular then 0 else nr)
    (hbehind : 0 < no + (len - np - nr)) :
    nf + no = nr ∧ (nf ≠ 0 → (r.file.pos : ℤ) = r.curpos + np) ∧
      (r.main_input_plugin.pos : ℤ) = r.curpos + np + nf ∧
      (np + nr < len → ((r.file.pos + nf : ℕ) : ℤ) = r.savepos) := by
  have hsle := hs.le
  have hrest := hs.rest
  have hbeh := hs.behind
  have hfile := h.file_pos
  have hmain := h.main_pos
  by_cases hreg : r.regular = true
  · rw [if_pos hreg] at hnf hno hfile hmain
    refine ⟨by omega, by omega, by omega, by omega⟩
  · rw [if_neg hreg] at hnf hno hfile hmain
    refine ⟨by omega, by omega, by omega, by omega⟩

theorem good_received (h : Good src r) (hs : Sizes r len np nr) {nf no k : ℕ}
    (hnf : nf = if r.regular then nr else 0) (hno : no = if r.regular then 0 else nr)
    (hle : no ≤ k) (hk : k ≤ no + (len - np - nr))
    (hlen : r.main_input_plugin.pos + k ≤ src.length)
    (hbehind : 0 < no + (len - np - nr)) (file : File)
    (hcontent : file.content = src.take (r.savepos + (k - no)).toNat)
    (hpos : (file.pos : ℤ) = r.file.pos + nf + (k - no)) :
    Good src { r.received nf k with
      file
      savepos := r.savepos + (k - no)
      curpos := r.curpos + (np + nr + (k - no)) } := by
  have hadded : (0 : ℤ) ≤ k - no := by omega
  have hplace : r.curpos + np = max r.curpos r.preview_size := hs.behind (by split_ifs at hno <;> omega)
  have hahead : r.preview_size ≤ r.curpos + np := hplace ▸ le_max_right _ _
  have hmax : max (r.curpos + (np + nr + (k - no))) r.preview_size = r.curpos + (np + nr + (k - no)) :=
    max_eq_left (by omega)
  refine ⟨h.src_eq, h.answers, h.preview_eq, h.preview_size_nonneg, ?_, ?_, ?_, ?_, hcontent, ?_, ?_⟩
  · have hpre := h.preview_size_le
    change r.preview_size ≤ r.savepos + (k - no)
    omega
  · intro hnone
    obtain ⟨hzero, hcur⟩ := h.preview_none hnone
    refine ⟨hzero, ?_⟩
    change 0 ≤ r.curpos + (np + nr + (k - no))
    omega
  · have hupTo := hs.upTo
    change r.curpos + (np + nr + (k - no)) ≤ r.savepos + (k - no)
    omega
  · obtain ⟨hsum, -, hmpos, -⟩ := positions h hs hnf hno hbehind
    have hrest := hs.rest
    have hsave := h.savepos_le
    change r.savepos + (k - no) ≤ src.length
    omega
  · have hfile := h.file_pos
    change (file.pos : ℤ) = if r.regular then max (r.curpos + (np + nr + (k - no))) r.preview_size
      else r.savepos + (k - no)
    rw [hmax]
    rw [← hplace] at hfile
    by_cases hreg : r.regular = true
    · rw [if_pos hreg] at hnf hno hfile ⊢
      omega
    · rw [if_neg hreg] at hnf hno hfile ⊢
      omega
  · obtain ⟨hsum, -, hmpos, -⟩ := positions h hs hnf hno hbehind
    have hrest := hs.rest
    change ((r.main_input_plugin.pos + k : ℕ) : ℤ) =
      if r.regular then r.savepos + (k - no)
      else max (r.curpos + (np + nr + (k - no))) r.preview_size
    rw [hmax]
    by_cases hreg : r.regular = true
    · rw [if_pos hreg] at hnf hno ⊢
      omega
    · rw [if_neg hreg] at hnf hno ⊢
      omega

theorem finish_of_lt {buf : List Byte} {retlen no npreview nread : ℤ} (hlt : no < retlen)
    (hle : r.curpos ≤ r.savepos) :
    r.finish buf retlen no npreview nread = (some ⟨npreview + nread + (retlen - no), buf⟩, { r with
      file := r.file.fwrite
        ((buf.drop (r.savepos - r.curpos).toNat).take (retlen - no).toNat)
      savepos := r.savepos + (retlen - no)
      curpos := r.curpos + (npreview + nread + (retlen - no)) }) := by
  unfold finish write
  dsimp only
  rw [if_pos hlt, if_neg (by omega)]
  rfl

theorem finish_of_le {buf : List Byte} {retlen no npreview nread : ℤ} (hle : retlen ≤ no) :
    r.finish buf retlen no npreview nread = (some ⟨npreview + nread + 0, buf⟩, { r with
      curpos := r.curpos + (npreview + nread + 0) }) := by
  unfold finish write
  rw [if_neg (by omega)]
  rfl

/-- The buffer of a call that has read `nf` bytes of the file and `k` of the wrapped input. -/
def buffer (src : List Byte) (r : RipInputPlugin) (np nf k : ℕ) : List Byte :=
  r.fromPreview np ++ bytes src r.file.pos nf ++ bytes src r.main_input_plugin.pos k

theorem length_buffer (h : Good src r) (hs : Sizes r len np nr) {nf no k : ℕ}
    (hnf : nf = if r.regular then nr else 0) (hno : no = if r.regular then 0 else nr)
    (hlen : r.main_input_plugin.pos + k ≤ src.length)
    (hbehind : 0 < no + (len - np - nr)) : (buffer src r np nf k).length = np + nf + k := by
  obtain ⟨hsum, hfpos, -, -⟩ := positions h hs hnf hno hbehind
  have hupTo := hs.upTo
  have hsave := h.savepos_le
  unfold buffer
  rw [List.length_append, List.length_append, length_fromPreview hs, length_bytes, length_bytes]
  omega

theorem drop_buffer (h : Good src r) (hs : Sizes r len np nr) {nf no k : ℕ}
    (hnf : nf = if r.regular then nr else 0) (hno : no = if r.regular then 0 else nr)
    (hbehind : 0 < no + (len - np - nr)) :
    (buffer src r np nf k).drop (np + nr) =
      bytes src (r.main_input_plugin.pos + no) (k - no) := by
  obtain ⟨hsum, hfpos, -, -⟩ := positions h hs hnf hno hbehind
  have hupTo := hs.upTo
  have hsave := h.savepos_le
  have hsplit : np + nr = (r.fromPreview np ++ bytes src r.file.pos nf).length + no := by
    rw [List.length_append, length_fromPreview hs, length_bytes]
    omega
  unfold buffer
  rw [hsplit, List.drop_length_add_append, drop_bytes]

theorem reads_of_good (h : Good src r) (hs : Sizes r len np nr) {nf no k : ℕ}
    (hnf : nf = if r.regular then nr else 0) (hno : no = if r.regular then 0 else nr)
    (hlen : r.main_input_plugin.pos + k ≤ src.length)
    (hbehind : 0 < no + (len - np - nr)) (hgood : Good src t)
    (hcurpos : t.curpos = r.curpos + (np + nr + (k - no))) :
    Reads src r t ⟨np + nr + (k - no), buffer src r np nf k⟩ := by
  obtain ⟨hsum, hfpos, hmpos, -⟩ := positions h hs hnf hno hbehind
  have hlength := length_buffer h hs hnf hno hlen hbehind
  refine ⟨hgood, ?_, hcurpos, fun hcur => ?_⟩
  · change ((buffer src r np nf k).length : ℤ) = np + nr + (k - no)
    omega
  · rw [hlength]
    exact buf_eq h hs hcur k _ hfpos fun _ => hmpos

theorem fwrite_received (h : Good src r) (hs : Sizes r len np nr) {nf no k : ℕ}
    (hnf : nf = if r.regular then nr else 0) (hno : no = if r.regular then 0 else nr)
    (hk : k ≤ no + (len - np - nr)) (hlen : r.main_input_plugin.pos + k ≤ src.length)
    (hlt : no < k) :
    (r.received nf k).file.fwrite (((buffer src r np nf k).drop (r.savepos - r.curpos).toNat).take
        ((k : ℤ) - no).toNat) =
      ⟨src.take (r.savepos.toNat + (k - no)), r.savepos.toNat + (k - no)⟩ := by
  obtain ⟨-, -, hmpos, hend⟩ := positions h hs hnf hno (by omega)
  have hrest := hs.rest (by omega)
  have hfile : (r.received nf k).file = ⟨src.take r.savepos.toNat, r.savepos.toNat⟩ := by
    have hpos := hend (by omega)
    change (⟨r.file.content, r.file.pos + nf⟩ : File) = _
    rw [h.content, show r.file.pos + nf = r.savepos.toNat by omega]
  have hsave := h.savepos_le
  -- the new bytes are those behind what has been saved
  have hdata : ((buffer src r np nf k).drop (r.savepos - r.curpos).toNat).take ((k : ℤ) - no).toNat =
      bytes src r.savepos.toNat (k - no) := by
    have hskip : (r.savepos - r.curpos).toNat = np + nr := by omega
    have hnew : ((k : ℤ) - no).toNat = k - no := by omega
    have hsaved : r.main_input_plugin.pos + no = r.savepos.toNat := by
      have := positions h hs hnf hno (by omega)
      omega
    rw [hskip, hnew, drop_buffer h hs hnf hno (by omega), hsaved]
    unfold bytes
    rw [List.take_take, Nat.min_self]
  have hlength : (bytes src r.savepos.toNat (k - no)).length = k - no := by
    have := positions h hs hnf hno (by omega)
    rw [length_bytes]
    omega
  rw [hdata, hfile, fwrite_eq (by omega), hlength]

theorem finish_reads (h : Good src r) (hs : Sizes r len np nr) {nf no k : ℕ}
    (hnf : nf = if r.regular then nr else 0) (hno : no = if r.regular then 0 else nr)
    (hle : no ≤ k) (hk : k ≤ no + (len - np - nr))
    (hlen : r.main_input_plugin.pos + k ≤ src.length)
    (hbehind : 0 < no + (len - np - nr)) :
    ∃ t, (r.received nf k).finish (buffer src r np nf k) k no np nr =
        (some ⟨np + nr + (k - no), buffer src r np nf k⟩, t) ∧
      Reads src r t ⟨np + nr + (k - no), buffer src r np nf k⟩ := by
  by_cases hlt : no < k
  · have hwritten := fwrite_received h hs hnf hno hk hlen hlt
    obtain ⟨-, -, -, hend⟩ := positions h hs hnf hno hbehind
    have hpos := hend (by omega)
    have hsaved : (r.savepos + ((k : ℤ) - no)).toNat = r.savepos.toNat + (k - no) := by
      omega
    have hgood := good_received h hs hnf hno hle hk hlen hbehind
      ⟨src.take (r.savepos.toNat + (k - no)), r.savepos.toNat + (k - no)⟩ (by rw [hsaved])
      (by dsimp only; omega)
    rw [← hwritten] at hgood
    exact ⟨_, finish_of_lt (by omega) h.curpos_le,
      reads_of_good h hs hnf hno hlen hbehind hgood rfl⟩
  · obtain rfl : k = no := by omega
    have hgood := good_received h hs hnf hno hle hk hlen hbehind
      ⟨r.file.content, r.file.pos + nf⟩ (by rw [sub_self, add_zero]; exact h.content)
      (by rw [sub_self, add_zero]; exact Int.natCast_add ..)
    have hreads := reads_of_good h hs hnf hno hlen hbehind hgood rfl
    rw [sub_self, add_zero r.savepos] at hreads
    rw [finish_of_le le_rfl, sub_self]
    exact ⟨_, rfl, hreads⟩

theorem fromFile_eq (h : Good src r) (hs : Sizes r len np nr) {nf : ℕ}
    (hnf : nf = if r.regular then nr else 0) :
    r.fromFile nf = some (bytes src r.file.pos nf, { r.file with pos := r.file.pos + nf }) := by
  unfold fromFile
  rcases eq_or_ne nf 0 with rfl | hne
  · rfl
  · have hreg : r.regular = true := by
      by_contra hreg
      rw [if_neg hreg] at hnf
      exact hne hnf
    have hfile := h.file_pos
    rw [if_pos hreg] at hnf hfile
    have hbeh := hs.behind (.inl (by omega))
    have hupTo := hs.upTo
    have hsave := h.savepos_le
    have hlength : r.file.content.length = r.savepos.toNat := by
      rw [h.content, List.length_take]
      omega
    have hdata : (r.file.content.drop r.file.pos).take nf = bytes src r.file.pos nf := by
      unfold bytes
      rw [h.content, List.drop_take, List.take_take, Nat.min_eq_left (by omega)]
    rw [if_pos (by omega), Int.toNat_natCast]
    unfold File.fread
    rw [if_pos (by omega), hdata]

theorem advance_reads (h : Good src r) (hs : Sizes r len np nr) {nf : ℕ}
    (hnf : nf = if r.regular then nr else 0) (hno : 0 = if r.regular then 0 else nr) :
    Reads src r { r.received nf 0 with curpos := r.curpos + (np + nr) }
      ⟨np + nr, r.fromPreview np ++ bytes src r.file.pos nf⟩ := by
  have hupTo := hs.upTo
  have hbeh := hs.behind
  have hwithin := hs.within
  have hpre0 := h.preview_size_nonneg
  have hsave := h.savepos_le
  have hfile := h.file_pos
  have hmain := h.main_pos
  have hsum : nf = nr := by
    by_cases hreg : r.regular = true
    · rw [if_pos hreg] at hnf
      exact hnf
    · rw [if_neg hreg] at hnf hno
      omega
  have hfpos : nf ≠ 0 → (r.file.pos : ℤ) = r.curpos + np := by
    intro hne
    by_cases hreg : r.regular = true
    · rw [if_pos hreg] at hfile
      omega
    · rw [if_neg hreg] at hno
      omega
  refine ⟨⟨h.src_eq, h.answers, h.preview_eq, hpre0, h.preview_size_le, ?_, ?_, hsave, h.content, ?_,
    ?_⟩, ?_, rfl, fun hcur => ?_⟩
  · intro hnone
    obtain ⟨hzero, hcur⟩ := h.preview_none hnone
    refine ⟨hzero, ?_⟩
    change 0 ≤ r.curpos + (np + nr)
    omega
  · change r.curpos + (np + nr) ≤ r.savepos
    omega
  · change ((r.file.pos + nf : ℕ) : ℤ) =
      if r.regular then max (r.curpos + (np + nr)) r.preview_size else r.savepos
    by_cases hreg : r.regular = true
    · rw [if_pos hreg] at hfile ⊢
      omega
    · rw [if_neg hreg] at hfile hno ⊢
      omega
  · change ((r.main_input_plugin.pos + 0 : ℕ) : ℤ) =
      if r.regular then r.savepos else max (r.curpos + (np + nr)) r.preview_size
    by_cases hreg : r.regular = true
    · rw [if_pos hreg] at hmain ⊢
      omega
    · rw [if_neg hreg] at hmain hno ⊢
      omega
  · change ((r.fromPreview np ++ bytes src r.file.pos nf).length : ℤ) = np + nr
    rw [List.length_append, length_fromPreview hs, length_bytes]
    omega
  · have hbuf := buf_eq h hs hcur 0 0 hfpos fun hne => absurd rfl hne
    rw [show bytes src 0 0 = [] from rfl, List.append_nil] at hbuf
    change r.fromPreview np ++ bytes src r.file.pos nf = bytes src _ (List.length _)
    rw [hbuf, Nat.add_zero, bytes_length]

theorem read_eq (hsrc : m.src = src) (hanswers : m.answers = []) (n : ℕ) :
    m.read n = (some (bytes src m.pos n), { m with pos := m.pos + (bytes src m.pos n).length }) := by
  obtain ⟨_, pos, seekable, blocksize, answers⟩ := m
  subst hsrc hanswers
  rfl

theorem exists_parts (hs : Sizes r len np nr) :
    ∃ nf no : ℕ, (nf = if r.regular then nr else 0) ∧ (no = if r.regular then 0 else nr) ∧
      ((if r.regular then (nr : ℤ) else 0) = nf) ∧ ((if r.regular then 0 else (nr : ℤ)) = no) ∧
      ((no : ℤ) + (len - np - nr) = (no + (len - np - nr) : ℕ)) := by
  have hsle := hs.le
  refine ⟨if r.regular then nr else 0, if r.regular then 0 else nr, rfl, rfl, ?_, ?_, ?_⟩
  · split_ifs <;> rfl
  · split_ifs <;> rfl
  · omega

theorem ripPluginRead_reads (h : Good src r) (len : ℕ) :
    ∃ d t, r.ripPluginRead len = (some d, t) ∧ Reads src r t d ∧
      (r.curpos < 0 → 0 < len → 0 < d.retlen) ∧ d.retlen ≤ len := by
  obtain ⟨np, nr, hs⟩ := exists_sizes h len
  obtain ⟨nf, no, hnf, hno, hnf', hno', hsum⟩ := exists_parts hs
  have hsle := hs.le
  have hpos := hs.pos
  unfold ripPluginRead
  rw [hs.eq]
  dsimp only
  rw [hnf', hno', fromFile_eq h hs hnf, hsum]
  dsimp only
  by_cases hbehind : no + (len - np - nr) = 0
  · rw [if_neg (by omega)]
    obtain rfl : no = 0 := by omega
    have hreads := advance_reads h hs hnf hno
    have hzero : (np : ℤ) + nr + (len - np - nr) = np + nr := by omega
    rw [hzero]
    refine ⟨_, _, rfl, hreads, fun hcur hlen => ?_, ?_⟩
    · have := hpos hcur hlen
      dsimp only
      omega
    · dsimp only
      omega
  · rw [if_pos (by omega), Int.toNat_natCast]
    rw [read_eq (m := r.main_input_plugin) h.src_eq h.answers]
    dsimp only
    have hupTo := hs.upTo
    have hsave := h.savepos_le
    obtain ⟨hsum', -, hmpos, -⟩ := positions h hs hnf hno (by omega)
    have hlength := length_bytes src r.main_input_plugin.pos (no + (len - np - nr))
    have hdata := bytes_length src r.main_input_plugin.pos (no + (len - np - nr))
    generalize (bytes src r.main_input_plugin.pos (no + (len - np - nr))).length = k at hlength hdata ⊢
    rw [← hdata]
    obtain ⟨t, ht, hreads⟩ := finish_reads h hs hnf hno (k := k) (by omega) (by omega) (by omega)
      (by omega)
    refine ⟨_, t, ht, hreads, fun hcur hlen => ?_, ?_⟩
    · have := hpos hcur hlen
      dsimp only
      omega
    · dsimp only
      omega

theorem read_of_readBlock {n : ℕ} {data : List Byte} {m' : InputPlugin}
    (h : m.readBlock n = (some data, m')) : m.read n = (some data, m') := by
  unfold InputPlugin.readBlock at h
  split at h
  · exact absurd (congrArg Prod.fst h) nofun
  · exact h

theorem ripPluginReadBlock_reads (h : Good src r) {todo : ℕ}
    (hok : r.ripPluginReadBlock todo = (some data, t)) :
    Reads src r t data ∧ (r.curpos < 0 → 0 < data.retlen) := by
  obtain ⟨np, nr, hs⟩ := exists_sizes h todo
  obtain ⟨nf, no, hnf, hno, hnf', hno', hsum⟩ := exists_parts hs
  have hsle := hs.le
  have hpos := hs.pos
  unfold ripPluginReadBlock at hok
  by_cases htodo : todo = 0
  · rw [if_pos htodo] at hok
    exact absurd (congrArg Prod.fst hok) nofun
  rw [if_neg htodo, hs.eq] at hok
  dsimp only at hok
  rw [hnf', hno', fromFile_eq h hs hnf, hsum] at hok
  dsimp only at hok
  by_cases hbehind : no + (todo - np - nr) = 0
  · rw [if_neg (by omega)] at hok
    obtain rfl : no = 0 := by omega
    have hreads := advance_reads h hs hnf hno
    have hzero : (np : ℤ) + nr + (todo - np - nr) = np + nr := by omega
    rw [hzero] at hok
    obtain ⟨rfl, rfl⟩ : _ = data ∧ _ = t := by simpa [advance] using hok
    refine ⟨hreads, fun hcur => ?_⟩
    have := hpos hcur (by omega)
    dsimp only
    omega
  · rw [if_pos (by omega), Int.toNat_natCast] at hok
    split at hok
    · exact absurd (congrArg Prod.fst hok) nofun
    · rename_i block main hmain
      -- the block, whoever allocates it
      have hread : r.main_input_plugin.read (no + (todo - np - nr)) = (some block, main) := by
        split_ifs at hmain
        · exact hmain
        · exact read_of_readBlock hmain
      rw [read_eq h.src_eq h.answers] at hread
      obtain ⟨hblock, rfl⟩ := Prod.mk.inj hread
      cases hblock
      by_cases hshort : ((bytes src r.main_input_plugin.pos (no + (todo - np - nr))).length : ℤ) ≠
          (no + (todo - np - nr) : ℕ)
      · rw [if_pos hshort] at hok
        exact absurd (congrArg Prod.fst hok) nofun
      · have hlength : (bytes src r.main_input_plugin.pos (no + (todo - np - nr))).length =
            no + (todo - np - nr) := by omega
        rw [if_neg hshort, hlength] at hok
        rw [length_bytes] at hlength
        obtain ⟨u, hu, hreads⟩ := finish_reads h hs hnf hno (k := no + (todo - np - nr)) (by omega)
          le_rfl (by omega) (by omega)
        obtain ⟨hdata, rfl⟩ := Prod.mk.inj (hu.symm.trans hok)
        cases hdata
        refine ⟨hreads, fun hcur => ?_⟩
        have := hpos hcur (by omega)
        dsimp only
        omega

/-! ## Seeks -/

theorem seek_cases {reqpos pos : ℤ} {m' : InputPlugin}
    (h : m.seek reqpos back = some (pos, m')) :
    0 ≤ reqpos ∧ (pos = reqpos ∧ m' = { m with pos := reqpos.toNat } ∨
      reqpos < m.pos ∧ pos = m.pos ∧ m' = m) := by
  unfold InputPlugin.seek at h
  split_ifs at h with hneg hcan
  · obtain ⟨rfl, rfl⟩ := Prod.mk.inj (Option.some.inj h)
    exact ⟨by omega, .inl ⟨rfl, rfl⟩⟩
  · obtain ⟨rfl, rfl⟩ := Prod.mk.inj (Option.some.inj h)
    have hlt : ¬(m.pos : ℤ) ≤ reqpos := fun hle => hcan (.inr (.inl hle))
    exact ⟨by omega, .inr ⟨by omega, rfl, rfl⟩⟩

theorem Good.move (h : Good src r) {file : File} {curpos : ℤ} (pos : ℕ)
    (hnone : r.preview = none → 0 ≤ curpos) (hle : curpos ≤ r.savepos)
    (hcontent : file.content = r.file.content)
    (hfile : (file.pos : ℤ) = if r.regular then max curpos r.preview_size else r.savepos)
    (hmain : (pos : ℤ) = if r.regular then r.savepos else max curpos r.preview_size) :
    Good src { r with
      main_input_plugin := { r.main_input_plugin with pos }
      file
      curpos } :=
  ⟨h.src_eq, h.answers, h.preview_eq, h.preview_size_nonneg, h.preview_size_le,
    fun hp => ⟨(h.preview_none hp).1, hnone hp⟩, hle, h.savepos_le, hcontent.trans h.content, hfile,
    hmain⟩

theorem reqpos_eq (h : Good src r) (newpos : ℤ) :
    (if r.preview.isSome ∧ newpos < r.preview_size then r.preview_size else newpos) =
        max newpos r.preview_size ∧ (r.preview = none → 0 ≤ newpos) ∨
      newpos < 0 ∧
        (if r.preview.isSome ∧ newpos < r.preview_size then r.preview_size else newpos) = newpos := by
  cases hpreview : r.preview with
  | none =>
    have hzero := (h.preview_none hpreview).1
    rw [if_neg (by simp)]
    by_cases hneg : newpos < 0
    · exact .inr ⟨hneg, rfl⟩
    · exact .inl ⟨by omega, fun _ => Int.not_lt.1 hneg⟩
  | some preview =>
    refine .inl ⟨?_, nofun⟩
    split_ifs with hin
    · omega
    · have : ¬newpos < r.preview_size := fun hlt => hin ⟨rfl, hlt⟩
      omega

theorem seekBack_good (h : Good src r) (hnew : newpos < r.savepos)
    (hok : r.seekBack newpos back = some t) : Good src t := by
  have hreq := reqpos_eq h newpos
  have hpre0 := h.preview_size_nonneg
  have hpre1 := h.preview_size_le
  have hcur := h.curpos_le
  have hfile := h.file_pos
  have hmain := h.main_pos
  unfold seekBack at hok
  dsimp only at hok
  generalize (if r.preview.isSome ∧ newpos < r.preview_size then r.preview_size else newpos) = reqpos
    at hreq hok
  by_cases hreg : r.regular = true
  · rw [if_pos hreg] at hok hfile hmain
    obtain ⟨file, hseek, rfl⟩ := Option.map_eq_some_iff.1 hok
    by_cases hne : reqpos ≠ r.savepos
    · rw [if_pos hne] at hseek
      unfold File.fseek at hseek
      obtain ⟨hle, hf⟩ := Option.ite_none_right_eq_some.1 hseek
      cases hf
      obtain ⟨hmax, hnone⟩ := hreq.resolve_right (by omega)
      refine h.move r.main_input_plugin.pos hnone hnew.le rfl ?_ ?_
      · rw [if_pos hreg]
        dsimp only
        omega
      · rw [if_pos hreg]
        exact hmain
    · -- the file is at its end
      rw [if_neg hne] at hseek
      cases hseek
      obtain ⟨hmax, hnone⟩ := hreq.resolve_right (by omega)
      refine h.move r.main_input_plugin.pos hnone hnew.le rfl ?_ ?_
      · rw [if_pos hreg]
        omega
      · rw [if_pos hreg]
        exact hmain
  · rw [if_neg hreg] at hok hfile hmain
    obtain ⟨u, hu, rfl⟩ := Option.map_eq_some_iff.1 hok
    obtain ⟨⟨pos, main⟩, hseek, rfl⟩ := Option.map_eq_some_iff.1 hu
    obtain ⟨hnonneg, hcases⟩ := seek_cases hseek
    obtain ⟨hmax, hnone⟩ := hreq.resolve_right (by omega)
    rcases hcases with ⟨rfl, rfl⟩ | ⟨hlt, rfl, rfl⟩
    · dsimp only
      rw [if_pos rfl]
      refine h.move _ hnone hnew.le rfl ?_ ?_
      · rw [if_neg hreg]
        exact hfile
      · rw [if_neg hreg]
        omega
    · -- the wrapped input stays where it is
      dsimp only
      rw [if_neg (by omega)]
      refine h.move r.main_input_plugin.pos (fun _ => Int.natCast_nonneg _) (by omega) rfl
        ?_ ?_
      · rw [if_neg hreg]
        exact hfile
      · rw [if_neg hreg]
        omega

theorem seekEnd_good (h : Good src r) (hok : r.seekEnd back = some t) : Good src t := by
  have hpre1 := h.preview_size_le
  have hpre0 := h.preview_size_nonneg
  have hcur := h.curpos_le
  have hfile := h.file_pos
  have hmain := h.main_pos
  unfold seekEnd at hok
  by_cases hlt : r.curpos < r.savepos
  · rw [if_pos hlt] at hok
    by_cases hreg : r.regular = true
    · rw [if_pos hreg] at hok hfile hmain
      obtain ⟨file, hseek, rfl⟩ := Option.map_eq_some_iff.1 hok
      unfold File.fseek at hseek
      obtain ⟨hle, hf⟩ := Option.ite_none_right_eq_some.1 hseek
      cases hf
      refine h.move r.main_input_plugin.pos (fun _ => hle) le_rfl rfl ?_ ?_
      · rw [if_pos hreg]
        dsimp only
        omega
      · rw [if_pos hreg]
        exact hmain
    · rw [if_neg hreg] at hok hfile hmain
      obtain ⟨⟨pos, main⟩, hseek, rfl⟩ := Option.map_eq_some_iff.1 hok
      obtain ⟨hnonneg, ⟨rfl, rfl⟩ | ⟨hback, -, -⟩⟩ := seek_cases hseek
      · refine h.move _ (fun _ => hnonneg) le_rfl rfl ?_ ?_
        · rw [if_neg hreg]
          exact hfile
        · rw [if_neg hreg]
          omega
      · omega
  · rw [if_neg hlt] at hok
    exact Option.some.inj hok ▸ h

theorem catchUp_good (h : Good src r) {fuel : ℕ} (hok : catchUp newpos fuel r = (true, t)) :
    Good src t := by
  induction fuel generalizing r with
  | zero => exact (Prod.mk.inj hok).2 ▸ h
  | succ fuel ih =>
    unfold catchUp at hok
    by_cases hlt : r.curpos < newpos
    · rw [if_pos hlt] at hok
      split at hok
      · split at hok
        · rename_i hblock
          exact ih (ripPluginReadBlock_reads h hblock).1.good hok
        · exact absurd (congrArg Prod.fst hok) nofun
      · obtain ⟨d, u, hread, hreads, -, -⟩ :=
          ripPluginRead_reads h (min (newpos - r.curpos).toNat scratchSize)
        rw [hread] at hok
        dsimp only at hok
        split_ifs at hok
        · exact (Prod.mk.inj hok).2 ▸ hreads.good
        · exact ih hreads.good hok
    · rw [if_neg hlt] at hok
      exact (Prod.mk.inj hok).2 ▸ h

theorem ripPluginSeek_good (h : Good src r) {offset pos : ℤ} {origin : Origin}
    (hok : r.ripPluginSeek offset origin back = (some (pos, true), t)) : Good src t := by
  unfold ripPluginSeek at hok
  dsimp only at hok
  by_cases hlt : r.newPosition offset origin < r.savepos
  · rw [if_pos hlt] at hok
    split at hok
    · exact absurd (congrArg Prod.fst hok) nofun
    · rename_i u hu
      exact (Prod.mk.inj hok).2 ▸ seekBack_good h hlt hu
  · rw [if_neg hlt] at hok
    split at hok
    · exact absurd (congrArg Prod.fst hok) nofun
    · rename_i u hu
      obtain ⟨hpos, htu⟩ := Prod.mk.inj hok
      have hall : (catchUp (r.newPosition offset origin)
          (r.newPosition offset origin - u.curpos).toNat u).1 = true :=
        (Prod.mk.inj (Option.some.inj hpos)).2
      exact catchUp_good (seekEnd_good h hu) (Prod.ext hall htu)

theorem good_preview {m : InputPlugin} (hanswers : m.answers = []) (n : ℕ) (regular : Bool) (around : ℤ → Byte)
    (hpos : m.pos = (bytes m.src 0 n).length) :
    Good m.src ⟨m, File.fwrite ⟨[], 0⟩ (bytes m.src 0 n), regular, some (memory (bytes m.src 0 n) around),
      (bytes m.src 0 n).length, 0, (bytes m.src 0 n).length⟩ := by
  have hlength := length_bytes m.src 0 n
  refine ⟨rfl, hanswers, ?_, Int.natCast_nonneg _, le_rfl, nofun, Int.natCast_nonneg _, ?_, ?_, ?_, ?_⟩
  · rintro _ ⟨⟩ i hi
    change (i : ℤ) < (bytes m.src 0 n).length at hi
    have hi' : i < (bytes m.src 0 n).length := by omega
    have hsome := List.getElem?_eq_getElem hi'
    unfold memory
    rw [if_pos ⟨Int.natCast_nonneg _, hi⟩, Int.toNat_natCast, List.getD_eq_getElem?_getD, hsome,
      Option.getD_some, ← hsome]
    unfold bytes
    rw [List.getElem?_take_of_lt (by omega), List.getElem?_drop, Nat.zero_add]
  · change ((bytes m.src 0 n).length : ℤ) ≤ m.src.length
    omega
  · change (File.fwrite ⟨m.src.take 0, 0⟩ (bytes m.src 0 n)).content =
      m.src.take (((bytes m.src 0 n).length : ℤ)).toNat
    rw [fwrite_eq (Nat.zero_le _), Nat.zero_add, Int.toNat_natCast]
    exact (bytes_length m.src 0 n).symm
  · change ((0 + (bytes m.src 0 n).length : ℕ) : ℤ) =
      if regular then max 0 ((bytes m.src 0 n).length : ℤ) else ((bytes m.src 0 n).length : ℤ)
    split_ifs <;> omega
  · change ((m.pos : ℕ) : ℤ) =
      if regular then ((bytes m.src 0 n).length : ℤ) else max 0 ((bytes m.src 0 n).length : ℤ)
    split_ifs <;> omega

theorem good_seekable {m : InputPlugin} (hpos : m.pos = 0) (hanswers : m.answers = []) (regular : Bool) :
    Good m.src ⟨m, ⟨[], 0⟩, regular, none, 0, 0, 0⟩ := by
  refine ⟨rfl, hanswers, nofun, le_rfl, le_rfl, fun _ => ⟨rfl, le_rfl⟩, le_rfl, Int.natCast_nonneg _, rfl, ?_, ?_⟩
  · split_ifs <;> rfl
  · rw [hpos]
    split_ifs <;> rfl

theorem ripPluginGetInstance_good {regular : Bool} {around : ℤ → Byte} (hpos : m.pos = 0)
    (hanswers : m.answers = []) (h : ripPluginGetInstance m regular around = some r) :
    Good m.src r := by
  unfold ripPluginGetInstance at h
  by_cases hseekable : m.seekable = true
  · rw [if_pos hseekable] at h
    exact Option.some.inj h ▸ good_seekable hpos hanswers regular
  · rw [if_neg hseekable] at h
    split at h
    · cases h
    · rename_i data main hread
      obtain ⟨n, hn⟩ : ∃ n, m.read n = (some data, main) := by
        split at hread
        · exact ⟨_, read_of_readBlock hread⟩
        · exact ⟨_, hread⟩
      rw [read_eq rfl hanswers, hpos] at hn
      obtain ⟨hdata, rfl⟩ := Prod.mk.inj hn
      cases hdata
      cases h
      exact @good_preview { m with pos := 0 + (bytes m.src 0 n).length } hanswers n regular around (Nat.zero_add _)

end RipInputPlugin

/-! ## Runs -/

/-- A read gives the bytes of the wrapped input at the position before it, and the position advances
by their number. -/
structure Result.Right (src : List Byte) (x : Result) : Prop where
  length : (x.data.buf.length : ℤ) = x.data.retlen
  advance : x.pos' = x.pos + x.data.retlen
  bytes : x.data.buf = [] ∨ 0 ≤ x.pos ∧ x.data.buf = bytes src x.pos.toNat x.data.buf.length

/-- Saving is transparent: all reads are right, and the file has what has been saved, with a position
that is the current one, or behind the preview while that is in it. -/
structure Transparent (src : List Byte) (s : System) : Prop where
  reads : ∀ x ∈ s.log, x.Right src
  savepos : 0 ≤ s.rip.savepos ∧ s.rip.savepos ≤ src.length
  saved : s.rip.file.content = src.take s.rip.savepos.toNat
  file_pos : s.rip.regular = true → (s.rip.file.pos : ℤ) = max s.rip.curpos s.rip.preview_size

/-- No bytes are read at a negative position. -/
def AtPosition (s : System) : Call → Prop
  | .read len => len = 0 ∨ 0 ≤ s.rip.curpos
  | .readBlock _ => 0 ≤ s.rip.curpos
  | .seek _ _ _ => True

instance {s : System} {c : Call} : Decidable (AtPosition s c) := by
  cases c <;> unfold AtPosition <;> infer_instance

/-- The invariant of a run. -/
def Kept (src : List Byte) (s : System) : Prop := s.rip.Good src ∧ ∀ x ∈ s.log, x.Right src

theorem Kept.transparent {s : System} (h : Kept src s) : Transparent src s := by
  obtain ⟨hgood, hlog⟩ := h
  refine ⟨hlog, ⟨?_, hgood.savepos_le⟩, hgood.content, fun hreg => ?_⟩
  · exact hgood.preview_size_nonneg.trans hgood.preview_size_le
  · have hpos := hgood.file_pos
    rw [if_pos hreg] at hpos
    exact hpos

theorem Kept.received {s : System} (h : Kept src s) {r : RipInputPlugin} {data : Data}
    (hreads : RipInputPlugin.Reads src s.rip r data)
    (hpos : data.buf = [] ∨ 0 ≤ s.rip.curpos) :
    Kept src ⟨r, s.log ++ [⟨s.rip.curpos, data, r.curpos⟩]⟩ := by
  refine ⟨hreads.good, fun x hx => ?_⟩
  rcases List.mem_append.1 hx with hx | hx
  · exact h.2 x hx
  · obtain rfl := List.mem_singleton.1 hx
    exact ⟨hreads.length, hreads.curpos, hpos.imp_right fun hcur => ⟨hcur, hreads.buf hcur⟩⟩

theorem not_transparent_received {s : System} {r : RipInputPlugin} {data : Data}
    (hreads : RipInputPlugin.Reads src s.rip r data) (hneg : s.rip.curpos < 0)
    (hpos : 0 < data.retlen) :
    ¬Transparent src ⟨r, s.log ++ [⟨s.rip.curpos, data, r.curpos⟩]⟩ := by
  intro h
  obtain hnil | ⟨hcur, -⟩ :=
    (h.reads ⟨s.rip.curpos, data, r.curpos⟩ (List.mem_append_right _ List.mem_cons_self)).bytes
  · have hlength := hreads.length
    rw [show data.buf = [] from hnil] at hlength
    change (0 : ℤ) = data.retlen at hlength
    omega
  · exact absurd hcur (Int.not_le.2 hneg)

theorem kept_step {s u : System} {c : Call} (h : Kept src s) (hat : AtPosition s c)
    (hstep : step s c = some u) : Kept src u := by
  cases c with
  | read len =>
    obtain ⟨data, r, hread, hreads, -, hle⟩ := RipInputPlugin.ripPluginRead_reads h.1 len
    change s.received (s.rip.ripPluginRead len) = some u at hstep
    rw [hread] at hstep
    cases hstep
    refine h.received hreads (hat.imp_left fun hzero => ?_)
    have hlength := hreads.length
    exact List.eq_nil_of_length_eq_zero (by omega)
  | readBlock todo =>
    change s.received (s.rip.ripPluginReadBlock todo) = some u at hstep
    match hread : s.rip.ripPluginReadBlock todo with
    | (none, r) =>
      rw [hread] at hstep
      cases hstep
    | (some data, r) =>
      rw [hread] at hstep
      cases hstep
      exact h.received (RipInputPlugin.ripPluginReadBlock_reads h.1 hread).1 (.inr hat)
  | seek offset origin back =>
    dsimp only [step] at hstep
    split at hstep
    · rename_i pos r hseek
      cases hstep
      exact ⟨RipInputPlugin.ripPluginSeek_good h.1 hseek, h.2⟩
    · cases hstep

theorem not_transparent_step {s u : System} {c : Call} (h : Kept src s) (hat : ¬AtPosition s c)
    (hstep : step s c = some u) : ¬Transparent src u := by
  cases c with
  | read len =>
    obtain ⟨hlen, hcur⟩ := not_or.1 hat
    have hneg : s.rip.curpos < 0 := Int.not_le.1 hcur
    obtain ⟨data, r, hread, hreads, hpos, -⟩ := RipInputPlugin.ripPluginRead_reads h.1 len
    change s.received (s.rip.ripPluginRead len) = some u at hstep
    rw [hread] at hstep
    cases hstep
    exact not_transparent_received hreads hneg (hpos hneg (Nat.pos_of_ne_zero hlen))
  | readBlock todo =>
    have hneg : s.rip.curpos < 0 := Int.not_le.1 hat
    change s.received (s.rip.ripPluginReadBlock todo) = some u at hstep
    match hread : s.rip.ripPluginReadBlock todo with
    | (none, r) =>
      rw [hread] at hstep
      cases hstep
    | (some data, r) =>
      rw [hread] at hstep
      cases hstep
      obtain ⟨hreads, hpos⟩ := RipInputPlugin.ripPluginReadBlock_reads h.1 hread
      exact not_transparent_received hreads hneg (hpos hneg)
  | seek offset origin back => exact absurd trivial hat

/-- In every run of successful calls, saving is transparent if and only if no bytes are read at a
negative position. -/
theorem rip_run_transparent_iff (regular : Bool) (around : ℤ → Byte) (cs : List Call) {u : System}
    (hpos : m.pos = 0) (hanswers : m.answers = [])
    (hr : RipInputPlugin.ripPluginGetInstance m regular around = some r)
    (hrun : Runs.run step ⟨r, []⟩ cs = some u) :
    Runs.Guarded step AtPosition ⟨r, []⟩ cs ↔
      ∀ cs' s, cs' <+: cs → Runs.run step ⟨r, []⟩ cs' = some s → Transparent m.src s :=
  Runs.guarded_iff (fun _ => Kept.transparent) (fun _ _ _ => kept_step)
    (fun _ _ _ => not_transparent_step)
    ⟨RipInputPlugin.ripPluginGetInstance_good hpos hanswers hr, fun _ hx => absurd hx List.not_mem_nil⟩
    hrun

/-- An input of eight bytes that is not seekable, in blocks of three. -/
def smallInput : InputPlugin := ⟨[1, 2, 3, 4, 5, 6, 7, 8], 0, false, some 3, []⟩

/-- An instance for it that writes a regular file. -/
def smallRip : RipInputPlugin :=
  ⟨{ smallInput with pos := 3 }, ⟨[1, 2, 3], 3⟩, true,
    some (RipInputPlugin.memory [1, 2, 3] fun _ => 0xff), 3, 0, 3⟩

/-- Reads in the preview, across its end and of what has been saved, with seeks forward and back. -/
def smallCalls : List Call := [.read 2, .readBlock 4, .seek 3 .set false, .read 5]

theorem rip_run_transparent_iff_small :
    Runs.Guarded step AtPosition ⟨smallRip, []⟩ smallCalls ∧
      ∀ cs' s, cs' <+: smallCalls → Runs.run step ⟨smallRip, []⟩ cs' = some s →
        Transparent smallInput.src s := by
  have hguarded : Runs.Guarded step AtPosition ⟨smallRip, []⟩ smallCalls := by decide
  exact ⟨hguarded,
    (rip_run_transparent_iff (m := smallInput) true (fun _ => 0xff) smallCalls rfl rfl rfl rfl).1
      hguarded⟩

theorem rip_run_reads_before_preview :
    ∃ u, Runs.run step ⟨smallRip, []⟩ [.seek (-3) .set false, .read 1] = some u ∧
      ¬Transparent smallInput.src u := by
  refine ⟨_, rfl, fun h => ?_⟩
  obtain hnil | ⟨hpos, -⟩ := (h.reads _ List.mem_cons_self).bytes
  · exact absurd hnil (by decide)
  · exact absurd hpos (by decide)

end Xine.Rip
