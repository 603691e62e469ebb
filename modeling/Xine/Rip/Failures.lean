import Xine.Rip.Range

/-!
# Reads that fail or come short

Any read of the wrapped input may now fail, or give fewer bytes than it is asked for. Bytes are lost in two
places: `rip_plugin_read` counts bytes that it should have got once more from a wrapped input, and
`rip_plugin_read_block` drops a block that came short.
-/

namespace Xine.Rip

variable {src data : List Byte} {r t : RipInputPlugin} {m : InputPlugin} {len np nr nf no n p : ℕ} {newpos : ℤ}
  {back : Bool} {answers : List (Option ℕ)}

/-! ## Where bytes are lost -/

/-- The blocks that are read from the wrapped input, up to the first that fails, are whole. -/
def InputPlugin.WholeBlocks (b : ℕ) : ℕ → InputPlugin → Prop
  | 0, _ => True
  | blocks + 1, m => ∀ data ∈ (m.readBlock b).1, data.length = b ∧ WholeBlocks b blocks (m.readBlock b).2

instance InputPlugin.instDecidableWholeBlocks (b : ℕ) : (blocks : ℕ) → (m : InputPlugin) →
    Decidable (m.WholeBlocks b blocks)
  | 0, _ => isTrue trivial
  | blocks + 1, m =>
    have : Decidable ((m.readBlock b).2.WholeBlocks b blocks) := instDecidableWholeBlocks b blocks _
    inferInstanceAs (Decidable (∀ data ∈ (m.readBlock b).1, data.length = b ∧ _))

namespace RipInputPlugin

/-- How many bytes a read asks the wrapped input for once more, and how many in all. -/
def asks (r : RipInputPlugin) (len : ℕ) : ℕ × ℕ :=
  let nread_orig := if r.regular then 0 else (r.sizes len).2
  (nread_orig.toNat, (nread_orig + (len - (r.sizes len).1 - (r.sizes len).2)).toNat)

/-- The saved bytes that a read wants can be read from the file. -/
def Rereads (r : RipInputPlugin) (len : ℕ) : Prop :=
  (r.fromFile (if r.regular then (r.sizes len).2 else 0)).isSome = true

instance instDecidableRereads (r : RipInputPlugin) (len : ℕ) : Decidable (r.Rereads len) :=
  inferInstanceAs (Decidable (_ = true))

/-- Nothing is read at a negative position, the wrapped input does not come short of bytes that it has already
given, and a block of it is whole or fails. -/
def LosesNothing (r : RipInputPlugin) : Call → Prop
  | .read len => (len = 0 ∨ 0 ≤ r.curpos) ∧
      (r.Rereads len → ∀ data ∈ (r.main_input_plugin.read (r.asks len).2).1, (r.asks len).1 ≤ data.length)
  | .readBlock todo => (todo = 0 ∨ 0 ≤ r.curpos) ∧
      (r.Rereads todo → ∀ data ∈ (r.main_input_plugin.read (r.asks todo).2).1,
        data.length = 0 ∨ data.length = (r.asks todo).2)
  | .seek offset origin _ => ∀ b ∈ r.main_input_plugin.blocksize,
      { r.main_input_plugin with pos := r.savepos.toNat }.WholeBlocks b
        ((r.newPosition offset origin - r.savepos + b - 1) / b).toNat

instance instDecidableLosesNothing (r : RipInputPlugin) : (c : Call) → Decidable (r.LosesNothing c)
  | .read _ => inferInstanceAs (Decidable ((_ ∨ _) ∧ (RipInputPlugin.Rereads _ _ → ∀ _ ∈ _, _ ≤ _)))
  | .readBlock _ => inferInstanceAs (Decidable ((_ ∨ _) ∧ (RipInputPlugin.Rereads _ _ → ∀ _ ∈ _, _ ∨ _)))
  | .seek _ _ _ => inferInstanceAs (Decidable (∀ _ ∈ _, InputPlugin.WholeBlocks _ _ _))

/-- What a read gives are the bytes of the wrapped input at the position, which advances by their number; a
read that fails does not move it. -/
def Delivered (src : List Byte) (r : RipInputPlugin) : Option Data × RipInputPlugin → Prop
  | (some data, t) => Result.Right src ⟨r.curpos, data, t.curpos⟩
  | (none, t) => t.curpos = r.curpos

/-- A call that reads delivers. -/
def Delivers (src : List Byte) (r : RipInputPlugin) : Call → Prop
  | .read len => Delivered src r (r.ripPluginRead len)
  | .readBlock todo => Delivered src r (r.ripPluginReadBlock todo)
  | .seek _ _ _ => True

/-! ## The invariant -/

/-- The plugin with a wrapped input of which the next reads come out so. -/
def withAnswers (r : RipInputPlugin) (answers : List (Option ℕ)) : RipInputPlugin :=
  { r with main_input_plugin := { r.main_input_plugin with answers } }

/-- The plugin with the file at a position, and a wrapped input that answers every read. -/
def steady (r : RipInputPlugin) (p : ℕ) : RipInputPlugin :=
  { r.withAnswers [] with file := { r.file with pos := p } }

/-- The plugin is good, whatever the reads to come; but a failed read may have left a regular file at its end. -/
def Held (src : List Byte) (r : RipInputPlugin) : Prop :=
  ∃ p, Good src (r.steady p) ∧ (r.file.pos = p ∨ r.regular = true ∧ (r.file.pos : ℤ) = r.savepos)

theorem Good.held (h : Good src r) (answers : List (Option ℕ)) : Held src (r.withAnswers answers) := by
  have hsame : (r.withAnswers answers).steady r.file.pos = r := by
    obtain ⟨⟨_, _, _, _, a⟩, _, _, _, _, _, _⟩ := r
    obtain rfl : a = [] := h.answers
    rfl
  exact ⟨r.file.pos, by rwa [hsame], Or.inl rfl⟩

/-- The outcome of a read: the plugin is held, and what has been read are the bytes at its position. -/
def Outcome (src : List Byte) (r : RipInputPlugin) : Option Data × RipInputPlugin → Prop
  | (some data, t) => Held src t ∧ (data.buf.length : ℤ) = data.retlen ∧ t.curpos = r.curpos + data.retlen ∧
      (0 ≤ r.curpos → data.buf = bytes src r.curpos.toNat data.buf.length)
  | (none, t) => Held src t ∧ t.curpos = r.curpos

/-! ## The wrapped input -/

theorem read_cases (m : InputPlugin) (n : ℕ) :
    (∃ answers, m.read n = (none, { m with answers })) ∨
      ∃ answers k, k ≤ n ∧ (bytes m.src m.pos k).length = k ∧
        m.read n = (some (bytes m.src m.pos k), { m with pos := m.pos + k, answers }) := by
  have htake : ∀ (k : ℕ) (answers : List (Option ℕ)), k ≤ n →
      ∃ k', k' ≤ n ∧ (bytes m.src m.pos k').length = k' ∧
        (some ({ m with answers }.take k).1, ({ m with answers }.take k).2) =
          (some (bytes m.src m.pos k'), { m with pos := m.pos + k', answers }) := by
    intro k answers hk
    refine ⟨(bytes m.src m.pos k).length, ?_, ?_, ?_⟩
    · rw [length_bytes]
      omega
    · rw [bytes_length]
    · rw [bytes_length]
      rfl
  obtain ⟨_, _, _, _, answers⟩ := m
  cases answers with
  | nil =>
    obtain ⟨k, hk⟩ := htake n [] le_rfl
    exact Or.inr ⟨[], k, hk⟩
  | cons answer answers =>
    cases answer with
    | none => exact Or.inl ⟨answers, rfl⟩
    | some k =>
      obtain ⟨k, hk⟩ := htake (min k n) answers (Nat.min_le_right _ _)
      exact Or.inr ⟨answers, k, hk⟩

/-! ## Reads -/

theorem finish_withAnswers {buf : List Byte} {retlen nread_orig npreview nread : ℤ} (hle : r.curpos ≤ r.savepos) :
    (r.withAnswers answers).finish buf retlen nread_orig npreview nread =
      ((r.finish buf retlen nread_orig npreview nread).1,
        (r.finish buf retlen nread_orig npreview nread).2.withAnswers answers) := by
  have hle' : (r.withAnswers answers).curpos ≤ (r.withAnswers answers).savepos := hle
  rcases lt_or_ge nread_orig retlen with hlt | hge
  · rw [finish_of_lt hlt hle, finish_of_lt hlt hle']
    rfl
  · rw [finish_of_le hge, finish_of_le hge]
    rfl

theorem fromFile_held (h : Good src (r.steady p)) (hs : Sizes (r.steady p) len np nr)
    (hfile : r.file.pos = p ∨ r.regular = true ∧ (r.file.pos : ℤ) = r.savepos)
    (hnf : nf = if r.regular then nr else 0) :
    r.fromFile nf = none ∨
      (r.file.pos = p ∨ nf = 0) ∧ r.fromFile nf = some (bytes src p nf, { r.file with pos := r.file.pos + nf }) := by
  rcases hfile with hfile | ⟨-, hend⟩
  · have hsame : (r.steady p).file = r.file := by
      change File.mk r.file.content p = r.file
      rw [← hfile]
    have hread := fromFile_eq h hs hnf
    unfold fromFile at hread
    rw [hsame, hfile] at hread
    refine Or.inr ⟨Or.inl hfile, ?_⟩
    rw [hfile]
    exact hread
  · rcases eq_or_ne nf 0 with rfl | hne
    · exact Or.inr ⟨Or.inr rfl, rfl⟩
    · -- nothing is left behind the end
      have hlength : r.file.content.length ≤ r.savepos.toNat := by
        have hcontent : r.file.content = src.take r.savepos.toNat := h.content
        rw [hcontent, List.length_take]
        omega
      refine Or.inl ?_
      unfold fromFile File.fread
      rw [if_pos (by omega), Int.toNat_natCast, if_neg (by omega)]

theorem file_pos_of_asks (h : Good src (r.steady p)) (hs : Sizes (r.steady p) len np nr)
    (hfile : r.file.pos = p ∨ r.regular = true ∧ (r.file.pos : ℤ) = r.savepos)
    (hnf : nf = if r.regular then nr else 0) (hno : no = if r.regular then 0 else nr)
    (hread : r.file.pos = p ∨ nf = 0) (hasks : 0 < no + (len - np - nr)) : r.file.pos = p := by
  rcases hfile with hfile | ⟨hreg, hend⟩
  · exact hfile
  · rcases hread with hread | rfl
    · exact hread
    · have hpos := h.file_pos
      change (p : ℤ) = if r.regular then max r.curpos r.preview_size else r.savepos at hpos
      rw [if_pos hreg] at hnf hno hpos
      have hrest := hs.rest (by omega)
      have hbehind := hs.behind (Or.inr (by omega))
      change r.curpos + np + nr = r.savepos at hrest
      change r.curpos + np = max r.curpos r.preview_size at hbehind
      omega

theorem fail_held (h : Good src (r.steady p)) (hs : Sizes (r.steady p) len np nr)
    (hnf : nf = if r.regular then nr else 0) (hno : no = if r.regular then 0 else nr)
    (hfile : r.file.pos = p) (hasks : 0 < no + (len - np - nr)) :
    Held src ({ r with file := { r.file with pos := r.file.pos + nf } }.withAnswers answers) := by
  refine ⟨p, h, ?_⟩
  change r.file.pos + nf = p ∨ r.regular = true ∧ ((r.file.pos + nf : ℕ) : ℤ) = r.savepos
  rcases eq_or_ne nf 0 with rfl | hne
  · exact Or.inl hfile
  · have hreg : r.regular = true := by
      by_contra hreg
      rw [if_neg hreg] at hnf
      exact hne hnf
    obtain ⟨-, -, -, hend⟩ := positions h hs hnf hno hasks
    rw [if_pos hreg] at hnf hno
    have hpos : ((p + nf : ℕ) : ℤ) = r.savepos := hend (by omega)
    rw [← hfile] at hpos
    exact Or.inr ⟨hreg, hpos⟩

theorem finish_outcome (h : Good src (r.steady p)) (hs : Sizes (r.steady p) len np nr) {k : ℕ}
    (hnf : nf = if r.regular then nr else 0) (hno : no = if r.regular then 0 else nr)
    (hfile : r.file.pos = p) (hasks : 0 < no + (len - np - nr)) (hle : no ≤ k) (hk : k ≤ no + (len - np - nr))
    (hlength : (bytes src r.main_input_plugin.pos k).length = k) :
    Outcome src r (RipInputPlugin.finish
      { r with
        file := { r.file with pos := r.file.pos + nf }
        main_input_plugin := { r.main_input_plugin with pos := r.main_input_plugin.pos + k, answers } }
      (r.fromPreview np ++ bytes src p nf ++ bytes src r.main_input_plugin.pos k) k no np nr) := by
  have hinside : r.main_input_plugin.pos + k ≤ src.length ∨ k = 0 := by
    rw [length_bytes] at hlength
    omega
  have hmain : (r.main_input_plugin.pos : ℤ) = r.curpos + np + nf := (positions h hs hnf hno hasks).2.2.1
  have hpos : r.main_input_plugin.pos + k ≤ src.length := by
    rcases hinside with hinside | rfl
    · exact hinside
    · obtain ⟨hsum, -, -, -⟩ := positions h hs hnf hno hasks
      have hupTo : r.curpos + np + nr ≤ r.savepos := hs.upTo
      have hsave : r.savepos ≤ src.length := h.savepos_le
      omega
  obtain ⟨t, ht, hreads⟩ := finish_reads h hs hnf hno hle hk hpos hasks
  have hsame : ({ r with
        file := { r.file with pos := r.file.pos + nf }
        main_input_plugin := { r.main_input_plugin with pos := r.main_input_plugin.pos + k, answers } } :
      RipInputPlugin) = ((r.steady p).received nf k).withAnswers answers := by
    rw [hfile]
    rfl
  have hcur : ((r.steady p).received nf k).curpos ≤ ((r.steady p).received nf k).savepos := h.curpos_le
  rw [hsame, finish_withAnswers hcur]
  change Outcome src r ((((r.steady p).received nf k).finish (buffer src (r.steady p) np nf k) k no np nr).1,
    (((r.steady p).received nf k).finish (buffer src (r.steady p) np nf k) k no np nr).2.withAnswers answers)
  rw [ht]
  exact ⟨hreads.good.held answers, hreads.length, hreads.curpos, hreads.buf⟩

theorem advance_outcome (h : Good src (r.steady p)) (hs : Sizes (r.steady p) len np nr)
    (hfile : r.file.pos = p ∨ r.regular = true ∧ (r.file.pos : ℤ) = r.savepos)
    (hnf : nf = if r.regular then nr else 0) (hno : 0 = if r.regular then 0 else nr)
    (hread : r.file.pos = p ∨ nf = 0) :
    Outcome src r (RipInputPlugin.advance { r with file := { r.file with pos := r.file.pos + nf } }
      (r.fromPreview np ++ bytes src p nf) (np + nr)) := by
  have hreads := advance_reads h hs hnf hno
  refine ⟨?_, hreads.length, hreads.curpos, hreads.buf⟩
  rcases hread with rfl | rfl
  · exact hreads.good.held r.main_input_plugin.answers
  · exact ⟨p, hreads.good, hfile⟩

theorem asks_eq (hs : Sizes (r.steady p) len np nr) (hno : ((if r.regular then 0 else (nr : ℤ)) = no))
    (hsum : (no : ℤ) + (len - np - nr) = (no + (len - np - nr) : ℕ)) :
    r.asks len = (no, no + (len - np - nr)) := by
  have hsizes : r.sizes len = (↑np, ↑nr) := hs.eq
  unfold asks
  rw [hsizes]
  dsimp only
  rw [hno, hsum, Int.toNat_natCast, Int.toNat_natCast]

theorem rereads_of_eq (hs : Sizes (r.steady p) len np nr) (hnf : (if r.regular then (nr : ℤ) else 0) = nf)
    {q : List Byte × File} (hread : r.fromFile nf = some q) : r.Rereads len := by
  have hsizes : r.sizes len = (↑np, ↑nr) := hs.eq
  unfold Rereads
  rw [hsizes]
  dsimp only
  rw [hnf, hread]
  rfl

theorem ripPluginRead_outcome (h : Held src r)
    (hlost : r.Rereads len → ∀ data ∈ (r.main_input_plugin.read (r.asks len).2).1, (r.asks len).1 ≤ data.length) :
    Outcome src r (r.ripPluginRead len) := by
  obtain ⟨p, hgood, hfile⟩ := h
  obtain ⟨np, nr, hs⟩ := exists_sizes hgood len
  obtain ⟨nf, no, hnf, hno, hnf', hno', hsum⟩ := exists_parts hs
  have hsizes : r.sizes len = (↑np, ↑nr) := hs.eq
  have hasks := asks_eq hs hno' hsum
  have hsle := hs.le
  obtain rfl : r.main_input_plugin.src = src := hgood.src_eq
  change (if r.regular then (nr : ℤ) else 0) = nf at hnf'
  change (if r.regular then 0 else (nr : ℤ)) = no at hno'
  rw [hasks] at hlost
  unfold ripPluginRead
  rw [hsizes]
  dsimp only
  rw [hnf', hno', hsum]
  rcases fromFile_held hgood hs hfile hnf with hnone | ⟨hread, hsome⟩
  · -- the file is at its end, and the call fails before it asks the wrapped input
    rw [hnone]
    exact ⟨⟨p, hgood, hfile⟩, rfl⟩
  · have hlost := hlost (rereads_of_eq hs hnf' hsome)
    rw [hsome]
    dsimp only
    by_cases hzero : no + (len - np - nr) = 0
    · -- the preview and the file have all bytes
      have hno0 : no = 0 := by omega
      rw [if_neg (by omega), show (np : ℤ) + nr + (len - np - nr) = np + nr by omega]
      exact advance_outcome hgood hs hfile hnf (hno0 ▸ hno) hread
    · have hpos : 0 < no + (len - np - nr) := Nat.pos_of_ne_zero hzero
      have hplace := file_pos_of_asks hgood hs hfile hnf hno hread hpos
      rw [if_pos (by omega), Int.toNat_natCast]
      rcases read_cases r.main_input_plugin (no + (len - np - nr)) with
        ⟨answers, hfail⟩ | ⟨answers, k, hk, hlength, hgives⟩
      · rw [hfail]
        exact ⟨fail_held hgood hs hnf hno hplace hpos, rfl⟩
      · -- no saved byte is missing, so that all that comes behind them is new
        rw [hgives] at hlost ⊢
        have hle : no ≤ k := hlength ▸ hlost _ rfl
        dsimp only
        rw [hlength]
        exact finish_outcome hgood hs hnf hno hplace hpos hle hk hlength

theorem readBlock_of_none {m' : InputPlugin} (h : m.read n = (none, m')) : m.readBlock n = (none, m') := by
  rw [InputPlugin.readBlock, h]

theorem readBlock_of_nil {m' : InputPlugin} (h : m.read n = (some [], m')) : m.readBlock n = (none, m') := by
  rw [InputPlugin.readBlock, h]

theorem readBlock_of_ne_nil {m' : InputPlugin} (hne : data ≠ []) (h : m.read n = (some data, m')) :
    m.readBlock n = (some data, m') := by
  rw [InputPlugin.readBlock, h]
  cases data with
  | nil => exact absurd rfl hne
  | cons a data => rfl

theorem ripPluginReadBlock_outcome (h : Held src r)
    (hlost : r.Rereads len → ∀ data ∈ (r.main_input_plugin.read (r.asks len).2).1,
      data.length = 0 ∨ data.length = (r.asks len).2) :
    Outcome src r (r.ripPluginReadBlock len) := by
  obtain ⟨p, hgood, hfile⟩ := h
  obtain ⟨np, nr, hs⟩ := exists_sizes hgood len
  obtain ⟨nf, no, hnf, hno, hnf', hno', hsum⟩ := exists_parts hs
  have hsizes : r.sizes len = (↑np, ↑nr) := hs.eq
  have hasks := asks_eq hs hno' hsum
  have hsle := hs.le
  obtain rfl : r.main_input_plugin.src = src := hgood.src_eq
  change (if r.regular then (nr : ℤ) else 0) = nf at hnf'
  change (if r.regular then 0 else (nr : ℤ)) = no at hno'
  rw [hasks] at hlost
  unfold ripPluginReadBlock
  rw [hsizes]
  dsimp only
  rw [hnf', hno', hsum]
  by_cases hlen : len = 0
  · rw [if_pos hlen]
    exact ⟨⟨p, hgood, hfile⟩, rfl⟩
  rw [if_neg hlen]
  rcases fromFile_held hgood hs hfile hnf with hnone | ⟨hread, hsome⟩
  · -- the file is at its end, and the call fails before it asks the wrapped input
    rw [hnone]
    exact ⟨⟨p, hgood, hfile⟩, rfl⟩
  · have hlost := hlost (rereads_of_eq hs hnf' hsome)
    rw [hsome]
    dsimp only
    by_cases hzero : no + (len - np - nr) = 0
    · -- the preview and the file have all bytes
      have hno0 : no = 0 := by omega
      rw [if_neg (by omega), show (np : ℤ) + nr + (len - np - nr) = np + nr by omega]
      exact advance_outcome hgood hs hfile hnf (hno0 ▸ hno) hread
    · have hpos : 0 < no + (len - np - nr) := Nat.pos_of_ne_zero hzero
      have hplace := file_pos_of_asks hgood hs hfile hnf hno hread hpos
      rw [if_pos (by omega), Int.toNat_natCast]
      rcases read_cases r.main_input_plugin (no + (len - np - nr)) with
        ⟨answers, hfail⟩ | ⟨answers, k, hk, hlength, hgives⟩
      · have hblock := readBlock_of_none hfail
        rw [hblock, hfail, ite_self]
        exact ⟨fail_held hgood hs hnf hno hplace hpos, rfl⟩
      · rw [hgives] at hlost
        rcases hlost _ rfl with hnil | hall
        · -- nothing comes, of either call
          obtain rfl : k = 0 := hlength.symm.trans hnil
          have hblock := readBlock_of_nil hgives
          have hheld := @fail_held _ r len np nr nf no p answers hgood hs hnf hno hplace hpos
          rw [hblock, hgives]
          split_ifs
          · dsimp only
            rw [if_pos (by rw [hnil]; omega)]
            exact ⟨hheld, rfl⟩
          · exact ⟨hheld, rfl⟩
        · -- the block is whole
          rw [hlength] at hall
          have hne : bytes r.main_input_plugin.src r.main_input_plugin.pos k ≠ [] := by
            intro hnil
            rw [hnil] at hlength
            exact hpos.ne (hlength.trans hall)
          have hblock := readBlock_of_ne_nil hne hgives
          rw [hblock, hgives, ite_self]
          dsimp only
          rw [hlength, if_neg (by omega)]
          exact finish_outcome hgood hs hnf hno hplace hpos (by omega) hk hlength

/-! ## Seeks -/

theorem ripSeekOriginal_steady {reqpos pos : ℤ} {main : InputPlugin} (p : ℕ)
    (h : r.main_input_plugin.seek reqpos back = some (pos, main)) :
    (r.steady p).ripSeekOriginal reqpos back =
      some (({ r with main_input_plugin := main, curpos := pos } : RipInputPlugin).steady p) := by
  unfold InputPlugin.seek at h
  unfold ripSeekOriginal InputPlugin.seek
  split_ifs at h with hneg hgranted
  · obtain ⟨rfl, rfl⟩ := Prod.mk.inj (Option.some.inj h)
    rw [if_neg hneg]
    exact congrArg (Option.map _) (if_pos hgranted)
  · obtain ⟨rfl, rfl⟩ := Prod.mk.inj (Option.some.inj h)
    rw [if_neg hneg]
    exact congrArg (Option.map _) (if_neg hgranted)

theorem seekBack_held (h : Held src r) (hnew : newpos < r.savepos) (hok : r.seekBack newpos back = some t) :
    Held src t := by
  obtain ⟨p, hgood, hfile⟩ := h
  -- the plugin with the file at its place makes the same seek
  have hsame : ∀ q, (r.steady p).seekBack newpos back = some (t.steady q) → Good src (t.steady q) := fun q hq =>
    seekBack_good hgood hnew hq
  rw [seekBack_eq] at hok hsame
  by_cases hreg : r.regular = true
  · have hreg' : (r.steady p).regular = true := hreg
    rw [if_pos hreg] at hok
    rw [if_pos hreg'] at hsame
    obtain ⟨file, hseek, rfl⟩ := Option.map_eq_some_iff.1 hok
    by_cases hne : r.requested newpos ≠ r.savepos
    · have hne' : (r.steady p).requested newpos ≠ (r.steady p).savepos := hne
      rw [if_pos hne] at hseek
      rw [if_pos hne'] at hsame
      obtain ⟨hle, hseek⟩ := Option.ite_none_right_eq_some.1 hseek
      cases hseek
      have hplace : (r.steady p).file.fseek ((r.steady p).requested newpos) =
          some ⟨r.file.content, (r.requested newpos).toNat⟩ := if_pos hle
      rw [hplace] at hsame
      exact ⟨(r.requested newpos).toNat, hsame _ rfl, Or.inl rfl⟩
    · -- the file is at its end, or should be
      have hne' : ¬(r.steady p).requested newpos ≠ (r.steady p).savepos := hne
      rw [if_neg hne] at hseek
      rw [if_neg hne'] at hsame
      cases hseek
      exact ⟨p, hsame _ rfl, hfile⟩
  · have hreg' : ¬(r.steady p).regular = true := hreg
    rw [if_neg hreg] at hok
    rw [if_neg hreg'] at hsame
    obtain ⟨u, hu, ht⟩ := Option.map_eq_some_iff.1 hok
    obtain ⟨⟨pos, main⟩, hseek, rfl⟩ := Option.map_eq_some_iff.1 hu
    have hplace : r.file.pos = p := hfile.resolve_right fun hend => hreg hend.1
    have hsteady := ripSeekOriginal_steady p hseek
    have hrequested : (r.steady p).requested newpos = r.requested newpos := rfl
    rw [hrequested, hsteady] at hsame
    dsimp only at ht
    by_cases hpos : pos = r.requested newpos
    · rw [if_pos hpos] at ht
      obtain rfl := ht
      refine ⟨p, hsame p ?_, Or.inl hplace⟩
      exact congrArg some (if_pos hpos)
    · rw [if_neg hpos] at ht
      obtain rfl := ht
      refine ⟨p, hsame p ?_, Or.inl hplace⟩
      exact congrArg some (if_neg hpos)

theorem seekEnd_held (h : Held src r) (hok : r.seekEnd back = some t) :
    Held src t ∧ t.curpos = t.savepos ∧ t.savepos = r.savepos ∧
      t.main_input_plugin = { r.main_input_plugin with pos := r.savepos.toNat } := by
  obtain ⟨p, hgood, hfile⟩ := h
  -- the position of the wrapped input is never behind `savepos`, so that it does not refuse
  have hmain := hgood.main_pos
  have hcur : r.curpos ≤ r.savepos := hgood.curpos_le
  have hpre : r.preview_size ≤ r.savepos := hgood.preview_size_le
  change (r.main_input_plugin.pos : ℤ) = if r.regular then r.savepos else max r.curpos r.preview_size at hmain
  have hsame : ∀ q, (r.steady p).seekEnd back = some (t.steady q) → Good src (t.steady q) := fun q hq =>
    seekEnd_good hgood hq
  unfold seekEnd at hok hsame
  by_cases hlt : r.curpos < r.savepos
  · have hlt' : (r.steady p).curpos < (r.steady p).savepos := hlt
    rw [if_pos hlt] at hok
    rw [if_pos hlt'] at hsame
    by_cases hreg : r.regular = true
    · have hreg' : (r.steady p).regular = true := hreg
      rw [if_pos hreg] at hok hmain
      rw [if_pos hreg'] at hsame
      obtain ⟨file, hseek, rfl⟩ := Option.map_eq_some_iff.1 hok
      obtain ⟨hle, hseek⟩ := Option.ite_none_right_eq_some.1 hseek
      cases hseek
      have hplace : (r.steady p).file.fseek (r.steady p).savepos =
          some ⟨r.file.content, r.savepos.toNat⟩ := if_pos hle
      rw [hplace] at hsame
      have hsaved : r.savepos.toNat = r.main_input_plugin.pos := by omega
      refine ⟨⟨r.savepos.toNat, hsame _ rfl, Or.inl rfl⟩, rfl, rfl, ?_⟩
      rw [hsaved]
    · have hreg' : ¬(r.steady p).regular = true := hreg
      rw [if_neg hreg] at hok hmain
      rw [if_neg hreg'] at hsame
      obtain ⟨⟨pos, main⟩, hseek, rfl⟩ := Option.map_eq_some_iff.1 hok
      have hsteady := ripSeekOriginal_steady p hseek
      have hsavepos : (r.steady p).savepos = r.savepos := rfl
      rw [hsavepos, hsteady] at hsame
      have hplace : r.file.pos = p := hfile.resolve_right fun hend => hreg hend.1
      obtain ⟨-, ⟨rfl, rfl⟩ | ⟨hback, -, -⟩⟩ := seek_cases hseek
      · exact ⟨⟨p, hsame p rfl, Or.inl hplace⟩, rfl, rfl, rfl⟩
      · omega
  · rw [if_neg hlt] at hok
    cases hok
    have hend : r.curpos = r.savepos := by omega
    have hsaved : r.savepos.toNat = r.main_input_plugin.pos := by
      split_ifs at hmain <;> omega
    refine ⟨⟨p, hgood, hfile⟩, hend, rfl, ?_⟩
    rw [hsaved]

theorem Held.preview_size_le (h : Held src r) : r.preview_size ≤ r.savepos := by
  obtain ⟨p, hgood, -⟩ := h
  exact hgood.preview_size_le

theorem sizes_end (hend : r.curpos = r.savepos) (hpre : r.preview_size ≤ r.savepos) (len : ℕ) :
    r.sizes len = (0, 0) := by
  unfold sizes
  rw [if_neg (by omega), hend, sub_self, min_eq_left (Int.natCast_nonneg len)]

theorem asks_end (hend : r.curpos = r.savepos) (hpre : r.preview_size ≤ r.savepos) (len : ℕ) :
    r.asks len = (0, len) := by
  unfold asks
  rw [sizes_end hend hpre, ite_self]
  dsimp only
  rw [sub_zero, sub_zero, zero_add, Int.toNat_natCast, Int.toNat_zero]

theorem finish_end {buf : List Byte} {retlen : ℤ} (hend : r.curpos = r.savepos) :
    (r.finish buf retlen 0 0 0).2.curpos = (r.finish buf retlen 0 0 0).2.savepos ∧
      (r.finish buf retlen 0 0 0).2.main_input_plugin = r.main_input_plugin ∧
      (0 ≤ retlen → (r.finish buf retlen 0 0 0).2.curpos = r.curpos + retlen) := by
  rcases lt_or_ge 0 retlen with hlt | hge
  · rw [finish_of_lt hlt hend.le]
    dsimp only
    refine ⟨by omega, rfl, fun _ => by omega⟩
  · rw [finish_of_le hge]
    dsimp only
    refine ⟨by omega, rfl, fun _ => by omega⟩

theorem read_blocksize {m' : InputPlugin} {data : Option (List Byte)} (h : m.read n = (data, m')) :
    m'.blocksize = m.blocksize := by
  rcases read_cases m n with ⟨answers, hfail⟩ | ⟨answers, k, -, -, hgives⟩
  · rw [hfail] at h
    exact (Prod.mk.inj h).2 ▸ rfl
  · rw [hgives] at h
    exact (Prod.mk.inj h).2 ▸ rfl

theorem ripPluginRead_end (hend : r.curpos = r.savepos) (hpre : r.preview_size ≤ r.savepos) {data : Data}
    (hok : r.ripPluginRead len = (some data, t)) :
    t.curpos = t.savepos ∧ t.main_input_plugin.blocksize = r.main_input_plugin.blocksize := by
  have hfile : r.fromFile 0 = some ([], r.file) := rfl
  unfold ripPluginRead at hok
  rw [sizes_end hend hpre] at hok
  dsimp only at hok
  rw [ite_self, hfile] at hok
  dsimp only at hok
  split_ifs at hok with hasks
  · cases hread : r.main_input_plugin.read (0 + ((len : ℤ) - 0 - 0)).toNat with
    | mk data main =>
      rw [hread] at hok
      cases data with
      | none => exact absurd (congrArg Prod.fst hok) nofun
      | some data =>
        dsimp only at hok
        obtain ⟨hcur, hmain, -⟩ := @finish_end { r with file := r.file, main_input_plugin := main }
          (r.fromPreview 0 ++ [] ++ data) data.length hend
        rw [hok] at hcur hmain
        refine ⟨hcur, ?_⟩
        rw [hmain, ← read_blocksize hread]
  · obtain ⟨-, rfl⟩ := Prod.mk.inj hok
    refine ⟨?_, rfl⟩
    dsimp only
    omega

theorem ripPluginReadBlock_end {b : ℕ} (hend : r.curpos = r.savepos) (hpre : r.preview_size ≤ r.savepos)
    {data : Data} (hok : r.ripPluginReadBlock b = (some data, t)) :
    t.curpos = t.savepos ∧ t.curpos = r.curpos + b ∧
      ∃ block, r.main_input_plugin.readBlock b = (some block, t.main_input_plugin) := by
  have hfile : r.fromFile 0 = some ([], r.file) := rfl
  have hn : (0 + ((b : ℤ) - 0 - 0)).toNat = b := by omega
  unfold ripPluginReadBlock at hok
  by_cases hb : b = 0
  · rw [if_pos hb] at hok
    exact absurd (congrArg Prod.fst hok) nofun
  rw [if_neg hb, sizes_end hend hpre] at hok
  dsimp only at hok
  rw [ite_self, hfile] at hok
  dsimp only at hok
  rw [if_pos (by omega), if_neg (by omega), hn] at hok
  cases hread : r.main_input_plugin.readBlock b with
  | mk block main =>
    rw [hread] at hok
    cases block with
    | none => exact absurd (congrArg Prod.fst hok) nofun
    | some block =>
      dsimp only at hok
      by_cases hlength : (block.length : ℤ) ≠ 0 + ((b : ℤ) - 0 - 0)
      · rw [if_pos hlength] at hok
        exact absurd (congrArg Prod.fst hok) nofun
      · rw [if_neg hlength] at hok
        obtain ⟨hcur, hmain, hpos⟩ := @finish_end { r with file := r.file, main_input_plugin := main }
          (r.fromPreview 0 ++ [] ++ block) block.length hend
        rw [hok] at hcur hmain hpos
        refine ⟨hcur, ?_, block, ?_⟩
        · have hpos := hpos (Int.natCast_nonneg _)
          change t.curpos = r.curpos + block.length at hpos
          omega
        · rw [hmain]

theorem block_end {b blocks : ℕ} (hend : r.curpos = r.savepos) (hpre : r.preview_size ≤ r.savepos)
    (hwhole : r.main_input_plugin.WholeBlocks b (blocks + 1)) :
    ∀ data ∈ (r.main_input_plugin.read (r.asks b).2).1, data.length = 0 ∨ data.length = (r.asks b).2 := by
  rw [asks_end hend hpre]
  intro data hdata
  cases hread : r.main_input_plugin.read b with
  | mk answer main =>
    rw [hread] at hdata
    obtain rfl : answer = some data := hdata
    rcases eq_or_ne data [] with rfl | hne
    · exact Or.inl rfl
    · have hblock := readBlock_of_ne_nil hne hread
      have hlength := hwhole data (by rw [hblock]; rfl)
      exact Or.inr hlength.1

theorem catchUp_blocks_held {b : ℕ} (h : Held src r) (hend : r.curpos = r.savepos)
    (hsize : r.main_input_plugin.blocksize = some b) (fuel blocks : ℕ) (hblocks : newpos - r.curpos ≤ blocks * b)
    (hwhole : r.main_input_plugin.WholeBlocks b blocks) : Held src (catchUp newpos fuel r).2 := by
  -- each turn reads one of the blocks at the end of what has been saved
  induction fuel generalizing r blocks with
  | zero => exact h
  | succ fuel ih =>
    unfold catchUp
    by_cases hlt : r.curpos < newpos
    · rw [if_pos hlt, hsize]
      obtain ⟨blocks, rfl⟩ : ∃ k, blocks = k + 1 := by
        refine Nat.exists_eq_succ_of_ne_zero ?_
        rintro rfl
        rw [Nat.cast_zero, zero_mul] at hblocks
        omega
      have hpre := h.preview_size_le
      have houtcome := ripPluginReadBlock_outcome h fun _ => block_end hend hpre hwhole
      dsimp only
      cases hread : r.ripPluginReadBlock b with
      | mk data t =>
        rw [hread] at houtcome
        cases data with
        | none => exact houtcome.1
        | some data =>
          obtain ⟨hend', hcur, block, hblock⟩ := ripPluginReadBlock_end hend hpre hread
          have hnext := hwhole block (by rw [hblock]; rfl)
          rw [hblock] at hnext
          refine ih houtcome.1 hend' ?_ blocks ?_ hnext.2
          · rw [← hsize]
            exact read_blocksize (read_of_readBlock hblock)
          · have hsplit : ((blocks + 1 : ℕ) : ℤ) * b = blocks * b + b := by
              rw [Nat.cast_add, Nat.cast_one, add_mul, one_mul]
            rw [hsplit] at hblocks
            omega
    · rw [if_neg hlt]
      exact h

theorem catchUp_no_block (hsize : r.main_input_plugin.blocksize = some 0) (fuel : ℕ) :
    (catchUp newpos fuel r).2 = r := by
  cases fuel with
  | zero => rfl
  | succ fuel =>
    unfold catchUp
    by_cases hlt : r.curpos < newpos
    · rw [if_pos hlt, hsize]
      rfl
    · rw [if_neg hlt]

theorem catchUp_bytes_held (h : Held src r) (hend : r.curpos = r.savepos)
    (hsize : r.main_input_plugin.blocksize = none) (fuel : ℕ) : Held src (catchUp newpos fuel r).2 := by
  induction fuel generalizing r with
  | zero => exact h
  | succ fuel ih =>
    unfold catchUp
    by_cases hlt : r.curpos < newpos
    · rw [if_pos hlt, hsize]
      have hpre := h.preview_size_le
      -- there is nothing to be read once more at the end
      have houtcome := @ripPluginRead_outcome src r (min (newpos - r.curpos).toNat scratchSize) h (by
        rw [asks_end hend hpre]
        exact fun _ data _ => Nat.zero_le _)
      dsimp only
      cases hread : r.ripPluginRead (min (newpos - r.curpos).toNat scratchSize) with
      | mk data t =>
        rw [hread] at houtcome
        cases data with
        | none => exact houtcome.1
        | some data =>
          obtain ⟨hend', hsize'⟩ := ripPluginRead_end hend hpre hread
          dsimp only
          split_ifs
          · exact houtcome.1
          · exact ih houtcome.1 hend' (hsize'.trans hsize)
    · rw [if_neg hlt]
      exact h

theorem le_blocks {b : ℕ} (hb : b ≠ 0) (x : ℤ) : x ≤ ((x + b - 1) / b).toNat * b := by
  have hpos : (0 : ℤ) < b := by omega
  have hlt := Int.lt_ediv_add_one_mul_self (x + b - 1) hpos
  have hle := Int.self_le_toNat ((x + b - 1) / b)
  have hmul := Int.mul_le_mul_of_nonneg_right hle hpos.le
  rw [add_mul, one_mul] at hlt
  omega

theorem ripPluginSeek_held (h : Held src r) {offset : ℤ} {origin : Origin}
    (hwhole : r.LosesNothing (.seek offset origin back)) : Held src (r.ripPluginSeek offset origin back).2 := by
  unfold ripPluginSeek
  dsimp only
  by_cases hnew : r.newPosition offset origin < r.savepos
  · rw [if_pos hnew]
    cases hback : r.seekBack (r.newPosition offset origin) back with
    | none => exact h
    | some t => exact seekBack_held h hnew hback
  · rw [if_neg hnew]
    cases hend : r.seekEnd back with
    | none => exact h
    | some t =>
      obtain ⟨hheld, hcur, hsave, hmain⟩ := seekEnd_held h hend
      dsimp only
      cases hsize : r.main_input_plugin.blocksize with
      | none =>
        refine catchUp_bytes_held hheld hcur ?_ _
        rw [hmain]
        exact hsize
      | some b =>
        have hblocks := hwhole b hsize
        rw [← hmain] at hblocks
        rcases eq_or_ne b 0 with rfl | hb
        · rw [catchUp_no_block (by rw [hmain]; exact hsize)]
          exact hheld
        · refine catchUp_blocks_held hheld hcur ?_ _ _ ?_ hblocks
          · rw [hmain]
            exact hsize
          · rw [hcur, hsave]
            exact le_blocks hb _

/-! ## Runs -/

theorem ripPluginGetInstance_held {regular : Bool} {around : ℤ → Byte} (hpos : m.pos = 0)
    (h : ripPluginGetInstance m regular around = some r) : Held m.src r := by
  unfold ripPluginGetInstance at h
  by_cases hseekable : m.seekable = true
  · rw [if_pos hseekable] at h
    cases h
    exact (@good_seekable { m with answers := [] } hpos rfl regular).held m.answers
  · rw [if_neg hseekable] at h
    split at h
    · cases h
    · rename_i data main hread
      obtain ⟨n, hn⟩ : ∃ n, m.read n = (some data, main) := by
        split at hread
        · exact ⟨_, read_of_readBlock hread⟩
        · exact ⟨_, hread⟩
      rcases read_cases m n with ⟨answers, hfail⟩ | ⟨answers, k, -, hlength, hgives⟩
      · rw [hfail] at hn
        exact absurd (congrArg Prod.fst hn) nofun
      · rw [hgives, hpos] at hn
        rw [hpos] at hlength
        obtain ⟨hdata, rfl⟩ := Prod.mk.inj hn
        cases hdata
        cases h
        have hplace : 0 + k = (bytes m.src 0 k).length := by rw [hlength, Nat.zero_add]
        exact (@good_preview { m with pos := 0 + k, answers := [] } rfl k regular around hplace).held answers

theorem Outcome.held {out : Option Data × RipInputPlugin} (h : Outcome src r out) : Held src out.2 := by
  match out, h with
  | (some _, _), h => exact h.1
  | (none, _), h => exact h.1

theorem Outcome.delivered {out : Option Data × RipInputPlugin} (h : Outcome src r out)
    (hpos : 0 ≤ r.curpos ∨ ∀ data, out.1 = some data → data.buf = []) : Delivered src r out := by
  match out, h with
  | (some data, t), h =>
    obtain ⟨-, hlength, hcur, hbuf⟩ := h
    refine ⟨hlength, hcur, ?_⟩
    rcases hpos with hpos | hnil
    · exact Or.inr ⟨hpos, hbuf hpos⟩
    · exact Or.inl (hnil data rfl)
  | (none, t), h => exact h.2

theorem ripPluginRead_zero (h : Held src r) {data : Data} (hok : (r.ripPluginRead 0).1 = some data) :
    data.buf = [] := by
  obtain ⟨p, hgood, -⟩ := h
  obtain ⟨np, nr, hs⟩ := exists_sizes hgood 0
  have hle := hs.le
  obtain ⟨rfl, rfl⟩ : np = 0 ∧ nr = 0 := by omega
  have hsizes : r.sizes 0 = (0, 0) := hs.eq
  have hfile : r.fromFile 0 = some ([], r.file) := rfl
  have hpreview : r.fromPreview 0 = [] := by
    unfold fromPreview
    cases r.preview <;> rfl
  unfold ripPluginRead at hok
  rw [hsizes] at hok
  dsimp only at hok
  rw [ite_self, hfile] at hok
  dsimp only at hok
  rw [if_neg (by decide), hpreview] at hok
  cases hok
  rfl

theorem call_held (h : Held src r) {c : Call} (hok : r.LosesNothing c) : Held src (r.call c) := by
  cases c with
  | read len => exact (ripPluginRead_outcome h hok.2).held
  | readBlock todo => exact (ripPluginReadBlock_outcome h hok.2).held
  | seek offset origin back => exact ripPluginSeek_held h hok

theorem call_delivers (h : Held src r) {c : Call} (hok : r.LosesNothing c) : r.Delivers src c := by
  cases c with
  | read len =>
    refine (ripPluginRead_outcome h hok.2).delivered ?_
    rcases hok.1 with rfl | hpos
    · exact Or.inr fun data hdata => ripPluginRead_zero h hdata
    · exact Or.inl hpos
  | readBlock todo =>
    refine (ripPluginReadBlock_outcome h hok.2).delivered ?_
    rcases hok.1 with rfl | hpos
    · exact Or.inr fun data hdata => absurd hdata nofun
    · exact Or.inl hpos
  | seek offset origin back => trivial

end RipInputPlugin

/-- In every run whose calls lose nothing, whatever reads of the wrapped input fail or come short, every read
delivers, and the file has what has been saved. -/
theorem rip_reads_survive {regular : Bool} {around : ℤ → Byte} (before : List Call) (c : Call) (after : List Call)
    (hpos : m.pos = 0) (hr : RipInputPlugin.ripPluginGetInstance m regular around = some r)
    (hok : Runs.Guarded calls RipInputPlugin.LosesNothing r (before ++ c :: after)) :
    ∃ t, Runs.run calls r before = some t ∧ t.Delivers m.src c ∧ t.file.content = m.src.take t.savepos.toNat := by
  refine @Runs.guarded_calls _ _ calls RipInputPlugin.LosesNothing
    (fun t c => t.Delivers m.src c ∧ t.file.content = m.src.take t.savepos.toNat) (RipInputPlugin.Held m.src)
    ?_ ?_ r before c after (RipInputPlugin.ripPluginGetInstance_held hpos hr) hok
  · intro t c ht hc
    exact ⟨t.call c, rfl, RipInputPlugin.call_held ht hc⟩
  · intro t c ht hc
    have hdelivers := RipInputPlugin.call_delivers ht hc
    obtain ⟨p, hgood, -⟩ := ht
    exact ⟨hdelivers, hgood.content⟩

/-- The small input, with a read that fails behind the preview and one that comes short. -/
def faultyInput : InputPlugin := { smallInput with answers := [some 3, none, some 1] }

/-- An instance for it. -/
def faultyRip : RipInputPlugin := smallRip.withAnswers [none, some 1]

theorem rip_reads_survive_faulty : ∃ t, Runs.run calls faultyRip [.read 1, .readBlock 4, .read 4] = some t ∧
    t.Delivers faultyInput.src (.read 3) ∧ t.file.content = faultyInput.src.take t.savepos.toNat :=
  @rip_reads_survive faultyRip faultyInput true (fun _ => 0xff) [.read 1, .readBlock 4, .read 4] (.read 3) [] rfl
    rfl (by decide)

/-- A seekable input that gives two bytes of its first block. -/
def shortInput : InputPlugin := ⟨[1, 2, 3, 4, 5, 6, 7, 8], 0, true, some 4, [some 2]⟩

/-- The two bytes are lost, and the next block has those behind them. -/
theorem short_block_is_lost :
    ∃ r t, RipInputPlugin.ripPluginGetInstance shortInput true (fun _ => 0xff) = some r ∧
      Runs.run calls r [.readBlock 4] = some t ∧ t.curpos = 0 ∧
      (t.ripPluginReadBlock 4).1.map Data.buf = some [3, 4, 5, 6] ∧ ¬t.Delivers shortInput.src (.readBlock 4) := by
  refine ⟨_, _, rfl, rfl, rfl, rfl, fun h => ?_⟩
  obtain hnil | ⟨-, hbuf⟩ := h.bytes
  · exact absurd hnil (by decide)
  · exact absurd hbuf (by decide)

end Xine.Rip
