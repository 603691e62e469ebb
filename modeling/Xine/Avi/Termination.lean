import Xine.Avi.Growth
import Xine.Avi.Init

/-!
# The loops over the chunks of an AVI file

The header scan, the interpretation of the header list, and the loop of `idx_grow` each go on by the size of a
chunk. A size is a signed number, so that a chunk may lead back, or to where it is.
-/

namespace Xine.Avi

open Spans Walks

theorem padEven_nonpos_iff {x : ℤ} : padEven x ≤ 0 ↔ x ≤ 0 := by
  unfold padEven
  omega

theorem length_read {input : Input} {n : ℕ} (hn : 0 < n) (h : (input.read n).1.length = n) :
    (input.read n).2.pos = input.pos + n ∧ input.pos + n ≤ input.src.length := by
  have hpos : (input.read n).2.pos = input.pos + (input.read n).1.length := rfl
  refine ⟨hpos.trans (by rw [h]), ?_⟩
  unfold Input.read at h
  rw [List.length_take, List.length_drop] at h
  omega

namespace AviSource

variable {src : AviSource} {s t : Scan} {input : Input} {pos n : ℤ}

/-! ## The header scan -/

/-- The padded size of the chunk that an iteration of the scan comes to. -/
def scanSize (src : AviSource) (s : Scan) : ℤ :=
  padEven (str2ulong ((Input.read ⟨src.bytes, s.pos⟩ 8).1.drop 4))

theorem skip_eq (input : Input) (n : ℤ) :
    skip input n = if input.pos + n < 0 then input.pos else input.pos + n := by
  unfold skip Input.seek
  split_ifs <;> rfl

/-- A header list is not longer than the size of its chunk. -/
def Bounded (s : Scan) : Prop := ∀ list ∈ s.hdrl_data, list.2 ≤ 2 ^ 31

/-- Where an iteration that has read up to a position goes on: behind `n` bytes, or where it is if this is
in front of the file. -/
def GoesOn (s t : Scan) (pos n : ℤ) : Prop :=
  (t.pos = pos + n ∧ 0 ≤ t.pos ∨ pos + n < 0 ∧ pos ≤ t.pos ∧ t.pos ≤ pos + 4) ∧ (Bounded s → Bounded t)

theorem goesOn_skip {read : ℤ} (hread : 0 ≤ read) (hread' : read ≤ 4) (hpos : input.pos = pos + read) :
    GoesOn s { s with pos := skip input (n - read) } pos n := by
  refine ⟨?_, id⟩
  dsimp only
  rw [skip_eq]
  split_ifs <;> omega

theorem alloc_nonneg (h : src.alloc n = true) : 0 ≤ n :=
  of_decide_eq_true (Bool.and_eq_true_iff.1 h).1

theorem scanList_goesOn (hpos : 0 ≤ input.pos) (hn : n ≤ 2 ^ 31)
    (h : src.scanList s input n = .next t) : GoesOn s t input.pos n := by
  unfold scanList at h
  dsimp only at h
  split_ifs at h with hdata hhdrl halloc hlength hstop
  · obtain rfl := Scanned.next.inj h
    have hread := (length_read (by decide) (not_not.1 hdata)).1
    have hnonneg := alloc_nonneg halloc
    have hbehind : (((input.read 4).2.read (n - 4).toNat).2.pos : ℤ) = (input.read 4).2.pos + (n - 4) :=
      congrArg ((input.read 4).2.pos + ·) (not_not.1 hlength)
    refine ⟨.inl ?_, fun _ list hlist => ?_⟩
    · dsimp only
      omega
    · cases hlist
      dsimp only
      omega
  · obtain rfl := Scanned.next.inj h
    have hread := (length_read (by decide) (not_not.1 hdata)).1
    exact goesOn_skip (by decide) (by decide) hread

theorem scanIndex_goesOn (hpos : 0 ≤ input.pos) (h : src.scanIndex s input n = .next t) :
    GoesOn s t input.pos n := by
  unfold scanIndex at h
  dsimp only at h
  split_ifs at h with halloc hlength
  obtain rfl := Scanned.next.inj h
  have hnonneg := alloc_nonneg halloc
  have hbehind : (input.read n.toNat).2.pos = input.pos + n :=
    congrArg (input.pos + ·) (not_not.1 hlength)
  refine ⟨.inl ⟨hbehind, ?_⟩, id⟩
  exact hbehind ▸ add_nonneg hpos hnonneg

theorem scan_eq_some : src.scan s = some t ↔ src.scanRound s = .next t := by
  unfold scan
  cases src.scanRound s <;> simp

theorem scan_goesOn (hpos : 0 ≤ s.pos) (h : src.scan s = some t) :
    s.pos + 8 ≤ src.bytes.length ∧ GoesOn s t (s.pos + 8) (src.scanSize s) := by
  rw [scan_eq_some] at h
  unfold scanRound at h
  dsimp only at h
  split_ifs at h with hdata hlist hindex
  all_goals
    obtain ⟨hread, hle⟩ := length_read (by decide) (not_not.1 hdata)
    refine ⟨hle, hread ▸ ?_⟩
    have hpos' : 0 ≤ (Input.read ⟨src.bytes, s.pos⟩ 8).2.pos := by
      rw [hread]
      dsimp only
      omega
  · exact scanList_goesOn hpos' (padEven_str2ulong_mem _).2 h
  · exact scanIndex_goesOn hpos' h
  · obtain rfl := Scanned.next.inj h
    have hgoes := @goesOn_skip s (Input.read ⟨src.bytes, s.pos⟩ 8).2 _ (src.scanSize s) 0 le_rfl (by decide)
      (add_zero _).symm
    rwa [sub_zero] at hgoes

/-- The chunk behind which the scan goes on does not lead back. -/
def ScanForward (src : AviSource) (s : Scan) : Prop :=
  (src.scan s).isSome → src.scanSize s ≤ -8 → s.pos + 8 + src.scanSize s < 0

theorem scan_lt_iff (hpos : 0 ≤ s.pos) (h : src.scan s = some t) : s.pos < t.pos ↔ src.ScanForward s := by
  have hsome : (src.scan s).isSome := by rw [h]; rfl
  obtain ⟨-, hgoes, -⟩ := scan_goesOn hpos h
  unfold ScanForward
  rw [imp_iff_right hsome]
  omega

theorem reaches_scan (hpos : 0 ≤ s.pos) (hbounded : Bounded s) (h : Reaches src.scan s t) :
    0 ≤ t.pos ∧ Bounded t := by
  refine h.invariant (I := fun t => 0 ≤ t.pos ∧ Bounded t) ⟨hpos, hbounded⟩ ?_
  rintro t - ⟨hpos, hbounded⟩ u hu
  obtain ⟨-, hgoes, hkeeps⟩ := scan_goesOn hpos hu
  exact ⟨by omega, hkeeps hbounded⟩

theorem scan_le (hpos : 0 ≤ s.pos) (h : src.scan s = some t) : t.pos ≤ src.bytes.length + 2 ^ 31 + 4 := by
  obtain ⟨hle, hgoes, -⟩ := scan_goesOn hpos h
  have hsize : src.scanSize s ≤ 2 ^ 31 := (padEven_str2ulong_mem _).2
  omega

theorem scan_advances_iff (hpos : 0 ≤ s.pos) (hbounded : Bounded s) :
    (Ends src.scan s ∧ Advances src.scan Scan.pos s) ↔ ∀ t, Reaches src.scan s t → src.ScanForward t := by
  constructor
  · rintro ⟨-, hadvances⟩ t ht hsome
    obtain ⟨u, hu⟩ := Option.isSome_iff_exists.1 hsome
    exact (scan_lt_iff (reaches_scan hpos hbounded ht).1 hu).1 (hadvances t ht u hu) hsome
  · intro hall
    have hadvances : Advances src.scan Scan.pos s := fun t ht u hu =>
      (scan_lt_iff (reaches_scan hpos hbounded ht).1 hu).2 (hall t ht)
    exact ⟨hadvances.ends fun t ht u hu => scan_le (reaches_scan hpos hbounded ht).1 hu, hadvances⟩

theorem scanStart_spec (h : src.scanStart = some s) : 0 ≤ s.pos ∧ Bounded s := by
  unfold scanStart at h
  dsimp only at h
  split_ifs at h
  cases h
  refine ⟨?_, fun list hlist => nomatch hlist⟩
  unfold Input.read
  dsimp only
  omega

/-- The header list that is interpreted: that of where the scan stops, if there is one. -/
def interprets (src : AviSource) (s : Scan) : Option HeaderList :=
  match src.scanRound s with
  | .stop => s.hdrl_data.map fun list => src.headerList list.1 list.2
  | _ => none

theorem hdrl_len_lt {l : HeaderList} (h : Bounded s) (hl : src.interprets s = some l) :
    l.hdrl_len < 2 ^ 63 := by
  unfold interprets at hl
  split at hl
  · obtain ⟨list, hlist, rfl⟩ := Option.map_eq_some_iff.1 hl
    have hle := h list hlist
    unfold headerList
    dsimp only
    omega
  · exact absurd hl (Option.some_ne_none l).symm

/-- The loops of `AVI_init` end and go forward, and what is read of the header list is in it. -/
def InitSound (src : AviSource) : Prop :=
  ∀ s ∈ src.scanStart, (Ends src.scan s ∧ Advances src.scan Scan.pos s) ∧
    ∀ t, Reaches src.scan s t → ∀ l ∈ src.interprets t, l.Sound

/-- No chunk of the file leads back, and the header list is whole. -/
def InitFits (src : AviSource) : Prop :=
  ∀ s ∈ src.scanStart, (∀ t, Reaches src.scan s t → src.ScanForward t) ∧
    ∀ t, Reaches src.scan s t → ∀ l ∈ src.interprets t, l.Whole

theorem initSound_iff : src.InitSound ↔ src.InitFits := by
  refine forall₂_congr fun s hs => ?_
  obtain ⟨hpos, hbounded⟩ := scanStart_spec hs
  refine and_congr (scan_advances_iff hpos hbounded) ?_
  refine forall₂_congr fun t ht => forall₂_congr fun l hl => ?_
  exact HeaderList.sound_iff_whole (hdrl_len_lt (reaches_scan hpos hbounded ht).2 hl)

end AviSource

/-! ## The chunk loop of `idx_grow` -/

variable {stopper : DemuxAvi → ℤ} {this : DemuxAvi} {g g' : DemuxAvi × ℤ} {rounds : ℕ} {savepos : ℤ}

/-- A round of `idx_grow`, for as long as the loop goes on, as a walk on the demuxer and the offset of the
current tag. -/
def growStep (stopper : DemuxAvi → ℤ) (g : DemuxAvi × ℤ) : Option (DemuxAvi × ℤ) :=
  if stopper g.1 < 0 then (idxGrowRound g.1 g.2).2.map ((idxGrowRound g.1 g.2).1, ·) else none

theorem isSome_idxGrowLoop :
    (idxGrowLoop stopper savepos rounds g.1 g.2).isSome ↔ after (growStep stopper) rounds g = none := by
  induction rounds generalizing g with
  | zero => exact iff_of_false Bool.false_ne_true (Option.some_ne_none g)
  | succ rounds ih =>
    unfold idxGrowLoop after growStep
    dsimp only
    by_cases hstop : stopper g.1 < 0
    · rw [if_pos hstop, if_pos hstop]
      cases hround : idxGrowRound g.1 g.2 with
      | mk next cur =>
        cases cur with
        | none => exact iff_of_true rfl rfl
        | some cur => exact @ih (next, cur)
    · rw [if_neg hstop, if_neg hstop]
      exact iff_of_true rfl rfl

/-- The chunk that a round comes to. -/
def growData (this : DemuxAvi) : List Byte := (this.input.read 8).1

/-- The padded size of the chunk with its header. -/
def growSize (this : DemuxAvi) : ℤ := padEven (str2ulong ((growData this).drop 4) + 8)

theorem read_nonneg {input : Input} {n : ℕ} (h : 0 ≤ input.pos) : 0 ≤ (input.read n).2.pos :=
  add_nonneg h (Int.natCast_nonneg _)

theorem growVideo_nonneg {data : List Byte} {cur n : ℤ} {d d' : DemuxAvi} (hpos : 0 ≤ d.input.pos)
    (h : d.growVideo data cur n = some d') : 0 ≤ d'.input.pos := by
  unfold DemuxAvi.growVideo at h
  dsimp only at h
  split_ifs at h with htag hdata htype
  · cases h
    exact read_nonneg (read_nonneg hpos)
  · cases h
    exact read_nonneg hpos
  · cases h
    exact hpos

/-- The input is at the next tag, unless this is in front of the file. -/
def Placed (d : DemuxAvi) : Prop :=
  0 ≤ d.input.pos ∧ (d.input.pos = d.nexttagoffset ∨ d.nexttagoffset < 0)

theorem placed_seek {d : DemuxAvi} (hpos : 0 ≤ d.input.pos) :
    Placed { d with input := (d.input.seek d.nexttagoffset).2 } := by
  unfold Placed Input.seek
  dsimp only
  split_ifs with h
  · exact ⟨hpos, .inr h⟩
  · exact ⟨not_lt.1 h, .inl rfl⟩

theorem growStep_spec (hpos : 0 ≤ g.1.input.pos) (h : growStep stopper g = some g') :
    g.1.input.pos + 8 ≤ g.1.input.src.length ∧ g'.1.input.src = g.1.input.src ∧ Placed g'.1 ∧
      g'.1.nexttagoffset =
        if isList ((growData g.1).take 4) then g.1.input.pos + 12 else g.1.nexttagoffset + growSize g.1 := by
  unfold growStep at h
  obtain ⟨-, h⟩ := Option.ite_none_right_eq_some.1 h
  obtain ⟨cur, hcur, rfl⟩ := Option.map_eq_some_iff.1 h
  clear h
  unfold growData growSize
  unfold idxGrowRound at hcur ⊢
  dsimp only at hcur ⊢
  split_ifs at hcur ⊢ with hdata hlist
  · obtain ⟨hread, hle⟩ := length_read (by decide) (not_not.1 hdata)
    have hseek : (g.1.input.read 8).2.seek ((g.1.input.read 8).2.pos + 4) =
        (g.1.input.pos + 12, { (g.1.input.read 8).2 with pos := g.1.input.pos + 12 }) := by
      have hsum : g.1.input.pos + (8 : ℕ) + 4 = g.1.input.pos + 12 := add_assoc _ _ _
      rw [hread, hsum]
      unfold Input.seek
      rw [if_neg (by omega)]
    rw [hseek]
    exact ⟨hle, rfl, ⟨by dsimp only; omega, .inl rfl⟩, rfl⟩
  · obtain ⟨hread, hle⟩ := length_read (by decide) (not_not.1 hdata)
    split at hcur
    · exact absurd hcur (Option.some_ne_none cur).symm
    · rename_i d' hgrow
      obtain ⟨hsrc, hnext, -⟩ := growVideo_spec hgrow
      have hpos' := growVideo_nonneg (by dsimp only; exact read_nonneg hpos) hgrow
      exact ⟨hle, (seek_src _ _).trans hsrc, placed_seek hpos', hnext⟩

/-- The chunk behind which the loop goes on, if it is not a list, is not of a size that leads back. -/
def GrowForward (stopper : DemuxAvi → ℤ) (g : DemuxAvi × ℤ) : Prop :=
  (growStep stopper g).isSome → isList ((growData g.1).take 4) = false →
    -8 < str2ulong ((growData g.1).drop 4)

theorem growStep_lt_iff (hplaced : Placed g.1) (h : growStep stopper g = some g') :
    g.1.nexttagoffset < g'.1.nexttagoffset ↔ GrowForward stopper g := by
  have hsome : (growStep stopper g).isSome := by rw [h]; rfl
  obtain ⟨hpos, hnext⟩ := hplaced
  obtain ⟨-, -, -, hnext'⟩ := growStep_spec hpos h
  have hsize := @padEven_nonpos_iff (str2ulong ((growData g.1).drop 4) + 8)
  unfold growSize at hnext'
  unfold GrowForward
  rw [imp_iff_right hsome]
  cases hlist : isList ((growData g.1).take 4) with
  | true =>
    rw [hlist, if_pos rfl] at hnext'
    exact iff_of_true (by omega) fun hfalse => nomatch hfalse
  | false =>
    rw [hlist, if_neg Bool.false_ne_true] at hnext'
    rw [imp_iff_right rfl]
    omega

theorem reaches_growStep (hplaced : Placed g.1) (h : Reaches (growStep stopper) g g') :
    Placed g'.1 ∧ g'.1.input.src = g.1.input.src := by
  refine h.invariant (I := fun t => Placed t.1 ∧ t.1.input.src = g.1.input.src) ⟨hplaced, rfl⟩ ?_
  rintro t - ⟨ht, hsrc⟩ u hu
  obtain ⟨-, hsrc', hplaced', -⟩ := growStep_spec ht.1 hu
  exact ⟨hplaced', hsrc'.trans hsrc⟩

theorem growStep_le (hplaced : Placed g.1) (h : growStep stopper g = some g') :
    g'.1.nexttagoffset ≤ g.1.input.src.length + 2 ^ 31 + 8 := by
  obtain ⟨hpos, hnext⟩ := hplaced
  obtain ⟨hle, -, -, hnext'⟩ := growStep_spec hpos h
  have hmem := str2ulong_mem ((growData g.1).drop 4)
  have hsize : growSize g.1 ≤ 2 ^ 31 + 8 := by
    unfold growSize padEven
    omega
  split_ifs at hnext' <;> omega

/-- Where a call of `idx_grow` starts. -/
def growStart (this : DemuxAvi) : DemuxAvi × ℤ :=
  ({ this with input := (this.input.seek this.nexttagoffset).2 }, this.nexttagoffset)

/-- A call of `idx_grow` comes to a result, and each of its rounds moves the next tag forward. -/
def GrowSound (stopper : DemuxAvi → ℤ) (this : DemuxAvi) : Prop :=
  (∃ rounds, (idxGrow stopper rounds this).isSome) ∧
    Advances (growStep stopper) (fun g => g.1.nexttagoffset) (growStart this)

/-- No chunk that a call of `idx_grow` comes to leads back. -/
def GrowFits (stopper : DemuxAvi → ℤ) (this : DemuxAvi) : Prop :=
  ∀ g, Reaches (growStep stopper) (growStart this) g → GrowForward stopper g

theorem growSound_iff (hpos : 0 ≤ this.input.pos) : GrowSound stopper this ↔ GrowFits stopper this := by
  have hplaced : Placed (growStart this).1 := placed_seek hpos
  constructor
  · rintro ⟨-, hadvances⟩ g hg hsome
    obtain ⟨g', hg'⟩ := Option.isSome_iff_exists.1 hsome
    exact (growStep_lt_iff (reaches_growStep hplaced hg).1 hg').1 (hadvances g hg g' hg') hsome
  · intro hall
    have hadvances : Advances (growStep stopper) (fun g => g.1.nexttagoffset) (growStart this) :=
      fun g hg g' hg' => (growStep_lt_iff (reaches_growStep hplaced hg).1 hg').2 (hall g hg)
    have hbound : ∀ g, Reaches (growStep stopper) (growStart this) g → ∀ g', growStep stopper g = some g' →
        g'.1.nexttagoffset ≤ (growStart this).1.input.src.length + 2 ^ 31 + 8 := by
      intro g hg g' hg'
      obtain ⟨hplaced', hsrc⟩ := reaches_growStep hplaced hg
      exact hsrc ▸ growStep_le hplaced' hg'
    obtain ⟨rounds, hrounds⟩ := hadvances.ends hbound
    exact ⟨⟨rounds, isSome_idxGrowLoop.2 hrounds⟩, hadvances⟩

/-- The loops over the chunks end, go forward, and read of the header list what is in it, if and only if the
chunks of the file do not lead back, and its header list is whole. -/
theorem chunk_loops_sound_iff (src : AviSource) (stopper : DemuxAvi → ℤ) (this : DemuxAvi)
    (hpos : 0 ≤ this.input.pos) :
    (src.InitSound ∧ GrowSound stopper this) ↔ (src.InitFits ∧ GrowFits stopper this) :=
  and_congr AviSource.initSound_iff (growSound_iff hpos)

/-- The header of an AVI file, and a chunk the size of which leads back to its header. -/
def looped : AviSource where
  bytes := [82, 73, 70, 70, 8, 0, 0, 0, 65, 86, 73, 32, 74, 85, 78, 75, 248, 255, 255, 255]
  streaming := false
  memory _ := true
  audioMemory := true
  around _ := 0

/-- The demuxer behind the header of that file. -/
def loopedDemux : DemuxAvi where
  input := ⟨looped.bytes, 12⟩
  nexttagoffset := 12
  video_tag := (48, 48)
  video_type := .other
  vindex := []
  audio := []

theorem chunk_loops_sound_iff_looped :
    0 ≤ loopedDemux.input.pos ∧
      ((looped.InitSound ∧ GrowSound (fun _ => -1) loopedDemux) ↔
        (looped.InitFits ∧ GrowFits (fun _ => -1) loopedDemux)) :=
  ⟨by decide, chunk_loops_sound_iff looped (fun _ => -1) loopedDemux (by decide)⟩

/-- The header scan and the loop of `idx_grow` come to the same chunk again and again. -/
theorem chunk_loops_not_sound :
    looped.scanStart = some ⟨12, none⟩ ∧ ¬Ends looped.scan ⟨12, none⟩ ∧
      ¬∃ rounds, (idxGrow (fun _ => -1) rounds loopedDemux).isSome := by
  have hscan : looped.scan ⟨12, none⟩ = some ⟨12, none⟩ := by decide
  have hgrow : growStep (fun _ => -1) (loopedDemux, 12) = some (loopedDemux, 12) := by decide
  refine ⟨by decide, not_ends_of_step_self hscan, ?_⟩
  rintro ⟨rounds, hrounds⟩
  have hafter : after (growStep fun _ => -1) rounds (loopedDemux, 12) = none := isSome_idxGrowLoop.1 hrounds
  exact not_ends_of_step_self hgrow ⟨rounds, hafter⟩

end Xine.Avi
