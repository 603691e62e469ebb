import Xine.Library.Tallies
import Xine.Qt.FrameTable

/-!
# The expansion of sample tables

The lengths of the tables of a trak are independent of each other in a file. `build_frame_table` steps through
them together, and stays inside of all of them and divides by no zero under conditions that are stated here for
each pair of tables.
-/

namespace Xine.Qt

namespace QtTrak

variable {trak : QtTrak} {memory : Memory} {global_timescale : Word} {s t : Samples} {e : SampleToChunk}
  {n i : ℕ} {countdown : Word} {frames : List QtFrame}

/-! ## A sample -/

theorem isSome_mediaId_iff {media_id : Word} {counts : List ℤ}
    (hlength : counts.length = trak.stsd_atoms_count) :
    (trak.mediaId media_id counts).isSome ↔ media_id ≠ 0 := by
  have hcount := trak.stsd_atoms_count_lt
  unfold mediaId
  split_ifs with hrange
  · refine iff_of_true rfl fun hzero => ?_
    rw [hzero] at hrange
    exact absurd hrange (Nat.not_lt_zero _)
  · have hindex : (media_id - 1).toNat < counts.length ↔ media_id ≠ 0 := by
      constructor
      · rintro hlt rfl
        have hlast : (0 - 1 : Word).toNat = 2 ^ 32 - 1 := by decide
        omega
      · intro hne
        bv_omega
    rw [← hindex]
    cases hget : counts[(media_id - 1).toNat]? with
    | none => exact iff_of_false Bool.false_ne_true (List.getElem?_eq_none_iff.1 hget).not_gt
    | some count => exact iff_of_true rfl (List.getElem?_eq_some_iff.1 hget).1

theorem length_mediaId {media_id id : Word} {counts counts' : List ℤ}
    (h : trak.mediaId media_id counts = some (id, counts')) : counts'.length = counts.length := by
  unfold mediaId at h
  split_ifs at h with hrange
  · rw [(Prod.mk.inj (Option.some.inj h)).2]
  · obtain ⟨count, -, hset⟩ := Option.bind_eq_some_iff.1 h
    rw [← (Prod.mk.inj (Option.some.inj hset)).2, List.length_set]

theorem isSome_timeToSample_iff {table : Table TimeToSample}
    (htable : trak.time_to_sample_table = some table) :
    (trak.timeToSample memory i).isSome ↔ i ≤ table.entries.length := by
  unfold timeToSample
  rw [htable, Option.bind_eq_bind, Option.bind_some, isSome_getElem?, List.length_append,
    List.length_singleton, Nat.lt_succ_iff]

theorem timeToSample_last {table : Table TimeToSample}
    (htable : trak.time_to_sample_table = some table) :
    trak.timeToSample memory table.entries.length = some ⟨0, memory.last_duration⟩ := by
  unfold timeToSample
  rw [htable, Option.bind_eq_bind, Option.bind_some, List.getElem?_append_right le_rfl, Nat.sub_self]
  rfl

/-- The variables after `n` samples. From the last entry of the time-to-sample table no more samples than
these are taken. -/
structure Expanding (trak : QtTrak) (table : Table TimeToSample) (n : ℕ) (s : Samples) : Prop where
  counter : s.frame_counter = n
  length : s.frames.length = trak.sample_size_count.toNat
  le : n ≤ trak.sample_size_count.toNat
  counts : s.media_id_counts.length = trak.stsd_atoms_count
  index : s.pts_index ≤ table.entries.length
  last : s.pts_index = table.entries.length →
    ∃ used ≤ n, s.pts_index_countdown = -BitVec.ofNat 32 used

theorem neg_ofNat_sub_one_ne_zero {used : ℕ} (h : used + 1 < 2 ^ 32) :
    -BitVec.ofNat 32 used - 1 ≠ (0 : Word) := by
  intro hzero
  have hsucc : BitVec.ofNat 32 (used + 1) = (0 : Word) := by bv_omega
  have hval := congrArg BitVec.toNat hsucc
  rw [BitVec.toNat_ofNat, Nat.mod_eq_of_lt h] at hval
  exact absurd hval (Nat.succ_ne_zero used)

theorem Expanding.refresh {table : Table TimeToSample}
    (htable : trak.time_to_sample_table = some table) (h : Expanding trak table n s)
    (hlt : n < trak.sample_size_count.toNat) :
    ∃ index countdown, trak.refresh memory s.pts_index (s.pts_index_countdown - 1) = some (index, countdown) ∧
      index ≤ table.entries.length ∧
      (index = table.entries.length → ∃ used ≤ n + 1, countdown = -BitVec.ofNat 32 used) := by
  have hcount := trak.sample_size_count.isLt
  unfold QtTrak.refresh
  by_cases hzero : s.pts_index_countdown - 1 = 0
  · rw [if_pos hzero]
    -- this entry is not the last one
    have hindex : s.pts_index < table.entries.length := by
      refine h.index.lt_of_ne fun hlast => ?_
      obtain ⟨used, hused, hcountdown⟩ := h.last hlast
      rw [hcountdown] at hzero
      exact neg_ofNat_sub_one_ne_zero (by omega) hzero
    have hsome : (trak.timeToSample memory (s.pts_index + 1)).isSome :=
      (isSome_timeToSample_iff htable).2 hindex
    obtain ⟨next, hnext⟩ := Option.isSome_iff_exists.1 hsome
    refine ⟨s.pts_index + 1, next.count, ?_, hindex, fun hlast => ⟨0, Nat.zero_le _, ?_⟩⟩
    · rw [hnext]
      rfl
    · rw [hlast, timeToSample_last htable] at hnext
      cases hnext
      rfl
  · rw [if_neg hzero]
    refine ⟨_, _, rfl, h.index, fun hlast => ?_⟩
    obtain ⟨used, hused, hcountdown⟩ := h.last hlast
    refine ⟨used + 1, Nat.succ_le_succ hused, ?_⟩
    rw [hcountdown]
    bv_omega

theorem expanding_zero {table : Table TimeToSample}
    (htable : trak.time_to_sample_table = some table) {first : TimeToSample}
    (hfirst : trak.timeToSample memory 0 = some first)
    (hlength : frames.length = trak.sample_size_count.toNat) :
    Expanding trak table 0 {
      frames
      frame_counter := 0
      current_offset := 0
      current_pts := 0
      pts_index := 0
      pts_index_countdown := first.count
      media_id_counts := List.replicate trak.stsd_atoms_count 0 } where
  counter := rfl
  length := hlength
  le := Nat.zero_le _
  counts := List.length_replicate
  index := Nat.zero_le _
  last hlast := by
    dsimp only at hlast
    rw [hlast, timeToSample_last htable] at hfirst
    cases hfirst
    exact ⟨0, le_rfl, rfl⟩

theorem sampleStep_eq_some_iff :
    trak.sampleStep memory s e = some t ↔
      ∃ media_id counts size time index countdown,
        trak.mediaId e.media_id s.media_id_counts = some (media_id, counts) ∧
        trak.sampleSize s.frame_counter = some size ∧
        trak.timeToSample memory s.pts_index = some time ∧
        trak.refresh memory s.pts_index (s.pts_index_countdown - 1) = some (index, countdown) ∧
        s.frame_counter < s.frames.length ∧
        t = {
          frames := s.frames.set s.frame_counter ⟨s.current_offset.toInt, size, s.current_pts.toInt,
            trak.sync_sample_table.isNone, media_id⟩
          frame_counter := s.frame_counter + 1
          current_offset := s.current_offset + size.setWidth 64
          current_pts := s.current_pts + time.duration.setWidth 64
          pts_index := index
          pts_index_countdown := countdown
          media_id_counts := counts } := by
  unfold sampleStep
  simp only [Option.bind_eq_bind, Option.bind_eq_some_iff, Prod.exists, Option.ite_none_right_eq_some,
    Option.some.injEq]
  constructor
  · rintro ⟨media_id, counts, hid, size, hsize, time, htime, index, countdown, hrefresh, hlt, rfl⟩
    exact ⟨media_id, counts, size, time, index, countdown, hid, hsize, htime, hrefresh, hlt, rfl⟩
  · rintro ⟨media_id, counts, size, time, index, countdown, hid, hsize, htime, hrefresh, hlt, rfl⟩
    exact ⟨media_id, counts, hid, size, hsize, time, htime, index, countdown, hrefresh, hlt, rfl⟩

theorem isSome_sampleSize (h : n < trak.sample_size_count.toNat) : (trak.sampleSize n).isSome := by
  unfold sampleSize
  split_ifs with hsize
  · rfl
  · rw [isSome_getElem?, length_sampleSizes (not_not.1 hsize)]
    exact h

theorem tally_sample {table : Table TimeToSample} (htable : trak.time_to_sample_table = some table) :
    Tally trak.sample_size_count.toNat (Expanding trak table) (trak.sampleStep memory)
      (fun e => e.media_id ≠ 0) (fun _ => 1) where
  bounded n s h := h.le
  succeeds n s e h := by
    rw [Option.isSome_iff_exists]
    constructor
    · rintro ⟨t, ht⟩
      obtain ⟨media_id, counts, size, time, index, countdown, hid, -, -, -, hlt, -⟩ :=
        sampleStep_eq_some_iff.1 ht
      rw [h.counter, h.length] at hlt
      exact ⟨(isSome_mediaId_iff h.counts).1 (by rw [hid]; rfl), hlt⟩
    · rintro ⟨hid, hlt⟩
      obtain ⟨⟨media_id, counts⟩, hid⟩ :=
        Option.isSome_iff_exists.1 ((isSome_mediaId_iff h.counts).2 hid)
      obtain ⟨size, hsize⟩ := Option.isSome_iff_exists.1 (isSome_sampleSize hlt)
      have hsome : (trak.timeToSample memory s.pts_index).isSome :=
        (isSome_timeToSample_iff htable).2 h.index
      obtain ⟨time, htime⟩ := Option.isSome_iff_exists.1 hsome
      obtain ⟨index, countdown, hrefresh, -⟩ := h.refresh htable hlt
      refine ⟨_, sampleStep_eq_some_iff.2 ⟨media_id, counts, size, time, index, countdown, hid, ?_, htime,
        hrefresh, ?_, rfl⟩⟩
      · rw [h.counter]
        exact hsize
      · rw [h.counter, h.length]
        exact hlt
  keeps n s e t h ht := by
    obtain ⟨media_id, counts, size, time, index, countdown, hid, -, -, hrefresh, hlt, rfl⟩ :=
      sampleStep_eq_some_iff.1 ht
    rw [h.counter, h.length] at hlt
    obtain ⟨index', countdown', hrefresh', hindex, hlast⟩ := h.refresh htable hlt
    obtain ⟨rfl, rfl⟩ := Prod.mk.inj (Option.some.inj (hrefresh.symm.trans hrefresh'))
    exact {
      counter := congrArg (· + 1) h.counter
      length := (List.length_set ..).trans h.length
      le := hlt
      counts := (length_mediaId hid).trans h.counts
      index := hindex
      last := hlast }

/-! ## Chunks -/

theorem chunkStep_eq (s : Samples) (j : ℕ) :
    trak.chunkStep memory e s j =
      (trak.chunkOffsets[j]?.map fun offset => { s with current_offset := offset }).bind fun s =>
        (List.replicate e.samples_per_chunk.toNat e).foldlM (trak.sampleStep memory) s := by
  unfold chunkStep
  cases trak.chunkOffsets[j]? <;> rfl

/-- The samples of a chunk that are in need of a media id have one. -/
def HasId (e : SampleToChunk) : Prop := e.samples_per_chunk ≠ 0 → e.media_id ≠ 0

theorem tally_chunk {table : Table TimeToSample} (htable : trak.time_to_sample_table = some table)
    (e : SampleToChunk) :
    Tally trak.sample_size_count.toNat (Expanding trak table) (trak.chunkStep memory e)
      (fun j => j < trak.chunk_offset_count ∧ HasId e) (fun _ => e.samples_per_chunk.toNat) := by
  refine ((tally_sample htable).foldlM.comap (r := fun j => j < trak.chunk_offset_count) chunkStep_eq
    ?_ ?_).congr ?_ ?_
  · intro n s j _
    rw [Option.isSome_map, isSome_getElem?]
    rfl
  · intro n s j t h ht
    obtain ⟨offset, -, rfl⟩ := Option.map_eq_some_iff.1 ht
    exact ⟨h.counter, h.length, h.le, h.counts, h.index, h.last⟩
  · intro j
    refine and_congr_right fun _ => ?_
    have hne : e.samples_per_chunk.toNat ≠ 0 ↔ e.samples_per_chunk ≠ 0 := by
      refine not_congr ⟨fun h => BitVec.eq_of_toNat_eq h, ?_⟩
      rintro h
      rw [h]
      rfl
    unfold HasId
    rw [← hne]
    constructor
    · exact fun h hpos => h e (List.mem_replicate.2 ⟨hpos, rfl⟩)
    · intro h a ha
      obtain ⟨hpos, rfl⟩ := List.mem_replicate.1 ha
      exact h hpos
  · intro j
    rw [List.map_replicate, List.sum_replicate]
    exact Nat.mul_one _

/-- The chunks of an entry have offsets, and their samples have media ids. -/
def RunFits (trak : QtTrak) (run : SampleToChunk × Word) : Prop :=
  (run.1.first_chunk - 1).toNat < (run.2 - 1).toNat →
    (run.2 - 1).toNat ≤ trak.chunk_offset_count ∧ HasId run.1

/-- The number of the samples of an entry. -/
def runSamples (run : SampleToChunk × Word) : ℕ :=
  ((run.2 - 1).toNat - (run.1.first_chunk - 1).toNat) * run.1.samples_per_chunk.toNat

theorem forall_chunkRange_iff {e : SampleToChunk} {chunk_end : Word} {bound : ℕ} {p : Prop} :
    (∀ j ∈ chunkRange e chunk_end, j < bound ∧ p) ↔
      ((e.first_chunk - 1).toNat < (chunk_end - 1).toNat → (chunk_end - 1).toNat ≤ bound ∧ p) := by
  unfold chunkRange
  simp only [List.mem_range'_1]
  constructor
  · intro h hlt
    obtain ⟨hlast, hp⟩ := h ((chunk_end - 1).toNat - 1) (by omega)
    exact ⟨by omega, hp⟩
  · intro h j hj
    obtain ⟨hle, hp⟩ := h (by omega)
    exact ⟨by omega, hp⟩

theorem tally_entry {table : Table TimeToSample} (htable : trak.time_to_sample_table = some table) :
    Tally trak.sample_size_count.toNat (Expanding trak table) (trak.entryStep memory) trak.RunFits
      runSamples := by
  have hchunks := fun run : SampleToChunk × Word => (@tally_chunk trak memory table htable run.1).foldlM
  refine (Tally.each (f := fun run => chunkRange run.1 run.2) hchunks fun n s h => h.le).congr ?_ ?_
  · exact fun run => forall_chunkRange_iff
  · intro run
    unfold runSamples chunkRange
    rw [List.map_const', List.sum_replicate, List.length_range']
    rfl

theorem isSome_expandSamples_iff {table : Table TimeToSample}
    (htable : trak.time_to_sample_table = some table) {first : TimeToSample}
    (hfirst : trak.timeToSample memory 0 = some first)
    (hlength : frames.length = trak.sample_size_count.toNat) :
    (trak.expandSamples memory frames first).isSome ↔
      (∀ run ∈ trak.runs, trak.RunFits run) ∧
        (trak.runs.map runSamples).sum ≤ trak.sample_size_count.toNat := by
  unfold expandSamples
  rw [(tally_entry htable).foldlM.succeeds 0 _ trak.runs (expanding_zero htable hfirst hlength),
    Nat.zero_add]

theorem expanding_expandSamples {table : Table TimeToSample}
    (htable : trak.time_to_sample_table = some table) {first : TimeToSample}
    (hfirst : trak.timeToSample memory 0 = some first)
    (hlength : frames.length = trak.sample_size_count.toNat)
    (h : trak.expandSamples memory frames first = some s) :
    Expanding trak table (trak.runs.map runSamples).sum s := by
  have hkeeps := (tally_entry htable).foldlM.keeps 0 _ trak.runs s
    (expanding_zero htable hfirst hlength) h
  rwa [Nat.zero_add] at hkeeps

/-! ## Key frames -/

theorem sync_sub_one_lt_iff {sync : Word} {count : ℕ} (hcount : count < 2 ^ 32) :
    (sync - 1).toNat < count ↔ sync ≠ 0 ∧ sync.toNat ≤ count := by
  constructor
  · intro hlt
    have hne : sync ≠ 0 := by
      rintro rfl
      have hlast : (0 - 1 : Word).toNat = 2 ^ 32 - 1 := by decide
      omega
    exact ⟨hne, by bv_omega⟩
  · rintro ⟨hne, hle⟩
    bv_omega

theorem syncStep_eq_some_iff {frames' : List QtFrame} {sync : Word} :
    syncStep frames sync = some frames' ↔
      ∃ frame, frames[(sync - 1).toNat]? = some frame ∧
        frames' = frames.set (sync - 1).toNat { frame with keyframe := true } := by
  unfold syncStep
  rw [Option.bind_eq_bind, Option.bind_eq_some_iff]
  exact exists_congr fun frame => and_congr_right fun _ => Option.some_inj.trans eq_comm

theorem isSome_sync_iff {syncs : List Word} (hlength : frames.length < 2 ^ 32) :
    (syncs.foldlM syncStep frames).isSome ↔
      ∀ sync ∈ syncs, sync ≠ 0 ∧ sync.toNat ≤ frames.length := by
  rw [Option.isSome_iff_exists]
  constructor
  · rintro ⟨frames', h⟩
    refine Loops.forall_of_foldlM (I := fun l : List QtFrame => l.length = frames.length) ?_ rfl h
    intro l sync l' hl hstep
    obtain ⟨frame, hframe, rfl⟩ := syncStep_eq_some_iff.1 hstep
    have hlt := (List.getElem?_eq_some_iff.1 hframe).1
    rw [hl] at hlt
    exact ⟨(List.length_set ..).trans hl, (sync_sub_one_lt_iff hlength).1 hlt⟩
  · intro hall
    have hstep : ∀ l : List QtFrame, l.length = frames.length → ∀ sync ∈ syncs,
        ∃ l', syncStep l sync = some l' ∧ l'.length = frames.length := by
      intro l hl sync hsync
      have hlt := (sync_sub_one_lt_iff hlength).2 (hall sync hsync)
      rw [← hl] at hlt
      exact ⟨_, syncStep_eq_some_iff.2 ⟨_, List.getElem?_eq_getElem hlt, rfl⟩,
        (List.length_set ..).trans hl⟩
    obtain ⟨frames', h, -⟩ := Loops.exists_foldlM hstep rfl
    exact ⟨frames', h⟩

theorem length_sync {syncs : List Word} {frames' : List QtFrame}
    (h : syncs.foldlM syncStep frames = some frames') : frames'.length = frames.length := by
  refine Loops.foldlM_keeps (I := fun l : List QtFrame => l.length = frames.length) ?_ rfl h
  intro l hl sync _ l' hstep
  obtain ⟨frame, -, rfl⟩ := syncStep_eq_some_iff.1 hstep
  exact (List.length_set ..).trans hl

/-! ## Times -/

/-- The entries of the edit list that count are scaled with a time scale. -/
def EditsFit (trak : QtTrak) (global_timescale : Word) : Prop :=
  global_timescale = 0 → ∀ table, trak.edit_list_table = some table → ∀ e ∈ table.entries, e.media_time = -1

theorem isSome_findEdit_iff {edits : List EditList} {s : EditState} :
    (trak.findEdit global_timescale edits s).isSome ↔
      (global_timescale = 0 → ∀ e ∈ edits, e.media_time = -1) := by
  induction edits generalizing s with
  | nil => exact iff_of_true rfl fun _ _ he => absurd he List.not_mem_nil
  | cons e rest ih =>
    unfold findEdit
    by_cases htime : e.media_time = -1
    · rw [if_neg (not_not.2 htime), ih, List.forall_mem_cons, and_iff_right htime]
    · rw [if_pos htime, List.forall_mem_cons]
      by_cases hzero : global_timescale = 0
      · rw [if_pos hzero]
        exact iff_of_false Bool.false_ne_true fun h => htime (h hzero).1
      · rw [if_neg hzero]
        exact iff_of_true rfl fun h => absurd h hzero

theorem isSome_nextEdit_iff {s : EditState} :
    (trak.nextEdit global_timescale s).isSome ↔
      (global_timescale = 0 → ∀ table, trak.edit_list_table = some table →
        ∀ e ∈ table.entries.drop s.index, e.media_time = -1) := by
  unfold nextEdit
  cases hedits : trak.edit_list_table with
  | none => exact iff_of_true rfl nofun
  | some table =>
    simp only [Option.some.injEq, forall_eq']
    rw [← @isSome_findEdit_iff trak global_timescale _ s]
    cases trak.findEdit global_timescale (table.entries.drop s.index) s <;> exact Iff.rfl

theorem isSome_nextEdit (h : trak.EditsFit global_timescale) (s : EditState) :
    (trak.nextEdit global_timescale s).isSome :=
  isSome_nextEdit_iff.2 fun hzero table htable e he =>
    h hzero table htable e (List.mem_of_mem_drop he)

theorem isSome_nextEdit_zero_iff {s : EditState} (hs : s.index = 0) :
    (trak.nextEdit global_timescale s).isSome ↔ trak.EditsFit global_timescale := by
  rw [isSome_nextEdit_iff, hs]
  simp only [List.drop_zero]
  rfl

theorem frameAt_eq_some (hi : i < 2 ^ 31) (hlt : i < frames.length) :
    frameAt frames i = some (frames.get ⟨i, hlt⟩) := by
  unfold frameAt
  rw [if_pos hi]
  exact List.getElem?_eq_getElem hlt

theorem lt_of_frameAt {frame : QtFrame} (h : frameAt frames i = some frame) :
    i < 2 ^ 31 ∧ i < frames.length := by
  unfold frameAt at h
  split_ifs at h with hi
  exact ⟨hi, (List.getElem?_eq_some_iff.1 h).1⟩

theorem length_fixUpStep {s s' : FixUp} (h : trak.fixUpStep global_timescale s i = some s') :
    s'.frames.length = s.frames.length ∧ i < 2 ^ 31 := by
  have hframe : ∀ u, fixUpFrame s i = some u → u.frames.length = s.frames.length ∧ i < 2 ^ 31 := by
    intro u hu
    unfold fixUpFrame at hu
    obtain ⟨frame, hframe, hu⟩ := Option.bind_eq_some_iff.1 hu
    have hi := (lt_of_frameAt hframe).1
    split_ifs at hu with hmedia
    · obtain rfl := Option.some.inj hu
      exact ⟨List.length_set .., hi⟩
    · obtain ⟨duration, -, hu⟩ := Option.bind_eq_some_iff.1 hu
      obtain rfl := Option.some.inj hu
      exact ⟨List.length_set .., hi⟩
  unfold fixUpStep at h
  obtain ⟨u, hu, h⟩ := Option.bind_eq_some_iff.1 h
  split_ifs at h with hreload
  · obtain ⟨edit, -, h⟩ := Option.bind_eq_some_iff.1 h
    obtain rfl := Option.some.inj h
    exact hframe u hu
  · obtain rfl := Option.some.inj h
    exact hframe u hu

theorem exists_fixUpFrame {s : FixUp} (hi : i < s.frames.length) (hlength : s.frames.length ≤ 2 ^ 31) :
    ∃ s', fixUpFrame s i = some s' := by
  have hduration : ∀ frame, ∃ duration, frameDuration s frame i = some duration := by
    intro frame
    unfold frameDuration
    split_ifs with hlast
    · rw [frameAt_eq_some (by omega) (by omega)]
      exact ⟨_, rfl⟩
    · exact ⟨_, rfl⟩
  unfold fixUpFrame
  rw [frameAt_eq_some (by omega) hi, Option.bind_eq_bind, Option.bind_some]
  dsimp only
  split_ifs with hmedia
  · exact ⟨_, rfl⟩
  · obtain ⟨duration, hduration⟩ := hduration (s.frames.get ⟨i, hi⟩)
    rw [hduration]
    exact ⟨_, rfl⟩

theorem exists_fixUpStep (hedits : trak.EditsFit global_timescale) {s : FixUp}
    (hi : i < s.frames.length) (hlength : s.frames.length ≤ 2 ^ 31) :
    ∃ s', trak.fixUpStep global_timescale s i = some s' := by
  obtain ⟨u, hu⟩ := exists_fixUpFrame hi hlength
  unfold fixUpStep
  rw [hu, Option.bind_eq_bind, Option.bind_some]
  split_ifs with hreload
  · obtain ⟨edit, hedit⟩ := Option.isSome_iff_exists.1 (isSome_nextEdit hedits u.edit)
    rw [hedit]
    exact ⟨_, rfl⟩
  · exact ⟨_, rfl⟩

theorem scaleStep_eq_some_iff {frames' : List QtFrame} :
    trak.scaleStep frames i = some frames' ↔
      ∃ frame, frameAt frames i = some frame ∧ trak.timescale ≠ 0 ∧
        frames' = frames.set i
          { frame with pts := (Int.bmod (frame.pts * 90000) (2 ^ 64)).tdiv trak.timescale.toNat } := by
  unfold scaleStep
  rw [Option.bind_eq_bind, Option.bind_eq_some_iff]
  refine exists_congr fun frame => and_congr_right fun _ => ?_
  rw [Option.ite_none_left_eq_some]
  exact and_congr_right fun _ => Option.some_inj.trans eq_comm

theorem isSome_fixUpTimes_iff :
    (trak.fixUpTimes memory global_timescale frames).isSome ↔
      trak.EditsFit global_timescale ∧ frames.length ≤ 2 ^ 31 ∧ (frames ≠ [] → trak.timescale ≠ 0) := by
  rw [Option.isSome_iff_exists]
  unfold fixUpTimes
  constructor
  · rintro ⟨frames', h⟩
    obtain ⟨edit, hedit, h⟩ := Option.bind_eq_some_iff.1 h
    obtain ⟨s, hs, h⟩ := Option.bind_eq_some_iff.1 h
    have hedits := (isSome_nextEdit_zero_iff rfl).1 (by rw [hedit]; rfl)
    have hall := Loops.forall_of_foldlM (I := fun _ => True) (p := fun i => i < 2 ^ 31)
      (fun s i t _ ht => ⟨trivial, (length_fixUpStep ht).2⟩) trivial hs
    have hscale := Loops.forall_of_foldlM (I := fun _ => True) (p := fun _ => trak.timescale ≠ 0)
      (fun s i t _ ht => ⟨trivial, (scaleStep_eq_some_iff.1 ht).choose_spec.2.1⟩) trivial h
    refine ⟨hedits, ?_, fun hne => hscale 0 (List.mem_range.2 (List.length_pos_iff.2 hne))⟩
    by_contra hlong
    exact absurd (hall (2 ^ 31) (List.mem_range.2 (by omega))) (lt_irrefl _)
  · rintro ⟨hedits, hle, hscale⟩
    have hsome := (isSome_nextEdit_zero_iff (s := ⟨0, memory.edit_list_media_time, memory.edit_list_duration⟩)
      rfl).2 hedits
    obtain ⟨edit, hedit⟩ := Option.isSome_iff_exists.1 hsome
    have hfix : ∀ s : FixUp, s.frames.length = frames.length → ∀ i ∈ List.range frames.length,
        ∃ s', trak.fixUpStep global_timescale s i = some s' ∧ s'.frames.length = frames.length := by
      intro s hs i hi
      have hlt := List.mem_range.1 hi
      obtain ⟨s', hs'⟩ := exists_fixUpStep hedits (hs ▸ hlt) (hs ▸ hle)
      exact ⟨s', hs', (length_fixUpStep hs').1.trans hs⟩
    obtain ⟨s, hs, hlength⟩ := Loops.exists_foldlM (s := ⟨frames, 0, 0, edit⟩) hfix rfl
    have hscales : ∀ l : List QtFrame, l.length = frames.length → ∀ i ∈ List.range frames.length,
        ∃ l', trak.scaleStep l i = some l' ∧ l'.length = frames.length := by
      intro l hl i hi
      have hlt := List.mem_range.1 hi
      have hne : frames ≠ [] := List.length_pos_iff.1 (Nat.zero_lt_of_lt hlt)
      exact ⟨_, scaleStep_eq_some_iff.2 ⟨_, frameAt_eq_some (by omega) (hl ▸ hlt), hscale hne, rfl⟩,
        (List.length_set ..).trans hl⟩
    obtain ⟨frames', hframes', -⟩ := Loops.exists_foldlM hscales hlength
    exact ⟨frames', Option.bind_eq_some_iff.2 ⟨edit, hedit, Option.bind_eq_some_iff.2 ⟨s, hs, hframes'⟩⟩⟩

/-! ## Frames that are samples -/

/-- The tables of a trak the frames of which are samples fit together. -/
structure SamplesFit (trak : QtTrak) (global_timescale : Word) : Prop where
  /-- Each entry of the stsc table that has chunks ends at one that has an offset, and its samples have media
  ids. -/
  runs : ∀ run ∈ trak.runs, trak.RunFits run
  /-- There are no more samples in the chunks than have a size. -/
  samples : (trak.runs.map runSamples).sum ≤ trak.sample_size_count.toNat
  /-- Each entry of the stss table is the number of a sample. -/
  syncs : ∀ sync ∈ trak.sync_sample_table.elim [] Table.entries,
    sync ≠ 0 ∧ sync.toNat ≤ trak.sample_size_count.toNat
  edits : trak.EditsFit global_timescale
  /-- An `int` comes to all frames. -/
  count : trak.sample_size_count.toNat ≤ 2 ^ 31
  timescale : trak.sample_size_count ≠ 0 → trak.timescale ≠ 0
  /-- There is a sample description. -/
  stsd : trak.stsd_atoms_count ≠ 0

theorem atomToUse_lt_iff {counts : List ℤ} {count : ℕ} :
    atomToUse counts (List.range' 1 (count - 1)) 0 < count ↔ count ≠ 0 := by
  have hmem : ∀ (l : List ℕ) (atom : ℕ), atomToUse counts l atom = atom ∨ atomToUse counts l atom ∈ l := by
    intro l
    induction l with
    | nil => exact fun _ => .inl rfl
    | cons i rest ih =>
      intro atom
      unfold atomToUse
      split_ifs with hmore
      · rcases ih i with heq | hmem
        · rw [heq]
          exact .inr List.mem_cons_self
        · exact .inr (List.mem_cons_of_mem i hmem)
      · exact (ih atom).imp_right (List.mem_cons_of_mem i)
  constructor
  · exact fun h => Nat.ne_zero_of_lt h
  · intro hne
    rcases hmem (List.range' 1 (count - 1)) 0 with hzero | hin
    · rw [hzero]
      exact Nat.pos_of_ne_zero hne
    · obtain ⟨-, hlt⟩ := List.mem_range'_1.1 hin
      omega

theorem isSome_fillSamples_iff {table : Table TimeToSample}
    (htable : trak.time_to_sample_table = some table) {first : TimeToSample}
    (hfirst : trak.timeToSample memory 0 = some first)
    (hlength : frames.length = trak.sample_size_count.toNat) :
    (trak.fillSamples memory global_timescale frames first).isSome ↔ trak.SamplesFit global_timescale := by
  have hcount := trak.sample_size_count.isLt
  have hexpand := isSome_expandSamples_iff htable hfirst hlength
  have hnil : ∀ l : List QtFrame, l.length = trak.sample_size_count.toNat →
      (l ≠ [] ↔ trak.sample_size_count ≠ 0) := by
    intro l hl
    rw [← List.length_pos_iff, hl]
    bv_omega
  unfold fillSamples
  constructor
  · intro h
    obtain ⟨built, h⟩ := Option.isSome_iff_exists.1 h
    obtain ⟨s, hs, h⟩ := Option.bind_eq_some_iff.1 h
    obtain ⟨frames, hsync, h⟩ := Option.bind_eq_some_iff.1 h
    obtain ⟨frames', hfix, h⟩ := Option.bind_eq_some_iff.1 h
    obtain ⟨hruns, hsum⟩ := hexpand.1 (by rw [hs]; rfl)
    have hsize := (expanding_expandSamples htable hfirst hlength hs).length
    have hsyncs := (isSome_sync_iff (hsize ▸ hcount)).1 (by rw [hsync]; rfl)
    have hsize' := (length_sync hsync).trans hsize
    obtain ⟨hedits, hle, hscale⟩ := isSome_fixUpTimes_iff.1 (by rw [hfix]; rfl)
    have hatom := (Option.ite_none_right_eq_some.1 h).1
    exact {
      runs := hruns
      samples := hsum
      syncs := hsize ▸ hsyncs
      edits := hedits
      count := hsize' ▸ hle
      timescale := fun hne => hscale ((hnil frames hsize').2 hne)
      stsd := atomToUse_lt_iff.1 hatom }
  · intro h
    obtain ⟨s, hs⟩ := Option.isSome_iff_exists.1 (hexpand.2 ⟨h.runs, h.samples⟩)
    have hsize := (expanding_expandSamples htable hfirst hlength hs).length
    obtain ⟨frames, hsync⟩ := Option.isSome_iff_exists.1
      ((isSome_sync_iff (hsize ▸ hcount)).2 (hsize ▸ h.syncs))
    have hsize' := (length_sync hsync).trans hsize
    have hsome : (trak.fixUpTimes memory global_timescale frames).isSome :=
      isSome_fixUpTimes_iff.2 ⟨h.edits, hsize' ▸ h.count, fun hne => h.timescale ((hnil frames hsize').1 hne)⟩
    obtain ⟨frames', hfix⟩ := Option.isSome_iff_exists.1 hsome
    rw [hs, Option.bind_eq_bind, Option.bind_some, hsync, Option.bind_eq_bind, Option.bind_some, hfix,
      Option.bind_some]
    dsimp only
    rw [if_pos (atomToUse_lt_iff.2 h.stsd)]
    rfl

theorem isSome_buildSamples_iff :
    (trak.buildSamples memory global_timescale).isSome ↔
      (memory.frames ≠ none → trak.time_to_sample_table ≠ none ∧
        (memory.media_id_counts = true → trak.SamplesFit global_timescale)) := by
  unfold buildSamples
  cases hmemory : memory.frames with
  | none => exact iff_of_true rfl fun h => absurd rfl h
  | some content =>
    rw [imp_iff_right (Option.some_ne_none content)]
    dsimp only
    cases htable : trak.time_to_sample_table with
    | none =>
      have hnone : trak.timeToSample memory 0 = none := by
        unfold timeToSample
        rw [htable]
        rfl
      rw [hnone]
      exact iff_of_false Bool.false_ne_true fun h => h.1 rfl
    | some table =>
      have hsome : (trak.timeToSample memory 0).isSome := (isSome_timeToSample_iff htable).2 (Nat.zero_le _)
      obtain ⟨first, hfirst⟩ := Option.isSome_iff_exists.1 hsome
      rw [hfirst, Option.bind_eq_bind, Option.bind_some, and_iff_right (Option.some_ne_none table)]
      cases memory.media_id_counts with
      | false => exact iff_of_true rfl nofun
      | true =>
        rw [if_neg (by decide), imp_iff_right rfl]
        exact isSome_fillSamples_iff htable hfirst (by rw [List.length_map, List.length_range])

/-! ## Frames that are chunks -/

variable {properties : AudioProperties}

/-- The tables of a trak the frames of which are chunks fit together: each entry of the stsc table that has
chunks ends at one that there is, and its frames have a time and a size. -/
def ChunksFit (trak : QtTrak) (properties : AudioProperties) : Prop :=
  ∀ run ∈ trak.runs, (run.1.first_chunk - 1).toNat < (run.2 - 1).toNat →
    (run.2 - 1).toNat ≤ trak.chunk_offset_count ∧ trak.timescale ≠ 0 ∧ properties.samples_per_frame ≠ 0

theorem rawStep_eq_some_iff {s t : List QtFrame × Word} {j : ℕ} :
    trak.rawStep properties e s j = some t ↔
      ∃ frame, s.1[j]? = some frame ∧ ¬(trak.timescale = 0 ∨ properties.samples_per_frame = 0) ∧
        t = (s.1.set j { frame with
          pts := (s.2.toNat * 90000 : ℤ).tdiv trak.timescale.toNat
          size := e.samples_per_chunk * properties.channels / properties.samples_per_frame *
            properties.bytes_per_frame
          media_id := if e.media_id.toNat > trak.stsd_atoms_count then 0 else e.media_id },
          s.2 + e.samples_per_chunk) := by
  unfold rawStep
  rw [Option.bind_eq_bind, Option.bind_eq_some_iff]
  refine exists_congr fun frame => and_congr_right fun _ => ?_
  rw [Option.ite_none_left_eq_some]
  exact and_congr_right fun _ => Option.some_inj.trans eq_comm

theorem tally_raw (trak : QtTrak) (properties : AudioProperties) (e : SampleToChunk) (count : ℕ) :
    Tally 0 (fun n (s : List QtFrame × Word) => n = 0 ∧ s.1.length = count) (trak.rawStep properties e)
      (fun j => j < count ∧ trak.timescale ≠ 0 ∧ properties.samples_per_frame ≠ 0) (fun _ => 0) where
  bounded n s h := h.1.le
  succeeds n s j h := by
    rw [Option.isSome_iff_exists]
    constructor
    · rintro ⟨t, ht⟩
      obtain ⟨frame, hframe, hne, -⟩ := rawStep_eq_some_iff.1 ht
      have hlt := (List.getElem?_eq_some_iff.1 hframe).1
      exact ⟨⟨h.2 ▸ hlt, not_or.1 hne⟩, h.1.le⟩
    · rintro ⟨⟨hlt, hne⟩, -⟩
      exact ⟨_, rawStep_eq_some_iff.2 ⟨_, List.getElem?_eq_getElem (h.2.symm ▸ hlt), not_or.2 hne, rfl⟩⟩
  keeps n s j t h ht := by
    obtain ⟨frame, -, -, rfl⟩ := rawStep_eq_some_iff.1 ht
    exact ⟨h.1, (List.length_set ..).trans h.2⟩

theorem tally_rawEntry (trak : QtTrak) (properties : AudioProperties) :
    Tally 0 (fun n (s : List QtFrame × Word) => n = 0 ∧ s.1.length = trak.chunk_offset_count)
      (trak.rawEntryStep properties)
      (fun run => (run.1.first_chunk - 1).toNat < (run.2 - 1).toNat →
        (run.2 - 1).toNat ≤ trak.chunk_offset_count ∧ trak.timescale ≠ 0 ∧
          properties.samples_per_frame ≠ 0) (fun _ => 0) := by
  have hchunks := fun run : SampleToChunk × Word =>
    (tally_raw trak properties run.1 trak.chunk_offset_count).foldlM
  refine (Tally.each (f := fun run => chunkRange run.1 run.2) hchunks fun n s h => h.1.le).congr ?_ ?_
  · exact fun run => forall_chunkRange_iff
  · intro run
    rw [List.map_const', List.sum_replicate]
    exact Nat.mul_zero _

theorem exists_rawFill (hlength : frames.length = trak.chunk_offset_count) (hi : i < frames.length) :
    ∃ frames', trak.rawFill frames i = some frames' ∧ frames'.length = trak.chunk_offset_count := by
  have hle := trak.chunk_offset_count_le
  have hlt : i < trak.chunkOffsets.length := hi.trans_eq hlength
  have hoffset : trak.chunkOffsets[i]? = some (trak.chunkOffsets.get ⟨i, hlt⟩) :=
    List.getElem?_eq_getElem hlt
  unfold rawFill
  rw [frameAt_eq_some (by omega) hi, Option.bind_eq_bind, Option.bind_some, hoffset]
  exact ⟨_, rfl, (List.length_set ..).trans hlength⟩

theorem isSome_buildChunks_iff :
    (trak.buildChunks memory properties).isSome ↔ (memory.frames ≠ none → trak.ChunksFit properties) := by
  unfold buildChunks
  cases memory.frames with
  | none => exact iff_of_true rfl fun h => absurd rfl h
  | some content =>
    rw [imp_iff_right (Option.some_ne_none content)]
    dsimp only
    have hlength : ((List.range trak.chunk_offset_count).map content).length = trak.chunk_offset_count := by
      rw [List.length_map, List.length_range]
    have htally := (tally_rawEntry trak properties).foldlM
    have hinv : 0 = 0 ∧ ((List.range trak.chunk_offset_count).map content, (0 : Word)).1.length =
        trak.chunk_offset_count := ⟨rfl, hlength⟩
    have hsum : (trak.runs.map fun _ => 0).sum = 0 := by
      rw [List.map_const', List.sum_replicate]
      exact Nat.mul_zero _
    have hsome := htally.succeeds 0 _ trak.runs hinv
    rw [hsum, and_iff_left (le_refl (0 + 0))] at hsome
    unfold ChunksFit
    rw [← hsome]
    cases hs : trak.runs.foldlM (trak.rawEntryStep properties)
        ((List.range trak.chunk_offset_count).map content, 0) with
    | none => exact Iff.rfl
    | some s =>
      have hs' := (htally.keeps 0 _ trak.runs s hinv hs).2
      have hfill : ∀ l : List QtFrame, l.length = trak.chunk_offset_count → ∀ i ∈ List.range s.1.length,
          ∃ l', trak.rawFill l i = some l' ∧ l'.length = trak.chunk_offset_count := by
        intro l hl i hi
        exact exists_rawFill hl (hl ▸ hs' ▸ List.mem_range.1 hi)
      obtain ⟨frames, hframes, -⟩ := Loops.exists_foldlM hfill hs'
      rw [Option.bind_eq_bind, Option.bind_some, hframes]
      exact iff_of_true rfl rfl

/-! ## All frames -/

/-- The tables of a trak fit together, as far as the allocations let them be used. -/
def Fits (trak : QtTrak) (memory : Memory) (global_timescale : Word) : Prop :=
  let samplesFit := memory.frames ≠ none → trak.time_to_sample_table ≠ none ∧
    (memory.media_id_counts = true → trak.SamplesFit global_timescale)
  match trak.type with
  | .other => True
  | .video => samplesFit
  | .audio => ∃ properties, trak.properties = some properties ∧
      if properties.vbr ≠ 0 then samplesFit else memory.frames ≠ none → trak.ChunksFit properties

/-- `build_frame_table` divides by no zero and stays in all arrays if and only if the tables fit together. -/
theorem isSome_buildFrameTable_iff (trak : QtTrak) (memory : Memory) (global_timescale : Word) :
    (trak.buildFrameTable memory global_timescale).isSome ↔ trak.Fits memory global_timescale := by
  unfold buildFrameTable Fits
  cases trak.type with
  | other => exact iff_of_true rfl trivial
  | video => exact isSome_buildSamples_iff
  | audio =>
    dsimp only
    cases hproperties : trak.properties with
    | none => exact iff_of_false Bool.false_ne_true nofun
    | some properties =>
      simp only [Option.bind_eq_bind, Option.bind_some, Option.some.injEq, exists_eq_left']
      by_cases hvbr : properties.vbr ≠ 0
      · rw [if_pos hvbr, if_pos hvbr]
        exact isSome_buildSamples_iff
      · rw [if_neg hvbr, if_neg hvbr]
        exact isSome_buildChunks_iff

end QtTrak

end Xine.Qt
