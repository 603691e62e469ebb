import Xine.Library.Pieces
import Xine.Library.RunLength
import Xine.Qt.Expansion

/-!
# Consistent sample tables

What the tables of a trak say of its samples, when they belong together: which chunk a sample is in, which samples
of the chunk are in front of it, and how long the samples in front of it are.
-/

namespace Xine.Qt

namespace QtTrak

open Consecutive

variable {trak : QtTrak} {e : SampleToChunk} {table : List SampleToChunk} {j n : ℕ}

/-! ## What the tables say -/

/-- The entry of the stsc table for a chunk, which is the last one that does not start behind it. -/
def chunkEntry : List SampleToChunk → ℕ → Option SampleToChunk
  | [], _ => none
  | e :: rest, j => (chunkEntry rest j).or (if e.first_chunk.toNat ≤ j + 1 then some e else none)

/-- The number of the samples of a chunk. -/
def samplesOf (trak : QtTrak) (j : ℕ) : ℕ :=
  (chunkEntry trak.sampleToChunk j).elim 0 fun e => e.samples_per_chunk.toNat

/-- The first sample of a chunk. -/
def firstSample (trak : QtTrak) (j : ℕ) : ℕ := start trak.samplesOf j

/-- The offset of a chunk. -/
def chunkOffset (trak : QtTrak) (j : ℕ) : BitVec 64 := trak.chunkOffsets.getD j 0

/-- The size of a sample. -/
def sizeOf (trak : QtTrak) (k : ℕ) : Word := (trak.sampleSize k).getD 0

/-- The sizes of the samples of a chunk in front of one of them. -/
def sizesBefore (trak : QtTrak) (j i : ℕ) : ℕ :=
  ∑ u ∈ Finset.range i, (trak.sizeOf (trak.firstSample j + u)).toNat

/-- The runs of the stts table. -/
def sttsRuns (trak : QtTrak) : List (ℕ × ℕ) :=
  (trak.time_to_sample_table.elim [] Table.entries).map fun e => (e.count.toNat, e.duration.toNat)

/-- The durations of the samples in front of one. -/
def timeOf (trak : QtTrak) (k : ℕ) : ℕ := ((RunLength.expand trak.sttsRuns).take k).sum

/-- The tables belong together: the stts table has all samples and the stsc table all chunks, and the samples
of the chunks are those that have a size. The ids, the key frames and the time scale can be used. -/
structure Consistent (trak : QtTrak) : Prop where
  stts : trak.time_to_sample_table ≠ none
  /-- A count of zero ends the table. -/
  counts : ∀ run ∈ trak.sttsRuns, run.1 ≠ 0
  times : RunLength.weight trak.sttsRuns = trak.sample_size_count.toNat
  first : ∀ e ∈ trak.sampleToChunk.head?, e.first_chunk = 1
  sorted : trak.sampleToChunk.Pairwise fun e e' => e.first_chunk ≤ e'.first_chunk
  last : ∀ e ∈ trak.sampleToChunk, e.first_chunk.toNat ≤ trak.chunk_offset_count + 1
  chunks : trak.chunk_offset_count ≠ 0 → trak.sampleToChunk ≠ []
  samples : trak.firstSample trak.chunk_offset_count = trak.sample_size_count.toNat
  ids : ∀ e ∈ trak.sampleToChunk, e.media_id ≠ 0
  syncs : ∀ sync ∈ trak.sync_sample_table.elim [] Table.entries,
    sync ≠ 0 ∧ sync.toNat ≤ trak.sample_size_count.toNat
  timescale : trak.timescale ≠ 0
  stsd : trak.stsd_atoms_count ≠ 0

/-! ## The chunks in their order -/

/-- The chunks that are stepped through, each with its entry. -/
def visits (trak : QtTrak) : List (SampleToChunk × ℕ) :=
  trak.runs.flatMap fun run => (chunkRange run.1 run.2).map fun j => (run.1, j)

theorem chunkEntry_eq_none (h : ∀ e ∈ table, j + 1 < e.first_chunk.toNat) : chunkEntry table j = none := by
  induction table with
  | nil => rfl
  | cons e rest ih =>
    obtain ⟨hlt, hrest⟩ := List.forall_mem_cons.1 h
    unfold chunkEntry
    rw [ih hrest, if_neg hlt.not_ge]
    rfl

theorem toNat_sub_one {w : Word} (h : 1 ≤ w.toNat) : (w - 1).toNat = w.toNat - 1 := by bv_omega

theorem toNat_ofNat_succ (h : n ≤ 2 ^ 31) : (BitVec.ofNat 32 (n + 1)).toNat = n + 1 := by
  rw [BitVec.toNat_ofNat]
  exact Nat.mod_eq_of_lt (by omega)

theorem visits_entryRuns (hn : n ≤ 2 ^ 31) (e : SampleToChunk) (rest : List SampleToChunk)
    (hsorted : (e :: rest).Pairwise fun e e' => e.first_chunk ≤ e'.first_chunk)
    (hfirst : 1 ≤ e.first_chunk.toNat) (hlast : ∀ e' ∈ e :: rest, e'.first_chunk.toNat ≤ n + 1) :
    (((entryRuns n (e :: rest)).flatMap fun run =>
        (chunkRange run.1 run.2).map fun j => (run.1, j)).map Prod.snd =
      List.range' (e.first_chunk.toNat - 1) (n - (e.first_chunk.toNat - 1))) ∧
    ∀ v ∈ (entryRuns n (e :: rest)).flatMap fun run => (chunkRange run.1 run.2).map fun j => (run.1, j),
      chunkEntry (e :: rest) v.2 = some v.1 := by
  -- by induction on the entries, each of which ends where the next one starts
  induction rest generalizing e with
  | nil =>
    unfold entryRuns
    simp only [List.flatMap_cons, List.flatMap_nil, List.append_nil]
    unfold chunkRange
    rw [toNat_sub_one hfirst, toNat_sub_one (by rw [toNat_ofNat_succ hn]; omega), toNat_ofNat_succ hn,
      Nat.add_sub_cancel, List.map_map]
    refine ⟨List.map_id' _, fun v hv => ?_⟩
    obtain ⟨j, hj, rfl⟩ := List.mem_map.1 hv
    have hle := (List.mem_range'_1.1 hj).1
    unfold chunkEntry
    rw [if_pos (by omega)]
    rfl
  | cons e' rest ih =>
    obtain ⟨hall, hsorted'⟩ := List.pairwise_cons.1 hsorted
    have hle : e.first_chunk.toNat ≤ e'.first_chunk.toNat := hall e' List.mem_cons_self
    obtain ⟨hmap, hentry⟩ := ih e' hsorted' (hfirst.trans hle) fun e hmem => hlast e (List.mem_cons_of_mem _ hmem)
    have hend := hlast e' (List.mem_cons_of_mem _ List.mem_cons_self)
    unfold entryRuns
    rw [List.flatMap_cons]
    constructor
    · rw [List.map_append, hmap, List.map_map]
      unfold chunkRange
      rw [toNat_sub_one hfirst, toNat_sub_one (hfirst.trans hle)]
      have hid : (Prod.snd ∘ fun j : ℕ => (e, j)) = id := rfl
      rw [hid, List.map_id]
      have happend := @List.range'_append (e.first_chunk.toNat - 1)
        (e'.first_chunk.toNat - 1 - (e.first_chunk.toNat - 1)) (n - (e'.first_chunk.toNat - 1)) 1
      rw [Nat.one_mul, Nat.add_sub_cancel' (by omega)] at happend
      rw [happend]
      congr 1
      omega
    · intro v hv
      rcases List.mem_append.1 hv with hthis | hrest
      · obtain ⟨j, hj, rfl⟩ := List.mem_map.1 hthis
        unfold chunkRange at hj
        rw [toNat_sub_one hfirst, toNat_sub_one (hfirst.trans hle)] at hj
        obtain ⟨hge, hlt⟩ := List.mem_range'_1.1 hj
        have hbehind : ∀ d ∈ e' :: rest, j + 1 < d.first_chunk.toNat := by
          intro d hd
          have hd' : e'.first_chunk.toNat ≤ d.first_chunk.toNat := by
            rcases List.mem_cons.1 hd with rfl | hd
            · exact le_rfl
            · exact (List.pairwise_cons.1 hsorted').1 d hd
          omega
        unfold chunkEntry
        rw [chunkEntry_eq_none hbehind, if_pos (by dsimp only; omega)]
        rfl
      · unfold chunkEntry
        rw [hentry v hrest]
        rfl

theorem Consistent.visits_eq (h : trak.Consistent) :
    trak.visits.map Prod.snd = List.range trak.chunk_offset_count ∧
      ∀ v ∈ trak.visits, chunkEntry trak.sampleToChunk v.2 = some v.1 := by
  unfold visits runs
  cases htable : trak.sampleToChunk with
  | nil =>
    have hzero : trak.chunk_offset_count = 0 := by
      by_contra hne
      exact h.chunks hne htable
    rw [hzero]
    exact ⟨rfl, fun v hv => absurd hv List.not_mem_nil⟩
  | cons e rest =>
    have hone : e.first_chunk = 1 := h.first e (by rw [htable]; rfl)
    have hfirst : e.first_chunk.toNat = 1 := congrArg BitVec.toNat hone
    have hvisits := visits_entryRuns trak.chunk_offset_count_le e rest (htable ▸ h.sorted) hfirst.ge
      (htable ▸ h.last)
    rw [hfirst, Nat.sub_self, Nat.sub_zero] at hvisits
    rw [List.range_eq_range']
    exact hvisits

theorem sum_runSamples (l : List (SampleToChunk × Word)) :
    (l.map runSamples).sum =
      ((l.flatMap fun run => (chunkRange run.1 run.2).map fun j => (run.1, j)).map fun v =>
        v.1.samples_per_chunk.toNat).sum := by
  induction l with
  | nil => rfl
  | cons run l ih =>
    have hrun : runSamples run =
        (((chunkRange run.1 run.2).map fun j => (run.1, j)).map fun v => v.1.samples_per_chunk.toNat).sum := by
      unfold runSamples chunkRange
      rw [List.map_map]
      have hconst : ((fun v : SampleToChunk × ℕ => v.1.samples_per_chunk.toNat) ∘ fun j => (run.1, j)) =
          fun _ => run.1.samples_per_chunk.toNat := rfl
      rw [hconst, List.map_const', List.sum_replicate, List.length_range']
      rfl
    rw [List.map_cons, List.sum_cons, List.flatMap_cons, List.map_append, List.sum_append, ih, hrun]

theorem Consistent.sum_runs (h : trak.Consistent) :
    (trak.runs.map runSamples).sum = trak.sample_size_count.toNat := by
  obtain ⟨hmap, hentry⟩ := h.visits_eq
  have hsamples : ∀ v ∈ trak.visits, v.1.samples_per_chunk.toNat = trak.samplesOf v.2 := by
    intro v hv
    unfold samplesOf
    rw [hentry v hv]
    rfl
  calc (trak.runs.map runSamples).sum
      = (trak.visits.map fun v => v.1.samples_per_chunk.toNat).sum := sum_runSamples trak.runs
    _ = (trak.visits.map fun v => trak.samplesOf v.2).sum := by rw [List.map_congr_left hsamples]
    _ = ((trak.visits.map Prod.snd).map trak.samplesOf).sum := by rw [List.map_map]; rfl
    _ = trak.firstSample trak.chunk_offset_count := by rw [hmap]; rfl
    _ = trak.sample_size_count.toNat := h.samples

theorem entryRuns_mem {run : SampleToChunk × Word} (h : run ∈ entryRuns n table) :
    run.1 ∈ table ∧ (run.2 = BitVec.ofNat 32 (n + 1) ∨ ∃ e ∈ table, run.2 = e.first_chunk) := by
  induction table with
  | nil => exact absurd h List.not_mem_nil
  | cons e rest ih =>
    cases rest with
    | nil =>
      obtain rfl := List.mem_singleton.1 h
      exact ⟨List.mem_cons_self, .inl rfl⟩
    | cons e' rest =>
      rcases List.mem_cons.1 h with rfl | h
      · exact ⟨List.mem_cons_self, .inr ⟨e', List.mem_cons_of_mem _ List.mem_cons_self, rfl⟩⟩
      · obtain ⟨hmem, hend⟩ := ih h
        refine ⟨List.mem_cons_of_mem e hmem, hend.imp_right ?_⟩
        rintro ⟨d, hd, heq⟩
        exact ⟨d, List.mem_cons_of_mem e hd, heq⟩

theorem Consistent.one_le (h : trak.Consistent) (he : e ∈ trak.sampleToChunk) :
    1 ≤ e.first_chunk.toNat := by
  have hfirst := h.first
  have hsorted := h.sorted
  cases htable : trak.sampleToChunk with
  | nil =>
    rw [htable] at he
    exact absurd he List.not_mem_nil
  | cons d rest =>
    rw [htable] at he hfirst hsorted
    have hd : d.first_chunk.toNat = 1 := congrArg BitVec.toNat (hfirst d rfl)
    rcases List.mem_cons.1 he with rfl | he
    · exact hd.ge
    · have hle : d.first_chunk.toNat ≤ e.first_chunk.toNat := (List.pairwise_cons.1 hsorted).1 e he
      exact hd.ge.trans hle

theorem Consistent.samplesFit (h : trak.Consistent) {global_timescale : Word}
    (hedits : trak.edit_list_table = none) (hcount : trak.sample_size_count.toNat ≤ 2 ^ 31) :
    trak.SamplesFit global_timescale where
  runs run hrun hlt := by
    obtain ⟨hmem, hend⟩ := entryRuns_mem hrun
    refine ⟨?_, fun _ => h.ids run.1 hmem⟩
    rcases hend with hend | ⟨e, he, hend⟩
    · have hval := toNat_ofNat_succ trak.chunk_offset_count_le
      rw [hend, toNat_sub_one (by rw [hval]; omega), hval]
      exact le_rfl
    · have hlast := h.last e he
      rw [hend, toNat_sub_one (h.one_le he)]
      omega
  samples := h.sum_runs.le
  syncs := h.syncs
  edits _ table htable := by
    rw [hedits] at htable
    exact absurd htable nofun
  count := hcount
  timescale _ := h.timescale
  stsd := h.stsd

end QtTrak

end Xine.Qt

/-!
## The frames of consistent tables

What the loops over entries, chunks and samples leave in the frames: each sample has its offset and its size, and
the sum of the durations in front of it for a time.
-/

namespace Xine.Qt

namespace QtTrak

open Consecutive

variable {trak : QtTrak} {memory : Memory} {s t : Samples} {e : SampleToChunk} {i j k index : ℕ}
  {countdown : Word} {frame : QtFrame}

/-! ## The time-to-sample table -/

/-- Where the time-to-sample table is stepped to behind `k` samples: what is left of an entry, or its end. -/
inductive TimesAt (trak : QtTrak) (k : ℕ) : ℕ → Word → Prop where
  | inside (before : List (ℕ × ℕ)) (run : ℕ × ℕ) (after : List (ℕ × ℕ)) (countdown : Word) :
    trak.sttsRuns = before ++ run :: after → RunLength.weight before + run.1 = k + countdown.toNat →
    0 < countdown.toNat → countdown.toNat ≤ run.1 → TimesAt trak k before.length countdown
  | behind (countdown : Word) : k = RunLength.weight trak.sttsRuns →
    TimesAt trak k trak.sttsRuns.length countdown

theorem timeToSample_run {run : ℕ × ℕ} {time : TimeToSample} (hrun : trak.sttsRuns[i]? = some run)
    (htime : trak.timeToSample memory i = some time) : run = (time.count.toNat, time.duration.toNat) := by
  unfold sttsRuns at hrun
  unfold timeToSample at htime
  obtain ⟨table, htable, htime⟩ := Option.bind_eq_some_iff.1 htime
  rw [htable, Option.elim_some, List.getElem?_map] at hrun
  obtain ⟨entry, hentry, rfl⟩ := Option.map_eq_some_iff.1 hrun
  have hlt := (List.getElem?_eq_some_iff.1 hentry).1
  rw [List.getElem?_append_left hlt, hentry] at htime
  rw [Option.some.inj htime]

theorem getElem?_middle {before after : List (ℕ × ℕ)} {run : ℕ × ℕ} :
    (before ++ run :: after)[before.length]? = some run := by
  rw [List.getElem?_append_right le_rfl, Nat.sub_self]
  rfl

theorem timeOf_succ {before after : List (ℕ × ℕ)} {run : ℕ × ℕ}
    (hruns : trak.sttsRuns = before ++ run :: after) (hle : RunLength.weight before ≤ k)
    (hlt : k < RunLength.weight before + run.1) : trak.timeOf (k + 1) = trak.timeOf k + run.2 := by
  unfold timeOf
  rw [List.take_add_one, hruns, RunLength.getElem?_expand hle hlt, List.sum_append]
  rfl

theorem TimesAt.step (h : TimesAt trak k index countdown) (hcounts : ∀ run ∈ trak.sttsRuns, run.1 ≠ 0)
    (hlt : k < RunLength.weight trak.sttsRuns) {time : TimeToSample}
    (htime : trak.timeToSample memory index = some time) {index' : ℕ} {countdown' : Word}
    (hrefresh : trak.refresh memory index (countdown - 1) = some (index', countdown')) :
    trak.timeOf (k + 1) = trak.timeOf k + time.duration.toNat ∧ TimesAt trak (k + 1) index' countdown' := by
  cases h with
  | behind _ hk => exact absurd hlt (hk ▸ lt_irrefl _)
  | inside before run after _ hruns hweight hpos hle =>
    have hrun := timeToSample_run (hruns ▸ getElem?_middle) htime
    have hduration : run.2 = time.duration.toNat := congrArg Prod.snd hrun
    refine ⟨hduration ▸ timeOf_succ hruns (by omega) (by omega), ?_⟩
    have hone : 1 ≤ countdown.toNat := hpos
    have hsub := toNat_sub_one hone
    unfold refresh at hrefresh
    by_cases hzero : countdown - 1 = 0
    · rw [if_pos hzero] at hrefresh
      obtain ⟨next, hnext, heq⟩ := Option.bind_eq_some_iff.1 hrefresh
      obtain ⟨rfl, rfl⟩ := Prod.mk.inj (Option.some.inj heq)
      have hused : countdown.toNat = 1 := by
        rw [hzero] at hsub
        have hval : (0 : Word).toNat = 0 := rfl
        omega
      cases after with
      | nil =>
        have hend : k + 1 = RunLength.weight trak.sttsRuns := by
          rw [hruns, RunLength.weight_append, RunLength.weight_cons, RunLength.weight_nil]
          omega
        have hlength : before.length + 1 = trak.sttsRuns.length := by
          rw [hruns, List.length_append, List.length_singleton]
        rw [hlength]
        exact .behind next.count hend
      | cons run' after =>
        have hsplit : trak.sttsRuns = (before ++ [run]) ++ run' :: after := by
          rw [hruns, List.append_assoc]
          rfl
        have hlength : before.length + 1 = (before ++ [run]).length := by
          rw [List.length_append, List.length_singleton]
        have hrun' : run'.1 = next.count.toNat := by
          have hget : trak.sttsRuns[before.length + 1]? = some run' := by
            rw [hsplit, hlength]
            exact getElem?_middle
          exact congrArg Prod.fst (timeToSample_run hget hnext)
        have hne : run'.1 ≠ 0 := by
          refine hcounts run' ?_
          rw [hsplit]
          exact List.mem_append_right _ List.mem_cons_self
        rw [hlength]
        refine .inside (before ++ [run]) run' after next.count hsplit ?_ (by omega) hrun'.ge
        rw [RunLength.weight_append, RunLength.weight_cons, RunLength.weight_nil]
        omega
    · rw [if_neg hzero] at hrefresh
      obtain ⟨rfl, rfl⟩ := Prod.mk.inj (Option.some.inj hrefresh)
      have hleft : 0 < (countdown - 1).toNat := by
        refine Nat.pos_of_ne_zero fun hval => hzero (BitVec.eq_of_toNat_eq hval)
      exact .inside before run after (countdown - 1) hruns (by omega) hleft (by omega)

/-! ## Samples -/

/-- A frame has the data of a sample: the offset of its chunk and the sizes in front of it there, its size and
its time, as 64 bit numbers. -/
def IsSample (trak : QtTrak) (k : ℕ) (frame : QtFrame) : Prop :=
  ∀ j < trak.chunk_offset_count, ∀ i < trak.samplesOf j, k = trak.firstSample j + i →
    frame.offset = (trak.chunkOffset j + BitVec.ofNat 64 (trak.sizesBefore j i)).toInt ∧
      frame.size = trak.sizeOf k ∧ frame.pts = (BitVec.ofNat 64 (trak.timeOf k)).toInt

/-- The first `k` samples are frames. -/
structure Filling (trak : QtTrak) (k : ℕ) (s : Samples) : Prop where
  counter : s.frame_counter = k
  pts : s.current_pts = BitVec.ofNat 64 (trak.timeOf k)
  times : TimesAt trak k s.pts_index s.pts_index_countdown
  frames : ∀ i < k, ∃ frame, s.frames[i]? = some frame ∧ trak.IsSample i frame

/-- The offset of a sample of a chunk. -/
def OffsetAt (trak : QtTrak) (j i : ℕ) (s : Samples) : Prop :=
  s.current_offset = trak.chunkOffset j + BitVec.ofNat 64 (trak.sizesBefore j i)

theorem setWidth_eq_ofNat (w : Word) : w.setWidth 64 = BitVec.ofNat 64 w.toNat := by
  refine BitVec.eq_of_toNat_eq ?_
  rw [BitVec.toNat_setWidth, BitVec.toNat_ofNat]

theorem sizesBefore_succ (trak : QtTrak) (j i : ℕ) :
    trak.sizesBefore j (i + 1) = trak.sizesBefore j i + (trak.sizeOf (trak.firstSample j + i)).toNat :=
  Finset.sum_range_succ _ i

theorem Filling.sample (h : trak.Filling (trak.firstSample j + i) s) (hconsistent : trak.Consistent)
    (hj : j < trak.chunk_offset_count) (hi : i < trak.samplesOf j) (hoffset : trak.OffsetAt j i s)
    (ht : trak.sampleStep memory s e = some t) :
    trak.Filling (trak.firstSample j + (i + 1)) t ∧ trak.OffsetAt j (i + 1) t := by
  obtain ⟨media_id, counts, size, time, index, countdown, -, hsize, htime, hrefresh, hlt, rfl⟩ :=
    sampleStep_eq_some_iff.1 ht
  have hinside : trak.firstSample j + i < RunLength.weight trak.sttsRuns := by
    rw [hconsistent.times, ← hconsistent.samples]
    exact start_add_lt hi hj
  obtain ⟨htimes, hat⟩ := h.times.step hconsistent.counts hinside htime hrefresh
  rw [h.counter] at hsize hlt
  have hsizeOf : trak.sizeOf (trak.firstSample j + i) = size := by
    unfold sizeOf
    rw [hsize]
    rfl
  refine ⟨⟨?_, ?_, hat, ?_⟩, ?_⟩
  · exact congrArg (· + 1) h.counter
  · dsimp only
    rw [← Nat.add_assoc, htimes, h.pts, setWidth_eq_ofNat, BitVec.ofNat_add]
  · intro l hl
    dsimp only
    rw [h.counter]
    by_cases hnew : l = trak.firstSample j + i
    · subst hnew
      refine ⟨_, List.getElem?_set_self hlt, ?_⟩
      -- the sample is in no other chunk
      intro j' hj' i' hi' heq
      obtain ⟨rfl, rfl⟩ := eq_of_start_add_eq hi hi' heq
      exact ⟨congrArg BitVec.toInt hoffset, hsizeOf.symm, congrArg BitVec.toInt h.pts⟩
    · rw [List.getElem?_set_ne (Ne.symm hnew)]
      exact h.frames l (by omega)
  · unfold OffsetAt
    dsimp only
    rw [hoffset, sizesBefore_succ, hsizeOf, setWidth_eq_ofNat, BitVec.ofNat_add, BitVec.add_assoc]

theorem Filling.samples {n : ℕ} (h : trak.Filling (trak.firstSample j + i) s)
    (hconsistent : trak.Consistent) (hj : j < trak.chunk_offset_count) (hn : i + n ≤ trak.samplesOf j)
    (hoffset : trak.OffsetAt j i s)
    (ht : (List.replicate n e).foldlM (trak.sampleStep memory) s = some t) :
    trak.Filling (trak.firstSample j + (i + n)) t := by
  induction n generalizing i s with
  | zero =>
    cases ht
    exact h
  | succ n ih =>
    obtain ⟨u, hu, hrest⟩ := Loops.foldlM_cons_eq_some.1 ht
    obtain ⟨hfilling, hnext⟩ := h.sample hconsistent hj (by omega) hoffset hu
    have hall := ih hfilling (by omega) hnext hrest
    rwa [Nat.add_right_comm, Nat.add_assoc i n 1] at hall

theorem Filling.chunk (h : trak.Filling (trak.firstSample j) s) (hconsistent : trak.Consistent)
    (hentry : chunkEntry trak.sampleToChunk j = some e) (ht : trak.chunkStep memory e s j = some t) :
    trak.Filling (trak.firstSample (j + 1)) t := by
  have hsamples : trak.samplesOf j = e.samples_per_chunk.toNat := by
    unfold samplesOf
    rw [hentry]
    rfl
  unfold chunkStep at ht
  obtain ⟨offset, hoffset, ht⟩ := Option.bind_eq_some_iff.1 ht
  have hj := (List.getElem?_eq_some_iff.1 hoffset).1
  have hstart : trak.Filling (trak.firstSample j + 0) { s with current_offset := offset } :=
    ⟨h.counter, h.pts, h.times, h.frames⟩
  have hat : trak.OffsetAt j 0 { s with current_offset := offset } := by
    unfold OffsetAt chunkOffset sizesBefore
    rw [List.getD_eq_getElem?_getD, hoffset, Finset.sum_range_zero]
    exact (BitVec.add_zero offset).symm
  have hall := hstart.samples hconsistent hj (by omega) hat ht
  rw [Nat.zero_add, ← hsamples] at hall
  unfold firstSample
  rw [start_succ]
  exact hall

theorem Filling.chunks (hconsistent : trak.Consistent) {l : List (SampleToChunk × ℕ)}
    (h : trak.Filling (trak.firstSample j) s) (horder : l.map Prod.snd = List.range' j l.length)
    (hentry : ∀ v ∈ l, chunkEntry trak.sampleToChunk v.2 = some v.1)
    (ht : l.foldlM (fun s v => trak.chunkStep memory v.1 s v.2) s = some t) :
    trak.Filling (trak.firstSample (j + l.length)) t := by
  induction l generalizing j s with
  | nil =>
    cases ht
    exact h
  | cons v l ih =>
    obtain ⟨u, hu, hrest⟩ := Loops.foldlM_cons_eq_some.1 ht
    obtain ⟨hv, hl⟩ := List.forall_mem_cons.1 hentry
    rw [List.map_cons, List.length_cons, List.range'_succ] at horder
    obtain ⟨rfl, htail⟩ := List.cons.inj horder
    have hall := ih (h.chunk hconsistent hv hu) htail hl hrest
    rwa [Nat.add_assoc, Nat.add_comm 1] at hall

theorem expandSamples_eq {frames : List QtFrame} {first : TimeToSample} :
    trak.expandSamples memory frames first =
      trak.visits.foldlM (fun s v => trak.chunkStep memory v.1 s v.2) {
        frames
        frame_counter := 0
        current_offset := 0
        current_pts := 0
        pts_index := 0
        pts_index_countdown := first.count
        media_id_counts := List.replicate trak.stsd_atoms_count 0 } := by
  unfold visits
  rw [Loops.foldlM_flatMap]
  simp only [List.foldlM_map]
  rfl

theorem timesAt_zero (hcounts : ∀ run ∈ trak.sttsRuns, run.1 ≠ 0) {first : TimeToSample}
    (hfirst : trak.timeToSample memory 0 = some first) : TimesAt trak 0 0 first.count := by
  cases hruns : trak.sttsRuns with
  | nil =>
    have hat := @TimesAt.behind trak 0 first.count (by rw [hruns]; rfl)
    rwa [hruns] at hat
  | cons run after =>
    have hrun := timeToSample_run (i := 0) (by rw [hruns]; rfl) hfirst
    have hcount : run.1 = first.count.toNat := congrArg Prod.fst hrun
    have hne := hcounts run (by rw [hruns]; exact List.mem_cons_self)
    refine TimesAt.inside [] run after first.count hruns ?_ (by omega) hcount.ge
    rw [RunLength.weight_nil]
    omega

theorem Consistent.isSample (h : trak.Consistent) {frames : List QtFrame} {first : TimeToSample}
    (hfirst : trak.timeToSample memory 0 = some first)
    (hs : trak.expandSamples memory frames first = some s) :
    ∀ k < trak.sample_size_count.toNat, ∃ frame, s.frames[k]? = some frame ∧ trak.IsSample k frame := by
  obtain ⟨hmap, hentry⟩ := h.visits_eq
  have hlength : trak.visits.length = trak.chunk_offset_count := by
    rw [← List.length_map, hmap, List.length_range]
  have horder : trak.visits.map Prod.snd = List.range' 0 trak.visits.length := by
    rw [hmap, hlength, List.range_eq_range']
  rw [expandSamples_eq] at hs
  have hstart : trak.Filling (trak.firstSample 0) {
      frames
      frame_counter := 0
      current_offset := 0
      current_pts := 0
      pts_index := 0
      pts_index_countdown := first.count
      media_id_counts := List.replicate trak.stsd_atoms_count 0 } :=
    ⟨rfl, rfl, timesAt_zero h.counts hfirst, fun i hi => absurd hi (Nat.not_lt_zero i)⟩
  have hall := hstart.chunks h horder hentry hs
  rw [Nat.zero_add, hlength, h.samples] at hall
  exact hall.frames

end QtTrak

end Xine.Qt
