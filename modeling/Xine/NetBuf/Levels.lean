import Xine.NetBuf.Counting

/-!
# Fill levels

The fill level of a fifo is `(100 * fifo_fill) / (fifo_fill + fifo_free - 1)`, where the buffer that is put or
taken counts neither as queued nor as free. The divisor is zero when one buffer is left besides it: `Computes`
says when there is a level and it is in range.
-/

namespace Xine.NetBuf

open Buffer (FifoBuffer BufElement Elem Store Represents)
open Runs (run Guarded guarded_iff_reaches)

/-! ## The level -/

/-- There is a fill level for so many queued and free buffers, and it is in range. -/
def Computes (fill free : ℤ) : Prop :=
  fill + free ≠ 1 ∧ (free = 0 → fill = 0 ∨ 102 ≤ fill) ∧
    (21474836 < fill → -(fill + free - 1) < toInt (100 * fill))

/-- Percent. -/
def InRange (level : ℤ) : Prop := 0 ≤ level ∧ level ≤ 100

theorem toInt_of_lt {n : ℤ} (hlow : -2 ^ 31 ≤ n) (hhigh : n < 2 ^ 31) : toInt n = n := by
  unfold toInt
  exact Int.bmod_eq_of_le (by omega) (by omega)

theorem toInt_bounds (n : ℤ) : -2 ^ 31 ≤ toInt n ∧ toInt n < 2 ^ 31 := by
  unfold toInt
  have hlow := Int.le_bmod (x := n) (m := 2 ^ 32) (by decide)
  have hhigh := Int.bmod_lt (x := n) (m := 2 ^ 32) (by decide)
  omega

theorem tdiv_inRange {n d : ℤ} (hd : 0 < d) : InRange (n.tdiv d) ↔ -d < n ∧ n < 101 * d := by
  unfold InRange
  rcases Int.le_total 0 n with hn | hn
  · have hnonneg : 0 ≤ n / d := Int.ediv_nonneg hn hd.le
    have hlt : n / d < 101 ↔ n < 101 * d := Int.ediv_lt_iff_lt_mul hd
    rw [Int.tdiv_eq_ediv_of_nonneg hn]
    omega
  · -- a negative number is rounded towards zero
    have hneg : n.tdiv d = -(-n / d) := by
      calc n.tdiv d = (-(-n)).tdiv d := by rw [Int.neg_neg]
        _ = -((-n).tdiv d) := Int.neg_tdiv (-n) d
        _ = -(-n / d) := by rw [Int.tdiv_eq_ediv_of_nonneg (by omega)]
    have hnonneg : 0 ≤ -n / d := Int.ediv_nonneg (by omega) hd.le
    have hlt : -n / d < 1 ↔ -n < 1 * d := Int.ediv_lt_iff_lt_mul hd
    rw [hneg]
    omega

theorem fillLevel_iff {fifo : FifoBuffer} (hfill : 0 ≤ fifo.fifo_size) (hfree : 0 ≤ fifo.buffer_pool_num_free)
    (hint : fifo.fifo_size + fifo.buffer_pool_num_free < 2 ^ 31) :
    (∃ level, fillLevel fifo = some level ∧ InRange level) ↔
      Computes fifo.fifo_size fifo.buffer_pool_num_free := by
  unfold fillLevel divide Computes
  generalize fifo.fifo_size = fill at hfill hint ⊢
  generalize fifo.buffer_pool_num_free = free at hfree hint ⊢
  have hdivisor : toInt (fill + free - 1) = fill + free - 1 := toInt_of_lt (by omega) (by omega)
  rw [hdivisor]
  by_cases hzero : fill + free - 1 = 0
  · rw [if_pos hzero]
    refine iff_of_false ?_ fun h => h.1 (by omega)
    rintro ⟨level, hlevel, -⟩
    exact absurd hlevel.symm (Option.some_ne_none level)
  · rw [if_neg hzero]
    simp only [Option.some.injEq, exists_eq_left']
    rcases lt_or_ge 0 (fill + free - 1) with hpos | hneg
    · rw [tdiv_inRange hpos]
      by_cases hsmall : fill ≤ 21474836
      · have hn : toInt (100 * fill) = 100 * fill := toInt_of_lt (by omega) (by omega)
        rw [hn]
        omega
      · -- here the numerator may have wrapped
        have hn := toInt_bounds (100 * fill)
        omega
    · obtain ⟨rfl, rfl⟩ : fill = 0 ∧ free = 0 := by omega
      refine iff_of_true ?_ ⟨by omega, fun _ => Or.inl rfl, by omega⟩
      have hn : (toInt (100 * 0)).tdiv (0 + 0 - 1) = 0 := rfl
      rw [hn]
      exact ⟨Int.le_refl 0, by omega⟩

/-! ## No other division fails -/

theorem divide_isSome {a b : ℤ} (h : b ≠ 0) : ∃ q, divide a b = some q := ⟨_, if_neg h⟩

theorem lengthOfPts_isSome (d : Side) : ∃ d', d.lengthOfPts = some d' ∧ d'.fifo_fill = d.fifo_fill := by
  unfold Side.lengthOfPts
  dsimp only
  split_ifs with h
  · obtain ⟨q, hq⟩ := divide_isSome (a := d.fifo_size) h
    exact ⟨_, Option.map_eq_some_iff.2 ⟨q, hq, rfl⟩, rfl⟩
  · exact ⟨_, rfl, rfl⟩

theorem lengthOfBitrate_isSome (d : Side) {br : ℤ} (h : br ≠ 0) :
    ∃ d', d.lengthOfBitrate br = some d' ∧ d'.fifo_fill = d.fifo_fill := by
  obtain ⟨q, hq⟩ := divide_isSome (a := 8000 * d.fifo_size) h
  exact ⟨_, Option.map_eq_some_iff.2 ⟨q, hq, rfl⟩, rfl⟩

theorem fill_setPts (d : Side) (pts : ℤ) (action : FifoAction) :
    (d.setPts pts action).fifo_fill = d.fifo_fill := by
  cases action <;> rfl

section Callbacks

variable {this this' : Nbc} {info : StreamInfo} {w : Which} {fifo : FifoBuffer} {buf : BufElement}
  {action : FifoAction} {level : ℤ}

theorem compute_isSome (d : Side) (br : ℤ) (h : fillLevel fifo = some level) :
    ∃ d', d.compute br fifo buf action = some d' ∧ d'.fifo_fill = level := by
  unfold Side.compute
  rw [h, Option.bind_some]
  dsimp only
  split_ifs with hbr hpts hlast
  · exact lengthOfBitrate_isSome _ hbr
  · obtain ⟨d', hd', hfill⟩ := lengthOfPts_isSome (Side.setPts _ buf.pts action)
    exact ⟨d', hd', by rw [hfill, fill_setPts]⟩
  · exact lengthOfBitrate_isSome _ hlast
  · exact ⟨_, rfl, rfl⟩

theorem computeFifoLength_isSome (h : fillLevel fifo = some level) :
    ∃ this', nbcComputeFifoLength this info w fifo buf action = some this' ∧
      (this'.side w).fifo_fill = level ∧ (∀ v, v ≠ w → this'.side v = this.side v) ∧
      this'.high_water_mark = this.high_water_mark := by
  obtain ⟨d, hd, hfill⟩ := @compute_isSome fifo buf action level (this.side w) (info.bitrate w) h
  refine ⟨this.setSide w d, ?_, ?_, fun v hne => this.setSide_side_of_ne d hne, rfl⟩
  · rw [nbcComputeFifoLength, hd]
    rfl
  · rw [Nbc.setSide_side, hfill]

theorem computeFifoLength_eq_none (h : fillLevel fifo = none) :
    nbcComputeFifoLength this info w fifo buf action = none := by
  unfold nbcComputeFifoLength Side.compute
  rw [h]
  rfl

theorem putBuffering_isSome (h : this.high_water_mark ≠ 0) :
    ∃ called, nbcPutBuffering this info = some called ∧ called.1.side = this.side ∧
      called.1.high_water_mark = this.high_water_mark := by
  obtain ⟨video_p, hvideo⟩ := divide_isSome (a := (this.side .video).fifo_length * 50) h
  obtain ⟨audio_p, haudio⟩ := divide_isSome (a := (this.side .audio).fifo_length * 50) h
  obtain ⟨progress, hprogress⟩ : ∃ progress, bufferingProgress this info = some progress :=
    ⟨_, Option.bind_eq_some_iff.2 ⟨video_p, hvideo, Option.map_eq_some_iff.2 ⟨audio_p, haudio, rfl⟩⟩⟩
  unfold nbcPutBuffering
  by_cases hwater : highWater this info = true
  · rw [if_pos hwater]
    exact ⟨_, rfl, rfl, rfl⟩
  · rw [if_neg hwater]
    refine ⟨_, Option.map_eq_some_iff.2 ⟨progress, hprogress, rfl⟩, ?_⟩
    split_ifs <;> exact ⟨rfl, rfl⟩

theorem start_frame (v : Which) : ((nbcStart this).1.side v).fifo_fill = (this.side v).fifo_fill ∧
    (nbcStart this).1.high_water_mark = this.high_water_mark := by
  unfold nbcStart
  split_ifs <;> exact ⟨rfl, rfl⟩

/-- The fill levels after a call are the old ones, but for the new level of one fifo. -/
structure Fills (w : Which) (level : ℤ) (this this' : Nbc) : Prop where
  new : (this'.side w).fifo_fill = level
  old : ∀ v, v ≠ w → (this'.side v).fifo_fill = (this.side v).fifo_fill
  high_water_mark : this'.high_water_mark = this.high_water_mark

theorem put_fills (hdata : buf.isControl = false) (hmark : this.high_water_mark ≠ 0)
    (h : fillLevel fifo = some level) :
    ∃ called, nbcPutCb this info w fifo buf = some called ∧ Fills w level this called.1 := by
  have hdata' : ¬buf.isControl = true := by rw [hdata]; exact Bool.false_ne_true
  obtain ⟨nbc, hnbc, hnew, hold, hwater⟩ := @computeFifoLength_isSome (nbcStart this).1 info w fifo buf
    .put level h
  have hkept : nbc.high_water_mark = this.high_water_mark := by rw [hwater, (start_frame w).2]
  have hfills : Fills w level this nbc :=
    ⟨hnew, fun v hne => by rw [hold v hne, (start_frame v).1], hkept⟩
  unfold nbcPutCb
  rw [if_neg hdata']
  dsimp only
  rw [hnbc, Option.bind_some]
  split_ifs with hbuffering
  · obtain ⟨called, hcalled, hside, hmark'⟩ := @putBuffering_isSome nbc info (by rw [hkept]; exact hmark)
    refine ⟨_, by rw [hcalled]; rfl, ?_, ?_, ?_⟩
    · rw [← hnew, ← hside]
    · intro v hne
      rw [← hfills.old v hne, ← hside]
    · exact hmark'.trans hkept
  · exact ⟨_, rfl, hfills⟩

theorem getEnabled_frame : (nbcGetEnabled this info w fifo).1.high_water_mark = this.high_water_mark := by
  unfold nbcGetEnabled
  split_ifs <;> rfl

theorem get_fills (hdata : buf.isControl = false) (h : fillLevel fifo = some level) :
    ∃ called, nbcGetCb this info w fifo buf = some called ∧ Fills w level this called.1 := by
  have hdata' : ¬buf.isControl = true := by rw [hdata]; exact Bool.false_ne_true
  obtain ⟨nbc, hnbc, hnew, hold, hwater⟩ := @computeFifoLength_isSome this info w fifo buf .get level h
  have hfills : Fills w level this nbc := ⟨hnew, fun v hne => by rw [hold v hne], hwater⟩
  unfold nbcGetCb
  rw [if_neg hdata', hnbc, Option.map_some]
  split_ifs
  · refine ⟨_, rfl, ?_, ?_, ?_⟩
    · rw [side_getEnabled, hnew]
    · intro v hne
      rw [side_getEnabled, hfills.old v hne]
    · rw [getEnabled_frame, hwater]
  · exact ⟨_, rfl, hfills⟩

theorem Fills.inRange_iff (h : Fills w level this this') (hold : ∀ v, InRange (this.side v).fifo_fill) :
    (∀ v, InRange (this'.side v).fifo_fill) ↔ InRange level := by
  constructor
  · intro hall
    rw [← h.new]
    exact hall w
  · intro hlevel v
    rcases eq_or_ne v w with rfl | hne
    · rw [h.new]
      exact hlevel
    · rw [h.old v hne]
      exact hold v

/-- The fifo whose buffers a callback counts. -/
structure Numbers (fifo : FifoBuffer) : Prop where
  fill : 0 ≤ fifo.fifo_size
  free : 0 ≤ fifo.buffer_pool_num_free
  int : fifo.fifo_size + fifo.buffer_pool_num_free < 2 ^ 31

theorem inRange_iff {call : Option (Nbc × List Effect)} (hnumbers : Numbers fifo)
    (hold : ∀ v, InRange (this.side v).fifo_fill) (hnone : fillLevel fifo = none → call = none)
    (hfills : ∀ level, fillLevel fifo = some level →
      ∃ called, call = some called ∧ Fills w level this called.1) :
    (∃ called, call = some called ∧ ∀ v, InRange (called.1.side v).fifo_fill) ↔
      Computes fifo.fifo_size fifo.buffer_pool_num_free := by
  rw [← fillLevel_iff hnumbers.fill hnumbers.free hnumbers.int]
  cases hlevel : fillLevel fifo with
  | none =>
    rw [hnone hlevel]
    refine iff_of_false ?_ ?_
    · rintro ⟨called, hcalled, -⟩
      exact absurd hcalled.symm (Option.some_ne_none called)
    · rintro ⟨level, hlevel, -⟩
      exact absurd hlevel.symm (Option.some_ne_none level)
  | some level =>
    obtain ⟨called, hcalled, hfills⟩ := hfills level hlevel
    rw [hcalled]
    simp only [Option.some.injEq, exists_eq_left']
    exact hfills.inRange_iff hold

theorem put_eq_none (hdata : buf.isControl = false) (h : fillLevel fifo = none) :
    nbcPutCb this info w fifo buf = none := by
  unfold nbcPutCb
  rw [hdata, if_neg Bool.false_ne_true]
  dsimp only
  rw [computeFifoLength_eq_none h]
  rfl

theorem get_eq_none (hdata : buf.isControl = false) (h : fillLevel fifo = none) :
    nbcGetCb this info w fifo buf = none := by
  unfold nbcGetCb
  rw [hdata, if_neg Bool.false_ne_true, computeFifoLength_eq_none h]
  rfl

theorem put_inRange_iff (hdata : buf.isControl = false) (hmark : this.high_water_mark ≠ 0)
    (hnumbers : Numbers fifo) (hold : ∀ v, InRange (this.side v).fifo_fill) :
    (∃ called, nbcPutCb this info w fifo buf = some called ∧ ∀ v, InRange (called.1.side v).fifo_fill) ↔
      Computes fifo.fifo_size fifo.buffer_pool_num_free :=
  inRange_iff hnumbers hold (put_eq_none hdata) fun _ hlevel => put_fills hdata hmark hlevel

theorem get_inRange_iff (hdata : buf.isControl = false) (hnumbers : Numbers fifo)
    (hold : ∀ v, InRange (this.side v).fifo_fill) :
    (∃ called, nbcGetCb this info w fifo buf = some called ∧ ∀ v, InRange (called.1.side v).fifo_fill) ↔
      Computes fifo.fifo_size fifo.buffer_pool_num_free :=
  inRange_iff hnumbers hold (get_eq_none hdata) fun _ hlevel => get_fills hdata hlevel

/-! ### Control buffers -/

/-- What a callback on a control buffer leaves as it is. -/
structure Unfilled (this this' : Nbc) : Prop where
  fill : ∀ v, (this'.side v).fifo_fill = (this.side v).fifo_fill
  high_water_mark : this'.high_water_mark = this.high_water_mark

theorem unfilled_setSide {d : Side} (h : d.fifo_fill = (this.side w).fifo_fill) :
    Unfilled this (this.setSide w d) := by
  refine ⟨fun v => ?_, rfl⟩
  rcases eq_or_ne v w with rfl | hne
  · rw [Nbc.setSide_side, h]
  · rw [Nbc.setSide_side_of_ne this d hne]

theorem Unfilled.trans {this'' : Nbc} (h : Unfilled this this') (h' : Unfilled this' this'') :
    Unfilled this this'' :=
  ⟨fun v => (h'.fill v).trans (h.fill v), h'.high_water_mark.trans h.high_water_mark⟩

theorem unfilled_note : Unfilled this (nbcNote this w fifo) := unfilled_setSide rfl

theorem unfilled_putControl : Unfilled this (nbcPutControl this w buf).1 := by
  unfold nbcPutControl
  split_ifs
  · exact ⟨fun _ => rfl, rfl⟩
  · exact ⟨fun _ => rfl, rfl⟩
  · exact ⟨fun _ => rfl, rfl⟩
  · exact unfilled_setSide rfl
  · exact ⟨fun _ => rfl, rfl⟩

theorem put_control (hcontrol : buf.isControl = true) :
    ∃ called, nbcPutCb this info w fifo buf = some called ∧ Unfilled this called.1 :=
  ⟨_, if_pos hcontrol, unfilled_putControl.trans unfilled_note⟩

theorem get_control (hcontrol : buf.isControl = true) :
    ∃ called, nbcGetCb this info w fifo buf = some called ∧ Unfilled this called.1 := by
  refine ⟨_, if_pos hcontrol, Unfilled.trans ?_ unfilled_note⟩
  split_ifs
  · exact unfilled_setSide rfl
  · exact ⟨fun _ => rfl, rfl⟩

theorem mark_of_call {call : Option (Nbc × List Effect)} {called : Nbc × List Effect}
    (hcontrol : buf.isControl = true → ∃ called, call = some called ∧ Unfilled this called.1)
    (hnone : buf.isControl = false → fillLevel fifo = none → call = none)
    (hfills : buf.isControl = false → ∀ level, fillLevel fifo = some level →
      ∃ called, call = some called ∧ Fills w level this called.1)
    (h : call = some called) : called.1.high_water_mark = this.high_water_mark := by
  cases hkind : buf.isControl with
  | true =>
    obtain ⟨called', hcalled, hunfilled⟩ := hcontrol hkind
    obtain rfl := Option.some.inj (h.symm.trans hcalled)
    exact hunfilled.high_water_mark
  | false =>
    cases hlevel : fillLevel fifo with
    | none => exact absurd (h.symm.trans (hnone hkind hlevel)) (Option.some_ne_none called)
    | some level =>
      obtain ⟨called', hcalled, hfills⟩ := hfills hkind level hlevel
      obtain rfl := Option.some.inj (h.symm.trans hcalled)
      exact hfills.high_water_mark

theorem put_mark {called : Nbc × List Effect} (hmark : this.high_water_mark ≠ 0)
    (h : nbcPutCb this info w fifo buf = some called) :
    called.1.high_water_mark = this.high_water_mark :=
  mark_of_call put_control put_eq_none (fun hdata _ hlevel => put_fills hdata hmark hlevel) h

theorem get_mark {called : Nbc × List Effect} (h : nbcGetCb this info w fifo buf = some called) :
    called.1.high_water_mark = this.high_water_mark :=
  mark_of_call get_control get_eq_none (fun hdata _ hlevel => get_fills hdata hlevel) h

end Callbacks

/-! ## The buffers -/

variable {τ : Type*} [DecidableEq τ]

omit [DecidableEq τ] in
theorem pool_add_queue_le {n : ℕ} {a : Store τ} (h : a.Inv n) : a.pool.length + a.queue.length ≤ n := by
  have hmem : ∀ x ∈ a.pool ++ a.queue, x ∈ List.range n := by
    intro x hx
    have hpos : 0 < a.places x := by
      rcases List.mem_append.1 hx with hx | hx
      · have := List.count_pos_iff.2 hx
        unfold Store.places
        omega
      · have := List.count_pos_iff.2 hx
        unfold Store.places
        omega
    rw [h.places_eq x] at hpos
    by_contra hout
    rw [List.mem_range] at hout
    simp [hout] at hpos
  have hnodup : (a.pool ++ a.queue).Nodup := by
    refine List.nodup_iff_count_le_one.2 fun x => ?_
    have hone := h.places_le_one x
    unfold Store.places at hone
    rw [List.count_append]
    omega
  have hlength := (List.subperm_of_subset hnodup hmem).length_le
  rwa [List.length_append, List.length_range] at hlength

omit [DecidableEq τ] in
theorem numbers {n : ℕ} {f : Buffer.State τ} {a : Store τ} (h : Represents n f a) (hclearing : f.clearing = none) :
    0 ≤ f.fifo.fifo_size ∧ 0 ≤ f.fifo.buffer_pool_num_free ∧
      f.fifo.fifo_size + f.fifo.buffer_pool_num_free ≤ n := by
  have hsize := (h.fifo hclearing).fifo_size
  have hfree := h.pool.num_free
  have hle := pool_add_queue_le h.inv
  omega

/-! ## Runs -/

/-- Where an action has data put or taken, there is a fill level and it is in range. -/
def Fits (s : State τ) : Action τ → Prop
  | .on w (.put u e) => (fifoStep (s.fifo w) (.put u e)).isSome = true →
      ((s.fifo w).fifo.elements e).isControl = false →
        Computes (s.fifo w).fifo.fifo_size (s.fifo w).fifo.buffer_pool_num_free
  | .on w (.get u e) => (fifoStep (s.fifo w) (.get u e)).isSome = true →
      ((s.fifo w).fifo.elements e).isControl = false →
        Computes ((s.fifo w).fifo.fifo_size - 1) (s.fifo w).fifo.buffer_pool_num_free
  | _ => True

/-- The fill levels are in range. -/
def Levels (s : State τ) : Prop := ∀ w, InRange (s.nbc.side w).fifo_fill

structure Sound (capacity : Which → Fin (2 ^ 31)) (s : State τ) : Prop where
  levels : Levels s
  represents : ∀ w, ∃ a : Store τ, Represents (capacity w) (s.fifo w) a
  high_water_mark : s.nbc.high_water_mark ≠ 0

variable {capacity : Which → Fin (2 ^ 31)} {s t : State τ} {w : Which} {f : Buffer.State τ}

omit [DecidableEq τ] in
theorem numbers_of_represents {n : Fin (2 ^ 31)} (h : ∃ a : Store τ, Represents n f a)
    (hclearing : f.clearing = none) : Numbers f.fifo := by
  obtain ⟨a, hrep⟩ := h
  obtain ⟨hfill, hfree, hsum⟩ := numbers hrep hclearing
  have hn := n.isLt
  exact ⟨hfill, hfree, by omega⟩

theorem represents_fifoStep {n : ℕ} {g : Buffer.State τ} {act : Buffer.Action τ}
    (h : ∃ a : Store τ, Represents n f a) (hstep : fifoStep f act = some g) :
    ∃ a : Store τ, Represents n g a := by
  obtain ⟨a, hrep⟩ := h
  obtain ⟨b, -, hrep'⟩ := Buffer.represents_step hrep (buffer_of_fifoStep hstep)
  exact ⟨b, hrep'⟩

theorem callback_inRange_iff {act : Buffer.Action τ} (h : Sound capacity s)
    (hstep : fifoStep (s.fifo w) act = some f) :
    (∃ called, callback s w f act = some called ∧ ∀ v, InRange (called.1.side v).fifo_fill) ↔
      Fits s (.on w act) := by
  have hperformed : (fifoStep (s.fifo w) act).isSome = true := Option.isSome_iff_exists.2 ⟨f, hstep⟩
  cases act with
  | put u e =>
    cases hcontrol : ((s.fifo w).fifo.elements e).isControl with
    | true =>
      obtain ⟨called, hcalled, hunfilled⟩ := @put_control s.nbc s.info w (s.fifo w).fifo _ hcontrol
      refine iff_of_true ⟨called, hcalled, fun v => ?_⟩ fun _ hdata => ?_
      · rw [hunfilled.fill v]
        exact h.levels v
      · exact absurd (hcontrol.symm.trans hdata) Bool.false_ne_true.symm
    | false =>
      have hidle : (s.fifo w).clearing = none := by
        obtain ⟨⟨-, hclearing⟩, -⟩ := Option.ite_none_right_eq_some.1 (buffer_of_fifoStep hstep)
        exact Option.isNone_iff_eq_none.1 hclearing
      have hnumbers := numbers_of_represents (h.represents w) hidle
      have hiff := @put_inRange_iff s.nbc s.info w _ _ hcontrol h.high_water_mark hnumbers h.levels
      exact hiff.trans ⟨fun hcomputes _ _ => hcomputes, fun hfits => hfits hperformed hcontrol⟩
  | get u e =>
    have hbuffer := buffer_of_fifoStep hstep
    obtain ⟨helements, hsize, hfree, hidle⟩ := get_frame hbuffer
    have hrep := represents_fifoStep (h.represents w) hstep
    cases hcontrol : ((s.fifo w).fifo.elements e).isControl with
    | true =>
      obtain ⟨called, hcalled, hunfilled⟩ := @get_control s.nbc s.info w f.fifo (f.fifo.elements e)
        (by rw [helements]; exact hcontrol)
      refine iff_of_true ⟨called, hcalled, fun v => ?_⟩ fun _ hdata => ?_
      · rw [hunfilled.fill v]
        exact h.levels v
      · exact absurd (hcontrol.symm.trans hdata) Bool.false_ne_true.symm
    | false =>
      have hiff := @get_inRange_iff s.nbc s.info w f.fifo (f.fifo.elements e)
        (by rw [helements]; exact hcontrol) (numbers_of_represents hrep hidle) h.levels
      rw [hsize, hfree] at hiff
      exact hiff.trans ⟨fun hcomputes _ _ => hcomputes, fun hfits => hfits hperformed hcontrol⟩
  | insert | alloc | tryAlloc | free | fill | clear | clearScan | clearFree | clearEnd =>
    exact iff_of_true ⟨_, rfl, h.levels⟩ trivial

omit [DecidableEq τ] in
theorem callback_mark {act : Buffer.Action τ} {called : Nbc × List Effect} (h : Sound capacity s)
    (hcalled : callback s w f act = some called) :
    called.1.high_water_mark = s.nbc.high_water_mark := by
  cases act with
  | put u e => exact put_mark h.high_water_mark hcalled
  | get u e => exact get_mark hcalled
  | insert | alloc | tryAlloc | free | fill | clear | clearScan | clearFree | clearEnd =>
    cases hcalled
    rfl

theorem represents_update {act : Buffer.Action τ} (h : Sound capacity s)
    (hstep : fifoStep (s.fifo w) act = some f) (v : Which) :
    ∃ a : Store τ, Represents (capacity v) (Function.update s.fifo w f v) a := by
  rcases eq_or_ne v w with rfl | hne
  · rw [Function.update_self]
    exact represents_fifoStep (h.represents v) hstep
  · rw [Function.update_of_ne hne]
    exact h.represents v

theorem sound_step {a : Action τ} (h : Sound capacity s) (hfits : Fits s a) :
    ∃ t, step s a = some t ∧ Sound capacity t := by
  cases a with
  | on w act =>
    cases hf : fifoStep (s.fifo w) act with
    | none =>
      have hstep : step s (.on w act) = some s := by
        change (fifoStep (s.fifo w) act).elim (some s) (perform s w act) = some s
        rw [hf]
        rfl
      exact ⟨s, hstep, h⟩
    | some f =>
      obtain ⟨called, hcalled, hlevels⟩ := (callback_inRange_iff h hf).2 hfits
      refine ⟨{ s with
        nbc := called.1
        fifo := Function.update s.fifo w f
        effects := s.effects ++ called.2 }, ?_, hlevels, represents_update h hf, ?_⟩
      · change (fifoStep (s.fifo w) act).elim (some s) (perform s w act) = _
        rw [hf]
        exact Option.map_eq_some_iff.2 ⟨called, hcalled, rfl⟩
      · dsimp only
        rw [callback_mark h hcalled]
        exact h.high_water_mark
  | allocates w =>
    refine ⟨_, rfl, fun v => ?_, h.represents, ?_⟩
    · have hside := congrFun (@side_allocCb s.nbc (s.fifo w).fifo) v
      dsimp only
      rw [hside]
      exact h.levels v
    · have hmark : (nbcAllocCb s.nbc (s.fifo w).fifo).1.high_water_mark = s.nbc.high_water_mark := by
        unfold nbcAllocCb
        split_ifs <;> rfl
      dsimp only
      rw [hmark]
      exact h.high_water_mark
  | setInfo info => exact ⟨_, rfl, h.levels, h.represents, h.high_water_mark⟩

theorem breaks {a : Action τ} (h : Sound capacity s) (hfits : ¬Fits s a) (hstep : step s a = some t) :
    ¬Levels t := by
  intro hlevels
  cases a with
  | on w act =>
    have hon : (fifoStep (s.fifo w) act).elim (some s) (perform s w act) = some t := hstep
    cases hf : fifoStep (s.fifo w) act with
    | none =>
      -- who waits fits
      refine hfits ?_
      cases act with
      | put u e => exact fun hperformed => by rw [hf] at hperformed; exact absurd hperformed Bool.false_ne_true
      | get u e => exact fun hperformed => by rw [hf] at hperformed; exact absurd hperformed Bool.false_ne_true
      | insert | alloc | tryAlloc | free | fill | clear | clearScan | clearFree | clearEnd => trivial
    | some f =>
      rw [hf] at hon
      obtain ⟨called, hcalled, rfl⟩ := Option.map_eq_some_iff.1 hon
      exact hfits ((callback_inRange_iff h hf).1 ⟨called, hcalled, hlevels⟩)
  | allocates w => exact hfits trivial
  | setInfo info => exact hfits trivial

omit [DecidableEq τ] in
theorem sound_start (capacity : Which → Fin (2 ^ 31)) (buf_size : BitVec 32) (info : StreamInfo) :
    Sound capacity (start (fun w => capacity w) buf_size info : State τ) :=
  ⟨fun _ => ⟨Int.le_refl 0, Int.natCast_nonneg 100⟩,
    fun _ => ⟨_, Buffer.represents_new (Option.some_get _).symm⟩,
    fun h => absurd (show (5000 : ℤ) = 0 from h) (by decide)⟩

/-- In the runs of the threads on two new fifos nothing is divided by zero and the fill levels are in range
exactly if every buffer of data is put and taken where the numbers of the buffers give a level. -/
theorem levels_run (capacity : Which → Fin (2 ^ 31)) (buf_size : BitVec 32) (info : StreamInfo)
    (actions : List (Action τ)) :
    Guarded step Fits (start (fun w => capacity w) buf_size info) actions ↔
      ∀ before, before <+: actions →
        ∃ s, run step (start (fun w => capacity w) buf_size info) before = some s ∧ Levels s :=
  @guarded_iff_reaches _ _ step Fits (fun _ => True) (Sound capacity) Levels (fun _ h => h.levels)
    (fun _ _ h _ hfits => sound_step h hfits) (fun _ _ _ h _ hfits hstep => breaks h hfits hstep) _ actions
    (sound_start capacity buf_size info) fun _ _ => trivial

/-- The first buffer of a pool of two is put. -/
theorem put_divides_by_zero :
    run step (start (fun _ => 2) 2048#32 noInfo) [.on .video (.alloc 0 1), .on .video (.put 0 1)] =
      (none : Option (State ℕ)) := rfl

end Xine.NetBuf
