import Xine.NetBuf.System

/-!
# Discontinuities on their way

`video_in_disc` and `audio_in_disc` count the `BUF_CONTROL_NEWPTS` buffers that have been put into the fifo and
not been taken.
-/

namespace Xine.NetBuf

open Buffer (FifoBuffer BufElement Elem Store Represents)
open Runs (run)

variable {τ : Type*}

/-! ## The queue -/

/-- By how much an action changes the number of the elements with `p` in the queue, if a clear keeps
these. -/
def gained (p : Elem → Bool) : Buffer.Action τ → ℤ
  | .put _ e | .insert _ e => if p e then 1 else 0
  | .get _ e => if p e then -1 else 0
  | _ => 0

variable [DecidableEq τ]

theorem count_step {a b : Store τ} {act : Buffer.Action τ} {p : Elem → Bool}
    (hkeep : ∀ e ∈ a.queue, p e = true → a.control e = true) (h : a.step act = some b) :
    (b.queue.countP p : ℤ) = a.queue.countP p + gained p act := by
  cases act with
  | put t e =>
    obtain ⟨-, h⟩ := Option.ite_none_right_eq_some.1 h
    cases h
    by_cases hp : p e = true <;> simp [gained, List.countP_append, hp]
  | insert t e =>
    obtain ⟨-, h⟩ := Option.ite_none_right_eq_some.1 h
    cases h
    by_cases hp : p e = true <;> simp [gained, hp]
  | get t e =>
    obtain ⟨⟨-, hhead⟩, h⟩ := Option.ite_none_right_eq_some.1 h
    cases h
    obtain ⟨rest, hrest⟩ := List.head?_eq_some_iff.1 hhead
    by_cases hp : p e = true <;> simp [gained, hrest, hp]
  | tryAlloc t r =>
    obtain ⟨-, h⟩ := Option.ite_none_right_eq_some.1 h
    cases r with
    | none =>
      cases h
      exact (Int.add_zero _).symm
    | some e =>
      cases h
      exact (Int.add_zero _).symm
  | clear t =>
    obtain ⟨-, h⟩ := Option.ite_none_right_eq_some.1 h
    cases h
    -- what is counted is among what the clear keeps
    have hcount : (a.queue.filter a.control).countP p = a.queue.countP p := by
      rw [List.countP_filter]
      refine List.countP_congr fun e he => ?_
      simpa using hkeep e he
    calc (((a.queue.filter a.control).countP p : ℕ) : ℤ) = a.queue.countP p := congrArg _ hcount
      _ = _ := (Int.add_zero _).symm
  | alloc t e | free t e | fill t e b' | clearScan t | clearFree t e | clearEnd t =>
    obtain ⟨-, h⟩ := Option.ite_none_right_eq_some.1 h
    cases h
    exact (Int.add_zero _).symm

theorem isControl_of_isNewpts {b : BufElement} (h : isNewpts b = true) : b.isControl = true := by
  have htype : b.type = bufControlNewpts := eq_of_beq h
  rw [BufElement.isControl, htype]
  rfl

/-- The fifo of a stream with its threads, and how many buffers in it announce a discontinuity. -/
def Carries (n : ℕ) (f : Buffer.State τ) (discs : ℤ) : Prop :=
  ∃ a : Store τ, Represents n f a ∧ discs = a.queue.countP fun e => isNewpts (f.fifo.elements e)

theorem newpts_step {n : ℕ} {f g : Buffer.State τ} {b : Store τ} {act : Buffer.Action τ}
    (h : Represents n g b) (hstep : Buffer.step f act = some g) {e : Elem} (he : e ∈ b.queue) :
    isNewpts (g.fifo.elements e) = isNewpts (f.fifo.elements e) := by
  unfold isNewpts
  by_cases hfill : ∃ t x new, act = .fill t x new
  · obtain ⟨t, x, new, rfl⟩ := hfill
    obtain ⟨hheld, hg⟩ := Option.ite_none_right_eq_some.1 hstep
    cases hg
    -- who fills a buffer holds it
    have hne : e ≠ x := by
      rintro rfl
      refine (h.inv.not_mem_of_owner ?_).2.1 he
      rw [h.owner]
      exact fun hnone => absurd (hheld.symm.trans hnone) (Option.some_ne_none t)
    dsimp only
    rw [Function.update_of_ne hne]
  · rw [type_step hstep fun t x new hact => hfill ⟨t, x, new, hact⟩]

theorem buffer_of_fifoStep {f g : Buffer.State τ} {act : Buffer.Action τ} (h : fifoStep f act = some g) :
    Buffer.step f act = some g := by
  unfold fifoStep at h
  split at h
  · exact (Option.ite_none_left_eq_some.1 h).2
  · exact h

theorem carries_step {n : ℕ} {f g : Buffer.State τ} {discs : ℤ} {act : Buffer.Action τ}
    (h : Carries n f discs) (hstep : fifoStep f act = some g) :
    Carries n g (discs + gained (fun e => isNewpts (f.fifo.elements e)) act) := by
  obtain ⟨a, hrep, rfl⟩ := h
  have hbuffer := buffer_of_fifoStep hstep
  obtain ⟨b, hb, hrep'⟩ := Buffer.represents_step hrep hbuffer
  refine ⟨b, hrep', ?_⟩
  rw [← count_step (fun e _ he => ?_) hb]
  · -- the buffers in the queue keep their types
    refine congrArg _ (List.countP_congr fun e he => ?_)
    rw [newpts_step hrep' hbuffer he]
  · rw [hrep.control]
    exact isControl_of_isNewpts he

/-! ## The counters -/

section Callbacks

variable {this this' : Nbc} {info : StreamInfo} {w : Which} {fifo : FifoBuffer} {buf : BufElement}
  {effects : List Effect}

theorem in_disc_setPts (d : Side) (pts : ℤ) (action : FifoAction) :
    (d.setPts pts action).in_disc = d.in_disc := by
  cases action <;> rfl

theorem in_disc_lengthOfPts {d d' : Side} (h : d.lengthOfPts = some d') : d'.in_disc = d.in_disc := by
  unfold Side.lengthOfPts at h
  dsimp only at h
  split_ifs at h
  · obtain ⟨q, -, rfl⟩ := Option.map_eq_some_iff.1 h
    rfl
  · cases h
    rfl

theorem in_disc_lengthOfBitrate {d d' : Side} {br : ℤ} (h : d.lengthOfBitrate br = some d') :
    d'.in_disc = d.in_disc := by
  obtain ⟨length, -, rfl⟩ := Option.map_eq_some_iff.1 h
  rfl

theorem in_disc_compute {d d' : Side} {br : ℤ} {action : FifoAction}
    (h : d.compute br fifo buf action = some d') : d'.in_disc = d.in_disc := by
  obtain ⟨fill, -, h⟩ := Option.bind_eq_some_iff.1 h
  dsimp only at h
  split_ifs at h
  · rw [in_disc_lengthOfBitrate h]
  · rw [in_disc_lengthOfPts h, in_disc_setPts]
  · rw [in_disc_lengthOfBitrate h]
  · cases h
    rfl

theorem in_disc_computeFifoLength {action : FifoAction} (v : Which)
    (h : nbcComputeFifoLength this info w fifo buf action = some this') :
    (this'.side v).in_disc = (this.side v).in_disc := by
  obtain ⟨d, hd, rfl⟩ := Option.map_eq_some_iff.1 h
  rcases eq_or_ne v w with rfl | hne
  · rw [Nbc.setSide_side, in_disc_compute hd]
  · rw [Nbc.setSide_side_of_ne this d hne]

theorem in_disc_start (v : Which) : ((nbcStart this).1.side v).in_disc = (this.side v).in_disc := by
  unfold nbcStart
  split_ifs <;> rfl

theorem side_putBuffering (h : nbcPutBuffering this info = some (this', effects)) :
    this'.side = this.side := by
  unfold nbcPutBuffering at h
  split_ifs at h
  · obtain ⟨rfl, -⟩ := Prod.mk.inj (Option.some.inj h)
    rfl
  · obtain ⟨progress, -, h⟩ := Option.map_eq_some_iff.1 h
    split_ifs at h
    · obtain ⟨rfl, -⟩ := Prod.mk.inj h
      rfl
    · obtain ⟨rfl, -⟩ := Prod.mk.inj h
      rfl

theorem side_getEnabled : (nbcGetEnabled this info w fifo).1.side = this.side := by
  unfold nbcGetEnabled
  split_ifs <;> rfl

theorem side_allocCb : (nbcAllocCb this fifo).1.side = this.side := by
  unfold nbcAllocCb
  split_ifs <;> rfl

theorem in_disc_note (v : Which) : ((nbcNote this w fifo).side v).in_disc = (this.side v).in_disc := by
  unfold nbcNote
  rcases eq_or_ne v w with rfl | hne
  · rw [Nbc.setSide_side]
  · rw [Nbc.setSide_side_of_ne this _ hne]

theorem in_disc_putControl (v : Which) : ((nbcPutControl this w buf).1.side v).in_disc =
    (this.side v).in_disc + if v = w ∧ isNewpts buf = true then 1 else 0 := by
  by_cases hnewpts : buf.type = bufControlNewpts
  · have hother : ¬(buf.type = bufControlNop ∨ buf.type = bufControlEnd) := by
      rw [hnewpts]
      decide
    have his : isNewpts buf = true := beq_iff_eq.2 hnewpts
    rw [nbcPutControl, if_neg hother, if_pos hnewpts]
    rcases eq_or_ne v w with rfl | hne
    · rw [Nbc.setSide_side, if_pos ⟨rfl, his⟩]
    · rw [Nbc.setSide_side_of_ne this _ hne, if_neg fun h => hne h.1, Int.add_zero]
  · have hnot : ¬(v = w ∧ isNewpts buf = true) := fun h => hnewpts (beq_iff_eq.1 h.2)
    rw [if_neg hnot, Int.add_zero, nbcPutControl, if_neg hnewpts]
    split_ifs <;> rfl

theorem in_disc_put (v : Which) (h : nbcPutCb this info w fifo buf = some (this', effects)) :
    (this'.side v).in_disc = (this.side v).in_disc + if v = w ∧ isNewpts buf = true then 1 else 0 := by
  unfold nbcPutCb at h
  by_cases hcontrol : buf.isControl = true
  · rw [if_pos hcontrol] at h
    obtain ⟨rfl, -⟩ := Prod.mk.inj (Option.some.inj h)
    rw [in_disc_note, in_disc_putControl]
  · have hnot : ¬(v = w ∧ isNewpts buf = true) := fun h => hcontrol (isControl_of_isNewpts h.2)
    rw [if_neg hcontrol] at h
    obtain ⟨nbc, hnbc, h⟩ := Option.bind_eq_some_iff.1 h
    have hdisc : (nbc.side v).in_disc = (this.side v).in_disc := by
      rw [in_disc_computeFifoLength v hnbc, in_disc_start]
    rw [if_neg hnot, Int.add_zero, ← hdisc]
    split_ifs at h
    · obtain ⟨⟨nbc', effects'⟩, hput, h⟩ := Option.map_eq_some_iff.1 h
      obtain ⟨rfl, -⟩ := Prod.mk.inj h
      rw [side_putBuffering hput]
    · obtain ⟨rfl, -⟩ := Prod.mk.inj (Option.some.inj h)
      rfl

theorem in_disc_get (v : Which) (h : nbcGetCb this info w fifo buf = some (this', effects)) :
    (this'.side v).in_disc = (this.side v).in_disc + if v = w ∧ isNewpts buf = true then -1 else 0 := by
  unfold nbcGetCb at h
  by_cases hcontrol : buf.isControl = true
  · rw [if_pos hcontrol] at h
    obtain ⟨rfl, -⟩ := Prod.mk.inj (Option.some.inj h)
    rw [in_disc_note]
    by_cases hnewpts : buf.type = bufControlNewpts
    · have his : isNewpts buf = true := beq_iff_eq.2 hnewpts
      rw [if_pos hnewpts]
      rcases eq_or_ne v w with rfl | hne
      · rw [Nbc.setSide_side, if_pos ⟨rfl, his⟩]
        rfl
      · rw [Nbc.setSide_side_of_ne this _ hne, if_neg fun h => hne h.1, Int.add_zero]
    · have hnot : ¬(v = w ∧ isNewpts buf = true) := fun h => hnewpts (beq_iff_eq.1 h.2)
      rw [if_neg hnewpts, if_neg hnot, Int.add_zero]
  · have hnot : ¬(v = w ∧ isNewpts buf = true) := fun h => hcontrol (isControl_of_isNewpts h.2)
    rw [if_neg hcontrol] at h
    obtain ⟨nbc, hnbc, h⟩ := Option.map_eq_some_iff.1 h
    rw [if_neg hnot, Int.add_zero, ← in_disc_computeFifoLength v hnbc]
    split_ifs at h
    · have hside : this'.side = nbc.side := by
        calc this'.side = (nbcGetEnabled nbc info w fifo).1.side := by rw [h]
          _ = nbc.side := side_getEnabled
      rw [hside]
    · obtain ⟨rfl, -⟩ := Prod.mk.inj h
      rfl

end Callbacks

/-! ## Runs -/

/-- The counters are the numbers of the buffers on their way. -/
def Counted (capacity : Which → ℕ) (s : State τ) : Prop :=
  ∀ w, Carries (capacity w) (s.fifo w) (s.nbc.side w).in_disc

theorem in_disc_callback {s : State τ} {w : Which} {f : Buffer.State τ} {act : Buffer.Action τ} {nbc : Nbc}
    {effects : List Effect} (hstep : fifoStep (s.fifo w) act = some f)
    (h : callback s w f act = some (nbc, effects)) (v : Which) :
    (nbc.side v).in_disc = (s.nbc.side v).in_disc +
      if v = w then gained (fun e => isNewpts ((s.fifo w).fifo.elements e)) act else 0 := by
  cases act with
  | put u e =>
    rw [in_disc_put v h, gained, ite_and]
  | get u e =>
    have hsame : f.fifo.elements = (s.fifo w).fifo.elements := (get_frame hstep).1
    rw [in_disc_get v h, gained, ite_and, hsame]
  | insert u e =>
    -- what is inserted announces no discontinuity
    have hno : ¬isNewpts ((s.fifo w).fifo.elements e) = true := (Option.ite_none_left_eq_some.1 hstep).1
    obtain ⟨rfl, -⟩ := Prod.mk.inj (Option.some.inj h)
    rw [gained, if_neg hno, ite_self, Int.add_zero]
  | alloc | tryAlloc | free | fill | clear | clearScan | clearFree | clearEnd =>
    obtain ⟨rfl, -⟩ := Prod.mk.inj (Option.some.inj h)
    simp [gained]

theorem counted_step {capacity : Which → ℕ} {s t : State τ} {a : Action τ} (h : Counted capacity s)
    (hstep : step s a = some t) : Counted capacity t := by
  cases a with
  | on w act =>
    have hon : (fifoStep (s.fifo w) act).elim (some s) (perform s w act) = some t := hstep
    cases hf : fifoStep (s.fifo w) act with
    | none =>
      rw [hf] at hon
      cases hon
      exact h
    | some f =>
      rw [hf] at hon
      obtain ⟨⟨nbc, effects⟩, hcallback, rfl⟩ := Option.map_eq_some_iff.1 hon
      intro v
      have hdisc := in_disc_callback hf hcallback v
      dsimp only
      rcases eq_or_ne v w with rfl | hne
      · rw [Function.update_self, hdisc, if_pos rfl]
        exact carries_step (h v) hf
      · rw [Function.update_of_ne hne, hdisc, if_neg hne, Int.add_zero]
        exact h v
  | allocates w =>
    cases hstep
    intro v
    have hside := congrFun (@side_allocCb s.nbc (s.fifo w).fifo) v
    dsimp only
    rw [hside]
    exact h v
  | setInfo info =>
    cases hstep
    exact h

omit [DecidableEq τ] in
theorem counted_start (capacity : Which → ℕ) (buf_size : BitVec 32) (info : StreamInfo) :
    Counted capacity (start capacity buf_size info : State τ) := fun _ =>
  ⟨_, Buffer.represents_new (Option.some_get _).symm, rfl⟩

omit [DecidableEq τ] in
theorem Carries.in_fifo {n : ℕ} {f : Buffer.State τ} {discs : ℤ} (h : Carries n f discs) :
    ∃ xs, Buffer.FifoRep f.fifo xs ∧ discs = xs.countP fun e => isNewpts (f.fifo.elements e) := by
  obtain ⟨a, hrep, rfl⟩ := h
  have hqueue := hrep.queue
  have hkept : ∀ kept rest : List Elem,
      (kept ++ rest.filter fun e => (f.fifo.elements e).isControl).countP
        (fun e => isNewpts (f.fifo.elements e)) =
      (kept ++ rest).countP fun e => isNewpts (f.fifo.elements e) := by
    intro kept rest
    rw [List.countP_append, List.countP_append, List.countP_filter]
    refine congrArg _ (List.countP_congr fun e _ => ?_)
    simpa using isControl_of_isNewpts
  cases hclearing : f.clearing with
  | none => exact ⟨a.queue, hrep.fifo hclearing, rfl⟩
  | some clearing =>
    obtain ⟨u, pc⟩ := clearing
    rw [hclearing] at hqueue
    cases pc with
    | scan buf prev =>
      obtain ⟨kept, rest, hfifo, -, -, hq, -⟩ := hqueue
      exact ⟨kept ++ rest, hfifo, by rw [hq, hkept]⟩
    | free buf next prev =>
      obtain ⟨kept, rest, hfifo, -, -, hq, -⟩ := hqueue
      exact ⟨kept ++ rest, hfifo, by rw [hq, hkept]⟩

/-- In every run of the threads on two fifos that start empty, each counter is the number of the
`BUF_CONTROL_NEWPTS` buffers in its fifo, and so not negative. -/
theorem in_disc_counts {capacity : Which → ℕ} {buf_size : BitVec 32} {info : StreamInfo}
    {actions : List (Action τ)} {s : State τ} (h : run step (start capacity buf_size info) actions = some s)
    (w : Which) : 0 ≤ (s.nbc.side w).in_disc ∧ ∃ xs, Buffer.FifoRep (s.fifo w).fifo xs ∧
      (s.nbc.side w).in_disc = xs.countP fun e => isNewpts ((s.fifo w).fifo.elements e) := by
  have hcounted : Counted capacity s :=
    Runs.run_invariant (fun _ _ _ => counted_step) (counted_start capacity buf_size info) h
  obtain ⟨xs, hfifo, hdisc⟩ := (hcounted w).in_fifo
  refine ⟨?_, xs, hfifo, hdisc⟩
  rw [hdisc]
  exact Int.natCast_nonneg _

/-- A buffer of a type. -/
def bufferOf (type : BitVec 32) : BufElement := { Buffer.newElement 2048#32 with type := type }

def noInfo : StreamInfo := ⟨fun _ => false, fun _ => 0⟩

/-- A control buffer goes into a fifo. -/
def putControl (type : BitVec 32) : List (Action ℕ) :=
  [.on .video (.alloc 0 1), .on .video (.fill 0 1 (bufferOf type)), .on .video (.put 0 1)]

theorem in_disc_counts_newpts : ∃ s : State ℕ,
    run step (start (fun _ => 2) 2048#32 noInfo) (putControl bufControlNewpts) = some s ∧
      (s.nbc.side .video).in_disc = 1 ∧ 0 ≤ (s.nbc.side .video).in_disc := by
  have hrun : (run step (start (fun _ => 2) 2048#32 noInfo) (putControl bufControlNewpts)).map
      (fun s => (s.nbc.side .video).in_disc) = some 1 := rfl
  obtain ⟨s, hs, hdisc⟩ := Option.map_eq_some_iff.1 hrun
  exact ⟨s, hs, hdisc, (in_disc_counts hs .video).1⟩

/-- A buffer that is put to announce a discontinuity, of either type. -/
def announces (b : BufElement) : Bool := isNewpts b || b.type == bufControlDiscontinuity

/-- A `BUF_CONTROL_DISCONTINUITY` is not counted. -/
theorem discontinuity_not_counted : ∃ s : State ℕ,
    run step (start (fun _ => 2) 2048#32 noInfo) (putControl bufControlDiscontinuity) = some s ∧
      ¬∃ xs, Buffer.FifoRep (s.fifo .video).fifo xs ∧
        (s.nbc.side .video).in_disc = xs.countP fun e => announces ((s.fifo .video).fifo.elements e) := by
  have hrun : (run step (start (fun _ => 2) 2048#32 noInfo) (putControl bufControlDiscontinuity)).map
      (fun s => ((s.nbc.side .video).in_disc, (s.fifo .video).fifo.first,
        announces ((s.fifo .video).fifo.elements 1))) = some (0, some 1, true) := rfl
  obtain ⟨s, hs, hfields⟩ := Option.map_eq_some_iff.1 hrun
  simp only [Prod.mk.injEq] at hfields
  obtain ⟨hdisc, hfirst, hannounces⟩ := hfields
  refine ⟨s, hs, ?_⟩
  rintro ⟨xs, hfifo, hcount⟩
  have hqueue := hfifo.queue
  rw [hfirst] at hqueue
  obtain ⟨ys, rfl⟩ := hqueue.exists_cons
  have hpos : 0 < (1 :: ys).countP fun e => announces ((s.fifo .video).fifo.elements e) :=
    List.countP_pos_iff.2 ⟨1, List.mem_cons_self, hannounces⟩
  rw [hdisc] at hcount
  omega

end Xine.NetBuf
