import Xine.VideoOut.Core
import Xine.Library.Runs

/-!
# Conservation of frames

`State.hold` counts the references to a frame. Every action keeps `Inv`, which says that the counters count them
and that no frame is in two places or lost, except one: in `paused_loop`, when no frame is free, the first frame
of the display queue is put into the free queue without a look at its `lock_counter` (`Steals`).
-/

namespace Xine.VideoOut

open Chain Places

/-- The references to a frame, without its place in the display queue: the decoders', the draw that is
under way, the backup, the last frame, the driver's, a frontend's, and the video loop's own. -/
def State.hold (s : State) (e : Frame) : ℕ :=
  s.refs e + one (s.drawing e) + one (s.img_backup = some e) +
    one (s.last_frame = some e ∧ s.loop.lastCounts) + s.driver e + s.grabbed e +
    one (s.loop.img = some e)

/-- The invariant of the port, whose queues are the lists `free` and `disp`. -/
abbrev Inv (n : ℕ) (s : State) (free disp : List Frame) : Prop :=
  Core n s.next s.free_img_buf_queue s.display_img_buf_queue s.frames s.fetched s.drawing s.queued
    s.hold free disp

/-- The loop has this frame of its own, and a reference to the last frame. -/
def LoopPc.Has (pc : LoopPc) (img : Option Frame) : Prop := pc.img = img ∧ pc.lastCounts = true

theorem one_lastCounts (last : Option Frame) (x : Frame) (b : Bool) (hb : b = true) :
    one (last = some x ∧ b = true) = one (last = some x) := by
  unfold one
  simp [hb]

section Step

variable {n : ℕ} {s s' : State} {free disp : List Frame} {e : Frame}

theorem hold_of_loop (hhas : s.loop.Has none) (x : Frame) :
    s.hold x = s.refs x + one (s.drawing x) + one (s.img_backup = some x) +
      one (s.last_frame = some x) + s.driver x + s.grabbed x := by
  unfold State.hold
  rw [hhas.1, hhas.2, one_lastCounts _ _ _ rfl, one_none]
  rfl

theorem hold_of_img (hhas : s.loop.Has (some e)) (x : Frame) :
    s.hold x = s.refs x + one (s.drawing x) + one (s.img_backup = some x) +
      one (s.last_frame = some x) + s.driver x + s.grabbed x + one (x = e) := by
  unfold State.hold
  rw [hhas.1, hhas.2, one_lastCounts _ _ _ rfl, one_some]

theorem hold_of_hold {caller : Caller} (hpc : s.loop = .hold caller e) (x : Frame) :
    s.hold x = s.refs x + one (s.drawing x) + one (s.img_backup = some x) + s.driver x +
      s.grabbed x + one (x = e) := by
  have hlast : one (s.last_frame = some x ∧ s.loop.lastCounts = true) = 0 :=
    one_neg _ (by rw [hpc]; simp [LoopPc.lastCounts])
  have himg : s.loop.img = some e := by rw [hpc]; rfl
  unfold State.hold
  rw [hlast, himg, one_some]
  rfl

theorem setFrame_counter {frame : VoFrame} (h : frame.lock_counter = (s.frames e).lock_counter) (x : Frame) :
    ((s.setFrame e frame).frames x).lock_counter = (s.frames x).lock_counter := by
  by_cases hx : x = e
  · simp [State.setFrame, hx, h]
  · simp [State.setFrame, hx]

theorem incLock_counter (x : Frame) :
    ((s.incLock e).frames x).lock_counter = (s.frames x).lock_counter + one (x = e) := by
  by_cases hx : x = e
  · subst hx
    simp [State.incLock, State.setFrame, one]
  · simp [State.incLock, State.setFrame, one, hx]

theorem Inv.goto (h : Inv n s free disp) (pc : LoopPc) (hhas : s.loop.Has none) (hhas' : pc.Has none) :
    Inv n { s with loop := pc } free disp := by
  refine Core.congr h (fun _ => rfl) fun x => ?_
  rw [hold_of_loop hhas, hold_of_loop hhas']

theorem Inv.flags (h : Inv n s free disp) (redraw_needed discard_frames : ℤ)
    (video_loop_running : Bool) :
    Inv n { s with redraw_needed, discard_frames, video_loop_running } free disp :=
  Core.congr h (fun _ => rfl) fun _ => rfl

theorem Inv.decLock_img (h : Inv n s free disp) (hhas : s.loop.Has (some e)) (pc : LoopPc) (hhas' : pc.Has none) (hs : s.decLock e = some s') :
    ∃ free', Inv n { s' with loop := pc } free' disp := by
  have hhold : ∀ x, { s with loop := pc }.hold x + one (x = e) = s.hold x := fun x => by
    rw [hold_of_loop hhas', hold_of_img hhas]
  obtain ⟨next', queue', frames', free', rfl, hcore⟩ := Core.decLock h hs hhold
  exact ⟨free', hcore⟩

theorem inv_expireStep {vpts diff : ℤ} (h : Inv n s free disp) (hpc : s.loop = .expire vpts diff)
    (hs : expireStep s vpts diff = some s') : ∃ free' disp', Inv n s' free' disp' := by
  have hhas : s.loop.Has none := hpc ▸ ⟨rfl, rfl⟩
  have hnext := h.goto (.next vpts) hhas ⟨rfl, rfl⟩
  unfold expireStep at hs
  cases hfirst : s.display_img_buf_queue.first with
  | none =>
    simp only [hfirst, Option.some.injEq] at hs
    subst hs
    exact ⟨free, disp, hnext⟩
  | some img =>
    simp only [hfirst] at hs
    split_ifs at hs
    · -- the first frame after a seek, which the decoder does not need any more
      cases hs
      exact ⟨free, disp, Core.congr hnext (setFrame_counter rfl) fun _ => rfl⟩
    · cases hs
      exact ⟨free, disp, hnext⟩
    · -- an expired frame
      obtain ⟨⟨r, img'⟩, hr, rfl⟩ := Option.map_eq_some_iff.1 hs
      obtain ⟨next', queue', disp', rfl, -, hcore⟩ := Core.removeDisplay h hr fun x =>
        (rfl : (fun x => s.hold x + one (x = img')) x = _)
      refine ⟨free, disp', Core.congr hcore (fun _ => rfl) fun x => ?_⟩
      rw [hold_of_img ⟨rfl, rfl⟩, hold_of_loop hhas]
    · cases hs
      exact ⟨free, disp, h.goto _ hhas ⟨rfl, rfl⟩⟩
    · cases hs
      exact ⟨free, disp, hnext⟩

theorem Inv.backup_img (h : Inv n s free disp) (hhas : s.loop.Has (some e)) (hnone : s.img_backup = none) (pc : LoopPc)
    (hhas' : pc.Has none) (redraw_needed : ℤ) :
    Inv n { s with img_backup := some e, redraw_needed, loop := pc } free disp := by
  refine Core.congr h (fun _ => rfl) fun x => ?_
  rw [hold_of_loop hhas', hold_of_img hhas, hnone, one_none, one_some]
  dsimp only
  omega

theorem inv_expiredStep {vpts diff : ℤ} {img : Frame} (h : Inv n s free disp)
    (hpc : s.loop = .expired vpts diff img) (hs : expiredStep s vpts diff img = some s') :
    ∃ free' disp', Inv n s' free' disp' := by
  have hhas : s.loop.Has (some img) := hpc ▸ ⟨rfl, rfl⟩
  have hdec : ∀ {t}, (s.decLock img).map (fun s' => { s' with loop := .expire vpts diff }) = some t →
      ∃ free' disp', Inv n t free' disp' := by
    intro t ht
    obtain ⟨r, hr, rfl⟩ := Option.map_eq_some_iff.1 ht
    obtain ⟨free', h'⟩ := h.decLock_img hhas (.expire vpts diff) ⟨rfl, rfl⟩ hr
    exact ⟨free', disp, h'⟩
  unfold expiredStep at hs
  by_cases hdiscard : s.discard_frames ≠ 0
  · rw [if_pos hdiscard] at hs
    cases hbackup : s.img_backup with
    | none =>
      simp only [hbackup, Option.some.injEq] at hs
      subst hs
      exact ⟨free, disp, h.backup_img hhas hbackup _ ⟨rfl, rfl⟩ s.redraw_needed⟩
    | some b =>
      simp only [hbackup] at hs
      exact hdec hs
  · rw [if_neg hdiscard] at hs
    cases hfirst : s.display_img_buf_queue.first with
    | some a =>
      simp only [hfirst] at hs
      exact hdec hs
    | none =>
      simp only [hfirst, Option.map_eq_some_iff] at hs
      obtain ⟨r, hr, rfl⟩ := hs
      cases hbackup : s.img_backup with
      | none =>
        simp only [State.decLockIf, hbackup, Option.some.injEq] at hr
        subst hr
        exact ⟨free, disp, h.backup_img hhas hbackup _ ⟨rfl, rfl⟩ 4⟩
      | some b =>
        -- the old backup is freed first
        simp only [State.decLockIf, hbackup] at hr
        have hhold : ∀ x, { s with img_backup := none }.hold x + one (x = b) = s.hold x := fun x => by
          rw [hold_of_img (s := { s with img_backup := none }) hhas, hold_of_img hhas,
            hbackup, one_none, one_some]
          dsimp only
          omega
        obtain ⟨next', queue', frames', free', rfl, hcore⟩ := Core.decLock h hr hhold
        refine ⟨free', disp, Core.congr hcore (fun _ => rfl) fun x => ?_⟩
        rw [hold_of_loop ⟨rfl, rfl⟩, hold_of_img (s := { s with img_backup := none }) hhas,
          one_none, one_some]
        dsimp only
        omega

theorem Inv.decLock_backup (h : Inv n s free disp) (hhas : s.loop.Has none) (pc : LoopPc) (hhas' : pc.Has none) (hs : s.decLockIf s.img_backup = some s') :
    ∃ free', Inv n { s' with img_backup := none, loop := pc } free' disp := by
  cases hbackup : s.img_backup with
  | none =>
    simp only [State.decLockIf, hbackup, Option.some.injEq] at hs
    subst hs
    have h' := h.goto pc hhas hhas'
    rw [hbackup] at h'
    exact ⟨free, h'⟩
  | some b =>
    simp only [State.decLockIf, hbackup] at hs
    have hhold : ∀ x, { s with img_backup := none, loop := pc }.hold x + one (x = b) = s.hold x := by
      intro x
      rw [hold_of_loop hhas', hold_of_loop hhas, hbackup, one_none, one_some]
      dsimp only
      omega
    obtain ⟨next', queue', frames', free', rfl, hcore⟩ := Core.decLock h hs hhold
    exact ⟨free', hcore⟩

theorem Inv.duplicate_img {img dupl : Frame} (h : Inv n s free disp) (hhas : s.loop.Has none) (pc : LoopPc) (hhas' : pc.Has (some dupl)) (hs : s.duplicateFrame img = some (s', dupl)) :
    ∃ free', Inv n { s' with loop := pc } free' disp := by
  have hhold : ∀ x, { s with loop := pc }.hold x = s.hold x + one (x = dupl) := fun x => by
    rw [hold_of_img hhas', hold_of_loop hhas]
  obtain ⟨next', queue', frames', free', rfl, hcore⟩ := Core.duplicateFrame h hs hhold
  exact ⟨free', hcore⟩

theorem inv_nextStep {vpts : ℤ} (h : Inv n s free disp) (hpc : s.loop = .next vpts)
    (hs : nextStep s vpts = some s') : ∃ free' disp', Inv n s' free' disp' := by
  have hhas : s.loop.Has none := hpc ▸ ⟨rfl, rfl⟩
  have hredraw : ∀ redraw_needed, Inv n { s with redraw_needed, loop := .redraw } free disp :=
    fun r => (h.goto .redraw hhas ⟨rfl, rfl⟩).flags r s.discard_frames s.video_loop_running
  unfold nextStep at hs
  split at hs
  · -- no frame in the display queue
    split at hs
    · rename_i backup hbackup
      split_ifs at hs with hone
      · split at hs
        · rename_i r dupl hdupl
          cases hs
          obtain ⟨free', h'⟩ := h.duplicate_img hhas (.display .video_out_loop dupl) ⟨rfl, rfl⟩ hdupl
          exact ⟨free', disp, Core.congr h' (setFrame_counter rfl) fun _ => rfl⟩
        · cases hs
          exact ⟨free, disp, hredraw s.redraw_needed⟩
      · cases hs
        exact ⟨free, disp, hredraw _⟩
      · cases hs
        exact ⟨free, disp, hredraw _⟩
    · cases hs
      exact ⟨free, disp, hredraw _⟩
  · rename_i img hfirst
    split_ifs at hs
    · cases hs
      exact ⟨free, disp, hredraw s.redraw_needed⟩
    · -- it is time to show the frame
      obtain ⟨r, hr, rfl⟩ := Option.map_eq_some_iff.1 hs
      obtain ⟨free', h'⟩ := h.decLock_backup hhas (.backup img) ⟨rfl, rfl⟩ hr
      exact ⟨free', disp, h'⟩

theorem Inv.removeDisplay_img (h : Inv n s free disp) (hhas : s.loop.Has none) (pc : LoopPc) (hhas' : pc.Has (some e)) (hs : s.removeDisplay = some (s', e)) :
    ∃ disp', Inv n { s' with loop := pc } free disp' := by
  have hhold : ∀ x, { s with loop := pc }.hold x = s.hold x + one (x = e) := fun x => by
    rw [hold_of_img hhas', hold_of_loop hhas]
  obtain ⟨next', queue', disp', rfl, -, hcore⟩ := Core.removeDisplay h hs hhold
  exact ⟨disp', hcore⟩

theorem Inv.removeDisplay_backup (h : Inv n s free disp) (hhas : s.loop.Has none) (hnone : s.img_backup = none) (pc : LoopPc)
    (hhas' : pc.Has none) (redraw_needed : ℤ)
    (hs : s.removeDisplay = some (s', e)) :
    ∃ disp', Inv n { s' with img_backup := some e, redraw_needed, loop := pc } free disp' := by
  have hhold : ∀ x, { s with img_backup := some e, loop := pc }.hold x = s.hold x + one (x = e) := by
    intro x
    rw [hold_of_loop hhas', hold_of_loop hhas, hnone, one_none, one_some]
    dsimp only
    omega
  obtain ⟨next', queue', disp', rfl, -, hcore⟩ := Core.removeDisplay h hs hhold
  exact ⟨disp', Core.congr hcore (fun _ => rfl) fun _ => rfl⟩

theorem Inv.decLock_last {img : Frame} {caller : Caller} (h : Inv n s free disp)
    (hpc : s.loop = .display caller img) (hs : s.decLockIf s.last_frame = some s') :
    ∃ free', Inv n { s' with loop := .hold caller img } free' disp := by
  have hhas : s.loop.Has (some img) := hpc ▸ ⟨rfl, rfl⟩
  have hhold : ∀ x, { s with loop := .hold caller img }.hold x + one (s.last_frame = some x) =
      s.hold x := by
    intro x
    rw [hold_of_img hhas, hold_of_hold (s := { s with loop := .hold caller img }) rfl]
    dsimp only
    omega
  cases hl : s.last_frame with
  | none =>
    simp only [State.decLockIf, hl, Option.some.injEq] at hs
    subst hs
    refine ⟨free, Core.congr h (fun _ => rfl) fun x => ?_⟩
    have hzero : one (s.last_frame = some x) = 0 := by rw [hl, one_none]
    have hx := hhold x
    rwa [hzero] at hx
  | some l =>
    simp only [State.decLockIf, hl] at hs
    rw [hl] at hhold
    simp only [one_some] at hhold
    obtain ⟨next', queue', frames', free', rfl, hcore⟩ := Core.decLock h hs hhold
    refine ⟨free', Core.congr hcore (fun _ => rfl) fun x => ?_⟩
    rw [hold_of_hold rfl, hold_of_hold rfl]

theorem Inv.hold_last {img : Frame} {caller : Caller} (h : Inv n s free disp)
    (hpc : s.loop = .hold caller img) :
    Inv n { s.incLock img with last_frame := some img, loop := .show caller img } free disp := by
  have hpos := hold_of_hold hpc img
  rw [one_pos (img = img) rfl] at hpos
  refine Core.incLock (e := img) h (by omega) incLock_counter fun x => ?_
  · rw [hold_of_hold hpc, hold_of_img ⟨rfl, rfl⟩]
    change s.refs x + one (s.drawing x) + one (s.img_backup = some x) + one (some img = some x) +
      s.driver x + s.grabbed x + one (x = img) = _
    rw [one_some]
    omega

theorem Inv.show_driver {img : Frame} {caller : Caller} (h : Inv n s free disp)
    (hpc : s.loop = .show caller img) (pc : LoopPc) (hhas' : pc.Has none) :
    Inv n { s with driver := incr s.driver img, redraw_needed := 0, loop := pc } free disp := by
  refine Core.congr h (fun _ => rfl) fun x => ?_
  rw [hold_of_loop hhas', hold_of_img (e := img) (hpc ▸ ⟨rfl, rfl⟩)]
  dsimp only
  rw [incr_apply]
  omega

theorem Inv.decLock_ended (h : Inv n s free disp) (hhas : s.loop.Has none) (hs : s.decLockIf s.last_frame = some s') :
    ∃ free', Inv n { s' with last_frame := none, loop := .ended } free' disp := by
  cases hl : s.last_frame with
  | none =>
    simp only [State.decLockIf, hl, Option.some.injEq] at hs
    subst hs
    have h' := h.goto .ended hhas ⟨rfl, rfl⟩
    rw [hl] at h'
    exact ⟨free, h'⟩
  | some l =>
    simp only [State.decLockIf, hl] at hs
    have hhold : ∀ x, { s with last_frame := none, loop := .ended }.hold x + one (x = l) =
        s.hold x := by
      intro x
      rw [hold_of_loop ⟨rfl, rfl⟩, hold_of_loop hhas, hl, one_none, one_some]
      dsimp only
      omega
    obtain ⟨next', queue', frames', free', rfl, hcore⟩ := Core.decLock h hs hhold
    exact ⟨free', hcore⟩

theorem Inv.duplicate_backup {img dupl : Frame} (h : Inv n s free disp) (hhas : s.loop.Has none) (hnone : s.img_backup = none)
    (hs : s.duplicateFrame img = some (s', dupl)) :
    ∃ free', Inv n { s' with img_backup := some dupl, loop := .remove } free' disp := by
  have hhold : ∀ x, { s with img_backup := some dupl, loop := .remove }.hold x =
      s.hold x + one (x = dupl) := by
    intro x
    rw [hold_of_loop ⟨rfl, rfl⟩, hold_of_loop hhas, hnone, one_none, one_some]
    dsimp only
    omega
  obtain ⟨next', queue', frames', free', rfl, hcore⟩ := Core.duplicateFrame h hs hhold
  exact ⟨free', hcore⟩

theorem inv_pausedRedrawStep (needed : Bool) (h : Inv n s free disp) (hhas : s.loop.Has none) :
    ∃ free' disp', Inv n (pausedRedrawStep s needed) free' disp' := by
  have h' := (h.goto .paused hhas ⟨rfl, rfl⟩).flags (if needed then 1 else s.redraw_needed)
    s.discard_frames s.video_loop_running
  simp only [pausedRedrawStep]
  generalize (if needed = true then (1 : ℤ) else s.redraw_needed) = r at h' ⊢
  split
  · split
    · split
      · rename_i r dupl hdupl
        obtain ⟨free', h''⟩ := h'.duplicate_img ⟨rfl, rfl⟩ (.display .paused_loop dupl) ⟨rfl, rfl⟩ hdupl
        exact ⟨free', disp, h''⟩
      · exact ⟨free, disp, h'⟩
    · exact ⟨free, disp, h'⟩
  · exact ⟨free, disp, h'⟩

/-- Between freeing the old backup and making a new one, there is none. -/
def BackupNull (s : State) : Prop := ∀ img, s.loop = .backup img → s.img_backup = none

theorem inv_loopStep {act : LoopAction} (h : Inv n s free disp) (hnull : BackupNull s)
    (hsteal : ¬Steals s (.loop act)) {pc : LoopPc} (hpc : s.loop = pc)
    (hs : loopStep s pc act = some s') : ∃ free' disp', Inv n s' free' disp' := by
  have hgoto : ∀ pc', s.loop.Has none → pc'.Has none →
      ∃ free' disp', Inv n { s with loop := pc' } free' disp' :=
    fun pc' hhas hhas' => ⟨free, disp, h.goto pc' hhas hhas'⟩
  unfold loopStep at hs
  split at hs
  · cases hs
    refine hgoto _ (hpc ▸ ⟨rfl, rfl⟩) ?_
    split_ifs <;> exact ⟨rfl, rfl⟩
  · exact inv_expireStep h hpc hs
  · exact inv_expiredStep h hpc hs
  · exact inv_nextStep h hpc hs
  · -- the backup for a possible still image; there is none at this place
    rename_i img still
    have hnone := hnull img hpc
    split_ifs at hs
    · split at hs
      · rename_i r dupl hdupl
        cases hs
        obtain ⟨free', h'⟩ := h.duplicate_backup (hpc ▸ ⟨rfl, rfl⟩) hnone hdupl
        exact ⟨free', disp, h'⟩
      · cases hs
        have h' := h.goto .remove (hpc ▸ ⟨rfl, rfl⟩) ⟨rfl, rfl⟩
        rw [hnone] at h'
        exact ⟨free, disp, h'⟩
    · cases hs
      exact hgoto _ (hpc ▸ ⟨rfl, rfl⟩) ⟨rfl, rfl⟩
  · obtain ⟨⟨r, img⟩, hr, rfl⟩ := Option.map_eq_some_iff.1 hs
    obtain ⟨disp', h'⟩ := h.removeDisplay_img (hpc ▸ ⟨rfl, rfl⟩)
      (.display .video_out_loop img) ⟨rfl, rfl⟩ hr
    exact ⟨free, disp', h'⟩
  · obtain ⟨r, hr, rfl⟩ := Option.map_eq_some_iff.1 hs
    obtain ⟨free', h'⟩ := h.decLock_last hpc hr
    exact ⟨free', disp, h'⟩
  · cases hs
    exact ⟨free, disp, h.hold_last hpc⟩
  · rename_i caller img
    cases hs
    cases caller
    · exact ⟨free, disp, h.show_driver hpc .sleep ⟨rfl, rfl⟩⟩
    · exact ⟨free, disp, h.show_driver hpc .paused ⟨rfl, rfl⟩⟩
  · cases hs
    exact ⟨free, disp, (h.goto .sleep (hpc ▸ ⟨rfl, rfl⟩) ⟨rfl, rfl⟩).flags _
      s.discard_frames s.video_loop_running⟩
  · -- asleep
    split_ifs at hs
    · cases hs
      exact ⟨free, disp, (h.goto .paused (hpc ▸ ⟨rfl, rfl⟩) ⟨rfl, rfl⟩).lock true⟩
    · cases hs
      exact hgoto _ (hpc ▸ ⟨rfl, rfl⟩) ⟨rfl, rfl⟩
    · cases hs
      exact hgoto _ (hpc ▸ ⟨rfl, rfl⟩) ⟨rfl, rfl⟩
  · -- paused
    split_ifs at hs
    · cases hs
      exact hgoto _ (hpc ▸ ⟨rfl, rfl⟩) ⟨rfl, rfl⟩
    · cases hs
      exact ⟨free, disp, (h.goto .sleep (hpc ▸ ⟨rfl, rfl⟩) ⟨rfl, rfl⟩).lock false⟩
  · -- no frame is stolen
    unfold pausedFreeStep at hs
    split at hs
    · rename_i a hdisp hfree
      exact absurd ⟨rfl, by simp [hdisp], hfree⟩ hsteal
    · cases hs
      exact hgoto _ (hpc ▸ ⟨rfl, rfl⟩) ⟨rfl, rfl⟩
  · split at hs
    · rename_i a hdisp hbackup
      obtain ⟨⟨r, img⟩, hr, rfl⟩ := Option.map_eq_some_iff.1 hs
      obtain ⟨disp', h'⟩ := h.removeDisplay_backup (hpc ▸ ⟨rfl, rfl⟩) hbackup
        .pausedRedraw ⟨rfl, rfl⟩ 1 hr
      exact ⟨free, disp', h'⟩
    · cases hs
      exact hgoto _ (hpc ▸ ⟨rfl, rfl⟩) ⟨rfl, rfl⟩
  · cases hs
    exact inv_pausedRedrawStep _ h (hpc ▸ ⟨rfl, rfl⟩)
  · split at hs
    · obtain ⟨⟨r, img⟩, hr, rfl⟩ := Option.map_eq_some_iff.1 hs
      obtain ⟨disp', h'⟩ := h.removeDisplay_img (hpc ▸ ⟨rfl, rfl⟩) (.drained img) ⟨rfl, rfl⟩ hr
      exact ⟨free, disp', h'⟩
    · cases hs
      exact hgoto _ (hpc ▸ ⟨rfl, rfl⟩) ⟨rfl, rfl⟩
  · obtain ⟨r, hr, rfl⟩ := Option.map_eq_some_iff.1 hs
    obtain ⟨free', h'⟩ := h.decLock_img (hpc ▸ ⟨rfl, rfl⟩) .drain ⟨rfl, rfl⟩ hr
    exact ⟨free', disp, h'⟩
  · obtain ⟨r, hr, rfl⟩ := Option.map_eq_some_iff.1 hs
    obtain ⟨free', h'⟩ := h.decLock_backup (hpc ▸ ⟨rfl, rfl⟩) .drainLast ⟨rfl, rfl⟩ hr
    exact ⟨free', disp, h'⟩
  · obtain ⟨r, hr, rfl⟩ := Option.map_eq_some_iff.1 hs
    obtain ⟨free', h'⟩ := h.decLock_ended (hpc ▸ ⟨rfl, rfl⟩) hr
    exact ⟨free', disp, h'⟩
  · simp at hs

/-! ## The other threads -/

theorem hold_incr_refs (s : State) (e x : Frame) :
    { s with refs := incr s.refs e }.hold x = s.hold x + one (x = e) := by
  simp only [State.hold, incr_apply]
  omega

theorem hold_drawing_true (s : State) (he : s.drawing e = false) (x : Frame) :
    { s with drawing := Function.update s.drawing e true }.hold x = s.hold x + one (x = e) := by
  simp only [State.hold, one_update_true s.drawing e x he]
  omega

theorem hold_drawing_false (s : State) (he : s.drawing e = true) (x : Frame) :
    { s with drawing := Function.update s.drawing e false }.hold x + one (x = e) = s.hold x := by
  have hx := one_update_false s.drawing e x he
  simp only [State.hold]
  omega

theorem inv_drawStep {img : Frame} (vpts duration : ℤ) (is_first : Bool) (h : Inv n s free disp)
    (hrefs : 0 < s.refs img) (hqueued : s.queued img = false) :
    Inv n (drawStep s img vpts duration is_first) free disp := by
  have hdrawing : s.drawing img = false := by
    by_contra hne
    have := h.drawing_queued img (by simpa using hne)
    simp [hqueued] at this
  have hdisp : img ∉ disp := fun hmem => by
    have := h.disp_queued img hmem
    simp [hqueued] at this
  have hfields : ∀ d, Inv n (s.setFrame img { s.frames img with vpts, duration := d }) free disp :=
    fun d => Core.congr h (setFrame_counter rfl) fun _ => rfl
  simp only [drawStep]
  generalize (if s.grab_only = false ∧ duration ≤ 0 then (3000 : ℤ) else duration) = d
  split
  · exact hfields d
  · split
    · exact hfields d
    · -- the frame is locked, and its draw is under way
      refine (Core.incLock (e := img) (hfields d) ?_ (fun x => ?_) (hold_drawing_true s hdrawing)).mark hdisp
      · change 0 < s.hold img + disp.count img
        unfold State.hold
        omega
      · exact (incLock_counter x).trans (congrArg (· + _) (setFrame_counter (by rfl) x))

theorem inv_clientStep {act : Action} (h : Inv n s free disp) (hact : ∀ a, act ≠ .loop a)
    (hs : step s act = some s') : ∃ free' disp', Inv n s' free' disp' := by
  cases act with
  | loop a => exact absurd rfl (hact a)
  | fetch img =>
    simp only [step] at hs
    split at hs
    · rename_i next' queue' img' hrem
      simp only [Option.ite_none_right_eq_some, Option.some.injEq] at hs
      obtain ⟨rfl, rfl⟩ := hs
      obtain ⟨free', hcore⟩ := Core.fetch h hrem
      exact ⟨free', disp, hcore⟩
    · simp at hs
  | getFrame img =>
    simp only [step, Option.ite_none_right_eq_some, Option.some.injEq] at hs
    obtain ⟨hfetched, rfl⟩ := hs
    refine ⟨free, disp, Core.getFrame h hfetched (fun x => ?_) (hold_incr_refs s img)⟩
    by_cases hx : x = img
    · simp [State.setFrame, hx]
    · simp [State.setFrame, hx]
  | incLock img =>
    simp only [step, Option.ite_none_right_eq_some, Option.some.injEq] at hs
    obtain ⟨hrefs, rfl⟩ := hs
    refine ⟨free, disp, Core.incLock (e := img) h ?_ incLock_counter (hold_incr_refs s img)⟩
    unfold State.hold
    omega
  | decLock img =>
    simp only [step, Option.ite_none_right_eq_some, Option.map_eq_some_iff] at hs
    obtain ⟨hrefs, r, hr, rfl⟩ := hs
    have hhold : ∀ x, { s with refs := decr s.refs img }.hold x + one (x = img) = s.hold x := by
      intro x
      have hx := decr_apply s.refs img x hrefs
      simp only [State.hold]
      omega
    obtain ⟨next', queue', frames', free', rfl, hcore⟩ := Core.decLock h hr hhold
    exact ⟨free', disp, hcore⟩
  | driverFree img =>
    simp only [step, Option.ite_none_right_eq_some, Option.map_eq_some_iff] at hs
    obtain ⟨hdriver, r, hr, rfl⟩ := hs
    have hhold : ∀ x, { s with driver := decr s.driver img }.hold x + one (x = img) = s.hold x := by
      intro x
      have hx := decr_apply s.driver img x hdriver
      simp only [State.hold]
      omega
    obtain ⟨next', queue', frames', free', rfl, hcore⟩ := Core.decLock h hr hhold
    exact ⟨free', disp, hcore⟩
  | grabFree img =>
    simp only [step, Option.ite_none_right_eq_some, Option.map_eq_some_iff] at hs
    obtain ⟨hgrabbed, r, hr, rfl⟩ := hs
    have hhold : ∀ x, { s with grabbed := decr s.grabbed img }.hold x + one (x = img) = s.hold x := by
      intro x
      have hx := decr_apply s.grabbed img x hgrabbed
      simp only [State.hold]
      omega
    obtain ⟨next', queue', frames', free', rfl, hcore⟩ := Core.decLock h hr hhold
    exact ⟨free', disp, hcore⟩
  | decode img bad =>
    simp only [step, Option.ite_none_right_eq_some, Option.some.injEq] at hs
    obtain ⟨-, rfl⟩ := hs
    exact ⟨free, disp, Core.congr h (setFrame_counter rfl) fun _ => rfl⟩
  | draw img vpts duration is_first =>
    simp only [step, Option.ite_none_right_eq_some, Option.some.injEq] at hs
    obtain ⟨⟨hrefs, hqueued⟩, rfl⟩ := hs
    exact ⟨free, disp, inv_drawStep vpts duration is_first h hrefs hqueued⟩
  | drawAppend img =>
    simp only [step, Option.ite_none_right_eq_some, Option.map_eq_some_iff] at hs
    obtain ⟨hdrawing, ⟨next', queue'⟩, happ, rfl⟩ := hs
    exact ⟨free, disp ++ [img], Core.append h hdrawing happ (hold_drawing_false s hdrawing)⟩
  | grab img =>
    simp only [step, Option.ite_none_right_eq_some] at hs
    obtain ⟨-, hs⟩ := hs
    split at hs
    · rename_i r img' hr
      simp only [Option.ite_none_right_eq_some, Option.some.injEq] at hs
      obtain ⟨rfl, rfl⟩ := hs
      have hhold : ∀ x, { s with grabbed := incr s.grabbed img' }.hold x =
          s.hold x + one (x = img') := by
        intro x
        simp only [State.hold, incr_apply]
        omega
      obtain ⟨next', queue', disp', rfl, -, hcore⟩ := Core.removeDisplay h hr hhold
      exact ⟨free, disp', hcore⟩
    · simp at hs
  | setDiscard value =>
    cases hs
    exact ⟨free, disp, h.flags s.redraw_needed _ s.video_loop_running⟩
  | voOpen =>
    cases hs
    exact ⟨free, disp, h.flags s.redraw_needed _ s.video_loop_running⟩
  | exit =>
    cases hs
    exact ⟨free, disp, h.flags s.redraw_needed s.discard_frames _⟩

theorem decLock_loop (hs : s.decLock e = some s') :
    s'.loop = s.loop ∧ s'.img_backup = s.img_backup := by
  unfold State.decLock at hs
  split_ifs at hs
  · obtain ⟨r, -, rfl⟩ := Option.map_eq_some_iff.1 hs
    exact ⟨rfl, rfl⟩
  · cases hs
    exact ⟨rfl, rfl⟩

theorem removeDisplay_loop (hs : s.removeDisplay = some (s', e)) :
    s'.loop = s.loop ∧ s'.img_backup = s.img_backup := by
  obtain ⟨r, -, hr⟩ := Option.map_eq_some_iff.1 hs
  obtain ⟨rfl, -⟩ := Prod.mk.inj hr
  exact ⟨rfl, rfl⟩

theorem clientStep_loop {act : Action} (hact : ∀ a, act ≠ .loop a) (hs : step s act = some s') :
    s'.loop = s.loop ∧ s'.img_backup = s.img_backup := by
  cases act with
  | loop a => exact absurd rfl (hact a)
  | fetch img =>
    simp only [step] at hs
    split at hs
    · simp only [Option.ite_none_right_eq_some, Option.some.injEq] at hs
      obtain ⟨-, rfl⟩ := hs
      exact ⟨rfl, rfl⟩
    · simp at hs
  | getFrame img | incLock img | decode img bad =>
    simp only [step, Option.ite_none_right_eq_some, Option.some.injEq] at hs
    obtain ⟨-, rfl⟩ := hs
    exact ⟨rfl, rfl⟩
  | draw img vpts duration is_first =>
    simp only [step, Option.ite_none_right_eq_some, Option.some.injEq] at hs
    obtain ⟨-, rfl⟩ := hs
    simp only [drawStep]
    split
    · exact ⟨rfl, rfl⟩
    · split <;> exact ⟨rfl, rfl⟩
  | decLock img | driverFree img | grabFree img =>
    simp only [step, Option.ite_none_right_eq_some, Option.map_eq_some_iff] at hs
    obtain ⟨-, r, hr, rfl⟩ := hs
    have hsame := decLock_loop hr
    exact ⟨hsame.1, hsame.2⟩
  | drawAppend img =>
    simp only [step, Option.ite_none_right_eq_some, Option.map_eq_some_iff] at hs
    obtain ⟨-, r, -, rfl⟩ := hs
    exact ⟨rfl, rfl⟩
  | grab img =>
    simp only [step, Option.ite_none_right_eq_some] at hs
    obtain ⟨-, hs⟩ := hs
    split at hs
    · rename_i r img' hr
      simp only [Option.ite_none_right_eq_some, Option.some.injEq] at hs
      obtain ⟨-, rfl⟩ := hs
      have hsame := removeDisplay_loop hr
      exact ⟨hsame.1, hsame.2⟩
    · simp at hs
  | setDiscard value | voOpen | exit =>
    cases hs
    exact ⟨rfl, rfl⟩

theorem backupNull_of_ne (hne : ∀ img, s.loop ≠ .backup img) : BackupNull s :=
  fun img himg => absurd himg (hne img)

theorem backupNull_of_some {t : State} (hs : some t = some s') (hne : ∀ img, t.loop ≠ .backup img) :
    BackupNull s' := by
  cases hs
  exact backupNull_of_ne hne

theorem backupNull_of_map {β : Type} {x : Option β} {f : β → State} (hs : x.map f = some s')
    (hne : ∀ r img, (f r).loop ≠ .backup img) : BackupNull s' := by
  obtain ⟨r, -, rfl⟩ := Option.map_eq_some_iff.1 hs
  exact backupNull_of_ne (hne r)

theorem backupNull_expireStep {vpts diff : ℤ} (hs : expireStep s vpts diff = some s') :
    BackupNull s' := by
  unfold expireStep at hs
  split at hs
  · exact backupNull_of_some hs (by simp)
  · dsimp only at hs
    split_ifs at hs
    · exact backupNull_of_some hs (by simp)
    · exact backupNull_of_some hs (by simp)
    · exact backupNull_of_map hs (by simp)
    · exact backupNull_of_some hs (by simp)
    · exact backupNull_of_some hs (by simp)

theorem backupNull_expiredStep {vpts diff : ℤ} {img : Frame}
    (hs : expiredStep s vpts diff img = some s') : BackupNull s' := by
  unfold expiredStep at hs
  split_ifs at hs <;> split at hs
  · exact backupNull_of_some hs (by simp)
  · exact backupNull_of_map hs (by simp)
  · exact backupNull_of_map hs (by simp)
  · exact backupNull_of_map hs (by simp)

theorem backupNull_nextStep {vpts : ℤ} (hs : nextStep s vpts = some s') : BackupNull s' := by
  unfold nextStep at hs
  split at hs
  · -- nothing is taken from the display queue
    split at hs
    · split_ifs at hs
      · split at hs
        all_goals
          exact backupNull_of_some hs (by simp)
      all_goals
        exact backupNull_of_some hs (by simp)
    · exact backupNull_of_some hs (by simp)
  · split_ifs at hs
    · exact backupNull_of_some hs (by simp)
    · obtain ⟨r, -, rfl⟩ := Option.map_eq_some_iff.1 hs
      exact fun _ _ => rfl

theorem backupNull_pausedRedrawStep (s : State) (needed : Bool) :
    BackupNull (pausedRedrawStep s needed) := by
  refine backupNull_of_ne fun img => ?_
  simp only [pausedRedrawStep]
  generalize (if needed = true then (1 : ℤ) else s.redraw_needed) = r
  split
  · split
    · split <;> simp
    · simp
  · simp

theorem backupNull_loopStep {act : LoopAction} {pc : LoopPc} (hs : loopStep s pc act = some s') :
    BackupNull s' := by
  unfold loopStep at hs
  split at hs
  · cases hs
    refine backupNull_of_ne fun img => ?_
    dsimp only
    split_ifs <;> simp
  · exact backupNull_expireStep hs
  · exact backupNull_expiredStep hs
  · exact backupNull_nextStep hs
  · -- the backup for a possible still image
    split_ifs at hs
    · split at hs
      all_goals
        exact backupNull_of_some hs (by simp)
    · exact backupNull_of_some hs (by simp)
  · exact backupNull_of_map hs (by simp)
  · exact backupNull_of_map hs (by simp)
  · exact backupNull_of_some hs (by simp)
  · rename_i caller img
    cases hs
    cases caller <;> exact backupNull_of_ne (by simp)
  · exact backupNull_of_some hs (by simp)
  · -- asleep
    split_ifs at hs
    all_goals
      exact backupNull_of_some hs (by simp)
  · -- paused
    split_ifs at hs
    all_goals
      exact backupNull_of_some hs (by simp)
  · unfold pausedFreeStep at hs
    split at hs
    · exact backupNull_of_map hs (by simp)
    · exact backupNull_of_some hs (by simp)
  · split at hs
    · exact backupNull_of_map hs (by simp)
    · exact backupNull_of_some hs (by simp)
  · cases hs
    exact backupNull_pausedRedrawStep s _
  · split at hs
    · exact backupNull_of_map hs (by simp)
    · exact backupNull_of_some hs (by simp)
  · exact backupNull_of_map hs (by simp)
  · exact backupNull_of_map hs (by simp)
  · exact backupNull_of_map hs (by simp)
  · simp at hs

end Step

/-! ## Every interleaving -/

/-- What the port promises about its frames, when its queues are the lists `free` and `disp`. -/
structure Conserved (n : ℕ) (s : State) (free disp : List Frame) : Prop where
  /-- The free queue is the list `free`, and counts its length. -/
  free_rep : QueueRep s.next s.free_img_buf_queue free
  /-- The display queue is the list `disp`, and counts its length. -/
  disp_rep : QueueRep s.next s.display_img_buf_queue disp
  /-- `lock_counter` is the number of references. -/
  counter : ∀ e, (s.frames e).lock_counter = ((s.hold e + disp.count e : ℕ) : ℤ)
  /-- A free frame is in no other place, and nobody has a reference to it. -/
  of_free : ∀ e ∈ free, e ∉ disp ∧ s.fetched e = false ∧ s.hold e = 0
  /-- Nor to a frame that `vo_get_frame` hands out. -/
  of_fetched : ∀ e, s.fetched e → e ∉ free ∧ e ∉ disp ∧ s.hold e = 0
  /-- No frame is lost. -/
  place : ∀ e, e < n ↔ e ∈ free ∨ e ∈ disp ∨ s.fetched e ∨ 0 < s.hold e
  /-- Giving up a reference does not crash. -/
  decLock : ∀ e, 0 < s.hold e → (s.decLock e).isSome
  /-- Nor does the append of `vo_frame_draw`. -/
  drawAppend : ∀ e, s.drawing e → (voAppendToImgBufQueue s.next s.display_img_buf_queue e).isSome

section Runs

variable {n : ℕ} {s s' : State} {free disp : List Frame}

theorem Inv.conserved (h : Inv n s free disp) : Conserved n s free disp := by
  refine ⟨h.free_rep, h.disp_rep, h.counter, fun e he => ?_, fun e he => ?_, fun e => ?_,
    fun e he => Core.decLock_isSome h he, fun e he => ?_⟩
  · obtain ⟨hhold, hcount, hfetched⟩ := Core.of_free h he
    exact ⟨List.count_eq_zero.1 hcount, hfetched, hhold⟩
  · have hplace := h.place e
    have hle := one_le (e < n)
    rw [one_pos _ he] at hplace
    have hzero := one_eq_zero.1 (show one (0 < s.hold e + disp.count e) = 0 by omega)
    exact ⟨List.count_eq_zero.1 (by omega), List.count_eq_zero.1 (by omega), by omega⟩
  · -- One of the four summands is the one place of the frame.
    have hplace := h.place e
    rw [← List.count_pos_iff (l := free), ← List.count_pos_iff (l := disp)]
    constructor
    · intro hn
      rw [one_pos _ hn] at hplace
      by_contra hnone
      rw [not_or, not_or, not_or] at hnone
      obtain ⟨hfree, hdisp, hfetched, hhold⟩ := hnone
      rw [one_neg _ hfetched, one_neg _ (show ¬0 < s.hold e + disp.count e by omega)] at hplace
      omega
    · intro hsome
      by_contra hn
      rw [one_neg _ hn] at hplace
      have hfetched := one_eq_zero.1 (show one (s.fetched e = true) = 0 by omega)
      have hpos := one_eq_zero.1 (show one (0 < s.hold e + disp.count e) = 0 by omega)
      rcases hsome with hfree | hdisp | hfetch | hhold
      · omega
      · omega
      · exact hfetched hfetch
      · omega
  · have hpos : 0 < s.hold e := by
      unfold State.hold
      rw [one_pos _ he]
      omega
    have hdisp := h.drawing_disp e he
    obtain ⟨hfree, -, -⟩ := Core.of_pos h (e := e) (by omega)
    obtain ⟨next', queue', happ, -⟩ := voAppend_spec h.disp_rep hdisp (h.next_null e hfree hdisp)
    rw [happ]
    rfl

/-- What every step keeps that steals no frame. -/
def Kept (n : ℕ) (s : State) : Prop := (∃ free disp, Inv n s free disp) ∧ BackupNull s

theorem kept_step {act : Action} (h : Kept n s) (hsteal : ¬Steals s act)
    (hs : step s act = some s') : Kept n s' := by
  obtain ⟨⟨free, disp, hinv⟩, hnull⟩ := h
  by_cases hact : ∃ a, act = .loop a
  · obtain ⟨a, rfl⟩ := hact
    exact ⟨inv_loopStep hinv hnull hsteal rfl hs, backupNull_loopStep hs⟩
  · have hclient : ∀ a, act ≠ .loop a := fun a ha => hact ⟨a, ha⟩
    refine ⟨inv_clientStep hinv hclient hs, fun img himg => ?_⟩
    obtain ⟨hloop, hbackup⟩ := clientStep_loop hclient hs
    rw [hloop] at himg
    rw [hbackup]
    exact hnull img himg

theorem not_conserved_of_steals {act : Action} (h : Inv n s free disp) (hsteal : Steals s act)
    (hs : step s act = some s') (free' disp' : List Frame) : ¬Conserved n s' free' disp' := by
  intro hcons
  obtain ⟨rfl, hdisp, hfree⟩ := hsteal
  obtain ⟨first, hfirst⟩ := Option.ne_none_iff_exists'.1 hdisp
  have hpc : s.loop = .pausedFree := by
    cases hl : s.loop <;> simp [step, loopStep, hl] at hs ⊢
  simp only [step, loopStep, hpc, pausedFreeStep, hfirst, hfree, Option.map_eq_some_iff] at hs
  obtain ⟨⟨r, img⟩, hr, rfl⟩ := hs
  -- The counter of the frame still counts its place in the display queue.
  obtain ⟨next', queue', hrem, hr⟩ : ∃ next' queue',
      voRemoveFromImgBufQueue s.next s.display_img_buf_queue = some (next', queue', img) ∧
        r.frames = s.frames := by
    obtain ⟨⟨next', queue', img'⟩, hrem, heq⟩ := Option.map_eq_some_iff.1 hr
    obtain ⟨rfl, rfl⟩ := Prod.mk.inj heq
    exact ⟨next', queue', hrem, rfl⟩
  obtain ⟨rest, hdisp', -, -⟩ := voRemove_spec h.disp_rep hrem
  have hcounter := h.counter img
  rw [hdisp', count_cons_one, one_pos (img = img) rfl] at hcounter
  -- But a free frame has none.
  have hmem : img ∈ free' := by
    have hchain := hcons.free_rep.chain
    obtain ⟨ys, rfl⟩ := hchain.exists_cons
    simp
  obtain ⟨hnot, -, hzero⟩ := hcons.of_free img hmem
  have hcounter' := hcons.counter img
  rw [hzero, List.count_eq_zero_of_not_mem hnot] at hcounter'
  dsimp only at hcounter'
  rw [hr] at hcounter'
  omega

theorem voNewPort_loop {init : State} (h : Inv 0 init [] []) (n : ℕ) :
    ∃ s, (List.range n).foldlM
        (fun s img => (voAppendToImgBufQueue s.next s.free_img_buf_queue img).map fun r =>
          { s with next := r.1, free_img_buf_queue := r.2 }) init = some s ∧
      Inv n s (List.range n) [] ∧ s.loop = init.loop := by
  induction n with
  | zero => exact ⟨init, rfl, h, rfl⟩
  | succ n ih =>
    obtain ⟨s, hs, hinv, hloop⟩ := ih
    have hmem : n ∉ List.range n := by simp
    obtain ⟨next', queue', happ, hrep, hsame⟩ := voAppend_spec hinv.free_rep hmem
      (hinv.next_null n hmem (by simp))
    refine ⟨{ s with next := next', free_img_buf_queue := queue' }, ?_, ?_, hloop⟩
    · rw [List.range_succ, List.foldlM_append, hs]
      simp [happ]
    · rw [List.range_succ]
      refine ⟨hrep, hinv.disp_rep.congr fun a ha => absurd ha (by simp), fun e he he' => ?_,
        hinv.counter, fun e => ?_, hinv.drawing_queued, hinv.disp_queued, hinv.drawing_disp⟩
      · have her : e ∉ List.range n := fun her => he (List.mem_append_left _ her)
        exact (hsame e her).trans (hinv.next_null e her he')
      · have hplace := hinv.place e
        change (List.range n ++ [n]).count e + one (s.fetched e) +
          one (0 < s.hold e + [].count e) = one (e < n + 1)
        rw [count_append_one, one_lt_succ]
        omega

theorem emptyPort_inv (grab_only : Bool) : Inv 0 (emptyPort grab_only) [] [] := by
  have hhold : ∀ e, (emptyPort grab_only).hold e = 0 := by
    intro e
    cases grab_only <;> simp [State.hold, emptyPort, LoopPc.img, one]
  refine ⟨voNewImgBufQueue_spec _, voNewImgBufQueue_spec _, fun _ _ _ => rfl, fun e => ?_,
    fun e => ?_, by simp [emptyPort], by simp, by simp⟩
  · rw [hhold e]
    rfl
  · rw [hhold e]
    simp [emptyPort, one]

theorem voNewPort_spec (n : ℕ) (grab_only : Bool) :
    ∃ s, voNewPort n grab_only = some s ∧ Inv n s (List.range n) [] ∧ BackupNull s := by
  obtain ⟨s, hs, hinv, hloop⟩ := voNewPort_loop (emptyPort_inv grab_only) n
  refine ⟨s, hs, hinv, backupNull_of_ne fun img => ?_⟩
  rw [hloop]
  cases grab_only <;> simp [emptyPort]

/-- Over every interleaving of the video loop, the driver and any other threads on a new port, the
frames are conserved in every state if and only if no step steals a frame: the queues are kept by
their pointers and counters, each `lock_counter` is the number of references, `vo_get_frame` hands out
no frame that somebody has a reference to, and no frame is lost. -/
theorem video_run_conserves {n : ℕ} {grab_only : Bool} {s₀ s : State} {as : List Action}
    (hnew : voNewPort n grab_only = some s₀) (hrun : Runs.run step s₀ as = some s) :
    Runs.Guarded step (fun t act => ¬Steals t act) s₀ as ↔
      ∀ bs t, bs <+: as → Runs.run step s₀ bs = some t → ∃ free disp, Conserved n t free disp := by
  obtain ⟨s₁, hs₁, hinv, hnull⟩ := voNewPort_spec n grab_only
  obtain rfl : s₁ = s₀ := Option.some.inj (hs₁.symm.trans hnew)
  have hconserved : ∀ t, Kept n t → ∃ free disp, Conserved n t free disp := by
    rintro t ⟨⟨free, disp, h⟩, -⟩
    exact ⟨free, disp, h.conserved⟩
  refine Runs.guarded_iff hconserved (fun t act t' h hok ht => kept_step h hok ht) ?_
    ⟨⟨_, _, hinv⟩, hnull⟩ hrun
  rintro t act t' ⟨⟨free, disp, h⟩, -⟩ hno ht ⟨free', disp', hcons⟩
  exact not_conserved_of_steals h (not_not.1 hno) ht free' disp' hcons

end Runs

/-- A decoder draws a frame, and the video loop shows it before the clock stops. -/
theorem video_run_conserves_shown : ∃ (s₀ s : State) (free disp : List Frame),
    voNewPort 5 false = some s₀ ∧
      Runs.run step s₀ [.fetch 0, .getFrame 0, .draw 0 0 3000 false, .drawAppend 0, .loop (.top 0),
        .loop .expire, .loop .expire, .loop .next, .loop (.backup false), .loop .remove,
        .loop .display, .loop .hold, .loop .show, .loop (.sleep true false)] = some s ∧
      Conserved 5 s free disp := by
  have hsome : ((voNewPort 5 false).bind fun s₀ =>
      Runs.run step s₀ [.fetch 0, .getFrame 0, .draw 0 0 3000 false, .drawAppend 0, .loop (.top 0),
        .loop .expire, .loop .expire, .loop .next, .loop (.backup false), .loop .remove,
        .loop .display, .loop .hold, .loop .show, .loop (.sleep true false)]).isSome := by
    decide
  obtain ⟨s, hs⟩ := Option.isSome_iff_exists.1 hsome
  obtain ⟨s₀, hnew, hrun⟩ := Option.bind_eq_some_iff.1 hs
  have hguarded := video_run_conserves hnew hrun
  obtain ⟨free, disp, hcons⟩ := hguarded.1 (by simp [Runs.Guarded, Steals]) _ s List.prefix_rfl hrun
  exact ⟨s₀, s, free, disp, hnew, hrun, hcons⟩

/-- A decoder that has all five frames draws one, the clock stops before the time of this frame has
come, and `paused_loop` makes it a free one. -/
def stealingRun : List Action :=
  [.fetch 0, .getFrame 0, .fetch 1, .getFrame 1, .fetch 2, .getFrame 2, .fetch 3, .getFrame 3,
    .fetch 4, .getFrame 4, .loop (.top 0), .loop .expire, .loop .next, .draw 0 9000000 3000 false,
    .drawAppend 0, .loop (.redraw false), .loop (.sleep true false), .loop (.paused true),
    .loop .pausedFree, .loop .pausedBackup, .loop (.pausedRedraw false), .loop (.paused false),
    .fetch 0]

/-- After this run `vo_get_frame` hands out a frame that the decoder still has a reference to. -/
theorem video_run_hands_out_referenced_frame :
    ∃ s₀ s, voNewPort 5 false = some s₀ ∧ Runs.run step s₀ stealingRun = some s ∧
      s.fetched 0 = true ∧ s.refs 0 = 1 ∧ ¬∃ free disp, Conserved 5 s free disp := by
  have hsome : ((voNewPort 5 false).bind fun s₀ => Runs.run step s₀ stealingRun).any
      (fun s => s.fetched 0 && s.refs 0 == 1) := by
    decide
  obtain ⟨s, hs, hlast⟩ := (Option.any_eq_true _ _).1 hsome
  obtain ⟨s₀, hnew, hrun⟩ := Option.bind_eq_some_iff.1 hs
  simp only [Bool.and_eq_true, beq_iff_eq] at hlast
  refine ⟨s₀, s, hnew, hrun, hlast.1, hlast.2, ?_⟩
  rintro ⟨free, disp, hcons⟩
  have hhold := (hcons.of_fetched 0 hlast.1).2.2
  simp [State.hold, hlast.2] at hhold

end Xine.VideoOut
