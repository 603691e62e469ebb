import Xine.VideoOut.Conservation

/-!
# The expiry of late frames

`expire_frames` takes frames from the front of the display queue while they are over, that is late by more than
their duration. The condition of its loop does not compare the lateness of the frame at the front, however, but
that of the one before it, and 1000000 for the first one: a frame that is over stays in the queue, with those
behind it, if its duration is at least that.
-/

namespace Xine.VideoOut

open Chain Places

/-- `expire_frames`, where no other thread comes in between, with a bound on the rounds of the loop. -/
def expireFrames (cur_vpts : ℤ) : ℕ → ℤ → State → Option State
  | 0, _, _ => none
  | rounds + 1, diff, s =>
    (expireStep s cur_vpts diff).bind fun s' =>
      match s'.loop with
      | .expired vpts diff img =>
        (expiredStep s' vpts diff img).bind (expireFrames cur_vpts rounds diff)
      | .expire _ diff => expireFrames cur_vpts rounds diff s'
      | _ => some s'

/-- The difference that the loop in `expire_frames` starts with, to enter it always. -/
def startDiff : ℤ := 1000000

/-- The frame is over. -/
def Over (cur_vpts : ℤ) (frames : Frame → VoFrame) (img : Frame) : Prop :=
  cur_vpts - (frames img).vpts > (frames img).duration

instance (cur_vpts : ℤ) (frames : Frame → VoFrame) : DecidablePred (Over cur_vpts frames) :=
  fun _ => inferInstanceAs (Decidable (_ < _))

/-- The frames that `expire_frames` takes: while the frame at the front is over, and the frame before
it is late by more than its duration. -/
def expiredFront (cur_vpts : ℤ) (frames : Frame → VoFrame) : ℤ → List Frame → List Frame
  | _, [] => []
  | diff, img :: disp =>
    if diff > (frames img).duration ∧ Over cur_vpts frames img then
      img :: expiredFront cur_vpts frames (cur_vpts - (frames img).vpts) disp
    else []

/-- Each frame of the maximal prefix of frames that are over has a duration below the lateness of the
frame before it. -/
def Entered (cur_vpts : ℤ) (frames : Frame → VoFrame) : ℤ → List Frame → Prop
  | _, [] => True
  | diff, img :: disp =>
    Over cur_vpts frames img →
      diff > (frames img).duration ∧ Entered cur_vpts frames (cur_vpts - (frames img).vpts) disp

/-- The frames that are released when frames are taken from the queue and others stay: if none does,
the old backup in place of the last one. -/
def released (img_backup : Option Frame) (taken kept : List Frame) : List Frame :=
  if kept = [] ∧ taken ≠ [] then taken.dropLast ++ img_backup.toList else taken

/-- The frames `taken` have been taken from the display queue, and the frames `kept` are left: each
released frame has been released once, and the last one that was taken is the backup if none is
left. -/
structure Expired (n : ℕ) (s s' : State) (taken kept : List Frame) : Prop where
  inv : ∃ free, Inv n s' free kept
  frames : ∀ img, s'.frames img =
    { s.frames img with
      lock_counter :=
        (s.frames img).lock_counter - (released s.img_backup taken kept).count img }
  img_backup : s'.img_backup = if kept = [] ∧ taken ≠ [] then taken.getLast? else s.img_backup

section Expiry

variable {n rounds : ℕ} {cur_vpts diff : ℤ} {s s' : State} {free disp : List Frame} {img : Frame}
  {frames frames' : Frame → VoFrame}

/-! ## The frames that are taken -/

theorem expiredFront_eq_iff :
    expiredFront cur_vpts frames diff disp = disp.takeWhile (Over cur_vpts frames ·) ↔
      Entered cur_vpts frames diff disp := by
  induction disp generalizing diff with
  | nil => exact ⟨fun _ => trivial, fun _ => rfl⟩
  | cons img disp ih =>
    unfold expiredFront Entered
    by_cases hover : Over cur_vpts frames img
    · rw [List.takeWhile_cons_of_pos (by exact decide_eq_true hover), ← ih]
      by_cases hdiff : diff > (frames img).duration
      · rw [if_pos ⟨hdiff, hover⟩, List.cons.injEq]
        exact ⟨fun h _ => ⟨hdiff, h.2⟩, fun h => ⟨rfl, (h hover).2⟩⟩
      · rw [if_neg fun h => hdiff h.1]
        exact ⟨fun h => absurd h.symm (List.cons_ne_nil _ _), fun h => absurd (h hover).1 hdiff⟩
    · rw [List.takeWhile_cons_of_neg (by simpa using hover), if_neg fun h => hover h.2]
      exact ⟨fun _ h => absurd h hover, fun _ => rfl⟩

theorem expiredFront_append (cur_vpts : ℤ) (frames : Frame → VoFrame) (diff : ℤ) (disp : List Frame) :
    expiredFront cur_vpts frames diff disp ++
      disp.drop (expiredFront cur_vpts frames diff disp).length = disp := by
  induction disp generalizing diff with
  | nil => rfl
  | cons img disp ih =>
    unfold expiredFront
    split_ifs with h
    · rw [List.length_cons, List.drop_succ_cons, List.cons_append, ih]
    · rfl

theorem expiredFront_congr (hvpts : ∀ img, (frames' img).vpts = (frames img).vpts)
    (hduration : ∀ img, (frames' img).duration = (frames img).duration) :
    expiredFront cur_vpts frames' diff disp = expiredFront cur_vpts frames diff disp := by
  induction disp generalizing diff with
  | nil => rfl
  | cons img disp ih =>
    have hover : Over cur_vpts frames' img ↔ Over cur_vpts frames img := by
      unfold Over
      rw [hvpts, hduration]
    simp only [expiredFront, hvpts, hduration, hover, ih]

/-! ## The rounds -/

theorem decLock_frames (hs : s.decLock img = some s') (x : Frame) :
    s'.frames x =
      { s.frames x with lock_counter := (s.frames x).lock_counter - ([img].count x : ℕ) } := by
  have hupdate : Function.update s.frames img
      { s.frames img with lock_counter := (s.frames img).lock_counter - 1 } x =
        { s.frames x with lock_counter := (s.frames x).lock_counter - ([img].count x : ℕ) } := by
    by_cases hx : x = img
    · rw [hx, Function.update_self, List.count_singleton_self]
      rfl
    · rw [Function.update_of_ne hx, List.count_singleton, if_neg (by simpa using Ne.symm hx)]
      simp
  unfold State.decLock at hs
  split_ifs at hs
  · obtain ⟨r, -, rfl⟩ := Option.map_eq_some_iff.1 hs
    exact hupdate
  · cases hs
    exact hupdate

theorem decLock_rest (hs : s.decLock img = some s') :
    s'.display_img_buf_queue = s.display_img_buf_queue ∧ s'.img_backup = s.img_backup ∧
      s'.discard_frames = s.discard_frames ∧ s'.loop = s.loop := by
  unfold State.decLock at hs
  split_ifs at hs
  · obtain ⟨r, -, rfl⟩ := Option.map_eq_some_iff.1 hs
    exact ⟨rfl, rfl, rfl, rfl⟩
  · cases hs
    exact ⟨rfl, rfl, rfl, rfl⟩

/-! ## The lock of the display queue -/

/-- The display queue is not locked for reading. -/
def Unlocked (s : State) : Prop := s.display_img_buf_queue.locked_for_read = false

theorem unlocked_decLock (h : Unlocked s) (hs : s.decLock img = some s') : Unlocked s' := by
  unfold Unlocked
  rw [(decLock_rest hs).1]
  exact h

theorem unlocked_decLockIf {last : Option Frame} (h : Unlocked s) (hs : s.decLockIf last = some s') :
    Unlocked s' := by
  cases last with
  | none =>
    cases hs
    exact h
  | some img => exact unlocked_decLock h hs

theorem unlocked_removeDisplay (h : Unlocked s) (hs : s.removeDisplay = some (s', img)) :
    Unlocked s' := by
  obtain ⟨r, hr, heq⟩ := Option.map_eq_some_iff.1 hs
  obtain ⟨rfl, -⟩ := Prod.mk.inj heq
  unfold voRemoveFromImgBufQueue at hr
  split at hr
  · exact absurd hr.symm (Option.some_ne_none r)
  · split_ifs at hr
    cases hr
    unfold Unlocked unlinkFirst
    dsimp only
    split_ifs
    · exact h
    · exact h

theorem unlocked_duplicateFrame (h : Unlocked s) {dupl : Frame}
    (hs : s.duplicateFrame img = some (s', dupl)) : Unlocked s' := by
  obtain ⟨r, -, heq⟩ := Option.map_eq_some_iff.1 hs
  obtain ⟨rfl, -⟩ := Prod.mk.inj heq
  exact h

theorem unlocked_append {next next' : Links} {queue queue' : ImgBufFifo}
    (h : queue.locked_for_read = false)
    (hs : voAppendToImgBufQueue next queue img = some (next', queue')) :
    queue'.locked_for_read = false := by
  unfold voAppendToImgBufQueue at hs
  split_ifs at hs
  split at hs
  all_goals
    obtain ⟨-, rfl⟩ := Prod.mk.inj (Option.some.inj hs)
    exact h

theorem unlocked_expireStep {vpts : ℤ} (h : Unlocked s) (hs : expireStep s vpts diff = some s') :
    Unlocked s' := by
  unfold expireStep at hs
  split at hs
  · cases hs
    exact h
  · dsimp only at hs
    split_ifs at hs
    · cases hs
      exact h
    · cases hs
      exact h
    · obtain ⟨r, hr, rfl⟩ := Option.map_eq_some_iff.1 hs
      exact (unlocked_removeDisplay h hr :)
    · cases hs
      exact h
    · cases hs
      exact h

theorem unlocked_expiredStep {vpts : ℤ} (h : Unlocked s)
    (hs : expiredStep s vpts diff img = some s') : Unlocked s' := by
  unfold expiredStep at hs
  split_ifs at hs <;> split at hs
  · cases hs
    exact h
  all_goals
    obtain ⟨r, hr, rfl⟩ := Option.map_eq_some_iff.1 hs
  · exact (unlocked_decLock h hr :)
  · exact (unlocked_decLockIf h hr :)
  · exact (unlocked_decLock h hr :)

theorem unlocked_nextStep {vpts : ℤ} (h : Unlocked s) (hs : nextStep s vpts = some s') :
    Unlocked s' := by
  unfold nextStep at hs
  split at hs
  · -- nothing is taken from the display queue
    split at hs
    · split_ifs at hs
      · split at hs
        · rename_i hdupl
          cases hs
          exact (unlocked_duplicateFrame h hdupl :)
        · cases hs
          exact h
      all_goals
        cases hs
        exact h
    · cases hs
      exact h
  · split_ifs at hs
    · cases hs
      exact h
    · obtain ⟨r, hr, rfl⟩ := Option.map_eq_some_iff.1 hs
      exact (unlocked_decLockIf h hr :)

theorem unlocked_pausedRedrawStep (h : Unlocked s) (needed : Bool) :
    Unlocked (pausedRedrawStep s needed) := by
  simp only [pausedRedrawStep]
  generalize (if needed = true then (1 : ℤ) else s.redraw_needed) = r
  split
  · split
    · split
      · rename_i hdupl
        have hbefore : Unlocked { s with redraw_needed := r, loop := .paused } := h
        exact (unlocked_duplicateFrame hbefore hdupl :)
      · exact h
    · exact h
  · exact h

theorem unlocked_loopStep {act : LoopAction} {pc : LoopPc} (h : Unlocked s)
    (hs : loopStep s pc act = some s') : Unlocked s' := by
  unfold loopStep at hs
  split at hs
  · cases hs
    exact h
  · exact unlocked_expireStep h hs
  · exact unlocked_expiredStep h hs
  · exact unlocked_nextStep h hs
  · -- the backup for a possible still image
    split_ifs at hs
    · split at hs
      · rename_i hdupl
        cases hs
        exact (unlocked_duplicateFrame h hdupl :)
      · cases hs
        exact h
    · cases hs
      exact h
  · obtain ⟨r, hr, rfl⟩ := Option.map_eq_some_iff.1 hs
    exact (unlocked_removeDisplay h hr :)
  · obtain ⟨r, hr, rfl⟩ := Option.map_eq_some_iff.1 hs
    exact (unlocked_decLockIf h hr :)
  · cases hs
    exact h
  · cases hs
    exact h
  · cases hs
    exact h
  · -- asleep
    split_ifs at hs
    all_goals
      cases hs
      exact h
  · -- paused
    split_ifs at hs
    all_goals
      cases hs
      exact h
  · unfold pausedFreeStep at hs
    split at hs
    · obtain ⟨r, hr, rfl⟩ := Option.map_eq_some_iff.1 hs
      exact (unlocked_removeDisplay h hr :)
    · cases hs
      exact h
  · split at hs
    · obtain ⟨r, hr, rfl⟩ := Option.map_eq_some_iff.1 hs
      exact (unlocked_removeDisplay h hr :)
    · cases hs
      exact h
  · cases hs
    exact unlocked_pausedRedrawStep h _
  · split at hs
    · obtain ⟨r, hr, rfl⟩ := Option.map_eq_some_iff.1 hs
      exact (unlocked_removeDisplay h hr :)
    · cases hs
      exact h
  · obtain ⟨r, hr, rfl⟩ := Option.map_eq_some_iff.1 hs
    exact (unlocked_decLock h hr :)
  · obtain ⟨r, hr, rfl⟩ := Option.map_eq_some_iff.1 hs
    exact (unlocked_decLockIf h hr :)
  · obtain ⟨r, hr, rfl⟩ := Option.map_eq_some_iff.1 hs
    exact (unlocked_decLockIf h hr :)
  · exact absurd hs.symm (Option.some_ne_none s')

theorem unlocked_step {act : Action} (h : Unlocked s) (hs : step s act = some s') : Unlocked s' := by
  cases act with
  | loop a => exact unlocked_loopStep h hs
  | fetch img =>
    simp only [step] at hs
    split at hs
    · simp only [Option.ite_none_right_eq_some, Option.some.injEq] at hs
      obtain ⟨-, rfl⟩ := hs
      exact h
    · exact absurd hs.symm (Option.some_ne_none s')
  | getFrame img | incLock img | decode img bad =>
    simp only [step, Option.ite_none_right_eq_some, Option.some.injEq] at hs
    obtain ⟨-, rfl⟩ := hs
    exact h
  | draw img vpts duration is_first =>
    simp only [step, Option.ite_none_right_eq_some, Option.some.injEq] at hs
    obtain ⟨-, rfl⟩ := hs
    unfold drawStep
    dsimp only
    split_ifs <;> exact h
  | decLock img | driverFree img | grabFree img =>
    simp only [step, Option.ite_none_right_eq_some, Option.map_eq_some_iff] at hs
    obtain ⟨-, r, hr, rfl⟩ := hs
    exact (unlocked_decLock h hr :)
  | drawAppend img =>
    simp only [step, Option.ite_none_right_eq_some, Option.map_eq_some_iff] at hs
    obtain ⟨-, r, hr, rfl⟩ := hs
    exact unlocked_append h hr
  | grab img =>
    simp only [step, Option.ite_none_right_eq_some] at hs
    obtain ⟨-, hs⟩ := hs
    split at hs
    · rename_i r img' hr
      simp only [Option.ite_none_right_eq_some, Option.some.injEq] at hs
      obtain ⟨-, rfl⟩ := hs
      exact (unlocked_removeDisplay h hr :)
    · exact absurd hs.symm (Option.some_ne_none s')
  | setDiscard value | voOpen | exit =>
    cases hs
    exact h

theorem unlocked_voNewPort {n : ℕ} {grab_only : Bool} (h : voNewPort n grab_only = some s) :
    Unlocked s := by
  unfold voNewPort at h
  -- Over the frames that are allocated: only the free queue changes.
  have hfold : ∀ (imgs : List Frame) (init : State), Unlocked init →
      imgs.foldlM (fun s img => (voAppendToImgBufQueue s.next s.free_img_buf_queue img).map fun r =>
        { s with next := r.1, free_img_buf_queue := r.2 }) init = some s → Unlocked s := by
    intro imgs
    induction imgs with
    | nil =>
      intro init hinit hs
      cases hs
      exact hinit
    | cons img imgs ih =>
      intro init hinit hs
      rw [List.foldlM_cons, Option.bind_eq_bind, Option.bind_eq_some_iff] at hs
      obtain ⟨mid, hmid, hs⟩ := hs
      obtain ⟨r, -, rfl⟩ := Option.map_eq_some_iff.1 hmid
      refine ih _ ?_ hs
      exact hinit
  have hempty : Unlocked (emptyPort grab_only) := rfl
  exact hfold _ _ hempty h

theorem unlocked_run {n : ℕ} {grab_only : Bool} {s₀ : State} {as : List Action}
    (hnew : voNewPort n grab_only = some s₀) (hrun : Runs.run step s₀ as = some s) : Unlocked s :=
  Runs.run_invariant (fun _ _ _ h hs => unlocked_step h hs) (unlocked_voNewPort hnew) hrun

/-- `expire_frames` at the condition of its loop: no frames are discarded, none of the display queue
is marked, and this queue is not locked, which only the free queue ever is. -/
structure Expiring (n : ℕ) (cur_vpts : ℤ) (s : State) (free disp : List Frame) : Prop where
  inv : Inv n s free disp
  loop : ∃ diff, s.loop = .expire cur_vpts diff
  unlocked : Unlocked s
  discard_frames : s.discard_frames = 0
  is_first : ∀ img ∈ disp, (s.frames img).is_first = false

theorem Expiring.first (h : Expiring n cur_vpts s free (img :: disp)) :
    s.display_img_buf_queue.first = some img := h.inv.disp_rep.chain.first_cons

theorem expireFrames_stop (h : Expiring n cur_vpts s free disp)
    (hstop : ∀ img, disp.head? = some img →
      ¬(diff > (s.frames img).duration ∧ Over cur_vpts s.frames img)) :
    ∃ s', expireFrames cur_vpts (rounds + 2) diff s = some s' ∧ Expired n s s' [] disp := by
  obtain ⟨d, hloop⟩ := h.loop
  have hhas : s.loop.Has none := hloop ▸ ⟨rfl, rfl⟩
  -- the state behind the loop
  have hdone : Expired n s { s with loop := .next cur_vpts } [] disp := by
    refine ⟨⟨free, h.inv.goto _ hhas ⟨rfl, rfl⟩⟩, fun x => ?_, ?_⟩
    · rw [released, if_neg fun h => h.2 rfl, List.count_nil]
      simp
    · rw [if_neg fun h => h.2 rfl]
  refine ⟨_, ?_, hdone⟩
  rw [expireFrames]
  unfold expireStep
  cases disp with
  | nil =>
    rw [h.inv.disp_rep.chain.first_eq_none.2 rfl]
    rfl
  | cons img disp =>
    have hnot := hstop img rfl
    have hfirst := h.is_first img List.mem_cons_self
    rw [h.first]
    dsimp only
    by_cases hdiff : diff > (s.frames img).duration
    · have hover : ¬(cur_vpts - (s.frames img).vpts > (s.frames img).duration ∨
          s.discard_frames ≠ 0) := by
        rw [h.discard_frames]
        exact fun h => h.elim (fun hover => hnot ⟨hdiff, hover⟩) fun hne => hne rfl
      rw [if_pos (Or.inl hdiff), hfirst, if_neg Bool.false_ne_true, if_neg hover, Option.bind_some]
      dsimp only
      -- the next round finds the condition of the loop false
      rw [expireFrames]
      unfold expireStep
      dsimp only
      rw [h.first]
      dsimp only
      rw [if_neg hover]
      rfl
    · rw [if_neg (by rw [h.discard_frames]; exact fun h => h.elim hdiff fun hne => hne rfl)]
      rfl

theorem expireStep_over (h : Expiring n cur_vpts s free (img :: disp))
    (hdiff : diff > (s.frames img).duration) (hover : Over cur_vpts s.frames img) :
    ∃ s', expireStep s cur_vpts diff = some s' ∧
      s'.loop = .expired cur_vpts (cur_vpts - (s.frames img).vpts) img ∧
      Inv n s' free disp ∧ s'.frames = s.frames ∧ s'.img_backup = s.img_backup ∧
      s'.display_img_buf_queue.locked_for_read = false ∧ s'.discard_frames = 0 := by
  obtain ⟨d, hloop⟩ := h.loop
  have hhas : s.loop.Has none := hloop ▸ ⟨rfl, rfl⟩
  have hremove : ∃ r, s.removeDisplay = some (r, img) := by
    unfold State.removeDisplay voRemoveFromImgBufQueue
    rw [h.first, h.unlocked]
    exact ⟨_, rfl⟩
  obtain ⟨r, hr⟩ := hremove
  have hlocked : r.display_img_buf_queue.locked_for_read = false := by
    obtain ⟨q, hq, heq⟩ := Option.map_eq_some_iff.1 hr
    obtain ⟨rfl, -⟩ := Prod.mk.inj heq
    unfold voRemoveFromImgBufQueue at hq
    rw [h.first, h.unlocked] at hq
    cases hq
    dsimp only [unlinkFirst]
    split_ifs
    · exact h.unlocked
    · exact h.unlocked
  obtain ⟨next', queue', disp', rfl, hdisp, hcore⟩ := Core.removeDisplay h.inv hr fun x =>
    (rfl : (fun x => s.hold x + one (x = img)) x = _)
  obtain ⟨-, rfl⟩ := List.cons.inj hdisp
  refine ⟨{ s with
    next := next', display_img_buf_queue := queue', queued := Function.update s.queued img false
    loop := .expired cur_vpts (cur_vpts - (s.frames img).vpts) img }, ?_, rfl, ?_, rfl, rfl, hlocked,
    h.discard_frames⟩
  · unfold expireStep
    rw [h.first]
    dsimp only
    have hover' : cur_vpts - (s.frames img).vpts > (s.frames img).duration ∨ s.discard_frames ≠ 0 :=
      Or.inl hover
    rw [if_pos (Or.inl hdiff), h.is_first img List.mem_cons_self, if_neg Bool.false_ne_true,
      if_pos hover', hr]
    rfl
  · refine Core.congr hcore (fun _ => rfl) fun x => ?_
    rw [hold_of_img ⟨rfl, rfl⟩, hold_of_loop hhas]

theorem released_cons {img_backup : Option Frame} {taken kept : List Frame}
    (h : taken ++ kept ≠ []) :
    released img_backup (img :: taken) kept = img :: released img_backup taken kept := by
  unfold released
  by_cases hkept : kept = []
  · have htaken : taken ≠ [] := fun htaken => h (by rw [htaken, hkept]; rfl)
    rw [if_pos ⟨hkept, List.cons_ne_nil _ _⟩, if_pos ⟨hkept, htaken⟩,
      List.dropLast_cons_of_ne_nil htaken]
    rfl
  · rw [if_neg fun h => hkept h.1, if_neg fun h => hkept h.1]

theorem Expired.cons {t : State} {taken kept : List Frame} (h : Expired n t s' taken kept)
    (hkept : taken ++ kept ≠ []) (hframes : ∀ x, t.frames x =
      { s.frames x with lock_counter := (s.frames x).lock_counter - ([img].count x : ℕ) })
    (hbackup : t.img_backup = s.img_backup) : Expired n s s' (img :: taken) kept := by
  refine ⟨h.inv, fun x => ?_, ?_⟩
  · rw [h.frames x, released_cons hkept, hframes x, hbackup]
    have hcount : (img :: released s.img_backup taken kept).count x =
        [img].count x + (released s.img_backup taken kept).count x :=
      @List.count_append _ _ _ [img] _
    rw [hcount]
    dsimp only
    congr 1
    omega
  · rw [h.img_backup, hbackup]
    by_cases hnil : kept = []
    · have htaken : taken ≠ [] := fun htaken => hkept (by rw [htaken, hnil]; rfl)
      obtain ⟨a, as, rfl⟩ := List.exists_cons_of_ne_nil htaken
      rw [if_pos ⟨hnil, htaken⟩, if_pos ⟨hnil, List.cons_ne_nil _ _⟩, List.getLast?_cons_cons]
    · rw [if_neg fun h => hnil h.1, if_neg fun h => hnil h.1]

theorem expiredStep_last {vpts : ℤ} (h : Inv n s free []) (hloop : s.loop = .expired vpts diff img)
    (hdiscard : s.discard_frames = 0) :
    ∃ s' free', expiredStep s vpts diff img = some s' ∧ s'.loop = .expire vpts diff ∧
      Inv n s' free' [] ∧ s'.display_img_buf_queue = s.display_img_buf_queue ∧
      s'.discard_frames = 0 ∧ s'.img_backup = some img ∧ ∀ x, s'.frames x =
        { s.frames x with
          lock_counter := (s.frames x).lock_counter - (s.img_backup.toList.count x : ℕ) } := by
  have hfirst : s.display_img_buf_queue.first = none := h.disp_rep.chain.first_eq_none.2 rfl
  have hhas : s.loop.Has (some img) := hloop ▸ ⟨rfl, rfl⟩
  -- the state behind the step, for the state in which the old backup is released
  have hstep : ∀ r, s.decLockIf s.img_backup = some r → expiredStep s vpts diff img =
      some { r with img_backup := some img, redraw_needed := 4, loop := .expire vpts diff } := by
    intro r hr
    unfold expiredStep
    rw [if_neg (by rw [hdiscard]; exact fun h => h rfl), hfirst]
    dsimp only
    rw [hr]
    rfl
  cases hbackup : s.img_backup with
  | none =>
    rw [hbackup] at hstep
    exact ⟨_, free, hstep s rfl, rfl, h.backup_img hhas hbackup _ ⟨rfl, rfl⟩ 4, rfl, hdiscard, rfl,
      fun x => by simp⟩
  | some b =>
    have hpos : 0 < s.hold b := by
      unfold State.hold
      rw [hbackup, one_pos (some b = some b) rfl]
      omega
    obtain ⟨r, hr⟩ := Option.isSome_iff_exists.1 (h.decLock_isSome hpos)
    rw [hbackup] at hstep
    have hrest := decLock_rest hr
    obtain ⟨free', disp', hinv⟩ := inv_expiredStep h hloop (hstep r hr)
    have hnil : disp' = [] := by
      refine hinv.disp_rep.chain.first_eq_none.1 ?_
      change r.display_img_buf_queue.first = none
      rw [hrest.1, hfirst]
    rw [hnil] at hinv
    refine ⟨_, free', hstep r hr, rfl, hinv, hrest.1, hrest.2.2.1.trans hdiscard, rfl, fun x => ?_⟩
    exact decLock_frames hr x

theorem expiredStep_other {vpts : ℤ} {a : Frame} (h : Inv n s free (a :: disp))
    (hloop : s.loop = .expired vpts diff img) (hdiscard : s.discard_frames = 0) :
    ∃ s' free', expiredStep s vpts diff img = some s' ∧ s'.loop = .expire vpts diff ∧
      Inv n s' free' (a :: disp) ∧ s'.display_img_buf_queue = s.display_img_buf_queue ∧
      s'.discard_frames = 0 ∧ s'.img_backup = s.img_backup ∧ ∀ x, s'.frames x =
        { s.frames x with lock_counter := (s.frames x).lock_counter - ([img].count x : ℕ) } := by
  have hhas : s.loop.Has (some img) := hloop ▸ ⟨rfl, rfl⟩
  have hpos : 0 < s.hold img := by
    rw [hold_of_img hhas, one_pos (img = img) rfl]
    omega
  obtain ⟨r, hr⟩ := Option.isSome_iff_exists.1 (h.decLock_isSome hpos)
  obtain ⟨hqueue, hbackup, hdiscard', -⟩ := decLock_rest hr
  obtain ⟨free', hinv⟩ := h.decLock_img hhas (.expire vpts diff) ⟨rfl, rfl⟩ hr
  refine ⟨_, free', ?_, rfl, hinv, hqueue, hdiscard'.trans hdiscard, hbackup,
    fun x => decLock_frames hr x⟩
  unfold expiredStep
  rw [if_neg (by rw [hdiscard]; exact fun h => h rfl), h.disp_rep.chain.first_cons]
  dsimp only
  rw [hr]
  rfl

theorem expireFrames_expired (diff : ℤ) (h : Expiring n cur_vpts s free disp)
    (hrounds : disp.length + 2 ≤ rounds) :
    ∃ s', expireFrames cur_vpts rounds diff s = some s' ∧
      Expired n s s' (expiredFront cur_vpts s.frames diff disp)
        (disp.drop (expiredFront cur_vpts s.frames diff disp).length) := by
  induction disp generalizing s free diff rounds with
  | nil =>
    obtain ⟨rounds, rfl⟩ : ∃ r, rounds = r + 2 := ⟨rounds - 2, by omega⟩
    exact expireFrames_stop h fun img himg => absurd himg (Option.some_ne_none img).symm
  | cons img disp ih =>
    by_cases htake : diff > (s.frames img).duration ∧ Over cur_vpts s.frames img
    · rw [List.length_cons] at hrounds
      obtain ⟨rounds, rfl⟩ : ∃ r, rounds = r + 1 := ⟨rounds - 1, by omega⟩
      obtain ⟨s₁, hs₁, hloop₁, hinv₁, hframes₁, hbackup₁, hlocked₁, hdiscard₁⟩ :=
        expireStep_over h htake.1 htake.2
      rw [expireFrames, hs₁, Option.bind_some, hloop₁]
      dsimp only
      rw [expiredFront, if_pos htake, List.length_cons, List.drop_succ_cons]
      have hmarks : ∀ {t : State}, (∀ x, ∃ k : ℤ, t.frames x =
          { s₁.frames x with lock_counter := (s₁.frames x).lock_counter - k }) →
          ∀ x ∈ disp, (t.frames x).is_first = false := fun ht x hx => by
        obtain ⟨k, hk⟩ := ht x
        rw [hk, hframes₁]
        exact h.is_first x (List.mem_cons_of_mem _ hx)
      cases disp with
      | nil =>
        -- the last frame becomes the backup
        obtain ⟨t, free', ht, hloop, hinv, hqueue, hdiscard, hbackup, hframes⟩ :=
          expiredStep_last hinv₁ hloop₁ hdiscard₁
        have hunlocked : Unlocked t := by
          unfold Unlocked
          rw [hqueue]
          exact hlocked₁
        have hexp : Expiring n cur_vpts t free' [] :=
          ⟨hinv, ⟨_, hloop⟩, hunlocked, hdiscard, hmarks fun x => ⟨_, hframes x⟩⟩
        have hrounds' : ([] : List Frame).length + 2 ≤ rounds := Nat.le_of_succ_le_succ hrounds
        obtain ⟨s', hs', hdone⟩ := ih (cur_vpts - (s.frames img).vpts) hexp hrounds'
        rw [ht, Option.bind_some]
        refine ⟨s', hs', hdone.inv, fun x => ?_, ?_⟩
        · rw [hdone.frames x, hframes x, hframes₁, hbackup₁]
          change _ = { s.frames x with lock_counter :=
            (s.frames x).lock_counter - ([].dropLast ++ s.img_backup.toList).count x }
          simp [expiredFront, released]
        · rw [hdone.img_backup, hbackup]
          rfl
      | cons a disp =>
        -- another frame is released
        obtain ⟨t, free', ht, hloop, hinv, hqueue, hdiscard, hbackup, hframes⟩ :=
          expiredStep_other hinv₁ hloop₁ hdiscard₁
        have hunlocked : Unlocked t := by
          unfold Unlocked
          rw [hqueue]
          exact hlocked₁
        have hexp : Expiring n cur_vpts t free' (a :: disp) :=
          ⟨hinv, ⟨_, hloop⟩, hunlocked, hdiscard, hmarks fun x => ⟨_, hframes x⟩⟩
        have hrounds' : (a :: disp).length + 2 ≤ rounds := by omega
        obtain ⟨s', hs', hdone⟩ := ih (cur_vpts - (s.frames img).vpts) hexp hrounds'
        have hfront : expiredFront cur_vpts t.frames (cur_vpts - (s.frames img).vpts) (a :: disp) =
            expiredFront cur_vpts s.frames (cur_vpts - (s.frames img).vpts) (a :: disp) :=
          expiredFront_congr (fun x => by rw [hframes x, hframes₁]) fun x => by
            rw [hframes x, hframes₁]
        rw [hfront] at hdone
        rw [ht, Option.bind_some]
        refine ⟨s', hs', hdone.cons ?_ (fun x => by rw [hframes x, hframes₁])
          (hbackup.trans hbackup₁)⟩
        rw [expiredFront_append]
        exact List.cons_ne_nil _ _
    · obtain ⟨rounds, rfl⟩ : ∃ r, rounds = r + 2 := ⟨rounds - 2, by omega⟩
      rw [expiredFront, if_neg htake]
      refine expireFrames_stop h fun x hx => ?_
      cases hx
      exact htake

theorem Expired.kept_unique {taken taken' kept kept' : List Frame} (h : Expired n s s' taken kept)
    (h' : Expired n s s' taken' kept') : kept = kept' := by
  obtain ⟨free, hinv⟩ := h.inv
  obtain ⟨free', hinv'⟩ := h'.inv
  exact hinv.disp_rep.chain.linked.unique hinv'.disp_rep.chain.linked

/-- `expire_frames` removes exactly the maximal prefix of frames that are over, releases each of them
once, and keeps the last one as the backup if the queue becomes empty, exactly if each frame of this
prefix enters the loop. -/
theorem expireFrames_iff (h : Expiring n cur_vpts s free disp) (hrounds : disp.length + 2 ≤ rounds) :
    (∃ s', expireFrames cur_vpts rounds startDiff s = some s' ∧
      Expired n s s' (disp.takeWhile (Over cur_vpts s.frames ·))
        (disp.dropWhile (Over cur_vpts s.frames ·))) ↔
      Entered cur_vpts s.frames startDiff disp := by
  rw [← expiredFront_eq_iff]
  obtain ⟨t, ht, hdone⟩ := expireFrames_expired startDiff h hrounds
  constructor
  · rintro ⟨s', hs', hprefix⟩
    obtain rfl : t = s' := Option.some.inj (ht.symm.trans hs')
    -- the same frames are left, and so the same ones have been taken
    have hkept := hdone.kept_unique hprefix
    have happend := (expiredFront_append cur_vpts s.frames startDiff disp).trans
      (List.takeWhile_append_dropWhile (p := (Over cur_vpts s.frames ·))).symm
    rw [hkept] at happend
    exact List.append_cancel_right happend
  · intro heq
    refine ⟨t, ht, ?_⟩
    have hdrop : disp.drop (disp.takeWhile (Over cur_vpts s.frames ·)).length =
        disp.dropWhile (Over cur_vpts s.frames ·) := by
      have hleft := @List.drop_left _ (disp.takeWhile (Over cur_vpts s.frames ·))
        (disp.dropWhile (Over cur_vpts s.frames ·))
      rwa [List.takeWhile_append_dropWhile] at hleft
    rw [heq, hdrop] at hdone
    exact hdone

end Expiry

/-- A decoder draws two frames, with the given durations, and the video loop looks at them at
5000000. -/
def drawnRun (duration₀ duration₁ : ℤ) : List Action :=
  [.fetch 0, .getFrame 0, .draw 0 0 duration₀ false, .drawAppend 0, .fetch 1, .getFrame 1,
    .draw 1 4999000 duration₁ false, .drawAppend 1, .loop (.top 5000000)]

/-- Of two frames of 3000 each, the first one is over, and goes. -/
theorem expireFrames_iff_drawn : ∃ s₀ s free, voNewPort 3 false = some s₀ ∧
    Runs.run step s₀ (drawnRun 3000 3000) = some s ∧ Expiring 3 5000000 s free [0, 1] ∧
      ∃ s', expireFrames 5000000 4 startDiff s = some s' ∧ Expired 3 s s' [0] [1] := by
  have hsome : ((voNewPort 3 false).bind fun s₀ => Runs.run step s₀ (drawnRun 3000 3000)).any
      (fun s => s.display_img_buf_queue.first == some 0 && s.next 0 == some 1 && s.next 1 == none &&
        (s.frames 0).is_first == false && (s.frames 1).is_first == false &&
        (s.frames 0).vpts == 0 && (s.frames 1).vpts == 4999000 && (s.frames 0).duration == 3000 &&
        (s.frames 1).duration == 3000 && s.discard_frames == 0 &&
        match s.loop with
        | .expire vpts diff => vpts == 5000000 && diff == 1000000
        | _ => false) := by
    decide
  obtain ⟨s, hs, hlast⟩ := (Option.any_eq_true _ _).1 hsome
  obtain ⟨s₀, hnew, hrun⟩ := Option.bind_eq_some_iff.1 hs
  simp only [Bool.and_eq_true, beq_iff_eq] at hlast
  obtain ⟨⟨⟨⟨⟨⟨⟨⟨⟨⟨hfirst, hnext₀⟩, hnext₁⟩, hmark₀⟩, hmark₁⟩, hvpts₀⟩, hvpts₁⟩, hduration₀⟩,
    hduration₁⟩, hdiscard⟩, hloop⟩ := hlast
  obtain ⟨s₁, hs₁, hinv, hnull⟩ := voNewPort_spec 3 false
  obtain rfl : s₁ = s₀ := Option.some.inj (hs₁.symm.trans hnew)
  obtain ⟨⟨free, disp, hinv⟩, -⟩ := Runs.guarded_invariant
    (fun t act t' h hok ht => kept_step h hok ht) ⟨⟨_, _, hinv⟩, hnull⟩
    (show Runs.Guarded step (fun t act => ¬Steals t act) s₁ (drawnRun 3000 3000) by
      simp [Runs.Guarded, Steals, drawnRun]) hrun
  -- the display queue is the list of the two frames
  have hlinked : Linked s.next s.display_img_buf_queue.first [0, 1] := by
    rw [hfirst]
    exact ⟨rfl, hnext₀.symm ▸ ⟨rfl, by rw [hnext₁]; exact linked_nil.2 rfl⟩⟩
  obtain rfl : disp = [0, 1] := hinv.disp_rep.chain.linked.unique hlinked
  have hat : ∃ diff, s.loop = .expire 5000000 diff := by
    cases hpc : s.loop with
    | expire vpts diff =>
      rw [hpc] at hloop
      simp only [Bool.and_eq_true, beq_iff_eq] at hloop
      exact ⟨diff, by rw [hloop.1]⟩
    | _ =>
      rw [hpc] at hloop
      exact absurd hloop Bool.false_ne_true
  have hexp : Expiring 3 5000000 s free [0, 1] := by
    refine ⟨hinv, hat, unlocked_run hnew hrun, hdiscard, fun img himg => ?_⟩
    simp only [List.mem_cons, List.not_mem_nil, or_false] at himg
    rcases himg with rfl | rfl
    · exact hmark₀
    · exact hmark₁
  have hover₀ : Over 5000000 s.frames 0 := by
    unfold Over
    rw [hvpts₀, hduration₀]
    decide
  have hover₁ : ¬Over 5000000 s.frames 1 := by
    unfold Over
    rw [hvpts₁, hduration₁]
    decide
  have hentered : Entered 5000000 s.frames startDiff [0, 1] :=
    fun _ => ⟨by rw [hduration₀]; decide, fun h => absurd h hover₁⟩
  obtain ⟨s', hs', hdone⟩ := (expireFrames_iff hexp (Nat.le_refl 4)).2 hentered
  rw [List.takeWhile_cons_of_pos (by exact decide_eq_true hover₀),
    List.takeWhile_cons_of_neg (by simpa using hover₁),
    List.dropWhile_cons_of_pos (by exact decide_eq_true hover₀),
    List.dropWhile_cons_of_neg (by simpa using hover₁)] at hdone
  exact ⟨s₁, s, free, hnew, hrun, hexp, s', hs', hdone⟩

/-- A frame with a duration of 2000000 is late by 5000000, and stays. -/
theorem expireFrames_keeps_late_frame : ∃ s₀ s s', voNewPort 3 false = some s₀ ∧
    Runs.run step s₀ (drawnRun 2000000 3000) = some s ∧ s.display_img_buf_queue.first = some 0 ∧
      s.discard_frames = 0 ∧ (s.frames 0).is_first = false ∧ Over 5000000 s.frames 0 ∧
      expireFrames 5000000 4 startDiff s = some s' ∧ s'.display_img_buf_queue.first = some 0 := by
  have hsome : ((voNewPort 3 false).bind fun s₀ => Runs.run step s₀ (drawnRun 2000000 3000)).any
      (fun s => s.display_img_buf_queue.first == some 0 && s.discard_frames == 0 &&
        (s.frames 0).is_first == false && decide (Over 5000000 s.frames 0) &&
        (expireFrames 5000000 4 startDiff s).any
          fun s' => s'.display_img_buf_queue.first == some 0) := by
    decide
  obtain ⟨s, hs, hlast⟩ := (Option.any_eq_true _ _).1 hsome
  obtain ⟨s₀, hnew, hrun⟩ := Option.bind_eq_some_iff.1 hs
  simp only [Bool.and_eq_true, beq_iff_eq, decide_eq_true_eq] at hlast
  obtain ⟨⟨⟨⟨hfirst, hdiscard⟩, hmark⟩, hover⟩, hexpire⟩ := hlast
  obtain ⟨s', hs', hkept⟩ := (Option.any_eq_true _ _).1 hexpire
  exact ⟨s₀, s, s', hnew, hrun, hfirst, hdiscard, hmark, hover, hs', beq_iff_eq.1 hkept⟩

end Xine.VideoOut
