import Xine.VideoOut.System

/-!
# What a step does to the frames

`Core` is what the steps of the port keep, for a given count `hold` of the references to each frame that are not
its place in the display queue: the queues are the lists `free` and `disp`, each `lock_counter` counts the
references, and each frame is free, on its way out of `vo_get_frame`, or referenced, but only one of these.
-/

namespace Xine.VideoOut

open Chain Places

/-- The frames `0, …, n - 1` are each in one place, and their counters count `hold` and the display
queue. -/
structure Core (n : ℕ) (next : Links) (free_queue disp_queue : ImgBufFifo)
    (frames : Frame → VoFrame) (fetched drawing queued : Frame → Bool) (hold : Frame → ℕ)
    (free disp : List Frame) : Prop where
  /-- The free queue is the list `free`. -/
  free_rep : QueueRep next free_queue free
  /-- The display queue is the list `disp`. -/
  disp_rep : QueueRep next disp_queue disp
  /-- Frames outside the queues have a null link, as the assertion says. -/
  next_null : ∀ e, e ∉ free → e ∉ disp → next e = none
  /-- The counters count the references. -/
  counter : ∀ e, (frames e).lock_counter = ((hold e + disp.count e : ℕ) : ℤ)
  /-- Each frame is free, fetched or referenced. -/
  place : ∀ e, free.count e + one (fetched e) + one (0 < hold e + disp.count e) = one (e < n)
  /-- A draw that is under way is marked. -/
  drawing_queued : ∀ e, drawing e → queued e
  /-- The frames of the display queue are marked. -/
  disp_queued : ∀ e ∈ disp, queued e
  /-- A frame is not drawn again while it is in the display queue. -/
  drawing_disp : ∀ e, drawing e → e ∉ disp

section Core

variable {n : ℕ} {s s' : State} {next : Links} {free_queue disp_queue : ImgBufFifo}
  {frames frames' : Frame → VoFrame} {fetched drawing queued : Frame → Bool} {hold hold' : Frame → ℕ}
  {free disp : List Frame} {e : Frame}

theorem Core.congr
    (h : Core n next free_queue disp_queue frames fetched drawing queued hold free disp)
    (hframes : ∀ x, (frames' x).lock_counter = (frames x).lock_counter)
    (hhold : ∀ x, hold' x = hold x) :
    Core n next free_queue disp_queue frames' fetched drawing queued hold' free disp := by
  obtain rfl : hold' = hold := funext hhold
  refine ⟨h.free_rep, h.disp_rep, h.next_null, fun x => ?_, h.place, h.drawing_queued,
    h.disp_queued, h.drawing_disp⟩
  rw [hframes x, h.counter x]

theorem Core.lock
    (h : Core n next free_queue disp_queue frames fetched drawing queued hold free disp)
    (locked_for_read : Bool) :
    Core n next { free_queue with locked_for_read } disp_queue frames fetched drawing queued hold free
      disp :=
  ⟨h.free_rep.lock _, h.disp_rep, h.next_null, h.counter, h.place, h.drawing_queued, h.disp_queued,
    h.drawing_disp⟩

theorem Core.of_pos
    (h : Core n next free_queue disp_queue frames fetched drawing queued hold free disp)
    (he : 0 < hold e + disp.count e) : e ∉ free ∧ fetched e = false ∧ e < n := by
  have hplace := h.place e
  have hle := one_le (e < n)
  rw [one_pos _ he] at hplace
  refine ⟨List.count_eq_zero.1 (by omega), ?_, one_eq_one.1 (by omega)⟩
  simpa using one_eq_zero.1 (show one (fetched e) = 0 by omega)

theorem Core.of_free
    (h : Core n next free_queue disp_queue frames fetched drawing queued hold free disp)
    (he : e ∈ free) : hold e = 0 ∧ disp.count e = 0 ∧ fetched e = false := by
  have hplace := h.place e
  have hle := one_le (e < n)
  have hpos := List.count_pos_iff.2 he
  have hzero := one_eq_zero.1 (show one (0 < hold e + disp.count e) = 0 by omega)
  refine ⟨by omega, by omega, ?_⟩
  simpa using one_eq_zero.1 (show one (fetched e) = 0 by omega)

theorem Core.incLock
    (h : Core n next free_queue disp_queue frames fetched drawing queued hold free disp)
    (he : 0 < hold e + disp.count e)
    (hframes : ∀ x, (frames' x).lock_counter = (frames x).lock_counter + one (x = e))
    (hhold : ∀ x, hold' x = hold x + one (x = e)) :
    Core n next free_queue disp_queue frames' fetched drawing queued hold' free disp := by
  refine ⟨h.free_rep, h.disp_rep, h.next_null, fun x => ?_, fun x => ?_, h.drawing_queued,
    h.disp_queued, h.drawing_disp⟩
  · rw [hframes x, h.counter x, hhold x]
    push_cast
    omega
  · rw [← h.place x]
    have hiff : 0 < hold' x + disp.count x ↔ 0 < hold x + disp.count x := by
      rw [hhold x]
      by_cases hx : x = e
      · subst hx
        omega
      · rw [one_neg _ hx]
        omega
    rw [one_congr hiff]

theorem Core.decLock
    (h : Core n s.next s.free_img_buf_queue s.display_img_buf_queue s.frames s.fetched s.drawing
      s.queued hold free disp)
    (hs : s.decLock e = some s') (hhold : ∀ x, hold' x + one (x = e) = hold x) :
    ∃ next' queue' frames' free',
      s' = { s with next := next', free_img_buf_queue := queue', frames := frames' } ∧
        Core n next' queue' s.display_img_buf_queue frames' s.fetched s.drawing s.queued hold' free'
          disp := by
  have hpos : 0 < hold e := by
    have := hhold e
    rw [one_pos _ rfl] at this
    omega
  obtain ⟨hfree, hfetched, hn⟩ := h.of_pos (e := e) (by omega)
  -- The counter after the decrement.
  have hcounter : ∀ x, (Function.update s.frames e
      { s.frames e with lock_counter := (s.frames e).lock_counter - 1 } x).lock_counter =
        ((hold' x + disp.count x : ℕ) : ℤ) := by
    intro x
    have hx := hhold x
    have hc := h.counter x
    by_cases hxe : x = e
    · subst hxe
      rw [one_pos _ rfl] at hx
      rw [Function.update_self]
      simp only [hc]
      omega
    · rw [one_neg _ hxe] at hx
      rw [Function.update_of_ne hxe, hc]
      omega
  -- Other frames are where they were.
  have hother : ∀ x, x ≠ e → hold' x = hold x := fun x hx => by
    have := hhold x
    rw [one_neg _ hx] at this
    omega
  have hlast : hold' e + 1 = hold e := by
    have := hhold e
    rwa [one_pos _ rfl] at this
  unfold State.decLock at hs
  simp only [State.setFrame] at hs
  have hc := h.counter e
  by_cases hzero : (s.frames e).lock_counter - 1 = 0
  · -- the last reference
    rw [if_pos hzero, Option.map_eq_some_iff] at hs
    obtain ⟨⟨next', queue'⟩, happ, rfl⟩ := hs
    have hdisp : e ∉ disp := List.count_eq_zero.1 (by omega)
    obtain ⟨next'', queue'', happ', hrep, hsame⟩ := voAppend_spec h.free_rep hfree
      (h.next_null e hfree hdisp)
    obtain ⟨rfl, rfl⟩ := Prod.mk.inj (Option.some.inj (happ'.symm.trans happ))
    refine ⟨next'', queue'', _, free ++ [e], rfl, hrep, ?_, fun x hx hx' => ?_, hcounter, fun x => ?_,
      h.drawing_queued, h.disp_queued, h.drawing_disp⟩
    · refine h.disp_rep.congr fun a ha => hsame a fun haf => ?_
      have hcount := List.count_pos_iff.2 ha
      have := (h.of_free haf).2.1
      omega
    · have hxf : x ∉ free := fun hxf => hx (List.mem_append_left _ hxf)
      rw [hsame x hxf]
      exact h.next_null x hxf hx'
    · have hplace := h.place x
      rw [count_append_one]
      by_cases hxe : x = e
      · subst hxe
        rw [one_pos (0 < hold x + disp.count x) (by omega)] at hplace
        rw [one_pos (x = x) rfl, one_neg (0 < hold' x + disp.count x) (by omega)]
        omega
      · rw [hother x hxe, one_neg _ hxe]
        exact hplace
  · -- other references are left
    rw [if_neg hzero, Option.some.injEq] at hs
    subst hs
    refine ⟨s.next, s.free_img_buf_queue, _, free, rfl, h.free_rep, h.disp_rep, h.next_null, hcounter,
      fun x => ?_, h.drawing_queued, h.disp_queued, h.drawing_disp⟩
    rw [← h.place x]
    by_cases hxe : x = e
    · subst hxe
      have hiff : 0 < hold' x + disp.count x ↔ 0 < hold x + disp.count x := by omega
      rw [one_congr hiff]
    · rw [hother x hxe]

theorem Core.decLock_isSome
    (h : Core n s.next s.free_img_buf_queue s.display_img_buf_queue s.frames s.fetched s.drawing
      s.queued hold free disp) (he : 0 < hold e) : (s.decLock e).isSome := by
  obtain ⟨hfree, -, -⟩ := h.of_pos (e := e) (by omega)
  have hc := h.counter e
  unfold State.decLock
  simp only [State.setFrame]
  by_cases hzero : (s.frames e).lock_counter - 1 = 0
  · have hdisp : e ∉ disp := List.count_eq_zero.1 (by omega)
    obtain ⟨next', queue', happ, -⟩ := voAppend_spec h.free_rep hfree (h.next_null e hfree hdisp)
    rw [if_pos hzero, happ]
    rfl
  · rw [if_neg hzero]
    rfl

theorem Core.removeDisplay
    (h : Core n s.next s.free_img_buf_queue s.display_img_buf_queue s.frames s.fetched s.drawing
      s.queued hold free disp)
    (hs : s.removeDisplay = some (s', e)) (hhold : ∀ x, hold' x = hold x + one (x = e)) :
    ∃ next' queue' disp',
      s' = { s with
        next := next', display_img_buf_queue := queue', queued := Function.update s.queued e false } ∧
        disp = e :: disp' ∧
        Core n next' s.free_img_buf_queue queue' s.frames s.fetched s.drawing
          (Function.update s.queued e false) hold' free disp' := by
  simp only [State.removeDisplay, Option.map_eq_some_iff, Prod.mk.injEq] at hs
  obtain ⟨⟨next', queue', img⟩, hrem, rfl, rfl⟩ := hs
  obtain ⟨disp', hdisp, hrep, rfl⟩ := voRemove_spec h.disp_rep hrem
  change disp = img :: disp' at hdisp
  change ∀ x, hold' x = hold x + one (x = img) at hhold
  subst hdisp
  have hnodup : img ∉ disp' := (List.nodup_cons.1 h.disp_rep.chain.linked.nodup).1
  have hfree : img ∉ free := fun hfree => by
    have := (h.of_free hfree).2.1
    simp at this
  have hdrawing : ¬ s.drawing img := fun hdrawing => h.drawing_disp img hdrawing (by simp)
  refine ⟨Function.update s.next img none, queue', disp', rfl, rfl,
    h.free_rep.congr fun a ha => ?_, hrep, fun x hx hx' => ?_,
    fun x => ?_, fun x => ?_, fun x hx => ?_, fun x hx => ?_, fun x hx hx' => ?_⟩
  · exact Function.update_of_ne (ne_of_mem_of_not_mem ha hfree) _ _
  · by_cases hxe : x = img
    · rw [hxe, Function.update_self]
    · rw [Function.update_of_ne hxe]
      exact h.next_null x hx (by simp [hxe, hx'])
  · have hc := h.counter x
    rw [count_cons_one] at hc
    rw [hc, hhold x]
    omega
  · have hplace := h.place x
    rw [count_cons_one] at hplace
    have hsum : hold' x + disp'.count x = hold x + (disp'.count x + one (x = img)) := by
      rw [hhold x]
      omega
    rw [hsum]
    exact hplace
  · have hxe : x ≠ img := fun hxe => hdrawing (hxe ▸ hx)
    rw [Function.update_of_ne hxe]
    exact h.drawing_queued x hx
  · rw [Function.update_of_ne (ne_of_mem_of_not_mem hx hnodup)]
    exact h.disp_queued x (List.mem_cons_of_mem _ hx)
  · exact h.drawing_disp x hx (List.mem_cons_of_mem _ hx')

theorem Core.duplicateFrame {img : Frame}
    (h : Core n s.next s.free_img_buf_queue s.display_img_buf_queue s.frames s.fetched s.drawing
      s.queued hold free disp)
    (hs : s.duplicateFrame img = some (s', e)) (hhold : ∀ x, hold' x = hold x + one (x = e)) :
    ∃ next' queue' frames' free',
      s' = { s with next := next', free_img_buf_queue := queue', frames := frames' } ∧
        Core n next' queue' s.display_img_buf_queue frames' s.fetched s.drawing s.queued hold' free'
          disp := by
  simp only [State.duplicateFrame, Option.map_eq_some_iff, Prod.mk.injEq] at hs
  obtain ⟨dupl, hfirst, rfl, rfl⟩ := hs
  obtain ⟨free', hfree', hrep⟩ := unlinkFirst_spec h.free_rep hfirst
  have hmem : dupl ∈ free := by rw [hfree']; simp
  obtain ⟨hzero, hcount, hfetched⟩ := h.of_free hmem
  have hdisp : dupl ∉ disp := List.count_eq_zero.1 hcount
  refine ⟨Function.update s.next dupl none, (unlinkFirst s.next s.free_img_buf_queue dupl).2,
    Function.update s.frames dupl { s.frames dupl with
      lock_counter := 1, bad_frame := false, vpts := 0, duration := (s.frames img).duration },
    free', rfl, hrep, h.disp_rep.congr fun a ha => ?_, fun x hx hx' => ?_,
    fun x => ?_, fun x => ?_, h.drawing_queued, h.disp_queued, h.drawing_disp⟩
  · exact Function.update_of_ne (ne_of_mem_of_not_mem ha hdisp) _ _
  · by_cases hxe : x = dupl
    · rw [hxe, Function.update_self]
    · rw [Function.update_of_ne hxe]
      exact h.next_null x (by simp [hfree', hxe, hx]) hx'
  · rw [hhold x]
    by_cases hxe : x = dupl
    · subst hxe
      rw [Function.update_self, one_pos _ rfl, hzero, hcount]
      rfl
    · rw [Function.update_of_ne hxe, one_neg _ hxe]
      exact h.counter x
  · have hplace := h.place x
    rw [hfree', count_cons_one] at hplace
    rw [hhold x]
    by_cases hxe : x = dupl
    · subst hxe
      rw [one_pos (x = x) rfl, one_neg (0 < hold x + disp.count x) (by omega)] at hplace
      rw [one_pos (x = x) rfl, one_pos (0 < hold x + 1 + disp.count x) (by omega)]
      omega
    · rw [one_neg _ hxe] at hplace
      rw [one_neg _ hxe]
      exact hplace

theorem Core.fetch {next' : Links} {queue' : ImgBufFifo}
    (h : Core n next free_queue disp_queue frames fetched drawing queued hold free disp)
    (hrem : voRemoveFromImgBufQueue next free_queue = some (next', queue', e)) :
    ∃ free', Core n next' queue' disp_queue frames (Function.update fetched e true) drawing queued hold
      free' disp := by
  obtain ⟨free', rfl, hrep, rfl⟩ := voRemove_spec h.free_rep hrem
  obtain ⟨hzero, hcount, hfetched⟩ := h.of_free (e := e) (by simp)
  have hdisp : e ∉ disp := List.count_eq_zero.1 hcount
  refine ⟨free', hrep, h.disp_rep.congr fun a ha => ?_, fun x hx hx' => ?_, h.counter, fun x => ?_,
    h.drawing_queued, h.disp_queued, h.drawing_disp⟩
  · rw [Function.update_of_ne (ne_of_mem_of_not_mem ha hdisp)]
  · by_cases hxe : x = e
    · rw [hxe, Function.update_self]
    · rw [Function.update_of_ne hxe]
      exact h.next_null x (by simp [hxe, hx]) hx'
  · have hplace := h.place x
    rw [count_cons_one] at hplace
    by_cases hxe : x = e
    · subst hxe
      rw [hfetched, one_neg (false = true) (by simp), one_pos (x = x) rfl] at hplace
      rw [Function.update_self, one_pos (true = true) rfl]
      omega
    · rw [one_neg _ hxe] at hplace
      rw [Function.update_of_ne hxe]
      exact hplace

theorem Core.getFrame
    (h : Core n next free_queue disp_queue frames fetched drawing queued hold free disp)
    (he : fetched e)
    (hframes : ∀ x, (frames' x).lock_counter = if x = e then 1 else (frames x).lock_counter)
    (hhold : ∀ x, hold' x = hold x + one (x = e)) :
    Core n next free_queue disp_queue frames' (Function.update fetched e false) drawing queued hold'
      free disp := by
  have hplace := h.place e
  have hle := one_le (e < n)
  rw [one_pos _ he] at hplace
  have hzero := one_eq_zero.1 (show one (0 < hold e + disp.count e) = 0 by omega)
  refine ⟨h.free_rep, h.disp_rep, h.next_null, fun x => ?_, fun x => ?_, h.drawing_queued,
    h.disp_queued, h.drawing_disp⟩
  · rw [hframes x, hhold x]
    by_cases hxe : x = e
    · subst hxe
      rw [if_pos rfl, one_pos _ rfl]
      omega
    · rw [if_neg hxe, one_neg _ hxe]
      exact h.counter x
  · rw [hhold x]
    by_cases hxe : x = e
    · subst hxe
      rw [Function.update_self, one_neg (false = true) (by simp), one_pos (x = x) rfl,
        one_pos (0 < hold x + 1 + disp.count x) (by omega)]
      omega
    · rw [Function.update_of_ne hxe, one_neg _ hxe]
      exact h.place x

theorem Core.mark
    (h : Core n next free_queue disp_queue frames fetched drawing queued hold free disp)
    (he : e ∉ disp) :
    Core n next free_queue disp_queue frames fetched (Function.update drawing e true)
      (Function.update queued e true) hold free disp := by
  refine ⟨h.free_rep, h.disp_rep, h.next_null, h.counter, h.place, fun x hx => ?_, fun x hx => ?_,
    fun x hx hx' => ?_⟩
  · by_cases hxe : x = e
    · rw [hxe, Function.update_self]
    · rw [Function.update_of_ne hxe] at hx ⊢
      exact h.drawing_queued x hx
  · rw [Function.update_of_ne (ne_of_mem_of_not_mem hx he)]
    exact h.disp_queued x hx
  · rw [Function.update_of_ne (ne_of_mem_of_not_mem hx' he)] at hx
    exact h.drawing_disp x hx hx'

theorem Core.append {next' : Links} {queue' : ImgBufFifo}
    (h : Core n next free_queue disp_queue frames fetched drawing queued hold free disp)
    (he : drawing e) (happ : voAppendToImgBufQueue next disp_queue e = some (next', queue'))
    (hhold : ∀ x, hold' x + one (x = e) = hold x) :
    Core n next' free_queue queue' frames fetched (Function.update drawing e false) queued hold' free
      (disp ++ [e]) := by
  have hdisp := h.drawing_disp e he
  have hpos : 0 < hold e := by
    have := hhold e
    rw [one_pos _ rfl] at this
    omega
  obtain ⟨hfree, -, -⟩ := h.of_pos (e := e) (by omega)
  obtain ⟨next'', queue'', happ', hrep, hsame⟩ := voAppend_spec h.disp_rep hdisp
    (h.next_null e hfree hdisp)
  obtain ⟨rfl, rfl⟩ := Prod.mk.inj (Option.some.inj (happ'.symm.trans happ))
  have hsum : ∀ x, hold' x + (disp ++ [e]).count x = hold x + disp.count x := fun x => by
    rw [count_append_one, ← hhold x]
    omega
  refine ⟨h.free_rep.congr fun a ha => hsame a fun had => ?_, hrep, fun x hx hx' => ?_, fun x => ?_,
    fun x => ?_, fun x hx => ?_, fun x hx => ?_, fun x hx hx' => ?_⟩
  · have hcount := List.count_pos_iff.2 had
    have := (h.of_free ha).2.1
    omega
  · have hxd : x ∉ disp := fun hxd => hx' (List.mem_append_left _ hxd)
    rw [hsame x hxd]
    exact h.next_null x hx hxd
  · rw [h.counter x, hsum x]
  · rw [hsum x]
    exact h.place x
  · by_cases hxe : x = e
    · simp [hxe] at hx
    · rw [Function.update_of_ne hxe] at hx
      exact h.drawing_queued x hx
  · rcases List.mem_append.1 hx with hx | hx
    · exact h.disp_queued x hx
    · obtain rfl := List.mem_singleton.1 hx
      exact h.drawing_queued x he
  · by_cases hxe : x = e
    · simp [hxe] at hx
    · rw [Function.update_of_ne hxe] at hx
      exact h.drawing_disp x hx (by simpa [hxe] using hx')

end Core

end Xine.VideoOut
