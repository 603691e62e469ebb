import Xine.AudioOut.System
import Xine.Library.Runs

/-!
# Conservation of audio buffers

`Rep` says where the buffers are: in the lists that the two fifos represent, in the output thread's `in_buf`, or
in a thread's hands, each in exactly one of these. `Inv` adds where the program counters keep a buffer, and the
account of the out fifo: what was put into it has been played, has come back unplayed, or is still to come, once
each.
-/

namespace Xine.AudioOut

open Chain Places

variable {τ : Type*} [DecidableEq τ]

/-! ## Places -/

/-- The buffers `0, …, n - 1` are each in exactly one place: the fifos, which represent `free` and
`out`, `in_buf` or the hands of a thread. -/
structure Rep (n : ℕ) (next : Links) (free_fifo out_fifo : AudioFifo) (in_buf : Option Buf)
    (holder : Buf → Option τ) (free out : List Buf) : Prop where
  /-- The free fifo is the list `free`. -/
  free_rep : FifoRep next free_fifo free
  /-- The out fifo is the list `out`. -/
  out_rep : FifoRep next out_fifo out
  /-- Buffers outside the fifos have a null link, as `fifo_append` asserts. -/
  next_null : ∀ e, e ∉ free → e ∉ out → next e = none
  /-- One place for each buffer. -/
  places_eq : ∀ e, free.count e + out.count e + one (in_buf = some e) + one (holder e ≠ none) =
    one (e < n)

section Rep

variable {n : ℕ} {next next' : Links} {free_fifo out_fifo fifo' : AudioFifo} {in_buf : Option Buf}
  {holder : Buf → Option τ} {free out : List Buf} {e : Buf} {t : τ}

omit [DecidableEq τ] in
theorem Rep.not_mem (h : Rep n next free_fifo out_fifo in_buf holder free out)
    (he : in_buf = some e ∨ holder e ≠ none) : e ∉ free ∧ e ∉ out ∧ next e = none := by
  have hone := h.places_eq e
  have hcount : free.count e = 0 ∧ out.count e = 0 := by
    unfold one at hone
    rcases he with he | he
    · rw [if_pos he] at hone
      split_ifs at hone <;> omega
    · rw [if_pos he] at hone
      split_ifs at hone <;> omega
  have hfree : e ∉ free := List.count_eq_zero.1 hcount.1
  have hout : e ∉ out := List.count_eq_zero.1 hcount.2
  exact ⟨hfree, hout, h.next_null e hfree hout⟩

omit [DecidableEq τ] in
theorem Rep.disjoint (h : Rep n next free_fifo out_fifo in_buf holder free out) (he : e ∈ free) :
    e ∉ out := by
  have hone := h.places_eq e
  have hpos := List.count_pos_iff.2 he
  refine List.count_eq_zero.1 ?_
  unfold one at hone
  split_ifs at hone <;> omega

omit [DecidableEq τ] in
theorem Rep.symm (h : Rep n next free_fifo out_fifo in_buf holder free out) :
    Rep n next out_fifo free_fifo in_buf holder out free := by
  refine ⟨h.out_rep, h.free_rep, fun e he he' => h.next_null e he' he, fun e => ?_⟩
  rw [← h.places_eq e]
  omega

omit [DecidableEq τ] in
theorem Rep.remove (h : Rep n next free_fifo out_fifo in_buf holder free out)
    (hrem : fifoRemove next free_fifo = some (next', fifo', e)) :
    ∃ free', free = e :: free' ∧ holder e = none ∧
      Rep n next' fifo' out_fifo in_buf (Function.update holder e (some t)) free' out := by
  obtain ⟨free', rfl, hrep, rfl⟩ := fifoRemove_spec h.free_rep hrem
  have hout : e ∉ out := h.disjoint (by simp)
  have hholder : holder e = none := by
    by_contra hne
    exact (h.not_mem (.inr hne)).1 (by simp)
  refine ⟨free', rfl, hholder, hrep, h.out_rep.congr fun a ha => ?_, fun a ha ha' => ?_,
    fun a => ?_⟩
  · exact Function.update_of_ne (ne_of_mem_of_not_mem ha hout) _ _
  · by_cases hae : a = e
    · rw [hae, Function.update_self]
    · rw [Function.update_of_ne hae]
      exact h.next_null a (by simp [hae, ha]) ha'
  · have hone := h.places_eq a
    rw [count_cons_one] at hone
    rw [one_update]
    by_cases hae : a = e
    · subst hae
      simp only [hholder, one, ne_eq, not_true_eq_false, if_true, if_false, reduceCtorEq,
        not_false_eq_true] at hone ⊢
      omega
    · simpa [one, hae] using hone

omit [DecidableEq τ] in
theorem Rep.append (h : Rep n next free_fifo out_fifo in_buf holder free out)
    (he : holder e = some t) (happ : fifoAppend next free_fifo e = some (next', fifo')) :
    Rep n next' fifo' out_fifo in_buf (Function.update holder e none) (free ++ [e]) out := by
  obtain ⟨hfree, hout, hnull⟩ := h.not_mem (e := e) (.inr (by simp [he]))
  obtain ⟨next'', fifo'', happ', hrep, hsame⟩ := fifoAppend_spec h.free_rep hfree hnull
  obtain ⟨rfl, rfl⟩ := Prod.mk.inj (Option.some.inj (happ'.symm.trans happ))
  refine ⟨hrep, h.out_rep.congr fun a ha => hsame a fun haf => h.disjoint haf ha, fun a ha ha' => ?_,
    fun a => ?_⟩
  · have haf : a ∉ free := fun haf => ha (List.mem_append_left _ haf)
    rw [hsame a haf]
    exact h.next_null a haf ha'
  · have hone := h.places_eq a
    rw [one_update, count_append_one]
    by_cases hae : a = e
    · subst hae
      simp only [he, one, ne_eq, reduceCtorEq, not_false_eq_true, if_true, not_true_eq_false,
        if_false] at hone ⊢
      omega
    · simpa [one, hae] using hone

omit [DecidableEq τ] in
theorem Rep.fetch (h : Rep n next free_fifo out_fifo none holder free out)
    (hrem : fifoRemove next out_fifo = some (next', fifo', e)) :
    ∃ out', out = e :: out' ∧ Rep n next' free_fifo fifo' (some e) holder free out' := by
  obtain ⟨out', rfl, hrep, rfl⟩ := fifoRemove_spec h.out_rep hrem
  have hfree : e ∉ free := fun hfree => h.disjoint hfree (by simp)
  refine ⟨out', rfl, h.free_rep.congr fun a ha => ?_, hrep, fun a ha ha' => ?_, fun a => ?_⟩
  · exact Function.update_of_ne (ne_of_mem_of_not_mem ha hfree) _ _
  · by_cases hae : a = e
    · rw [hae, Function.update_self]
    · rw [Function.update_of_ne hae]
      exact h.next_null a ha (by simp [hae, ha'])
  · have hone := h.places_eq a
    rw [count_cons_one] at hone
    simp only [one, reduceCtorEq, if_false, Option.some.injEq, eq_comm] at hone ⊢
    omega

omit [DecidableEq τ] in
theorem Rep.loopReturn (h : Rep n next free_fifo out_fifo (some e) holder free out)
    (happ : fifoAppend next free_fifo e = some (next', fifo')) :
    Rep n next' fifo' out_fifo none holder (free ++ [e]) out := by
  obtain ⟨hfree, hout, hnull⟩ := h.not_mem (.inl rfl)
  obtain ⟨next'', fifo'', happ', hrep, hsame⟩ := fifoAppend_spec h.free_rep hfree hnull
  obtain ⟨rfl, rfl⟩ := Prod.mk.inj (Option.some.inj (happ'.symm.trans happ))
  refine ⟨hrep, h.out_rep.congr fun a ha => hsame a fun haf => h.disjoint haf ha, fun a ha ha' => ?_,
    fun a => ?_⟩
  · have haf : a ∉ free := fun haf => ha (List.mem_append_left _ haf)
    rw [hsame a haf]
    exact h.next_null a haf ha'
  · have hone := h.places_eq a
    rw [count_append_one]
    simp only [one, reduceCtorEq, if_false, Option.some.injEq, eq_comm] at hone ⊢
    omega

omit [DecidableEq τ] in
theorem Rep.append_isSome (h : Rep n next free_fifo out_fifo in_buf holder free out)
    (he : in_buf = some e ∨ holder e ≠ none) :
    (fifoAppend next free_fifo e).isSome ∧ (fifoAppend next out_fifo e).isSome := by
  obtain ⟨hfree, hout, hnull⟩ := h.not_mem he
  obtain ⟨next', fifo', happ, -⟩ := fifoAppend_spec h.free_rep hfree hnull
  obtain ⟨next'', fifo'', happ', -⟩ := fifoAppend_spec h.out_rep hout hnull
  exact ⟨by rw [happ]; rfl, by rw [happ']; rfl⟩

end Rep

/-! ## The invariant -/

/-- Whether the output thread has the buffer and has not played it. -/
def State.unplayed (s : State τ) (e : Buf) : ℕ := one (s.in_buf = some e ∧ s.loop ≠ .written)

/-- The invariant of the port, whose fifos represent `free` and `out`. -/
structure Inv (n : ℕ) (s : State τ) (free out : List Buf) : Prop where
  /-- Each buffer is in one place. -/
  rep : Rep n s.next s.free_fifo s.out_fifo s.in_buf s.holder free out
  /-- What a thread is about to put somewhere is in its hands. -/
  inFlight : ∀ t e, (s.pc t).inFlight = some e → s.holder e = some t
  /-- The output thread has a buffer wherever it uses one. -/
  in_buf_ne_none : s.loop ≠ .top → s.loop ≠ .fetch → s.loop ≠ .ended → s.in_buf ≠ none
  /-- It ends without a buffer. -/
  in_buf_ended : s.loop = .ended → s.in_buf = none
  /-- What was put into the out fifo was played, came back, or is still to come. -/
  account : ∀ e, s.queued e = s.played e + s.returned e + out.count e + s.unplayed e

section Inv

variable {n : ℕ} {s s' : State τ} {free out : List Buf} {e : Buf} {t : τ}

omit [DecidableEq τ] in
theorem unplayed_eq (h : s.loop ≠ .written) (e : Buf) : s.unplayed e = one (s.in_buf = some e) := by
  unfold State.unplayed one
  simp [h]

omit [DecidableEq τ] in
theorem Inv.goto_loop (h : Inv n s free out) (pc : LoopPc) (hold : s.loop ≠ .written)
    (hnew : pc ≠ .written) (hin : pc ≠ .top → pc ≠ .fetch → pc ≠ .ended → s.in_buf ≠ none)
    (hend : pc = .ended → s.in_buf = none) : Inv n { s with loop := pc } free out := by
  refine ⟨h.rep, h.inFlight, hin, hend, fun e => ?_⟩
  have haccount := h.account e
  rw [unplayed_eq hold] at haccount
  rw [unplayed_eq hnew]
  exact haccount

omit [DecidableEq τ] in
theorem Inv.loopDrop (h : Inv n s free out) (hw : s.loop ≠ .written)
    (hs : s.loopDrop = some s') :
    (∃ free', Inv n s' free' out) ∧ s'.in_buf = none ∧ s'.loop = .top := by
  unfold State.loopDrop State.loopReturn State.appendFree at hs
  cases hin : s.in_buf with
  | none => simp [hin] at hs
  | some buf =>
    simp only [hin, Option.bind_some, Option.map_map, Option.map_eq_some_iff, Function.comp] at hs
    obtain ⟨⟨next', fifo'⟩, happ, rfl⟩ := hs
    have hrep := h.rep
    rw [hin] at hrep
    refine ⟨⟨free ++ [buf], hrep.loopReturn happ, h.inFlight, ?_, fun _ => rfl, fun e => ?_⟩, rfl,
      rfl⟩
    · exact fun htop => absurd rfl htop
    · have haccount := h.account e
      rw [unplayed_eq hw, hin] at haccount
      rw [unplayed_eq (by simp)]
      simp only [incr_apply, one, Option.some.injEq, eq_comm, reduceCtorEq, if_false] at haccount ⊢
      omega

omit [DecidableEq τ] in
theorem Inv.loopReturn (h : Inv n s free out) (hw : s.loop = .written)
    (hs : s.loopReturn = some s') : ∃ free', Inv n s' free' out := by
  unfold State.loopReturn State.appendFree at hs
  cases hin : s.in_buf with
  | none => simp [hin] at hs
  | some buf =>
    simp only [hin, Option.bind_some, Option.map_map, Option.map_eq_some_iff, Function.comp] at hs
    obtain ⟨⟨next', fifo'⟩, happ, rfl⟩ := hs
    have hrep := h.rep
    rw [hin] at hrep
    refine ⟨free ++ [buf], hrep.loopReturn happ, h.inFlight, ?_, fun _ => rfl, fun e => ?_⟩
    · exact fun htop => absurd rfl htop
    · have haccount := h.account e
      simp only [State.unplayed, hw, one, not_true_eq_false, and_false, if_false, ne_eq]
        at haccount
      rw [unplayed_eq (by simp)]
      simpa [one] using haccount

omit [DecidableEq τ] in
theorem inv_loopStep {act : LoopAction} (h : Inv n s free out) (hs : loopStep s act = some s') :
    ∃ free' out', Inv n s' free' out' := by
  cases act with
  | top =>
    simp only [loopStep, Option.ite_none_right_eq_some] at hs
    obtain ⟨hpc, hs⟩ := hs
    have hw : s.loop ≠ .written := by simp [hpc]
    by_cases hc : s.audio_loop_running ∨ s.out_fifo.first ≠ none
    · rw [if_pos hc, Option.some.injEq] at hs
      subst hs
      exact ⟨free, out, h.goto_loop .fetch hw (by simp) (by simp) (by simp)⟩
    · rw [if_neg hc] at hs
      cases hin : s.in_buf with
      | none =>
        simp only [hin, Option.some.injEq] at hs
        subst hs
        have h' := h.goto_loop .ended hw (by simp) (by simp) fun _ => hin
        rw [hin] at h'
        exact ⟨free, out, h'⟩
      | some buf =>
        simp only [hin, Option.map_eq_some_iff] at hs
        obtain ⟨r, hr, rfl⟩ := hs
        obtain ⟨⟨free', h'⟩, hnone, htop⟩ := h.loopDrop hw hr
        exact ⟨free', out, h'.goto_loop .ended (by simp [htop]) (by simp) (by simp) fun _ => hnone⟩
  | fetch =>
    simp only [loopStep, Option.ite_none_right_eq_some] at hs
    obtain ⟨hpc, hs⟩ := hs
    have hw : s.loop ≠ .written := by simp [hpc]
    cases hin : s.in_buf with
    | some buf =>
      simp only [hin, Option.some.injEq] at hs
      subst hs
      have h' := h.goto_loop .flush hw (by simp) (by simp [hin]) (by simp)
      rw [hin] at h'
      exact ⟨free, out, h'⟩
    | none =>
      simp only [hin, State.removeOut, Option.map_map, Option.map_eq_some_iff,
        Function.comp] at hs
      obtain ⟨⟨next', fifo', buf⟩, hrem, rfl⟩ := hs
      have hrep := h.rep
      rw [hin] at hrep
      obtain ⟨out', rfl, hrep'⟩ := hrep.fetch hrem
      refine ⟨free, out', hrep', h.inFlight, by simp, by simp, fun e => ?_⟩
      have haccount := h.account e
      rw [unplayed_eq hw, hin] at haccount
      rw [unplayed_eq (by simp)]
      simp only [one, List.count_cons, beq_iff_eq, Option.some.injEq, reduceCtorEq, if_false]
        at haccount ⊢
      omega
  | flush =>
    simp only [loopStep, Option.ite_none_right_eq_some] at hs
    obtain ⟨hpc, hs⟩ := hs
    have hw : s.loop ≠ .written := by simp [hpc]
    have hin := h.in_buf_ne_none (by simp [hpc]) (by simp [hpc]) (by simp [hpc])
    have h' := h.goto_loop .discard hw (by simp) (fun _ _ _ => hin) (by simp)
    split_ifs at hs
    · cases hs
      exact ⟨free, out, h'.rep, h'.inFlight, h'.in_buf_ne_none, h'.in_buf_ended, h'.account⟩
    · cases hs
      exact ⟨free, out, h'⟩
  | discard =>
    simp only [loopStep, Option.ite_none_right_eq_some] at hs
    obtain ⟨hpc, hs⟩ := hs
    have hw : s.loop ≠ .written := by simp [hpc]
    have hin := h.in_buf_ne_none (by simp [hpc]) (by simp [hpc]) (by simp [hpc])
    split_ifs at hs
    · obtain ⟨⟨free', h'⟩, -⟩ := h.loopDrop hw hs
      exact ⟨free', out, h'⟩
    · cases hs
      exact ⟨free, out, h.goto_loop .pause hw (by simp) (fun _ _ _ => hin) (by simp)⟩
  | pause =>
    simp only [loopStep, Option.ite_none_right_eq_some] at hs
    obtain ⟨hpc, hs⟩ := hs
    have hw : s.loop ≠ .written := by simp [hpc]
    have hin := h.in_buf_ne_none (by simp [hpc]) (by simp [hpc]) (by simp [hpc])
    split_ifs at hs
    · cases hs
      exact ⟨free, out, h.goto_loop .paused hw (by simp) (fun _ _ _ => hin) (by simp)⟩
    · cases hs
      exact ⟨free, out, h.goto_loop .settings hw (by simp) (fun _ _ _ => hin) (by simp)⟩
  | paused cur_time =>
    simp only [loopStep, Option.ite_none_right_eq_some, Option.bind_eq_some_iff] at hs
    obtain ⟨hpc, buf, -, hs⟩ := hs
    have hw : s.loop ≠ .written := by simp [hpc]
    split_ifs at hs
    · obtain ⟨⟨free', h'⟩, -⟩ := h.loopDrop hw hs
      exact ⟨free', out, h'⟩
    · cases hs
      exact ⟨free, out, h.goto_loop .top hw (by simp) (by simp) (by simp)⟩
  | settings opened =>
    simp only [loopStep, Option.ite_none_right_eq_some, Option.bind_eq_some_iff] at hs
    obtain ⟨hpc, buf, hin, hs⟩ := hs
    have hw : s.loop ≠ .written := by simp [hpc]
    have h' := h.goto_loop .sync hw (by simp) (by simp [hin]) (by simp)
    split_ifs at hs
    · cases hs
      unfold State.changeSettings
      split_ifs
      · exact ⟨free, out, h'.rep, h'.inFlight, h'.in_buf_ne_none, h'.in_buf_ended, h'.account⟩
      · exact ⟨free, out, h'.rep, h'.inFlight, h'.in_buf_ne_none, h'.in_buf_ended, h'.account⟩
    · cases hs
      exact ⟨free, out, h'⟩
  | sync cur_time hw_vpts =>
    simp only [loopStep, Option.ite_none_right_eq_some, Option.bind_eq_some_iff] at hs
    obtain ⟨hpc, buf, hin, hs⟩ := hs
    have hw : s.loop ≠ .written := by simp [hpc]
    have htop := h.goto_loop .top hw (by simp) (by simp) (by simp)
    split_ifs at hs
    · -- too late, or empty
      obtain ⟨⟨free', h'⟩, -⟩ := h.loopDrop hw hs
      exact ⟨free', out, h'⟩
    · -- a gap for the metronoms, of which there are none
      cases hs
      exact ⟨free, out, htop⟩
    · cases hs
      exact ⟨free, out, htop.rep, htop.inFlight, htop.in_buf_ne_none, htop.in_buf_ended,
        htop.account⟩
    · -- a gap for silence
      cases hs
      exact ⟨free, out, htop⟩
    · cases hs
      exact ⟨free, out, h.goto_loop .write hw (by simp) (by simp [hin]) (by simp)⟩
  | write =>
    simp only [loopStep, Option.ite_none_right_eq_some, Option.map_eq_some_iff] at hs
    obtain ⟨hpc, buf, hin, rfl⟩ := hs
    refine ⟨free, out, h.rep, h.inFlight, by simp [hin], by simp, fun e => ?_⟩
    have haccount := h.account e
    rw [unplayed_eq (by simp [hpc]), hin] at haccount
    simp only [State.unplayed, incr_apply, one, Option.some.injEq, eq_comm, ne_eq,
      not_true_eq_false, and_false, if_false] at haccount ⊢
    omega
  | written =>
    simp only [loopStep, Option.ite_none_right_eq_some] at hs
    obtain ⟨hpc, hs⟩ := hs
    obtain ⟨free', h'⟩ := h.loopReturn hpc hs
    exact ⟨free', out, h'⟩

/-! ## The other threads -/

theorem Inv.goto (h : Inv n s free out) {pc : ClientPc}
    (hpc : ∀ e, pc.inFlight = some e → s.holder e = some t) : Inv n (s.goto t pc) free out := by
  refine ⟨h.rep, fun u e he => ?_, h.in_buf_ne_none, h.in_buf_ended, h.account⟩
  by_cases hu : u = t
  · subst hu
    simp only [State.goto, Function.update_self] at he
    exact hpc e he
  · simp only [State.goto, Function.update_of_ne hu] at he
    exact h.inFlight u e he

omit [DecidableEq τ] in
theorem Inv.flags (h : Inv n s free out) (audio_loop_running : Bool)
    (audio_paused flush_audio_driver discard_buffers : ℤ) :
    Inv n { s with audio_loop_running, audio_paused, flush_audio_driver, discard_buffers } free
      out :=
  ⟨h.rep, h.inFlight, h.in_buf_ne_none, h.in_buf_ended, h.account⟩

omit [DecidableEq τ] in
theorem Inv.fill (h : Inv n s free out) (e : Buf) (b : AudioBuffer) : Inv n (s.fill e b) free out :=
  ⟨h.rep, h.inFlight, h.in_buf_ne_none, h.in_buf_ended, h.account⟩

omit [DecidableEq τ] in
theorem inFlight_take (h : ∀ u x, (s.pc u).inFlight = some x → s.holder x = some u)
    (hnone : s.holder e = none) (u : τ) (x : Buf) (hx : (s.pc u).inFlight = some x) :
    Function.update s.holder e (some t) x = some u := by
  have hu := h u x hx
  have hxe : x ≠ e := fun hxe => by simp [← hxe, hu] at hnone
  rw [Function.update_of_ne hxe, hu]

omit [DecidableEq τ] in
theorem Inv.removeFree (h : Inv n s free out) (hs : s.removeFree = some (s', e)) :
    ∃ free', Inv n (s'.take t e) free' out := by
  simp only [State.removeFree, Option.map_eq_some_iff, Prod.mk.injEq] at hs
  obtain ⟨⟨next', fifo', buf⟩, hrem, rfl, rfl⟩ := hs
  obtain ⟨free', rfl, hnone, hrep⟩ := h.rep.remove hrem
  exact ⟨free', hrep, inFlight_take h.inFlight hnone, h.in_buf_ne_none, h.in_buf_ended, h.account⟩

omit [DecidableEq τ] in
theorem Inv.removeOut (h : Inv n s free out) (hs : s.removeOut = some (s', e))
    (played returned : Buf → ℕ)
    (hcount : ∀ x, played x + returned x = s.played x + s.returned x + one (x = e)) :
    ∃ out', Inv n ({ s' with played, returned }.take t e) free out' := by
  simp only [State.removeOut, Option.map_eq_some_iff, Prod.mk.injEq] at hs
  obtain ⟨⟨next', fifo', buf⟩, hrem, rfl, rfl⟩ := hs
  obtain ⟨out', rfl, hnone, hrep⟩ := h.rep.symm.remove hrem
  refine ⟨out', hrep.symm, inFlight_take h.inFlight hnone, h.in_buf_ne_none, h.in_buf_ended,
    fun x => ?_⟩
  have haccount := h.account x
  have hx : played x + returned x = s.played x + s.returned x + one (x = buf) := hcount x
  rw [count_cons_one] at haccount
  change s.queued x = played x + returned x + out'.count x + s.unplayed x
  omega

theorem inFlight_drop {holder : Buf → Option τ} {pc : τ → ClientPc} {pc' : ClientPc}
    (h : ∀ u x, (pc u).inFlight = some x → holder x = some u) (he : holder e = some t)
    (hpc : pc'.inFlight = none) (u : τ) (x : Buf)
    (hx : (Function.update pc t pc' u).inFlight = some x) :
    Function.update holder e none x = some u := by
  by_cases hu : u = t
  · subst hu
    simp [hpc] at hx
  · rw [Function.update_of_ne hu] at hx
    have hxu := h u x hx
    have hxe : x ≠ e := fun hxe => hu (by simpa [hxe, he, eq_comm] using hxu)
    rw [Function.update_of_ne hxe, hxu]

theorem Inv.appendFree (h : Inv n s free out) (he : s.holder e = some t) (pc : ClientPc)
    (hpc : pc.inFlight = none) (hs : s.appendFree e = some s') :
    Inv n ((s'.drop e).goto t pc) (free ++ [e]) out := by
  simp only [State.appendFree, Option.map_eq_some_iff] at hs
  obtain ⟨⟨next', fifo'⟩, happ, rfl⟩ := hs
  exact ⟨h.rep.append he happ, inFlight_drop h.inFlight he hpc, h.in_buf_ne_none, h.in_buf_ended,
    h.account⟩

theorem Inv.appendOut (h : Inv n s free out) (he : s.holder e = some t) (pc : ClientPc)
    (hpc : pc.inFlight = none) (hs : s.appendOut e = some s') :
    Inv n ((s'.drop e).goto t pc) free (out ++ [e]) := by
  simp only [State.appendOut, Option.map_eq_some_iff] at hs
  obtain ⟨⟨next', fifo'⟩, happ, rfl⟩ := hs
  refine ⟨(h.rep.symm.append he happ).symm, inFlight_drop h.inFlight he hpc, h.in_buf_ne_none,
    h.in_buf_ended, fun x => ?_⟩
  have haccount := h.account x
  change incr s.queued e x = s.played x + s.returned x + (out ++ [e]).count x + s.unplayed x
  rw [incr_apply, count_append_one]
  omega

omit [DecidableEq τ] in
theorem goto_idle [DecidableEq τ] (h : s.pc t = .idle) : s.goto t .idle = s := by
  unfold State.goto
  rw [Function.update_eq_self_iff.2 h.symm]

theorem inv_idleStep {act : ClientAction} (h : Inv n s free out) (hidle : s.pc t = .idle)
    (hs : idleStep s t act = some s') : ∃ free' out', Inv n s' free' out' := by
  -- An append that ends in idleness again.
  have happend : ∀ {r : State τ} {buf : Buf}, s.holder buf = some t → s.appendFree buf = some r →
      Inv n (r.drop buf) (free ++ [buf]) out := by
    intro r buf he hr
    have h' := h.appendFree he .idle rfl hr
    rwa [goto_idle] at h'
    simp only [State.appendFree, Option.map_eq_some_iff] at hr
    obtain ⟨_, _, rfl⟩ := hr
    exact hidle
  cases act with
  | getBuffer buf =>
    simp only [idleStep, Option.bind_eq_some_iff, Option.ite_none_right_eq_some,
      Option.some.injEq] at hs
    obtain ⟨⟨r, buf'⟩, hr, rfl, rfl⟩ := hs
    obtain ⟨free', h'⟩ := h.removeFree (t := t) hr
    exact ⟨free', out, h'⟩
  | fill buf b =>
    simp only [idleStep, Option.ite_none_right_eq_some, Option.some.injEq] at hs
    obtain ⟨-, rfl⟩ := hs
    exact ⟨free, out, h.fill buf b⟩
  | putBuffer buf stream format vpts =>
    simp only [idleStep, Option.ite_none_right_eq_some] at hs
    obtain ⟨he, hs⟩ := hs
    split_ifs at hs with hframes hdiscard
    · obtain ⟨r, hr, rfl⟩ := Option.map_eq_some_iff.1 hs
      exact ⟨_, _, happend he hr⟩
    · cases hs
      refine ⟨free, out, (h.fill buf _).goto fun x hx => ?_⟩
      obtain rfl : buf = x := by simpa [ClientPc.inFlight] using hx
      exact he
    · cases hs
      refine ⟨free, out, (h.fill buf _).goto fun x hx => ?_⟩
      obtain rfl : buf = x := by simpa [ClientPc.inFlight] using hx
      exact he
  | setDiscard value =>
    simp only [idleStep, Option.some.injEq] at hs
    subst hs
    refine ⟨free, out, (h.flags s.audio_loop_running s.audio_paused s.flush_audio_driver _).goto ?_⟩
    intro x hx
    split_ifs at hx <;> simp [ClientPc.inFlight] at hx
  | setPaused value =>
    simp only [idleStep, Option.some.injEq] at hs
    subst hs
    exact ⟨free, out, h.flags s.audio_loop_running _ s.flush_audio_driver s.discard_buffers⟩
  | flush =>
    simp only [idleStep] at hs
    split_ifs at hs
    · cases hs
      refine ⟨free, out, (h.flags s.audio_loop_running s.audio_paused _ _).goto ?_⟩
      simp [ClientPc.inFlight]
    · cases hs
      exact ⟨free, out, h⟩
  | nextFrame buf =>
    simp only [idleStep, Option.bind_eq_some_iff, Option.ite_none_right_eq_some,
      Option.some.injEq] at hs
    obtain ⟨⟨r, buf'⟩, hr, rfl, rfl⟩ := hs
    have hsame : r.returned = s.returned := by
      simp only [State.removeOut, Option.map_eq_some_iff, Prod.mk.injEq] at hr
      obtain ⟨_, _, rfl, _⟩ := hr
      rfl
    obtain ⟨out', h'⟩ := h.removeOut (t := t) hr (incr s.played buf') r.returned fun x => by
      rw [incr_apply, hsame]
      omega
    refine ⟨free, out', h'.goto fun x hx => ?_⟩
    obtain rfl : buf' = x := by simpa [ClientPc.inFlight] using hx
    simp [State.take]
  | freeFrame buf =>
    simp only [idleStep, Option.ite_none_right_eq_some, Option.map_eq_some_iff] at hs
    obtain ⟨he, r, hr, rfl⟩ := hs
    exact ⟨_, _, happend he hr⟩
  | aoOpen stream format opened =>
    simp only [idleStep, State.changeSettings] at hs
    split_ifs at hs <;>
    · cases hs
      exact ⟨free, out, h.rep, h.inFlight, h.in_buf_ne_none, h.in_buf_ended, h.account⟩
  | aoClose stream | closeDevice | syncMethod value =>
    simp only [idleStep, Option.some.injEq] at hs
    subst hs
    exact ⟨free, out, h.rep, h.inFlight, h.in_buf_ne_none, h.in_buf_ended, h.account⟩
  | exit =>
    simp only [idleStep] at hs
    split_ifs at hs
    · cases hs
      refine ⟨free, out, (h.flags _ _ s.flush_audio_driver s.discard_buffers).goto ?_⟩
      simp [ClientPc.inFlight]
    · cases hs
      exact ⟨free, out, h⟩
  | putAppend | grabTake | grabAppend | flushTest | flushTake buf | flushAppend | flushDone
  | nextFrameDone converted | exitTake buf | exitAppend => simp [idleStep] at hs

theorem inv_busyStep {pc : ClientPc} {act : ClientAction} (h : Inv n s free out)
    (hpc : s.pc t = pc) (hs : busyStep s t pc act = some s') :
    ∃ free' out', Inv n s' free' out' := by
  have hflight : ∀ buf, pc.inFlight = some buf → s.holder buf = some t := fun buf hbuf =>
    h.inFlight t buf (by rw [hpc, hbuf])
  unfold busyStep at hs
  split at hs
  · -- the end of `ao_put_buffer`
    obtain ⟨r, hr, rfl⟩ := Option.map_eq_some_iff.1 hs
    exact ⟨_, _, h.appendOut (hflight _ rfl) .idle rfl hr⟩
  · obtain ⟨r, hr, rfl⟩ := Option.map_eq_some_iff.1 hs
    exact ⟨_, _, h.appendFree (hflight _ rfl) .idle rfl hr⟩
  · -- the loop that empties the out fifo
    split at hs
    · rename_i r buf hr
      cases hs
      have hsame : r.played = s.played := by
        simp only [State.removeOut, Option.map_eq_some_iff, Prod.mk.injEq] at hr
        obtain ⟨_, _, rfl, _⟩ := hr
        rfl
      obtain ⟨out', h'⟩ := h.removeOut (t := t) hr r.played (incr s.returned buf) fun x => by
        rw [incr_apply, hsame]
        omega
      refine ⟨free, out', h'.goto fun x hx => ?_⟩
      obtain rfl : buf = x := by simpa [ClientPc.inFlight] using hx
      simp [State.take]
    · cases hs
      exact ⟨free, out, h.goto (by simp [ClientPc.inFlight])⟩
  · obtain ⟨r, hr, rfl⟩ := Option.map_eq_some_iff.1 hs
    exact ⟨_, _, h.appendFree (hflight _ rfl) .grabTest rfl hr⟩
  · -- `ao_flush`
    split_ifs at hs
    · cases hs
      exact ⟨free, out, h.goto (by simp [ClientPc.inFlight])⟩
    · cases hs
      refine ⟨free, out, (h.flags s.audio_loop_running s.audio_paused s.flush_audio_driver _).goto ?_⟩
      simp [ClientPc.inFlight]
  · simp only [Option.bind_eq_some_iff, Option.ite_none_right_eq_some, Option.some.injEq] at hs
    obtain ⟨⟨r, buf⟩, hr, rfl, rfl⟩ := hs
    obtain ⟨free', h'⟩ := h.removeFree (t := t) hr
    refine ⟨free', out, h'.goto fun x hx => ?_⟩
    obtain rfl : buf = x := by simpa [ClientPc.inFlight] using hx
    simp [State.take]
  · rename_i buf
    obtain ⟨r, hr, rfl⟩ := Option.map_eq_some_iff.1 hs
    exact ⟨_, _, (h.fill buf _).appendOut (hflight _ rfl) .flushTest rfl hr⟩
  · cases hs
    exact ⟨free, out, h.goto (by simp [ClientPc.inFlight])⟩
  · -- the end of `xine_get_next_audio_frame`
    split_ifs at hs
    · obtain ⟨r, hr, rfl⟩ := Option.map_eq_some_iff.1 hs
      exact ⟨_, _, h.appendFree (hflight _ rfl) .idle rfl hr⟩
    · cases hs
      exact ⟨free, out, h.goto (by simp [ClientPc.inFlight])⟩
  · -- `ao_exit`
    simp only [Option.bind_eq_some_iff, Option.ite_none_right_eq_some, Option.some.injEq] at hs
    obtain ⟨⟨r, buf⟩, hr, rfl, rfl⟩ := hs
    obtain ⟨free', h'⟩ := h.removeFree (t := t) hr
    refine ⟨free', out, h'.goto fun x hx => ?_⟩
    obtain rfl : buf = x := by simpa [ClientPc.inFlight] using hx
    simp [State.take]
  · rename_i buf
    obtain ⟨r, hr, rfl⟩ := Option.map_eq_some_iff.1 hs
    exact ⟨_, _, (h.fill buf _).appendOut (hflight _ rfl) .exitJoin rfl hr⟩
  · simp at hs

theorem inv_step {act : Action τ} (h : Inv n s free out) (hs : step s act = some s') :
    ∃ free' out', Inv n s' free' out' := by
  cases act with
  | loop act => exact inv_loopStep h hs
  | client t act =>
    simp only [step] at hs
    split at hs
    · rename_i hidle
      exact inv_idleStep h hidle hs
    · exact inv_busyStep h rfl hs

theorem inv_run {as : List (Action τ)} (h : Inv n s free out) (hrun : Runs.run step s as = some s') :
    ∃ free' out', Inv n s' free' out' := by
  have hstep : ∀ (s : State τ) (a : Action τ) (t : State τ),
      (∃ free out, Inv n s free out) → step s a = some t → ∃ free out, Inv n t free out := by
    rintro s a t ⟨free, out, h⟩ hst
    exact inv_step h hst
  exact Runs.run_invariant hstep ⟨free, out, h⟩ hrun

end Inv

/-! ## A new port -/

omit [DecidableEq τ] in
theorem aoNewPort_loop {init : State τ} (h : Inv 0 init [] []) (n : ℕ) :
    ∃ s, (List.range n).foldlM (fun s buf => s.appendFree buf) init = some s ∧
      Inv n s (List.range n) [] := by
  induction n with
  | zero => exact ⟨init, rfl, h⟩
  | succ n ih =>
    obtain ⟨s, hs, hinv⟩ := ih
    have hmem : n ∉ List.range n := by simp
    obtain ⟨next', fifo', happ, hrep, hsame⟩ := fifoAppend_spec hinv.rep.free_rep hmem
      (hinv.rep.next_null n hmem (by simp))
    refine ⟨{ s with next := next', free_fifo := fifo' }, ?_, ?_⟩
    · rw [List.range_succ, List.foldlM_append, hs]
      simp [State.appendFree, happ]
    · rw [List.range_succ]
      refine ⟨⟨hrep, hinv.rep.out_rep.congr fun a ha => absurd ha (by simp), fun e he he' => ?_,
        fun e => ?_⟩, hinv.inFlight, hinv.in_buf_ne_none, hinv.in_buf_ended, hinv.account⟩
      · have her : e ∉ List.range n := fun her => he (List.mem_append_left _ her)
        exact (hsame e her).trans (hinv.rep.next_null e her he')
      · have hplace := hinv.rep.places_eq e
        change (List.range n ++ [n]).count e + [].count e + one (s.in_buf = some e) +
          one (s.holder e ≠ none) = one (e < n + 1)
        rw [count_append_one, one_lt_succ]
        omega

omit [DecidableEq τ] in
theorem aoNewPort_spec (grab_only : Bool) (gap_tolerance : ℤ) :
    ∃ s : State τ, aoNewPort grab_only gap_tolerance = some s ∧
      Inv numAudioBuffers s (List.range numAudioBuffers) [] := by
  refine aoNewPort_loop ⟨⟨fifoNew_spec _, fifoNew_spec _, fun _ _ _ => rfl, fun e => by simp [one]⟩,
    by simp [ClientPc.inFlight], ?_, fun _ => rfl, fun e => ?_⟩ _
  · intro htop _ hended
    cases grab_only
    · exact absurd rfl htop
    · exact absurd rfl hended
  · simp [State.unplayed, one]

/-! ## Every interleaving -/

/-- Over every interleaving of the output thread and any other threads on a new port: each
buffer is in exactly one of the two fifos, `in_buf` and the threads' hands; the fifos are kept by
their pointers and counters, what a thread appends has a null link, and the append does not crash;
each time that a buffer was put into the out fifo it was played once or came back once, or it is still
to come; and `ao_get_buffer` waits only while no buffer is free, all of them being elsewhere. -/
theorem audio_run_conserves {grab_only : Bool} {gap_tolerance : ℤ} {s₀ s : State τ}
    {as : List (Action τ)} (hnew : aoNewPort grab_only gap_tolerance = some s₀)
    (hrun : Runs.run step s₀ as = some s) :
    ∃ free out, FifoRep s.next s.free_fifo free ∧ FifoRep s.next s.out_fifo out ∧
      (∀ e, free.count e + out.count e + one (s.in_buf = some e) + one (s.holder e ≠ none) =
        one (e < numAudioBuffers)) ∧
      (∀ e, s.in_buf = some e ∨ s.holder e ≠ none →
        s.next e = none ∧ (s.appendFree e).isSome ∧ (s.appendOut e).isSome) ∧
      (∀ e, s.queued e = s.played e + s.returned e + out.count e + s.unplayed e) ∧
      ∀ t, (∀ e, idleStep s t (.getBuffer e) = none) →
        ∀ e < numAudioBuffers, e ∈ out ∨ s.in_buf = some e ∨ s.holder e ≠ none := by
  obtain ⟨s₁, hs₁, hinv⟩ := aoNewPort_spec (τ := τ) grab_only gap_tolerance
  obtain rfl : s₁ = s₀ := Option.some.inj (hs₁.symm.trans hnew)
  obtain ⟨free, out, h⟩ := inv_run hinv hrun
  refine ⟨free, out, h.rep.free_rep, h.rep.out_rep, h.rep.places_eq, fun e he => ?_, h.account,
    fun t hblock e he => ?_⟩
  · obtain ⟨-, -, hnull⟩ := h.rep.not_mem he
    obtain ⟨hfree, hout⟩ := h.rep.append_isSome he
    exact ⟨hnull, by simpa [State.appendFree] using hfree, by simpa [State.appendOut] using hout⟩
  · -- The free fifo is empty, so the one place of `e` is another one.
    have hempty : free = [] := by
      rw [← fifoRemove_eq_none h.rep.free_rep]
      cases hrem : fifoRemove s.next s.free_fifo with
      | none => rfl
      | some r =>
        obtain ⟨next', fifo', buf⟩ := r
        have hget := hblock buf
        simp [idleStep, State.removeFree, hrem] at hget
    have hplace := h.rep.places_eq e
    rw [hempty] at hplace
    simp only [one, List.count_nil, he, if_true] at hplace
    by_contra hnone
    rw [not_or, not_or] at hnone
    obtain ⟨hout, hin, hheld⟩ := hnone
    rw [List.count_eq_zero_of_not_mem hout, if_neg hin, if_neg hheld] at hplace
    omega

/-- A decoder's buffer is played and comes back. -/
theorem audio_run_conserves_played : ∃ (s₀ s : State ℕ) (free out : List Buf),
    aoNewPort false 0 = some s₀ ∧
      Runs.run step s₀ [.client 0 (.getBuffer 0), .client 0 (.fill 0 ⟨100, 0, none, ⟨16, 0, 0⟩⟩),
        .client 0 (.putBuffer 0 7 ⟨16, 44100, 4⟩ 0), .client 0 .putAppend, .loop .top, .loop .fetch,
        .loop .flush, .loop .discard, .loop .pause, .loop (.settings true), .loop (.sync 0 0),
        .loop .write, .loop .written] = some s ∧
      FifoRep s.next s.free_fifo free ∧ FifoRep s.next s.out_fifo out := by
  have hsome : ((aoNewPort false 0 : Option (State ℕ)).bind fun s₀ =>
      Runs.run step s₀ [.client 0 (.getBuffer 0), .client 0 (.fill 0 ⟨100, 0, none, ⟨16, 0, 0⟩⟩),
        .client 0 (.putBuffer 0 7 ⟨16, 44100, 4⟩ 0), .client 0 .putAppend, .loop .top, .loop .fetch,
        .loop .flush, .loop .discard, .loop .pause, .loop (.settings true), .loop (.sync 0 0),
        .loop .write, .loop .written]).isSome := by
    decide
  obtain ⟨s, hs⟩ := Option.isSome_iff_exists.1 hsome
  obtain ⟨s₀, hnew, hrun⟩ := Option.bind_eq_some_iff.1 hs
  obtain ⟨free, out, hfree, hout, -⟩ := audio_run_conserves hnew hrun
  exact ⟨s₀, s, free, out, hnew, hrun, hfree, hout⟩

end Xine.AudioOut
