import Mathlib.Data.List.Sort
import Xine.Event.Invariant

/-!
# Who waits

`Seated`: each waiter of a queue is there once, and its thread is in `xine_event_wait` on this queue, so that
a woken waiter can go on when the lock is free.
-/

namespace Xine.Event

open scoped List

variable {τ : Type*}

/-- The waiters of a queue. -/
def EventQueue.waiters (queue : EventQueue τ) : List (Option τ) := queue.blocked ++ queue.woken

structure Seated (s : State τ) : Prop where
  nodup : ∀ q, (s.queues q).waiters.Nodup
  pc : ∀ q t, some t ∈ (s.queues q).waiters → s.pc t = .waiting q

theorem seated_initial : Seated (State.initial : State τ) where
  nodup := fun _ => List.nodup_nil
  pc := fun q t h => by cases h

variable {s s' : State τ} {q : ℕ} {t : τ} {queue queue' : EventQueue τ}

theorem Seated.leave (h : Seated s) (hsub : ∀ q, (s'.queues q).waiters <+~ (s.queues q).waiters)
    (hpc : ∀ q t, some t ∈ (s'.queues q).waiters → s.pc t = .waiting q → s'.pc t = .waiting q) :
    Seated s' where
  nodup := fun q => by
    obtain ⟨l, hperm, hl⟩ := hsub q
    exact hperm.nodup_iff.1 ((h.nodup q).sublist hl)
  pc := fun q t ht => hpc q t ht (h.pc q t ((hsub q).subset ht))

theorem Seated.local (h : Seated s) (hqueues : s'.queues = Function.update s.queues q queue)
    (hsub : queue.waiters <+~ (s.queues q).waiters)
    (hpc : ∀ t q, s.pc t = .waiting q → s'.pc t = .waiting q) : Seated s' := by
  refine h.leave (fun q' => ?_) fun q' t _ ht => hpc t q' ht
  rw [hqueues]
  by_cases hq : q' = q
  · subst hq
    rw [Function.update_self]
    exact hsub
  · rw [Function.update_of_ne hq]

theorem waiters_takeFirst {event : Option Cell} (h : queue.takeFirst = some (event, queue')) :
    queue'.waiters = queue.waiters := by
  cases hcontents : queue.events.contents with
  | nil =>
    rw [EventQueue.takeFirst_nil hcontents] at h
    obtain ⟨-, rfl⟩ := Prod.mk.inj (Option.some.inj h)
    rfl
  | cons c cs =>
    obtain ⟨events, -, htake⟩ := EventQueue.takeFirst_cons hcontents
    rw [htake] at h
    obtain ⟨-, rfl⟩ := Prod.mk.inj (Option.some.inj h)
    rfl

theorem waiters_receive (queue : EventQueue τ) (w : Option τ) (c : Cell) :
    (queue.receive w c).waiters = queue.waiters := by
  cases w <;> rfl

theorem waitSection_waiters {w : Option τ} {has : Bool}
    (h : queue.waitSection w = some (has, queue')) :
    (has = true ∧ queue'.waiters = queue.waiters) ∨ (has = false ∧ queue'.waiters ~ w :: queue.waiters) := by
  unfold EventQueue.waitSection at h
  obtain ⟨⟨event, queue₁⟩, htake, h⟩ := Option.map_eq_some_iff.1 h
  have hsame := waiters_takeFirst htake
  cases event with
  | none =>
    obtain ⟨rfl, rfl⟩ := Prod.mk.inj h
    refine .inr ⟨rfl, ?_⟩
    rw [← hsame]
    unfold EventQueue.waiters
    dsimp only
    rw [List.append_assoc]
    exact List.perm_middle
  | some c =>
    obtain ⟨rfl, rfl⟩ := Prod.mk.inj h
    exact .inl ⟨rfl, (waiters_receive _ w c).trans hsame⟩

theorem seated_listenBy {woken : List (Option τ)} (h : Seated s)
    (hsub : woken <+ (s.queues q).woken) (hnot : none ∉ (s.queues q).blocked ++ woken)
    (hstep : listenBy s { s.queues q with woken := woken } q = some s') : Seated s' := by
  unfold listenBy at hstep
  obtain ⟨⟨has, queue⟩, hwait, hs'⟩ := Option.map_eq_some_iff.1 hstep
  dsimp only at hs'
  subst hs'
  have hbefore : ({ s.queues q with woken := woken } : EventQueue τ).waiters <+
      (s.queues q).waiters := (List.Sublist.refl _).append hsub
  rcases waitSection_waiters hwait with ⟨rfl, hsame⟩ | ⟨rfl, hperm⟩
  · refine h.local rfl ?_ fun _ _ ht => ht
    rw [if_pos rfl, hsame]
    exact hbefore.subperm
  · rw [if_neg Bool.false_ne_true]
    have hwaiters : ({ queue with listener := some .waiting } : EventQueue τ).waiters ~
        none :: ({ s.queues q with woken := woken } : EventQueue τ).waiters := hperm
    constructor
    · intro q'
      unfold State.put
      dsimp only
      by_cases hq : q' = q
      · subst hq
        rw [Function.update_self, hwaiters.nodup_iff]
        exact List.nodup_cons.2 ⟨hnot, (h.nodup q').sublist hbefore⟩
      · rw [Function.update_of_ne hq]
        exact h.nodup q'
    · intro q' u hu
      unfold State.put at hu ⊢
      dsimp only at hu ⊢
      by_cases hq : q' = q
      · subst hq
        rw [Function.update_self] at hu
        rcases List.mem_cons.1 (hwaiters.subset hu) with heq | hu
        · cases heq
        · exact h.pc q' u (hbefore.subset hu)
      · rw [Function.update_of_ne hq] at hu
        exact h.pc q' u hu

variable [DecidableEq τ]

theorem still_waiting {pc : Pc} (hno : ∀ q, s.pc t ≠ .waiting q) (u : τ) (q : ℕ)
    (hu : s.pc u = .waiting q) : Function.update s.pc t pc u = .waiting q := by
  have hut : u ≠ t := by
    rintro rfl
    exact hno q hu
  rw [Function.update_of_ne hut]
  exact hu

theorem waiters_append {c : Cell} {waiter : Option (Option τ)}
    (h : queue.append c waiter = some queue') : queue'.waiters ~ queue.waiters := by
  obtain ⟨blocked, woken, rfl, hperm, -⟩ := EventQueue.append_cases h
  exact hperm

theorem seated_waitBy {woken : List (Option τ)} (h : Seated s)
    (hsub : woken <+ (s.queues q).woken) (hnot : some t ∉ (s.queues q).blocked ++ woken)
    (hpc : ∀ q', s.pc t = .waiting q' → q' = q)
    (hstep : waitBy s { s.queues q with woken := woken } t q = some s') : Seated s' := by
  unfold waitBy at hstep
  obtain ⟨⟨has, queue⟩, hwait, hs'⟩ := Option.map_eq_some_iff.1 hstep
  dsimp only at hs'
  subst hs'
  have hbefore : ({ s.queues q with woken := woken } : EventQueue τ).waiters <+
      (s.queues q).waiters := (List.Sublist.refl _).append hsub
  have helse : ∀ q', q' ≠ q → some t ∉ (s.queues q').waiters := fun q' hq ht =>
    hq (hpc q' (h.pc q' t ht))
  rcases waitSection_waiters hwait with ⟨rfl, hsame⟩ | ⟨rfl, hperm⟩
  · -- it has an event
    refine h.leave (fun q' => ?_) fun q' u hu hpcu => ?_
    · unfold State.goto State.put
      dsimp only
      by_cases hq : q' = q
      · subst hq
        rw [Function.update_self, hsame]
        exact hbefore.subperm
      · rw [Function.update_of_ne hq]
    · unfold State.goto State.put at hu ⊢
      dsimp only at hu ⊢
      have hut : u ≠ t := by
        rintro rfl
        by_cases hq : q' = q
        · subst hq
          rw [Function.update_self, hsame] at hu
          exact hnot hu
        · rw [Function.update_of_ne hq] at hu
          exact helse q' hq hu
      rw [Function.update_of_ne hut]
      exact hpcu
  · -- it blocks
    constructor
    · intro q'
      unfold State.goto State.put
      dsimp only
      by_cases hq : q' = q
      · subst hq
        rw [Function.update_self, hperm.nodup_iff]
        exact List.nodup_cons.2 ⟨hnot, (h.nodup q').sublist hbefore⟩
      · rw [Function.update_of_ne hq]
        exact h.nodup q'
    · intro q' u hu
      unfold State.goto State.put at hu ⊢
      dsimp only at hu ⊢
      by_cases hut : u = t
      · subst hut
        rw [Function.update_self, if_neg Bool.false_ne_true]
        by_cases hq : q' = q
        · rw [hq]
        · rw [Function.update_of_ne hq] at hu
          exact absurd hu (helse q' hq)
      · rw [Function.update_of_ne hut]
        by_cases hq : q' = q
        · subst hq
          rw [Function.update_self] at hu
          rcases List.mem_cons.1 (hperm.subset hu) with heq | hu
          · exact absurd (Option.some.inj heq) hut
          · exact h.pc q' u (hbefore.subset hu)
        · rw [Function.update_of_ne hq] at hu
          exact h.pc q' u hu

theorem seated_step {a : Action τ} (h : Seated s) (hinv : Inv s) (hstep : step s a = some s') :
    Seated s' := by
  -- a thread at another place does not wait
  have houtside : ∀ {t : τ}, s.pc t = .outside → ∀ q, s.pc t ≠ .waiting q := by
    intro t ht q
    rw [ht]
    simp
  have hsending : ∀ {t : τ} {r : Sent} {o : Option ℕ}, s.pc t = .sending r o →
      ∀ q, s.pc t ≠ .waiting q := by
    intro t r o ht q
    rw [ht]
    simp
  have hdisposing : ∀ {t : τ} {q' : ℕ}, s.pc t = .disposing q' → ∀ q, s.pc t ≠ .waiting q := by
    intro t q' ht q
    rw [ht]
    simp
  cases a with
  | newQueue t =>
    dsimp only [step] at hstep
    split at hstep
    · cases hstep
      exact h.local rfl (List.nil_subperm) fun _ _ ht => ht
    · cases hstep
  | sendLock t event =>
    dsimp only [step] at hstep
    split at hstep
    · rename_i hpc
      cases hstep
      exact h.leave (fun _ => .refl _) fun q u _ hu => still_waiting (houtside hpc.1) u q hu
    · cases hstep
  | sendPut t waiter =>
    dsimp only [step] at hstep
    split at hstep
    · rename_i r q hpc
      obtain ⟨queue, happend, rfl⟩ := Option.map_eq_some_iff.1 hstep
      exact h.local rfl (waiters_append happend).subperm (still_waiting (hsending hpc))
    · cases hstep
  | sendUnlock t =>
    dsimp only [step] at hstep
    split at hstep
    · rename_i r hpc
      cases hstep
      exact h.leave (fun _ => .refl _) fun q u _ hu => still_waiting (hsending hpc) u q hu
    · cases hstep
  | get t q =>
    dsimp only [step] at hstep
    split at hstep
    · obtain ⟨queue, hget, rfl⟩ := Option.map_eq_some_iff.1 hstep
      unfold EventQueue.getSection at hget
      obtain ⟨⟨event, queue₁⟩, htake, hqueue⟩ := Option.map_eq_some_iff.1 hget
      have hsame : queue.waiters = (s.queues q).waiters := by
        rw [← waiters_takeFirst htake, ← hqueue]
        cases event with
        | none => rfl
        | some c => exact waiters_receive _ _ c
      exact h.local rfl (hsame ▸ .refl _) fun _ _ ht => ht
    · cases hstep
  | wait t q =>
    dsimp only [step] at hstep
    split at hstep
    · rename_i hpc
      refine seated_waitBy h (List.Sublist.refl _) (fun ht => ?_) (fun q' hq' => ?_) hstep
      · exact houtside hpc.1 q (h.pc q t ht)
      · exact absurd hq' (houtside hpc.1 q')
    · cases hstep
  | wake q w =>
    dsimp only [step] at hstep
    obtain ⟨queue, hwake, rfl⟩ := Option.map_eq_some_iff.1 hstep
    unfold EventQueue.wake at hwake
    split at hwake
    · rename_i hw
      cases hwake
      exact h.local rfl (move_perm hw).subperm fun _ _ ht => ht
    · cases hwake
  | resume t q =>
    dsimp only [step] at hstep
    split at hstep
    · rename_i hpc
      obtain ⟨hpc, hwoken⟩ := hpc
      refine seated_waitBy h List.erase_sublist (fun ht => ?_) (fun q' hq' => ?_) hstep
      · -- it was there once
        obtain ⟨-, hwnodup, hdisjoint⟩ := List.nodup_append.1 (h.nodup q)
        rcases List.mem_append.1 ht with ht | ht
        · exact hdisjoint _ ht _ hwoken rfl
        · exact (hwnodup.mem_erase_iff.1 ht).1 rfl
      · rw [hpc] at hq'
        exact (Pc.waiting.inj hq').symm
    · cases hstep
  | free q c =>
    dsimp only [step] at hstep
    split at hstep
    · cases hstep
      exact h.local rfl (.refl _) fun _ _ ht => ht
    · cases hstep
  | createListener t q =>
    dsimp only [step] at hstep
    split at hstep
    · cases hstep
      exact h.local rfl (.refl _) fun _ _ ht => ht
    · cases hstep
  | listenerWait q =>
    dsimp only [step] at hstep
    split at hstep
    · rename_i hl
      have hcount := (hinv.queue q).waiters.listening
      rw [hl, if_neg (by simp)] at hcount
      exact seated_listenBy h (List.Sublist.refl _) (List.count_eq_zero.1 hcount) hstep
    · cases hstep
  | listenerResume q =>
    dsimp only [step] at hstep
    split at hstep
    · rename_i hl
      refine seated_listenBy h List.erase_sublist (fun ht => ?_) hstep
      obtain ⟨-, hwnodup, hdisjoint⟩ := List.nodup_append.1 (h.nodup q)
      rcases List.mem_append.1 ht with ht | ht
      · exact hdisjoint _ ht _ hl.2 rfl
      · exact (hwnodup.mem_erase_iff.1 ht).1 rfl
    · cases hstep
  | listenerFree q =>
    dsimp only [step] at hstep
    split at hstep
    · cases hstep
      exact h.local rfl (.refl _) fun _ _ ht => ht
    · cases hstep
      exact h.local rfl (.refl _) fun _ _ ht => ht
    · cases hstep
  | dispose t q =>
    dsimp only [step] at hstep
    split at hstep
    · rename_i hpc
      split at hstep
      · cases hstep
        exact h.leave (fun _ => .refl _) fun _ _ _ hu => hu
      · obtain ⟨l, -, rfl⟩ := Option.map_eq_some_iff.1 hstep
        exact h.local rfl (.refl _) (still_waiting (houtside hpc.1))
    · cases hstep
  | disposeQuit t waiter =>
    dsimp only [step] at hstep
    split at hstep
    · split at hstep
      · obtain ⟨queue, happend, rfl⟩ := Option.map_eq_some_iff.1 hstep
        have hperm : queue.waiters ~ (s.queues _).waiters := waiters_append happend
        exact h.local rfl hperm.subperm fun _ _ ht => ht
      · cases hstep
    · cases hstep
  | disposeJoin t =>
    dsimp only [step] at hstep
    split at hstep
    · split at hstep
      · cases hstep
        exact h.local rfl (.refl _) fun _ _ ht => ht
      · cases hstep
    · cases hstep
  | disposeDrain t =>
    dsimp only [step] at hstep
    split at hstep
    · rename_i q hpc
      split at hstep
      · obtain ⟨queue, hdrain, rfl⟩ := Option.map_eq_some_iff.1 hstep
        unfold EventQueue.drain at hdrain
        obtain ⟨⟨event, queue₁⟩, htake, hqueue⟩ := Option.map_eq_some_iff.1 hdrain
        have hsame : queue.waiters = (s.queues q).waiters := by
          rw [← waiters_takeFirst htake, ← hqueue]
          cases event <;> rfl
        exact h.local rfl (hsame ▸ .refl _) (still_waiting (hdisposing hpc))
      · cases hstep
    · cases hstep

end Xine.Event

/-!
## Event delivery

Each step keeps the invariant, so that in every run without a consumer that takes the quit event
from a listener, `Delivers` holds of every state: `run_delivers`. A consumer that calls `xine_event_get` while
the listener of the queue is joined takes the event that the listener waits for.
-/

namespace Xine.Event

open Runs (run Guarded)
open scoped List

variable {τ : Type*} [DecidableEq τ] {s s' : State τ} {a : Action τ} {t : τ} {q : ℕ}
  {queue queue' : EventQueue τ}

/-! ## Steps -/

theorem inv_waitBy {woken : List (Option τ)} (h : Inv s) (hregistered : s.Registered q)
    (hlen : (s.queues q).woken.length ≤ woken.length + 1)
    (hcount : woken.count none = (s.queues q).woken.count none)
    (hstep : waitBy s { s.queues q with woken := woken } t q = some s') : Inv s' := by
  unfold waitBy at hstep
  obtain ⟨⟨has, queue⟩, hwait, hs'⟩ := Option.map_eq_some_iff.1 hstep
  obtain ⟨hok, hput, hstage⟩ := (h.queue q).waitSection hregistered.2 hlen hcount hwait
  dsimp only at hs'
  subst hs'
  exact h.local hregistered.1 hok hput (by rw [hstage])
    (not_sending_update (by intro r o; split_ifs <;> exact Pc.noConfusion))

theorem inv_listenBy {woken : List (Option τ)} (h : Inv s)
    (hlistener : (s.queues q).listener = some .looping ∨ (s.queues q).listener = some .waiting)
    (hlen : (s.queues q).woken.length ≤ woken.length + 1)
    (hcount : ((s.queues q).blocked ++ woken).count none = 0) (hsub : woken ⊆ (s.queues q).woken)
    (hstep : listenBy s { s.queues q with woken := woken } q = some s') : Inv s' := by
  unfold listenBy at hstep
  obtain ⟨⟨has, queue⟩, hwait, hs'⟩ := Option.map_eq_some_iff.1 hstep
  obtain ⟨hok, hput, hstage⟩ := (h.queue q).listen hlistener hlen hcount hsub hwait
  dsimp only at hs'
  subst hs'
  have hlive : q < s.num_queues := h.made fun hnew => by
    rw [hnew] at hlistener
    rcases hlistener with hl | hl <;> cases hl
  exact h.local hlive hok hput (by rw [hstage]) fun _ _ _ ht => ht

theorem inv_step (h : Inv s) (hok : Admissible s a) (hstep : step s a = some s') : Inv s' := by
  cases a with
  | newQueue t =>
    dsimp only [step] at hstep
    split at hstep
    · rename_i hpc
      cases hstep
      exact inv_newQueue h hpc.2
    · cases hstep
  | sendLock t event =>
    dsimp only [step] at hstep
    split at hstep
    · rename_i hpc
      cases hstep
      exact inv_sendLock h hpc.2
    · cases hstep
  | sendPut t waiter =>
    dsimp only [step] at hstep
    split at hstep
    · rename_i r q hpc
      obtain ⟨queue, happend, rfl⟩ := Option.map_eq_some_iff.1 hstep
      exact inv_sendPut h hpc happend
    · cases hstep
  | sendUnlock t =>
    dsimp only [step] at hstep
    split at hstep
    · rename_i r hpc
      cases hstep
      exact inv_sendUnlock h hpc
    · cases hstep
  | get t q =>
    dsimp only [step] at hstep
    split at hstep
    · rename_i hpc
      obtain ⟨queue, hget, rfl⟩ := Option.map_eq_some_iff.1 hstep
      have hjoin : (s.queues q).stage = .joining → (s.queues q).listener = none := by
        intro hstage
        by_contra hne
        exact hok ⟨hstage, hne⟩
      obtain ⟨hqueue, hput, hstage⟩ := (h.queue q).getSection hget hjoin
      exact h.local hpc.2.1 hqueue hput (by rw [hstage]) fun _ _ _ ht => ht
    · cases hstep
  | wait t q =>
    dsimp only [step] at hstep
    split at hstep
    · rename_i hpc
      exact inv_waitBy h hpc.2 (Nat.le_succ _) rfl hstep
    · cases hstep
  | wake q w =>
    dsimp only [step] at hstep
    obtain ⟨queue, hwake, rfl⟩ := Option.map_eq_some_iff.1 hstep
    obtain ⟨hqueue, hput, hstage⟩ := (h.queue q).wake hwake
    have hlive : q < s.num_queues := h.made fun hnew => by
      rw [hnew] at hwake
      cases hwake
    exact h.local hlive hqueue hput (by rw [hstage]) fun _ _ _ ht => ht
  | resume t q =>
    dsimp only [step] at hstep
    split at hstep
    · rename_i hpc
      obtain ⟨hpc, hwoken⟩ := hpc
      -- a consumer waits on a queue in the list only
      have hstage : (s.queues q).stage = .registered := by
        by_contra hne
        exact (h.queue q).waiters.quiet hne t (List.mem_append_right _ hwoken)
      have hlive : q < s.num_queues := h.made fun hnew => by
        rw [hnew] at hwoken
        cases hwoken
      refine inv_waitBy h ⟨hlive, hstage⟩ ?_ ?_ hstep
      · rw [List.length_erase_of_mem hwoken]
        omega
      · exact List.count_erase_of_ne (by simp)
    · cases hstep
  | free q c =>
    dsimp only [step] at hstep
    split at hstep
    · rename_i hc
      cases hstep
      have hlive : q < s.num_queues := h.made fun hnew => by
        rw [hnew] at hc
        cases hc
      exact h.local hlive ((h.queue q).free hc) rfl Iff.rfl fun _ _ _ ht => ht
    · cases hstep
  | createListener t q =>
    dsimp only [step] at hstep
    split at hstep
    · rename_i hpc
      cases hstep
      exact h.local hpc.2.1.1 ((h.queue q).createListener hpc.2.1.2 hpc.2.2) rfl Iff.rfl
        fun _ _ _ ht => ht
    · cases hstep
  | listenerWait q =>
    dsimp only [step] at hstep
    split at hstep
    · rename_i hl
      have hcount := (h.queue q).waiters.listening
      rw [hl, if_neg (by simp)] at hcount
      exact inv_listenBy h (.inl hl) (Nat.le_succ _) hcount (List.Subset.refl _) hstep
    · cases hstep
  | listenerResume q =>
    dsimp only [step] at hstep
    split at hstep
    · rename_i hl
      obtain ⟨hl, hwoken⟩ := hl
      have hcount := (h.queue q).waiters.listening
      rw [hl, if_pos rfl, List.count_append] at hcount
      refine inv_listenBy h (.inr hl) ?_ ?_ List.erase_subset hstep
      · rw [List.length_erase_of_mem hwoken]
        omega
      · -- the listener was there once
        have hpos := List.count_pos_iff.2 hwoken
        rw [List.count_append, List.count_erase_self]
        omega
    · cases hstep
  | listenerFree q =>
    dsimp only [step] at hstep
    have hlive : ∀ l, (s.queues q).listener = some l → q < s.num_queues := fun l hl =>
      h.made fun hnew => by rw [hnew] at hl; cases hl
    split at hstep
    · rename_i c hl
      cases hstep
      exact h.local (hlive _ hl) ((h.queue q).listenerFree hl (.inl ⟨rfl, rfl⟩)) rfl Iff.rfl
        fun _ _ _ ht => ht
    · rename_i c hl
      cases hstep
      exact h.local (hlive _ hl) ((h.queue q).listenerFree hl (.inr ⟨rfl, rfl⟩)) rfl Iff.rfl
        fun _ _ _ ht => ht
    · cases hstep
  | dispose t q =>
    dsimp only [step] at hstep
    split at hstep
    · rename_i hpc
      obtain ⟨-, hlock, hregistered, hquiet⟩ := hpc
      obtain ⟨l, hfind, l', hdelete, hcontents⟩ := XineList.find_spec ((h.registered q).2 hregistered)
      rw [hfind] at hstep
      dsimp only at hstep
      rw [hdelete] at hstep
      cases hstep
      exact inv_dispose h hlock hregistered.1 ((h.queue q).dispose hquiet) rfl (by simp) hcontents
    · cases hstep
  | disposeQuit t waiter =>
    dsimp only [step] at hstep
    split at hstep
    · rename_i q hpc
      split at hstep
      · rename_i hstage
        obtain ⟨queue, happend, rfl⟩ := Option.map_eq_some_iff.1 hstep
        have hput : queue.put =
            (s.queues q).put ++ [{ serial := s.serial, event := qevent }] := by
          obtain ⟨blocked, woken, rfl, -, -⟩ := EventQueue.append_cases happend
          rfl
        exact inv_disposeQuit h (by rw [hstage]; decide) ((h.queue q).quit happend hstage) hput rfl
          (by simp)
      · cases hstep
    · cases hstep
  | disposeJoin t =>
    dsimp only [step] at hstep
    split at hstep
    · rename_i q hpc
      split at hstep
      · rename_i hstage
        cases hstep
        have hlive : q < s.num_queues := h.made fun hnew => by
          rw [hnew] at hstage
          cases hstage.1
        exact h.local hlive ((h.queue q).join hstage.1 hstage.2) rfl (by rw [hstage.1]; simp)
          fun _ _ _ ht => ht
      · cases hstep
    · cases hstep
  | disposeDrain t =>
    dsimp only [step] at hstep
    split at hstep
    · rename_i q hpc
      split at hstep
      · rename_i hstage
        obtain ⟨queue, hdrain, rfl⟩ := Option.map_eq_some_iff.1 hstep
        have hlive : q < s.num_queues := h.made fun hnew => by
          rw [hnew] at hstage
          cases hstage
        obtain ⟨hqueue, hput, hgone⟩ := (h.queue q).drain hstage hdrain
        refine h.local hlive hqueue hput ?_ (not_sending_update (by
          intro r o
          split_ifs <;> exact Pc.noConfusion))
        rw [hstage]
        exact ⟨fun hreg => absurd hreg hgone, fun hreg => by cases hreg⟩
      · cases hstep
    · cases hstep

/-! ## Delivery -/

/-- The serials of the events that were put in a queue, in their order. -/
def EventQueue.serials (queue : EventQueue τ) : List ℕ := queue.put.map Cell.serial

/-- A waiter is in `xine_event_wait` and can go on. -/
def State.CanResume (s : State τ) (q : ℕ) : Option τ → Prop
  | some t => s.pc t = .waiting q
  | none => (s.queues q).listener = some .waiting

/-- What is promised of the delivery of events. -/
structure Delivers (s : State τ) : Prop where
  /-- A send that has the lock knows the queues of the list. -/
  sending : ∀ t r queue, s.pc t = .sending r queue → r.queues = s.event_queues.contents
  /-- A send that is finished has put one copy in each queue that was in the list, and none in another. -/
  sent : ∀ r ∈ s.sends, r.queues.Nodup ∧
    ∀ q, ((s.queues q).put.filter fun c => c.serial = r.serial) = if q ∈ r.queues then [r.cell] else []
  /-- Two queues have received their common events in the same order. -/
  order : ∀ q q',
    ((s.queues q).serials.filter fun serial => serial ∈ (s.queues q').serials) =
      (s.queues q').serials.filter fun serial => serial ∈ (s.queues q).serials
  /-- Events are taken out in the order in which they were put in. -/
  fifo : ∀ q, (s.queues q).put = (s.queues q).took ++ (s.queues q).events.contents
  /-- An event is put in once, and is in the queue, or with one that took it, or was freed. -/
  once : ∀ q, (s.queues q).put.Nodup ∧
    (s.queues q).put ~ (s.queues q).events.contents ++
      ((s.queues q).held ++ (s.queues q).inListener ++ (s.queues q).freed)
  /-- Behind the disposal no event is left in the queue. -/
  disposed : ∀ q, (s.queues q).stage = .gone →
    (s.queues q).events.contents = [] ∧ (s.queues q).inListener = []
  /-- Behind the removal from the list only the quit event of the disposal was put in. -/
  closed : ∀ q, (s.queues q).Closed
  /-- While a waiter is blocked, there is a woken one, which can go on, for each event. -/
  waiting : ∀ q, (s.queues q).blocked ≠ [] →
    (s.queues q).events.contents.length ≤ (s.queues q).woken.length ∧ (s.queues q).woken.Nodup ∧
      ∀ w ∈ (s.queues q).woken, s.CanResume q w
  /-- A listener that is joined has ended, or has taken a quit event, or there is one in the queue, and the
  listener is not blocked. -/
  joined : ∀ q, (s.queues q).stage = .joining → ∀ l, (s.queues q).listener = some l →
    l = .ended ∨ (∃ c, l = .leaving c) ∨
      (∃ c ∈ (s.queues q).events.contents, c.IsQuit) ∧ none ∉ (s.queues q).blocked

theorem Inv.serials_sorted (h : Inv s) (q : ℕ) : (s.queues q).serials.Pairwise (· < ·) :=
  List.pairwise_map.2 (h.queue q).history.sorted

theorem Inv.delivers (h : Inv s) (hseated : Seated s) : Delivers s where
  sending := fun t r queue ht => (h.walking t r queue ht).queues
  sent := by
    intro r hr
    obtain ⟨hgiven, hnodup, -, hdelivered⟩ := h.finished r hr
    exact ⟨hnodup, hgiven ▸ hdelivered⟩
  order := by
    intro q q'
    -- both are the common serials, from the least on
    refine List.Pairwise.eq_of_mem_iff ((h.serials_sorted q).filter _) ((h.serials_sorted q').filter _) ?_
    intro serial
    simp only [List.mem_filter, decide_eq_true_eq]
    exact and_comm
  fifo := fun q => (h.queue q).history.fifo
  once := by
    intro q
    have hhistory := (h.queue q).history
    refine ⟨hhistory.sorted.imp fun hlt heq => ?_, ?_⟩
    · rw [heq] at hlt
      exact absurd hlt (Nat.lt_irrefl _)
    · rw [hhistory.fifo]
      exact List.perm_append_comm.trans (hhistory.owners.append_left _)
  disposed := by
    intro q hgone
    refine ⟨(h.queue q).disposal.empty hgone, ?_⟩
    unfold EventQueue.inListener
    rcases (h.queue q).disposal.joined (.inr hgone) with hl | hl <;> rw [hl] <;> rfl
  closed := fun q => (h.queue q).disposal.closed
  waiting := by
    intro q hne
    refine ⟨(h.queue q).waiters.signalled hne, ?_, fun w hw => ?_⟩
    · exact (hseated.nodup q).sublist (List.sublist_append_right _ _)
    · cases w with
      | some t => exact hseated.pc q t (List.mem_append_right _ hw)
      | none =>
        have hcount := (h.queue q).waiters.listening
        have hpos := List.count_pos_iff.2 (List.mem_append_right (s.queues q).blocked hw)
        unfold State.CanResume
        by_contra hno
        rw [if_neg hno] at hcount
        omega
  joined := by
    intro q hstage l hl
    rcases (h.queue q).disposal.joinable hstage l hl with hend | hleave | ⟨c, hc, hquit⟩
    · exact .inl hend
    · exact .inr (.inl hleave)
    · refine .inr (.inr ⟨⟨c, hc, hquit⟩, fun hblocked => ?_⟩)
      -- a blocked listener would be the only waiter, and there would be no event
      have hne : (s.queues q).stage ≠ .registered := by rw [hstage]; decide
      have hlen := (h.queue q).waiters.signalled (List.ne_nil_of_mem hblocked)
      have hempty : (s.queues q).woken = [] := by
        refine List.eq_nil_iff_forall_not_mem.2 fun w hw => ?_
        obtain rfl := (h.queue q).waiters.eq_none hne (List.mem_append_right _ hw)
        obtain ⟨-, -, hdisjoint⟩ := List.nodup_append.1 (hseated.nodup q)
        exact hdisjoint _ hblocked _ hw rfl
      rw [hempty, List.length_nil, Nat.le_zero, List.length_eq_zero_iff] at hlen
      rw [hlen] at hc
      cases hc

/-- In every interleaving in which no consumer takes an event from a queue whose listener is joined, events
are delivered as promised. -/
theorem run_delivers {as : List (Action τ)} (hok : Guarded step Admissible State.initial as)
    (hrun : run step State.initial as = some s) : Delivers s := by
  have hstep : ∀ s a s', Inv s ∧ Seated s → Admissible s a → step s a = some s' →
      Inv s' ∧ Seated (s' : State τ) := fun s a s' h hok hstep =>
    ⟨inv_step h.1 hok hstep, seated_step h.2 h.1 hstep⟩
  obtain ⟨hinv, hseated⟩ :=
    Runs.guarded_invariant hstep ⟨inv_initial, seated_initial⟩ hok hrun
  exact hinv.delivers hseated

/-! ## Two interleavings -/

/-- Two queues, one with a listener, which is waiting when an event is sent, and is joined. -/
def interleaving : List (Action ℕ) :=
  [.newQueue 0, .newQueue 1, .createListener 0 0, .listenerWait 0, .wait 1 1,
    .sendLock 2 { type := 4, data := some [1, 2], data_length := 2 },
    .sendPut 2 (some none), .sendPut 2 (some (some 1)), .listenerResume 0, .sendUnlock 2,
    .dispose 0 0, .resume 1 1, .listenerFree 0, .disposeQuit 0 none,
    .free 1 { serial := 0, event := { type := 4, data := some [1, 2], data_length := 2 } },
    .listenerWait 0, .listenerFree 0, .disposeJoin 0, .disposeDrain 0]

theorem run_delivers_interleaving :
    ∃ s, run step State.initial interleaving = some s ∧ Delivers s := by
  obtain ⟨s, hrun⟩ : ∃ s, run step State.initial interleaving = some s :=
    Option.isSome_iff_exists.1 (by decide)
  exact ⟨s, hrun, run_delivers (by decide) hrun⟩

/-- A consumer takes the quit event from a listener, which then waits for ever, as does the disposal. -/
theorem run_not_delivers :
    ∃ s, run step (State.initial : State ℕ) [.newQueue 0, .createListener 0 0, .dispose 0 0,
        .disposeQuit 0 none, .get 1 0, .listenerWait 0] = some s ∧
      s.pc 0 = .disposing 0 ∧ ¬Delivers s := by
  have hdecide : (run step (State.initial : State ℕ) [.newQueue 0, .createListener 0 0, .dispose 0 0,
      .disposeQuit 0 none, .get 1 0, .listenerWait 0]).any (fun s =>
        decide (s.pc 0 = .disposing 0 ∧ (s.queues 0).stage = .joining ∧
          (s.queues 0).listener = some .waiting ∧ none ∈ (s.queues 0).blocked)) = true := by
    decide
  obtain ⟨s, hrun, hs⟩ := (Option.any_eq_true _ _).1 hdecide
  obtain ⟨hpc, hstage, hlistener, hblocked⟩ := of_decide_eq_true hs
  refine ⟨s, hrun, hpc, fun h => ?_⟩
  rcases h.joined 0 hstage _ hlistener with hend | ⟨c, hend⟩ | ⟨-, hno⟩
  · cases hend
  · cases hend
  · exact hno hblocked

end Xine.Event
