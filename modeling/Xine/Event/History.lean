import Mathlib.Data.List.Perm.Basic
import Mathlib.Data.List.Nodup
import Xine.Event.System

/-!
# What a queue keeps

The invariant `EventQueue.Ok` of one queue, in three parts. Each section of the functions keeps them.
-/

namespace Xine.Event

open scoped List

variable {τ : Type*}

theorem move_perm {α : Type*} [BEq α] [LawfulBEq α] {x : α} {xs ys : List α} (hx : x ∈ xs) :
    xs.erase x ++ (ys ++ [x]) ~ xs ++ ys := by
  have hback : xs.erase x ++ (ys ++ [x]) ~ x :: xs.erase x ++ ys := by
    rw [← List.append_assoc]
    exact List.perm_append_singleton _ _
  exact hback.trans ((List.perm_cons_erase hx).symm.append_right _)

namespace EventQueue

/-- Where the events are that were taken out. -/
def owners (queue : EventQueue τ) : List Cell := queue.held ++ queue.inListener ++ queue.freed

structure History (serial : ℕ) (queue : EventQueue τ) : Prop where
  fifo : queue.put = queue.took ++ queue.events.contents
  owners : queue.took ~ queue.owners
  sorted : queue.put.Pairwise fun c c' => c.serial < c'.serial
  before : ∀ c ∈ queue.put, c.serial < serial

variable {serial serial' : ℕ} {queue queue' : EventQueue τ} {c : Cell} {cs : List Cell} {t : τ}

/-! ## Sections on the history -/

theorem History.take (h : queue.History serial) (hcons : queue.events.contents = c :: cs)
    (hput : queue'.put = queue.put) (htook : queue'.took = queue.took ++ [c])
    (hevents : queue'.events.contents = cs) (howners : queue'.owners ~ c :: queue.owners) :
    queue'.History serial where
  fifo := by rw [hput, htook, hevents, h.fifo, hcons, List.append_assoc, List.singleton_append]
  owners := by
    rw [htook]
    exact ((List.perm_append_singleton _ _).trans (h.owners.cons c)).trans howners.symm
  sorted := by rw [hput]; exact h.sorted
  before := by rw [hput]; exact h.before

theorem History.move (h : queue.History serial) (hput : queue'.put = queue.put)
    (htook : queue'.took = queue.took) (hevents : queue'.events.contents = queue.events.contents)
    (howners : queue'.owners ~ queue.owners) : queue'.History serial where
  fifo := by rw [hput, htook, hevents, h.fifo]
  owners := by rw [htook]; exact h.owners.trans howners.symm
  sorted := by rw [hput]; exact h.sorted
  before := by rw [hput]; exact h.before

theorem History.append (h : queue.History serial) (hput : queue'.put = queue.put ++ [c])
    (htook : queue'.took = queue.took) (hevents : queue'.events.contents = queue.events.contents ++ [c])
    (howners : queue'.owners = queue.owners) (hlater : ∀ c' ∈ queue.put, c'.serial < c.serial)
    (hlt : c.serial < serial') (hle : serial ≤ serial') : queue'.History serial' where
  fifo := by rw [hput, htook, hevents, h.fifo, List.append_assoc]
  owners := by rw [htook, howners]; exact h.owners
  sorted := by
    rw [hput, List.pairwise_append]
    refine ⟨h.sorted, List.pairwise_singleton _ _, ?_⟩
    intro c' hc' c'' hc''
    obtain rfl := List.mem_singleton.1 hc''
    exact hlater c' hc'
  before := by
    intro c' hc'
    rw [hput, List.mem_append, List.mem_singleton] at hc'
    rcases hc' with hc' | rfl
    · exact Nat.lt_of_lt_of_le (h.before c' hc') hle
    · exact hlt

/-! ## The invariant -/

/-- A listener that is joined has a quit event to take, or has taken one. -/
def Joinable (queue : EventQueue τ) : Prop :=
  ∀ l, queue.listener = some l →
    l = .ended ∨ (∃ c, l = .leaving c) ∨ ∃ c ∈ queue.events.contents, c.IsQuit

/-- Behind the removal from the list only the quit event of the disposal is put in. -/
def Closed (queue : EventQueue τ) : Prop :=
  match queue.stage with
  | .registered => True
  | .quitting => queue.put = queue.at_removal
  | _ => ∃ serial, queue.put = queue.at_removal ++ [{ serial := serial, event := qevent }]

structure Disposal (queue : EventQueue τ) : Prop where
  closed : queue.Closed
  joinable : queue.stage = .joining → queue.Joinable
  joined : queue.stage = .draining ∨ queue.stage = .gone →
    queue.listener = none ∨ queue.listener = some .ended
  empty : queue.stage = .gone → queue.events.contents = []

theorem Disposal.congr (h : queue.Disposal) (hput : queue'.put = queue.put)
    (hremoval : queue'.at_removal = queue.at_removal) (hstage : queue'.stage = queue.stage)
    (hjoinable : queue.stage = .joining → queue'.Joinable)
    (hjoined : queue.stage = .draining ∨ queue.stage = .gone →
      queue'.listener = none ∨ queue'.listener = some .ended)
    (hempty : queue.stage = .gone → queue'.events.contents = []) : queue'.Disposal where
  closed := by
    have hclosed := h.closed
    unfold Closed at hclosed ⊢
    rw [hstage, hput, hremoval]
    exact hclosed
  joinable := by rw [hstage]; exact hjoinable
  joined := by rw [hstage]; exact hjoined
  empty := by rw [hstage]; exact hempty

theorem disposal_of_registered (hstage : queue.stage = .registered) : queue.Disposal where
  closed := by unfold Closed; rw [hstage]; trivial
  joinable := fun h => by rw [hstage] at h; cases h
  joined := fun h => by rw [hstage] at h; rcases h with h | h <;> cases h
  empty := fun h => by rw [hstage] at h; cases h

/-- Two queues with the same events and the same place in the list. -/
structure Alike (queue queue' : EventQueue τ) : Prop where
  put : queue'.put = queue.put
  stage : queue'.stage = queue.stage

theorem joinable_of_none (h : queue.listener = none) : queue.Joinable := fun l hl => by
  rw [h] at hl
  cases hl

variable [DecidableEq τ]

structure Waiters (queue : EventQueue τ) : Prop where
  signalled : queue.blocked ≠ [] → queue.events.contents.length ≤ queue.woken.length
  listening : (queue.blocked ++ queue.woken).count none = if queue.listener = some .waiting then 1 else 0
  quiet : queue.stage ≠ .registered → ∀ t, some t ∉ queue.blocked ++ queue.woken

/-- The invariant of a queue. The serial is that of the next send. -/
structure Ok (serial : ℕ) (queue : EventQueue τ) : Prop where
  history : queue.History serial
  waiters : queue.Waiters
  disposal : queue.Disposal

theorem ok_new : (new : EventQueue τ).Ok serial where
  history := ⟨rfl, .refl _, List.Pairwise.nil, fun _ hc => by cases hc⟩
  waiters := ⟨fun h => absurd rfl h, rfl, fun h => absurd rfl h⟩
  disposal := ⟨trivial, fun h => (by cases h), fun h => (by rcases h with h | h <;> cases h),
    fun h => (by cases h)⟩

theorem Ok.mono (h : queue.Ok serial) (hle : serial ≤ serial') : queue.Ok serial' :=
  { h with history := { h.history with before := fun c hc => Nat.lt_of_lt_of_le (h.history.before c hc) hle } }

theorem Waiters.eq_none (h : queue.Waiters) (hstage : queue.stage ≠ .registered) {w : Option τ}
    (hw : w ∈ queue.blocked ++ queue.woken) : w = none := by
  cases w with
  | none => rfl
  | some t => exact absurd hw (h.quiet hstage t)

/-! ## Putting in -/

theorem append_cases {waiter : Option (Option τ)} (h : queue.append c waiter = some queue') :
    ∃ blocked woken,
      queue' = { queue with
        events := queue.events.appendContent c
        put := queue.put ++ [c]
        blocked := blocked
        woken := woken } ∧
      blocked ++ woken ~ queue.blocked ++ queue.woken ∧
      (blocked ≠ [] → queue.blocked ≠ [] ∧ woken.length = queue.woken.length + 1) := by
  unfold append signal at h
  cases waiter with
  | none =>
    dsimp only at h
    split at h
    · rename_i hnil
      cases h
      exact ⟨queue.blocked, queue.woken, rfl, .refl _, fun hne => absurd hnil hne⟩
    · cases h
  | some w =>
    dsimp only at h
    split at h
    · rename_i hw
      cases h
      refine ⟨queue.blocked.erase w, queue.woken ++ [w], rfl, move_perm hw, fun _ => ?_⟩
      exact ⟨List.ne_nil_of_mem hw, by rw [List.length_append, List.length_singleton]⟩
    · cases h

theorem Waiters.append {waiter : Option (Option τ)} {stage : Stage} (h : queue.Waiters)
    (happend : queue.append c waiter = some queue')
    (hstage : stage ≠ .registered → queue.stage ≠ .registered) :
    ({ queue' with stage := stage } : EventQueue τ).Waiters := by
  obtain ⟨blocked, woken, rfl, hperm, hwoken⟩ := append_cases happend
  constructor
  · intro hne
    obtain ⟨hblocked, hlen⟩ := hwoken hne
    have := h.signalled hblocked
    rw [XineList.contents_appendContent, List.length_append, List.length_singleton]
    dsimp only
    omega
  · rw [← h.listening]
    exact hperm.count_eq none
  · intro hno t ht
    exact h.quiet (hstage hno) t (hperm.subset ht)

theorem Ok.append {waiter : Option (Option τ)} (h : queue.Ok serial)
    (happend : queue.append c waiter = some queue') (hstage : queue.stage = .registered)
    (hlater : ∀ c' ∈ queue.put, c'.serial < c.serial) (hlt : c.serial < serial) : queue'.Ok serial := by
  have hwaiters : ({ queue' with stage := queue.stage } : EventQueue τ).Waiters :=
    h.waiters.append happend id
  obtain ⟨blocked, woken, rfl, -, -⟩ := append_cases happend
  refine ⟨h.history.append rfl rfl rfl rfl hlater hlt (Nat.le_refl _), hwaiters, ?_⟩
  constructor
  · unfold Closed
    dsimp only
    rw [hstage]
    trivial
  · intro hjoin
    dsimp only at hjoin
    rw [hstage] at hjoin
    cases hjoin
  · intro hend
    dsimp only at hend
    rw [hstage] at hend
    rcases hend with hend | hend <;> cases hend
  · intro hgone
    dsimp only at hgone
    rw [hstage] at hgone
    cases hgone

theorem Ok.quit {waiter : Option (Option τ)} (h : queue.Ok serial)
    (happend : queue.append { serial := serial, event := qevent } waiter = some queue')
    (hstage : queue.stage = .quitting) :
    ({ queue' with stage := .joining } : EventQueue τ).Ok (serial + 1) := by
  have hne : queue.stage ≠ .registered := by rw [hstage]; decide
  have hwaiters : ({ queue' with stage := .joining } : EventQueue τ).Waiters :=
    h.waiters.append happend fun _ => hne
  have hclosed : queue.put = queue.at_removal := by
    have := h.disposal.closed
    unfold Closed at this
    rwa [hstage] at this
  obtain ⟨blocked, woken, rfl, -, -⟩ := append_cases happend
  refine ⟨h.history.append rfl rfl rfl rfl h.history.before (Nat.lt_succ_self _) (Nat.le_succ _),
    hwaiters, ?_⟩
  constructor
  · exact ⟨serial, by rw [hclosed]⟩
  · intro _ l _
    exact .inr (.inr ⟨_, List.mem_append_right _ List.mem_cons_self, rfl⟩)
  · rintro (hend | hend) <;> cases hend
  · intro hgone
    cases hgone

/-! ## Taking out -/

theorem Ok.getSection (h : queue.Ok serial) (hget : queue.getSection t = some queue')
    (hjoin : queue.stage = .joining → queue.listener = none) : queue'.Ok serial ∧ Alike queue queue' := by
  unfold EventQueue.getSection at hget
  cases hcontents : queue.events.contents with
  | nil =>
    rw [takeFirst_nil hcontents] at hget
    cases hget
    refine ⟨⟨?_, ?_, ?_⟩, rfl, rfl⟩
    · exact h.history.move rfl rfl hcontents.symm (.refl _)
    · exact ⟨fun _ => Nat.zero_le _, h.waiters.listening, h.waiters.quiet⟩
    · exact h.disposal.congr rfl rfl rfl (fun hstage => joinable_of_none (hjoin hstage))
        h.disposal.joined fun _ => rfl
  | cons c cs =>
    obtain ⟨events, hevents, htake⟩ := takeFirst_cons hcontents
    rw [htake] at hget
    cases hget
    refine ⟨⟨?_, ?_, ?_⟩, rfl, rfl⟩
    · refine h.history.take hcontents rfl rfl hevents ?_
      -- the consumer has the event
      unfold EventQueue.owners inListener receive
      dsimp only
      rw [List.append_assoc, List.append_assoc, List.append_assoc]
      exact List.perm_middle
    · refine ⟨fun hne => ?_, h.waiters.listening, h.waiters.quiet⟩
      have hlen := h.waiters.signalled hne
      rw [hcontents, List.length_cons] at hlen
      have hrest : (receive { queue with events := events, took := queue.took ++ [c] } (some t)
          c).events.contents.length = cs.length := congrArg List.length hevents
      rw [hrest]
      exact Nat.le_of_succ_le hlen
    · refine h.disposal.congr rfl rfl rfl (fun hstage => joinable_of_none (hjoin hstage))
        h.disposal.joined fun hgone => ?_
      rw [h.disposal.empty hgone] at hcontents
      cases hcontents

theorem Ok.waitSection {woken : List (Option τ)} {has : Bool} (h : queue.Ok serial)
    (hstage : queue.stage = .registered) (hlen : queue.woken.length ≤ woken.length + 1)
    (hcount : woken.count none = queue.woken.count none)
    (hwait : ({ queue with woken := woken } : EventQueue τ).waitSection (some t) = some (has, queue')) :
    queue'.Ok serial ∧ Alike queue queue' := by
  unfold EventQueue.waitSection at hwait
  have hlistening : (queue.blocked ++ woken).count none =
      if queue.listener = some .waiting then 1 else 0 := by
    rw [List.count_append, hcount, ← List.count_append]
    exact h.waiters.listening
  cases hcontents : queue.events.contents with
  | nil =>
    have hnil : ({ queue with woken := woken } : EventQueue τ).events.contents = [] := hcontents
    rw [takeFirst_nil hnil] at hwait
    obtain ⟨-, rfl⟩ := Prod.mk.inj (Option.some.inj hwait)
    refine ⟨⟨?_, ⟨fun _ => Nat.zero_le _, ?_, fun hne => absurd hstage hne⟩, ?_⟩, rfl, rfl⟩
    · exact h.history.move rfl rfl hcontents.symm (.refl _)
    · -- the consumer is not the listener
      rw [← hlistening]
      dsimp only
      rw [List.append_assoc, List.count_append, List.count_append, List.count_append,
        List.count_singleton, if_neg (by simp), Nat.zero_add]
    · exact disposal_of_registered hstage
  | cons c cs =>
    have hcons : ({ queue with woken := woken } : EventQueue τ).events.contents = c :: cs := hcontents
    obtain ⟨events, hevents, htake⟩ := takeFirst_cons hcons
    rw [htake] at hwait
    obtain ⟨-, rfl⟩ := Prod.mk.inj (Option.some.inj hwait)
    refine ⟨⟨?_, ⟨fun hne => ?_, hlistening, fun hne => absurd hstage hne⟩, ?_⟩, rfl, rfl⟩
    · refine h.history.take hcontents rfl rfl hevents ?_
      unfold EventQueue.owners inListener receive
      dsimp only
      rw [List.append_assoc, List.append_assoc, List.append_assoc]
      exact List.perm_middle
    · have hbefore := h.waiters.signalled hne
      rw [hcontents, List.length_cons] at hbefore
      unfold receive
      dsimp only
      rw [hevents]
      omega
    · exact disposal_of_registered hstage

theorem Ok.listen {woken : List (Option τ)} {has : Bool} (h : queue.Ok serial)
    (hlistener : queue.listener = some .looping ∨ queue.listener = some .waiting)
    (hlen : queue.woken.length ≤ woken.length + 1) (hcount : (queue.blocked ++ woken).count none = 0)
    (hsub : woken ⊆ queue.woken)
    (hwait : ({ queue with woken := woken } : EventQueue τ).waitSection none = some (has, queue')) :
    (if has then queue' else { queue' with listener := some .waiting }).Ok serial ∧
      Alike queue (if has then queue' else { queue' with listener := some .waiting }) := by
  unfold EventQueue.waitSection at hwait
  have hno : queue.inListener = [] := by
    unfold inListener
    rcases hlistener with hl | hl <;> rw [hl] <;> rfl
  have hquiet : queue.stage ≠ .registered → ∀ t, some t ∉ queue.blocked ++ woken := by
    intro hne t ht
    refine h.waiters.quiet hne t ?_
    rcases List.mem_append.1 ht with ht | ht
    · exact List.mem_append_left _ ht
    · exact List.mem_append_right _ (hsub ht)
  have hjoined : ¬(queue.stage = .draining ∨ queue.stage = .gone) := by
    intro hend
    rcases h.disposal.joined hend with hl' | hl' <;> rcases hlistener with hl | hl <;>
      rw [hl] at hl' <;> cases hl'
  have hquit : queue.stage = .joining → ∃ c ∈ queue.events.contents, c.IsQuit := by
    intro hstage
    rcases hlistener with hl | hl <;>
      rcases h.disposal.joinable hstage _ hl with hend | ⟨c, hend⟩ | hquit
    all_goals first | exact hquit | cases hend
  cases hcontents : queue.events.contents with
  | nil =>
    have hnil : ({ queue with woken := woken } : EventQueue τ).events.contents = [] := hcontents
    rw [takeFirst_nil hnil] at hwait
    obtain ⟨rfl, rfl⟩ := Prod.mk.inj (Option.some.inj hwait)
    rw [if_neg Bool.false_ne_true]
    refine ⟨⟨?_, ⟨fun _ => Nat.zero_le _, ?_, ?_⟩, ?_⟩, rfl, rfl⟩
    · refine h.history.move rfl rfl hcontents.symm ?_
      unfold EventQueue.owners
      rw [hno]
      exact .refl _
    · dsimp only
      rw [if_pos rfl, List.append_assoc, List.count_append, List.count_append, List.count_singleton,
        if_pos (by simp)]
      rw [List.count_append] at hcount
      omega
    · intro hne t ht
      dsimp only at ht
      rw [List.append_assoc] at ht
      rcases List.mem_append.1 ht with ht | ht
      · exact hquiet hne t (List.mem_append_left _ ht)
      · rcases List.mem_append.1 ht with ht | ht
        · cases List.mem_singleton.1 ht
        · exact hquiet hne t (List.mem_append_right _ ht)
    · refine h.disposal.congr rfl rfl rfl (fun hstage => ?_) (fun hend => absurd hend hjoined) fun _ => rfl
      obtain ⟨c, hc, -⟩ := hquit hstage
      rw [hcontents] at hc
      cases hc
  | cons c cs =>
    have hcons : ({ queue with woken := woken } : EventQueue τ).events.contents = c :: cs := hcontents
    obtain ⟨events, hevents, htake⟩ := takeFirst_cons hcons
    rw [htake] at hwait
    obtain ⟨rfl, rfl⟩ := Prod.mk.inj (Option.some.inj hwait)
    rw [if_pos rfl]
    have hhas : (if c.IsQuit then ListenerPc.leaving c else .calling c).has = [c] := by
      split_ifs <;> rfl
    refine ⟨⟨?_, ⟨fun hne => ?_, ?_, hquiet⟩, ?_⟩, rfl, rfl⟩
    · refine h.history.take hcontents rfl rfl hevents ?_
      unfold EventQueue.owners
      rw [hno]
      unfold inListener receive
      dsimp only [Option.elim]
      rw [hhas, List.append_nil, List.append_assoc, List.singleton_append]
      exact List.perm_middle
    · have hbefore := h.waiters.signalled hne
      rw [hcontents, List.length_cons] at hbefore
      unfold receive
      dsimp only
      rw [hevents]
      omega
    · unfold receive
      dsimp only
      rw [hcount, if_neg]
      split_ifs <;> exact fun heq => by cases heq
    · refine h.disposal.congr rfl rfl rfl (fun hstage l hl => ?_) (fun hend => absurd hend hjoined)
        fun hgone => absurd (.inr hgone) hjoined
      -- the listener takes the quit event, or it is behind the event that it takes
      cases hl
      obtain ⟨c', hc', hquit'⟩ := hquit hstage
      by_cases hc : c.IsQuit
      · rw [if_pos hc]
        exact .inr (.inl ⟨c, rfl⟩)
      · refine .inr (.inr ⟨c', ?_, hquit'⟩)
        rw [hcontents, List.mem_cons] at hc'
        rcases hc' with rfl | hc'
        · exact absurd hquit' hc
        · unfold receive
          dsimp only
          rwa [hevents]

/-! ## The other sections -/

theorem Ok.wake {w : Option τ} (h : queue.Ok serial) (hwake : queue.wake w = some queue') :
    queue'.Ok serial ∧ Alike queue queue' := by
  unfold EventQueue.wake at hwake
  split at hwake
  · rename_i hw
    cases hwake
    have hperm : queue.blocked.erase w ++ (queue.woken ++ [w]) ~ queue.blocked ++ queue.woken :=
      move_perm hw
    refine ⟨⟨h.history.move rfl rfl rfl (.refl _), ⟨fun _ => ?_, ?_, fun hne t ht => ?_⟩, ?_⟩, rfl, rfl⟩
    · have := h.waiters.signalled (List.ne_nil_of_mem hw)
      dsimp only
      rw [List.length_append, List.length_singleton]
      omega
    · rw [← h.waiters.listening]
      exact hperm.count_eq none
    · exact h.waiters.quiet hne t (hperm.subset ht)
    · exact h.disposal.congr rfl rfl rfl h.disposal.joinable h.disposal.joined h.disposal.empty
  · cases hwake

theorem Ok.free (h : queue.Ok serial) (hc : c ∈ queue.held) :
    ({ queue with held := queue.held.erase c, freed := queue.freed ++ [c] } : EventQueue τ).Ok serial := by
  refine ⟨h.history.move rfl rfl rfl ?_, ⟨h.waiters.signalled, h.waiters.listening, h.waiters.quiet⟩,
    h.disposal.congr rfl rfl rfl h.disposal.joinable h.disposal.joined h.disposal.empty⟩
  unfold EventQueue.owners inListener
  dsimp only
  calc queue.held.erase c ++ queue.listener.elim [] ListenerPc.has ++ (queue.freed ++ [c])
      ~ queue.listener.elim [] ListenerPc.has ++ queue.held.erase c ++ (queue.freed ++ [c]) :=
        List.perm_append_comm.append_right _
    _ = queue.listener.elim [] ListenerPc.has ++ (queue.held.erase c ++ (queue.freed ++ [c])) :=
        List.append_assoc _ _ _
    _ ~ queue.listener.elim [] ListenerPc.has ++ (queue.held ++ queue.freed) :=
        (move_perm hc).append_left _
    _ = queue.listener.elim [] ListenerPc.has ++ queue.held ++ queue.freed :=
        (List.append_assoc _ _ _).symm
    _ ~ queue.held ++ queue.listener.elim [] ListenerPc.has ++ queue.freed :=
        List.perm_append_comm.append_right _

theorem Ok.createListener (h : queue.Ok serial) (hstage : queue.stage = .registered)
    (hlistener : queue.listener = none) :
    ({ queue with listener := some .looping } : EventQueue τ).Ok serial := by
  have hlistening := h.waiters.listening
  rw [hlistener, if_neg (by simp)] at hlistening
  refine ⟨h.history.move rfl rfl rfl ?_, ⟨h.waiters.signalled, ?_, h.waiters.quiet⟩,
    disposal_of_registered hstage⟩
  · unfold EventQueue.owners inListener
    rw [hlistener]
    exact .refl _
  · exact hlistening

theorem Ok.listenerFree {l l' : ListenerPc} (h : queue.Ok serial) (hlistener : queue.listener = some l)
    (hl : l = .calling c ∧ l' = .looping ∨ l = .leaving c ∧ l' = .ended) :
    ({ queue with listener := some l', freed := queue.freed ++ [c] } : EventQueue τ).Ok serial := by
  have hhas : l.has = [c] ∧ l'.has = [] ∧ l ≠ .waiting ∧ l' ≠ .waiting ∧ l ≠ .ended := by
    rcases hl with ⟨rfl, rfl⟩ | ⟨rfl, rfl⟩
    · exact ⟨rfl, rfl, by simp, by simp, by simp⟩
    · exact ⟨rfl, rfl, by simp, by simp, by simp⟩
  obtain ⟨hhas, hhas', hwait, hwait', hend⟩ := hhas
  have hlistening := h.waiters.listening
  rw [hlistener, if_neg fun heq => hwait (Option.some.inj heq)] at hlistening
  refine ⟨h.history.move rfl rfl rfl ?_, ⟨h.waiters.signalled, ?_, h.waiters.quiet⟩, ?_⟩
  · unfold EventQueue.owners inListener
    rw [hlistener]
    dsimp only [Option.elim]
    rw [hhas, hhas', List.append_nil, List.append_assoc, List.singleton_append]
    exact (List.perm_append_comm.append_left _)
  · rw [if_neg fun heq => hwait' (Option.some.inj heq)]
    exact hlistening
  · refine h.disposal.congr rfl rfl rfl (fun hstage l'' hl'' => ?_) (fun hstage => ?_) h.disposal.empty
    · cases hl''
      rcases hl with ⟨rfl, rfl⟩ | ⟨rfl, rfl⟩
      · -- it goes on, and the quit event is still to come
        rcases h.disposal.joinable hstage _ hlistener with heq | ⟨c', heq⟩ | hquit
        · cases heq
        · cases heq
        · exact .inr (.inr hquit)
      · exact .inl rfl
    · rcases h.disposal.joined hstage with hl' | hl'
      · rw [hlistener] at hl'
        cases hl'
      · rw [hlistener] at hl'
        exact absurd (Option.some.inj hl') hend

theorem Ok.dispose (h : queue.Ok serial) (hquiet : ∀ w ∈ queue.blocked ++ queue.woken, w = none) :
    ({ queue with stage := .quitting, at_removal := queue.put } : EventQueue τ).Ok serial := by
  refine ⟨h.history.move rfl rfl rfl (.refl _), ⟨h.waiters.signalled, h.waiters.listening, ?_⟩, ?_⟩
  · intro _ t ht
    cases hquiet _ ht
  · exact ⟨rfl, fun hs => (by cases hs), fun hs => (by rcases hs with hs | hs <;> cases hs),
      fun hs => (by cases hs)⟩

theorem Ok.join (h : queue.Ok serial) (hstage : queue.stage = .joining)
    (hlistener : queue.listener = none ∨ queue.listener = some .ended) :
    ({ queue with stage := .draining } : EventQueue τ).Ok serial := by
  have hclosed := h.disposal.closed
  unfold Closed at hclosed
  rw [hstage] at hclosed
  refine ⟨h.history.move rfl rfl rfl (.refl _), ⟨h.waiters.signalled, h.waiters.listening, ?_⟩, ?_⟩
  · exact fun _ => h.waiters.quiet (by rw [hstage]; decide)
  · exact ⟨hclosed, fun hs => (by cases hs), fun _ => hlistener, fun hs => (by cases hs)⟩

theorem Ok.drain (h : queue.Ok serial) (hstage : queue.stage = .draining)
    (hdrain : queue.drain = some queue') :
    queue'.Ok serial ∧ queue'.put = queue.put ∧ queue'.stage ≠ .registered := by
  unfold EventQueue.drain at hdrain
  cases hcontents : queue.events.contents with
  | nil =>
    rw [takeFirst_nil hcontents] at hdrain
    cases hdrain
    have hclosed := h.disposal.closed
    unfold Closed at hclosed
    rw [hstage] at hclosed
    refine ⟨⟨?_, ⟨fun _ => Nat.zero_le _, h.waiters.listening, ?_⟩, ?_⟩, rfl, by simp⟩
    · exact h.history.move rfl rfl hcontents.symm (.refl _)
    · exact fun _ => h.waiters.quiet (by rw [hstage]; decide)
    · exact ⟨hclosed, fun hs => (by cases hs), fun _ => h.disposal.joined (.inl hstage), fun _ => rfl⟩
  | cons c cs =>
    obtain ⟨events, hevents, htake⟩ := takeFirst_cons hcontents
    rw [htake] at hdrain
    cases hdrain
    refine ⟨⟨?_, ⟨fun hne => ?_, h.waiters.listening, h.waiters.quiet⟩, ?_⟩, rfl, by simp [hstage]⟩
    · refine h.history.take hcontents rfl rfl hevents ?_
      unfold EventQueue.owners inListener
      dsimp only
      rw [← List.append_assoc]
      exact List.perm_append_singleton _ _
    · have hbefore := h.waiters.signalled hne
      rw [hcontents, List.length_cons] at hbefore
      dsimp only
      rw [hevents]
      omega
    · refine h.disposal.congr rfl rfl rfl (fun hs => ?_) h.disposal.joined fun hs => ?_
      · rw [hstage] at hs
        cases hs
      · rw [hstage] at hs
        cases hs

end EventQueue

end Xine.Event
