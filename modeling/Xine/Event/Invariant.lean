import Xine.Event.History

/-!
# The invariant of the threads

`Inv` adds to the invariants of the queues what holds between them: the list has the queues whose disposal has
not begun, a finished send has given each queue that was in the list one copy, and the send that holds the
lock has given one to the queues in front of its place in the list. The conditions `Admissible` on a step leave
out only a consumer that takes an event from a queue while the listener of this queue is joined.
-/

namespace Xine.Event

variable {τ : Type*}

/-- The queues that were given a copy of the event of a send have one, and the others none. -/
def State.Delivered (s : State τ) (r : Sent) : Prop :=
  ∀ q, ((s.queues q).put.filter fun c => c.serial = r.serial) = if q ∈ r.given then [r.cell] else []

theorem State.Delivered.congr {s s' : State τ} {r : Sent} (h : s.Delivered r)
    (hput : ∀ q, (s'.queues q).put = (s.queues q).put) : s'.Delivered r := by
  intro q
  rw [hput q]
  exact h q

theorem filter_append_other {cs : List Cell} {c : Cell} {serial : ℕ} (hne : c.serial ≠ serial) :
    ((cs ++ [c]).filter fun c => c.serial = serial) = cs.filter fun c => c.serial = serial := by
  rw [List.filter_append, List.filter_cons_of_neg (by simpa using hne), List.filter_nil, List.append_nil]

theorem filter_cell (r : Sent) : [r.cell].filter (fun c => c.serial = r.serial) = [r.cell] := by
  simp [Sent.cell]

theorem State.Delivered.append {s s' : State τ} {q : ℕ} {queue : EventQueue τ} {r : Sent} {c : Cell}
    (h : s.Delivered r) (hne : c.serial ≠ r.serial) (hput : queue.put = (s.queues q).put ++ [c])
    (hqueues : s'.queues = Function.update s.queues q queue) : s'.Delivered r := by
  intro q'
  rw [hqueues]
  by_cases hq : q' = q
  · subst hq
    rw [Function.update_self, hput, filter_append_other hne]
    exact h q'
  · rw [Function.update_of_ne hq]
    exact h q'

/-- The send that holds the lock is at its place in the list. -/
structure State.Walking (s : State τ) (r : Sent) (queue : Option ℕ) : Prop where
  queues : r.queues = s.event_queues.contents
  serial : r.serial < s.serial
  given : r.given = s.event_queues.contents.take r.given.length
  next : s.event_queues.contents[r.given.length]? = queue
  cur : queue ≠ none → s.event_queues.cur = some r.given.length
  delivered : s.Delivered r
  later : ∀ r' ∈ s.sends, r'.serial < r.serial
  earlier : ∀ q ∈ s.event_queues.contents, q ∉ r.given → ∀ c ∈ (s.queues q).put, c.serial < r.serial

variable [DecidableEq τ]

structure Inv (s : State τ) : Prop where
  queue : ∀ q, (s.queues q).Ok s.serial
  nodup : s.event_queues.contents.Nodup
  registered : ∀ q, q ∈ s.event_queues.contents ↔ s.Registered q
  fresh : ∀ q, s.num_queues ≤ q → s.queues q = EventQueue.new
  finished : ∀ r ∈ s.sends,
    r.given = r.queues ∧ r.queues.Nodup ∧ r.serial < s.serial ∧ s.Delivered r
  locked : ∀ t r queue, s.pc t = .sending r queue → s.event_queues_lock = some t
  walking : ∀ t r queue, s.pc t = .sending r queue → s.Walking r queue

/-- A step that the promise about a listener that is joined needs: no consumer takes an event from its queue.
-/
def Admissible (s : State τ) : Action τ → Prop
  | .get _ q => ¬((s.queues q).stage = .joining ∧ (s.queues q).listener ≠ none)
  | _ => True

instance (s : State τ) : DecidablePred (Admissible s)
  | .get _ _ => inferInstanceAs (Decidable (¬_))
  | .newQueue _ | .sendLock _ _ | .sendPut _ _ | .sendUnlock _ | .wait _ _ | .wake _ _ | .resume _ _
  | .free _ _ | .createListener _ _ | .listenerWait _ | .listenerResume _ | .listenerFree _
  | .dispose _ _ | .disposeQuit _ _ | .disposeJoin _ | .disposeDrain _ => inferInstanceAs (Decidable True)

theorem inv_initial : Inv (State.initial : State τ) where
  queue := fun _ => EventQueue.ok_new
  nodup := List.nodup_nil
  registered := fun q => ⟨fun h => (by cases h), fun h => absurd h.1 (Nat.not_lt_zero q)⟩
  fresh := fun _ _ => rfl
  finished := fun r hr => by cases hr
  locked := fun t r queue h => by cases h
  walking := fun t r queue h => by cases h

variable {s s' : State τ} {q : ℕ} {t : τ} {queue : EventQueue τ}

/-! ## Steps on one queue -/

theorem Inv.local (h : Inv s) (hlive : q < s.num_queues) (hok : queue.Ok s.serial)
    (hput : queue.put = (s.queues q).put)
    (hstage : queue.stage = .registered ↔ (s.queues q).stage = .registered) {pc : τ → Pc}
    (hpc : ∀ t r o, pc t = .sending r o → s.pc t = .sending r o) :
    Inv { s with queues := Function.update s.queues q queue, pc := pc } := by
  have hputs : ∀ q', (Function.update s.queues q queue q').put = (s.queues q').put := by
    intro q'
    by_cases hq : q' = q
    · subst hq
      rw [Function.update_self, hput]
    · rw [Function.update_of_ne hq]
  constructor
  case queue =>
    intro q'
    dsimp only
    by_cases hq : q' = q
    · subst hq
      rw [Function.update_self]
      exact hok
    · rw [Function.update_of_ne hq]
      exact h.queue q'
  case nodup => exact h.nodup
  case registered =>
    intro q'
    refine (h.registered q').trans ?_
    unfold State.Registered
    dsimp only
    by_cases hq : q' = q
    · subst hq
      rw [Function.update_self, hstage]
    · rw [Function.update_of_ne hq]
  case fresh =>
    intro q' hq'
    have hq : q' ≠ q := by
      rintro rfl
      exact absurd hlive (Nat.not_lt.2 hq')
    dsimp only
    rw [Function.update_of_ne hq]
    exact h.fresh q' hq'
  case finished =>
    intro r hr
    obtain ⟨hgiven, hnodup, hserial, hdelivered⟩ := h.finished r hr
    exact ⟨hgiven, hnodup, hserial, hdelivered.congr hputs⟩
  case locked => exact fun t r o ht => h.locked t r o (hpc t r o ht)
  case walking =>
    intro t r o ht
    have hwalking := h.walking t r o (hpc t r o ht)
    refine { hwalking with delivered := hwalking.delivered.congr hputs, earlier := ?_ }
    intro q' hq' hno c hc
    exact hwalking.earlier q' hq' hno c (by rwa [← hputs q'])

theorem not_sending_update {pc : Pc} (hpc : ∀ r o, pc ≠ .sending r o) (u : τ) (r : Sent) (o : Option ℕ)
    (h : Function.update s.pc t pc u = .sending r o) : s.pc u = .sending r o := by
  by_cases hu : u = t
  · subst hu
    rw [Function.update_self] at h
    exact absurd h (hpc r o)
  · rwa [Function.update_of_ne hu] at h

theorem Inv.made (h : Inv s) (hne : s.queues q ≠ EventQueue.new) : q < s.num_queues := by
  by_contra hlt
  exact hne (h.fresh q (Nat.not_lt.1 hlt))

/-! ## Sends -/

theorem Inv.not_sending (h : Inv s) (hlock : s.event_queues_lock = none) (t : τ) (r : Sent)
    (o : Option ℕ) : s.pc t ≠ .sending r o := by
  intro ht
  rw [h.locked t r o ht] at hlock
  cases hlock

theorem inv_sendLock (h : Inv s) {event : XineEvent} (hlock : s.event_queues_lock = none) :
    Inv { s with
      event_queues := s.event_queues.firstContent.2
      event_queues_lock := some t
      pc := Function.update s.pc t (.sending
        { serial := s.serial, event := event, queues := s.event_queues.contents, given := [] }
        s.event_queues.firstContent.1)
      serial := s.serial + 1 } := by
  have hcontents := XineList.contents_firstContent s.event_queues
  constructor
  case queue => exact fun q => (h.queue q).mono (Nat.le_succ _)
  case nodup =>
    dsimp only
    rw [hcontents]
    exact h.nodup
  case registered =>
    dsimp only
    rw [hcontents]
    exact h.registered
  case fresh => exact h.fresh
  case finished =>
    intro r hr
    obtain ⟨hgiven, hnodup, hserial, hdelivered⟩ := h.finished r hr
    exact ⟨hgiven, hnodup, Nat.lt_succ_of_lt hserial, hdelivered⟩
  case locked =>
    intro u r o hu
    dsimp only at hu
    by_cases hut : u = t
    · rw [hut]
    · rw [Function.update_of_ne hut] at hu
      exact absurd hu (h.not_sending hlock u r o)
  case walking =>
    intro u r o hu
    dsimp only at hu
    by_cases hut : u = t
    · subst hut
      rw [Function.update_self] at hu
      obtain ⟨rfl, rfl⟩ := Pc.sending.inj hu
      constructor
      case queues => exact hcontents.symm
      case serial => exact Nat.lt_succ_self _
      case given => rw [List.length_nil, List.take_zero]
      case next =>
        dsimp only
        rw [hcontents, List.length_nil]
        unfold XineList.firstContent
        cases s.event_queues.contents <;> rfl
      case cur =>
        dsimp only
        unfold XineList.firstContent
        cases s.event_queues.contents with
        | nil => exact fun hne => absurd rfl hne
        | cons x xs => exact fun _ => rfl
      case delivered =>
        -- no event has this serial yet
        intro q
        rw [if_neg List.not_mem_nil, List.filter_eq_nil_iff]
        intro c hc
        have := (h.queue q).history.before c hc
        simp only [decide_eq_true_eq]
        omega
      case later => exact fun r' hr' => (h.finished r' hr').2.2.1
      case earlier => exact fun q _ _ c hc => (h.queue q).history.before c hc
    · rw [Function.update_of_ne hut] at hu
      exact absurd hu (h.not_sending hlock u r o)

theorem inv_sendPut (h : Inv s) {r : Sent} {waiter : Option (Option τ)}
    (hpc : s.pc t = .sending r (some q)) (happend : (s.queues q).append r.cell waiter = some queue) :
    Inv { s with
      event_queues := s.event_queues.nextContent.2
      queues := Function.update s.queues q queue
      pc := Function.update s.pc t
        (.sending { r with given := r.given ++ [q] } s.event_queues.nextContent.1) } := by
  have hcontents := XineList.contents_nextContent s.event_queues
  have hwalk := h.walking t r _ hpc
  obtain ⟨hlt, hget⟩ := List.getElem?_eq_some_iff.1 hwalk.next
  have hmem : q ∈ s.event_queues.contents := hget ▸ List.getElem_mem hlt
  have hregistered := (h.registered q).1 hmem
  have htake : r.given ++ [q] = s.event_queues.contents.take (r.given.length + 1) := by
    rw [List.take_add_one, ← hwalk.given, hwalk.next]
    rfl
  have hnot : q ∉ r.given := by
    have hnodup : (r.given ++ [q]).Nodup := htake ▸ h.nodup.sublist (List.take_sublist _ _)
    exact fun hq => (List.nodup_append.1 hnodup).2.2 q hq q List.mem_cons_self rfl
  have hok : queue.Ok s.serial :=
    (h.queue q).append happend hregistered.2 (hwalk.earlier q hmem hnot) hwalk.serial
  obtain ⟨hput, hstage⟩ : queue.put = (s.queues q).put ++ [r.cell] ∧
      queue.stage = (s.queues q).stage := by
    obtain ⟨blocked, woken, rfl, -, -⟩ := EventQueue.append_cases happend
    exact ⟨rfl, rfl⟩
  constructor
  case queue =>
    intro q'
    dsimp only
    by_cases hq : q' = q
    · subst hq
      rw [Function.update_self]
      exact hok
    · rw [Function.update_of_ne hq]
      exact h.queue q'
  case nodup =>
    dsimp only
    rw [hcontents]
    exact h.nodup
  case registered =>
    intro q'
    dsimp only
    rw [hcontents]
    refine (h.registered q').trans ?_
    unfold State.Registered
    dsimp only
    by_cases hq : q' = q
    · subst hq
      rw [Function.update_self, hstage]
    · rw [Function.update_of_ne hq]
  case fresh =>
    intro q' hq'
    have hq : q' ≠ q := by
      rintro rfl
      exact absurd hregistered.1 (Nat.not_lt.2 hq')
    dsimp only
    rw [Function.update_of_ne hq]
    exact h.fresh q' hq'
  case finished =>
    intro r' hr'
    obtain ⟨hgiven, hnodup, hserial, hdelivered⟩ := h.finished r' hr'
    have hne : r.cell.serial ≠ r'.serial := (Nat.ne_of_lt (hwalk.later r' hr')).symm
    exact ⟨hgiven, hnodup, hserial, hdelivered.append hne hput rfl⟩
  case locked =>
    intro u r' o hu
    dsimp only at hu
    by_cases hut : u = t
    · rw [hut]
      exact h.locked t r _ hpc
    · rw [Function.update_of_ne hut] at hu
      exact h.locked u r' o hu
  case walking =>
    intro u r' o hu
    dsimp only at hu
    by_cases hut : u = t
    · subst hut
      rw [Function.update_self] at hu
      obtain ⟨rfl, rfl⟩ := Pc.sending.inj hu
      have hlen : (r.given ++ [q]).length = r.given.length + 1 := by
        rw [List.length_append, List.length_singleton]
      have hcur := hwalk.cur (by simp)
      constructor
      case queues =>
        dsimp only
        rw [hcontents]
        exact hwalk.queues
      case serial => exact hwalk.serial
      case given =>
        dsimp only
        rw [hcontents, hlen]
        exact htake
      case next =>
        dsimp only
        rw [hcontents, hlen]
        unfold XineList.nextContent
        rw [hcur]
        dsimp only
        split <;> rename_i heq <;> exact heq
      case cur =>
        dsimp only
        rw [hlen]
        unfold XineList.nextContent
        rw [hcur]
        dsimp only
        split
        · exact fun hne => absurd rfl hne
        · exact fun _ => rfl
      case delivered =>
        intro q'
        dsimp only
        by_cases hq : q' = q
        · -- the queue that the copy was put in
          subst hq
          rw [Function.update_self, hput, List.filter_append, hwalk.delivered q', if_neg hnot,
            if_pos (List.mem_append_right _ List.mem_cons_self)]
          rw [List.nil_append, filter_cell]
          rfl
        · rw [Function.update_of_ne hq, hwalk.delivered q']
          have hiff : q' ∈ r.given ++ [q] ↔ q' ∈ r.given := by
            rw [List.mem_append, List.mem_singleton]
            exact or_iff_left hq
          rw [if_congr hiff rfl rfl]
          rfl
      case later => exact hwalk.later
      case earlier =>
        intro q' hq' hno c hc
        dsimp only at hq' hno hc
        rw [hcontents] at hq'
        rw [List.mem_append, List.mem_singleton, not_or] at hno
        rw [Function.update_of_ne hno.2] at hc
        exact hwalk.earlier q' hq' hno.1 c hc
    · -- only one thread sends
      rw [Function.update_of_ne hut] at hu
      have hone := (h.locked u r' o hu).symm.trans (h.locked t r _ hpc)
      exact absurd (Option.some.inj hone) hut

theorem inv_sendUnlock (h : Inv s) {r : Sent} (hpc : s.pc t = .sending r none) :
    Inv { s with
      event_queues_lock := none
      pc := Function.update s.pc t .outside
      sends := s.sends ++ [r] } := by
  have hwalk := h.walking t r _ hpc
  have hall : r.given = s.event_queues.contents := by
    rw [hwalk.given]
    exact List.take_of_length_le (List.getElem?_eq_none_iff.1 hwalk.next)
  have hnobody : ∀ u r' o, Function.update s.pc t Pc.outside u ≠ .sending r' o := by
    intro u r' o hu
    by_cases hut : u = t
    · subst hut
      rw [Function.update_self] at hu
      cases hu
    · rw [Function.update_of_ne hut] at hu
      have hone := (h.locked u r' o hu).symm.trans (h.locked t r _ hpc)
      exact hut (Option.some.inj hone)
  constructor
  case queue => exact h.queue
  case nodup => exact h.nodup
  case registered => exact h.registered
  case fresh => exact h.fresh
  case finished =>
    intro r' hr'
    rcases List.mem_append.1 hr' with hr' | hr'
    · exact h.finished r' hr'
    · obtain rfl := List.mem_singleton.1 hr'
      refine ⟨hall.trans hwalk.queues.symm, ?_, hwalk.serial, hwalk.delivered⟩
      rw [hwalk.queues]
      exact h.nodup
  case locked => exact fun u r' o hu => absurd hu (hnobody u r' o)
  case walking => exact fun u r' o hu => absurd hu (hnobody u r' o)

/-! ## Registering and disposing -/

theorem inv_newQueue (h : Inv s) (hlock : s.event_queues_lock = none) :
    Inv { s with
      event_queues := s.event_queues.appendContent s.num_queues
      queues := Function.update s.queues s.num_queues EventQueue.new
      num_queues := s.num_queues + 1 } := by
  have hsame : Function.update s.queues s.num_queues EventQueue.new = s.queues := by
    rw [← h.fresh s.num_queues (Nat.le_refl _), Function.update_eq_self]
  have hstage : (s.queues s.num_queues).stage = .registered := by
    rw [h.fresh s.num_queues (Nat.le_refl _)]
    rfl
  rw [hsame]
  constructor
  case queue => exact h.queue
  case nodup =>
    refine List.Nodup.append h.nodup (List.nodup_singleton _) ?_
    intro q hq hone
    obtain rfl := List.mem_singleton.1 hone
    exact absurd ((h.registered _).1 hq).1 (Nat.lt_irrefl _)
  case registered =>
    intro q
    rw [XineList.contents_appendContent, List.mem_append, List.mem_singleton, h.registered q]
    unfold State.Registered
    dsimp only
    constructor
    · rintro (⟨hlt, hreg⟩ | rfl)
      · exact ⟨Nat.lt_succ_of_lt hlt, hreg⟩
      · exact ⟨Nat.lt_succ_self _, hstage⟩
    · rintro ⟨hlt, hreg⟩
      rcases Nat.lt_succ_iff_lt_or_eq.1 hlt with hlt | rfl
      · exact .inl ⟨hlt, hreg⟩
      · exact .inr rfl
  case fresh => exact fun q hq => h.fresh q (Nat.le_of_succ_le hq)
  case finished => exact h.finished
  case locked => exact h.locked
  case walking => exact fun t r o ht => absurd ht (h.not_sending hlock t r o)

theorem inv_dispose (h : Inv s) {l : XineList ℕ} (hlock : s.event_queues_lock = none)
    (hlive : q < s.num_queues) (hok : queue.Ok s.serial) (hput : queue.put = (s.queues q).put)
    (hstage : queue.stage ≠ .registered) (hl : l.contents = s.event_queues.contents.erase q) :
    Inv { s with
      event_queues := l
      queues := Function.update s.queues q queue
      pc := Function.update s.pc t (.disposing q) } := by
  have hnobody : ∀ u r o, Function.update s.pc t (Pc.disposing q) u ≠ .sending r o := fun u r o hu =>
    h.not_sending hlock u r o (not_sending_update (by simp) u r o hu)
  constructor
  case queue =>
    intro q'
    dsimp only
    by_cases hq : q' = q
    · subst hq
      rw [Function.update_self]
      exact hok
    · rw [Function.update_of_ne hq]
      exact h.queue q'
  case nodup =>
    dsimp only
    rw [hl]
    exact h.nodup.erase q
  case registered =>
    intro q'
    dsimp only
    rw [hl, h.nodup.mem_erase_iff, h.registered q']
    unfold State.Registered
    dsimp only
    by_cases hq : q' = q
    · subst hq
      rw [Function.update_self]
      exact ⟨fun hreg => absurd rfl hreg.1, fun hreg => absurd hreg.2 hstage⟩
    · rw [Function.update_of_ne hq]
      exact ⟨fun hreg => hreg.2, fun hreg => ⟨hq, hreg⟩⟩
  case fresh =>
    intro q' hq'
    have hq : q' ≠ q := by
      rintro rfl
      exact absurd hlive (Nat.not_lt.2 hq')
    dsimp only
    rw [Function.update_of_ne hq]
    exact h.fresh q' hq'
  case finished =>
    intro r hr
    obtain ⟨hgiven, hnodup, hserial, hdelivered⟩ := h.finished r hr
    refine ⟨hgiven, hnodup, hserial, hdelivered.congr fun q' => ?_⟩
    dsimp only
    by_cases hq : q' = q
    · subst hq
      rw [Function.update_self, hput]
    · rw [Function.update_of_ne hq]
  case locked => exact fun u r o hu => absurd hu (hnobody u r o)
  case walking => exact fun u r o hu => absurd hu (hnobody u r o)

theorem inv_disposeQuit (h : Inv s) {c : Cell} (hstage : (s.queues q).stage ≠ .registered)
    (hok : queue.Ok (s.serial + 1)) (hput : queue.put = (s.queues q).put ++ [c])
    (hc : c.serial = s.serial) (hstage' : queue.stage ≠ .registered) :
    Inv { s.put q queue with serial := s.serial + 1 } := by
  have hlive : q < s.num_queues := h.made fun hnew => hstage (by rw [hnew]; rfl)
  have hnot : q ∉ s.event_queues.contents := fun hq => hstage ((h.registered q).1 hq).2
  unfold State.put
  constructor
  case queue =>
    intro q'
    dsimp only
    by_cases hq : q' = q
    · subst hq
      rw [Function.update_self]
      exact hok
    · rw [Function.update_of_ne hq]
      exact (h.queue q').mono (Nat.le_succ _)
  case nodup => exact h.nodup
  case registered =>
    intro q'
    refine (h.registered q').trans ?_
    unfold State.Registered
    dsimp only
    by_cases hq : q' = q
    · subst hq
      rw [Function.update_self]
      exact ⟨fun hreg => absurd hreg.2 hstage, fun hreg => absurd hreg.2 hstage'⟩
    · rw [Function.update_of_ne hq]
  case fresh =>
    intro q' hq'
    have hq : q' ≠ q := by
      rintro rfl
      exact absurd hlive (Nat.not_lt.2 hq')
    dsimp only
    rw [Function.update_of_ne hq]
    exact h.fresh q' hq'
  case finished =>
    intro r hr
    obtain ⟨hgiven, hnodup, hserial, hdelivered⟩ := h.finished r hr
    exact ⟨hgiven, hnodup, Nat.lt_succ_of_lt hserial,
      hdelivered.append (by omega) hput rfl⟩
  case locked => exact h.locked
  case walking =>
    -- a send may be on its way, but not to this queue
    intro u r o hu
    have hwalk := h.walking u r o hu
    have hserial := hwalk.serial
    refine { hwalk with
      serial := Nat.lt_succ_of_lt hserial
      delivered := hwalk.delivered.append (by omega) hput rfl
      earlier := ?_ }
    intro q' hq' hno c' hc'
    have hq : q' ≠ q := by
      rintro rfl
      exact hnot hq'
    dsimp only at hc'
    rw [Function.update_of_ne hq] at hc'
    exact hwalk.earlier q' hq' hno c' hc'

end Xine.Event
