import Xine.Library.Runs
import Xine.Library.Slots

/-!
# The master clock

The clocks that the metronom keeps, from `metronom.c`: `get_master_scr`, `metronom_register_scr`
and `metronom_unregister_scr`. A provider of a system clock reference is what these functions see of its plugin:
where it is, the version of its interface, and its priority. The pointer back to the clock, which registering
sets, is read by none of them.

`current` is what `get_current` of each plugin would return now: `adjust` sets it, and it changes in any way while
time passes.
-/

namespace Xine.Timing

open Slots

/-- A `scr_plugin_t`. -/
structure ScrPlugin where
  address : ℕ
  interface_version : ℤ
  priority : ℤ
  deriving DecidableEq

def maxScrProviders : ℕ := 10

/-- The part of `metronom_clock_t` that holds the plugins, with the time that each one has. -/
structure MetronomClock where
  scr_list : ℕ → Option ScrPlugin
  scr_master : Option ScrPlugin
  current : ScrPlugin → ℤ

/-- The plugin of `unixscr_init`. -/
def unixscrInit : ScrPlugin := ⟨0, 2, 5⟩

/-- The loop of `get_master_scr` over the first slots, with `select` and `maxprio`. -/
def selectScr (scr_list : ℕ → Option ScrPlugin) : ℕ → Option ℕ × ℤ
  | 0 => (none, 0)
  | i + 1 =>
    match scr_list i with
    | some scr =>
      if (selectScr scr_list i).2 < scr.priority then (some i, scr.priority)
      else selectScr scr_list i
    | none => selectScr scr_list i

/-- `get_master_scr`, which returns `NULL` when no plugin has been selected. -/
def getMasterScr (scr_list : ℕ → Option ScrPlugin) : Option ScrPlugin :=
  (selectScr scr_list maxScrProviders).1.bind scr_list

/-- `metronom_get_current_time`, `none` when there is no master to ask. -/
def getCurrentTime (this : MetronomClock) : Option ℤ := this.scr_master.map this.current

/-- The first free slot, if any. -/
def freeSlot (scr_list : ℕ → Option ScrPlugin) : Option ℕ :=
  (List.range maxScrProviders).find? fun i => (scr_list i).isNone

/-- `metronom_register_scr`, with the value that it returns. -/
def registerScr (this : MetronomClock) (scr : ScrPlugin) : MetronomClock × ℤ :=
  if scr.interface_version ≠ 2 then (this, -1)
  else
    match freeSlot this.scr_list with
    | none => (this, -1)
    | some i =>
      let scr_list := Function.update this.scr_list i (some scr)
      ({ this with scr_list, scr_master := getMasterScr scr_list }, 0)

/-- The slot of a plugin that can be unregistered: never the first one. -/
def slotOf (scr_list : ℕ → Option ScrPlugin) (scr : ScrPlugin) : Option ℕ :=
  (List.range' 1 (maxScrProviders - 1)).find? fun i => scr_list i = some scr

/-- The loop that adjusts the plugins in the first slots, which have this time afterwards. -/
def adjustAll (scr_list : ℕ → Option ScrPlugin) (time : ℤ) (current : ScrPlugin → ℤ) :
    ℕ → ScrPlugin → ℤ
  | 0 => current
  | i + 1 =>
    match scr_list i with
    | some scr => Function.update (adjustAll scr_list time current i) scr time
    | none => adjustAll scr_list time current i

/-- `metronom_unregister_scr`. -/
def unregisterScr (this : MetronomClock) (scr : ScrPlugin) : Option MetronomClock :=
  match slotOf this.scr_list scr with
  | none => some this
  | some i =>
    let scr_list := Function.update this.scr_list i none
    -- the master may be the plugin that has just been taken from the list
    (getCurrentTime this).map fun time =>
      { scr_list
        scr_master := getMasterScr scr_list
        -- master could have been adjusted, others must follow now
        current := adjustAll scr_list time this.current maxScrProviders }

/-- The state after `metronom_clock_init`. -/
def metronomClockInit (current : ScrPlugin → ℤ) : MetronomClock :=
  (registerScr ⟨fun _ => none, none, current⟩ unixscrInit).1

/-- What happens to the clock: calls, and time that passes between them. -/
inductive ClockAction where
  | register (scr : ScrPlugin)
  | unregister (scr : ScrPlugin)
  | pass (current : ScrPlugin → ℤ)

/-- One action, which fails when the time is asked of no master. -/
def clockStep (this : MetronomClock) : ClockAction → Option MetronomClock
  | .register scr => some (registerScr this scr).1
  | .unregister scr => unregisterScr this scr
  | .pass current => some { this with current }

/-! ## The master -/

section Master

variable {scr_list : ℕ → Option ScrPlugin} {n : ℕ}

theorem selectScr_spec (scr_list : ℕ → Option ScrPlugin) (n : ℕ) :
    (selectScr scr_list n = (none, 0) ∧ ∀ j < n, ∀ scr, scr_list j = some scr → scr.priority ≤ 0) ∨
      ∃ i scr, selectScr scr_list n = (some i, scr.priority) ∧ 0 < scr.priority ∧
        Best ScrPlugin.priority scr_list n i scr := by
  induction n with
  | zero => exact Or.inl ⟨rfl, fun j hj => absurd hj (Nat.not_lt_zero j)⟩
  | succ n ih =>
    rw [selectScr]
    cases hslot : scr_list n with
    | none =>
      -- an empty slot changes nothing
      have hnone : ∀ scr, scr_list n ≠ some scr := fun scr hscr =>
        absurd (hscr.symm.trans hslot) (Option.some_ne_none scr)
      rcases ih with ⟨hsel, hle⟩ | ⟨i, scr, hsel, hpos, hbest⟩
      · refine Or.inl ⟨hsel, fun j hj scr hscr => ?_⟩
        rcases Nat.lt_succ_iff_lt_or_eq.1 hj with hj | rfl
        · exact hle j hj scr hscr
        · exact absurd hscr (hnone scr)
      · exact Or.inr ⟨i, scr, hsel, hpos, hbest.succ fun b hb => absurd hb (hnone b)⟩
    | some new =>
      dsimp only
      rcases ih with ⟨hsel, hle⟩ | ⟨i, scr, hsel, hpos, hbest⟩
      · rw [hsel]
        dsimp only
        split_ifs with hlt
        · refine Or.inr ⟨n, new, rfl, hlt, Best.last hslot fun j hj b hb => ?_⟩
          have hb := hle j hj b hb
          omega
        · refine Or.inl ⟨rfl, fun j hj scr hscr => ?_⟩
          rcases Nat.lt_succ_iff_lt_or_eq.1 hj with hj | rfl
          · exact hle j hj scr hscr
          · obtain rfl := Option.some.inj (hslot.symm.trans hscr)
            omega
      · rw [hsel]
        dsimp only
        split_ifs with hlt
        · refine Or.inr ⟨n, new, rfl, Int.lt_trans hpos hlt, Best.last hslot fun j hj b hb => ?_⟩
          have hb := hbest.le j hj b hb
          omega
        · refine Or.inr ⟨i, scr, rfl, hpos, hbest.succ fun b hb => ?_⟩
          obtain rfl := Option.some.inj (hslot.symm.trans hb)
          omega

theorem getMasterScr_best (h : scr_list 0 = some unixscrInit) :
    ∃ i scr, getMasterScr scr_list = some scr ∧
      Best ScrPlugin.priority scr_list maxScrProviders i scr := by
  rcases selectScr_spec scr_list maxScrProviders with ⟨-, hle⟩ | ⟨i, scr, hsel, -, hbest⟩
  · have hdefault := hle 0 (by decide) unixscrInit h
    exact absurd hdefault (by decide)
  · refine ⟨i, scr, ?_, hbest⟩
    unfold getMasterScr
    rw [hsel]
    exact hbest.held

theorem getMasterScr_eq (h : scr_list 0 = some unixscrInit) {i : ℕ} {scr : ScrPlugin}
    (hbest : Best ScrPlugin.priority scr_list maxScrProviders i scr) :
    getMasterScr scr_list = some scr := by
  obtain ⟨j, master, hmaster, hbest'⟩ := getMasterScr_best h
  rw [hmaster, (hbest.unique hbest').2]

theorem adjustAll_apply (scr_list : ℕ → Option ScrPlugin) (time : ℤ) (current : ScrPlugin → ℤ)
    (n : ℕ) (scr : ScrPlugin) :
    adjustAll scr_list time current n scr =
      if ∃ j < n, scr_list j = some scr then time else current scr := by
  induction n with
  | zero =>
    rw [adjustAll, if_neg]
    rintro ⟨j, hj, -⟩
    exact Nat.not_lt_zero j hj
  | succ n ih =>
    have hsucc : (∃ j < n + 1, scr_list j = some scr) ↔
        (∃ j < n, scr_list j = some scr) ∨ scr_list n = some scr := by
      constructor
      · rintro ⟨j, hj, hscr⟩
        rcases Nat.lt_succ_iff_lt_or_eq.1 hj with hj | rfl
        · exact Or.inl ⟨j, hj, hscr⟩
        · exact Or.inr hscr
      · rintro (⟨j, hj, hscr⟩ | hscr)
        · exact ⟨j, Nat.lt_succ_of_lt hj, hscr⟩
        · exact ⟨n, Nat.lt_succ_self n, hscr⟩
    simp only [hsucc]
    rw [adjustAll]
    cases hslot : scr_list n with
    | none =>
      dsimp only
      rw [ih]
      simp
    | some new =>
      dsimp only
      by_cases heq : scr = new
      · subst heq
        rw [Function.update_self, if_pos (Or.inr rfl)]
      · have hne : ¬some new = some scr := fun h => heq (Option.some.inj h).symm
        rw [Function.update_of_ne heq, ih]
        simp only [hne, or_false]

theorem freeSlot_spec {i : ℕ} (h : freeSlot scr_list = some i) :
    i < maxScrProviders ∧ scr_list i = none := by
  have hmem := List.mem_of_find?_eq_some h
  have hfree := List.find?_some h
  exact ⟨List.mem_range.1 hmem, Option.isNone_iff_eq_none.1 hfree⟩

theorem slotOf_spec {i : ℕ} {scr : ScrPlugin} (h : slotOf scr_list scr = some i) :
    1 ≤ i ∧ i < maxScrProviders ∧ scr_list i = some scr := by
  have hmem := List.mem_range'_1.1 (List.mem_of_find?_eq_some h)
  have hheld := List.find?_some h
  exact ⟨hmem.1, hmem.2, of_decide_eq_true hheld⟩

end Master

/-! ## Registering and unregistering -/

/-- The default plugin is in the first slot, and the master is the best plugin of the list. -/
structure Mastered (s : MetronomClock) : Prop where
  default : s.scr_list 0 = some unixscrInit
  master : s.scr_master = getMasterScr s.scr_list

/-- The plugin would be the master once it is in the list: it gets a slot, and its priority is above
that of the master, or the same and its slot is below. -/
def Outranks (s : MetronomClock) (scr : ScrPlugin) : Prop :=
  scr.interface_version = 2 ∧ ∃ i k master, freeSlot s.scr_list = some i ∧
    Best ScrPlugin.priority s.scr_list maxScrProviders k master ∧
    (master.priority < scr.priority ∨ (master.priority = scr.priority ∧ i < k))

section Clock

variable {s s' : MetronomClock} {scr : ScrPlugin}

theorem Mastered.best (h : Mastered s) : ∃ k master, s.scr_master = some master ∧
    Best ScrPlugin.priority s.scr_list maxScrProviders k master := by
  rw [h.master]
  exact getMasterScr_best h.default

theorem registerScr_cases (s : MetronomClock) (scr : ScrPlugin) :
    ((scr.interface_version ≠ 2 ∨ freeSlot s.scr_list = none) ∧ registerScr s scr = (s, -1)) ∨
      ∃ i, scr.interface_version = 2 ∧ freeSlot s.scr_list = some i ∧
        registerScr s scr =
          ({ s with
              scr_list := Function.update s.scr_list i (some scr)
              scr_master := getMasterScr (Function.update s.scr_list i (some scr)) }, 0) := by
  unfold registerScr
  by_cases hversion : scr.interface_version = 2
  · rw [if_neg (not_not.2 hversion)]
    cases hfree : freeSlot s.scr_list with
    | none => exact Or.inl ⟨Or.inr rfl, rfl⟩
    | some i => exact Or.inr ⟨i, hversion, rfl, rfl⟩
  · rw [if_pos hversion]
    exact Or.inl ⟨Or.inl hversion, rfl⟩

theorem unregisterScr_cases (h : Mastered s) (scr : ScrPlugin) :
    (slotOf s.scr_list scr = none ∧ unregisterScr s scr = some s) ∨
      ∃ i master, slotOf s.scr_list scr = some i ∧ s.scr_master = some master ∧
        unregisterScr s scr = some {
          scr_list := Function.update s.scr_list i none
          scr_master := getMasterScr (Function.update s.scr_list i none)
          current := adjustAll (Function.update s.scr_list i none) (s.current master) s.current
            maxScrProviders } := by
  unfold unregisterScr
  cases hslot : slotOf s.scr_list scr with
  | none => exact Or.inl ⟨rfl, rfl⟩
  | some i =>
    obtain ⟨k, master, hmaster, -⟩ := h.best
    refine Or.inr ⟨i, master, rfl, hmaster, ?_⟩
    dsimp only
    rw [getCurrentTime, hmaster]
    rfl

theorem mastered_registerScr (h : Mastered s) (scr : ScrPlugin) :
    Mastered (registerScr s scr).1 := by
  rcases registerScr_cases s scr with ⟨-, hreg⟩ | ⟨i, -, hfree, hreg⟩
  · rw [hreg]
    exact h
  · rw [hreg]
    refine ⟨?_, rfl⟩
    -- the first slot is not free
    have hne : (0 : ℕ) ≠ i := by
      rintro rfl
      have hnone := (freeSlot_spec hfree).2
      exact absurd (h.default.symm.trans hnone) (Option.some_ne_none _)
    dsimp only
    rw [Function.update_of_ne hne]
    exact h.default

theorem mastered_unregisterScr (h : Mastered s) (hs : unregisterScr s scr = some s') :
    Mastered s' := by
  rcases unregisterScr_cases h scr with ⟨-, hsame⟩ | ⟨i, master, hslot, -, hnew⟩
  · obtain rfl := Option.some.inj (hsame.symm.trans hs)
    exact h
  · obtain rfl := Option.some.inj (hnew.symm.trans hs)
    refine ⟨?_, rfl⟩
    have hpos := (slotOf_spec hslot).1
    dsimp only
    rw [Function.update_of_ne (by omega)]
    exact h.default

theorem mastered_step {act : ClockAction} (h : Mastered s) (hs : clockStep s act = some s') :
    Mastered s' := by
  cases act with
  | register scr =>
    cases hs
    exact mastered_registerScr h scr
  | unregister scr => exact mastered_unregisterScr h hs
  | pass current =>
    cases hs
    exact ⟨h.default, h.master⟩

theorem mastered_init (current : ScrPlugin → ℤ) : Mastered (metronomClockInit current) :=
  ⟨rfl, rfl⟩

theorem registerScr_time_iff (h : Mastered s) (scr : ScrPlugin) :
    getCurrentTime (registerScr s scr).1 = getCurrentTime s ↔
      (Outranks s scr → getCurrentTime s = some (s.current scr)) := by
  obtain ⟨k, master, hmaster, hbest⟩ := h.best
  have htime : getCurrentTime s = some (s.current master) := by
    rw [getCurrentTime, hmaster]
    rfl
  have hmastered := mastered_registerScr h scr
  rcases registerScr_cases s scr with ⟨hrefused, hreg⟩ | ⟨i, hversion, hfree, hreg⟩
  · -- the plugin is refused
    rw [hreg]
    refine iff_of_true rfl fun hout => ?_
    obtain ⟨hversion, i, -, -, hfree, -⟩ := hout
    rcases hrefused with hne | hnone
    · exact absurd hversion hne
    · exact absurd (hfree.symm.trans hnone) (Option.some_ne_none i)
  · rw [hreg] at hmastered ⊢
    obtain ⟨hi, hslot⟩ := freeSlot_spec hfree
    have hupdate := hbest.update_some hi hslot scr
    by_cases hbetter : master.priority < scr.priority ∨ (master.priority = scr.priority ∧ i < k)
    · -- it becomes the master
      rw [if_pos hbetter] at hupdate
      have hnew : getCurrentTime { s with
          scr_list := Function.update s.scr_list i (some scr)
          scr_master := getMasterScr (Function.update s.scr_list i (some scr)) } =
            some (s.current scr) := by
        rw [getCurrentTime]
        dsimp only
        rw [getMasterScr_eq hmastered.default hupdate]
        rfl
      rw [hnew]
      have hout : Outranks s scr := ⟨hversion, i, k, master, hfree, hbest, hbetter⟩
      exact ⟨fun heq _ => heq.symm, fun himp => (himp hout).symm⟩
    · -- the master stays
      rw [if_neg hbetter] at hupdate
      have hold : getCurrentTime { s with
          scr_list := Function.update s.scr_list i (some scr)
          scr_master := getMasterScr (Function.update s.scr_list i (some scr)) } =
            getCurrentTime s := by
        rw [htime, getCurrentTime]
        dsimp only
        rw [getMasterScr_eq hmastered.default hupdate]
        rfl
      refine iff_of_true hold fun hout => ?_
      obtain ⟨-, i', k', master', hfree', hbest', hbetter'⟩ := hout
      obtain rfl := Option.some.inj (hfree.symm.trans hfree')
      obtain ⟨rfl, rfl⟩ := hbest.unique hbest'
      exact absurd hbetter' hbetter

theorem unregisterScr_time (h : Mastered s) (hs : unregisterScr s scr = some s') :
    getCurrentTime s' = getCurrentTime s := by
  have h' := mastered_unregisterScr h hs
  rcases unregisterScr_cases h scr with ⟨-, hsame⟩ | ⟨i, master, -, hmaster, hnew⟩
  · obtain rfl := Option.some.inj (hsame.symm.trans hs)
    rfl
  · obtain rfl := Option.some.inj (hnew.symm.trans hs)
    obtain ⟨k, new, hnew', hbest⟩ := h'.best
    rw [getCurrentTime, getCurrentTime, hnew', hmaster, Option.map_some, Option.map_some]
    dsimp only
    rw [adjustAll_apply, if_pos ⟨k, hbest.lt, hbest.held⟩]

/-- In every state of the clock, after any registrations and unregistrations and whatever time has
passed: the master is a registered plugin of the greatest priority, in the lowest slot of those;
registering fills at most one slot, and leaves the time as it is unless the plugin becomes the master
with another time; unregistering succeeds, clears at most one slot, which is not the first, and always
leaves the time as it is. -/
theorem clock_run {current : ScrPlugin → ℤ} {as : List ClockAction}
    (hrun : Runs.run clockStep (metronomClockInit current) as = some s) :
    (∃ k master, s.scr_master = some master ∧
      Best ScrPlugin.priority s.scr_list maxScrProviders k master) ∧
    (∀ scr, ((registerScr s scr).1.scr_list = s.scr_list ∨ ∃ i < maxScrProviders,
        s.scr_list i = none ∧
          (registerScr s scr).1.scr_list = Function.update s.scr_list i (some scr)) ∧
      (getCurrentTime (registerScr s scr).1 = getCurrentTime s ↔
        (Outranks s scr → getCurrentTime s = some (s.current scr)))) ∧
    ∀ scr, ∃ s', unregisterScr s scr = some s' ∧
      (s'.scr_list = s.scr_list ∨ ∃ i < maxScrProviders, i ≠ 0 ∧ s.scr_list i = some scr ∧
        s'.scr_list = Function.update s.scr_list i none) ∧
      getCurrentTime s' = getCurrentTime s := by
  have h : Mastered s :=
    Runs.run_invariant (fun _ _ _ h hs => mastered_step h hs) (mastered_init current) hrun
  refine ⟨h.best, fun scr => ⟨?_, registerScr_time_iff h scr⟩, fun scr => ?_⟩
  · rcases registerScr_cases s scr with ⟨-, hreg⟩ | ⟨i, -, hfree, hreg⟩
    · rw [hreg]
      exact Or.inl rfl
    · rw [hreg]
      obtain ⟨hi, hslot⟩ := freeSlot_spec hfree
      exact Or.inr ⟨i, hi, hslot, rfl⟩
  · rcases unregisterScr_cases h scr with ⟨-, hsame⟩ | ⟨i, master, hslot, -, hnew⟩
    · exact ⟨s, hsame, Or.inl rfl, rfl⟩
    · obtain ⟨hpos, hi, hheld⟩ := slotOf_spec hslot
      exact ⟨_, hnew, Or.inr ⟨i, hi, by omega, hheld, rfl⟩, unregisterScr_time h hnew⟩

end Clock

/-- A plugin that has been started at the time of the clock becomes the master, and goes again. -/
def tunedRun : List ClockAction :=
  [.register ⟨1, 2, 10⟩, .pass fun scr => if scr = ⟨1, 2, 10⟩ then 5000 else 4000,
    .unregister ⟨1, 2, 10⟩]

/-- The default plugin goes on with the time of the one that is gone. -/
theorem clock_run_tuned : ∃ s,
    Runs.run clockStep (metronomClockInit fun _ => 1000) tunedRun = some s ∧
      getCurrentTime s = some 5000 ∧
      ∃ k master, s.scr_master = some master ∧
        Best ScrPlugin.priority s.scr_list maxScrProviders k master := by
  have hsome : (Runs.run clockStep (metronomClockInit fun _ => 1000) tunedRun).any
      (fun s => getCurrentTime s == some 5000) := by
    decide
  obtain ⟨s, hs, htime⟩ := (Option.any_eq_true _ _).1 hsome
  exact ⟨s, hs, beq_iff_eq.1 htime, (clock_run hs).1⟩

/-- The clock at 1000, and all other plugins at 0. -/
def coldClock : MetronomClock :=
  metronomClockInit fun scr => if scr = unixscrInit then 1000 else 0

/-- A plugin of priority 10 that has not been started takes the clock back to 0. -/
theorem registerScr_jumps : getCurrentTime coldClock = some 1000 ∧
    getCurrentTime (registerScr coldClock ⟨1, 2, 10⟩).1 = some 0 := by
  decide

end Xine.Timing
