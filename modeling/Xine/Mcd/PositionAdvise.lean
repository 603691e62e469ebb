import Xine.Cue.Disposal

/-!
# Position advice of the MCD driver

`mcd.c`: the commands that touch position advice, and those that change the time format in which its units are
given. The driver remembers the units of its cue point, converted to milliseconds, and takes a number that is not
positive for no cue point. A division by zero is `none`.
-/

namespace Xine.Mcd

open Cue Xine.Lists Runs

/-- `MCI_FORMAT_*`. -/
inductive TimeFormat
  | milliseconds | mmtime | frames | other

/-- `tmcdxine`, as far as these commands use it, with the cue points of its stream. -/
structure Driver where
  timeformat : TimeFormat
  fps : ℕ
  posadviseUnits : ℤ
  posadviseUserParm : BitVec 16
  posadviseCallback : BitVec 32
  cue_points : Cursor CuePoint

/-- A division of unsigned numbers. -/
def divide (a b : ℕ) : Option ℕ := if b = 0 then none else some (a / b)

/-- `fromMMFormat`. The time is unsigned, and so is what it comes to before it is returned as an `int`. -/
def fromMMFormat (this : Driver) (time : BitVec 32) : Option ℤ :=
  match this.timeformat with
  | .milliseconds => some time.toInt
  | .mmtime => some (time / 3#32).toInt
  | .frames => (divide (time * 1000#32).toNat this.fps).map fun t => (BitVec.ofNat 32 t).toInt
  | .other => some 0

/-- The frames per second from the duration of a frame, where the time format needs them. -/
def setFps (this : Driver) (frame_duration : ℕ) : Option Driver :=
  match this.timeformat with
  | .frames => (divide 90000 frame_duration).map fun fps => { this with fps := fps }
  | _ => some this

/-- After `MCI_OPEN`. The frames per second are not set. -/
def mciOpen : Driver where
  timeformat := .mmtime
  fps := 0
  posadviseUnits := 0
  posadviseUserParm := 0
  posadviseCallback := 0
  cue_points := .empty

/-- The driver's cue point is disposed if there is one. -/
def disposeAdvice (this : Driver) : Option Driver :=
  if this.posadviseUnits > 0 then
    (xineEventDisposeCuePoint this.cue_points 0 this.posadviseUnits).map fun cue_points =>
      { this with cue_points := cue_points }
  else some this

/-- `MCI_SET_POSITION_ADVISE_ON`. -/
def adviseOn (this : Driver) (ulUnits : BitVec 32) (usUserParm : BitVec 16) (hwndCallback : BitVec 32) :
    Option Driver :=
  (disposeAdvice this).bind fun this =>
    (fromMMFormat this ulUnits).map fun units =>
      { this with
        posadviseUnits := units
        posadviseUserParm := usUserParm
        posadviseCallback := hwndCallback
        cue_points := createCuePoint this.cue_points 0 units }

/-- `MCI_SET_POSITION_ADVISE_OFF`. -/
def adviseOff (this : Driver) : Option Driver :=
  (disposeAdvice this).map fun this => { this with posadviseUnits := 0 }

/-- The commands: `MCI_SET` of a time format and `MCI_LOAD`, with the duration of a frame of the stream, and
`MCI_SET_POSITION_ADVISE` with its two flags. -/
inductive Command
  | setTimeFormat (ulTimeFormat : TimeFormat) (frame_duration : ℕ)
  | load (frame_duration : ℕ)
  | setPositionAdvise (on off : Bool) (ulUnits : BitVec 32) (usUserParm : BitVec 16) (hwndCallback : BitVec 32)

def mciDriverEntry (this : Driver) : Command → Option Driver
  | .setTimeFormat ulTimeFormat frame_duration =>
    setFps { this with timeformat := ulTimeFormat } frame_duration
  | .load frame_duration => setFps this frame_duration
  | .setPositionAdvise on off ulUnits usUserParm hwndCallback =>
    if on then adviseOn this ulUnits usUserParm hwndCallback
    else if off then adviseOff this
    else some this

/-! ## One cue point -/

/-- The driver, and whether the last command about position advice was to advise. -/
structure World where
  driver : Driver
  advised : Bool

/-- Whether position advice is on after the command. -/
def Command.advises (advised : Bool) : Command → Bool
  | .setPositionAdvise on off _ _ _ => on || advised && !off
  | _ => advised

def step (w : World) (c : Command) : Option World :=
  (mciDriverEntry w.driver c).map fun driver => ⟨driver, c.advises w.advised⟩

def start : World := ⟨mciOpen, false⟩

/-- The stream has one cue point while position advice is on, and none otherwise. All of them are the
driver's. -/
def OneCue (w : World) : Prop := w.driver.cue_points.nodes.length = if w.advised then 1 else 0

/-- The command goes on to another state of position advice. -/
def Command.replaces : Command → Bool
  | .setPositionAdvise on off _ _ _ => on || off
  | _ => false

/-- The command does not divide by zero. -/
def Survives (this : Driver) : Command → Prop
  | .setTimeFormat ulTimeFormat frame_duration => ulTimeFormat = .frames → frame_duration ≠ 0
  | .load frame_duration => this.timeformat = .frames → frame_duration ≠ 0
  | .setPositionAdvise on _ _ _ _ => on = true → this.timeformat = .frames → this.fps ≠ 0

/-- The command survives, and finds positive units where it replaces position advice. -/
def Replaces (w : World) (c : Command) : Prop :=
  Survives w.driver c ∧ (c.replaces = true → w.advised = true → 0 < w.driver.posadviseUnits)

/-- The only cue point is the one that the driver remembers. -/
structure Remembered (w : World) : Prop where
  contents_eq : contents w.driver.cue_points = if w.advised then [⟨0, 0, w.driver.posadviseUnits⟩] else []
  units_eq : w.advised = false → w.driver.posadviseUnits = 0

variable {w t : World} {c : Command} {this : Driver}

theorem Remembered.oneCue (h : Remembered w) : OneCue w := by
  have hlength := congrArg List.length h.contents_eq
  rw [contents, List.length_map] at hlength
  unfold OneCue
  rw [hlength]
  split_ifs <;> rfl

theorem divide_isSome {a b : ℕ} : (divide a b).isSome = true ↔ b ≠ 0 := by
  unfold divide
  split_ifs with hb <;> simp [hb]

theorem setFps_isSome (frame_duration : ℕ) :
    (setFps this frame_duration).isSome = true ↔ (this.timeformat = .frames → frame_duration ≠ 0) := by
  unfold setFps
  cases this.timeformat with
  | frames => simp [divide_isSome]
  | _ => simp

theorem fromMMFormat_isSome (time : BitVec 32) :
    (fromMMFormat this time).isSome = true ↔ (this.timeformat = .frames → this.fps ≠ 0) := by
  unfold fromMMFormat
  cases this.timeformat with
  | frames => simp [divide_isSome]
  | _ => simp

theorem setFps_frame {frame_duration : ℕ} {this' : Driver} (h : setFps this frame_duration = some this') :
    this'.cue_points = this.cue_points ∧ this'.posadviseUnits = this.posadviseUnits := by
  unfold setFps at h
  split at h
  · obtain ⟨fps, -, rfl⟩ := Option.map_eq_some_iff.1 h
    exact ⟨rfl, rfl⟩
  · cases h
    exact ⟨rfl, rfl⟩

theorem disposeAdvice_spec (h : Remembered w) (hpos : w.advised = true → 0 < w.driver.posadviseUnits) :
    ∃ cue_points, disposeAdvice w.driver = some { w.driver with cue_points := cue_points } ∧
      contents cue_points = [] := by
  have hcontents := h.contents_eq
  unfold disposeAdvice
  cases hadvised : w.advised with
  | false =>
    rw [hadvised, if_neg Bool.false_ne_true] at hcontents
    have hunits := h.units_eq hadvised
    exact ⟨w.driver.cue_points, if_neg (by omega), hcontents⟩
  | true =>
    rw [hadvised, if_pos rfl] at hcontents
    obtain ⟨node, behind, hnodes⟩ : ∃ node behind, w.driver.cue_points.nodes = node :: behind := by
      refine List.exists_cons_of_ne_nil fun hnil => ?_
      rw [contents, hnil] at hcontents
      exact List.cons_ne_nil _ _ hcontents.symm
    obtain ⟨s', hs', hleft⟩ := dispose_spec hnodes 0 w.driver.posadviseUnits
    refine ⟨s', ?_, ?_⟩
    · rw [if_pos (hpos hadvised), hs']
      rfl
    · rw [hleft, hcontents]
      simp [isCue]

theorem Remembered.of_frame (h : Remembered w)
    (hframe : this.cue_points = w.driver.cue_points ∧ this.posadviseUnits = w.driver.posadviseUnits) :
    Remembered ⟨this, w.advised⟩ := by
  obtain ⟨hcues, hunits⟩ := hframe
  refine ⟨?_, fun hadvised => hunits.trans (h.units_eq hadvised)⟩
  dsimp only
  rw [hcues, hunits, h.contents_eq]

theorem step_remembered (h : Remembered w) (hok : Replaces w c) : ∃ t, step w c = some t ∧ Remembered t := by
  obtain ⟨hsurvives, hpos⟩ := hok
  unfold step
  cases c with
  | setTimeFormat ulTimeFormat frame_duration =>
    obtain ⟨this, hthis⟩ := Option.isSome_iff_exists.1
      ((@setFps_isSome { w.driver with timeformat := ulTimeFormat } frame_duration).2 hsurvives)
    have hframe := setFps_frame hthis
    exact ⟨_, Option.map_eq_some_iff.2 ⟨this, hthis, rfl⟩, h.of_frame hframe⟩
  | load frame_duration =>
    obtain ⟨this, hthis⟩ := Option.isSome_iff_exists.1 ((setFps_isSome frame_duration).2 hsurvives)
    exact ⟨_, Option.map_eq_some_iff.2 ⟨this, hthis, rfl⟩, h.of_frame (setFps_frame hthis)⟩
  | setPositionAdvise on off ulUnits usUserParm hwndCallback =>
    cases on with
    | true =>
      obtain ⟨cue_points, hdispose, hnone⟩ := disposeAdvice_spec h (hpos rfl)
      obtain ⟨units, hunits⟩ := Option.isSome_iff_exists.1
        ((@fromMMFormat_isSome { w.driver with cue_points := cue_points } ulUnits).2 (hsurvives rfl))
      refine ⟨_, Option.map_eq_some_iff.2
        ⟨{ w.driver with
            posadviseUnits := units
            posadviseUserParm := usUserParm
            posadviseCallback := hwndCallback
            cue_points := createCuePoint cue_points 0 units }, ?_, rfl⟩, ?_, nofun⟩
      · rw [mciDriverEntry, if_pos rfl, adviseOn, hdispose, Option.bind_some, hunits]
        rfl
      · calc contents (createCuePoint cue_points 0 units)
            = contents cue_points ++ [⟨0, 0, units⟩] := by
              exact List.map_append
          _ = [⟨0, 0, units⟩] := by rw [hnone, List.nil_append]
    | false =>
      cases off with
      | true =>
        obtain ⟨cue_points, hdispose, hnone⟩ := disposeAdvice_spec h (hpos rfl)
        refine ⟨_, Option.map_eq_some_iff.2
          ⟨{ w.driver with cue_points := cue_points, posadviseUnits := 0 }, ?_, rfl⟩, ?_, fun _ => rfl⟩
        · rw [mciDriverEntry, if_neg Bool.false_ne_true, if_pos rfl, adviseOff, hdispose]
          rfl
        · simpa [Command.advises] using hnone
      | false =>
        have hsame : (Command.setPositionAdvise false false ulUnits usUserParm hwndCallback).advises w.advised =
            w.advised := by simp [Command.advises]
        refine ⟨_, rfl, ?_⟩
        rw [hsame]
        exact h

theorem survives_of_some (h : mciDriverEntry w.driver c = some this) : Survives w.driver c := by
  cases c with
  | setTimeFormat ulTimeFormat frame_duration =>
    exact (@setFps_isSome { w.driver with timeformat := ulTimeFormat } frame_duration).1
      (Option.isSome_iff_exists.2 ⟨this, h⟩)
  | load frame_duration => exact (setFps_isSome frame_duration).1 (Option.isSome_iff_exists.2 ⟨this, h⟩)
  | setPositionAdvise on off ulUnits usUserParm hwndCallback =>
    rintro rfl
    rw [mciDriverEntry, if_pos rfl, adviseOn] at h
    obtain ⟨this', hdispose, hmap⟩ := Option.bind_eq_some_iff.1 h
    obtain ⟨units, hunits, -⟩ := Option.map_eq_some_iff.1 hmap
    have hsome := (fromMMFormat_isSome ulUnits).1 (Option.isSome_iff_exists.2 ⟨units, hunits⟩)
    unfold disposeAdvice at hdispose
    split_ifs at hdispose
    · obtain ⟨cue_points, -, rfl⟩ := Option.map_eq_some_iff.1 hdispose
      exact hsome
    · cases hdispose
      exact hsome

theorem step_leaves (h : Remembered w) (hok : ¬Replaces w c) (hstep : step w c = some t) : ¬OneCue t := by
  obtain ⟨this, hthis, rfl⟩ := Option.map_eq_some_iff.1 hstep
  have hno : ¬(c.replaces = true → w.advised = true → 0 < w.driver.posadviseUnits) :=
    fun hpos => hok ⟨survives_of_some hthis, hpos⟩
  simp only [Classical.not_imp, Int.not_lt] at hno
  obtain ⟨hreplaces, hadvised, hunits⟩ := hno
  have hlength : w.driver.cue_points.nodes.length = 1 := by
    have hone := h.oneCue
    rwa [OneCue, if_pos hadvised] at hone
  have hdispose : disposeAdvice w.driver = some w.driver := if_neg (by omega)
  intro hone
  unfold OneCue at hone
  cases c with
  | setTimeFormat ulTimeFormat frame_duration => exact absurd hreplaces Bool.false_ne_true
  | load frame_duration => exact absurd hreplaces Bool.false_ne_true
  | setPositionAdvise on off ulUnits usUserParm hwndCallback =>
    cases on with
    | true =>
      rw [mciDriverEntry, if_pos rfl, adviseOn, hdispose, Option.bind_some] at hthis
      obtain ⟨units, -, rfl⟩ := Option.map_eq_some_iff.1 hthis
      -- the new cue point comes behind the old one
      have htwo : (createCuePoint w.driver.cue_points 0 units).nodes.length =
          w.driver.cue_points.nodes.length + 1 := List.length_append
      have hone : (createCuePoint w.driver.cue_points 0 units).nodes.length = 1 := hone
      omega
    | false =>
      cases off with
      | true =>
        rw [mciDriverEntry, if_neg Bool.false_ne_true, if_pos rfl, adviseOff, hdispose] at hthis
        cases hthis
        have hnone : w.driver.cue_points.nodes.length = 0 := by simpa [Command.advises] using hone
        omega
      | false => exact absurd hreplaces Bool.false_ne_true

/-- In the runs of the driver's commands the stream has one cue point of the driver while position advice is
on, and none while it is off, exactly if none divides by zero and position advice is replaced only where its
units have come to a positive number. -/
theorem advice_run (commands : List Command) :
    Guarded step Replaces start commands ↔
      ∀ before, before <+: commands → ∃ w, run step start before = some w ∧ OneCue w :=
  @guarded_iff_reaches _ _ step Replaces (fun _ => True) Remembered OneCue (fun _ => Remembered.oneCue)
    (fun _ _ h _ hok => step_remembered h hok) (fun _ _ _ h _ hok hstep => step_leaves h hok hstep) start
    commands ⟨rfl, fun _ => rfl⟩ fun _ _ => trivial

/-- Two units of a third of a millisecond come to none, so that the cue point stays when position advice is
turned off. -/
theorem advice_units_zero :
    ∃ w, run step start [.setPositionAdvise true false 2 0 0, .setPositionAdvise false true 0 0 0] = some w ∧
      w.advised = false ∧ ¬OneCue w :=
  ⟨_, rfl, rfl, Nat.one_ne_zero⟩

end Xine.Mcd
