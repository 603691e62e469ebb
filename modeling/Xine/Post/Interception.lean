import Mathlib.Logic.Function.Basic
import Mathlib.Tactic.Common

/-!
# The interception of video frames

`post_intercept_video_frame`, `post_restore_video_frame` and the `post_frame_*` functions of `post.c`. A
post plugin has a video port of its own, and puts functions of its own into the frames that go through
this port. What a frame had before is kept in the port. A function of a frame is the one of `post.c`, or
one that the frame came with; a call of the latter is noted, and leaves the frames alone.
-/

namespace Xine.Post

/-- The functions of a frame that are replaced. -/
inductive Slot
  | free
  | procSlice
  | procFrame
  | procMacroBlock
  | field
  | draw
  | lock
  | dispose
deriving DecidableEq

/-- A function of a frame: `post_frame_*`, or one from elsewhere. -/
inductive Fn
  | post
  | original (id : ℕ)
deriving DecidableEq

/-- `vo_frame_t`: the port, and the functions, of which some can be missing. -/
structure VoFrame where
  port : ℕ
  fn : Slot → Option Fn

structure PostVideoPort where
  original_port : ℕ
  original_frame : VoFrame

/-- A call of a function that a frame came with, and the port of the frame then. -/
structure Call where
  slot : Slot
  frame : ℕ
  id : ℕ
  port : ℕ
deriving DecidableEq

/-- The frames and the ports. A port that is not of a post plugin is `none`. -/
structure World where
  frames : ℕ → VoFrame
  ports : ℕ → Option PostVideoPort
  calls : List Call

/-- Whether `post_intercept_video_frame` leaves a missing function missing. -/
def Slot.optional : Slot → Bool
  | procSlice | procFrame | procMacroBlock => true
  | free | field | draw | lock | dispose => false

/-- The frame that `post_intercept_video_frame` leaves. -/
def VoFrame.intercepted (frame : VoFrame) (port : ℕ) : VoFrame where
  port := port
  fn := fun slot => if slot.optional ∧ frame.fn slot = none then none else some .post

/-- The frame that `post_restore_video_frame` leaves. -/
def PostVideoPort.restored (port : PostVideoPort) : VoFrame where
  port := port.original_port
  fn := port.original_frame.fn

def World.setFrame (w : World) (frame : ℕ) (vo_frame : VoFrame) : World :=
  { w with frames := Function.update w.frames frame vo_frame }

@[simp] theorem World.setFrame_self (w : World) (frame : ℕ) (vo_frame : VoFrame) :
    (w.setFrame frame vo_frame).frames frame = vo_frame := Function.update_self _ _ _

/-- `post_intercept_video_frame`, if the port is one of a post plugin. -/
def World.interceptVideoFrame (w : World) (frame port : ℕ) : Option World := do
  let post_port ← w.ports port
  let w := { w with
    ports := Function.update w.ports port
      (some { post_port with original_frame := w.frames frame }) }
  pure (w.setFrame frame ((w.frames frame).intercepted port))

/-- `post_restore_video_frame`. -/
def World.restoreVideoFrame (w : World) (frame : ℕ) (port : PostVideoPort) : World :=
  w.setFrame frame port.restored

/-- `post_frame_free`, `post_frame_draw`, `post_frame_lock` and `post_frame_dispose`: the frame is
restored, and its function is called. -/
def World.restoring (invoke : Option Fn → World → Option World) (slot : Slot) (vo_img : ℕ)
    (port : PostVideoPort) (w : World) : Option World :=
  let w := w.restoreVideoFrame vo_img port
  invoke ((w.frames vo_img).fn slot) w

/-- `post_frame_proc_slice`, `post_frame_proc_frame` and `post_frame_field`: the function that the port
has kept is called, with the original port in the frame. -/
def World.passing (invoke : Option Fn → World → Option World) (slot : Slot) (vo_img : ℕ)
    (port : PostVideoPort) (w : World) : Option World := do
  let post_port := (w.frames vo_img).port
  let w := w.setFrame vo_img { w.frames vo_img with port := port.original_port }
  let w ← invoke (port.original_frame.fn slot) w
  pure (w.setFrame vo_img { w.frames vo_img with port := post_port })

/-- `post_frame_proc_macro_block`: the reference frames are restored as well. -/
def World.macroBlock (invoke : Option Fn → World → Option World) (current forward backward : ℕ)
    (port : PostVideoPort) (w : World) : Option World :=
  let w := w.restoreVideoFrame current port
  let w := w.restoreVideoFrame forward port
  let w := w.restoreVideoFrame backward port
  invoke ((w.frames current).fn .procMacroBlock) w

/-- A function of the frame `vo_img` is called, with enough calls inside it or with no result. There is
no result either when the function is missing, or when the frame has a port that is not one of a post
plugin. -/
def World.invoke (slot : Slot) (vo_img forward backward : ℕ) :
    ℕ → Option Fn → World → Option World
  | 0, _, _ => none
  | _ + 1, none, _ => none
  | _ + 1, some (.original id), w =>
    some { w with
      calls := w.calls ++ [{ slot, frame := vo_img, id, port := (w.frames vo_img).port }] }
  | fuel + 1, some .post, w => do
    let port ← w.ports (w.frames vo_img).port
    let invoke := World.invoke slot vo_img forward backward fuel
    match slot with
    | .free | .draw | .lock | .dispose => w.restoring invoke slot vo_img port
    | .procSlice | .procFrame | .field => w.passing invoke slot vo_img port
    | .procMacroBlock => w.macroBlock invoke vo_img forward backward port

/-- What is done with the frames. The reference frames matter for `proc_macro_block` only. -/
inductive Op
  | intercept (frame port : ℕ)
  | call (slot : Slot) (vo_img forward backward : ℕ)

def World.op (fuel : ℕ) (w : World) : Op → Option World
  | .intercept frame port => w.interceptVideoFrame frame port
  | .call slot vo_img forward backward =>
    World.invoke slot vo_img forward backward fuel ((w.frames vo_img).fn slot) w

/-- A run. -/
def World.run (fuel : ℕ) : World → List Op → Option World
  | w, [] => some w
  | w, op :: ops => do
    let w ← w.op fuel op
    w.run fuel ops

end Xine.Post

/-!
## What interceptions have put aside

The interceptions of a frame as they are meant: each frame has in layers what it had before each of its
interceptions, a call goes to the function that it came with, and a removed interception leaves what was there
before. The ports keep one frame each instead.
-/

namespace Xine.Post

/-! ## Layers -/

/-- A frame with what it had before its interceptions, the last one first. -/
structure Layered where
  current : VoFrame
  below : List VoFrame

def Layered.intercept (l : Layered) (port : ℕ) : Layered where
  current := l.current.intercepted port
  below := l.current :: l.below

/-- The last interceptions are removed. -/
def Layered.strip : ℕ → Layered → Layered
  | 0, l => l
  | _ + 1, { current, below := [] } => { current, below := [] }
  | n + 1, { below := before :: below, .. } => Layered.strip n { current := before, below }

/-- How many interceptions a function of a frame is below. -/
def depth (slot : Slot) : VoFrame → List VoFrame → ℕ
  | _, [] => 0
  | current, before :: below =>
    if current.fn slot = some .post then depth slot before below + 1 else 0

def Layered.depth (slot : Slot) (l : Layered) : ℕ := Post.depth slot l.current l.below

/-- The frame as it is where a function of it is not intercepted. -/
def Layered.found (slot : Slot) (l : Layered) : VoFrame := (l.strip (l.depth slot)).current

/-- The interceptions of a frame: the port of each, and the frame before it. -/
def layers : VoFrame → List VoFrame → List (ℕ × VoFrame)
  | _, [] => []
  | current, before :: below => (current.port, before) :: layers before below

def Layered.layers (l : Layered) : List (ℕ × VoFrame) := Post.layers l.current l.below

/-- The frames, and the calls so far. -/
structure Meant where
  frames : ℕ → Layered
  calls : List Call

/-- Whether a call of a function removes the interceptions of a frame. -/
def removes (slot : Slot) (vo_img forward backward frame : ℕ) : Bool :=
  match slot with
  | .free | .draw | .lock | .dispose => decide (frame = vo_img)
  | .procSlice | .procFrame | .field => false
  | .procMacroBlock => decide (frame = vo_img ∨ frame = forward ∨ frame = backward)

/-- What is meant by an operation. A call goes to the function that the frame came with. -/
def Meant.op (m : Meant) : Op → Meant
  | .intercept frame port =>
    { m with frames := Function.update m.frames frame ((m.frames frame).intercept port) }
  | .call slot vo_img forward backward =>
    let l := m.frames vo_img
    { frames := fun frame =>
        if removes slot vo_img forward backward frame then (m.frames frame).strip (l.depth slot)
        else m.frames frame
      calls := m.calls ++ match (l.found slot).fn slot with
        | some (.original id) => [{ slot, frame := vo_img, id, port := (l.found slot).port }]
        | _ => [] }

/-- What an operation is to find. An interception is through a port above that of the frame, and the
frames that are intercepted through this port had the functions that the frame has. The function that is
called is there, and the reference frames have the port of the frame that is decoded. -/
def Meant.Fits (ports : ℕ → Option PostVideoPort) (m : Meant) : Op → Prop
  | .intercept frame port =>
    (∃ post_port, ports port = some post_port ∧
      post_port.original_port = (m.frames frame).current.port) ∧
    ∀ other before, (port, before) ∈ (m.frames other).layers → before.fn = (m.frames frame).current.fn
  | .call slot vo_img forward backward =>
    (m.frames vo_img).current.fn slot ≠ none ∧
    (slot = .procMacroBlock → 0 < (m.frames vo_img).depth slot →
      (m.frames forward).current.port = (m.frames vo_img).current.port ∧
      (m.frames backward).current.port = (m.frames vo_img).current.port)

/-- A run all of whose operations find that. -/
def Meant.FitsRun (ports : ℕ → Option PostVideoPort) : Meant → List Op → Prop
  | _, [] => True
  | m, op :: ops => m.Fits ports op ∧ (m.op op).FitsRun ports ops

/-! ## The layers in the ports -/

/-- The ports have what a frame had before its interceptions. -/
inductive Kept (ports : ℕ → Option PostVideoPort) : VoFrame → List VoFrame → Prop
  | base {current : VoFrame} : ports current.port = none →
      (∀ slot, current.fn slot ≠ some .post) →
      (∀ slot, slot.optional = false → current.fn slot ≠ none) → Kept ports current []
  | layer {before : VoFrame} {below : List VoFrame} {port : ℕ} {post_port : PostVideoPort} :
      ports port = some post_port → post_port.restored = before → Kept ports before below →
      Kept ports (before.intercepted port) (before :: below)

variable {ports : ℕ → Option PostVideoPort} {slot : Slot} {current : VoFrame} {below : List VoFrame}
  {l : Layered} {w : World} {m : Meant}

theorem Kept.fn_ne_none (h : Kept ports current below) (hslot : slot.optional = false) :
    current.fn slot ≠ none := by
  cases h with
  | base _ _ hpresent => exact hpresent slot hslot
  | layer _ _ _ =>
    unfold VoFrame.intercepted
    dsimp only
    rw [if_neg (by simp [hslot])]
    exact Option.some_ne_none _

theorem fn_ne_none_of_intercepted {before : VoFrame} {port : ℕ} (h : Kept ports before below)
    (hcurrent : (before.intercepted port).fn slot ≠ none) : before.fn slot ≠ none := by
  intro hnone
  cases hslot : slot.optional with
  | false => exact h.fn_ne_none hslot hnone
  | true =>
    apply hcurrent
    unfold VoFrame.intercepted
    exact if_pos ⟨hslot, hnone⟩

theorem intercepted_eq_post {before : VoFrame} {port : ℕ}
    (hcurrent : (before.intercepted port).fn slot ≠ none) :
    (before.intercepted port).fn slot = some .post := by
  unfold VoFrame.intercepted at hcurrent ⊢
  dsimp only at hcurrent ⊢
  split at hcurrent
  · exact absurd rfl hcurrent
  · exact if_neg ‹_›

theorem Kept.exists_layer {port : PostVideoPort} (h : Kept ports current below)
    (hport : ports current.port = some port) :
    ∃ below', below = port.restored :: below' ∧ Kept ports port.restored below' ∧
      current = port.restored.intercepted current.port := by
  cases h with
  | base hnone => rw [hnone] at hport; cases hport
  | layer hsome hrestored hbefore =>
    obtain rfl := Option.some.inj (hsome.symm.trans hport)
    obtain rfl := hrestored
    exact ⟨_, rfl, hbefore, rfl⟩

theorem Kept.intercept {port : ℕ} {post_port : PostVideoPort} {frame : VoFrame}
    (hport : ports port = some post_port) (h : Kept ports current below)
    (hsame : ∀ before, (port, before) ∈ layers current below → before.fn = frame.fn) :
    Kept (Function.update ports port (some { post_port with original_frame := frame }))
      current below := by
  induction h with
  | base hnone hfn hpresent =>
    refine Kept.base ?_ hfn hpresent
    rw [Function.update_of_ne]
    · exact hnone
    · rintro rfl
      rw [hnone] at hport
      cases hport
  | @layer before below port' post_port' hport' hrestored hbefore ih =>
    have hbefore' := ih fun b hb => hsame b (List.mem_cons_of_mem _ hb)
    by_cases hp : port' = port
    · subst hp
      obtain rfl := Option.some.inj (hport.symm.trans hport')
      refine Kept.layer (Function.update_self _ _ _) ?_ hbefore'
      have hfn := hsame before List.mem_cons_self
      rw [← hrestored] at hfn ⊢
      show VoFrame.mk _ frame.fn = VoFrame.mk _ _
      rw [← hfn]
      rfl
    · exact Kept.layer (by rw [Function.update_of_ne hp]; exact hport') hrestored hbefore'

theorem Kept.strip (n : ℕ) : ∀ {l : Layered}, Kept ports l.current l.below →
    Kept ports (l.strip n).current (l.strip n).below := by
  induction n with
  | zero => exact fun h => h
  | succ n ih =>
    rintro ⟨current, below⟩ h
    cases h with
    | base hnone hfn hpresent => exact Kept.base hnone hfn hpresent
    | layer _ _ hbefore => exact ih hbefore

theorem Layered.strip_length (n : ℕ) :
    ∀ l : Layered, (l.strip n).below.length ≤ l.below.length := by
  induction n with
  | zero => exact fun _ => Nat.le_refl _
  | succ n ih =>
    rintro ⟨current, _ | ⟨before, below⟩⟩
    · exact Nat.le_refl _
    · exact Nat.le_succ_of_le (ih _)

/-! ## Calls -/

/-- The call that goes to a function that a frame came with. -/
def called (slot : Slot) (vo_img : ℕ) (l : Layered) : List Call :=
  match (l.found slot).fn slot with
  | some (.original id) => [{ slot, frame := vo_img, id, port := (l.found slot).port }]
  | _ => []

theorem Layered.depth_eq_zero (h : l.current.fn slot ≠ some .post) : l.depth slot = 0 := by
  obtain ⟨current, below⟩ := l
  cases below with
  | nil => rfl
  | cons before below => exact if_neg h

theorem Layered.depth_cons {before : VoFrame} (h : current.fn slot = some .post) :
    Layered.depth slot { current, below := before :: below } =
      Layered.depth slot { current := before, below } + 1 := if_pos h

theorem Layered.found_cons {before : VoFrame} (h : current.fn slot = some .post) :
    Layered.found slot { current, below := before :: below } =
      Layered.found slot { current := before, below } := by
  unfold Layered.found
  rw [Layered.depth_cons h]
  rfl

theorem World.invoke_original {vo_img forward backward fuel id : ℕ} {fn : Option Fn}
    (hfuel : 0 < fuel) (hfn : fn = some (.original id)) (w : World) :
    World.invoke slot vo_img forward backward fuel fn w = some { w with
      calls := w.calls ++ [{ slot, frame := vo_img, id, port := (w.frames vo_img).port }] } := by
  obtain ⟨fuel, rfl⟩ : ∃ f, fuel = f + 1 := ⟨fuel - 1, by omega⟩
  rw [hfn, World.invoke]

theorem called_eq {vo_img id : ℕ} {l : Layered} (h : l.current.fn slot = some (.original id)) :
    called slot vo_img l = [{ slot, frame := vo_img, id, port := l.current.port }] := by
  have hdepth : l.depth slot = 0 := Layered.depth_eq_zero (by rw [h]; simp)
  unfold called Layered.found
  rw [hdepth]
  show (match l.current.fn slot with | some (.original id) => _ | _ => _) = _
  rw [h]
  rfl

theorem exists_original (hfn : current.fn slot ≠ none) (hpost : current.fn slot ≠ some .post) :
    ∃ id, current.fn slot = some (.original id) := by
  cases h : current.fn slot with
  | none => exact absurd h hfn
  | some fn =>
    cases fn with
    | post => exact absurd h hpost
    | original id => exact ⟨id, rfl⟩

theorem World.invoke_post_passing {vo_img forward backward fuel : ℕ} {port : PostVideoPort}
    (hslot : slot = .procSlice ∨ slot = .procFrame ∨ slot = .field)
    (hport : w.ports (w.frames vo_img).port = some port) :
    World.invoke slot vo_img forward backward (fuel + 1) (some .post) w =
      w.passing (World.invoke slot vo_img forward backward fuel) slot vo_img port := by
  rw [World.invoke, hport]
  rcases hslot with rfl | rfl | rfl <;> rfl

theorem World.invoke_passing (vo_img forward backward : ℕ)
    (hslot : slot = .procSlice ∨ slot = .procFrame ∨ slot = .field) (fuel : ℕ) :
    ∀ {current : VoFrame} {below : List VoFrame} {w : World}, Kept w.ports current below →
      (w.frames vo_img).port = current.port → current.fn slot ≠ none → below.length < fuel →
      World.invoke slot vo_img forward backward fuel (current.fn slot) w =
        some { w with calls := w.calls ++ called slot vo_img { current, below } } := by
  induction fuel with
  | zero => exact fun _ _ _ h => absurd h (Nat.not_lt_zero _)
  | succ fuel ih =>
    intro current below w hkept hport hfn hfuel
    cases hkept with
    | base _ hpost _ =>
      obtain ⟨id, hid⟩ := exists_original hfn (hpost slot)
      rw [World.invoke_original (Nat.succ_pos fuel) hid, called_eq hid, hport]
    | @layer before below port post_port hsome hrestored hbefore =>
      have hpost := intercepted_eq_post hfn
      have hsome' : w.ports (w.frames vo_img).port = some post_port := by
        rw [hport]
        exact hsome
      rw [hpost, World.invoke_post_passing hslot hsome']
      subst hrestored
      have hcalled : called slot vo_img { current := post_port.restored, below := below } =
          called slot vo_img
            ⟨post_port.restored.intercepted port, post_port.restored :: below⟩ := by
        unfold called
        rw [Layered.found_cons hpost]
      have hcall := ih (w := w.setFrame vo_img { w.frames vo_img with port := post_port.original_port })
        hbefore (by rw [World.setFrame_self]; rfl)
        (fn_ne_none_of_intercepted hbefore hfn) (Nat.lt_of_succ_lt_succ hfuel)
      refine Option.bind_eq_some_iff.2 ⟨_, hcall, ?_⟩
      -- the frame has the port again that it had before the call
      have hback : Function.update (Function.update w.frames vo_img
          { w.frames vo_img with port := post_port.original_port }) vo_img
          { w.frames vo_img with port := (w.frames vo_img).port } = w.frames := by
        rw [Function.update_idem, Function.update_eq_self]
      rw [hcalled]
      unfold World.setFrame
      simp only [Function.update_self, Option.pure_def]
      rw [hback]

/-- The frames when some interceptions of those that a call is about have been removed. -/
def Meant.stripped (slot : Slot) (vo_img forward backward n : ℕ) (m : ℕ → Layered) : ℕ → Layered :=
  fun frame => if removes slot vo_img forward backward frame then (m frame).strip n else m frame

/-- The frames behind the removal of one interception by a port. -/
def World.restoreAll (w : World) (slot : Slot) (vo_img forward backward : ℕ) (port : PostVideoPort) :
    World :=
  { w with frames := fun frame =>
      if removes slot vo_img forward backward frame then port.restored else w.frames frame }

theorem World.restoreVideoFrame_eq {vo_img forward backward : ℕ} {port : PostVideoPort}
    (hremoves : ∀ frame, removes slot vo_img forward backward frame = decide (frame = vo_img)) :
    w.restoreVideoFrame vo_img port = w.restoreAll slot vo_img forward backward port := by
  unfold World.restoreVideoFrame World.setFrame World.restoreAll
  congr 1
  funext frame
  rw [hremoves]
  by_cases h : frame = vo_img
  · rw [h, Function.update_self, if_pos (decide_eq_true rfl)]
  · rw [Function.update_of_ne h, if_neg (by simpa using h)]

theorem World.restoreVideoFrames_eq {current forward backward : ℕ} {port : PostVideoPort} :
    ((w.restoreVideoFrame current port).restoreVideoFrame forward port).restoreVideoFrame backward
        port = w.restoreAll .procMacroBlock current forward backward port := by
  unfold World.restoreVideoFrame World.setFrame World.restoreAll removes
  congr 1
  funext frame
  simp only [Function.update_apply, decide_eq_true_eq]
  split_ifs <;> first | rfl | (exfalso; tauto)

theorem World.invoke_post_removing {vo_img forward backward fuel : ℕ} {port : PostVideoPort}
    (hslot : ¬(slot = .procSlice ∨ slot = .procFrame ∨ slot = .field))
    (hport : w.ports (w.frames vo_img).port = some port) :
    World.invoke slot vo_img forward backward (fuel + 1) (some .post) w =
      World.invoke slot vo_img forward backward fuel (port.restored.fn slot)
        (w.restoreAll slot vo_img forward backward port) := by
  have hrestoring : ∀ slot : Slot, (∀ frame, removes slot vo_img forward backward frame =
        decide (frame = vo_img)) →
      w.restoring (World.invoke slot vo_img forward backward fuel) slot vo_img port =
        World.invoke slot vo_img forward backward fuel (port.restored.fn slot)
          (w.restoreAll slot vo_img forward backward port) := by
    intro slot hremoves
    rw [← World.restoreVideoFrame_eq hremoves]
    unfold World.restoring World.restoreVideoFrame
    dsimp only
    rw [World.setFrame_self]
  have hmacroBlock : w.macroBlock (World.invoke .procMacroBlock vo_img forward backward fuel) vo_img
      forward backward port = World.invoke .procMacroBlock vo_img forward backward fuel
        (port.restored.fn .procMacroBlock)
        (w.restoreAll .procMacroBlock vo_img forward backward port) := by
    unfold World.macroBlock
    dsimp only
    rw [World.restoreVideoFrames_eq]
    unfold World.restoreAll removes
    simp
  rw [World.invoke, hport]
  cases slot with
  | free => exact hrestoring .free fun _ => rfl
  | draw => exact hrestoring .draw fun _ => rfl
  | lock => exact hrestoring .lock fun _ => rfl
  | dispose => exact hrestoring .dispose fun _ => rfl
  | procMacroBlock => exact hmacroBlock
  | procSlice => exact absurd (Or.inl rfl) hslot
  | procFrame => exact absurd (Or.inr (Or.inl rfl)) hslot
  | field => exact absurd (Or.inr (Or.inr rfl)) hslot

theorem Layered.strip_strip (n : ℕ) (l : Layered) : (l.strip 1).strip n = l.strip (n + 1) := by
  obtain ⟨current, _ | ⟨before, below⟩⟩ := l
  · cases n <;> rfl
  · rfl

theorem World.invoke_removing (vo_img forward backward : ℕ)
    (hslot : ¬(slot = .procSlice ∨ slot = .procFrame ∨ slot = .field)) (fuel : ℕ) :
    ∀ {m : ℕ → Layered} {w : World}, (∀ frame, w.frames frame = (m frame).current) →
      (∀ frame, Kept w.ports (m frame).current (m frame).below) →
      (m vo_img).current.fn slot ≠ none →
      (slot = .procMacroBlock → 0 < (m vo_img).depth slot →
        (m forward).current.port = (m vo_img).current.port ∧
        (m backward).current.port = (m vo_img).current.port) →
      (m vo_img).below.length < fuel →
      World.invoke slot vo_img forward backward fuel ((m vo_img).current.fn slot) w =
        some { w with
          frames := fun frame =>
            (Meant.stripped slot vo_img forward backward ((m vo_img).depth slot) m frame).current
          calls := w.calls ++ called slot vo_img (m vo_img) } := by
  induction fuel with
  | zero => exact fun _ _ _ _ h => absurd h (Nat.not_lt_zero _)
  | succ fuel ih =>
    intro m w hframes hkept hfn href hfuel
    by_cases hpost : (m vo_img).current.fn slot = some .post
    swap
    · obtain ⟨id, hid⟩ := exists_original hfn hpost
      rw [World.invoke_original (Nat.succ_pos fuel) hid, called_eq hid, hframes,
        Layered.depth_eq_zero hpost]
      have hsame : (fun frame => (Meant.stripped slot vo_img forward backward 0 m frame).current) =
          w.frames := by
        funext frame
        rw [hframes]
        unfold Meant.stripped
        split <;> rfl
      rw [hsame]
    obtain ⟨port, hport⟩ : ∃ port, w.ports (m vo_img).current.port = some port := by
      cases hnone : w.ports (m vo_img).current.port with
      | some port => exact ⟨port, rfl⟩
      | none =>
        have h := hkept vo_img
        cases hm : m vo_img with
        | mk current below =>
          rw [hm] at h hpost hnone
          cases h with
          | base _ hfn' _ => exact absurd hpost (hfn' slot)
          | layer hsome _ _ => cases hnone.symm.trans hsome
    have hself : removes slot vo_img forward backward vo_img = true := by
      cases slot <;> simp [removes] at hslot ⊢
    have hpos : 0 < (m vo_img).depth slot := by
      obtain ⟨below, hbelow, -, -⟩ := (hkept vo_img).exists_layer hport
      cases hm : m vo_img with
      | mk current below' =>
        rw [hm] at hbelow hpost
        obtain rfl := hbelow
        rw [Layered.depth_cons hpost]
        exact Nat.succ_pos _
    -- all frames that the call is about are intercepted through the port
    have hlayer : ∀ frame, removes slot vo_img forward backward frame = true →
        ∃ below, m frame = ⟨(m frame).current, port.restored :: below⟩ := by
      intro frame hframe
      have hsameport : (m frame).current.port = (m vo_img).current.port := by
        cases slot <;> simp [removes] at hframe hslot
        all_goals first
          | rw [hframe]
          | (obtain rfl | rfl | rfl := hframe
             · rfl
             · exact (href rfl hpos).1
             · exact (href rfl hpos).2)
      obtain ⟨below, hbelow, -, -⟩ := (hkept frame).exists_layer (hsameport ▸ hport)
      exact ⟨below, by rw [← hbelow]⟩
    have hframes' : ∀ frame, (w.restoreAll slot vo_img forward backward port).frames frame =
        (Meant.stripped slot vo_img forward backward 1 m frame).current := by
      intro frame
      unfold World.restoreAll Meant.stripped
      dsimp only
      split
      · obtain ⟨below, hbelow⟩ := hlayer frame ‹_›
        rw [hbelow]
        rfl
      · exact hframes frame
    have hkept' : ∀ frame, Kept w.ports
        (Meant.stripped slot vo_img forward backward 1 m frame).current
        (Meant.stripped slot vo_img forward backward 1 m frame).below := by
      intro frame
      unfold Meant.stripped
      split
      · exact (hkept frame).strip 1
      · exact hkept frame
    have hcurrent : ∀ frame, removes slot vo_img forward backward frame = true →
        (Meant.stripped slot vo_img forward backward 1 m frame).current = port.restored := by
      intro frame hframe
      obtain ⟨below, hbelow⟩ := hlayer frame hframe
      unfold Meant.stripped
      rw [if_pos hframe, hbelow]
      rfl
    obtain ⟨below, hm⟩ := hlayer vo_img hself
    have hm' : Meant.stripped slot vo_img forward backward 1 m vo_img = ⟨port.restored, below⟩ := by
      unfold Meant.stripped
      rw [if_pos hself, hm]
      rfl
    have hdepth : (m vo_img).depth slot =
        (Meant.stripped slot vo_img forward backward 1 m vo_img).depth slot + 1 := by
      rw [hm', hm, Layered.depth_cons hpost]
    have hcalled : called slot vo_img (Meant.stripped slot vo_img forward backward 1 m vo_img) =
        called slot vo_img (m vo_img) := by
      rw [hm', hm]
      unfold called
      rw [Layered.found_cons hpost]
    have hfn' : (Meant.stripped slot vo_img forward backward 1 m vo_img).current.fn slot ≠ none := by
      obtain ⟨_, _, hbefore, heq⟩ := (hkept vo_img).exists_layer hport
      rw [hcurrent vo_img hself]
      rw [heq] at hfn
      exact fn_ne_none_of_intercepted hbefore hfn
    have hlength : (Meant.stripped slot vo_img forward backward 1 m vo_img).below.length < fuel := by
      rw [hm] at hfuel
      rw [hm']
      exact Nat.lt_of_succ_lt_succ hfuel
    have href' : slot = .procMacroBlock →
        0 < (Meant.stripped slot vo_img forward backward 1 m vo_img).depth slot →
        (Meant.stripped slot vo_img forward backward 1 m forward).current.port =
            (Meant.stripped slot vo_img forward backward 1 m vo_img).current.port ∧
          (Meant.stripped slot vo_img forward backward 1 m backward).current.port =
            (Meant.stripped slot vo_img forward backward 1 m vo_img).current.port := by
      rintro rfl -
      have hforward : removes .procMacroBlock vo_img forward backward forward = true := by
        simp [removes]
      have hbackward : removes .procMacroBlock vo_img forward backward backward = true := by
        simp [removes]
      rw [hcurrent forward hforward, hcurrent backward hbackward, hcurrent vo_img hself]
      exact ⟨rfl, rfl⟩
    have hcall := ih hframes' hkept' hfn' href' hlength
    rw [hcurrent vo_img hself, hcalled] at hcall
    rw [hpost, World.invoke_post_removing hslot (by rw [hframes]; exact hport), hcall, hdepth]
    have hstripped : Meant.stripped slot vo_img forward backward
        ((Meant.stripped slot vo_img forward backward 1 m vo_img).depth slot)
        (Meant.stripped slot vo_img forward backward 1 m) =
        Meant.stripped slot vo_img forward backward
          ((Meant.stripped slot vo_img forward backward 1 m vo_img).depth slot + 1) m := by
      funext frame
      by_cases hframe : removes slot vo_img forward backward frame = true
      · simp only [Meant.stripped, if_pos hframe, Layered.strip_strip]
      · simp only [Meant.stripped, if_neg hframe]
    rw [hstripped]
    rfl

/-! ## Runs -/

/-- The frames are as they are meant to be, the ports have what is below the interceptions, and a frame
has not more interceptions than there can have been. -/
structure Sim (ports : ℕ → Option PostVideoPort) (bound : ℕ) (w : World) (m : Meant) : Prop where
  frames : ∀ frame, w.frames frame = (m.frames frame).current
  calls : w.calls = m.calls
  kept : ∀ frame, Kept w.ports (m.frames frame).current (m.frames frame).below
  bound : ∀ frame, (m.frames frame).below.length ≤ bound
  original_port : ∀ port,
    (w.ports port).map PostVideoPort.original_port = (ports port).map PostVideoPort.original_port

variable {bound : ℕ}

theorem World.interceptVideoFrame_eq {frame port : ℕ} {post_port : PostVideoPort}
    (h : w.ports port = some post_port) :
    w.interceptVideoFrame frame port = some
      { frames := Function.update w.frames frame ((w.frames frame).intercepted port)
        ports := Function.update w.ports port
          (some { post_port with original_frame := w.frames frame })
        calls := w.calls } := by
  unfold World.interceptVideoFrame
  rw [h]
  rfl

theorem Sim.intercept {frame port : ℕ} (h : Sim ports bound w m)
    (hfits : m.Fits ports (.intercept frame port)) :
    ∃ w', w.interceptVideoFrame frame port = some w' ∧
      Sim ports (bound + 1) w' (m.op (.intercept frame port)) := by
  obtain ⟨⟨post_port, hsome, horiginal⟩, hsame⟩ := hfits
  have hport := h.original_port port
  rw [hsome, Option.map_some, Option.map_eq_some_iff] at hport
  obtain ⟨post_port', hsome', horiginal'⟩ := hport
  have hframe := h.frames frame
  have hkept : ∀ other, Kept (Function.update w.ports port
      (some { post_port' with original_frame := (m.frames frame).current }))
      (m.frames other).current (m.frames other).below :=
    fun other => (h.kept other).intercept hsome' (hsame other)
  refine ⟨_, World.interceptVideoFrame_eq hsome', ?_, h.calls, ?_, ?_, ?_⟩
  · intro other
    show Function.update w.frames frame ((w.frames frame).intercepted port) other =
      (Function.update m.frames frame ((m.frames frame).intercept port) other).current
    by_cases hother : other = frame
    · subst hother
      rw [Function.update_self, Function.update_self, hframe]
      rfl
    · rw [Function.update_of_ne hother, Function.update_of_ne hother, h.frames]
  · intro other
    show Kept (Function.update w.ports port
      (some { post_port' with original_frame := w.frames frame }))
      (Function.update m.frames frame ((m.frames frame).intercept port) other).current
      (Function.update m.frames frame ((m.frames frame).intercept port) other).below
    rw [hframe]
    by_cases hother : other = frame
    · subst hother
      rw [Function.update_self]
      refine Kept.layer (Function.update_self _ _ _) ?_ (hkept other)
      show VoFrame.mk post_port'.original_port _ = _
      rw [horiginal', horiginal]
    · rw [Function.update_of_ne hother]
      exact hkept other
  · intro other
    show (Function.update m.frames frame ((m.frames frame).intercept port) other).below.length ≤ _
    by_cases hother : other = frame
    · subst hother
      rw [Function.update_self]
      exact Nat.succ_le_succ (h.bound other)
    · rw [Function.update_of_ne hother]
      exact Nat.le_succ_of_le (h.bound other)
  · intro other
    show (Function.update w.ports port _ other).map _ = _
    by_cases hother : other = port
    · subst hother
      rw [Function.update_self, ← h.original_port, hsome']
      rfl
    · rw [Function.update_of_ne hother, h.original_port]

theorem Sim.call (fuel : ℕ) {vo_img forward backward : ℕ} (h : Sim ports bound w m)
    (hfits : m.Fits ports (.call slot vo_img forward backward)) (hfuel : bound < fuel) :
    ∃ w', World.invoke slot vo_img forward backward fuel ((w.frames vo_img).fn slot) w = some w' ∧
      Sim ports bound w' (m.op (.call slot vo_img forward backward)) := by
  obtain ⟨hfn, href⟩ := hfits
  have hlength := h.bound vo_img
  have hcalls : w.calls ++ called slot vo_img (m.frames vo_img) =
      (m.op (.call slot vo_img forward backward)).calls := by
    rw [h.calls]
    rfl
  rw [h.frames vo_img]
  by_cases hslot : slot = .procSlice ∨ slot = .procFrame ∨ slot = .field
  · have hcall := World.invoke_passing vo_img forward backward hslot fuel
      (h.kept vo_img) (by rw [h.frames]) hfn (by omega)
    have hframes : (m.op (.call slot vo_img forward backward)).frames = m.frames := by
      rcases hslot with rfl | rfl | rfl <;> rfl
    refine ⟨_, hcall, ?_, hcalls, ?_, ?_, h.original_port⟩
    · rw [hframes]
      exact h.frames
    · rw [hframes]
      exact h.kept
    · rw [hframes]
      exact h.bound
  · have hcall := World.invoke_removing vo_img forward backward hslot fuel h.frames
      h.kept hfn href (by omega)
    refine ⟨_, hcall, fun _ => rfl, hcalls, ?_, ?_, h.original_port⟩
    · intro frame
      show Kept w.ports (ite _ _ _ : Layered).current (ite _ _ _ : Layered).below
      split
      · exact (h.kept frame).strip _
      · exact h.kept frame
    · intro frame
      show (ite _ _ _ : Layered).below.length ≤ bound
      split
      · exact Nat.le_trans (Layered.strip_length _ _) (h.bound frame)
      · exact h.bound frame

theorem Sim.run (fuel : ℕ) (ops : List Op) : ∀ {bound : ℕ} {w : World} {m : Meant},
    Sim ports bound w m → m.FitsRun ports ops → bound + ops.length < fuel →
      ∃ w', w.run fuel ops = some w' ∧ Sim ports (bound + ops.length) w' (ops.foldl Meant.op m) := by
  induction ops with
  | nil => exact fun h _ _ => ⟨_, rfl, h⟩
  | cons op ops ih =>
    intro bound w m h hfits hfuel
    rw [List.length_cons] at hfuel
    have hstep : ∃ w₁, w.op fuel op = some w₁ ∧ Sim ports (bound + 1) w₁ (m.op op) := by
      cases op with
      | intercept frame port => exact h.intercept hfits.1
      | call slot vo_img forward backward =>
        obtain ⟨w₁, hcall, hsim⟩ := h.call fuel hfits.1 (by omega)
        exact ⟨w₁, hcall, hsim.frames, hsim.calls, hsim.kept,
          fun frame => Nat.le_succ_of_le (hsim.bound frame), hsim.original_port⟩
    obtain ⟨w₁, hop, hsim⟩ := hstep
    obtain ⟨w', hrun, hsim'⟩ := ih hsim hfits.2 (by omega)
    refine ⟨w', ?_, ?_⟩
    · rw [World.run, hop]
      exact hrun
    · rw [List.length_cons, show bound + (ops.length + 1) = bound + 1 + ops.length by omega]
      exact hsim'

/-- Frames that have not been intercepted, with all the functions that a frame always has. -/
structure World.Fresh (w : World) : Prop where
  port : ∀ frame, w.ports (w.frames frame).port = none
  original : ∀ frame slot, (w.frames frame).fn slot ≠ some .post
  present : ∀ frame slot, slot.optional = false → (w.frames frame).fn slot ≠ none

/-- What is meant in front of a run: no frame has been intercepted. -/
def World.meant (w : World) : Meant where
  frames := fun frame => { current := w.frames frame, below := [] }
  calls := w.calls

/-- In a run whose operations all find what they are to find, every call goes to the function that the
frame came with, and every frame has what it had before the interceptions that have been removed. -/
theorem run_meant (w : World) (hfresh : w.Fresh) (ops : List Op) (hfits : w.meant.FitsRun w.ports ops)
    (fuel : ℕ) (hfuel : ops.length < fuel) :
    ∃ w', w.run fuel ops = some w' ∧ w'.calls = (ops.foldl Meant.op w.meant).calls ∧
      ∀ frame, w'.frames frame = ((ops.foldl Meant.op w.meant).frames frame).current := by
  have hsim : Sim w.ports 0 w w.meant :=
    ⟨fun _ => rfl, rfl, fun frame => Kept.base (hfresh.port frame) (hfresh.original frame)
      (hfresh.present frame), fun _ => Nat.le_refl 0, fun _ => rfl⟩
  obtain ⟨w', hrun, hsim'⟩ := hsim.run fuel ops hfits (by omega)
  exact ⟨w', hrun, hsim'.calls, hsim'.frames⟩

/-- Two frames of a video output, and a post plugin above it. -/
def twoFrames (id₀ id₁ : ℕ) : World where
  frames := fun frame =>
    { port := 0, fn := fun _ => some (.original (if frame = 0 then id₀ else id₁)) }
  ports := fun port =>
    if port = 1 then some { original_port := 0, original_frame := { port := 0, fn := fun _ => none } }
    else none
  calls := []

/-- Both frames are intercepted, and the first one is freed. -/
def bothFrames : List Op := [.intercept 0 1, .intercept 1 1, .call .free 0 0 0]

/-- The first frame is freed with the function of the second one, and keeps the functions of that. -/
theorem run_not_meant :
    ((twoFrames 10 20).run 4 bothFrames).map (fun w => (w.calls, (w.frames 0).fn .draw)) =
        some ([{ slot := .free, frame := 0, id := 20, port := 0 }], some (.original 20)) ∧
      ((twoFrames 10 20).frames 0).fn .free = some (.original 10) ∧
      ((twoFrames 10 20).frames 0).fn .draw = some (.original 10) :=
  ⟨by decide, by decide, by decide⟩

theorem run_meant_bothFrames :
    ∃ w', (twoFrames 10 10).run 4 bothFrames = some w' ∧
      w'.calls = [{ slot := .free, frame := 0, id := 10, port := 0 }] ∧
      ∀ frame, w'.frames frame =
        ((bothFrames.foldl Meant.op (twoFrames 10 10).meant).frames frame).current := by
  have hnone : ∀ other before, (1, before) ∈ ((twoFrames 10 10).meant.frames other).layers →
      before.fn = ((twoFrames 10 10).meant.frames 0).current.fn :=
    fun _ _ h => absurd h List.not_mem_nil
  have hsame : ∀ other before,
      (1, before) ∈ (((twoFrames 10 10).meant.op (.intercept 0 1)).frames other).layers →
      before.fn = (((twoFrames 10 10).meant.op (.intercept 0 1)).frames 1).current.fn := by
    intro other before h
    by_cases hother : other = 0
    · subst hother
      obtain rfl : before = (twoFrames 10 10).frames 0 := congrArg Prod.snd (List.mem_singleton.1 h)
      rfl
    · have hframe : ((twoFrames 10 10).meant.op (.intercept 0 1)).frames other =
          (twoFrames 10 10).meant.frames other := Function.update_of_ne hother _ _
      rw [hframe] at h
      exact absurd h List.not_mem_nil
  refine run_meant (twoFrames 10 10) ⟨fun _ => rfl, ?_, ?_⟩ bothFrames ?_ 4 (by decide)
  · exact fun frame slot => by simp [twoFrames]
  · exact fun frame slot _ => by simp [twoFrames]
  · exact ⟨⟨⟨_, rfl, rfl⟩, hnone⟩, ⟨⟨_, rfl, rfl⟩, hsame⟩, ⟨Option.some_ne_none _, fun h => by cases h⟩,
      trivial⟩

end Xine.Post
