import Xine.Spu.Commands

/-!
# The chain of control sequences

Where the control sequences of a unit and their commands are, from the bytes of the unit alone, and the offsets
that `spudec_process` reads, which are those of these sequences and commands.
-/

namespace Xine.Spu

open Octets

/-! ## Sequences and commands in a unit -/

/-- The bytes of a command that are looked at. -/
def Command.size : Command → ℕ
  | .setPalette | .setAlpha | .wipe => 3
  | .setSize => 7
  | .setPxdOffset => 5
  | .forceDisplay | .showSpu | .hideSpu | .eof | .unknown => 1

/-- The size of the command at an offset. -/
def sizeAt (mem : ℕ → Byte) (p : ℕ) : ℕ := (Command.ofByte (mem p)).size

/-- The offset behind a command. Only a wipe has its length in the unit. -/
def follow (mem : ℕ → Byte) (p : ℕ) : ℕ :=
  if Command.ofByte (mem p) = .wipe then p + (1 + word mem (p + 1)) else p + sizeAt mem p

/-- The offsets of the commands from `p` on and before the next sequence. -/
def commandOffsets (mem : ℕ → Byte) (next_seq : ℕ) : ℕ → ℕ → List ℕ
  | 0, _ => []
  | fuel + 1, p =>
    if p < next_seq then
      p :: (if Command.ofByte (mem p) = .eof ∨ Command.ofByte (mem p) = .unknown then []
        else commandOffsets mem next_seq fuel (follow mem p))
    else
      []

/-- The offsets of the commands of the sequence at `offs`. -/
def sequenceCommands (mem : ℕ → Byte) (seq_len offs : ℕ) : List ℕ :=
  commandOffsets mem (nextSeq mem seq_len offs) (nextSeq mem seq_len offs) (offs + 4)

/-- A command that makes the unit a broken one. -/
def faulty (mem : ℕ → Byte) (seq_len p : ℕ) : Bool :=
  match Command.ofByte (mem p) with
  | .unknown => true
  | .setPxdOffset => decide (seq_len ≤ word mem (p + 1)) || decide (seq_len ≤ word mem (p + 3))
  | _ => false

/-- Whether the picture is shown behind a command. -/
def shows (mem : ℕ → Byte) (visible : OverlayEvent) (p : ℕ) : OverlayEvent :=
  match Command.ofByte (mem p) with
  | .showSpu => .eventShow
  | .hideSpu => .eventHide
  | _ => visible

/-- The offsets that a sequence has read: those of its head and those of its commands. -/
def sequenceReads (mem : ℕ → Byte) (seq_len offs : ℕ) : List ℕ :=
  [offs, offs + 1, offs + 2, offs + 3] ++
    (sequenceCommands mem seq_len offs).flatMap fun p => List.range' p (sizeAt mem p)

/-- Where a sequence begins, and what the sequences before it have left. -/
structure Place where
  offs : ℕ
  visible : OverlayEvent
  forced : Bool
  handle : ℤ

/-- What the commands of a sequence leave to the next one. -/
def Place.next (mem : ℕ → Byte) (seq_len : ℕ) (place : Place) : Place where
  offs := nextSeq mem seq_len place.offs
  visible := (sequenceCommands mem seq_len place.offs).foldl (shows mem) place.visible
  forced := place.forced ||
    (sequenceCommands mem seq_len place.offs).any fun p => Command.ofByte (mem p) = .forceDisplay
  handle := place.handle

/-- The offsets of the sequences that are reached. The chain ends with the unit, and before that where
another channel is selected, at a broken unit, at an unforced subpicture when only the forced ones are
wanted, and when there is no handle for the picture. -/
def chain (arrival : Arrival) : ℕ → ℕ → Place → List ℕ
  | 0, _, _ => []
  | fuel + 1, n, place =>
    let turn := arrival.turns n
    let seq_len := arrival.seq.seq_len
    let next := place.next arrival.mem seq_len
    let hidden := turn.hli_s_ptm = arrival.pts ∧ next.visible = .eventHide
    let handle := if place.handle < 0 then turn.handle else place.handle
    if turn.spu_channel % 32 ≠ arrival.stream_id then
      []
    else
      place.offs ::
        if (sequenceCommands arrival.mem seq_len place.offs).any (faulty arrival.mem seq_len) then []
        else if !next.forced && turn.spu_channel_forced.testBit 7 then []
        else if seq_len ≤ next.offs then []
        else if hidden then chain arrival fuel (n + 1) next
        else if handle < 0 then []
        else chain arrival fuel (n + 1) { next with handle := handle }

/-- The offsets of the sequences of a unit that are reached. -/
def Arrival.sequences (arrival : Arrival) : List ℕ :=
  chain arrival (arrival.seq.seq_len + 1) 0
    { offs := arrival.seq.cmd_offs, visible := .eventShow, forced := false,
      handle := arrival.menu_handle }

/-- The chain of a unit is inside the unit: each sequence that is reached has the four bytes of its
head, and each of its commands what is looked at. -/
def Arrival.Inside (arrival : Arrival) : Prop :=
  ∀ offs ∈ arrival.sequences, offs + 4 ≤ arrival.seq.seq_len ∧
    ∀ p ∈ sequenceCommands arrival.mem arrival.seq.seq_len offs,
      p + sizeAt arrival.mem p ≤ arrival.seq.seq_len

instance (arrival : Arrival) : Decidable arrival.Inside :=
  inferInstanceAs (Decidable (∀ offs ∈ arrival.sequences, _))

/-! ## The commands of a sequence -/

variable {mem : ℕ → Byte} {control control' : Control} {buf : ℕ}

theorem Command.size_pos (c : Command) : 0 < c.size := by cases c <;> decide

theorem lt_follow (mem : ℕ → Byte) (p : ℕ) : p < follow mem p := by
  unfold follow sizeAt
  have := Command.size_pos (Command.ofByte (mem p))
  split <;> omega

/-- What is left alone by the commands of a sequence, and what they do to the rest, when the commands
are at some offsets. -/
structure Control.Does (mem : ℕ → Byte) (control : Control) (offsets : List ℕ)
    (control' : Control) : Prop where
  reads : control'.reads =
    control.reads ++ offsets.flatMap fun p => List.range' p (sizeAt mem p)
  cmd_ptr : control'.state.cmd_ptr = control.state.cmd_ptr
  seq : control'.seq =
    { control.seq with
      broken := control.seq.broken || offsets.any (faulty mem control.seq.seq_len) }
  visible : control'.state.visible = offsets.foldl (shows mem) control.state.visible
  forced : control'.state.forced_display = (control.state.forced_display ||
    offsets.any fun p => Command.ofByte (mem p) = .forceDisplay)

theorem Control.Does.refl (mem : ℕ → Byte) (control : Control) : control.Does mem [] control where
  reads := (List.append_nil _).symm
  cmd_ptr := rfl
  seq := by rw [List.any_nil, Bool.or_false]
  visible := rfl
  forced := by rw [List.any_nil, Bool.or_false]

theorem Control.Does.trans {control₁ control₂ : Control} {l₁ l₂ : List ℕ}
    (h₁ : control.Does mem l₁ control₁) (h₂ : control₁.Does mem l₂ control₂) :
    control.Does mem (l₁ ++ l₂) control₂ where
  reads := by rw [h₂.reads, h₁.reads, List.flatMap_append, List.append_assoc]
  cmd_ptr := h₂.cmd_ptr.trans h₁.cmd_ptr
  seq := by rw [h₂.seq, h₁.seq, List.any_append, Bool.or_assoc]
  visible := by rw [h₂.visible, h₁.visible, List.foldl_append]
  forced := by rw [h₂.forced, h₁.forced, List.any_append, Bool.or_assoc]

theorem Control.does_eof (heof : Command.ofByte (mem buf) = .eof) (control : Control) :
    control.Does mem [buf] { control with reads := control.reads ++ [buf] } where
  reads := by simp [sizeAt, heof, Command.size]
  cmd_ptr := rfl
  seq := by simp [faulty, heof]
  visible := by simp [shows, heof]
  forced := by simp [heof]

theorem Control.does_command (next_seq : ℕ) (hne : Command.ofByte (mem buf) ≠ .eof) (control : Control) :
    control.Does mem [buf]
        (Control.command mem next_seq buf { control with reads := control.reads ++ [buf] }).1 ∧
      (Control.command mem next_seq buf { control with reads := control.reads ++ [buf] }).2 =
        if Command.ofByte (mem buf) = .unknown then next_seq else follow mem buf := by
  unfold Control.command follow sizeAt
  rcases hb : Command.ofByte (mem buf)
  all_goals first
    | exact absurd hb hne
    | refine ⟨⟨?_, ?_, ?_, ?_, ?_⟩, ?_⟩
  all_goals
    simp [sizeAt, hb, Command.size, faulty, shows, List.range'_succ, Bool.or_comm]

theorem commandOffsets_fuel (mem : ℕ → Byte) (next_seq : ℕ) :
    ∀ (fuel fuel' p : ℕ), next_seq ≤ fuel + p → next_seq ≤ fuel' + p →
      commandOffsets mem next_seq fuel p = commandOffsets mem next_seq fuel' p
  | 0, 0, p, _, _ => rfl
  | 0, fuel' + 1, p, h, _ => by
    rw [commandOffsets, commandOffsets, if_neg (by omega)]
  | fuel + 1, 0, p, _, h' => by
    rw [commandOffsets, commandOffsets, if_neg (by omega)]
  | fuel + 1, fuel' + 1, p, h, h' => by
    have hlt := lt_follow mem p
    rw [commandOffsets, commandOffsets,
      commandOffsets_fuel mem next_seq fuel fuel' (follow mem p) (by omega) (by omega)]

theorem commandOffsets_self (mem : ℕ → Byte) (next_seq fuel : ℕ) :
    commandOffsets mem next_seq fuel next_seq = [] := by
  cases fuel with
  | zero => rfl
  | succ fuel => rw [commandOffsets, if_neg (Nat.lt_irrefl next_seq)]

theorem Control.commands_does (mem : ℕ → Byte) (next_seq fuel : ℕ) :
    ∀ (buf : ℕ) (control : Control), next_seq ≤ fuel + buf →
      ∃ control', Control.commands mem next_seq (fuel + 1) buf control = some control' ∧
        control.Does mem (commandOffsets mem next_seq fuel buf) control' := by
  induction fuel with
  | zero =>
    intro buf control h
    refine ⟨control, ?_, Control.Does.refl mem control⟩
    rw [Control.commands, if_neg (by omega)]
  | succ fuel ih =>
    intro buf control h
    rw [Control.commands, commandOffsets]
    by_cases hlt : buf < next_seq
    · rw [if_pos hlt, if_pos hlt]
      by_cases heof : Command.ofByte (mem buf) = .eof
      · rw [if_pos heof, if_pos (Or.inl heof)]
        exact ⟨_, rfl, Control.does_eof heof control⟩
      · rw [if_neg heof]
        obtain ⟨hdoes, hbuf⟩ := Control.does_command next_seq heof control
        rcases hstep : Control.command mem next_seq buf
          { control with reads := control.reads ++ [buf] } with ⟨control₁, buf₁⟩
        rw [hstep] at hdoes hbuf
        have hfollow := lt_follow mem buf
        by_cases hunknown : Command.ofByte (mem buf) = .unknown
        · -- nothing more is done behind an unknown command
          rw [if_pos hunknown] at hbuf
          obtain ⟨control', hrun, hrest⟩ := ih buf₁ control₁ (by omega)
          refine ⟨control', hrun, ?_⟩
          have hnil : commandOffsets mem next_seq fuel buf₁ = [] := by
            rw [show buf₁ = next_seq from hbuf, commandOffsets_self]
          rw [hnil] at hrest
          rw [if_pos (Or.inr hunknown)]
          exact hdoes.trans hrest
        · rw [if_neg hunknown] at hbuf
          obtain ⟨control', hrun, hrest⟩ := ih buf₁ control₁ (by omega)
          refine ⟨control', hrun, ?_⟩
          rw [if_neg (by simp [heof, hunknown])]
          rw [show buf₁ = follow mem buf from hbuf] at hrest
          exact hdoes.trans hrest
    · rw [if_neg hlt, if_neg hlt]
      exact ⟨control, rfl, Control.Does.refl mem control⟩

/-- What `spudec_do_commands` does with the sequence at `offs`. -/
structure Control.DoesSequence (mem : ℕ → Byte) (control : Control) (offs : ℕ)
    (control' : Control) : Prop where
  reads : control'.reads = control.reads ++ sequenceReads mem control.seq.seq_len offs
  cmd_ptr : control'.state.cmd_ptr = nextSeq mem control.seq.seq_len offs
  seq : control'.seq = { control.seq with
    broken := control.seq.broken ||
      (sequenceCommands mem control.seq.seq_len offs).any (faulty mem control.seq.seq_len)
    finished := decide (control.seq.seq_len ≤ nextSeq mem control.seq.seq_len offs) ||
      control.seq.finished }
  visible : control'.state.visible =
    (sequenceCommands mem control.seq.seq_len offs).foldl (shows mem) control.state.visible
  forced : control'.state.forced_display = (control.state.forced_display ||
    (sequenceCommands mem control.seq.seq_len offs).any
      fun p => Command.ofByte (mem p) = .forceDisplay)

theorem Control.doCommands_does (mem : ℕ → Byte) (control : Control) {offs fuel : ℕ}
    (hoffs : control.state.cmd_ptr = offs) (hfuel : nextSeq mem control.seq.seq_len offs < fuel) :
    ∃ control', control.doCommands mem fuel = some control' ∧
      control.DoesSequence mem offs control' := by
  subst hoffs
  obtain ⟨fuel, rfl⟩ : ∃ f, fuel = f + 1 := ⟨fuel - 1, by omega⟩
  obtain ⟨control', hrun, hdoes⟩ := Control.commands_does mem
    (nextSeq mem control.seq.seq_len control.state.cmd_ptr) fuel (control.state.cmd_ptr + 4)
    { control with
      state := { control.state with
        delay := word mem control.state.cmd_ptr
        cmd_ptr := nextSeq mem control.seq.seq_len control.state.cmd_ptr }
      reads := control.reads ++ [control.state.cmd_ptr, control.state.cmd_ptr + 1,
        control.state.cmd_ptr + 2, control.state.cmd_ptr + 3] } (by omega)
  rw [commandOffsets_fuel mem _ fuel (nextSeq mem control.seq.seq_len control.state.cmd_ptr)
    (control.state.cmd_ptr + 4) (by omega) (by omega)] at hdoes
  refine ⟨{ control' with seq := { control'.seq with
    finished := decide (control'.seq.seq_len ≤
      nextSeq mem control.seq.seq_len control.state.cmd_ptr) || control'.seq.finished } },
    ?_, ⟨?_, hdoes.cmd_ptr, ?_, hdoes.visible, hdoes.forced⟩⟩
  · unfold Control.doCommands
    exact Option.bind_eq_some_iff.2 ⟨control', hrun, rfl⟩
  · rw [hdoes.reads, List.append_assoc]
    rfl
  · simp only [hdoes.seq]
    rfl

/-! ## The chain -/

theorem nextSeq_lt (mem : ℕ → Byte) (seq_len offs : ℕ) : nextSeq mem seq_len offs < 65536 + seq_len := by
  have hword : word mem (offs + 2) < 2^(8 * 2) := ofBig_lt _
  unfold nextSeq
  split <;> omega

theorem lt_nextSeq {mem : ℕ → Byte} {seq_len offs : ℕ} (h : nextSeq mem seq_len offs < seq_len) :
    offs < nextSeq mem seq_len offs := by
  unfold nextSeq at h ⊢
  split at h
  · omega
  · rw [if_neg ‹_›]
    omega

/-- The standing of the processing is at a place of the chain. -/
structure Process.At (arrival : Arrival) (place : Place) (process : Process) : Prop where
  offs : process.control.state.cmd_ptr = place.offs
  visible : process.control.state.visible = place.visible
  forced : process.control.state.forced_display = place.forced
  handle : process.menu_handle = place.handle
  seq_len : process.control.seq.seq_len = arrival.seq.seq_len
  broken : process.control.seq.broken = false

theorem Process.loop_finished {mem : ℕ → Byte} {stream_id : ℕ} {pts vpts : ℤ} {turns : ℕ → Turn}
    (commandFuel n : ℕ) {fuel : ℕ} {process : Process} (hfuel : 0 < fuel)
    (h : process.control.seq.finished = true) :
    process.loop mem stream_id pts vpts turns commandFuel fuel n = some process := by
  obtain ⟨fuel, rfl⟩ : ∃ f, fuel = f + 1 := ⟨fuel - 1, by omega⟩
  rw [Process.loop, if_pos h]

theorem Process.loop_reads (arrival : Arrival) {commandFuel : ℕ}
    (hcommand : 65536 + arrival.seq.seq_len ≤ commandFuel) (fuel : ℕ) :
    ∀ (loopFuel n : ℕ) (place : Place) (process : Process), fuel < loopFuel →
      process.At arrival place → process.control.seq.finished = false →
      arrival.seq.seq_len - place.offs < fuel →
      ∃ process', process.loop arrival.mem arrival.stream_id arrival.pts arrival.vpts arrival.turns
          commandFuel loopFuel n = some process' ∧
        process'.control.reads = process.control.reads ++
          (chain arrival fuel n place).flatMap (sequenceReads arrival.mem arrival.seq.seq_len) := by
  induction fuel with
  | zero => exact fun _ _ _ _ _ _ _ h => absurd h (Nat.not_lt_zero _)
  | succ fuel ih =>
    intro loopFuel n place process hloop hat hfinished hfuel
    obtain ⟨loopFuel, rfl⟩ : ∃ l, loopFuel = l + 1 := ⟨loopFuel - 1, by omega⟩
    have hmore : 0 < loopFuel := by omega
    rw [Process.loop, chain, if_neg (by rw [hfinished]; exact Bool.false_ne_true)]
    dsimp only
    by_cases hselected : (arrival.turns n).spu_channel % 32 ≠ arrival.stream_id
    · rw [if_pos hselected, if_pos hselected]
      exact ⟨process, rfl, (List.append_nil _).symm⟩
    rw [if_neg hselected, if_neg hselected]
    have hnext : nextSeq arrival.mem process.control.seq.seq_len place.offs < commandFuel := by
      have hlt := nextSeq_lt arrival.mem process.control.seq.seq_len place.offs
      rw [hat.seq_len] at hlt ⊢
      exact Nat.lt_of_lt_of_le hlt hcommand
    obtain ⟨control, hrun, hdoes⟩ := process.control.doCommands_does arrival.mem hat.offs hnext
    obtain ⟨hreads, hcmd_ptr, hseq, hvisible, hforced⟩ := hdoes
    rw [hat.seq_len] at hreads hcmd_ptr hseq hvisible hforced
    rw [hat.broken, Bool.false_or, hfinished, Bool.or_false] at hseq
    rw [hat.visible] at hvisible
    rw [hat.forced] at hforced
    rw [hrun, List.flatMap_cons, ← List.append_assoc, ← hreads]
    simp only [Option.bind_eq_bind, Option.bind_some]
    have hbroken : control.seq.broken = (sequenceCommands arrival.mem arrival.seq.seq_len
        place.offs).any (faulty arrival.mem arrival.seq.seq_len) := by rw [hseq]
    have hlast : control.seq.finished =
        decide (arrival.seq.seq_len ≤ (place.next arrival.mem arrival.seq.seq_len).offs) := by
      rw [hseq]
      rfl
    have hseq_len : control.seq.seq_len = arrival.seq.seq_len := by rw [hseq, hat.seq_len]
    replace hvisible : control.state.visible =
        (place.next arrival.mem arrival.seq.seq_len).visible := hvisible
    replace hforced : control.state.forced_display =
        (place.next arrival.mem arrival.seq.seq_len).forced := hforced
    rw [hbroken, hforced, hvisible, hat.handle]
    by_cases hfaulty : (sequenceCommands arrival.mem arrival.seq.seq_len place.offs).any
        (faulty arrival.mem arrival.seq.seq_len) = true
    · rw [if_pos hfaulty, if_pos hfaulty]
      exact ⟨_, rfl, (List.append_nil _).symm⟩
    rw [if_neg hfaulty, if_neg hfaulty]
    rw [Bool.not_eq_true] at hfaulty
    rw [hfaulty] at hbroken
    by_cases hunforced : (!(place.next arrival.mem arrival.seq.seq_len).forced &&
        (arrival.turns n).spu_channel_forced.testBit 7) = true
    · rw [if_pos hunforced, if_pos hunforced]
      exact ⟨_, rfl, (List.append_nil _).symm⟩
    rw [if_neg hunforced, if_neg hunforced]
    by_cases hend : arrival.seq.seq_len ≤ (place.next arrival.mem arrival.seq.seq_len).offs
    · -- the last sequence: whatever the turn comes to, there is no further one
      rw [if_pos hend]
      rw [decide_eq_true hend] at hlast
      simp only [List.flatMap_nil, List.append_nil]
      by_cases hhidden : (arrival.turns n).hli_s_ptm = arrival.pts ∧
          (place.next arrival.mem arrival.seq.seq_len).visible = .eventHide
      · rw [if_pos hhidden]
        exact ⟨_, Process.loop_finished _ _ hmore hlast, rfl⟩
      rw [if_neg hhidden]
      by_cases hhandle : (if place.handle < 0 then (arrival.turns n).handle else place.handle) < 0
      · rw [if_pos hhandle]
        exact ⟨_, rfl, rfl⟩
      · rw [if_neg hhandle]
        exact ⟨_, Process.loop_finished _ _ hmore hlast, rfl⟩
    · rw [if_neg hend]
      rw [decide_eq_false hend] at hlast
      have hforward := lt_nextSeq (Nat.not_le.1 hend)
      have hmeasure : arrival.seq.seq_len -
          (place.next arrival.mem arrival.seq.seq_len).offs < fuel := by
        have hoffs : (place.next arrival.mem arrival.seq.seq_len).offs =
          nextSeq arrival.mem arrival.seq.seq_len place.offs := rfl
        omega
      by_cases hhidden : (arrival.turns n).hli_s_ptm = arrival.pts ∧
          (place.next arrival.mem arrival.seq.seq_len).visible = .eventHide
      · rw [if_pos hhidden, if_pos hhidden]
        exact ih loopFuel (n + 1) _ _ (by omega) ⟨hcmd_ptr, hvisible, hforced, rfl, hseq_len, hbroken⟩ hlast hmeasure
      rw [if_neg hhidden, if_neg hhidden]
      by_cases hhandle : (if place.handle < 0 then (arrival.turns n).handle else place.handle) < 0
      · rw [if_pos hhandle, if_pos hhandle]
        exact ⟨_, rfl, (List.append_nil _).symm⟩
      · rw [if_neg hhandle, if_neg hhandle]
        exact ih loopFuel (n + 1) _ _ (by omega) ⟨hcmd_ptr, rfl, rfl, rfl, hseq_len, hbroken⟩ hlast hmeasure

theorem Arrival.spudecProcess_reads (arrival : Arrival) {fuel : ℕ}
    (hfuel : 65536 + arrival.seq.seq_len + 2 ≤ fuel) :
    ∃ process, arrival.spudecProcess fuel = some process ∧
      process.control.reads =
        arrival.sequences.flatMap (sequenceReads arrival.mem arrival.seq.seq_len) := by
  unfold Arrival.spudecProcess
  have hcommand : 65536 + arrival.seq.seq_len ≤ fuel := by omega
  exact Process.loop_reads arrival hcommand (arrival.seq.seq_len + 1) fuel 0
    { offs := arrival.seq.cmd_offs, visible := .eventShow, forced := false,
      handle := arrival.menu_handle } arrival.start (by omega)
    ⟨rfl, rfl, rfl, rfl, rfl, arrival.unbroken⟩ rfl (by dsimp only; omega)

theorem sequenceReads_lt_iff (mem : ℕ → Byte) (seq_len offs : ℕ) :
    (∀ offset ∈ sequenceReads mem seq_len offs, offset < seq_len) ↔
      offs + 4 ≤ seq_len ∧ ∀ p ∈ sequenceCommands mem seq_len offs, p + sizeAt mem p ≤ seq_len := by
  have hsize : ∀ p, 0 < sizeAt mem p := fun p => Command.size_pos _
  unfold sequenceReads
  simp only [List.mem_append, List.mem_flatMap, List.mem_range'_1]
  constructor
  · intro h
    refine ⟨?_, fun p hp => ?_⟩
    · have := h (offs + 3) (Or.inl (by simp))
      omega
    · have hpos := hsize p
      have := h (p + (sizeAt mem p - 1)) (Or.inr ⟨p, hp, by omega, by omega⟩)
      omega
  · rintro ⟨hhead, hcommands⟩ offset (hoffset | ⟨p, hp, _, hlt⟩)
    · simp only [List.mem_cons, List.not_mem_nil, or_false] at hoffset
      omega
    · have := hcommands p hp
      omega

/-- The processing of a unit ends, and it reads inside the unit if and only if the chain of control
sequences is inside the unit. -/
theorem Arrival.spudecProcess_inside (arrival : Arrival) (fuel : ℕ)
    (hfuel : 65536 + arrival.seq.seq_len + 2 ≤ fuel) :
    ∃ process, arrival.spudecProcess fuel = some process ∧
      ((∀ offset ∈ process.control.reads, offset < arrival.seq.seq_len) ↔ arrival.Inside) := by
  obtain ⟨process, hrun, hreads⟩ := arrival.spudecProcess_reads hfuel
  refine ⟨process, hrun, ?_⟩
  rw [hreads]
  simp only [List.mem_flatMap, forall_exists_index, and_imp]
  unfold Arrival.Inside
  constructor
  · intro h offs hoffs
    exact (sequenceReads_lt_iff _ _ _).1 fun offset hoffset => h offset offs hoffs hoffset
  · intro h offset offs hoffs
    exact (sequenceReads_lt_iff _ _ _).2 (h offs hoffs) offset

/-- A unit that is at its end where its control sequence begins: the head of the sequence is behind
it. The channel is selected, and there is a handle. -/
def clipped : Arrival where
  mem := fun offset => [0, 6, 0, 4, 1, 2].getD offset 0
  seq := { SpudecSeq.start with
    buf := [some 0, some 6, some 0, some 4, some 1, some 2]
    ra_offs := 6
    seq_len := 6
    buf_len := 6
    cmd_offs := 4 }
  unbroken := rfl
  state :=
    { cmd_ptr := 0
      field_offs := (0, 0)
      modified := false
      visible := .eventHide
      forced_display := false
      delay := 0
      cur_colors := []
      clut := [] }
  ovl := { x := 0, y := 0, width := 0, height := 0, color := [], trans := [] }
  stream_id := 0
  pts := 0
  vpts := 0
  menu_handle := 0
  last_event_vpts := 0
  turns := fun _ => { spu_channel := 0, spu_channel_forced := 0, hli_s_ptm := 1, handle := 0 }

/-- The reassembly accepts the unit, and the processing reads behind it. -/
theorem spudecProcess_not_inside :
    spudecReassembly SpudecSeq.start [0, 6, 0, 4, 1, 2] = some clipped.seq ∧
      clipped.seq.complete = true ∧
      ∃ process, clipped.spudecProcess 10 = some process ∧
        7 ∈ process.control.reads ∧ ¬7 < clipped.seq.seq_len :=
  ⟨by decide, rfl, (clipped.spudecProcess 10).get (by decide), by decide, by decide, by decide⟩

/-- A unit with a control sequence in it: the size, the offset of the commands, a delay, a link to the
sequence itself, the picture is shown, and there are no more commands. -/
def shown : Arrival :=
  { clipped with
    mem := fun offset => [0, 10, 0, 4, 0, 1, 0, 4, 1, 255].getD offset 0
    seq := { clipped.seq with seq_len := 10 } }

theorem spudecProcess_inside_shown :
    ∃ process, shown.spudecProcess 65548 = some process ∧
      ∀ offset ∈ process.control.reads, offset < 10 := by
  obtain ⟨process, hrun, hiff⟩ := shown.spudecProcess_inside 65548 (by decide)
  exact ⟨process, hrun, hiff.2 (by decide)⟩

end Xine.Spu
