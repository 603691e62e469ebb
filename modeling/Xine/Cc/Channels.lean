import Xine.Cc.Decoder
import Xine.Library.Instances

/-!
# The channels of the captions

Both channels are in one memory, which the commands of either channel erase and swap, and the active channel is a
field of that memory.
-/

namespace Xine.Cc

/-- What the decoder has of channel 1. -/
structure Captions where
  on_buf : CcBuffer
  off_buf : CcBuffer
  swapped : Bool
  displayed : Bool
  display : List CcDisplay
deriving DecidableEq

def CcDecoder.captions (d : CcDecoder) : Captions where
  on_buf := d.on_buf.channel[0]
  off_buf := d.off_buf.channel[0]
  swapped := d.swapped
  displayed := d.displayed
  display := d.display

/-! ## A decoder of channel 1 alone -/

def Captions.hide (k : Captions) : Captions :=
  if k.displayed then { k with displayed := false, display := k.display ++ [.hideCaption] } else k

/-- The memory on the screen is shown if there is something in it. -/
def Captions.reveal (k : Captions) : Captions :=
  if ccbufHasDisplayable k.on_buf then
    { k.hide with displayed := true, display := k.hide.display ++ [.showCaption k.on_buf] }
  else k

def Captions.swap (k : Captions) : Captions :=
  let k := k.hide
  Captions.reveal { k with on_buf := k.off_buf, off_buf := k.on_buf, swapped := !k.swapped }

def Captions.exec (k : Captions) (command : CcCommand) : Option Captions :=
  match command with
  | .idle | .select _ => some k
  | .write _ _ | .move _ _ _ _ _ _ | .special _ _ | .midrow _ _ | .tab _ _ =>
    (command.edit k.off_buf).map fun buf => { k with off_buf := buf }
  | .eraseDisplayed _ => some { k.hide with on_buf := .zero }
  | .eraseNonDisplayed _ => some { k with off_buf := .zero }
  | .swap _ => some k.swap

/-- The commands that may be executed twice. -/
def CcCommand.settles : CcCommand → Bool
  | .idle | .select _ | .move _ _ _ _ _ _ | .eraseDisplayed _ | .eraseNonDisplayed _ => true
  | .write _ _ | .special _ _ | .midrow _ _ | .tab _ _ | .swap _ => false

/-- A command of channel 2 that erases and swaps no memory, and finds its cursor on the row where it
stores an attribute. -/
def CcCommand.Apart (command : CcCommand) (d : CcDecoder) : Prop :=
  match command with
  | .eraseDisplayed _ | .eraseNonDisplayed _ | .swap _ => False
  | .midrow _ _ => (d.off_buf.channel[1].rows[d.off_buf.channel[1].rowpos]).pos < CC_COLUMNS
  | .idle | .write _ _ | .select _ | .move _ _ _ _ _ _ | .special _ _ | .tab _ _ => True

instance (command : CcCommand) (d : CcDecoder) : Decidable (command.Apart d) := by
  unfold CcCommand.Apart
  cases command <;> infer_instance

/-! ## What was given so far -/

/-- The channel of the latest control code, and the last pair that is not of channel 2. -/
structure Context where
  latest : Fin CC_CHANNELS
  kept : UInt16

/-- A control code addressed to channel 2, or a character that follows one. -/
def Context.keeps (c : Context) (data : UInt16) : Bool :=
  !(isControl data && channelOf data == 1 || isChar data && c.latest == 1)

def Context.next (c : Context) (data : UInt16) : Context where
  latest := if isControl data then channelOf data else c.latest
  kept := if c.keeps data then data else c.kept

def Context.start : Context := { latest := 0, kept := 0 }

/-- The sequence without what is for channel 2. -/
def channelOne (pairs : List UInt16) : List UInt16 :=
  Purge.purge Context.next Context.keeps Context.start pairs

/-- What is to hold of a control code that is not the last code again. -/
def Meets (c : Context) (d : CcDecoder) (data : UInt16) : Prop :=
  isControl data = true → data ≠ d.lastcode →
    (commandOf data = .idle → channelOf data = c.latest) ∧
    (channelOf data = 1 → (commandOf data).Apart d) ∧
    (channelOf data = 0 → data = c.kept → (commandOf data).settles = true)

instance (c : Context) (d : CcDecoder) (data : UInt16) : Decidable (Meets c d data) := by
  unfold Meets
  infer_instance

variable {d d' t : CcDecoder} {k k' : Captions} {command : CcCommand} {data : UInt16}
  {channel : Fin CC_CHANNELS} {buf : CcBuffer} {c : Context}

/-! ## Commands of either channel -/

@[simp] theorem captions_setActive_zero (h : d.off_buf.channel_no = 0) :
    (setActiveCcbuffer d buf).captions = { d.captions with off_buf := buf } := by
  unfold setActiveCcbuffer CcDecoder.captions
  simp [h]

@[simp] theorem captions_setActive_one (h : d.off_buf.channel_no = 1) :
    (setActiveCcbuffer d buf).captions = d.captions := by
  unfold setActiveCcbuffer CcDecoder.captions
  simp [h]

theorem activeCcbuffer_zero (h : d.off_buf.channel_no = 0) : activeCcbuffer d = d.captions.off_buf := by
  unfold activeCcbuffer CcDecoder.captions
  simp [h]

@[simp] theorem captions_hide : (ccHideDisplayed d).captions = d.captions.hide := by
  unfold ccHideDisplayed Captions.hide CcDecoder.captions
  dsimp only
  split <;> rfl

theorem hide_on_buf : (ccHideDisplayed d).on_buf = d.on_buf := by
  unfold ccHideDisplayed
  split <;> rfl

theorem hide_off_buf : (ccHideDisplayed d).off_buf = d.off_buf := by
  unfold ccHideDisplayed
  split <;> rfl

theorem show_on_buf : (ccShowDisplayed d).on_buf = d.on_buf := by
  unfold ccShowDisplayed
  dsimp only
  split
  · exact hide_on_buf
  · rfl

theorem show_off_buf : (ccShowDisplayed d).off_buf = d.off_buf := by
  unfold ccShowDisplayed
  dsimp only
  split
  · exact hide_off_buf
  · rfl

theorem captions_show (h : d.on_buf.channel_no = 0) :
    (ccShowDisplayed d).captions = d.captions.reveal := by
  have hbuf : d.on_buf.channel[d.on_buf.channel_no] = d.captions.on_buf := by
    unfold CcDecoder.captions
    simp [h]
  unfold ccShowDisplayed Captions.reveal
  dsimp only
  rw [hbuf]
  split
  · rw [← captions_hide]
    rfl
  · rfl

/-- Both decoders have the captions of channel 1, and channel 1 is active. -/
def Alike (d : CcDecoder) (k : Captions) : Prop :=
  d.captions = k ∧ d.on_buf.channel_no = 0 ∧ d.off_buf.channel_no = 0

theorem alike_swap (h : Alike d k) : Alike (ccSwapBuffers d) k.swap := by
  obtain ⟨rfl, hon, hoff⟩ := h
  unfold ccSwapBuffers Captions.swap
  rw [← captions_hide, ← hide_off_buf (d := d)] at *
  rw [← hide_on_buf (d := d)] at hon
  generalize ccHideDisplayed d = hidden at *
  exact ⟨captions_show hoff, by rw [show_on_buf]; exact hoff, by rw [show_off_buf]; exact hon⟩

theorem alike_edit (command : CcCommand) (h : Alike d k) : Option.Rel Alike
    ((command.edit (activeCcbuffer d)).map (setActiveCcbuffer d))
    ((command.edit k.off_buf).map fun buf => { k with off_buf := buf }) := by
  obtain ⟨rfl, hon, hoff⟩ := h
  rw [activeCcbuffer_zero hoff]
  cases command.edit d.captions.off_buf with
  | none => exact .none
  | some buf => exact .some ⟨captions_setActive_zero hoff, hon, hoff⟩

theorem alike_exec (hcaptions : d.captions = k) (hon : d.on_buf.channel_no = 0)
    (hchannel : command.channel.getD d.off_buf.channel_no = 0) :
    Option.Rel Alike (d.exec command) (k.exec command) := by
  have hselect : ∀ channel, command.channel = some channel → Alike (ccSetChannel d channel) k := by
    intro channel hsome
    rw [hsome] at hchannel
    exact ⟨hcaptions, hon, hchannel⟩
  cases command with
  | idle => exact .some ⟨hcaptions, hon, hchannel⟩
  | write c1 c2 => exact alike_edit (.write c1 c2) ⟨hcaptions, hon, hchannel⟩
  | select channel => exact .some (hselect channel rfl)
  | move channel row column underline italics color =>
    exact alike_edit (.move channel row column underline italics color) (hselect channel rfl)
  | special channel c => exact alike_edit (.special channel c) (hselect channel rfl)
  | midrow channel attr => exact alike_edit (.midrow channel attr) (hselect channel rfl)
  | tab channel tabsize => exact alike_edit (.tab channel tabsize) (hselect channel rfl)
  | eraseDisplayed channel =>
    obtain ⟨rfl, -, hoff⟩ := hselect channel rfl
    refine .some ⟨?_, rfl, ?_⟩
    · rw [← captions_hide]
      rfl
    · show (ccHideDisplayed (ccSetChannel d channel)).off_buf.channel_no = 0
      rw [hide_off_buf, hoff]
  | eraseNonDisplayed channel =>
    obtain ⟨rfl, -, -⟩ := hselect channel rfl
    exact .some ⟨rfl, hon, rfl⟩
  | swap channel => exact .some (alike_swap (hselect channel rfl))

/-- Channel 2 is active, and the captions of channel 1 are as they were. -/
def Aside (d d' : CcDecoder) : Prop :=
  d'.captions = d.captions ∧ d'.on_buf.channel_no = 0 ∧ d'.off_buf.channel_no = 1

theorem aside_edit (command : CcCommand) (h : Aside d d') (hedit : command.edit (activeCcbuffer d') = some buf) :
    ∃ d'', (command.edit (activeCcbuffer d')).map (setActiveCcbuffer d') = some d'' ∧ Aside d d'' := by
  obtain ⟨hcaptions, hon, hoff⟩ := h
  exact ⟨setActiveCcbuffer d' buf, congrArg _ hedit,
    (captions_setActive_one hoff).trans hcaptions, hon, hoff⟩

theorem exists_applyAttribute (attr : CcAttribute) (space : ℕ)
    (h : (buf.rows.get buf.rowpos).pos < CC_COLUMNS) : ∃ buf', ccbufApplyAttribute buf attr space = some buf' := by
  unfold ccbufApplyAttribute
  exact ⟨_, dif_pos h⟩

theorem aside_exec (hon : d.on_buf.channel_no = 0)
    (hchannel : command.channel.getD d.off_buf.channel_no = 1) (hapart : command.Apart d) :
    ∃ d', d.exec command = some d' ∧ Aside d d' := by
  have hselect : ∀ channel, command.channel = some channel → Aside d (ccSetChannel d channel) := by
    intro channel hsome
    rw [hsome] at hchannel
    exact ⟨rfl, hon, hchannel⟩
  cases command with
  | idle => exact ⟨d, rfl, rfl, hon, hchannel⟩
  | write c1 c2 => exact aside_edit (.write c1 c2) ⟨rfl, hon, hchannel⟩ rfl
  | select channel => exact ⟨_, rfl, hselect channel rfl⟩
  | move channel row column underline italics color =>
    exact aside_edit (.move channel row column underline italics color) (hselect channel rfl) rfl
  | special channel c => exact aside_edit (.special channel c) (hselect channel rfl) rfl
  | midrow channel attr =>
    have haside := hselect channel rfl
    obtain rfl : channel = 1 := hchannel
    have hactive : activeCcbuffer (ccSetChannel d 1) = d.off_buf.channel[1] := rfl
    obtain ⟨buf, hbuf⟩ := exists_applyAttribute attr (chartbl 0x20) hapart
    exact aside_edit (.midrow 1 attr) haside (hactive ▸ hbuf)
  | tab channel tabsize => exact aside_edit (.tab channel tabsize) (hselect channel rfl) rfl
  | eraseDisplayed channel => exact hapart.elim
  | eraseNonDisplayed channel => exact hapart.elim
  | swap channel => exact hapart.elim

/-! ## Commands that are executed twice -/

theorem setCursor_idem (row : Fin CC_ROWS) (column underline italics color : ℕ) :
    ccbufSetCursor (ccbufSetCursor buf row column underline italics color) row column underline italics
      color = ccbufSetCursor buf row column underline italics color := by
  unfold ccbufSetCursor
  simp

theorem hide_displayed : k.hide.displayed = false := by
  unfold Captions.hide
  split
  · rfl
  · exact Bool.eq_false_iff.2 ‹_›

theorem hide_eq_self (h : k.displayed = false) : k.hide = k := by
  unfold Captions.hide
  rw [h, if_neg Bool.false_ne_true]

theorem exec_settled (hsettles : command.settles = true) (h : k.exec command = some k') :
    k'.exec command = some k' := by
  cases command with
  | idle => rfl
  | write c1 c2 => exact absurd hsettles Bool.false_ne_true
  | select channel => rfl
  | move channel row column underline italics color =>
    cases h
    exact congrArg (fun buf => some { k with off_buf := buf })
      (setCursor_idem row column underline italics color)
  | special channel c => exact absurd hsettles Bool.false_ne_true
  | midrow channel attr => exact absurd hsettles Bool.false_ne_true
  | tab channel tabsize => exact absurd hsettles Bool.false_ne_true
  | eraseDisplayed channel =>
    cases h
    have hdisplayed : ({ k.hide with on_buf := .zero } : Captions).displayed = false := hide_displayed
    unfold Captions.exec
    dsimp only
    rw [hide_eq_self hdisplayed]
  | eraseNonDisplayed channel =>
    cases h
    rfl
  | swap channel => exact absurd hsettles Bool.false_ne_true

/-! ## Both decoders -/

theorem isChar_of_isControl (h : isControl data = true) : isChar data = false :=
  decide_eq_false (not_not.2 (of_decide_eq_true h).1)

theorem controlCommand_channel (c1 c2 : ℕ) : controlCommand channel c1 c2 = .idle ∨
    (controlCommand channel c1 c2).channel = some channel := by
  unfold controlCommand pacCommand miscCommand
  repeat' split
  all_goals first | exact .inl rfl | exact .inr rfl

theorem commandOf_channel (h : isControl data = true) :
    commandOf data = .idle ∨ (commandOf data).channel = some (channelOf data) := by
  unfold commandOf
  rw [isChar_of_isControl h, h]
  exact controlCommand_channel _ _

theorem commandOf_char (hchar : isChar data = true) : (commandOf data).channel = none := by
  unfold commandOf
  rw [if_pos hchar]
  rfl

theorem commandOf_neither (hchar : isChar data = false) (hcontrol : isControl data = false) :
    commandOf data = .idle := by
  unfold commandOf
  rw [hchar, hcontrol]
  rfl

theorem decode_new (h : ¬(isControl data = true ∧ data = d.lastcode)) :
    ccDecodeEIA608 d data =
      (d.exec (commandOf data)).map fun d => { d with lastcode := data } := by
  rw [ccDecodeEIA608_eq, if_neg h]

/-- A decoder that got a sequence, and one that got it without what is for channel 2. -/
structure Related (c : Context) (d t : CcDecoder) : Prop where
  captions : d.captions = t.captions
  on_buf : d.on_buf.channel_no = 0
  off_buf : d.off_buf.channel_no = c.latest
  on_buf' : t.on_buf.channel_no = 0
  off_buf' : t.off_buf.channel_no = 0
  kept : t.lastcode = c.kept
  latest : isControl d.lastcode = true → channelOf d.lastcode = c.latest
  again : isControl d.lastcode = true → channelOf d.lastcode = 0 → c.kept = d.lastcode
  settled : (commandOf c.kept).settles = true →
    t.captions.exec (commandOf c.kept) = some t.captions

theorem related_start : Related .start ccDecoderOpen ccDecoderOpen where
  captions := rfl
  on_buf := rfl
  off_buf := rfl
  on_buf' := rfl
  off_buf' := rfl
  kept := rfl
  latest := fun _ => rfl
  again := fun _ _ => rfl
  settled := fun _ => rfl

theorem keeps_control (hcontrol : isControl data = true) :
    c.keeps data = true ↔ channelOf data = 0 := by
  unfold Context.keeps
  rw [hcontrol, isChar_of_isControl hcontrol, Bool.true_and, Bool.false_and, Bool.or_false]
  generalize channelOf data = channel
  revert channel
  decide

theorem keeps_char (hcontrol : isControl data = false) (hchar : isChar data = true) :
    c.keeps data = true ↔ c.latest = 0 := by
  unfold Context.keeps
  rw [hcontrol, hchar, Bool.false_and, Bool.true_and, Bool.false_or]
  generalize c.latest = channel
  revert channel
  decide

theorem keeps_neither (hcontrol : isControl data = false) (hchar : isChar data = false) :
    c.keeps data = true := by
  unfold Context.keeps
  rw [hcontrol, hchar]
  rfl

theorem channel_ne_zero (h : channel ≠ 0) : channel = 1 := by
  revert channel
  decide

theorem next_of_keeps (h : c.keeps data = true) : (c.next data).kept = data := if_pos h

theorem next_of_not_keeps (h : c.keeps data = false) : (c.next data).kept = c.kept := by
  unfold Context.next
  rw [h, if_neg Bool.false_ne_true]

theorem latest_of_control (h : isControl data = true) : (c.next data).latest = channelOf data := if_pos h

theorem latest_of_not_control (h : isControl data = false) : (c.next data).latest = c.latest := by
  unfold Context.next
  rw [h, if_neg Bool.false_ne_true]

theorem rel_exec (h : Related c d t) (hkeeps : c.keeps data = true)
    (hchannel : (commandOf data).channel.getD d.off_buf.channel_no = 0)
    (hlatest : (c.next data).latest = 0) (hcontrol : isControl data = true → channelOf data = 0) :
    Option.Rel (Related (c.next data))
      ((d.exec (commandOf data)).map fun d => { d with lastcode := data })
      ((t.exec (commandOf data)).map fun t => { t with lastcode := data }) := by
  have hchannel' : (commandOf data).channel.getD t.off_buf.channel_no = 0 := by
    cases hsome : (commandOf data).channel with
    | none => exact h.off_buf'
    | some channel => rwa [hsome] at hchannel
  have hleft := alike_exec h.captions h.on_buf hchannel
  have hright := alike_exec (k := t.captions) rfl h.on_buf' hchannel'
  generalize d.exec (commandOf data) = left at hleft
  generalize t.exec (commandOf data) = right at hright
  generalize hexec : t.captions.exec (commandOf data) = captions at hleft hright
  cases hleft with
  | none =>
    cases hright with
    | none => exact .none
  | some hd =>
    cases hright with
    | some ht =>
      refine .some ?_
      exact
        { captions := hd.1.trans ht.1.symm
          on_buf := hd.2.1
          off_buf := hd.2.2.trans hlatest.symm
          on_buf' := ht.2.1
          off_buf' := ht.2.2
          kept := (next_of_keeps hkeeps).symm
          latest := fun hcode => (hcontrol hcode).trans hlatest.symm
          again := fun _ _ => next_of_keeps hkeeps
          settled := fun hsettles => by
            rw [next_of_keeps hkeeps] at hsettles ⊢
            have hagain := exec_settled hsettles hexec
            rw [← ht.1] at hagain
            exact hagain }

theorem getD_channel (h : Related c d t) (hcontrol : isControl data = true)
    (hidle : commandOf data = .idle → channelOf data = c.latest) :
    (commandOf data).channel.getD d.off_buf.channel_no = channelOf data := by
  rcases commandOf_channel hcontrol with hcommand | hcommand
  · rw [hcommand, hidle hcommand]
    exact h.off_buf
  · rw [hcommand]
    rfl

theorem rel_keep (h : Related c d t) (hmeets : Meets c d data) (hkeeps : c.keeps data = true) :
    Option.Rel (Related (c.next data)) (ccDecodeEIA608 d data) (ccDecodeEIA608 t data) := by
  cases hcontrol : isControl data with
  | true =>
    have hzero : channelOf data = 0 := (keeps_control hcontrol).1 hkeeps
    have hlatest : (c.next data).latest = 0 := (latest_of_control hcontrol).trans hzero
    by_cases hlast : data = d.lastcode
    · -- Neither decoder executes a code that comes a second time in a row.
      have hkept : c.kept = data := by
        rw [hlast] at hcontrol hzero ⊢
        exact h.again hcontrol hzero
      have hnext : c.next data = c := by
        unfold Context.next
        rw [if_pos hkeeps, if_pos hcontrol, hlast, h.latest (hlast ▸ hcontrol), ← hlast, ← hkept]
      rw [ccDecodeEIA608_eq, ccDecodeEIA608_eq, if_pos ⟨hcontrol, hlast⟩,
        if_pos ⟨hcontrol, hkept.symm.trans h.kept.symm⟩, hnext]
      exact .some h
    · obtain ⟨hidle, -, hagain⟩ := hmeets hcontrol hlast
      have hchannel := (getD_channel h hcontrol hidle).trans hzero
      rw [decode_new fun hboth => hlast hboth.2]
      by_cases hkept : data = t.lastcode
      · -- The code is executed again, where the other decoder does not see what came between.
        have hdata : c.kept = data := h.kept.symm.trans hkept.symm
        have hsettles := hagain hzero hdata.symm
        have hsettled := h.settled
        rw [hdata] at hsettled
        have hexec := alike_exec h.captions h.on_buf hchannel
        rw [hsettled hsettles] at hexec
        rw [ccDecodeEIA608_eq, if_pos ⟨hcontrol, hkept⟩]
        generalize d.exec (commandOf data) = left at hexec
        cases hexec with
        | some halike =>
          refine .some ?_
          exact
            { captions := halike.1
              on_buf := halike.2.1
              off_buf := halike.2.2.trans hlatest.symm
              on_buf' := h.on_buf'
              off_buf' := h.off_buf'
              kept := hkept.symm.trans (next_of_keeps hkeeps).symm
              latest := fun _ => hzero.trans hlatest.symm
              again := fun _ _ => next_of_keeps hkeeps
              settled := fun _ => by
                rw [next_of_keeps hkeeps]
                exact hsettled hsettles }
      · rw [decode_new fun hboth => hkept hboth.2]
        exact rel_exec h hkeeps hchannel hlatest fun _ => hzero
  | false =>
    have hnew : ∀ d' : CcDecoder, ¬(isControl data = true ∧ data = d'.lastcode) := by
      intro d' hboth
      rw [hcontrol] at hboth
      exact Bool.false_ne_true hboth.1
    have hlatest := latest_of_not_control (c := c) hcontrol
    have hcode : isControl data ≠ true := Bool.eq_false_iff.1 hcontrol
    rw [decode_new (hnew d), decode_new (hnew t)]
    cases hchar : isChar data with
    | true =>
      have hzero : c.latest = 0 := (keeps_char hcontrol hchar).1 hkeeps
      have hchannel : (commandOf data).channel.getD d.off_buf.channel_no = 0 := by
        rw [commandOf_char hchar]
        exact h.off_buf.trans hzero
      exact rel_exec h hkeeps hchannel (hlatest.trans hzero) fun htrue => absurd htrue hcode
    | false =>
      rw [commandOf_neither hchar hcontrol]
      refine .some ?_
      exact
        { captions := h.captions
          on_buf := h.on_buf
          off_buf := h.off_buf.trans hlatest.symm
          on_buf' := h.on_buf'
          off_buf' := h.off_buf'
          kept := (next_of_keeps hkeeps).symm
          latest := fun htrue => absurd htrue hcode
          again := fun htrue => absurd htrue hcode
          settled := fun _ => by
            rw [next_of_keeps hkeeps, commandOf_neither hchar hcontrol]
            rfl }

theorem exists_drop_exec (h : Related c d t) (hkeeps : c.keeps data = false)
    (hchannel : (commandOf data).channel.getD d.off_buf.channel_no = 1)
    (hapart : (commandOf data).Apart d) (hlatest : (c.next data).latest = 1)
    (hcontrol : isControl data = true → channelOf data = 1) :
    ∃ d', ((d.exec (commandOf data)).map fun d => { d with lastcode := data }) = some d' ∧
      Related (c.next data) d' t := by
  obtain ⟨d', hexec, hcaptions, hon, hoff⟩ := aside_exec h.on_buf hchannel hapart
  refine ⟨{ d' with lastcode := data }, by rw [hexec]; rfl, ?_⟩
  exact
    { captions := hcaptions.trans h.captions
      on_buf := hon
      off_buf := hoff.trans hlatest.symm
      on_buf' := h.on_buf'
      off_buf' := h.off_buf'
      kept := h.kept.trans (next_of_not_keeps hkeeps).symm
      latest := fun htrue => (hcontrol htrue).trans hlatest.symm
      again := fun htrue hzero => by
        rw [hcontrol htrue] at hzero
        exact absurd hzero (by decide)
      settled := by
        rw [next_of_not_keeps hkeeps]
        exact h.settled }

theorem exists_drop (h : Related c d t) (hmeets : Meets c d data) (hkeeps : c.keeps data = false) :
    ∃ d', ccDecodeEIA608 d data = some d' ∧ Related (c.next data) d' t := by
  have hdrop : ¬c.keeps data = true := Bool.eq_false_iff.1 hkeeps
  cases hcontrol : isControl data with
  | true =>
    have hone : channelOf data = 1 := channel_ne_zero fun hzero => hdrop ((keeps_control hcontrol).2 hzero)
    have hlatest := (latest_of_control (c := c) hcontrol).trans hone
    by_cases hlast : data = d.lastcode
    · have hnext : c.next data = c := by
        unfold Context.next
        rw [hkeeps, if_pos hcontrol, hlast, h.latest (hlast ▸ hcontrol), if_neg Bool.false_ne_true]
      rw [ccDecodeEIA608_eq, if_pos ⟨hcontrol, hlast⟩, hnext]
      exact ⟨d, rfl, h⟩
    · obtain ⟨hidle, hapart, -⟩ := hmeets hcontrol hlast
      rw [decode_new fun hboth => hlast hboth.2]
      exact exists_drop_exec h hkeeps ((getD_channel h hcontrol hidle).trans hone) (hapart hone) hlatest
        fun _ => hone
  | false =>
    cases hchar : isChar data with
    | true =>
      have hone : c.latest = 1 :=
        channel_ne_zero fun hzero => hdrop ((keeps_char hcontrol hchar).2 hzero)
      have hcommand : commandOf data = .write (c1Of data) (c2Of data) := if_pos hchar
      have hcode : isControl data ≠ true := Bool.eq_false_iff.1 hcontrol
      rw [decode_new fun hboth => hcode hboth.1]
      refine exists_drop_exec h hkeeps ?_ ?_ ((latest_of_not_control hcontrol).trans hone)
        fun htrue => absurd htrue hcode
      · rw [commandOf_char hchar]
        exact h.off_buf.trans hone
      · rw [hcommand]
        trivial
    | false => exact absurd (keeps_neither hcontrol hchar) hdrop

/-! ## Sequences of pairs -/

/-- All pairs of a sequence find what is to hold. -/
def Separate (pairs : List UInt16) : Prop :=
  Purge.Along ccDecodeEIA608 Context.next Meets .start ccDecoderOpen pairs

instance (pairs : List UInt16) : Decidable (Separate pairs) := by
  unfold Separate
  infer_instance

/-- The characters of a pair are added to the buffer of a channel. -/
def CcDecoder.writeTo (d : CcDecoder) (channel : Fin CC_CHANNELS) (data : UInt16) : CcDecoder :=
  let buf := writeChars d.off_buf.channel[channel] (c1Of data) (c2Of data)
  { d with
    off_buf := { d.off_buf with channel := d.off_buf.channel.set channel buf }
    lastcode := data }

theorem decode_char (hchar : isChar data = true) :
    ccDecodeEIA608 d data = some (d.writeTo d.off_buf.channel_no data) := by
  have hcontrol : ¬(isControl data = true ∧ data = d.lastcode) := by
    intro hboth
    rw [isChar_of_isControl hboth.1] at hchar
    exact Bool.false_ne_true hchar
  have hcommand : commandOf data = .write (c1Of data) (c2Of data) := if_pos hchar
  rw [decode_new hcontrol, hcommand]
  rfl

theorem related_run {pairs : List UInt16} (h : Separate pairs) :
    Option.Rel (Related (pairs.foldl Context.next .start)) (decodeAll ccDecoderOpen pairs)
      (decodeAll ccDecoderOpen (channelOne pairs)) :=
  Purge.rel_purge (fun _ _ _ _ => rel_keep) (fun _ _ _ _ => exists_drop) related_start h

/-- The captions of channel 1 are those of the sequence without what is for channel 2, and standard
characters go to the channel of the latest control code. -/
theorem decodeAll_channelOne (pairs : List UInt16) (h : Separate pairs) :
    (∀ before after, pairs = before ++ after →
      (decodeAll ccDecoderOpen before).map CcDecoder.captions =
        (decodeAll ccDecoderOpen (channelOne before)).map CcDecoder.captions) ∧
    (∀ before data after d, pairs = before ++ data :: after → isChar data = true →
      decodeAll ccDecoderOpen before = some d →
      ccDecodeEIA608 d data = some (d.writeTo (before.foldl Context.next .start).latest data)) := by
  constructor
  · rintro before after rfl
    have hbefore : Separate before := Runs.Guarded.of_prefix h (List.prefix_append before after)
    exact Purge.map_eq_of_rel (fun _ _ hrelated => hrelated.captions) (related_run hbefore)
  · rintro before data after d rfl hchar hrun
    have hbefore : Separate before := Runs.Guarded.of_prefix h (List.prefix_append before (data :: after))
    have hrelated := related_run hbefore
    rw [hrun] at hrelated
    generalize decodeAll ccDecoderOpen (channelOne before) = right at hrelated
    cases hrelated with
    | some hrelated => rw [decode_char hchar, hrelated.off_buf]

/-- Both channels get characters, and channel 1 is shown. -/
theorem decodeAll_channelOne_both :
    (decodeAll ccDecoderOpen [0x2094, 0xc2c1, 0x201c, 0xc443, 0x2f94]).map CcDecoder.captions =
      (decodeAll ccDecoderOpen (channelOne [0x2094, 0xc2c1, 0x201c, 0xc443, 0x2f94])).map
        CcDecoder.captions :=
  (decodeAll_channelOne [0x2094, 0xc2c1, 0x201c, 0xc443, 0x2f94] (by decide +kernel)).1 _ [] rfl

/-- ENM for channel 2 erases the characters of channel 1. -/
theorem decodeAll_not_channelOne :
    (decodeAll ccDecoderOpen [0x2094, 0xc2c1, 0xae1c]).map CcDecoder.captions ≠
      (decodeAll ccDecoderOpen (channelOne [0x2094, 0xc2c1, 0xae1c])).map CcDecoder.captions := by
  decide +kernel

end Xine.Cc
