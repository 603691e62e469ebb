import Xine.Cc.Bounds
import Xine.Timing.Metronom

/-!
# When captions are shown and hidden

The caption renderer of `cc_decoder.c` tells the OSD renderer to show and to hide captions at times that it gets from
the metronom, by the pts of a packet and the number of the pair in it. A caption is shown not before the last one is
hidden. Nothing does the same for when it is hidden.
-/

namespace Xine.Cc

open Timing (Metronom gotSpuPacket int64)

def NTSC_FRAME_DURATION : ℕ := 3003

/-- A show or a hide event that is sent. -/
structure CcEvent where
  shows : Bool
  vpts : ℤ
deriving DecidableEq

/-- What `cc_renderer_t` has on the times, and the events that it has sent. -/
structure CcRenderer where
  cap_display : Bool
  displayed : Bool
  display_vpts : ℤ
  last_hide_vpts : ℤ
  sent : List CcEvent

namespace CcRenderer

/-- `cc_renderer_hide_caption`. -/
def hideCaption (this : CcRenderer) (vpts : ℤ) : CcRenderer :=
  if this.displayed then
    { this with displayed := false, last_hide_vpts := vpts, sent := this.sent ++ [⟨false, vpts⟩] }
  else this

/-- `cc_renderer_show_caption`. -/
def showCaption (this : CcRenderer) (vpts : ℤ) : CcRenderer :=
  let this := if this.displayed then this.hideCaption vpts else this
  let vpts := if vpts > this.last_hide_vpts then vpts else this.last_hide_vpts
  { this with displayed := true, display_vpts := vpts, sent := this.sent ++ [⟨true, vpts⟩] }

/-- `cc_renderer_free_osd_object`. -/
def freeOsdObject (this : CcRenderer) : CcRenderer :=
  if this.cap_display then { this.hideCaption this.display_vpts with cap_display := false } else this

/-- `cc_renderer_update_cfg`: whether the captions fit the screen decides on a new object for them. -/
def updateCfg (this : CcRenderer) (fits : Bool) : CcRenderer :=
  if fits then { this.freeOsdObject with cap_display := true } else this.freeOsdObject

end CcRenderer

/-- The decoder with its renderer, the metronom, and the place in the packets. -/
structure CcStream where
  decoder : CcDecoder
  pts : ℤ
  f_offset : UInt32
  renderer : CcRenderer
  can_cc : Bool
  metronom : Metronom

namespace CcStream

/-- `cc_renderer_calc_vpts`, with the metronom that it leaves. -/
def calcVpts (s : CcStream) : Option (Metronom × ℤ) := do
  let (metronom, vpts) ← gotSpuPacket s.metronom s.pts
  let vpts ← int64 (vpts + (s.f_offset * UInt32.ofNat NTSC_FRAME_DURATION).toNat)
  some (metronom, vpts)

/-- The renderer is told what the decoder shows or hides. -/
def tell (s : CcStream) (display : CcDisplay) : Option CcStream :=
  s.calcVpts.map fun (metronom, vpts) =>
    match display with
    | .hideCaption => { s with metronom, renderer := s.renderer.hideCaption vpts }
    | .showCaption _ => { s with metronom, renderer := s.renderer.showCaption vpts }

/-- A pair of a packet is decoded, and what there is to show or to hide is told. -/
def decodePair (s : CcStream) (data : UInt16) : Option CcStream := do
  let decoder ← ccDecodeEIA608 s.decoder data
  let told := decoder.display.drop s.decoder.display.length
  let s ← told.foldlM tell { s with decoder }
  some { s with f_offset := s.f_offset + 1 }

def decodeCc (s : CcStream) (buffer : List UInt8) (pts : ℤ) : Option CcStream :=
  Runs.run decodePair { s with pts, f_offset := 0 } (ccPairs buffer)

/-- `cc_renderer_update_cfg`, after which captions are decoded or not. The decoder finds out from the renderer whether
a caption is displayed. -/
def updateCfg (s : CcStream) (fits : Bool) : CcStream :=
  let renderer := s.renderer.updateCfg fits
  { s with renderer, can_cc := fits, decoder := { s.decoder with displayed := renderer.displayed } }

end CcStream

/-- What happens to the captions: a packet, a change of the captioning area, and what other threads do to the
metronom. -/
inductive CcCall where
  | decodeCc (buffer : List UInt8) (pts : ℤ)
  | updateCfg (fits : Bool)
  | metronom (m : Metronom)

/-- A call. Without an area for captions there is no decoding. -/
def CcStream.call (s : CcStream) : CcCall → Option CcStream
  | .decodeCc buffer pts => if s.can_cc then s.decodeCc buffer pts else some s
  | .updateCfg fits => some (s.updateCfg fits)
  | .metronom m => some { s with metronom := m }

/-- A decoder and a renderer that have been opened. -/
def CcStream.start (fits : Bool) (metronom : Metronom) : CcStream where
  decoder := ccDecoderOpen
  pts := 0
  f_offset := 0
  renderer := ⟨fits, false, 0, 0, []⟩
  can_cc := fits
  metronom := metronom

/-! ## The order of the events -/

/-- The events in the order in which they are executed, that of their times and then that in which they were sent,
with their numbers in the latter. -/
def executed (sent : List CcEvent) : List (CcEvent × ℕ) :=
  sent.zipIdx.mergeSort fun a b => decide (a.1.vpts ≤ b.1.vpts)

/-- The events that are executed show and hide in turns, and each caption is hidden after it is shown. -/
structure Alternates (sent : List CcEvent) : Prop where
  turns : ∀ i event, (executed sent)[i]? = some event → (event.1.shows = true ↔ i % 2 = 0)
  own : ∀ i shown hidden, sent[2 * i]? = some shown → sent[2 * i + 1]? = some hidden →
    [(shown, 2 * i), (hidden, 2 * i + 1)].Sublist (executed sent)

/-! ## Pairs and calls one after another -/

/-- A packet begins, a pair of it is decoded, or something else happens. -/
inductive CcAct where
  | packet (pts : ℤ)
  | pair (data : UInt16)
  | updateCfg (fits : Bool)
  | metronom (m : Metronom)

/-- The acts that a call is made of. -/
def CcCall.acts : CcCall → List CcAct
  | .decodeCc buffer pts => .packet pts :: (ccPairs buffer).map .pair
  | .updateCfg fits => [.updateCfg fits]
  | .metronom m => [.metronom m]

def CcStream.act (s : CcStream) : CcAct → Option CcStream
  | .packet pts => if s.can_cc then some { s with pts, f_offset := 0 } else some s
  | .pair data => if s.can_cc then s.decodePair data else some s
  | .updateCfg fits => some (s.updateCfg fits)
  | .metronom m => some { s with metronom := m }

variable {s t : CcStream} {d d' : CcDecoder} {data : UInt16} {sent : List CcEvent} {vpts : ℤ}

theorem can_cc_tell {display : CcDisplay} (h : s.tell display = some t) : t.can_cc = s.can_cc := by
  obtain ⟨⟨m, vpts⟩, -, rfl⟩ := Option.map_eq_some_iff.1 h
  cases display <;> rfl

theorem can_cc_decodePair (h : s.decodePair data = some t) : t.can_cc = s.can_cc := by
  obtain ⟨decoder, -, h⟩ := Option.bind_eq_some_iff.1 h
  obtain ⟨u, hu, h⟩ := Option.bind_eq_some_iff.1 h
  cases h
  have hkeeps : ∀ (told : List CcDisplay) (r : CcStream), told.foldlM CcStream.tell r = some u →
      u.can_cc = r.can_cc := by
    intro told
    induction told with
    | nil =>
      intro r hr
      cases hr
      rfl
    | cons display told ih =>
      intro r hr
      obtain ⟨v, hv, hrest⟩ := Option.bind_eq_some_iff.1 hr
      exact (ih v hrest).trans (can_cc_tell hv)
  exact hkeeps _ { s with decoder := decoder } hu

theorem run_pairs (pairs : List UInt16) (s : CcStream) (h : s.can_cc = true) :
    Runs.run CcStream.act s (pairs.map .pair) = Runs.run CcStream.decodePair s pairs := by
  induction pairs generalizing s with
  | nil => rfl
  | cons data pairs ih =>
    have hact : s.act (.pair data) = s.decodePair data := if_pos h
    change (s.act (.pair data)).bind _ = (s.decodePair data).bind _
    rw [hact]
    exact Option.bind_congr fun t ht => ih t ((can_cc_decodePair ht).trans h)

theorem run_pairs_idle (pairs : List UInt16) (s : CcStream) (h : s.can_cc = false) :
    Runs.run CcStream.act s (pairs.map .pair) = some s := by
  induction pairs with
  | nil => rfl
  | cons data pairs ih =>
    have hact : s.act (.pair data) = some s := if_neg (Bool.eq_false_iff.1 h)
    change (s.act (.pair data)).bind _ = _
    rw [hact]
    exact ih

theorem run_acts (s : CcStream) (call : CcCall) : Runs.run CcStream.act s call.acts = s.call call := by
  cases call with
  | decodeCc buffer pts =>
    change (s.act (.packet pts)).bind _ = if s.can_cc then s.decodeCc buffer pts else some s
    cases hcan : s.can_cc with
    | true =>
      have hact : s.act (.packet pts) = some { s with pts, f_offset := 0 } := if_pos hcan
      rw [hact, if_pos rfl]
      exact run_pairs (ccPairs buffer) { s with pts, f_offset := 0 } hcan
    | false =>
      have hact : s.act (.packet pts) = some s := if_neg (Bool.eq_false_iff.1 hcan)
      rw [hact, if_neg Bool.false_ne_true]
      exact run_pairs_idle (ccPairs buffer) s hcan
  | updateCfg fits => rfl
  | metronom m => rfl

theorem run_call_eq (s : CcStream) (calls : List CcCall) :
    Runs.run CcStream.call s calls = Runs.run CcStream.act s (calls.flatMap CcCall.acts) := by
  induction calls generalizing s with
  | nil => rfl
  | cons call calls ih =>
    apply Option.ext
    intro t
    rw [List.flatMap_cons, Runs.run_append_eq_some, Runs.run_cons_eq_some]
    simp only [run_acts, ih]

/-! ## The order of execution -/

theorem pairwise_executed (sent : List CcEvent) : (executed sent).Pairwise fun a b => a.1.vpts ≤ b.1.vpts := by
  have hsorted := @List.pairwise_mergeSort (CcEvent × ℕ)
    (fun a b => decide (a.1.vpts ≤ b.1.vpts))
    (fun a b c hab hbc => decide_eq_true ((of_decide_eq_true hab).trans (of_decide_eq_true hbc)))
    (fun a b => by
      rw [Bool.or_eq_true, decide_eq_true_iff, decide_eq_true_iff]
      exact le_total _ _) sent.zipIdx
  exact hsorted.imp of_decide_eq_true

theorem executed_eq (h : sent.Pairwise fun a b => a.vpts ≤ b.vpts) : executed sent = sent.zipIdx := by
  refine List.mergeSort_of_pairwise ?_
  have hmap : (sent.zipIdx.map Prod.fst).Pairwise fun a b => a.vpts ≤ b.vpts := by
    rwa [List.zipIdx_map_fst]
  exact (List.pairwise_map.1 hmap).imp fun hle => decide_eq_true hle

theorem sublist_zipIdx {i : ℕ} {a b : CcEvent} (ha : sent[i]? = some a) (hb : sent[i + 1]? = some b) :
    [(a, i), (b, i + 1)].Sublist sent.zipIdx := by
  have hlt : i + 1 < sent.zipIdx.length := by
    rw [List.length_zipIdx]
    exact (List.getElem?_eq_some_iff.1 hb).1
  have hsplit : sent.zipIdx.drop i = (a, i) :: (b, i + 1) :: sent.zipIdx.drop (i + 2) := by
    rw [List.drop_eq_getElem_cons (by omega), List.drop_eq_getElem_cons hlt]
    simp only [List.getElem_zipIdx, Nat.zero_add]
    rw [(List.getElem?_eq_some_iff.1 ha).2, (List.getElem?_eq_some_iff.1 hb).2]
  have hsub := List.drop_sublist i sent.zipIdx
  rw [hsplit] at hsub
  exact (((List.nil_sublist _).cons_cons (b, i + 1)).cons_cons (a, i)).trans hsub

theorem alternates_of_pairwise (hturns : ∀ i event, sent[i]? = some event → (event.shows = true ↔ i % 2 = 0))
    (h : sent.Pairwise fun a b => a.vpts ≤ b.vpts) : Alternates sent where
  turns i event hevent := by
    rw [executed_eq h, List.getElem?_zipIdx] at hevent
    obtain ⟨a, ha, rfl⟩ := Option.map_eq_some_iff.1 hevent
    exact hturns i a ha
  own i shown hidden hshown hhidden := by
    rw [executed_eq h]
    exact sublist_zipIdx hshown hhidden

theorem not_alternates {i : ℕ} {shown hidden : CcEvent} (hshown : sent[2 * i]? = some shown)
    (hhidden : sent[2 * i + 1]? = some hidden) (hlt : hidden.vpts < shown.vpts) : ¬Alternates sent := by
  intro h
  have hpair := (pairwise_executed sent).sublist (h.own i shown hidden hshown hhidden)
  exact absurd ((List.pairwise_cons.1 hpair).1 _ (List.mem_singleton_self _)) (not_le.2 hlt)

/-! ## What a pair tells the renderer -/

/-- A caption is displayed, and the pair is a command to erase it or to swap it, which is executed. -/
def Hides (d : CcDecoder) (data : UInt16) : Prop :=
  d.displayed = true ∧ ¬(isControl data = true ∧ data = d.lastcode) ∧
    ∃ channel, commandOf data = .eraseDisplayed channel ∨ commandOf data = .swap channel

/-- What the renderer is told, and whether a caption is displayed then. -/
inductive Tells (d : CcDecoder) (data : UInt16) : List CcDisplay → Bool → Prop
  | nothing (h : ¬Hides d data) : Tells d data [] d.displayed
  | hides (h : Hides d data) : Tells d data [.hideCaption] false
  | shows (h : d.displayed = false) (buf : CcBuffer) : Tells d data [.showCaption buf] true
  | swaps (h : Hides d data) (buf : CcBuffer) : Tells d data [.hideCaption, .showCaption buf] true

theorem hide_display (d : CcDecoder) : (ccHideDisplayed d).displayed = false ∧
    (ccHideDisplayed d).display = d.display ++ if d.displayed then [.hideCaption] else [] := by
  unfold ccHideDisplayed
  split_ifs with h
  · exact ⟨rfl, rfl⟩
  · exact ⟨Bool.eq_false_iff.2 h, (List.append_nil _).symm⟩

theorem show_display (h : d.displayed = false) :
    (ccShowDisplayed d).displayed = false ∧ (ccShowDisplayed d).display = d.display ∨
      ∃ buf, (ccShowDisplayed d).displayed = true ∧ (ccShowDisplayed d).display = d.display ++ [.showCaption buf] := by
  unfold ccShowDisplayed
  dsimp only
  split_ifs
  · refine .inr ⟨d.on_buf.channel[d.on_buf.channel_no], rfl, ?_⟩
    change (ccHideDisplayed d).display ++ _ = _
    rw [(hide_display d).2, h, if_neg Bool.false_ne_true, List.append_nil]
  · exact .inl ⟨h, rfl⟩

/-- What a command that is executed tells. -/
def ExecTells (d : CcDecoder) (data : UInt16) (d' : CcDecoder) : Prop :=
  ∃ told, d'.display = d.display ++ told ∧ Tells d data told d'.displayed

theorem ExecTells.of_eq (hidle : ¬Hides d data) (hdisplay : d'.display = d.display)
    (hdisplayed : d'.displayed = d.displayed) : ExecTells d data d' :=
  ⟨[], hdisplay.trans (List.append_nil _).symm, hdisplayed ▸ .nothing hidle⟩

theorem erase_tells (hnew : ¬(isControl data = true ∧ data = d.lastcode)) {channel : Fin CC_CHANNELS}
    (hcommand : commandOf data = .eraseDisplayed channel) :
    ExecTells d data { ccHideDisplayed (ccSetChannel d channel) with on_buf := ccmemClear } := by
  obtain ⟨hdisplayed, hdisplay⟩ := hide_display (ccSetChannel d channel)
  refine ⟨_, hdisplay, ?_⟩
  change Tells d data (if d.displayed = true then _ else _) (ccHideDisplayed (ccSetChannel d channel)).displayed
  rw [hdisplayed]
  cases h : d.displayed with
  | true => exact .hides ⟨h, hnew, channel, .inl hcommand⟩
  | false =>
    have hnothing : Tells d data [] d.displayed := .nothing fun hhides => absurd (h.symm.trans hhides.1) Bool.false_ne_true
    rwa [h] at hnothing

theorem swap_tells (hnew : ¬(isControl data = true ∧ data = d.lastcode)) {channel : Fin CC_CHANNELS}
    (hcommand : commandOf data = .swap channel) :
    ExecTells d data (ccSwapBuffers (ccSetChannel d channel)) := by
  obtain ⟨hdisplayed, hdisplay⟩ := hide_display (ccSetChannel d channel)
  unfold ccSwapBuffers
  dsimp only
  generalize ccHideDisplayed (ccSetChannel d channel) = hidden at *
  have hshow := @show_display
    { hidden with on_buf := hidden.off_buf, off_buf := hidden.on_buf, swapped := !hidden.swapped } hdisplayed
  generalize ccShowDisplayed
    { hidden with on_buf := hidden.off_buf, off_buf := hidden.on_buf, swapped := !hidden.swapped } = after at *
  have hd : (ccSetChannel d channel).displayed = d.displayed := rfl
  have hdd : (ccSetChannel d channel).display = d.display := rfl
  rw [hd, hdd] at hdisplay
  have hidle : d.displayed = false → ¬Hides d data := fun h hhides => absurd (h.symm.trans hhides.1) Bool.false_ne_true
  -- the caption before is hidden if there is one, and then there is a new one or not
  obtain ⟨hafter, hafter_display⟩ | ⟨buf, hafter, hafter_display⟩ := hshow
  · rw [hdisplay] at hafter_display
    refine ⟨_, hafter_display, ?_⟩
    rw [hafter]
    cases h : d.displayed with
    | true => exact .hides ⟨h, hnew, channel, .inr hcommand⟩
    | false =>
      have hnothing : Tells d data [] d.displayed := .nothing (hidle h)
      rwa [h] at hnothing
  · change _ = hidden.display ++ _ at hafter_display
    rw [hdisplay, List.append_assoc] at hafter_display
    refine ⟨_, hafter_display, ?_⟩
    rw [hafter]
    cases h : d.displayed with
    | true => exact .swaps ⟨h, hnew, channel, .inr hcommand⟩ buf
    | false => exact .shows h buf

theorem edit_tells (command : CcCommand) (r : CcDecoder) (hidle : ¬Hides d data) (hdisplay : r.display = d.display)
    (hdisplayed : r.displayed = d.displayed)
    (h : (command.edit (activeCcbuffer r)).map (setActiveCcbuffer r) = some d') : ExecTells d data d' := by
  obtain ⟨buf, -, rfl⟩ := Option.map_eq_some_iff.1 h
  exact .of_eq hidle hdisplay hdisplayed

theorem exec_tells (hnew : ¬(isControl data = true ∧ data = d.lastcode))
    (hexec : d.exec (commandOf data) = some d') : ExecTells d data d' := by
  have hidle (h : ∀ channel, commandOf data ≠ .eraseDisplayed channel ∧ commandOf data ≠ .swap channel) :
      ¬Hides d data := by
    rintro ⟨-, -, channel, hcommand | hcommand⟩
    · exact (h channel).1 hcommand
    · exact (h channel).2 hcommand
  generalize hcommand : commandOf data = command at hexec hidle
  cases command with
  | idle =>
    cases hexec
    exact .of_eq (hidle fun _ => ⟨nofun, nofun⟩) rfl rfl
  | write c1 c2 => exact edit_tells (.write c1 c2) d (hidle fun _ => ⟨nofun, nofun⟩) rfl rfl hexec
  | select channel =>
    cases hexec
    exact .of_eq (hidle fun _ => ⟨nofun, nofun⟩) rfl rfl
  | move channel row column underline italics color =>
    exact edit_tells (.move channel row column underline italics color) (ccSetChannel d channel)
      (hidle fun _ => ⟨nofun, nofun⟩) rfl rfl hexec
  | special channel c => exact edit_tells (.special channel c) (ccSetChannel d channel) (hidle fun _ => ⟨nofun, nofun⟩) rfl rfl hexec
  | midrow channel attr => exact edit_tells (.midrow channel attr) (ccSetChannel d channel) (hidle fun _ => ⟨nofun, nofun⟩) rfl rfl hexec
  | tab channel tabsize => exact edit_tells (.tab channel tabsize) (ccSetChannel d channel) (hidle fun _ => ⟨nofun, nofun⟩) rfl rfl hexec
  | eraseDisplayed channel =>
    cases hexec
    exact erase_tells hnew hcommand
  | eraseNonDisplayed channel =>
    cases hexec
    exact .of_eq (hidle fun _ => ⟨nofun, nofun⟩) rfl rfl
  | swap channel =>
    cases hexec
    exact swap_tells hnew hcommand

theorem decode_tells (h : ccDecodeEIA608 d data = some d') : ExecTells d data d' := by
  rw [ccDecodeEIA608_eq] at h
  split_ifs at h with hagain
  · cases h
    exact .of_eq (fun hhides => hhides.2.1 hagain) rfl rfl
  · obtain ⟨u, hexec, rfl⟩ := Option.map_eq_some_iff.1 h
    obtain ⟨told, hdisplay, htells⟩ := exec_tells hagain hexec
    exact ⟨told, hdisplay, htells⟩

/-! ## The times of a renderer -/

/-- The events were sent in turns and at times that do not go back. The last of them is that of the caption that is
displayed, if there is one, and of the one that was hidden last, if there is none. -/
structure CcRenderer.Timely (r : CcRenderer) : Prop where
  turns : ∀ i event, r.sent[i]? = some event → (event.shows = true ↔ i % 2 = 0)
  pairwise : r.sent.Pairwise fun a b => a.vpts ≤ b.vpts
  shown : r.displayed = true → r.sent.length % 2 = 1 ∧ r.sent.getLast? = some ⟨true, r.display_vpts⟩
  hidden : r.displayed = false → r.sent.length % 2 = 0 ∧ ∀ event ∈ r.sent, event.vpts ≤ r.last_hide_vpts

namespace CcRenderer

variable {r : CcRenderer}

theorem Timely.alternates (h : r.Timely) : Alternates r.sent := alternates_of_pairwise h.turns h.pairwise

theorem Timely.getElem?_shown (h : r.Timely) (hdisplayed : r.displayed = true) :
    ∃ i, r.sent.length = 2 * i + 1 ∧ r.sent[2 * i]? = some ⟨true, r.display_vpts⟩ := by
  obtain ⟨hodd, hlast⟩ := h.shown hdisplayed
  refine ⟨r.sent.length / 2, by omega, ?_⟩
  rw [List.getLast?_eq_getElem?] at hlast
  rwa [show 2 * (r.sent.length / 2) = r.sent.length - 1 by omega]

theorem turns_append (hturns : ∀ i event, r.sent[i]? = some event → (event.shows = true ↔ i % 2 = 0)) {shows : Bool}
    (hlength : shows = true ↔ r.sent.length % 2 = 0) (i : ℕ) (event : CcEvent)
    (h : (r.sent ++ [⟨shows, vpts⟩])[i]? = some event) : event.shows = true ↔ i % 2 = 0 := by
  obtain hlt | hge := lt_or_ge i r.sent.length
  · rw [List.getElem?_append_left hlt] at h
    exact hturns i event h
  · rw [List.getElem?_append_right hge] at h
    obtain ⟨hi, hevent⟩ := List.getElem?_eq_some_iff.1 h
    rw [List.length_singleton] at hi
    obtain rfl : i = r.sent.length := by omega
    rw [List.getElem_singleton] at hevent
    rw [← hevent]
    exact hlength

theorem Timely.le_display (h : r.Timely) (hdisplayed : r.displayed = true) : ∀ event ∈ r.sent, event.vpts ≤ r.display_vpts := by
  obtain ⟨-, hlast⟩ := h.shown hdisplayed
  obtain ⟨before, hbefore⟩ := List.getLast?_eq_some_iff.1 hlast
  have hpairwise := h.pairwise
  rw [hbefore, List.pairwise_append] at hpairwise
  intro event hevent
  rw [hbefore] at hevent
  obtain hmem | hmem := List.mem_append.1 hevent
  · exact hpairwise.2.2 event hmem _ (List.mem_singleton_self _)
  · rw [List.mem_singleton.1 hmem]

theorem pairwise_append_event (hpairwise : r.sent.Pairwise fun a b => a.vpts ≤ b.vpts) {event : CcEvent}
    (hle : ∀ before ∈ r.sent, before.vpts ≤ event.vpts) :
    (r.sent ++ [event]).Pairwise fun a b => a.vpts ≤ b.vpts := by
  refine List.pairwise_append.2 ⟨hpairwise, List.pairwise_singleton _ _, fun before hbefore after hafter => ?_⟩
  rw [List.mem_singleton.1 hafter]
  exact hle before hbefore

theorem Timely.hideCaption (h : r.Timely) (hvpts : r.displayed = true → r.display_vpts ≤ vpts) :
    (r.hideCaption vpts).Timely := by
  unfold CcRenderer.hideCaption
  split_ifs with hdisplayed
  · have hle : ∀ event ∈ r.sent, event.vpts ≤ vpts := fun event hevent =>
      (h.le_display hdisplayed event hevent).trans (hvpts hdisplayed)
    have hodd := (h.shown hdisplayed).1
    refine ⟨turns_append h.turns (by simp [hodd]), pairwise_append_event h.pairwise hle, nofun, fun _ => ⟨?_, ?_⟩⟩
    · change (r.sent ++ [_]).length % 2 = 0
      rw [List.length_append, List.length_singleton]
      omega
    · intro event hevent
      obtain hmem | hmem := List.mem_append.1 hevent
      · exact hle event hmem
      · rw [List.mem_singleton.1 hmem]
  · exact h

theorem Timely.showCaption (h : r.Timely) (hdisplayed : r.displayed = false) : (r.showCaption vpts).Timely := by
  unfold CcRenderer.showCaption
  dsimp only
  rw [hdisplayed, if_neg Bool.false_ne_true]
  obtain ⟨heven, hle⟩ := h.hidden hdisplayed
  have hmax : r.last_hide_vpts ≤ if vpts > r.last_hide_vpts then vpts else r.last_hide_vpts := by
    split_ifs with hlt
    · exact hlt.le
    · exact le_rfl
  refine ⟨turns_append h.turns (by simp [heven]), pairwise_append_event h.pairwise fun event hevent => ?_,
    fun _ => ⟨?_, ?_⟩, nofun⟩
  · exact (hle event hevent).trans hmax
  · change (r.sent ++ [_]).length % 2 = 1
    rw [List.length_append, List.length_singleton]
    omega
  · exact List.getLast?_concat

theorem Timely.updateCfg (h : r.Timely) (fits : Bool) : (r.updateCfg fits).Timely := by
  have hfree : r.freeOsdObject.Timely := by
    unfold freeOsdObject
    split_ifs
    · have hhide := h.hideCaption fun _ => le_refl r.display_vpts
      exact ⟨hhide.turns, hhide.pairwise, hhide.shown, hhide.hidden⟩
    · exact h
  unfold CcRenderer.updateCfg
  split_ifs
  · exact ⟨hfree.turns, hfree.pairwise, hfree.shown, hfree.hidden⟩
  · exact hfree

end CcRenderer

/-! ## Runs -/

/-- The decoder knows whether the renderer displays a caption, and the renderer was on time. -/
structure CcStream.Timely (s : CcStream) : Prop where
  renderer : s.renderer.Timely
  same : s.renderer.displayed = s.decoder.displayed

/-- A caption is hidden at a time that is not before the one at which it was shown. -/
def HideFits (s : CcStream) : CcAct → Prop
  | .pair data => s.can_cc = true → Hides s.decoder data → ∀ metronom vpts, s.calcVpts = some (metronom, vpts) →
      s.renderer.display_vpts ≤ vpts
  | .packet _ | .updateCfg _ | .metronom _ => True

/-- What a pair does to the renderer. -/
inductive PairSpec (s t : CcStream) (data : UInt16) : Prop
  | nothing (h : ¬Hides s.decoder data) (hrenderer : t.renderer = s.renderer)
      (hdisplayed : t.decoder.displayed = s.decoder.displayed)
  | hides (h : Hides s.decoder data) (metronom : Metronom) (vpts : ℤ) (hcalc : s.calcVpts = some (metronom, vpts))
      (hrenderer : t.renderer = s.renderer.hideCaption vpts) (hdisplayed : t.decoder.displayed = false)
  | shows (h : s.decoder.displayed = false) (vpts : ℤ) (hrenderer : t.renderer = s.renderer.showCaption vpts)
      (hdisplayed : t.decoder.displayed = true)
  | swaps (h : Hides s.decoder data) (metronom : Metronom) (vpts later : ℤ)
      (hcalc : s.calcVpts = some (metronom, vpts))
      (hrenderer : t.renderer = (s.renderer.hideCaption vpts).showCaption later)
      (hdisplayed : t.decoder.displayed = true)

theorem decodePair_spec (h : s.decodePair data = some t) : PairSpec s t data := by
  obtain ⟨d, hd, h⟩ := Option.bind_eq_some_iff.1 h
  obtain ⟨u, hu, h⟩ := Option.bind_eq_some_iff.1 h
  cases h
  obtain ⟨told, hdisplay, htells⟩ := decode_tells hd
  rw [hdisplay, List.drop_left] at hu
  -- one message after the other
  have htell : ∀ {r v : CcStream} {display : CcDisplay}, r.tell display = some v → v.decoder = r.decoder ∧
      ∃ metronom vpts, r.calcVpts = some (metronom, vpts) ∧ v.renderer = match display with
        | .hideCaption => r.renderer.hideCaption vpts
        | .showCaption _ => r.renderer.showCaption vpts := by
    intro r v display hv
    obtain ⟨⟨metronom, vpts⟩, hcalc, rfl⟩ := Option.map_eq_some_iff.1 hv
    cases display <;> exact ⟨rfl, metronom, vpts, hcalc, rfl⟩
  generalize hdisplayed : d.displayed = displayed at htells
  cases htells with
  | nothing hnot =>
    cases hu
    exact .nothing hnot rfl hdisplayed
  | hides hhides =>
    obtain ⟨v, hv, hrest⟩ := Option.bind_eq_some_iff.1 hu
    cases hrest
    obtain ⟨hdecoder, metronom, vpts, hcalc, hrenderer⟩ := htell hv
    exact .hides hhides metronom vpts hcalc hrenderer ((congrArg CcDecoder.displayed hdecoder).trans hdisplayed)
  | shows hnone buf =>
    obtain ⟨v, hv, hrest⟩ := Option.bind_eq_some_iff.1 hu
    cases hrest
    obtain ⟨hdecoder, metronom, vpts, hcalc, hrenderer⟩ := htell hv
    exact .shows hnone vpts hrenderer ((congrArg CcDecoder.displayed hdecoder).trans hdisplayed)
  | swaps hhides buf =>
    obtain ⟨v, hv, hrest⟩ := Option.bind_eq_some_iff.1 hu
    obtain ⟨w, hw, hrest⟩ := Option.bind_eq_some_iff.1 hrest
    cases hrest
    obtain ⟨hdecoder, metronom, vpts, hcalc, hrenderer⟩ := htell hv
    obtain ⟨hdecoder', metronom', later, -, hrenderer'⟩ := htell hw
    refine .swaps hhides metronom vpts later hcalc (hrenderer'.trans (by rw [hrenderer])) ?_
    exact (congrArg CcDecoder.displayed (hdecoder'.trans hdecoder)).trans hdisplayed

theorem hideCaption_displayed (r : CcRenderer) : (r.hideCaption vpts).displayed = false := by
  unfold CcRenderer.hideCaption
  split_ifs with h
  · rfl
  · exact Bool.eq_false_iff.2 h

theorem exists_shown (r : CcRenderer) (vpts : ℤ) (h : r.displayed = false) :
    ∃ shown, (r.showCaption vpts).sent = r.sent ++ [⟨true, shown⟩] := by
  unfold CcRenderer.showCaption
  dsimp only
  rw [h, if_neg Bool.false_ne_true]
  exact ⟨_, rfl⟩

theorem pair_timely (hs : s.Timely) (h : PairSpec s t data)
    (hfits : Hides s.decoder data → ∀ metronom vpts, s.calcVpts = some (metronom, vpts) →
      s.renderer.display_vpts ≤ vpts) : t.Timely := by
  cases h with
  | nothing hnot hrenderer hdisplayed =>
    exact ⟨hrenderer ▸ hs.renderer, by rw [hrenderer, hdisplayed]; exact hs.same⟩
  | hides hhides metronom vpts hcalc hrenderer hdisplayed =>
    refine ⟨?_, by rw [hrenderer, hdisplayed]; exact hideCaption_displayed s.renderer⟩
    rw [hrenderer]
    exact hs.renderer.hideCaption fun _ => hfits hhides metronom vpts hcalc
  | shows hnone vpts hrenderer hdisplayed =>
    refine ⟨?_, by rw [hrenderer, hdisplayed]; rfl⟩
    rw [hrenderer]
    exact hs.renderer.showCaption (hs.same.trans hnone)
  | swaps hhides metronom vpts later hcalc hrenderer hdisplayed =>
    refine ⟨?_, by rw [hrenderer, hdisplayed]; rfl⟩
    rw [hrenderer]
    have hhidden := hs.renderer.hideCaption fun _ => hfits hhides metronom vpts hcalc
    exact hhidden.showCaption (hideCaption_displayed s.renderer)

theorem act_timely {a : CcAct} (hs : s.Timely) (hfits : HideFits s a) (h : s.act a = some t) : t.Timely := by
  cases a with
  | packet pts =>
    change (if s.can_cc = true then _ else _) = _ at h
    split_ifs at h
    · cases h
      exact ⟨hs.renderer, hs.same⟩
    · cases h
      exact hs
  | pair data =>
    change (if s.can_cc = true then _ else _) = _ at h
    split_ifs at h with hcan
    · exact pair_timely hs (decodePair_spec h) (hfits hcan)
    · cases h
      exact hs
  | updateCfg fits =>
    cases h
    exact ⟨hs.renderer.updateCfg fits, rfl⟩
  | metronom m =>
    cases h
    exact ⟨hs.renderer, hs.same⟩

theorem not_alternates_of_early (hs : s.renderer.Timely) (hdisplayed : s.renderer.displayed = true)
    (hlt : vpts < s.renderer.display_vpts) {rest : List CcEvent}
    (hsent : t.renderer.sent = s.renderer.sent ++ ⟨false, vpts⟩ :: rest) : ¬Alternates t.renderer.sent := by
  obtain ⟨i, hlength, hshown⟩ := hs.getElem?_shown hdisplayed
  have hshown' : t.renderer.sent[2 * i]? = some ⟨true, s.renderer.display_vpts⟩ := by
    rw [hsent, List.getElem?_append_left (by omega), hshown]
  have hhidden : t.renderer.sent[2 * i + 1]? = some ⟨false, vpts⟩ := by
    rw [hsent, List.getElem?_append_right (by omega), hlength, Nat.sub_self]
    rfl
  exact not_alternates hshown' hhidden hlt

theorem act_breaks {a : CcAct} (hs : s.Timely) (hfits : ¬HideFits s a) (h : s.act a = some t) :
    ¬Alternates t.renderer.sent := by
  cases a with
  | packet _ | updateCfg _ | metronom _ => exact absurd trivial hfits
  | pair data =>
    change ¬(_ → _ → _) at hfits
    obtain ⟨hcan, hrest⟩ := Classical.not_imp.1 hfits
    obtain ⟨hhides, hrest⟩ := Classical.not_imp.1 hrest
    simp only [not_forall, not_le] at hrest
    obtain ⟨metronom, vpts, hcalc, hlt⟩ := hrest
    have hdisplayed : s.renderer.displayed = true := hs.same.trans hhides.1
    have hhidden : (s.renderer.hideCaption vpts).sent = s.renderer.sent ++ [⟨false, vpts⟩] := by
      unfold CcRenderer.hideCaption
      rw [if_pos hdisplayed]
    change (if s.can_cc = true then _ else _) = _ at h
    rw [if_pos hcan] at h
    cases decodePair_spec h with
    | nothing hnot => exact absurd hhides hnot
    | hides _ metronom' vpts' hcalc' hrenderer =>
      obtain ⟨-, rfl⟩ := Prod.mk.inj (Option.some.inj (hcalc.symm.trans hcalc'))
      exact not_alternates_of_early hs.renderer hdisplayed hlt (by rw [hrenderer, hhidden])
    | shows hnone => exact absurd (hnone.symm.trans hhides.1) Bool.false_ne_true
    | swaps _ metronom' vpts' later hcalc' hrenderer =>
      obtain ⟨-, rfl⟩ := Prod.mk.inj (Option.some.inj (hcalc.symm.trans hcalc'))
      obtain ⟨shown, hshown⟩ := exists_shown (s.renderer.hideCaption vpts) later (hideCaption_displayed _)
      have hsent : t.renderer.sent = s.renderer.sent ++ ⟨false, vpts⟩ :: [⟨true, shown⟩] := by
        rw [hrenderer, hshown, hhidden, List.append_assoc, List.singleton_append]
      exact not_alternates_of_early hs.renderer hdisplayed hlt hsent

theorem start_timely (fits : Bool) (m : Metronom) : (CcStream.start fits m).Timely where
  renderer := ⟨nofun, List.Pairwise.nil, nofun, fun _ => ⟨rfl, nofun⟩⟩
  same := rfl

/-- A caption is swapped in with the second pair of a packet, and erased with the first pair of a packet with the
same pts. -/
def earlyErase : List CcCall :=
  [.decodeCc [0xff, 0xc1, 0xc1, 0, 0, 0, 0xff, 0x94, 0x2f] 90000, .decodeCc [0xff, 0x94, 0x2c] 90000]

end Xine.Cc
