import Xine.Rip.Transparency

/-!
# Seeks in range

The position stays between the start and what has been saved, whatever comes of the calls, as long as no seek goes
to a negative position of a stream with a preview: there the file is asked for the position behind the preview,
and the position of the plugin is the negative one.
-/

namespace Xine.Rip

variable {r t : RipInputPlugin} {m : InputPlugin} {newpos : ℤ} {back : Bool}

namespace RipInputPlugin

/-- The plugin after a call, whatever comes of it. -/
def call (r : RipInputPlugin) : Call → RipInputPlugin
  | .read len => (r.ripPluginRead len).2
  | .readBlock todo => (r.ripPluginReadBlock todo).2
  | .seek offset origin back => (r.ripPluginSeek offset origin back).2

/-- A position between the start and what has been saved. -/
def InRange (r : RipInputPlugin) : Prop := 0 ≤ r.curpos ∧ r.curpos ≤ r.savepos

/-- The preview has been saved, too. -/
structure Bounded (r : RipInputPlugin) : Prop where
  inRange : r.InRange
  preview_size_nonneg : 0 ≤ r.preview_size
  preview_size_le : r.preview_size ≤ r.savepos

/-! ## Seeks that stay -/

/-- What a seek back asks for: not a position in the preview. -/
def requested (r : RipInputPlugin) (newpos : ℤ) : ℤ :=
  if r.preview.isSome ∧ newpos < r.preview_size then r.preview_size else newpos

/-- Where a seek sends the wrapped input, or the file, if it does. -/
def sends (r : RipInputPlugin) (newpos : ℤ) : Option ℤ :=
  if newpos < r.savepos then some (r.requested newpos)
  else if r.curpos < r.savepos then some r.savepos else none

/-- The wrapped input does not go back there. -/
def Refuses (r : RipInputPlugin) (newpos : ℤ) (back : Bool) : Prop :=
  r.regular = false ∧ ∃ reqpos ∈ r.sends newpos, 0 ≤ reqpos ∧
    ¬(r.main_input_plugin.seekable = true ∨ r.main_input_plugin.pos ≤ reqpos ∨ back = true)

/-- A seek does not go in front of a preview, and a wrapped input that refuses to go back is not ahead of what
has been saved. -/
def StaysInRange (r : RipInputPlugin) : Call → Prop
  | .read _ => True
  | .readBlock _ => True
  | .seek offset origin back =>
    (r.preview.isSome = true → 0 ≤ r.newPosition offset origin ∨ r.Refuses (r.newPosition offset origin) back) ∧
      (r.Refuses (r.newPosition offset origin) back → (r.main_input_plugin.pos : ℤ) ≤ r.savepos)

instance instDecidableRefuses (r : RipInputPlugin) (newpos : ℤ) (back : Bool) : Decidable (r.Refuses newpos back) :=
  inferInstanceAs (Decidable (_ ∧ ∃ _ ∈ _, _ ∧ ¬_))

instance instDecidableStaysInRange (r : RipInputPlugin) : (c : Call) → Decidable (r.StaysInRange c)
  | .read _ => isTrue trivial
  | .readBlock _ => isTrue trivial
  | .seek _ _ _ => inferInstanceAs (Decidable ((_ → _ ∨ RipInputPlugin.Refuses _ _ _) ∧ (RipInputPlugin.Refuses _ _ _ → _)))

/-! ## Reads -/

theorem sizes_bounded (h : Bounded r) (len : ℕ) :
    ∃ np nr : ℤ, r.sizes len = (np, nr) ∧ 0 ≤ np ∧ 0 ≤ nr ∧ np + nr ≤ len ∧ r.curpos + np + nr ≤ r.savepos := by
  obtain ⟨⟨hcur, hle⟩, hpre, hsaved⟩ := h
  unfold sizes
  dsimp only
  split_ifs with hin hlen
  · exact ⟨_, _, rfl, by omega, by omega, by omega, by omega⟩
  · exact ⟨_, _, rfl, by omega, by omega, by omega, by omega⟩
  · exact ⟨_, _, rfl, by omega, by omega, by omega, by omega⟩

theorem advance_bounded (h : Bounded r) {buf : List Byte} {n : ℤ} (hn : 0 ≤ n) (hle : r.curpos + n ≤ r.savepos) :
    Bounded (r.advance buf n).2 := by
  obtain ⟨⟨hcur, -⟩, hpre, hsaved⟩ := h
  refine ⟨⟨?_, hle⟩, hpre, hsaved⟩
  change 0 ≤ r.curpos + n
  omega

theorem finish_bounded (h : Bounded r) {buf : List Byte} {retlen nread_orig np nr : ℤ} (hnp : 0 ≤ np)
    (hnr : 0 ≤ nr) (hle : r.curpos + np + nr ≤ r.savepos) :
    Bounded (r.finish buf retlen nread_orig np nr).2 := by
  obtain ⟨⟨hcur, hsave⟩, hpre, hsaved⟩ := h
  rcases lt_or_ge nread_orig retlen with hlt | hge
  · -- `savepos` and `curpos` advance by the same new bytes
    rw [finish_of_lt hlt hsave]
    refine ⟨⟨?_, ?_⟩, hpre, ?_⟩
    · change 0 ≤ r.curpos + (np + nr + (retlen - nread_orig))
      omega
    · change r.curpos + (np + nr + (retlen - nread_orig)) ≤ r.savepos + (retlen - nread_orig)
      omega
    · change r.preview_size ≤ r.savepos + (retlen - nread_orig)
      omega
  · rw [finish_of_le hge]
    refine ⟨⟨?_, ?_⟩, hpre, hsaved⟩
    · change 0 ≤ r.curpos + (np + nr + 0)
      omega
    · change r.curpos + (np + nr + 0) ≤ r.savepos
      omega

theorem ripPluginRead_bounded (h : Bounded r) (len : ℕ) : Bounded (r.ripPluginRead len).2 := by
  obtain ⟨np, nr, hsizes, hnp, hnr, hlen, hle⟩ := sizes_bounded h len
  unfold ripPluginRead
  rw [hsizes]
  dsimp only
  cases r.fromFile (if r.regular = true then nr else 0) with
  | none => exact h
  | some p =>
    have hfile : Bounded { r with file := p.2 } := ⟨h.1, h.2, h.3⟩
    dsimp only
    by_cases hread : (if r.regular = true then 0 else nr) + ((len : ℤ) - np - nr) ≠ 0
    · rw [if_pos hread]
      split
      · exact ⟨h.1, h.2, h.3⟩
      · refine finish_bounded ?_ hnp hnr hle
        exact ⟨h.1, h.2, h.3⟩
    · rw [if_neg hread]
      refine advance_bounded hfile (by omega) ?_
      change r.curpos + (np + nr + (len - np - nr)) ≤ r.savepos
      split_ifs at hread <;> omega

theorem ripPluginReadBlock_bounded (h : Bounded r) (todo : ℕ) : Bounded (r.ripPluginReadBlock todo).2 := by
  obtain ⟨np, nr, hsizes, hnp, hnr, hlen, hle⟩ := sizes_bounded h todo
  unfold ripPluginReadBlock
  rw [hsizes]
  dsimp only
  by_cases htodo : todo = 0
  · rw [if_pos htodo]
    exact h
  rw [if_neg htodo]
  cases r.fromFile (if r.regular = true then nr else 0) with
  | none => exact h
  | some p =>
    have hfile : Bounded { r with file := p.2 } := ⟨h.1, h.2, h.3⟩
    dsimp only
    by_cases hread : (if r.regular = true then 0 else nr) + ((todo : ℤ) - np - nr) ≠ 0
    · rw [if_pos hread]
      split
      · exact ⟨h.1, h.2, h.3⟩
      · rename_i data main hdata
        by_cases hlength : (data.length : ℤ) ≠ (if r.regular = true then 0 else nr) + ((todo : ℤ) - np - nr)
        · rw [if_pos hlength]
          exact ⟨h.1, h.2, h.3⟩
        · rw [if_neg hlength]
          refine finish_bounded ?_ hnp hnr hle
          exact ⟨h.1, h.2, h.3⟩
    · rw [if_neg hread]
      refine advance_bounded hfile (by omega) ?_
      change r.curpos + (np + nr + (todo - np - nr)) ≤ r.savepos
      split_ifs at hread <;> omega

theorem catchUp_bounded (h : Bounded r) (fuel : ℕ) : Bounded (catchUp newpos fuel r).2 := by
  induction fuel generalizing r with
  | zero => exact h
  | succ fuel ih =>
    unfold catchUp
    by_cases hlt : r.curpos < newpos
    · rw [if_pos hlt]
      cases r.main_input_plugin.blocksize with
      | some blocksize =>
        have hblock := ripPluginReadBlock_bounded h blocksize
        dsimp only
        split
        · rename_i hread
          rw [hread] at hblock
          exact ih hblock
        · rename_i hread
          rw [hread] at hblock
          exact hblock
      | none =>
        have hbytes := ripPluginRead_bounded h (min (newpos - r.curpos).toNat scratchSize)
        dsimp only
        split
        · rename_i hread
          rw [hread] at hbytes
          split_ifs
          · exact hbytes
          · exact ih hbytes
        · rename_i hread
          rw [hread] at hbytes
          exact hbytes
    · rw [if_neg hlt]
      exact h

/-! ## Seeks -/

theorem refuses_iff (hnew : newpos < r.savepos) : r.Refuses newpos back ↔
    r.regular = false ∧ 0 ≤ r.requested newpos ∧ ¬(r.main_input_plugin.seekable = true ∨
      r.main_input_plugin.pos ≤ r.requested newpos ∨ back = true) := by
  unfold Refuses sends
  rw [if_pos hnew]
  refine and_congr_right fun _ => ⟨?_, fun h => ⟨_, rfl, h⟩⟩
  rintro ⟨reqpos, hreqpos, h⟩
  rwa [← Option.some.inj hreqpos] at h

theorem seekBack_eq (r : RipInputPlugin) (newpos : ℤ) (back : Bool) : r.seekBack newpos back =
    if r.regular then
      (if r.requested newpos ≠ r.savepos then r.file.fseek (r.requested newpos) else some r.file).map fun file =>
        { r with file, curpos := newpos }
    else
      (r.ripSeekOriginal (r.requested newpos) back).map fun r' =>
        if r'.curpos = r.requested newpos then { r' with curpos := newpos } else r' := rfl

theorem requested_nonneg (h : Bounded r) (hpos : r.preview.isSome = true ∨ 0 ≤ newpos) :
    0 ≤ r.requested newpos := by
  have hpre := h.preview_size_nonneg
  unfold requested
  split_ifs with hin
  · exact hpre
  · rcases hpos with hsome | hpos
    · exact hpre.trans (Int.not_lt.1 fun hlt => hin ⟨hsome, hlt⟩)
    · exact hpos

theorem seekBack_cases (h : Bounded r) (hnew : newpos < r.savepos) (hok : r.seekBack newpos back = some t) :
    t.savepos = r.savepos ∧ t.preview_size = r.preview_size ∧ 0 ≤ r.requested newpos ∧
      ((r.Refuses newpos back ∧ t.curpos = r.main_input_plugin.pos) ∨
        (¬r.Refuses newpos back ∧ t.curpos = newpos)) := by
  have hsave := h.preview_size_nonneg.trans h.preview_size_le
  rw [refuses_iff hnew]
  rw [seekBack_eq] at hok
  by_cases hreg : r.regular = true
  · rw [if_pos hreg] at hok
    obtain ⟨file, hseek, rfl⟩ := Option.map_eq_some_iff.1 hok
    refine ⟨rfl, rfl, ?_, Or.inr ⟨fun hrefuses => ?_, rfl⟩⟩
    · by_cases hne : r.requested newpos ≠ r.savepos
      · rw [if_pos hne] at hseek
        exact (Option.ite_none_right_eq_some.1 hseek).1
      · rw [not_not.1 hne]
        exact hsave
    · exact absurd (hreg.symm.trans hrefuses.1) Bool.false_ne_true.symm
  · rw [if_neg hreg] at hok
    obtain ⟨u, hu, rfl⟩ := Option.map_eq_some_iff.1 hok
    obtain ⟨⟨pos, main⟩, hseek, rfl⟩ := Option.map_eq_some_iff.1 hu
    unfold InputPlugin.seek at hseek
    have hnonneg : ¬r.requested newpos < 0 := fun hneg => by
      rw [if_pos hneg] at hseek
      cases hseek
    rw [if_neg hnonneg] at hseek
    -- when the seek is refused, the position is that of the wrapped input, and another one
    by_cases hgranted : r.main_input_plugin.seekable = true ∨ r.main_input_plugin.pos ≤ r.requested newpos ∨
        back = true
    · rw [if_pos hgranted] at hseek
      obtain ⟨rfl, rfl⟩ := Prod.mk.inj (Option.some.inj hseek)
      dsimp only
      rw [if_pos rfl]
      exact ⟨rfl, rfl, Int.not_lt.1 hnonneg, Or.inr ⟨fun hrefuses => hrefuses.2.2 hgranted, rfl⟩⟩
    · rw [if_neg hgranted] at hseek
      obtain ⟨rfl, rfl⟩ := Prod.mk.inj (Option.some.inj hseek)
      have hne : (r.main_input_plugin.pos : ℤ) ≠ r.requested newpos := fun heq =>
        hgranted (Or.inr (Or.inl heq.le))
      dsimp only
      rw [if_neg hne]
      exact ⟨rfl, rfl, Int.not_lt.1 hnonneg,
        Or.inl ⟨⟨Bool.eq_false_iff.2 hreg, Int.not_lt.1 hnonneg, hgranted⟩, rfl⟩⟩

theorem seekBack_ne_none (h : 0 ≤ r.requested newpos) : r.seekBack newpos back ≠ none := by
  rw [seekBack_eq]
  by_cases hreg : r.regular = true
  · rw [if_pos hreg]
    intro hnone
    have hseek := Option.map_eq_none_iff.1 hnone
    unfold File.fseek at hseek
    split_ifs at hseek
  · rw [if_neg hreg]
    intro hnone
    have hseek := Option.map_eq_none_iff.1 (Option.map_eq_none_iff.1 hnone)
    unfold InputPlugin.seek at hseek
    rw [if_neg (Int.not_lt.2 h)] at hseek
    split_ifs at hseek

theorem seekEnd_bounded (h : Bounded r) (hnew : ¬newpos < r.savepos)
    (hmain : r.Refuses newpos back → (r.main_input_plugin.pos : ℤ) ≤ r.savepos)
    (hok : r.seekEnd back = some t) : Bounded t := by
  have hsave := h.preview_size_nonneg.trans h.preview_size_le
  have hend : InRange { r with curpos := r.savepos } := ⟨hsave, le_rfl⟩
  unfold seekEnd at hok
  by_cases hlt : r.curpos < r.savepos
  · rw [if_pos hlt] at hok
    by_cases hreg : r.regular = true
    · rw [if_pos hreg] at hok
      obtain ⟨file, -, rfl⟩ := Option.map_eq_some_iff.1 hok
      exact ⟨hend, h.2, h.3⟩
    · rw [if_neg hreg] at hok
      obtain ⟨⟨pos, main⟩, hseek, rfl⟩ := Option.map_eq_some_iff.1 hok
      unfold InputPlugin.seek at hseek
      rw [if_neg (Int.not_lt.2 hsave)] at hseek
      by_cases hgranted : r.main_input_plugin.seekable = true ∨ r.main_input_plugin.pos ≤ r.savepos ∨ back = true
      · rw [if_pos hgranted] at hseek
        obtain ⟨rfl, rfl⟩ := Prod.mk.inj (Option.some.inj hseek)
        exact ⟨hend, h.2, h.3⟩
      · rw [if_neg hgranted] at hseek
        obtain ⟨rfl, rfl⟩ := Prod.mk.inj (Option.some.inj hseek)
        have hrefuses : r.Refuses newpos back := by
          refine ⟨Bool.eq_false_iff.2 hreg, r.savepos, ?_, hsave, hgranted⟩
          unfold sends
          rw [if_neg hnew, if_pos hlt]
          rfl
        exact ⟨⟨Int.natCast_nonneg _, hmain hrefuses⟩, h.2, h.3⟩
  · rw [if_neg hlt] at hok
    exact Option.some.inj hok ▸ h

theorem ripPluginSeek_bounded (h : Bounded r) {offset : ℤ} {origin : Origin}
    (hstays : r.StaysInRange (.seek offset origin back)) : Bounded (r.ripPluginSeek offset origin back).2 := by
  obtain ⟨hpreview, hmain⟩ := hstays
  unfold ripPluginSeek
  dsimp only
  by_cases hnew : r.newPosition offset origin < r.savepos
  · rw [if_pos hnew]
    cases hback : r.seekBack (r.newPosition offset origin) back with
    | none => exact h
    | some t =>
      obtain ⟨hsave, hsize, hnonneg, hcases⟩ := seekBack_cases h hnew hback
      refine ⟨?_, by rw [hsize]; exact h.2, by rw [hsize, hsave]; exact h.3⟩
      unfold InRange
      rw [hsave]
      rcases hcases with ⟨hrefuses, hpos⟩ | ⟨hgranted, hpos⟩
      · rw [hpos]
        exact ⟨Int.natCast_nonneg _, hmain hrefuses⟩
      · rw [hpos]
        refine ⟨?_, hnew.le⟩
        -- without a preview the position that is asked for is the new one
        by_cases hsome : r.preview.isSome = true
        · exact (hpreview hsome).resolve_right hgranted
        · unfold requested at hnonneg
          rwa [if_neg fun hin => hsome hin.1] at hnonneg
  · rw [if_neg hnew]
    cases hend : r.seekEnd back with
    | none => exact h
    | some t => exact catchUp_bounded (seekEnd_bounded h hnew hmain hend) _

theorem ripPluginSeek_inRange_iff (h : Bounded r)
    (hmain : r.regular = true ∨ (r.main_input_plugin.pos : ℤ) ≤ r.savepos) (offset : ℤ) (origin : Origin)
    (back : Bool) :
    InRange (r.ripPluginSeek offset origin back).2 ↔ r.StaysInRange (.seek offset origin back) := by
  refine ⟨fun hrange => ⟨fun hsome => ?_, fun hrefuses => ?_⟩, fun hstays => (ripPluginSeek_bounded h hstays).1⟩
  · -- a negative position of a stream with a preview is granted, as that behind the preview
    by_contra hnot
    obtain ⟨hneg, hgranted⟩ := not_or.1 hnot
    have hsave := h.preview_size_nonneg.trans h.preview_size_le
    have hnew : r.newPosition offset origin < r.savepos := (Int.not_le.1 hneg).trans_le hsave
    unfold ripPluginSeek at hrange
    dsimp only at hrange
    rw [if_pos hnew] at hrange
    cases hback : r.seekBack (r.newPosition offset origin) back with
    | none => exact seekBack_ne_none (requested_nonneg h (Or.inl hsome)) hback
    | some t =>
      rw [hback] at hrange
      obtain ⟨-, -, -, ⟨hrefuses, -⟩ | ⟨-, hpos⟩⟩ := seekBack_cases h hnew hback
      · exact hgranted hrefuses
      · exact hneg (hpos ▸ hrange.1)
  · exact hmain.resolve_left fun hreg => absurd (hreg.symm.trans hrefuses.1) Bool.false_ne_true.symm

theorem call_bounded (h : Bounded r) {c : Call} (hstays : r.StaysInRange c) : Bounded (r.call c) := by
  cases c with
  | read len => exact ripPluginRead_bounded h len
  | readBlock todo => exact ripPluginReadBlock_bounded h todo
  | seek offset origin back => exact ripPluginSeek_bounded h hstays

theorem ripPluginGetInstance_bounded {regular : Bool} {around : ℤ → Byte}
    (h : ripPluginGetInstance m regular around = some r) : Bounded r := by
  unfold ripPluginGetInstance at h
  by_cases hseekable : m.seekable = true
  · rw [if_pos hseekable] at h
    cases h
    exact ⟨⟨le_rfl, le_rfl⟩, le_rfl, le_rfl⟩
  · rw [if_neg hseekable] at h
    split at h
    · cases h
    · cases h
      exact ⟨⟨le_rfl, Int.natCast_nonneg _⟩, Int.natCast_nonneg _, le_rfl⟩

end RipInputPlugin

/-! ## Runs -/

/-- A call, as a step that is always taken. -/
def calls (r : RipInputPlugin) (c : Call) : Option RipInputPlugin := some (r.call c)

/-- In every state that is reached by seeks that stay, with any reads between them, the position is in range. A
seek leaves it there if and only if it stays, while the wrapped input is not ahead. -/
theorem rip_seeks_in_range {regular : Bool} {around : ℤ → Byte} (cs : List Call)
    (hr : RipInputPlugin.ripPluginGetInstance m regular around = some r)
    (hstays : Runs.Guarded calls RipInputPlugin.StaysInRange r cs) (hrun : Runs.run calls r cs = some t) :
    t.InRange ∧ ∀ offset origin back, (t.regular = true ∨ (t.main_input_plugin.pos : ℤ) ≤ t.savepos) →
      ((t.ripPluginSeek offset origin back).2.InRange ↔ t.StaysInRange (.seek offset origin back)) := by
  have hbounded : t.Bounded := by
    refine Runs.guarded_invariant (fun r c u hr hok hstep => ?_)
      (RipInputPlugin.ripPluginGetInstance_bounded hr) hstays hrun
    cases hstep
    exact RipInputPlugin.call_bounded hr hok
  exact ⟨hbounded.1, fun offset origin back hmain =>
    RipInputPlugin.ripPluginSeek_inRange_iff hbounded hmain offset origin back⟩

theorem rip_seeks_in_range_small : ∃ t, Runs.run calls smallRip smallCalls = some t ∧ t.InRange ∧
    (t.ripPluginSeek 0 .set false).2.InRange := by
  obtain ⟨hrange, hseek⟩ := @rip_seeks_in_range smallRip _ smallInput true (fun _ => 0xff) smallCalls rfl
    (by decide) rfl
  exact ⟨_, rfl, hrange, (hseek 0 .set false (Or.inl rfl)).2 (by decide)⟩

/-- A seek to -3 in a preview of three bytes. -/
theorem seek_before_preview :
    RipInputPlugin.ripPluginGetInstance smallInput true (fun _ => 0xff) = some smallRip ∧
      (smallRip.ripPluginSeek (-3) .set false).2.curpos = -3 ∧
      ¬(smallRip.ripPluginSeek (-3) .set false).2.InRange := by
  have hpos : (smallRip.ripPluginSeek (-3) .set false).2.curpos = -3 := rfl
  refine ⟨rfl, hpos, fun hrange => ?_⟩
  have hnonneg := hrange.1
  rw [hpos] at hnonneg
  exact absurd hnonneg (by decide)

end Xine.Rip
