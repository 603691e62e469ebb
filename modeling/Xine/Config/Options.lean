import Xine.Config.Order

/-!
# Options against lines of the configuration file

`xine_config_change_opt` reads a text `key:value` that could be a line of the configuration file too.
`HandlesOption` says that it reads it in the same way: it follows no null pointer, fails for a text without a key
that has an entry, and otherwise, unless the entry is protected, does what `xine_config_load` does for the line.
-/

namespace Xine.Config

variable {this : ConfigValues} {opt key k value v : Str} {entry e : CfgEntry}

/-! ## The two splittings -/

/-- The key of the text, as in the file: what is before its first colon. -/
def fileKey (opt : Str) : Str := Splitting.before ':' opt

/-- The value of the text, as in the file. -/
def fileValue (opt : Str) : Str := Splitting.after ':' opt

theorem splitSetting_of_mem (h : ':' ∈ opt) : splitSetting opt = some (fileKey opt, fileValue opt) :=
  if_pos h

theorem splitSetting_of_notMem (h : ':' ∉ opt) : splitSetting opt = none := if_neg h

theorem optKey_of_notMem (h : ':' ∈ opt) (hvalue : ':' ∉ fileValue opt) :
    optKey opt = fileKey opt ∧ optValue opt = fileValue opt := by
  have hopt : fileKey opt ++ ':' :: fileValue opt = opt := Splitting.before_append_after h
  constructor
  · calc optKey opt = Splitting.beforeLast ':' (fileKey opt ++ ':' :: fileValue opt) := by
          rw [hopt]
          rfl
      _ = fileKey opt := Splitting.beforeLast_append hvalue
  · calc optValue opt = Splitting.afterLast ':' (fileKey opt ++ ':' :: fileValue opt) := by
          rw [hopt]
          rfl
      _ = fileValue opt := Splitting.afterLast_append hvalue

theorem optKey_ne_fileKey (h : ':' ∈ opt) (hvalue : ':' ∈ fileValue opt) : optKey opt ≠ fileKey opt := by
  have hopt : fileKey opt ++ ':' :: fileValue opt = opt := Splitting.before_append_after h
  have hsplit := Splitting.beforeLast_append_afterLast hvalue
  have hkey : optKey opt = fileKey opt ++ ':' :: Splitting.beforeLast ':' (fileValue opt) := by
    calc optKey opt
        = Splitting.beforeLast ':' ((fileKey opt ++ ':' :: Splitting.beforeLast ':' (fileValue opt)) ++
            ':' :: Splitting.afterLast ':' (fileValue opt)) := by
          rw [List.append_assoc, List.cons_append, hsplit, hopt]
          rfl
      _ = _ := Splitting.beforeLast_append Splitting.not_mem_afterLast
  intro heq
  have hmem : ':' ∈ fileKey opt := by
    rw [← heq, hkey]
    simp
  exact Splitting.not_mem_before hmem

/-! ## Updates that do nothing -/

/-- The entry has the value that the text stands for. -/
def Holds (entry : CfgEntry) (value : Str) : Prop :=
  match entry.type with
  | .unknown => entry.unknown_value = some value
  | .string => entry.str_value = some value
  | _ => entry.num_value = atoi value

theorem updateEntry_eq_iff : updateEntry entry value = entry ↔ Holds entry value := by
  rcases entry with ⟨key, type, unknown_value, str_value, str_default, num_value⟩
  cases type <;> simp [updateEntry, Holds, eq_comm]

theorem setEntry_of_fixed {f : CfgEntry → CfgEntry} (h : lookupEntry this key = some entry)
    (hf : f entry = entry) : this.setEntry key f = this := by
  have hmodify : ∀ entries : List CfgEntry,
      entries.find? (fun entry => decide (entry.key = key)) = some entry →
      modifyFirst key f entries = entries := by
    intro entries hfind
    induction entries with
    | nil => exact absurd hfind (by simp)
    | cons e entries ih =>
      unfold modifyFirst
      by_cases he : e.key = key
      · obtain rfl : e = entry := by simpa [he] using hfind
        rw [if_pos he, hf]
      · rw [if_neg he, ih (by simpa [he] using hfind)]
  unfold ConfigValues.setEntry
  rw [hmodify this.entries h]

theorem updateText_eq_iff (h : lookupEntry this key = some entry) (h' : lookupEntry this k = some e)
    (hne : k ≠ key) :
    updateText this e v = updateText this entry value ↔ Holds e v ∧ Holds entry value := by
  have hnothing : ∀ {key : Str} {entry : CfgEntry} {value : Str}, lookupEntry this key = some entry →
      Holds entry value → updateText this entry value = this := by
    intro key entry value h hholds
    obtain ⟨f, -, hf, heq⟩ := updateText_eq h value
    rw [heq]
    exact setEntry_of_fixed h (hf.trans (updateEntry_eq_iff.2 hholds))
  constructor
  · intro heq
    -- each of them leaves the entry of the other
    have hk := congrArg (fun this => lookupEntry this k) heq
    have hkey := congrArg (fun this => lookupEntry this key) heq
    simp only [lookup_updateText h', lookup_updateText h, if_true, if_neg hne] at hk
    simp only [lookup_updateText h', lookup_updateText h, if_true, if_neg hne.symm] at hkey
    rw [h'] at hk
    rw [h] at hkey
    exact ⟨updateEntry_eq_iff.1 (Option.some.inj hk), updateEntry_eq_iff.1 (Option.some.inj hkey).symm⟩
  · rintro ⟨he, hentry⟩
    rw [hnothing h' he, hnothing h hentry]

/-! ## What the call does -/

/-- The entry is not to be changed from an MRL. -/
def CfgEntry.Protected (entry : CfgEntry) : Prop := entry.exp_level ≥ xineConfigSecurity

instance (entry : CfgEntry) : Decidable entry.Protected :=
  inferInstanceAs (Decidable (entry.exp_level ≥ xineConfigSecurity))

theorem xineConfigChangeOpt_of_lookup (h : ':' ∈ opt)
    (hlookup : lookupEntry this (optKey opt) = some entry) : xineConfigChangeOpt this opt =
      some (if entry.Protected then (this, -1) else (updateText this entry (optValue opt), 1)) := by
  unfold xineConfigChangeOpt
  rw [if_pos h, hlookup]
  rfl

theorem loadLine_of_setting {buffer : Str} (h : lineSetting buffer = some (key, value)) :
    loadLine this buffer = loadSetting this key value := by
  unfold lineSetting at h
  obtain ⟨hline, hsplit⟩ := Option.ite_none_left_eq_some.1 h
  rw [not_or] at hline
  unfold loadLine
  simp only
  rw [if_neg hline.1, if_neg hline.2, hsplit]

/-- The line is a comment or begins with a dot. -/
def OutsideSettings (opt : Str) : Prop := opt.head? = some '#' ∨ opt.head? = some '.'

theorem lineSetting_iff (h : ':' ∈ opt) : lineSetting (opt ++ ['\n']) = some (key, value) ↔
    ¬OutsideSettings opt ∧ key = fileKey opt ∧ value = fileValue opt := by
  unfold lineSetting OutsideSettings
  simp only [List.dropLast_concat]
  rw [splitSetting_of_mem h, Option.ite_none_left_eq_some, Option.some.injEq, Prod.mk.injEq]
  exact and_congr_right fun _ => and_congr eq_comm eq_comm

/-- The call handles the text as the line of a configuration file. -/
structure HandlesOption (this : ConfigValues) (opt : Str) : Prop where
  /-- No null pointer is followed. -/
  follows : xineConfigChangeOpt this opt ≠ none
  /-- Without a key that has an entry, it fails and changes nothing. -/
  unknown : (∀ key value, splitSetting opt = some (key, value) → lookupEntry this key = none) →
    ∃ r ≤ 0, xineConfigChangeOpt this opt = some (this, r)
  /-- For an entry that is not protected it does what `xine_config_load` does. -/
  known : ∀ key value entry, lineSetting (opt ++ ['\n']) = some (key, value) →
    lookupEntry this key = some entry → ¬entry.Protected →
      xineConfigChangeOpt this opt = some (loadLine this (opt ++ ['\n']), 1)

/-- What `HandlesOption` needs when the value holds a colon, of the entry that the call finds. -/
def FitsOther (this : ConfigValues) (opt : Str) (other : CfgEntry) : Prop :=
  match lookupEntry this (fileKey opt) with
  | none => other.Protected
  | some entry => OutsideSettings opt ∨ entry.Protected ∨
      ¬other.Protected ∧ Holds other (optValue opt) ∧ Holds entry (fileValue opt)

/-- There is no colon; or the key has an entry, and there is no other colon; or the text before the last
colon is the key of another entry, and it does not matter. -/
def FitsOption (this : ConfigValues) (opt : Str) : Prop :=
  ':' ∉ opt ∨
    ':' ∉ fileValue opt ∧ (∃ entry, lookupEntry this (fileKey opt) = some entry) ∨
    ':' ∈ fileValue opt ∧ ∃ other, lookupEntry this (optKey opt) = some other ∧ FitsOther this opt other

theorem handlesOption_of_notMem (h : ':' ∉ opt) : HandlesOption this opt := by
  have hcall : xineConfigChangeOpt this opt = some (this, 0) := if_neg h
  refine ⟨?_, fun _ => ⟨0, le_refl 0, hcall⟩, fun key value entry hline => ?_⟩
  · rw [hcall]
    exact Option.some_ne_none _
  · unfold lineSetting at hline
    simp only [List.dropLast_concat] at hline
    rw [splitSetting_of_notMem h] at hline
    simp at hline

theorem not_handlesOption (h : ':' ∈ opt) (hlookup : lookupEntry this (optKey opt) = none) :
    ¬HandlesOption this opt := by
  intro hhandles
  apply hhandles.follows
  unfold xineConfigChangeOpt
  rw [if_pos h, hlookup, Option.map_none]

theorem handlesOption_of_entry (h : ':' ∈ opt) (hvalue : ':' ∉ fileValue opt)
    (hlookup : lookupEntry this (fileKey opt) = some entry) : HandlesOption this opt := by
  obtain ⟨hkey, hval⟩ := optKey_of_notMem h hvalue
  have hcall := xineConfigChangeOpt_of_lookup h (hkey ▸ hlookup)
  refine ⟨?_, fun hnone => ?_, fun key value entry' hline hlookup' hopen => ?_⟩
  · rw [hcall]
    exact Option.some_ne_none _
  · have hnone := hnone _ _ (splitSetting_of_mem h)
    rw [hlookup] at hnone
    exact absurd hnone (Option.some_ne_none _)
  · obtain ⟨-, rfl, rfl⟩ := (lineSetting_iff h).1 hline
    obtain rfl : entry = entry' := Option.some.inj (hlookup.symm.trans hlookup')
    rw [hcall, if_neg hopen, loadLine_of_setting hline, hval]
    unfold loadSetting
    rw [hlookup]

theorem handlesOption_iff_of_mem {other : CfgEntry} (h : ':' ∈ opt) (hvalue : ':' ∈ fileValue opt)
    (hother : lookupEntry this (optKey opt) = some other) :
    HandlesOption this opt ↔ FitsOther this opt other := by
  have hcall := xineConfigChangeOpt_of_lookup h hother
  have hne := optKey_ne_fileKey h hvalue
  unfold FitsOther
  cases hlookup : lookupEntry this (fileKey opt) with
  | none =>
    constructor
    · intro hhandles
      by_contra hopen
      obtain ⟨r, hr, heq⟩ := hhandles.unknown fun key value hsplit => by
        rw [splitSetting_of_mem h] at hsplit
        obtain ⟨rfl, rfl⟩ := Prod.mk.inj (Option.some.inj hsplit)
        exact hlookup
      rw [hcall, if_neg hopen] at heq
      have hone := (Prod.mk.inj (Option.some.inj heq)).2
      omega
    · intro hprot
      rw [if_pos hprot] at hcall
      refine ⟨?_, fun _ => ⟨-1, by decide, hcall⟩, fun key value entry hline hentry => ?_⟩
      · rw [hcall]
        exact Option.some_ne_none _
      · obtain ⟨-, rfl, -⟩ := (lineSetting_iff h).1 hline
        rw [hlookup] at hentry
        exact absurd hentry.symm (Option.some_ne_none _)
  | some entry =>
    have hload : ∀ {key value : Str}, lineSetting (opt ++ ['\n']) = some (key, value) →
        loadLine this (opt ++ ['\n']) = updateText this entry (fileValue opt) := by
      intro key value hline
      obtain ⟨-, rfl, rfl⟩ := (lineSetting_iff h).1 hline
      rw [loadLine_of_setting hline]
      unfold loadSetting
      rw [hlookup]
    constructor
    · intro hhandles
      by_contra hno
      rw [not_or, not_or] at hno
      obtain ⟨hline, hopen, hno⟩ := hno
      have hline := (lineSetting_iff h).2 ⟨hline, rfl, rfl⟩
      have heq := hhandles.known _ _ entry hline hlookup hopen
      rw [hcall, hload hline] at heq
      by_cases hprot : other.Protected
      · rw [if_pos hprot] at heq
        exact absurd (Prod.mk.inj (Option.some.inj heq)).2 (by decide)
      · rw [if_neg hprot] at heq
        apply hno
        exact ⟨hprot, (updateText_eq_iff hlookup hother hne).1 (Prod.mk.inj (Option.some.inj heq)).1⟩
    · intro hfits
      refine ⟨?_, fun hnone => ?_, fun key value entry' hline hlookup' hopen => ?_⟩
      · rw [hcall]
        exact Option.some_ne_none _
      · have hnone := hnone _ _ (splitSetting_of_mem h)
        rw [hlookup] at hnone
        exact absurd hnone (Option.some_ne_none _)
      · obtain ⟨hsetting, rfl, rfl⟩ := (lineSetting_iff h).1 hline
        obtain rfl : entry = entry' := Option.some.inj (hlookup.symm.trans hlookup')
        rcases hfits with houtside | hprot | ⟨hprot, hholds⟩
        · exact absurd houtside hsetting
        · exact absurd hprot hopen
        · rw [hcall, if_neg hprot, hload hline, (updateText_eq_iff hlookup hother hne).2 hholds]

end Xine.Config
