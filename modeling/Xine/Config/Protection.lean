import Xine.Config.Lookup
import Xine.Library.Runs

/-!
# Protected entries

Loads, registrations and options of MRLs in any order, and what becomes of the entry of one key when the options
are left out. An option changes no entry that is protected when it comes, but the level of an entry is that of its
last registration, and an entry that was only loaded has none.
-/

namespace Xine.Config

/-- A registration. -/
inductive Registration where
  | string (key def_value : Str) (description : Option Str) (exp_level : ℤ)
  | num (key : Str) (def_value : ℤ) (description : Option Str) (exp_level : ℤ)
  | bool (key : Str) (def_value : ℤ) (description : Option Str) (exp_level : ℤ)
  | range (key : Str) (def_value min max : ℤ) (description : Option Str) (exp_level : ℤ)
  | enum (key : Str) (def_value : ℤ) (values : List Str) (description : Option Str) (exp_level : ℤ)

/-- The configuration after a registration. -/
def register (this : ConfigValues) : Registration → ConfigValues
  | .string key def_value description exp_level =>
    registerString this key def_value description exp_level
  | .num key def_value description exp_level => registerNum this key def_value description exp_level
  | .bool key def_value description exp_level => registerBool this key def_value description exp_level
  | .range key def_value min max description exp_level =>
    registerRange this key def_value min max description exp_level
  | .enum key def_value values description exp_level =>
    registerEnum this key def_value values description exp_level

/-- The key of a registration. -/
def Registration.key : Registration → Str
  | .string key _ _ _ | .num key _ _ _ | .bool key _ _ _ | .range key _ _ _ _ _ | .enum key _ _ _ _ => key

/-- What a new entry of a registration has in `unknown_value`. -/
def Registration.unknown_value : Registration → Option Str
  | .string _ def_value _ _ => some def_value
  | _ => none

/-- The assignments of a registration to its entry. -/
def Registration.fill : Registration → CfgEntry → CfgEntry
  | .string _ def_value description exp_level => fun entry =>
    let entry :=
      if entry.type ≠ .string then
        let unknown_value := entry.unknown_value.getD def_value
        { entry with
          type := .string, unknown_value := some unknown_value, str_value := some unknown_value }
      else entry
    { entry with str_default := some def_value, description, exp_level }
  | .num _ def_value description exp_level => fun entry =>
    { convertNum .num def_value scanNum entry with num_default := def_value, description, exp_level }
  | .bool _ def_value description exp_level => fun entry =>
    { convertNum .bool def_value scanNum entry with num_default := def_value, description, exp_level }
  | .range _ def_value min max description exp_level => fun entry =>
    { convertNum .range def_value scanNum entry with
      num_default := def_value, range_min := min, range_max := max, description, exp_level }
  | .enum _ def_value values description exp_level => fun entry =>
    { convertNum .enum def_value (fun unknown_value _ => parseEnum unknown_value values) entry with
      num_default := def_value, enum_values := values, description, exp_level }

theorem register_eq (this : ConfigValues) (registration : Registration) : register this registration =
    registerEntry this registration.key registration.unknown_value registration.fill := by
  cases registration <;> rfl

theorem fill_key (registration : Registration) (entry : CfgEntry) :
    (registration.fill entry).key = entry.key := by
  cases registration with
  | string =>
    unfold Registration.fill
    simp only
    split_ifs <;> rfl
  | _ => exact convertNum_key _ _ _ entry

/-- A call. -/
inductive Call where
  | load (text : Str)
  | register (registration : Registration)
  | changeOpt (opt : Str)

/-- The configuration after a call. -/
def call (this : ConfigValues) : Call → Option ConfigValues
  | .load text => some (xineConfigLoad this text)
  | .register registration => some (register this registration)
  | .changeOpt opt => (xineConfigChangeOpt this opt).map Prod.fst

/-- Whether a call is an option. -/
def Call.isOpt : Call → Bool
  | .changeOpt _ => true
  | _ => false

/-- The option names an entry that exists, and not the key while its entry is not protected. -/
def Spares (key : Str) (this : ConfigValues) : Call → Prop
  | .changeOpt opt => ':' ∈ opt → ∃ entry, lookupEntry this (optKey opt) = some entry ∧
      (optKey opt = key → entry.exp_level ≥ xineConfigSecurity)
  | _ => True

section Lookup

variable {this this' : ConfigValues} {key k : Str}

theorem lookup_register (registration : Registration) (k : Str) :
    ∃ F : Option CfgEntry → Option CfgEntry, ∀ this,
      lookupEntry (register this registration) k = F (lookupEntry this k) := by
  refine ⟨fun entry => if k = registration.key then
    some (registration.fill (entry.getD (newEntry registration.key registration.unknown_value)))
    else entry, fun this => ?_⟩
  rw [register_eq, lookup_registerEntry _ (fill_key registration)]
  by_cases hk : k = registration.key
  · simp only [hk, if_true]
  · simp only [hk, if_false]

theorem lookup_loadLine_congr (h : lookupEntry this k = lookupEntry this' k) (buffer : Str) :
    lookupEntry (loadLine this buffer) k = lookupEntry (loadLine this' buffer) k := by
  unfold loadLine
  simp only
  split_ifs
  · exact h
  · exact h
  · exact h
  · cases splitSetting buffer.dropLast with
    | none => exact h
    | some setting =>
      simp only [lookup_loadSetting]
      by_cases hk : k = setting.1
      · rw [if_pos hk, if_pos hk, ← hk, h]
      · rw [if_neg hk, if_neg hk, h]

theorem lookup_load_congr (h : lookupEntry this k = lookupEntry this' k) (text : Str) :
    lookupEntry (xineConfigLoad this text) k = lookupEntry (xineConfigLoad this' text) k := by
  unfold xineConfigLoad
  induction Lines.fgetsAll lineSize text generalizing this this' with
  | nil => exact h
  | cons buffer buffers ih => exact ih (lookup_loadLine_congr h buffer)

theorem changeOpt_spares {opt : Str} (h : Spares key this (.changeOpt opt)) :
    ∃ this', call this (.changeOpt opt) = some this' ∧ lookupEntry this' key = lookupEntry this key := by
  show ∃ this', (xineConfigChangeOpt this opt).map Prod.fst = some this' ∧ _
  unfold xineConfigChangeOpt
  split_ifs with hcolon
  · obtain ⟨entry, hentry, hprotected⟩ := h hcolon
    rw [hentry]
    simp only [Option.map_some]
    split_ifs with hlevel
    · exact ⟨this, rfl, rfl⟩
    · have hne : ¬key = optKey opt := fun heq => hlevel (hprotected heq.symm)
      refine ⟨_, rfl, ?_⟩
      rw [lookup_updateText hentry, if_neg hne]
  · exact ⟨this, rfl, rfl⟩

theorem call_spares {c : Call} (h : lookupEntry this key = lookupEntry this' key)
    (hspares : Spares key this c) :
    ∃ t, call this c = some t ∧
      if c.isOpt then lookupEntry t key = lookupEntry this' key
      else ∃ t', call this' c = some t' ∧ lookupEntry t key = lookupEntry t' key := by
  cases c with
  | load text => exact ⟨_, rfl, _, rfl, lookup_load_congr h text⟩
  | register registration =>
    obtain ⟨F, hF⟩ := lookup_register registration key
    refine ⟨_, rfl, _, rfl, ?_⟩
    rw [hF, hF, h]
  | changeOpt opt =>
    obtain ⟨t, hcall, hlookup⟩ := changeOpt_spares hspares
    exact ⟨t, hcall, hlookup.trans h⟩

end Lookup

/-- In every sequence of loads, registrations and options in which no option names a missing entry,
nor the key while its entry is not protected, the entry of the key is after every call the same as
without the options. -/
theorem options_run_spare_entry (key : Str) {this : ConfigValues} {calls : List Call}
    (h : Runs.Guarded call (Spares key) this calls) :
    ∃ t t', Runs.run call this calls = some t ∧
      Runs.run call this (calls.filter fun c => !c.isOpt) = some t' ∧
      lookupEntry t key = lookupEntry t' key := by
  -- the two runs are in different states, which agree at the key
  suffices hall : ∀ this', lookupEntry this key = lookupEntry this' key →
      ∃ t t', Runs.run call this calls = some t ∧
        Runs.run call this' (calls.filter fun c => !c.isOpt) = some t' ∧
        lookupEntry t key = lookupEntry t' key from hall this rfl
  induction calls generalizing this with
  | nil => exact fun this' hsame => ⟨this, this', rfl, rfl, hsame⟩
  | cons c calls ih =>
    intro this' hsame
    obtain ⟨hspares, hrest⟩ := h
    obtain ⟨t, hcall, hstep⟩ := call_spares hsame hspares
    cases hopt : c.isOpt with
    | true =>
      rw [hopt, if_pos rfl] at hstep
      obtain ⟨u, u', hrun, hrun', hlookup⟩ := ih (hrest t hcall) this' hstep
      refine ⟨u, u', Runs.run_cons_eq_some.2 ⟨t, hcall, hrun⟩, ?_, hlookup⟩
      rw [List.filter_cons_of_neg (by simp [hopt])]
      exact hrun'
    | false =>
      rw [hopt, if_neg Bool.false_ne_true] at hstep
      obtain ⟨t', hcall', hstep⟩ := hstep
      obtain ⟨u, u', hrun, hrun', hlookup⟩ := ih (hrest t hcall) t' hstep
      refine ⟨u, u', Runs.run_cons_eq_some.2 ⟨t, hcall, hrun⟩, ?_, hlookup⟩
      rw [List.filter_cons_of_pos (by simp [hopt])]
      exact Runs.run_cons_eq_some.2 ⟨t', hcall', hrun'⟩

/-- The key of the directory that streams are saved into. -/
def saveDirKey : Str := "misc.save_dir".toList

/-- The registration of this key. -/
def saveDirRegistration : Registration := .string saveDirKey [] (some "Path for saving streams".toList) 30

/-- The key is registered before the option comes. -/
theorem options_run_spare_entry_registered : ∃ t t' : ConfigValues,
    Runs.run call xineConfigInit [.load "misc.save_dir:/video\n".toList,
      .register saveDirRegistration, .changeOpt "misc.save_dir:/".toList] = some t ∧
    Runs.run call xineConfigInit [.load "misc.save_dir:/video\n".toList,
      .register saveDirRegistration] = some t' ∧
    lookupEntry t saveDirKey = lookupEntry t' saveDirKey := by
  refine options_run_spare_entry saveDirKey ⟨trivial, fun t ht => ⟨trivial, fun u hu => ?_⟩⟩
  cases ht
  cases hu
  refine ⟨fun _ => ?_, fun _ _ => trivial⟩
  exact ⟨_, rfl, fun _ => by decide⟩

/-- The key was loaded and the option comes before its registration, which takes over the option's
value. -/
theorem option_changes_protected_entry : ∃ t t' : ConfigValues,
    Runs.run call xineConfigInit [.load "misc.save_dir:/video\n".toList,
      .changeOpt "misc.save_dir:/".toList, .register saveDirRegistration] = some t ∧
    Runs.run call xineConfigInit [.load "misc.save_dir:/video\n".toList,
      .register saveDirRegistration] = some t' ∧
    (lookupEntry t saveDirKey).map CfgEntry.exp_level = some 30 ∧
    (lookupEntry t saveDirKey).map CfgEntry.str_value = some (some "/".toList) ∧
    (lookupEntry t' saveDirKey).map CfgEntry.str_value = some (some "/video".toList) := by
  exact ⟨_, _, rfl, rfl, by decide, by decide, by decide⟩

end Xine.Config
