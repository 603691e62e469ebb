import Mathlib.Algebra.Group.Int.Defs
import Mathlib.Algebra.Group.Nat.Defs
import Xine.Library.Text

/-!
# The configuration

The entries of `configfile.c`, a list in the order of its keys: registration, updates,
and `xine_config_change_opt`, which a part of an MRL may call. A string is the list of its characters
up to the null. Callbacks, help texts and the lock are left out.

A null pointer that is followed is `none`.
-/

namespace Xine.Config

/-- A C string. -/
abbrev Str := List Char

/-- `CONFIG_TYPE_UNKNOWN` and the others. -/
inductive CfgType where
  | unknown
  | range
  | string
  | enum
  | num
  | bool
  deriving DecidableEq

structure CfgEntry where
  key : Str
  type : CfgType
  /-- What was read before the entry was registered. -/
  unknown_value : Option Str
  str_value : Option Str
  str_default : Option Str
  num_value : ℤ
  num_default : ℤ
  range_min : ℤ
  range_max : ℤ
  enum_values : List Str
  description : Option Str
  exp_level : ℤ
  deriving DecidableEq

structure ConfigValues where
  entries : List CfgEntry
  current_version : ℤ

/-- The configuration after `xine_config_init`. -/
def xineConfigInit : ConfigValues := ⟨[], 0⟩

def xineConfigSecurity : ℤ := 30

def configFileVersion : ℤ := 1

/-! ## Numbers -/

/-- The conversion of a `long` to an `int`. -/
def toInt (n : ℤ) : ℤ := Int.bmod n (2 ^ 32)

/-- What `strtol` returns for a number that it has read: it stays in the range of a `long`. -/
def clampLong (n : ℤ) : ℤ := max (-2 ^ 63) (min (2 ^ 63 - 1) n)

/-- `sscanf` with the format `%d`. -/
def sscanfInt (s : Str) : Option ℤ := (Decimal.read s).map fun n => toInt (clampLong n)

def atoi (s : Str) : ℤ := (sscanfInt s).getD 0

/-! ## The list of entries -/

def enumConfigSection (sect : Str) : ℕ :=
  let known_section := ["gui".toList, "audio".toList, "video".toList, "dxr3".toList, "input".toList,
    "codec".toList, "post".toList, "decoder".toList, "misc".toList]
  match known_section.findIdx? fun known => decide (sect = known) with
  | some i => i + 1
  | none => known_section.length + 1

/-- The text before the first dot, if there is one, and the text after it. -/
def splitDot (s : Str) : Option Str × Str :=
  if '.' ∈ s then (some (s.takeWhile (· ≠ '.')), (s.dropWhile (· ≠ '.')).tail) else (none, s)

/-- The parts of a key: its section, its plugin and its name. -/
def keyParts (key : Str) : Option Str × Option Str × Str :=
  match splitDot key with
  | (none, name) => (none, none, name)
  | (some sect, rest) => (some sect, splitDot rest)

/-- Whether `xine_config_add` stops at an entry with the key `cur`, to insert the key `new` there. -/
def stopsAt (new cur : Str) : Bool :=
  let (new_section, new_plugin, new_name) := keyParts new
  let (cur_section, cur_plugin, cur_name) := keyParts cur
  -- by the plugin and then the name
  let byName := if new_name < cur_name then true else if cur_name < new_name then false else true
  let byPlugin :=
    match new_plugin, cur_plugin with
    | none, some _ => true
    | some _, none => false
    | some new_plugin, some cur_plugin =>
      if new_plugin < cur_plugin then true else if cur_plugin < new_plugin then false else byName
    | none, none => byName
  match new_section, cur_section with
  | none, some _ => true
  | some _, none => false
  | some new_section, some cur_section =>
    let new_sec_num := enumConfigSection new_section
    let cur_sec_num := enumConfigSection cur_section
    if new_sec_num < cur_sec_num then true
    else if new_sec_num > cur_sec_num then false
    else if new_section < cur_section then true
    else if cur_section < new_section then false
    else byPlugin
  | none, none => byPlugin

/-- A new entry. -/
def newEntry (key : Str) (unknown_value : Option Str) : CfgEntry :=
  ⟨key, .unknown, unknown_value, none, none, 0, 0, 0, 0, [], none, 0⟩

/-- `xine_config_add`, and the assignment to `unknown_value` after it. -/
def xineConfigAdd (this : ConfigValues) (key : Str) (unknown_value : Option Str) : ConfigValues :=
  { this with
    entries := this.entries.takeWhile (fun cur => !stopsAt key cur.key) ++
      newEntry key unknown_value :: this.entries.dropWhile fun cur => !stopsAt key cur.key }

/-- `_xine_config_lookup_entry`. -/
def lookupEntry (this : ConfigValues) (key : Str) : Option CfgEntry :=
  this.entries.find? fun entry => decide (entry.key = key)

/-- Assignments to the first entry with a key. -/
def modifyFirst (key : Str) (f : CfgEntry → CfgEntry) : List CfgEntry → List CfgEntry
  | [] => []
  | entry :: entries =>
    if entry.key = key then f entry :: entries else entry :: modifyFirst key f entries

/-- Assignments to the entry that `_xine_config_lookup_entry` finds. -/
def ConfigValues.setEntry (this : ConfigValues) (key : Str) (f : CfgEntry → CfgEntry) :
    ConfigValues :=
  { this with entries := modifyFirst key f this.entries }

/-! ## Registration -/

/-- Registration makes sure that the entry exists, and then assigns to it. -/
def registerEntry (this : ConfigValues) (key : Str) (unknown_value : Option Str)
    (f : CfgEntry → CfgEntry) : ConfigValues :=
  let this := if lookupEntry this key = none then xineConfigAdd this key unknown_value else this
  this.setEntry key f

/-- An entry that is not of a type of numbers yet is converted: it takes over what is stored in
`unknown_value`, or the default value. -/
def convertNum (type : CfgType) (def_value : ℤ) (parse : Str → ℤ → ℤ) (entry : CfgEntry) : CfgEntry :=
  if entry.type ≠ type then
    { entry with
      type
      num_value :=
        match entry.unknown_value with
        | some unknown_value => parse unknown_value entry.num_value
        | none => def_value }
  else entry

/-- `sscanf` into the field, which stays when there is no number. -/
def scanNum (unknown_value : Str) (num_value : ℤ) : ℤ := (sscanfInt unknown_value).getD num_value

/-- `_xine_config_register_string`. -/
def registerString (this : ConfigValues) (key def_value : Str) (description : Option Str)
    (exp_level : ℤ) : ConfigValues :=
  registerEntry this key (some def_value) fun entry =>
    let entry :=
      if entry.type ≠ .string then
        let unknown_value := entry.unknown_value.getD def_value
        { entry with
          type := .string, unknown_value := some unknown_value, str_value := some unknown_value }
      else entry
    { entry with str_default := some def_value, description, exp_level }

/-- `_xine_config_register_num`. -/
def registerNum (this : ConfigValues) (key : Str) (def_value : ℤ) (description : Option Str)
    (exp_level : ℤ) : ConfigValues :=
  registerEntry this key none fun entry =>
    { convertNum .num def_value scanNum entry with num_default := def_value, description, exp_level }

/-- `_xine_config_register_bool`. -/
def registerBool (this : ConfigValues) (key : Str) (def_value : ℤ) (description : Option Str)
    (exp_level : ℤ) : ConfigValues :=
  registerEntry this key none fun entry =>
    { convertNum .bool def_value scanNum entry with num_default := def_value, description, exp_level }

/-- `_xine_config_register_range`. -/
def registerRange (this : ConfigValues) (key : Str) (def_value min max : ℤ)
    (description : Option Str) (exp_level : ℤ) : ConfigValues :=
  registerEntry this key none fun entry =>
    { convertNum .range def_value scanNum entry with
      num_default := def_value, range_min := min, range_max := max, description, exp_level }

/-- `xine_config_parse_enum`. -/
def parseEnum (str : Str) (values : List Str) : ℤ :=
  ((values.findIdx? fun value => decide (value = str)).getD 0 : ℕ)

/-- `_xine_config_register_enum`. -/
def registerEnum (this : ConfigValues) (key : Str) (def_value : ℤ) (values : List Str)
    (description : Option Str) (exp_level : ℤ) : ConfigValues :=
  registerEntry this key none fun entry =>
    { convertNum .enum def_value (fun unknown_value _ => parseEnum unknown_value values) entry with
      num_default := def_value, enum_values := values, description, exp_level }

/-! ## Updates -/

/-- `xine_config_update_num`. -/
def updateNum (this : ConfigValues) (key : Str) (value : ℤ) : ConfigValues :=
  this.setEntry key fun entry =>
    if entry.type = .unknown ∨ entry.type = .string then entry else { entry with num_value := value }

/-- `xine_config_update_string`. -/
def updateString (this : ConfigValues) (key value : Str) : ConfigValues :=
  this.setEntry key fun entry =>
    if entry.type ≠ .string then entry else { entry with str_value := some value }

/-- The assignment for an entry that is not registered. -/
def updateUnknown (this : ConfigValues) (key value : Str) : ConfigValues :=
  this.setEntry key fun entry => { entry with unknown_value := some value }

/-- The update of an existing entry from a text, by its type. -/
def updateText (this : ConfigValues) (entry : CfgEntry) (value : Str) : ConfigValues :=
  match entry.type with
  | .range | .enum | .num | .bool => updateNum this entry.key (atoi value)
  | .string => updateString this entry.key value
  | .unknown => updateUnknown this entry.key value

/-- The key of an option: the text before its last colon. -/
def optKey (opt : Str) : Str := (opt.reverse.dropWhile (· ≠ ':')).tail.reverse

/-- The value of an option. -/
def optValue (opt : Str) : Str := (opt.reverse.takeWhile (· ≠ ':')).reverse

/-- `xine_config_change_opt`, with what it returns. -/
def xineConfigChangeOpt (this : ConfigValues) (opt : Str) : Option (ConfigValues × ℤ) :=
  if ':' ∈ opt then
    -- the null pointer for a missing entry is followed
    (lookupEntry this (optKey opt)).map fun entry =>
      if entry.exp_level ≥ xineConfigSecurity then (this, -1)
      else (updateText this entry (optValue opt), 1)
  else some (this, 0)

end Xine.Config

/-!
## The configuration file

`xine_config_load` and what `xine_config_save` writes, in `configfile.c`. A file is
its text; opening it, and the backup of an old file, are left out. A text has no null characters.
-/

namespace Xine.Config

/-! ## Loading -/

/-- What `fgets` reads at most into the buffer of `xine_config_load`. -/
def lineSize : ℕ := 1022

/-- A line that is neither a comment nor begins with a dot, split at its first colon. -/
def splitSetting (line : Str) : Option (Str × Str) :=
  if ':' ∈ line then some (line.takeWhile (· ≠ ':'), (line.dropWhile (· ≠ ':')).tail) else none

/-- A setting that is loaded. -/
def loadSetting (this : ConfigValues) (key value : Str) : ConfigValues :=
  match lookupEntry this key with
  | none => xineConfigAdd this key (some value)
  | some entry => updateText this entry value

/-- What `xine_config_load` does with the contents of its buffer. -/
def loadLine (this : ConfigValues) (buffer : Str) : ConfigValues :=
  -- eliminate lf
  let line := buffer.dropLast
  if line.head? = some '#' then this
  else if line.head? = some '.' then
    if ".version:".toList.isPrefixOf line then
      { this with current_version := (sscanfInt (line.drop 9)).getD this.current_version }
    else this
  else
    match splitSetting line with
    | some (key, value) => loadSetting this key value
    | none => this

def xineConfigLoad (this : ConfigValues) (text : Str) : ConfigValues :=
  (Lines.fgetsAll lineSize text).foldl loadLine this

/-! ## Saving -/

/-- The lines before the entries. -/
def saveHeader : List Str :=
  ["#".toList, "# xine config file".toList, "#".toList,
    ".version:".toList ++ Decimal.write configFileVersion, []]

/-- The line of the description. -/
def saveDescription (entry : CfgEntry) : List Str :=
  match entry.description with
  | some description => ["# ".toList ++ description]
  | none => []

/-- The line of a setting. -/
def settingLine (key value : Str) : Str := key ++ ':' :: value

/-- The lines of an entry. -/
def saveEntry (entry : CfgEntry) : Option (List Str) :=
  (match entry.type with
  | .unknown => entry.unknown_value.map fun unknown_value => [settingLine entry.key unknown_value]
  | .range => some
      ["# [".toList ++ Decimal.write entry.range_min ++ "..".toList ++ Decimal.write entry.range_max ++
        "], default: ".toList ++ Decimal.write entry.num_default,
        settingLine entry.key (Decimal.write entry.num_value), []]
  | .string =>
    entry.str_default.bind fun str_default => entry.str_value.map fun str_value =>
      ["# string, default: ".toList ++ str_default, settingLine entry.key str_value, []]
  | .enum =>
    let comment := "# \x7b".toList ++
      entry.enum_values.flatMap (fun value => ' ' :: value ++ [' ']) ++ "\x7d, default: ".toList ++
        Decimal.write entry.num_default
    -- `enum_values` ends with a null pointer, which is not followed
    if 0 ≤ entry.num_value ∧ entry.num_value.toNat ≤ entry.enum_values.length then
      match entry.enum_values[entry.num_value.toNat]? with
      | some value => some [comment, settingLine entry.key value, []]
      | none => some [comment, []]
    else none
  | .num => some
      ["# numeric, default: ".toList ++ Decimal.write entry.num_default,
        settingLine entry.key (Decimal.write entry.num_value), []]
  | .bool => some
      ["# bool, default: ".toList ++ Decimal.write entry.num_default,
        settingLine entry.key (Decimal.write entry.num_value), []]).map
    (saveDescription entry ++ ·)

/-- The lines that `xine_config_save` writes. -/
def saveLines (this : ConfigValues) : Option (List Str) :=
  (this.entries.mapM saveEntry).map fun lines => saveHeader ++ lines.flatten

/-- What `xine_config_save` writes. -/
def xineConfigSave (this : ConfigValues) : Option Str :=
  (saveLines this).map fun lines => lines.flatMap fun line => line ++ ['\n']

end Xine.Config

/-!
## Looking up entries

What the operations on the configuration do to the entry that `_xine_config_lookup_entry` finds for a key: an
addition or an assignment for one key does not concern the others.
-/

namespace Xine.Config

variable {this : ConfigValues} {key k : Str} {f : CfgEntry → CfgEntry}

theorem key_of_lookup {entry : CfgEntry} (h : lookupEntry this key = some entry) :
    entry.key = key := by
  unfold lookupEntry at h
  simpa using List.find?_some h

theorem find?_modifyFirst (hf : ∀ entry, (f entry).key = entry.key) (entries : List CfgEntry) :
    (modifyFirst key f entries).find? (fun entry => decide (entry.key = k)) =
      if k = key then (entries.find? fun entry => decide (entry.key = key)).map f
      else entries.find? fun entry => decide (entry.key = k) := by
  induction entries with
  | nil => simp [modifyFirst]
  | cons entry entries ih =>
    unfold modifyFirst
    by_cases hentry : entry.key = key
    · -- the assignment is to this entry
      rw [if_pos hentry]
      by_cases hk : k = key
      · simp [hk, hf, hentry]
      · have hne : entry.key ≠ k := fun heq => hk (heq.symm.trans hentry)
        simp [hk, hf, hne]
    · rw [if_neg hentry]
      by_cases hk : k = key
      · subst hk
        simpa [hentry] using ih
      · by_cases hentry' : entry.key = k
        · simp [hk, hentry']
        · rw [if_neg hk] at ih
          simpa [hk, hentry'] using ih

theorem lookup_setEntry (hf : ∀ entry, (f entry).key = entry.key) :
    lookupEntry (this.setEntry key f) k =
      if k = key then (lookupEntry this key).map f else lookupEntry this k :=
  find?_modifyFirst hf this.entries

theorem setEntry_of_none (h : lookupEntry this key = none) : this.setEntry key f = this := by
  have hmodify : ∀ entries : List CfgEntry, (∀ entry ∈ entries, entry.key ≠ key) →
      modifyFirst key f entries = entries := by
    intro entries hne
    induction entries with
    | nil => rfl
    | cons entry entries ih =>
      unfold modifyFirst
      rw [if_neg (hne entry List.mem_cons_self), ih fun e he => hne e (List.mem_cons_of_mem _ he)]
  unfold lookupEntry at h
  unfold ConfigValues.setEntry
  rw [hmodify this.entries fun entry hentry => by simpa using List.find?_eq_none.1 h entry hentry]

theorem lookup_add (unknown_value : Option Str) (h : lookupEntry this key = none) :
    lookupEntry (xineConfigAdd this key unknown_value) k =
      if k = key then some (newEntry key unknown_value) else lookupEntry this k := by
  have hsplit := List.takeWhile_append_dropWhile (p := fun cur : CfgEntry => !stopsAt key cur.key)
    (l := this.entries)
  unfold lookupEntry at h ⊢
  unfold xineConfigAdd
  rw [List.find?_append, List.find?_cons]
  by_cases hk : k = key
  · subst hk
    -- there is no other entry with this key before the new one
    have hbefore : (this.entries.takeWhile fun cur => !stopsAt k cur.key).find?
        (fun entry => decide (entry.key = k)) = none := by
      rw [List.find?_eq_none] at h ⊢
      exact fun entry hentry => h entry (List.takeWhile_subset _ hentry)
    simp [hbefore, newEntry]
  · rw [if_neg hk]
    have hne : decide ((newEntry key unknown_value).key = k) = false :=
      decide_eq_false fun heq => hk heq.symm
    simp only [hne]
    rw [← List.find?_append, hsplit]

/-! ## Registration -/

theorem convertNum_key (type : CfgType) (def_value : ℤ) (parse : Str → ℤ → ℤ) (entry : CfgEntry) :
    (convertNum type def_value parse entry).key = entry.key := by
  unfold convertNum
  split_ifs <;> rfl

theorem lookup_registerEntry (unknown_value : Option Str) (hf : ∀ entry, (f entry).key = entry.key) :
    lookupEntry (registerEntry this key unknown_value f) k =
      if k = key then some (f ((lookupEntry this key).getD (newEntry key unknown_value)))
      else lookupEntry this k := by
  unfold registerEntry
  rw [lookup_setEntry hf]
  cases h : lookupEntry this key with
  | none =>
    rw [if_pos rfl, lookup_add unknown_value h, lookup_add unknown_value h]
    by_cases hk : k = key
    · simp [hk]
    · simp [hk]
  | some entry =>
    rw [if_neg (Option.some_ne_none entry), h]
    rfl

/-! ## Updates from a text -/

/-- An entry after an update from a text. -/
def updateEntry (entry : CfgEntry) (value : Str) : CfgEntry :=
  match entry.type with
  | .unknown => { entry with unknown_value := some value }
  | .string => { entry with str_value := some value }
  | _ => { entry with num_value := atoi value }

theorem updateText_eq {entry : CfgEntry} (h : lookupEntry this key = some entry) (value : Str) :
    ∃ f : CfgEntry → CfgEntry, (∀ e, (f e).key = e.key) ∧ f entry = updateEntry entry value ∧
      updateText this entry value = this.setEntry key f := by
  have hnum : ∀ n : ℤ, ∃ f : CfgEntry → CfgEntry, (∀ e, (f e).key = e.key) ∧
      (entry.type ≠ .unknown → entry.type ≠ .string → f entry = { entry with num_value := n }) ∧
      updateNum this key n = this.setEntry key f := by
    intro n
    refine ⟨_, fun e => ?_, fun hunknown hstring => ?_, rfl⟩
    · split_ifs <;> rfl
    · rw [if_neg (by rw [not_or]; exact ⟨hunknown, hstring⟩)]
  obtain rfl := key_of_lookup h
  unfold updateText
  cases htype : entry.type with
  | unknown =>
    exact ⟨fun e => { e with unknown_value := some value }, fun _ => rfl,
      by simp [updateEntry, htype], rfl⟩
  | string =>
    refine ⟨_, fun e => ?_, ?_, rfl⟩
    · split_ifs <;> rfl
    · simp [updateEntry, htype]
  | _ =>
    obtain ⟨f, hkey, hvalue, heq⟩ := hnum (atoi value)
    refine ⟨f, hkey, ?_, heq⟩
    rw [hvalue (by simp [htype]) (by simp [htype])]
    simp [updateEntry, htype]

theorem lookup_updateText {entry : CfgEntry} (h : lookupEntry this key = some entry) (value : Str) :
    lookupEntry (updateText this entry value) k =
      if k = key then some (updateEntry entry value) else lookupEntry this k := by
  obtain ⟨f, hkey, hvalue, heq⟩ := updateText_eq h value
  rw [heq, lookup_setEntry hkey, h, Option.map_some, hvalue]

/-- The entry of a key after a setting for it was loaded. -/
def loadedEntry (key value : Str) : Option CfgEntry → CfgEntry
  | some entry => updateEntry entry value
  | none => newEntry key (some value)

theorem lookup_loadSetting (key value : Str) :
    lookupEntry (loadSetting this key value) k =
      if k = key then some (loadedEntry key value (lookupEntry this key)) else lookupEntry this k := by
  unfold loadSetting
  cases h : lookupEntry this key with
  | none => exact lookup_add (some value) h
  | some entry => exact lookup_updateText h value

end Xine.Config
