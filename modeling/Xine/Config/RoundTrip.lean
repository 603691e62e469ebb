import Xine.Config.Lookup

/-!
# Saving and loading

The file that `xine_config_save` writes is read line by line, comments are skipped, and each entry has
one line with its setting, so that after loading each entry is what `updateEntry`
makes of it. This is the entry that was saved, but for two cases. A line that does not fit into the
buffer of `xine_config_load` is read in pieces, none of which is long enough for the value. And the
value of an enumeration is written by its name but read as a number.

The keys, the comments and the names of enumerations are the program's own texts, for which
`CfgEntry.WellFormed` asks that they can be read back; strings are the user's.
-/

namespace Xine.Config

/-- The text that an entry has from the user. -/
def userText (entry : CfgEntry) : Option Str :=
  match entry.type with
  | .unknown => entry.unknown_value
  | .string => entry.str_value
  | _ => none

/-- The value of an entry as it is written. -/
def settingValue (entry : CfgEntry) : Option Str :=
  match entry.type with
  | .unknown => entry.unknown_value
  | .string => entry.str_value
  | .enum => entry.enum_values[entry.num_value.toNat]?
  | _ => some (Decimal.write entry.num_value)

/-- An entry that can be saved, with texts of the program that can be read back. -/
structure CfgEntry.WellFormed (entry : CfgEntry) : Prop where
  /-- A key is neither a comment nor a version, and ends at its colon. -/
  key : ':' ∉ entry.key ∧ entry.key.head? ≠ some '#' ∧ entry.key.head? ≠ some '.' ∧
    entry.key.length + 1 < lineSize
  /-- There is a value: a string, or an index of the names. -/
  value : settingValue entry ≠ none ∧ (entry.type = .string → entry.str_default ≠ none) ∧
    (entry.type = .enum → 0 ≤ entry.num_value)
  /-- Numbers are of the type `int`. -/
  num : -2 ^ 31 ≤ entry.num_value ∧ entry.num_value < 2 ^ 31
  /-- No text has a newline. -/
  newline : ∀ line ∈ (saveEntry entry).getD [], '\n' ∉ line
  /-- All lines but that of the user's text fit. -/
  fits : ∀ line ∈ (saveEntry entry).getD [],
    (userText entry).map (settingLine entry.key) = some line ∨ line.length < lineSize

/-- Well formed entries with different keys. -/
structure ConfigValues.WellFormed (this : ConfigValues) : Prop where
  keys : (this.entries.map CfgEntry.key).Nodup
  entries : ∀ entry ∈ this.entries, entry.WellFormed

/-- The same entries are registered, with the same names of enumerations. -/
structure SameRegistered (this fresh : ConfigValues) : Prop where
  registered : ∀ entry ∈ this.entries, entry.type ≠ .unknown → ∃ entry', lookupEntry fresh entry.key =
    some entry' ∧ entry'.type = entry.type ∧ entry'.enum_values = entry.enum_values
  unknown : ∀ entry ∈ this.entries, entry.type = .unknown → ∀ entry', lookupEntry fresh entry.key =
    some entry' → entry'.type = .unknown

/-- An entry that has the value of another. -/
def SameValue (entry entry' : CfgEntry) : Prop :=
  entry'.type = entry.type ∧
    match entry.type with
    | .unknown => entry'.unknown_value = entry.unknown_value
    | .string => entry'.str_value = entry.str_value
    | _ => entry'.num_value = entry.num_value

/-- Each entry has its value again. -/
def Restored (this loaded : ConfigValues) : Prop :=
  ∀ entry ∈ this.entries, ∃ entry', lookupEntry loaded entry.key = some entry' ∧ SameValue entry entry'

/-- Saving and loading, where the same entries are registered, gives each entry its value again. -/
def RoundTrips (this : ConfigValues) : Prop :=
  ∃ text, xineConfigSave this = some text ∧
    ∀ fresh, SameRegistered this fresh → Restored this (xineConfigLoad fresh text)

/-- The user's text fits into a line, and the name of an enumeration's value begins with its number. -/
def Kept (entry : CfgEntry) : Prop :=
  (∀ value, userText entry = some value → (settingLine entry.key value).length < lineSize) ∧
    (entry.type = .enum → ∀ name, settingValue entry = some name → atoi name = entry.num_value)

section Lines

variable {this : ConfigValues} {entry : CfgEntry} {line value : Str}

theorem saveEntry_spec (h : entry.WellFormed) :
    ∃ before value after, saveEntry entry = some (before ++ settingLine entry.key value :: after) ∧
      settingValue entry = some value ∧ (∀ line ∈ before, line.head? = some '#') ∧
      ∀ line ∈ after, line = [] := by
  obtain ⟨hvalue, hdefault, henum⟩ := h.value
  obtain ⟨value, hvalue⟩ := Option.ne_none_iff_exists'.1 hvalue
  have hdescription : ∀ line ∈ saveDescription entry, line.head? = some '#' := by
    intro line hline
    unfold saveDescription at hline
    cases hdescription : entry.description with
    | none =>
      rw [hdescription] at hline
      exact absurd hline List.not_mem_nil
    | some description =>
      rw [hdescription] at hline
      rw [List.mem_singleton.1 hline]
      rfl
  -- a comment, the setting and a blank line follow the description
  have hlines : ∀ comment : Str, comment.head? = some '#' →
      saveEntry entry = some (saveDescription entry ++
        [comment, settingLine entry.key value, []]) →
      ∃ before value after, saveEntry entry = some (before ++ settingLine entry.key value :: after) ∧
        settingValue entry = some value ∧ (∀ line ∈ before, line.head? = some '#') ∧
        ∀ line ∈ after, line = [] := by
    intro comment hcomment hsave
    refine ⟨saveDescription entry ++ [comment], value, [[]], ?_, hvalue, fun line hline => ?_,
      fun line hline => List.mem_singleton.1 hline⟩
    · rw [hsave, List.append_assoc]
      rfl
    · rcases List.mem_append.1 hline with hline | hline
      · exact hdescription line hline
      · rw [List.mem_singleton.1 hline]
        exact hcomment
  unfold settingValue at hvalue
  cases htype : entry.type with
  | unknown =>
    rw [htype] at hvalue
    refine ⟨saveDescription entry, value, [], ?_, ?_, hdescription, fun line hline =>
      absurd hline List.not_mem_nil⟩
    · simp [saveEntry, htype, hvalue]
    · simpa [settingValue, htype] using hvalue
  | string =>
    rw [htype] at hvalue
    obtain ⟨str_default, hstr⟩ := Option.ne_none_iff_exists'.1 (hdefault htype)
    refine hlines ("# string, default: ".toList ++ str_default) rfl ?_
    replace hvalue : entry.str_value = some value := hvalue
    unfold saveEntry
    rw [htype, hvalue, hstr]
    rfl
  | enum =>
    rw [htype] at hvalue
    obtain ⟨hlt, -⟩ := List.getElem?_eq_some_iff.1 hvalue
    refine hlines ("# \x7b".toList ++
      entry.enum_values.flatMap (fun value => ' ' :: value ++ [' ']) ++ "\x7d, default: ".toList ++
        Decimal.write entry.num_default) rfl ?_
    simp only [saveEntry, htype, hvalue]
    rw [if_pos ⟨henum htype, hlt.le⟩]
    rfl
  | range =>
    rw [htype] at hvalue
    cases hvalue
    exact hlines ("# [".toList ++ Decimal.write entry.range_min ++ "..".toList ++
      Decimal.write entry.range_max ++ "], default: ".toList ++ Decimal.write entry.num_default) rfl
      (by simp only [saveEntry, htype]; rfl)
  | num =>
    rw [htype] at hvalue
    cases hvalue
    exact hlines ("# numeric, default: ".toList ++ Decimal.write entry.num_default) rfl
      (by simp only [saveEntry, htype]; rfl)
  | bool =>
    rw [htype] at hvalue
    cases hvalue
    exact hlines ("# bool, default: ".toList ++ Decimal.write entry.num_default) rfl
      (by simp only [saveEntry, htype]; rfl)

theorem loadLine_comment (h : line.head? = some '#') : loadLine this (line ++ ['\n']) = this := by
  unfold loadLine
  rw [List.dropLast_concat, if_pos h]

theorem loadLine_blank : loadLine this ([] ++ ['\n']) = this := rfl

theorem loadLine_setting (h : entry.WellFormed) (value : Str) :
    loadLine this (settingLine entry.key value ++ ['\n']) = loadSetting this entry.key value := by
  obtain ⟨hcolon, hcomment, hdot, -⟩ := h.key
  have hhead : ∀ c, c ≠ ':' → entry.key.head? ≠ some c →
      (settingLine entry.key value).head? ≠ some c := by
    intro c hc hkey
    unfold settingLine
    cases hcons : entry.key with
    | nil => simpa using hc.symm
    | cons a key =>
      rw [hcons] at hkey
      simpa using hkey
  have hall : ∀ c ∈ entry.key, decide (c ≠ ':') = true := fun c hc =>
    decide_eq_true fun heq => hcolon (heq ▸ hc)
  have hsplit : splitSetting (settingLine entry.key value) = some (entry.key, value) := by
    unfold splitSetting settingLine
    rw [if_pos (by simp), List.takeWhile_append_of_pos hall, List.dropWhile_append_of_pos hall]
    simp
  unfold loadLine
  rw [List.dropLast_concat, if_neg (hhead '#' (by decide) hcomment),
    if_neg (hhead '.' (by decide) hdot), hsplit]

theorem foldl_loadLine_entry (h : entry.WellFormed) {before after : List Str}
    (hbefore : ∀ line ∈ before, line.head? = some '#') (hafter : ∀ line ∈ after, line = []) :
    ((before ++ settingLine entry.key value :: after).map fun line => line ++ ['\n']).foldl loadLine
      this = loadSetting this entry.key value := by
  have hcomments : ∀ this, (before.map fun line => line ++ ['\n']).foldl loadLine this = this := by
    intro this
    induction before with
    | nil => rfl
    | cons line before ih =>
      rw [List.map_cons, List.foldl_cons, loadLine_comment (hbefore line List.mem_cons_self)]
      exact ih fun line hline => hbefore line (List.mem_cons_of_mem _ hline)
  have hblank : ∀ this, (after.map fun line => line ++ ['\n']).foldl loadLine this = this := by
    intro this
    induction after with
    | nil => rfl
    | cons line after ih =>
      rw [List.map_cons, List.foldl_cons, hafter line List.mem_cons_self, loadLine_blank]
      exact ih fun line hline => hafter line (List.mem_cons_of_mem _ hline)
  rw [List.map_append, List.foldl_append, hcomments, List.map_cons, List.foldl_cons,
    loadLine_setting h, hblank]

/-- The settings of entries, one after the other. -/
def loadEntries (this : ConfigValues) (entries : List CfgEntry) : ConfigValues :=
  entries.foldl (fun this entry => loadSetting this entry.key ((settingValue entry).getD [])) this

theorem saveEntries_spec {entries : List CfgEntry} (h : ∀ entry ∈ entries, entry.WellFormed)
    (hfits : ∀ entry ∈ entries, ∀ value, userText entry = some value →
      (settingLine entry.key value).length < lineSize) :
    ∃ lines, entries.mapM saveEntry = some lines ∧
      (∀ line ∈ lines.flatten, '\n' ∉ line ∧ line.length < lineSize) ∧
      ∀ this, (lines.flatten.map fun line => line ++ ['\n']).foldl loadLine this =
        loadEntries this entries := by
  induction entries with
  | nil => exact ⟨[], rfl, fun line hline => absurd hline List.not_mem_nil, fun _ => rfl⟩
  | cons entry entries ih =>
    obtain ⟨lines, hsave, hlines, hload⟩ :=
      ih (fun e he => h e (List.mem_cons_of_mem _ he)) fun e he => hfits e (List.mem_cons_of_mem _ he)
    have hentry := h entry List.mem_cons_self
    obtain ⟨before, value, after, hsave', hvalue, hbefore, hafter⟩ := saveEntry_spec hentry
    refine ⟨(before ++ settingLine entry.key value :: after) :: lines, ?_, fun line hline => ?_,
      fun this => ?_⟩
    · rw [List.mapM_cons, hsave', hsave]
      rfl
    · rw [List.flatten_cons, List.mem_append] at hline
      rcases hline with hline | hline
      · have hsaved : line ∈ (saveEntry entry).getD [] := by
          rw [hsave']
          exact hline
        refine ⟨hentry.newline line hsaved, ?_⟩
        rcases hentry.fits line hsaved with hmap | hlt
        · obtain ⟨text, htext, rfl⟩ := Option.map_eq_some_iff.1 hmap
          exact hfits entry List.mem_cons_self text htext
        · exact hlt
      · exact hlines line hline
    · rw [List.flatten_cons, List.map_append, List.foldl_append,
        foldl_loadLine_entry hentry hbefore hafter, hload]
      simp only [loadEntries, List.foldl_cons, hvalue, Option.getD_some]

theorem load_save (h : this.WellFormed)
    (hfits : ∀ entry ∈ this.entries, ∀ value, userText entry = some value →
      (settingLine entry.key value).length < lineSize) :
    ∃ text, xineConfigSave this = some text ∧ ∀ fresh, xineConfigLoad fresh text =
      loadEntries { fresh with current_version := configFileVersion } this.entries := by
  obtain ⟨lines, hsave, hlines, hload⟩ := saveEntries_spec h.entries hfits
  have hheader : ∀ line ∈ saveHeader, '\n' ∉ line ∧ line.length < lineSize := by decide
  refine ⟨(saveHeader ++ lines.flatten).flatMap fun line => line ++ ['\n'], ?_, fun fresh => ?_⟩
  · unfold xineConfigSave saveLines
    rw [hsave]
    rfl
  · have hall : ∀ line ∈ saveHeader ++ lines.flatten, '\n' ∉ line ∧ line.length < lineSize :=
      fun line hline => (List.mem_append.1 hline).elim (hheader line) (hlines line)
    unfold xineConfigLoad
    rw [Lines.fgetsAll_lines hall, List.map_append, List.foldl_append, ← hload]
    rfl

theorem lookup_loadEntries_of_not_mem (this : ConfigValues) {entries : List CfgEntry} {k : Str}
    (hk : k ∉ entries.map CfgEntry.key) :
    lookupEntry (loadEntries this entries) k = lookupEntry this k := by
  induction entries generalizing this with
  | nil => rfl
  | cons entry entries ih =>
    rw [List.map_cons, List.mem_cons, not_or] at hk
    unfold loadEntries at ih ⊢
    rw [List.foldl_cons, ih _ hk.2, lookup_loadSetting, if_neg hk.1]

theorem lookup_loadEntries (this : ConfigValues) {entries : List CfgEntry} (hkeys : (entries.map CfgEntry.key).Nodup)
    (hentry : entry ∈ entries) :
    lookupEntry (loadEntries this entries) entry.key =
      some (loadedEntry entry.key ((settingValue entry).getD []) (lookupEntry this entry.key)) := by
  induction entries generalizing this with
  | nil => exact absurd hentry List.not_mem_nil
  | cons first entries ih =>
    rw [List.map_cons, List.nodup_cons] at hkeys
    rcases List.mem_cons.1 hentry with rfl | hentry
    · have hrest := lookup_loadEntries_of_not_mem
        (loadSetting this entry.key ((settingValue entry).getD [])) hkeys.1
      calc lookupEntry (loadEntries this (entry :: entries)) entry.key
          = lookupEntry (loadSetting this entry.key ((settingValue entry).getD [])) entry.key := hrest
        _ = _ := by rw [lookup_loadSetting, if_pos rfl]
    · have hne : entry.key ≠ first.key := fun heq =>
        hkeys.1 (heq ▸ List.mem_map_of_mem hentry)
      have hrest := ih (loadSetting this first.key ((settingValue first).getD [])) hkeys.2 hentry
      rw [lookup_loadSetting, if_neg hne] at hrest
      exact hrest

end Lines

/-! ## Values -/

theorem atoi_write {n : ℤ} (h : -2 ^ 31 ≤ n ∧ n < 2 ^ 31) : atoi (Decimal.write n) = n := by
  have hclamp : clampLong n = n := by
    unfold clampLong
    omega
  have hint : toInt n = n := by
    unfold toInt
    rw [Int.bmod_def]
    split_ifs <;> omega
  unfold atoi sscanfInt
  rw [Decimal.read_write, Option.map_some, Option.getD_some, hclamp, hint]

section Values

variable {this fresh : ConfigValues} {entry : CfgEntry} {value : Str}

theorem sameValue_loadedEntry (found : Option CfgEntry) (h : entry.WellFormed) (hvalue : settingValue entry = some value)
    (hregistered : entry.type ≠ .unknown → ∃ entry', found = some entry' ∧ entry'.type = entry.type)
    (hunknown : entry.type = .unknown → ∀ entry', found = some entry' → entry'.type = .unknown) :
    SameValue entry (loadedEntry entry.key value found) ↔
      (entry.type = .enum → atoi value = entry.num_value) := by
  unfold settingValue at hvalue
  cases htype : entry.type with
  | unknown =>
    rw [htype] at hvalue
    cases hfound : found with
    | none => simp [SameValue, loadedEntry, newEntry, htype, hvalue]
    | some entry' =>
      have htype' := hunknown htype entry' hfound
      simp [SameValue, loadedEntry, updateEntry, htype, htype', hvalue]
  | string =>
    rw [htype] at hvalue
    obtain ⟨entry', rfl, htype'⟩ := hregistered (by simp [htype])
    rw [htype] at htype'
    simp [SameValue, loadedEntry, updateEntry, htype, htype', hvalue]
  | enum =>
    obtain ⟨entry', rfl, htype'⟩ := hregistered (by simp [htype])
    rw [htype] at htype'
    simp [SameValue, loadedEntry, updateEntry, htype, htype']
  | _ =>
    -- the number was written
    rw [htype] at hvalue
    cases hvalue
    obtain ⟨entry', rfl, htype'⟩ := hregistered (by simp [htype])
    rw [htype] at htype'
    simp [SameValue, loadedEntry, updateEntry, htype, htype', atoi_write h.num]

theorem restored_iff (h : this.WellFormed) (hsame : SameRegistered this fresh)
    (hentry : entry ∈ this.entries) :
    (∃ entry', lookupEntry (loadEntries { fresh with current_version := configFileVersion } this.entries)
        entry.key = some entry' ∧ SameValue entry entry') ↔
      (entry.type = .enum → ∀ name, settingValue entry = some name → atoi name = entry.num_value) := by
  have hwf := h.entries entry hentry
  obtain ⟨value, hvalue⟩ := Option.ne_none_iff_exists'.1 hwf.value.1
  have hlookup : lookupEntry { fresh with current_version := configFileVersion } entry.key =
      lookupEntry fresh entry.key := rfl
  have hiff := sameValue_loadedEntry (lookupEntry fresh entry.key) hwf hvalue
    (fun htype => by
      obtain ⟨entry', hfound, htype', -⟩ := hsame.registered entry hentry htype
      exact ⟨entry', hfound, htype'⟩)
    (hsame.unknown entry hentry)
  rw [lookup_loadEntries _ h.keys hentry, hlookup, hvalue, Option.getD_some]
  constructor
  · rintro ⟨entry', hfound, hvalue'⟩ htype name hname
    cases hfound
    cases hname
    exact hiff.1 hvalue' htype
  · exact fun hatoi => ⟨_, rfl, hiff.2 fun htype => hatoi htype value rfl⟩

end Values

/-! ## Lines that do not fit -/

section Short

variable {this : ConfigValues} {entry : CfgEntry} {key value : Str}

/-- The texts of the user are short enough for their lines to fit. -/
def ShortTexts (this : ConfigValues) : Prop :=
  ∀ entry ∈ this.entries, ∀ value, userText entry = some value →
    (settingLine entry.key value).length < lineSize

theorem mem_modifyFirst {f : CfgEntry → CfgEntry} {entries : List CfgEntry}
    (h : entry ∈ modifyFirst key f entries) :
    entry ∈ entries ∨ ∃ old ∈ entries, old.key = key ∧ entry = f old := by
  induction entries with
  | nil => exact .inl h
  | cons first entries ih =>
    unfold modifyFirst at h
    split_ifs at h with hkey
    · rcases List.mem_cons.1 h with rfl | h
      · exact .inr ⟨first, List.mem_cons_self, hkey, rfl⟩
      · exact .inl (List.mem_cons_of_mem _ h)
    · rcases List.mem_cons.1 h with rfl | h
      · exact .inl List.mem_cons_self
      · rcases ih h with hmem | ⟨old, hold, heq⟩
        · exact .inl (List.mem_cons_of_mem _ hmem)
        · exact .inr ⟨old, List.mem_cons_of_mem _ hold, heq⟩

theorem ShortTexts.setEntry {f : CfgEntry → CfgEntry} (h : ShortTexts this)
    (hkey : ∀ old, (f old).key = old.key)
    (hf : ∀ old text, userText (f old) = some text → text = value ∨ userText old = some text)
    (hshort : (settingLine key value).length < lineSize) : ShortTexts (this.setEntry key f) := by
  intro entry hentry text htext
  rcases mem_modifyFirst hentry with hmem | ⟨old, hmem, rfl, rfl⟩
  · exact h entry hmem text htext
  · rw [hkey]
    rcases hf old text htext with rfl | hold
    · exact hshort
    · exact h old hmem text hold

theorem ShortTexts.updateText (h : ShortTexts this) (hkey : entry.key = key)
    (hshort : (settingLine key value).length < lineSize) :
    ShortTexts (updateText this entry value) := by
  have hnum : ∀ n, ShortTexts (updateNum this key n) := by
    intro n
    refine h.setEntry (fun old => by split_ifs <;> rfl) (fun old text htext => .inr ?_) hshort
    split_ifs at htext
    · exact htext
    · exact htext
  unfold Config.updateText
  rw [hkey]
  cases entry.type with
  | unknown =>
    refine h.setEntry (fun _ => rfl) (fun old text htext => ?_) hshort
    unfold userText at htext ⊢
    cases htype : old.type <;> simp only [htype] at htext ⊢
    · exact .inl (Option.some.inj htext).symm
    all_goals exact .inr htext
  | string =>
    refine h.setEntry (fun old => by split_ifs <;> rfl) (fun old text htext => ?_) hshort
    split_ifs at htext with htype
    · exact .inr htext
    · rw [not_not] at htype
      simp only [userText, htype] at htext
      exact .inl (Option.some.inj htext).symm
  | _ => exact hnum _

theorem ShortTexts.loadSetting (h : ShortTexts this)
    (hshort : (settingLine key value).length < lineSize) :
    ShortTexts (loadSetting this key value) := by
  unfold Config.loadSetting
  cases hfound : lookupEntry this key with
  | some entry => exact h.updateText (key_of_lookup hfound) hshort
  | none =>
    intro entry hentry text htext
    rcases List.mem_append.1 hentry with hmem | hmem
    · exact h entry (List.takeWhile_subset _ hmem) text htext
    · rcases List.mem_cons.1 hmem with rfl | hmem
      · cases htext
        exact hshort
      · exact h entry (List.dropWhile_subset _ hmem) text htext

theorem settingLine_of_mem {line : Str} (h : ':' ∈ line) :
    settingLine (line.takeWhile (· ≠ ':')) (line.dropWhile (· ≠ ':')).tail = line :=
  Splitting.before_append_after h

theorem ShortTexts.loadLine {buffer : Str} (h : ShortTexts this) (hbuffer : buffer.length ≤ lineSize) :
    ShortTexts (loadLine this buffer) := by
  unfold Config.loadLine
  simp only
  split_ifs
  · exact h
  · exact h
  · exact h
  · cases hsplit : splitSetting buffer.dropLast with
    | none => exact h
    | some setting =>
      refine h.loadSetting ?_
      unfold splitSetting at hsplit
      obtain ⟨hcolon, heq⟩ := Option.ite_none_right_eq_some.1 hsplit
      cases heq
      have hpos : 0 < buffer.dropLast.length := List.length_pos_of_mem hcolon
      rw [settingLine_of_mem hcolon]
      rw [List.length_dropLast] at hpos ⊢
      omega

theorem ShortTexts.load (h : ShortTexts this) (text : Str) : ShortTexts (xineConfigLoad this text) := by
  have hsize : ∀ buffer ∈ Lines.fgetsAll lineSize text, buffer.length ≤ lineSize := fun buffer hbuffer =>
    Lines.length_le_of_mem_fgetsAll (by decide) hbuffer
  unfold xineConfigLoad
  generalize Lines.fgetsAll lineSize text = buffers at hsize ⊢
  induction buffers generalizing this with
  | nil => exact h
  | cons buffer buffers ih =>
    exact ih (h.loadLine (hsize buffer List.mem_cons_self)) fun b hb =>
      hsize b (List.mem_cons_of_mem _ hb)

end Short

/-! ## The round trip -/

/-- A process that has registered the same entries, whose texts are empty. -/
def emptied (this : ConfigValues) : ConfigValues :=
  { this with
    entries := this.entries.map fun entry =>
      { entry with unknown_value := some [], str_value := some [] } }

theorem lookup_of_mem {this : ConfigValues} {entry : CfgEntry}
    (hkeys : (this.entries.map CfgEntry.key).Nodup) (hentry : entry ∈ this.entries) :
    lookupEntry this entry.key = some entry := by
  unfold lookupEntry
  generalize this.entries = entries at hkeys hentry ⊢
  induction entries with
  | nil => exact absurd hentry List.not_mem_nil
  | cons first entries ih =>
    rw [List.map_cons, List.nodup_cons] at hkeys
    rcases List.mem_cons.1 hentry with rfl | hentry
    · simp
    · have hne : first.key ≠ entry.key := fun heq => hkeys.1 (heq ▸ List.mem_map_of_mem hentry)
      rw [List.find?_cons_of_neg (by simpa using hne)]
      exact ih hkeys.2 hentry

theorem emptied_spec {this : ConfigValues} (h : this.WellFormed) :
    SameRegistered this (emptied this) ∧ ShortTexts (emptied this) := by
  have hlookup : ∀ key, lookupEntry (emptied this) key = (lookupEntry this key).map fun entry =>
      { entry with unknown_value := some [], str_value := some [] } := by
    intro key
    unfold lookupEntry emptied
    rw [List.find?_map]
    rfl
  refine ⟨⟨fun entry hentry _ => ?_, fun entry hentry htype entry' hfound => ?_⟩, ?_⟩
  · rw [hlookup, lookup_of_mem h.keys hentry]
    exact ⟨_, rfl, rfl, rfl⟩
  · rw [hlookup, lookup_of_mem h.keys hentry] at hfound
    cases hfound
    exact htype
  · intro entry hentry value hvalue
    obtain ⟨old, hold, rfl⟩ := List.mem_map.1 hentry
    have hnil : value = [] := by
      unfold userText at hvalue
      cases htype : old.type <;> simp only [htype, Option.some.injEq, reduceCtorEq] at hvalue
      · exact hvalue.symm
      · exact hvalue.symm
    rw [hnil]
    unfold settingLine
    rw [List.length_append, List.length_singleton]
    exact (h.entries old hold).key.2.2.2

/-- Well formed entries are restored by saving and loading if and only if each text of the user fits
into a line, and the name of each enumeration's value is read as its number. -/
theorem save_load_round_trip_iff {this : ConfigValues} (h : this.WellFormed) :
    RoundTrips this ↔ ∀ entry ∈ this.entries, Kept entry := by
  constructor
  · rintro ⟨text, hsave, hload⟩
    obtain ⟨hsame, hshort⟩ := emptied_spec h
    have hrestored := hload _ hsame
    have hfits : ∀ entry ∈ this.entries, ∀ value, userText entry = some value →
        (settingLine entry.key value).length < lineSize := by
      -- the loaded entry has the same text, and only short texts are loaded
      intro entry hentry value hvalue
      obtain ⟨entry', hfound, htype, hsame'⟩ := hrestored entry hentry
      have hkey := key_of_lookup hfound
      have hmem : entry' ∈ (xineConfigLoad (emptied this) text).entries := List.mem_of_find?_eq_some hfound
      have htext : userText entry' = some value := by
        unfold userText at hvalue ⊢
        rw [htype]
        cases hcase : entry.type <;> simp only [hcase, reduceCtorEq] at hvalue hsame' ⊢
        · exact hsame'.trans hvalue
        · exact hsame'.trans hvalue
      rw [← hkey]
      exact hshort.load text entry' hmem value htext
    obtain ⟨text', hsave', hload'⟩ := load_save h hfits
    obtain rfl := Option.some.inj (hsave.symm.trans hsave')
    intro entry hentry
    refine ⟨hfits entry hentry, (restored_iff h hsame hentry).1 ?_⟩
    rw [← hload']
    exact hrestored entry hentry
  · intro hkept
    obtain ⟨text, hsave, hload⟩ := load_save h fun entry hentry => (hkept entry hentry).1
    refine ⟨text, hsave, fun fresh hsame entry hentry => ?_⟩
    rw [hload]
    exact (restored_iff h hsame hentry).2 (hkept entry hentry).2

/-- A number, a string, and a setting that nobody has registered. -/
def sampleConfig : ConfigValues :=
  ⟨[⟨"audio.volume".toList, .range, none, none, none, 50, 100, 0, 100, [],
      some "startup volume".toList, 10⟩,
    ⟨"input.device".toList, .string, some "/dev/cd".toList, some "/dev/dvd".toList,
      some "/dev/cd".toList, 0, 0, 0, 0, [], none, 20⟩,
    ⟨"post.goom".toList, .unknown, some "a:b # c".toList, none, none, 0, 0, 0, 0, [], none, 0⟩], 1⟩

/-- They are restored. -/
theorem save_load_round_trip_sample : RoundTrips sampleConfig := by
  have hwf : sampleConfig.WellFormed := by
    refine ⟨by decide, fun entry hentry => ?_⟩
    simp only [sampleConfig, List.mem_cons, List.not_mem_nil, or_false] at hentry
    rcases hentry with rfl | rfl | rfl
    · exact ⟨by decide, by decide, by decide, by decide, by decide⟩
    · exact ⟨by decide, by decide, by decide, by decide, by decide⟩
    · exact ⟨by decide, by decide, by decide, by decide, by decide⟩
  refine (save_load_round_trip_iff hwf).2 fun entry hentry => ?_
  simp only [sampleConfig, List.mem_cons, List.not_mem_nil, or_false] at hentry
  rcases hentry with rfl | rfl | rfl
  · exact ⟨fun value hvalue => by simp [userText] at hvalue, by decide⟩
  · refine ⟨fun value hvalue => ?_, by decide⟩
    cases hvalue
    decide
  · refine ⟨fun value hvalue => ?_, by decide⟩
    cases hvalue
    decide

/-- An enumeration, registered with the value `off`. -/
def enumConfig : ConfigValues :=
  registerEnum xineConfigInit "video.mode".toList 0 ["off".toList, "on".toList] none 10

/-- When its value is `on`, the file has this name, which is read as the number of `off`. -/
theorem enum_not_restored : ¬RoundTrips (updateNum enumConfig "video.mode".toList 1) := by
  rintro ⟨text, hsave, hload⟩
  have hentries : (updateNum enumConfig "video.mode".toList 1).entries =
      [⟨"video.mode".toList, .enum, none, none, none, 1, 0, 0, 0, ["off".toList, "on".toList], none,
        10⟩] := by decide
  have hsame : SameRegistered (updateNum enumConfig "video.mode".toList 1) enumConfig := by
    refine ⟨fun entry hentry _ => ?_, fun entry hentry htype => ?_⟩
    · rw [hentries] at hentry
      obtain rfl := List.mem_singleton.1 hentry
      exact ⟨_, rfl, rfl, rfl⟩
    · rw [hentries] at hentry
      obtain rfl := List.mem_singleton.1 hentry
      exact absurd htype (by decide)
  obtain ⟨entry', hfound, -, hvalue⟩ := hload _ hsame _ (hentries ▸ List.mem_singleton_self _)
  have hzero : (xineConfigSave (updateNum enumConfig "video.mode".toList 1)).bind (fun text =>
      (lookupEntry (xineConfigLoad enumConfig text) "video.mode".toList).map CfgEntry.num_value) =
      some 0 := by decide
  rw [hsave, Option.bind_some, hfound] at hzero
  have hone : entry'.num_value = 1 := hvalue
  rw [Option.map_some, hone] at hzero
  exact absurd (Option.some.inj hzero) (by decide)

end Xine.Config
