import Xine.Config.Options

/-!
# The values of enumerations

An entry of the type `CONFIG_TYPE_ENUM` holds the index of its value in `enum_values`, and `xine_config_save`
takes the value from there. Registration parses the value that was loaded before it, but takes the default value
as it is, and keeps the index when the entry is registered again with other values; everything later stores a
number without a look at the values, read from the text even though `xine_config_save` writes the value itself.
-/

namespace Xine.Config

/-! ## The operations -/

/-- What `xine_config_update_entry` reads of a `xine_cfg_entry_t`. -/
structure XineCfgEntry where
  key : Str
  type : CfgType
  num_value : ℤ
  str_value : Option Str

def xineConfigUpdateEntry (this : ConfigValues) (entry : XineCfgEntry) : Option ConfigValues :=
  match entry.type with
  | .range | .enum | .num | .bool => some (updateNum this entry.key entry.num_value)
  -- a null pointer is not copied
  | .string => entry.str_value.map (updateString this entry.key)
  | .unknown => none

/-- An operation on the configuration; a load is one for each of its lines (`run_load`). -/
inductive Operation where
  | register (registration : Registration)
  | updateNum (key : Str) (value : ℤ)
  | changeOpt (opt : Str)
  | line (buffer : Str)
  | updateEntry (entry : XineCfgEntry)

/-- The configuration after an operation. -/
def operate (this : ConfigValues) : Operation → Option ConfigValues
  | .register registration => some (register this registration)
  | .updateNum key value => some (updateNum this key value)
  | .changeOpt opt => (xineConfigChangeOpt this opt).map Prod.fst
  | .line buffer => some (loadLine this buffer)
  | .updateEntry entry => xineConfigUpdateEntry this entry

/-! ## Entries with a property -/

section All

variable {this : ConfigValues} {key value : Str} {entry : CfgEntry} {f : CfgEntry → CfgEntry}
  {Q : CfgEntry → Prop}

/-- All entries have a property. -/
def All (Q : CfgEntry → Prop) (this : ConfigValues) : Prop := ∀ entry ∈ this.entries, Q entry

theorem modifyFirst_append {xs ys : List CfgEntry} (hxs : ∀ e ∈ xs, e.key ≠ key)
    (hentry : entry.key = key) :
    modifyFirst key f (xs ++ entry :: ys) = xs ++ f entry :: ys := by
  induction xs with
  | nil => simp [modifyFirst, hentry]
  | cons e xs ih =>
    rw [List.cons_append]
    unfold modifyFirst
    rw [if_neg (hxs e List.mem_cons_self), ih fun e he => hxs e (List.mem_cons_of_mem _ he)]
    rfl

theorem entries_of_lookup (h : lookupEntry this key = some entry) : ∃ xs ys,
    this.entries = xs ++ entry :: ys ∧ entry.key = key ∧ ∀ e ∈ xs, e.key ≠ key := by
  unfold lookupEntry at h
  obtain ⟨hkey, xs, ys, heq, hxs⟩ := List.find?_eq_some_iff_append.1 h
  exact ⟨xs, ys, heq, by simpa using hkey, fun e he => by simpa using hxs e he⟩

theorem mem_of_lookup (h : lookupEntry this key = some entry) : entry ∈ this.entries :=
  List.mem_of_find?_eq_some h

theorem All.setEntry_iff (h : All Q this) (hlookup : lookupEntry this key = some entry) :
    All Q (this.setEntry key f) ↔ Q (f entry) := by
  obtain ⟨xs, ys, heq, hkey, hxs⟩ := entries_of_lookup hlookup
  have hset : (this.setEntry key f).entries = xs ++ f entry :: ys := by
    unfold ConfigValues.setEntry
    rw [heq]
    exact modifyFirst_append hxs hkey
  unfold All
  rw [hset]
  constructor
  · intro hall
    exact hall _ (by simp)
  · intro hentry e he
    rcases List.mem_append.1 he with he | he
    · exact h e (by simp [heq, he])
    · rcases List.mem_cons.1 he with rfl | he
      · exact hentry
      · exact h e (by simp [heq, he])

theorem All.updateText_iff (h : All Q this) (hlookup : lookupEntry this key = some entry) :
    All Q (updateText this entry value) ↔ Q (updateEntry entry value) := by
  obtain ⟨f, -, hf, heq⟩ := updateText_eq hlookup value
  rw [heq, h.setEntry_iff hlookup, hf]

theorem All.insert_iff (h : All Q this) (p : CfgEntry → Bool) :
    (∀ e ∈ this.entries.takeWhile p ++ entry :: this.entries.dropWhile p, Q e) ↔ Q entry := by
  constructor
  · intro hall
    exact hall _ (by simp)
  · intro hentry e he
    rcases List.mem_append.1 he with he | he
    · exact h e (List.takeWhile_subset _ he)
    · rcases List.mem_cons.1 he with rfl | he
      · exact hentry
      · exact h e (List.dropWhile_subset _ he)

theorem All.registerEntry_iff {unknown_value : Option Str} (h : All Q this) :
    All Q (registerEntry this key unknown_value f) ↔
      Q (f ((lookupEntry this key).getD (newEntry key unknown_value))) := by
  unfold registerEntry
  cases hlookup : lookupEntry this key with
  | some entry =>
    rw [if_neg (Option.some_ne_none entry)]
    exact h.setEntry_iff hlookup
  | none =>
    rw [if_pos rfl]
    have hbefore : ∀ e ∈ this.entries.takeWhile fun cur => !stopsAt key cur.key, e.key ≠ key := by
      intro e he
      unfold lookupEntry at hlookup
      simpa using List.find?_eq_none.1 hlookup e (List.takeWhile_subset _ he)
    have hset : ((xineConfigAdd this key unknown_value).setEntry key f).entries =
        this.entries.takeWhile (fun cur => !stopsAt key cur.key) ++ f (newEntry key unknown_value) ::
          this.entries.dropWhile fun cur => !stopsAt key cur.key :=
      modifyFirst_append hbefore rfl
    unfold All
    rw [hset]
    exact h.insert_iff _

theorem All.loadSetting_iff (h : All Q this) :
    All Q (loadSetting this key value) ↔ Q (loadedEntry key value (lookupEntry this key)) := by
  unfold loadSetting
  cases hlookup : lookupEntry this key with
  | none => exact h.insert_iff _
  | some entry => exact h.updateText_iff hlookup

end All

/-! ## The values of enumerations -/

/-- The number is the index of a value. -/
def ValidIndex (n : ℤ) (values : List Str) : Prop := 0 ≤ n ∧ n < values.length

instance (n : ℤ) (values : List Str) : Decidable (ValidIndex n values) :=
  inferInstanceAs (Decidable (_ ∧ _))

/-- The value of an enumeration is one of its values. -/
def HoldsIndex (entry : CfgEntry) : Prop :=
  entry.type = .enum → ValidIndex entry.num_value entry.enum_values

/-- The strings that `xine_config_save` writes are there. -/
def HoldsTexts (entry : CfgEntry) : Prop :=
  (entry.type = .unknown → entry.unknown_value ≠ none) ∧
    (entry.type = .string → entry.str_default ≠ none ∧ entry.str_value ≠ none)

theorem validIndex_parseEnum {str : Str} {values : List Str} :
    ValidIndex (parseEnum str values) values ↔ values ≠ [] := by
  unfold parseEnum ValidIndex
  constructor
  · rintro ⟨hle, hlt⟩ rfl
    simp at hlt
  · intro hne
    have hpos := List.length_pos_of_ne_nil hne
    refine ⟨Int.natCast_nonneg _, ?_⟩
    cases hfind : values.findIdx? fun value => decide (value = str) with
    | none => simpa using hpos
    | some i =>
      obtain ⟨hi, -⟩ := List.findIdx?_eq_some_iff_getElem.1 hfind
      simpa using hi

/-- What a registration as an enumeration leaves in the entry that it finds is an index. -/
def FitsEnum (def_value : ℤ) (values : List Str) (entry : CfgEntry) : Prop :=
  if entry.type = .enum then ValidIndex entry.num_value values
  else
    match entry.unknown_value with
    | some _ => values ≠ []
    | none => ValidIndex def_value values

/-- A number that is stored for a key is an index, if its entry is an enumeration. -/
def FitsNum (this : ConfigValues) (key : Str) (value : ℤ) : Prop :=
  ∀ entry, lookupEntry this key = some entry → entry.type = .enum → ValidIndex value entry.enum_values

/-- What the operation stores for an enumeration is an index. -/
def Fits (this : ConfigValues) : Operation → Prop
  | .register (.enum key def_value values _ _) =>
    FitsEnum def_value values ((lookupEntry this key).getD (newEntry key none))
  | .register _ => True
  | .updateNum key value => FitsNum this key value
  | .changeOpt opt => ':' ∈ opt →
      (∃ entry, lookupEntry this (optKey opt) = some entry ∧ entry.Protected) ∨
        FitsNum this (optKey opt) (atoi (optValue opt))
  | .line buffer => ∀ key value, lineSetting buffer = some (key, value) → FitsNum this key (atoi value)
  | .updateEntry entry =>
    entry.type = .unknown ∨ entry.type = .string ∨ FitsNum this entry.key entry.num_value

section Operations

variable {this this' : ConfigValues} {key k : Str} {value : ℤ} {text : Str} {entry : CfgEntry}

theorem fitsNum_of_lookup (h : lookupEntry this key = some entry) :
    FitsNum this key value ↔ (entry.type = .enum → ValidIndex value entry.enum_values) := by
  unfold FitsNum
  rw [h]
  exact ⟨fun hfits => hfits entry rfl, fun hfits e he => Option.some.inj he ▸ hfits⟩

theorem fitsNum_of_none (h : lookupEntry this key = none) : FitsNum this key value := by
  intro entry hentry
  rw [h] at hentry
  exact absurd hentry.symm (Option.some_ne_none entry)

/-! ### One entry -/

theorem holdsIndex_updateEntry : HoldsIndex (updateEntry entry text) ↔
    (entry.type = .enum → ValidIndex (atoi text) entry.enum_values) := by
  unfold HoldsIndex updateEntry
  cases htype : entry.type <;> simp

theorem HoldsTexts.updateEntry (h : HoldsTexts entry) : HoldsTexts (updateEntry entry text) := by
  obtain ⟨hunknown, hstring⟩ := h
  unfold Config.updateEntry HoldsTexts
  cases htype : entry.type <;> simp_all

theorem holdsIndex_registerEnum {def_value : ℤ} {values : List Str} {description : Option Str}
    {exp_level : ℤ} :
    HoldsIndex
      { convertNum .enum def_value (fun unknown_value _ => parseEnum unknown_value values) entry with
        num_default := def_value, enum_values := values, description, exp_level } ↔
      FitsEnum def_value values entry := by
  unfold HoldsIndex FitsEnum convertNum
  by_cases htype : entry.type = .enum
  · rw [if_pos htype, if_neg fun hne => hne htype]
    exact ⟨fun h => h htype, fun h _ => h⟩
  · rw [if_neg htype, if_pos htype]
    cases entry.unknown_value with
    | none => simp
    | some unknown_value => simpa using validIndex_parseEnum

theorem convertNum_type (type : CfgType) (def_value : ℤ) (parse : Str → ℤ → ℤ) (entry : CfgEntry) :
    (convertNum type def_value parse entry).type = type := by
  unfold convertNum
  split_ifs with htype
  · rfl
  · exact not_not.1 htype

theorem holdsIndex_of_type (h : entry.type ≠ .enum) : HoldsIndex entry := fun henum => absurd henum h

theorem holdsTexts_of_type (hunknown : entry.type ≠ .unknown) (hstring : entry.type ≠ .string) :
    HoldsTexts entry :=
  ⟨fun h => absurd h hunknown, fun h => absurd h hstring⟩

/-! ### One operation -/

theorem register_spec (hindex : All HoldsIndex this) (htexts : All HoldsTexts this)
    (registration : Registration) : All HoldsTexts (register this registration) ∧
      (All HoldsIndex (register this registration) ↔ Fits this (.register registration)) := by
  -- a registration as another type of numbers
  have hnum : ∀ (type : CfgType) (unknown_value : Option Str) (key : Str) (f : CfgEntry → CfgEntry),
      (∀ entry, (f entry).type = type) → type ≠ .unknown → type ≠ .string → type ≠ .enum →
      All HoldsTexts (registerEntry this key unknown_value f) ∧
        (All HoldsIndex (registerEntry this key unknown_value f) ↔ True) := by
    intro type unknown_value key f hf hunknown hstring henum
    rw [htexts.registerEntry_iff, hindex.registerEntry_iff]
    refine ⟨holdsTexts_of_type ?_ ?_, iff_of_true (holdsIndex_of_type ?_) trivial⟩
    · rwa [hf]
    · rwa [hf]
    · rwa [hf]
  cases registration with
  | string key def_value description exp_level =>
    unfold register registerString
    rw [htexts.registerEntry_iff, hindex.registerEntry_iff]
    have hold : ((lookupEntry this key).getD (newEntry key (some def_value))).type = .string →
        ((lookupEntry this key).getD (newEntry key (some def_value))).str_value ≠ none := by
      cases hlookup : lookupEntry this key with
      | none => exact fun hstring => absurd hstring (by simp [newEntry])
      | some entry => exact fun hstring => ((htexts entry (mem_of_lookup hlookup)).2 hstring).2
    generalize (lookupEntry this key).getD (newEntry key (some def_value)) = entry at hold ⊢
    refine ⟨⟨fun hunknown => ?_, fun _ => ⟨Option.some_ne_none _, ?_⟩⟩, iff_of_true ?_ trivial⟩
    · simp only at hunknown
      split_ifs at hunknown with htype
      rw [hunknown] at htype
      exact absurd (by decide) htype
    · simp only
      split_ifs with htype
      · exact Option.some_ne_none _
      · exact hold (not_not.1 htype)
    · refine holdsIndex_of_type ?_
      simp only
      split_ifs with htype
      · exact CfgType.noConfusion
      · rw [not_not.1 htype]
        exact CfgType.noConfusion
  | num key =>
    exact hnum .num none key _ (fun entry => convertNum_type _ _ _ entry) (by decide) (by decide) (by decide)
  | bool key =>
    exact hnum .bool none key _ (fun entry => convertNum_type _ _ _ entry) (by decide) (by decide)
      (by decide)
  | range key =>
    exact hnum .range none key _ (fun entry => convertNum_type _ _ _ entry) (by decide) (by decide)
      (by decide)
  | enum key def_value values description exp_level =>
    unfold register registerEnum
    rw [htexts.registerEntry_iff, hindex.registerEntry_iff]
    refine ⟨holdsTexts_of_type ?_ ?_, holdsIndex_registerEnum⟩
    · simp [convertNum_type]
    · simp [convertNum_type]

theorem updateNum_spec (hindex : All HoldsIndex this) (htexts : All HoldsTexts this) (key : Str)
    (value : ℤ) : All HoldsTexts (updateNum this key value) ∧
      (All HoldsIndex (updateNum this key value) ↔ FitsNum this key value) := by
  unfold updateNum
  cases hlookup : lookupEntry this key with
  | none =>
    rw [setEntry_of_none hlookup]
    exact ⟨htexts, iff_of_true hindex (fitsNum_of_none hlookup)⟩
  | some entry =>
    have hmem := mem_of_lookup hlookup
    rw [htexts.setEntry_iff hlookup, hindex.setEntry_iff hlookup, fitsNum_of_lookup hlookup]
    by_cases htype : entry.type = .unknown ∨ entry.type = .string
    · -- the entry stays
      have hne : entry.type ≠ .enum := by
        rcases htype with htype | htype
        · rw [htype]
          exact CfgType.noConfusion
        · rw [htype]
          exact CfgType.noConfusion
      rw [if_pos htype]
      exact ⟨htexts entry hmem, iff_of_true (hindex entry hmem) fun henum => absurd henum hne⟩
    · rw [if_neg htype]
      rw [not_or] at htype
      exact ⟨holdsTexts_of_type htype.1 htype.2, Iff.rfl⟩

theorem updateString_spec (hindex : All HoldsIndex this) (htexts : All HoldsTexts this)
    (key text : Str) :
    All HoldsTexts (updateString this key text) ∧ All HoldsIndex (updateString this key text) := by
  unfold updateString
  cases hlookup : lookupEntry this key with
  | none =>
    rw [setEntry_of_none hlookup]
    exact ⟨htexts, hindex⟩
  | some entry =>
    have hmem := mem_of_lookup hlookup
    rw [htexts.setEntry_iff hlookup, hindex.setEntry_iff hlookup]
    by_cases htype : entry.type = .string
    · rw [if_neg fun hne => hne htype]
      refine ⟨⟨(htexts entry hmem).1, fun h => ⟨((htexts entry hmem).2 h).1, Option.some_ne_none _⟩⟩,
        hindex entry hmem⟩
    · rw [if_pos htype]
      exact ⟨htexts entry hmem, hindex entry hmem⟩

theorem updateText_spec (hindex : All HoldsIndex this) (htexts : All HoldsTexts this)
    (hlookup : lookupEntry this key = some entry) (text : Str) :
    All HoldsTexts (updateText this entry text) ∧
      (All HoldsIndex (updateText this entry text) ↔ FitsNum this key (atoi text)) := by
  rw [htexts.updateText_iff hlookup, hindex.updateText_iff hlookup, fitsNum_of_lookup hlookup]
  exact ⟨(htexts entry (mem_of_lookup hlookup)).updateEntry, holdsIndex_updateEntry⟩

theorem loadLine_spec (hindex : All HoldsIndex this) (htexts : All HoldsTexts this) (buffer : Str) :
    All HoldsTexts (loadLine this buffer) ∧
      (All HoldsIndex (loadLine this buffer) ↔ Fits this (.line buffer)) := by
  have hentries := @loadLine_entries this buffer
  unfold All
  rw [hentries]
  cases hline : lineSetting buffer with
  | none => exact ⟨htexts, iff_of_true hindex fun key value h => absurd (hline.symm.trans h) (by simp)⟩
  | some setting =>
    obtain ⟨key, text⟩ := setting
    have hfits : Fits this (.line buffer) ↔ FitsNum this key (atoi text) := by
      constructor
      · exact fun h => h key text hline
      · intro h key' text' hline'
        obtain ⟨rfl, rfl⟩ := Prod.mk.inj (Option.some.inj (hline.symm.trans hline'))
        exact h
    rw [hfits]
    cases hlookup : lookupEntry this key with
    | some entry =>
      have hload : loadSetting this key text = updateText this entry text := by
        unfold loadSetting
        rw [hlookup]
      simp only [Option.elim_some, hload]
      exact updateText_spec hindex htexts hlookup text
    | none =>
      have hload := @All.loadSetting_iff this key text
      simp only [hlookup] at hload
      refine ⟨(hload htexts).2 ?_, iff_of_true ((hload hindex).2 ?_) (fitsNum_of_none hlookup)⟩
      · exact ⟨fun _ => Option.some_ne_none _, fun hstring => absurd hstring CfgType.noConfusion⟩
      · exact holdsIndex_of_type CfgType.noConfusion

theorem changeOpt_spec {opt : Str} {r : ℤ} (hindex : All HoldsIndex this) (htexts : All HoldsTexts this)
    (h : xineConfigChangeOpt this opt = some (this', r)) :
    All HoldsTexts this' ∧ (All HoldsIndex this' ↔ Fits this (.changeOpt opt)) := by
  by_cases hcolon : ':' ∈ opt
  · cases hlookup : lookupEntry this (optKey opt) with
    | none =>
      unfold xineConfigChangeOpt at h
      rw [if_pos hcolon, hlookup] at h
      exact absurd h.symm (Option.some_ne_none _)
    | some entry =>
      rw [xineConfigChangeOpt_of_lookup hcolon hlookup] at h
      by_cases hprot : entry.Protected
      · rw [if_pos hprot] at h
        obtain ⟨rfl, -⟩ := Prod.mk.inj (Option.some.inj h)
        exact ⟨htexts, iff_of_true hindex fun _ => Or.inl ⟨entry, hlookup, hprot⟩⟩
      · rw [if_neg hprot] at h
        obtain ⟨rfl, -⟩ := Prod.mk.inj (Option.some.inj h)
        obtain ⟨htexts', hiff⟩ := updateText_spec hindex htexts hlookup (optValue opt)
        refine ⟨htexts', hiff.trans ⟨fun hfits _ => Or.inr hfits, fun hfits => ?_⟩⟩
        rcases hfits hcolon with ⟨e, he, hprot'⟩ | hfits
        · rw [hlookup] at he
          cases he
          exact absurd hprot' hprot
        · exact hfits
  · unfold xineConfigChangeOpt at h
    rw [if_neg hcolon] at h
    obtain ⟨rfl, -⟩ := Prod.mk.inj (Option.some.inj h)
    exact ⟨htexts, iff_of_true hindex fun hmem => absurd hmem hcolon⟩

theorem xineConfigUpdateEntry_spec {e : XineCfgEntry} (hindex : All HoldsIndex this)
    (htexts : All HoldsTexts this) (h : xineConfigUpdateEntry this e = some this') :
    All HoldsTexts this' ∧ (All HoldsIndex this' ↔ Fits this (.updateEntry e)) := by
  unfold xineConfigUpdateEntry at h
  change _ ∧ (_ ↔ e.type = .unknown ∨ e.type = .string ∨ FitsNum this e.key e.num_value)
  cases htype : e.type with
  | unknown =>
    rw [htype] at h
    exact absurd h.symm (Option.some_ne_none _)
  | string =>
    rw [htype] at h
    obtain ⟨text, -, rfl⟩ := Option.map_eq_some_iff.1 h
    obtain ⟨htexts', hindex'⟩ := updateString_spec hindex htexts e.key text
    exact ⟨htexts', iff_of_true hindex' (Or.inr (Or.inl rfl))⟩
  | _ =>
    rw [htype] at h
    cases h
    obtain ⟨htexts', hiff⟩ := updateNum_spec hindex htexts e.key e.num_value
    refine ⟨htexts', hiff.trans ⟨fun hfits => Or.inr (Or.inr hfits), fun hfits => ?_⟩⟩
    simpa using hfits

theorem operate_spec {operation : Operation} (hindex : All HoldsIndex this) (htexts : All HoldsTexts this)
    (h : operate this operation = some this') :
    All HoldsTexts this' ∧ (All HoldsIndex this' ↔ Fits this operation) := by
  cases operation with
  | register registration =>
    cases h
    exact register_spec hindex htexts registration
  | updateNum key value =>
    cases h
    exact updateNum_spec hindex htexts key value
  | changeOpt opt =>
    obtain ⟨⟨this', r⟩, hopt, rfl⟩ := Option.map_eq_some_iff.1 h
    exact changeOpt_spec hindex htexts hopt
  | line buffer =>
    cases h
    exact loadLine_spec hindex htexts buffer
  | updateEntry e => exact xineConfigUpdateEntry_spec hindex htexts h

theorem fits_of_none {operation : Operation} (h : operate this operation = none) : Fits this operation := by
  cases operation with
  | changeOpt opt =>
    intro hcolon
    have hopt := Option.map_eq_none_iff.1 h
    unfold xineConfigChangeOpt at hopt
    rw [if_pos hcolon] at hopt
    exact Or.inr (fitsNum_of_none (Option.map_eq_none_iff.1 hopt))
  | updateEntry e =>
    change xineConfigUpdateEntry this e = none at h
    unfold xineConfigUpdateEntry at h
    unfold Fits
    cases htype : e.type with
    | unknown => exact Or.inl htype
    | string => exact Or.inr (Or.inl htype)
    | _ =>
      rw [htype] at h
      exact absurd h (Option.some_ne_none _)
  | _ => exact absurd h (Option.some_ne_none _)

end Operations

/-! ## Saving -/

theorem saveEntry_ne_none {entry : CfgEntry} (hindex : HoldsIndex entry) (htexts : HoldsTexts entry) :
    saveEntry entry ≠ none := by
  obtain ⟨hunknown, hstring⟩ := htexts
  cases htype : entry.type with
  | unknown =>
    obtain ⟨text, htext⟩ := Option.ne_none_iff_exists'.1 (hunknown htype)
    simp [saveEntry, htype, htext]
  | string =>
    obtain ⟨hdefault, hvalue⟩ := hstring htype
    obtain ⟨str_default, hdefault⟩ := Option.ne_none_iff_exists'.1 hdefault
    obtain ⟨str_value, hvalue⟩ := Option.ne_none_iff_exists'.1 hvalue
    unfold saveEntry
    rw [htype, hdefault, hvalue]
    exact Option.some_ne_none _
  | enum =>
    obtain ⟨hle, hlt⟩ := hindex htype
    have hnat : entry.num_value.toNat < entry.enum_values.length := by omega
    simp only [saveEntry, htype, List.getElem?_eq_getElem hnat]
    rw [if_pos ⟨hle, hnat.le⟩]
    exact Option.some_ne_none _
  | _ =>
    unfold saveEntry
    rw [htype]
    exact Option.some_ne_none _

theorem xineConfigSave_ne_none {this : ConfigValues} (hindex : All HoldsIndex this)
    (htexts : All HoldsTexts this) : xineConfigSave this ≠ none := by
  have hentries : ∀ entries : List CfgEntry, (∀ entry ∈ entries, HoldsIndex entry ∧ HoldsTexts entry) →
      entries.mapM saveEntry ≠ none := by
    intro entries hall
    induction entries with
    | nil => simp
    | cons entry entries ih =>
      obtain ⟨hindex, htexts⟩ := hall entry List.mem_cons_self
      obtain ⟨lines, hlines⟩ := Option.ne_none_iff_exists'.1 (saveEntry_ne_none hindex htexts)
      obtain ⟨rest, hrest⟩ := Option.ne_none_iff_exists'.1
        (ih fun e he => hall e (List.mem_cons_of_mem _ he))
      simp [List.mapM_cons, hlines, hrest]
  unfold xineConfigSave saveLines
  rw [Ne, Option.map_eq_none_iff, Option.map_eq_none_iff]
  exact hentries this.entries fun entry hentry => ⟨hindex entry hentry, htexts entry hentry⟩

/-! ## Every run -/

/-- In every run the operations all fit if and only if in every state reached each enumeration holds the
index of one of its values, and the configuration is saved without a read past a table. -/
theorem enums_run (operations : List Operation) :
    Runs.Guarded operate Fits xineConfigInit operations ↔
      ∀ done this, done <+: operations → Runs.run operate xineConfigInit done = some this →
        All HoldsIndex this ∧ xineConfigSave this ≠ none := by
  refine @Runs.guarded_iff_states _ _ operate Fits (fun this => All HoldsIndex this ∧ All HoldsTexts this)
    (fun this => All HoldsIndex this ∧ xineConfigSave this ≠ none) ?_ ?_ ?_ ?_ xineConfigInit operations ?_
  · exact fun this hinv => ⟨hinv.1, xineConfigSave_ne_none hinv.1 hinv.2⟩
  · intro this operation this' hinv hfits hstep
    obtain ⟨htexts, hiff⟩ := operate_spec hinv.1 hinv.2 hstep
    exact ⟨hiff.2 hfits, htexts⟩
  · intro this operation this' hinv hno hstep hsaved
    exact hno ((operate_spec hinv.1 hinv.2 hstep).2.1 hsaved.1)
  · exact fun this operation => fits_of_none
  · exact ⟨fun entry hentry => absurd hentry List.not_mem_nil,
      fun entry hentry => absurd hentry List.not_mem_nil⟩

/-- The registration of an enumeration with two values. -/
def driverRegistration : Registration :=
  .enum "audio.driver".toList 0 ["auto".toList, "oss".toList] none 0

/-- An option stores a number that is no index, and saving reads past the table. -/
theorem changeOpt_stores_no_index : ∃ this,
    Runs.run operate xineConfigInit [.register driverRegistration, .changeOpt "audio.driver:7".toList] =
      some this ∧ ¬All HoldsIndex this ∧ xineConfigSave this = none := by
  refine ⟨_, rfl, fun hindex => ?_, by decide⟩
  have henum := hindex _ List.mem_cons_self
  exact absurd (henum (by decide)) (by decide)

end Xine.Config
