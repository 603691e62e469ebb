import Mathlib.Data.Char
import Mathlib.Data.List.Lex
import Mathlib.Data.List.Sort
import Mathlib.Data.Prod.Lex
import Mathlib.Order.WithBot
import Xine.Config.Protection

/-!
# The order of the entries

The staged comparison of `xine_config_add` is one linear order, `keyOrder`: the keys by their section, the
known ones first, then by their plugin and their name, where a missing part comes before the others. Two
keys are never equal in it, so the entries are strictly sorted, and each key has at most one.
-/

namespace Xine.Config

/-! ## The order of the keys -/

/-- The order: the rank of the section and its name, the plugin, the name. -/
abbrev KeyOrder := WithBot (ℕ ×ₗ Str) ×ₗ WithBot Str ×ₗ Str

/-- A part of a key, which may be missing. -/
def partOrder {α : Type} (part : Option α) : WithBot α := part.elim ⊥ fun part => (part : WithBot α)

/-- A section in the order. -/
def sectionOrder (sect : Str) : ℕ ×ₗ Str := toLex (enumConfigSection sect, sect)

/-- A key in the order. -/
def keyOrder (key : Str) : KeyOrder :=
  toLex (partOrder ((keyParts key).1.map sectionOrder),
    toLex (partOrder (keyParts key).2.1, (keyParts key).2.2))

section Order

variable {α : Type} {a : α}

@[simp] theorem partOrder_none : partOrder (none : Option α) = ⊥ := rfl

@[simp] theorem partOrder_some : partOrder (some a) = (a : WithBot α) := rfl

theorem partOrder_injective : Function.Injective (partOrder (α := α)) := by
  intro x y h
  cases x <;> cases y <;> simp_all [partOrder]

end Order

theorem splitDot_injective : Function.Injective splitDot := by
  have hdot : ∀ s : Str, '.' ∈ s → s.takeWhile (· ≠ '.') ++ '.' :: (s.dropWhile (· ≠ '.')).tail = s :=
    fun s hs => Splitting.before_append_after hs
  intro s t h
  unfold splitDot at h
  split_ifs at h with hs ht
  · obtain ⟨hbefore, hafter⟩ := Prod.mk.inj h
    rw [← hdot s hs, ← hdot t ht, Option.some.inj hbefore, hafter]
  · exact absurd (Prod.mk.inj h).1 (Option.some_ne_none _)
  · exact absurd (Prod.mk.inj h).1.symm (Option.some_ne_none _)
  · exact (Prod.mk.inj h).2

theorem keyParts_injective : Function.Injective keyParts := by
  have hparts : ∀ s : Str, keyParts s =
      ((splitDot s).1, if (splitDot s).1 = none then (none, (splitDot s).2)
        else splitDot (splitDot s).2) := by
    intro s
    unfold keyParts
    rcases splitDot s with ⟨sect, rest⟩
    cases sect with
    | none => rfl
    | some sect => rfl
  intro s t h
  rw [hparts s, hparts t] at h
  obtain ⟨hsect, hrest⟩ := Prod.mk.inj h
  rw [hsect] at hrest
  apply splitDot_injective
  refine Prod.ext hsect ?_
  split_ifs at hrest
  · exact (Prod.mk.inj hrest).2
  · exact splitDot_injective hrest

theorem keyOrder_injective : Function.Injective keyOrder := by
  intro s t h
  obtain ⟨hsect, hrest⟩ := Prod.mk.inj (toLex.injective h)
  obtain ⟨hplugin, hname⟩ := Prod.mk.inj (toLex.injective hrest)
  have hsection : Function.Injective sectionOrder := fun a b hab => (Prod.mk.inj (toLex.injective hab)).2
  apply keyParts_injective
  refine Prod.ext ?_ (Prod.ext (partOrder_injective hplugin) hname)
  exact Option.map_injective hsection (partOrder_injective hsect)

theorem stage_iff {α : Type} [LinearOrder α] {a b : α} [Decidable (a < b)] [Decidable (b < a)]
    {later : Bool} : (if a < b then true else if b < a then false else later) = true ↔
      a < b ∨ a = b ∧ later = true := by
  rcases lt_trichotomy a b with hlt | rfl | hgt
  · simp [hlt]
  · simp
  · simp [hgt, hgt.not_gt, hgt.ne']

/-- A stage for a part that may be missing, with the comparison of two that are there. -/
def partStop {α : Type} (new cur : Option α) (both : α → α → Bool) (later : Bool) : Bool :=
  match new, cur with
  | none, some _ => true
  | some _, none => false
  | some new, some cur => both new cur
  | none, none => later

theorem partStop_iff {α β : Type} [LinearOrder β] (f : α → β) {both : α → α → Bool} {later : Bool}
    (hboth : ∀ a b, both a b = true ↔ f a < f b ∨ f a = f b ∧ later = true) (new cur : Option α) :
    partStop new cur both later = true ↔
      partOrder (new.map f) < partOrder (cur.map f) ∨
        partOrder (new.map f) = partOrder (cur.map f) ∧ later = true := by
  unfold partStop
  cases new with
  | none =>
    cases cur with
    | none => simp
    | some cur => simp
  | some new =>
    cases cur with
    | none => simp
    | some cur =>
      simp only [Option.map_some, partOrder_some, WithBot.coe_lt_coe, WithBot.coe_inj]
      exact hboth new cur

/-- The last stage, of the names. -/
def nameStop (new cur : Str) : Bool :=
  if (keyParts new).2.2 < (keyParts cur).2.2 then true
  else if (keyParts cur).2.2 < (keyParts new).2.2 then false else true

/-- The stages from the plugins on. -/
def pluginStop (new cur : Str) : Bool :=
  partStop (keyParts new).2.1 (keyParts cur).2.1
    (fun a b => if a < b then true else if b < a then false else nameStop new cur) (nameStop new cur)

theorem stopsAt_eq (new cur : Str) : stopsAt new cur =
    partStop (keyParts new).1 (keyParts cur).1
      (fun a b =>
        if enumConfigSection a < enumConfigSection b then true
        else if enumConfigSection b < enumConfigSection a then false
        else if a < b then true else if b < a then false else pluginStop new cur)
      (pluginStop new cur) := by
  unfold stopsAt pluginStop nameStop
  rcases keyParts new with ⟨new_section, new_plugin, new_name⟩
  rcases keyParts cur with ⟨cur_section, cur_plugin, cur_name⟩
  cases new_section <;> cases cur_section <;> cases new_plugin <;> cases cur_plugin <;> rfl

theorem stopsAt_iff (new cur : Str) : stopsAt new cur = true ↔ keyOrder new ≤ keyOrder cur := by
  have hname : nameStop new cur = true ↔ (keyParts new).2.2 ≤ (keyParts cur).2.2 := by
    unfold nameStop
    rw [stage_iff, le_iff_lt_or_eq]
    simp
  have hplugin : pluginStop new cur = true ↔
      toLex (partOrder (keyParts new).2.1, (keyParts new).2.2) ≤
        toLex (partOrder (keyParts cur).2.1, (keyParts cur).2.2) := by
    unfold pluginStop
    rw [Prod.Lex.toLex_le_toLex, ← hname]
    simpa using partStop_iff id (fun a b => stage_iff) (keyParts new).2.1 (keyParts cur).2.1
  rw [stopsAt_eq]
  unfold keyOrder
  rw [Prod.Lex.toLex_le_toLex, partStop_iff sectionOrder, hplugin]
  · -- the sections are compared by their rank and then their name
    intro a b
    rw [stage_iff, stage_iff]
    unfold sectionOrder
    rw [Prod.Lex.toLex_lt_toLex, toLex_inj, Prod.mk.injEq]
    tauto

/-! ## The keys of the entries -/

/-- The keys of the entries. -/
def keys (this : ConfigValues) : List Str := this.entries.map CfgEntry.key

/-- The keys after one is added, unless it is there. -/
def insertKey (keys : List Str) (key : Str) : List Str :=
  if key ∈ keys then keys else keys.orderedInsert (fun a b => keyOrder a ≤ keyOrder b) key

section Keys

variable {this : ConfigValues} {key k : Str} {f : CfgEntry → CfgEntry} {ks : List Str}

theorem keys_add (unknown_value : Option Str) : keys (xineConfigAdd this key unknown_value) =
    (keys this).orderedInsert (fun a b => keyOrder a ≤ keyOrder b) key := by
  have hstop : ∀ cur : CfgEntry, (!stopsAt key cur.key) =
      decide ¬keyOrder key ≤ keyOrder cur.key := by
    intro cur
    rw [decide_not, ← Bool.decide_coe (stopsAt key cur.key), decide_eq_decide.2 (stopsAt_iff key cur.key)]
  unfold keys xineConfigAdd
  rw [List.orderedInsert_eq_take_drop, List.takeWhile_map, List.dropWhile_map, funext hstop]
  simp [newEntry, Function.comp_def]

theorem keys_setEntry (hf : ∀ entry, (f entry).key = entry.key) :
    keys (this.setEntry key f) = keys this := by
  have hmodify : ∀ entries : List CfgEntry,
      (modifyFirst key f entries).map CfgEntry.key = entries.map CfgEntry.key := by
    intro entries
    induction entries with
    | nil => rfl
    | cons entry entries ih =>
      unfold modifyFirst
      split_ifs
      · simp [hf]
      · simp [ih]
  exact hmodify this.entries

theorem lookup_eq_none_iff : lookupEntry this key = none ↔ key ∉ keys this := by
  unfold lookupEntry keys
  rw [List.find?_eq_none]
  simp

theorem keys_registerEntry (unknown_value : Option Str) (hf : ∀ entry, (f entry).key = entry.key) :
    keys (registerEntry this key unknown_value f) = insertKey (keys this) key := by
  unfold registerEntry insertKey
  simp only
  rw [keys_setEntry hf]
  by_cases hkey : key ∈ keys this
  · rw [if_pos hkey, if_neg fun hnone => lookup_eq_none_iff.1 hnone hkey]
  · rw [if_neg hkey, if_pos (lookup_eq_none_iff.2 hkey), keys_add]

theorem keys_loadSetting (value : Str) :
    keys (loadSetting this key value) = insertKey (keys this) key := by
  unfold loadSetting insertKey
  cases h : lookupEntry this key with
  | none => rw [if_neg (lookup_eq_none_iff.1 h), keys_add]
  | some entry =>
    have hkey : key ∈ keys this := by
      by_contra hnot
      rw [lookup_eq_none_iff.2 hnot] at h
      exact absurd h.symm (Option.some_ne_none _)
    obtain ⟨f, hf, -, heq⟩ := updateText_eq h value
    rw [if_pos hkey]
    change keys (updateText this entry value) = keys this
    rw [heq, keys_setEntry hf]

theorem mem_insertKey : k ∈ insertKey ks key ↔ k = key ∨ k ∈ ks := by
  unfold insertKey
  split_ifs with hkey
  · constructor
    · exact Or.inr
    · rintro (rfl | hk)
      · exact hkey
      · exact hk
  · exact List.mem_orderedInsert _

/-- The keys are strictly sorted. -/
def Ordered (ks : List Str) : Prop := ks.Pairwise fun a b => keyOrder a < keyOrder b

theorem Ordered.nodup (h : Ordered ks) : ks.Nodup := by
  refine List.Pairwise.imp (fun hlt heq => ?_) h
  rw [heq] at hlt
  exact lt_irrefl _ hlt

theorem Ordered.insertKey (h : Ordered ks) (key : Str) : Ordered (insertKey ks key) := by
  unfold Config.insertKey
  split_ifs with hkey
  · exact h
  · have : Std.Total fun a b : Str => keyOrder a ≤ keyOrder b := ⟨fun a b => le_total _ _⟩
    have : IsTrans Str fun a b => keyOrder a ≤ keyOrder b := ⟨fun a b c => le_trans⟩
    have hsorted : (ks.orderedInsert (fun a b => keyOrder a ≤ keyOrder b) key).Pairwise
        fun a b => keyOrder a ≤ keyOrder b :=
      List.Pairwise.orderedInsert key ks (h.imp le_of_lt)
    have hnodup : (ks.orderedInsert (fun a b => keyOrder a ≤ keyOrder b) key).Nodup := by
      rw [(List.perm_orderedInsert _ key ks).nodup_iff, List.nodup_cons]
      exact ⟨hkey, h.nodup⟩
    -- no two are equal
    refine (hsorted.and hnodup).imp fun ⟨hle, hne⟩ => lt_of_le_of_ne hle fun heq => ?_
    exact hne (keyOrder_injective heq)

theorem Ordered.foldl (h : Ordered ks) (inserted : List Str) :
    Ordered (inserted.foldl Config.insertKey ks) := by
  induction inserted generalizing ks with
  | nil => exact h
  | cons key inserted ih => exact ih (h.insertKey key)

theorem mem_foldl_insertKey {inserted : List Str} :
    k ∈ inserted.foldl insertKey ks ↔ k ∈ inserted ∨ k ∈ ks := by
  induction inserted generalizing ks with
  | nil => simp
  | cons key inserted ih =>
    rw [List.foldl_cons, ih, mem_insertKey, List.mem_cons]
    tauto

end Keys

/-! ## Registrations and loads -/

/-- The setting on a line, if it holds one. -/
def lineSetting (buffer : Str) : Option (Str × Str) :=
  let line := buffer.dropLast
  if line.head? = some '#' ∨ line.head? = some '.' then none else splitSetting line

/-- A registration or a load. -/
inductive Insertion where
  | register (registration : Registration)
  | load (text : Str)

/-- The keys that are inserted. -/
def Insertion.keys : Insertion → List Str
  | .register registration => [registration.key]
  | .load text => (Lines.fgetsAll lineSize text).filterMap fun buffer => (lineSetting buffer).map Prod.fst

/-- The configuration after a registration or a load. -/
def insertion (this : ConfigValues) : Insertion → ConfigValues
  | .register registration => register this registration
  | .load text => xineConfigLoad this text

section Insertions

variable {this : ConfigValues}

theorem keys_register (registration : Registration) :
    keys (register this registration) = insertKey (keys this) registration.key := by
  rw [register_eq]
  exact keys_registerEntry _ (fill_key registration)

theorem loadLine_entries (buffer : Str) : (loadLine this buffer).entries =
    (lineSetting buffer).elim this.entries fun setting => (loadSetting this setting.1 setting.2).entries := by
  unfold loadLine lineSetting
  simp only
  by_cases hcomment : buffer.dropLast.head? = some '#'
  · rw [if_pos hcomment, if_pos (Or.inl hcomment)]
    rfl
  · rw [if_neg hcomment]
    by_cases hdot : buffer.dropLast.head? = some '.'
    · rw [if_pos hdot, if_pos (Or.inr hdot)]
      split_ifs <;> rfl
    · rw [if_neg hdot, if_neg (not_or.2 ⟨hcomment, hdot⟩)]
      cases splitSetting buffer.dropLast with
      | none => rfl
      | some setting => rfl

theorem keys_loadLine (buffer : Str) : keys (loadLine this buffer) =
    ((lineSetting buffer).map Prod.fst).elim (keys this) (insertKey (keys this)) := by
  have hentries := @loadLine_entries this buffer
  unfold keys
  rw [hentries]
  cases lineSetting buffer with
  | none => rfl
  | some setting => exact keys_loadSetting setting.2

theorem keys_insertion (i : Insertion) : keys (insertion this i) = i.keys.foldl insertKey (keys this) := by
  cases i with
  | register registration => exact keys_register registration
  | load text =>
    have hload : ∀ (buffers : List Str) (this : ConfigValues), keys (buffers.foldl loadLine this) =
        (buffers.filterMap fun buffer => (lineSetting buffer).map Prod.fst).foldl insertKey (keys this) := by
      intro buffers
      induction buffers with
      | nil => exact fun _ => rfl
      | cons buffer buffers ih =>
        intro this
        rw [List.foldl_cons, ih, keys_loadLine]
        cases h : lineSetting buffer with
        | none => simp [h]
        | some setting => simp [h]
    exact hload _ this

theorem keys_insertions (insertions : List Insertion) : keys (insertions.foldl insertion this) =
    (insertions.flatMap Insertion.keys).foldl insertKey (keys this) := by
  induction insertions generalizing this with
  | nil => rfl
  | cons i insertions ih =>
    rw [List.foldl_cons, ih, keys_insertion, List.flatMap_cons, List.foldl_append]

end Insertions

end Xine.Config
