import Xine.Config.Order
import Xine.Library.Chain

/-!
# The links of the entries

The list of the entries as `configfile.c` keeps it: `first` and `last` of `config_values_t`,
and `next` of each `cfg_entry_t`. An entry in memory is named by its number among those allocated. A loop over the
list that does not end is `none`.

The configuration of `Xine.Config.Lookup` is what these pointers represent: a registration or a load does to the
entries on the list what it does there.
-/

namespace Xine.Config

/-! ## The pointers -/

/-- `config_values_t`, with the memory of the entries. -/
structure LinkedValues where
  first : Option ℕ
  last : Option ℕ
  next : ℕ → Option ℕ
  entry : ℕ → CfgEntry
  /-- The entries allocated. -/
  allocated : ℕ
  current_version : ℤ

namespace LinkedValues

/-- After `xine_config_init`. -/
def init : LinkedValues := ⟨none, none, fun _ => none, fun _ => newEntry [] none, 0, 0⟩

/-- The loop over the list, which stops at the first entry that meets `stop`: it and the one before. -/
def loop (this : LinkedValues) (stop : CfgEntry → Bool) : Option (Option ℕ × Option ℕ) :=
  Chain.search this.next (fun cur => stop (this.entry cur)) (this.allocated + 1) none this.first

/-- A new entry, linked between the pointers `prev` and `cur`. -/
def link (this : LinkedValues) (entry : CfgEntry) (prev cur : Option ℕ) : LinkedValues :=
  { this with
    entry := Function.update this.entry this.allocated entry
    allocated := this.allocated + 1
    next := Chain.insertNext this.next prev cur this.allocated
    last := if cur = none then some this.allocated else this.last
    first := if prev = none then some this.allocated else this.first }

/-- `xine_config_add`, and the assignment to `unknown_value` after it, with the new entry. -/
def xineConfigAdd (this : LinkedValues) (key : Str) (unknown_value : Option Str) :
    Option (LinkedValues × ℕ) :=
  -- search right position
  (this.loop fun cur => stopsAt key cur.key).map fun (prev, cur) =>
    (this.link (newEntry key unknown_value) prev cur, this.allocated)

/-- `_xine_config_lookup_entry`. -/
def lookupEntry (this : LinkedValues) (key : Str) : Option (Option ℕ) :=
  (this.loop fun entry => decide (entry.key = key)).map Prod.snd

/-- Assignments to an entry. -/
def modify (this : LinkedValues) (entry : ℕ) (f : CfgEntry → CfgEntry) : LinkedValues :=
  { this with entry := Function.update this.entry entry (f (this.entry entry)) }

/-- Assignments to the entry that `_xine_config_lookup_entry` finds. -/
def setEntry (this : LinkedValues) (key : Str) (f : CfgEntry → CfgEntry) : Option LinkedValues :=
  (this.lookupEntry key).map fun
    | some entry => this.modify entry f
    | none => this

/-- Registration: the entry is created if it does not exist, and then assigned to. -/
def registerEntry (this : LinkedValues) (key : Str) (unknown_value : Option Str)
    (f : CfgEntry → CfgEntry) : Option LinkedValues :=
  (this.lookupEntry key).bind fun
    | some entry => some (this.modify entry f)
    | none => (this.xineConfigAdd key unknown_value).map fun (this, entry) => this.modify entry f

/-- `xine_config_update_num`. -/
def updateNum (this : LinkedValues) (key : Str) (value : ℤ) : Option LinkedValues :=
  this.setEntry key fun entry =>
    if entry.type = .unknown ∨ entry.type = .string then entry else { entry with num_value := value }

/-- `xine_config_update_string`. -/
def updateString (this : LinkedValues) (key value : Str) : Option LinkedValues :=
  this.setEntry key fun entry =>
    if entry.type ≠ .string then entry else { entry with str_value := some value }

/-- The update of an existing entry from a text, by its type. -/
def updateText (this : LinkedValues) (entry : ℕ) (value : Str) : Option LinkedValues :=
  match (this.entry entry).type with
  | .range | .enum | .num | .bool => this.updateNum (this.entry entry).key (atoi value)
  | .string => this.updateString (this.entry entry).key value
  | .unknown => some (this.modify entry fun entry => { entry with unknown_value := some value })

/-- A setting that is loaded. -/
def loadSetting (this : LinkedValues) (key value : Str) : Option LinkedValues :=
  (this.lookupEntry key).bind fun
    | none => (this.xineConfigAdd key (some value)).map Prod.fst
    | some entry => this.updateText entry value

/-- What `xine_config_load` does with the contents of its buffer. -/
def loadLine (this : LinkedValues) (buffer : Str) : Option LinkedValues :=
  -- eliminate lf
  let line := buffer.dropLast
  if line.head? = some '#' then some this
  else if line.head? = some '.' then
    if ".version:".toList.isPrefixOf line then
      some { this with current_version := (sscanfInt (line.drop 9)).getD this.current_version }
    else some this
  else
    match splitSetting line with
    | some (key, value) => this.loadSetting key value
    | none => some this

def xineConfigLoad (this : LinkedValues) (text : Str) : Option LinkedValues :=
  (Lines.fgetsAll lineSize text).foldlM loadLine this

end LinkedValues

/-- The pointers after a registration or a load. -/
def LinkedValues.insertion (this : LinkedValues) : Insertion → Option LinkedValues
  | .register registration =>
    this.registerEntry registration.key registration.unknown_value registration.fill
  | .load text => this.xineConfigLoad text

/-! ## What the pointers represent -/

/-- The pointers are consistent, and lead through all entries allocated, in the order of `values`. -/
structure Represents (this : LinkedValues) (values : ConfigValues) (refs : List ℕ) : Prop where
  queue : Chain.Queue this.next this.first this.last refs
  lt_allocated : ∀ ref ∈ refs, ref < this.allocated
  length : refs.length = this.allocated
  entries : values.entries = refs.map this.entry
  current_version : values.current_version = this.current_version

namespace Represents

variable {this : LinkedValues} {values : ConfigValues} {refs : List ℕ} {key : Str}
  {f : CfgEntry → CfgEntry}

theorem init : Represents LinkedValues.init xineConfigInit [] :=
  ⟨Chain.queue_nil, fun _ href => absurd href List.not_mem_nil, rfl, rfl, rfl⟩

theorem loop (h : Represents this values refs) (stop : CfgEntry → Bool) : this.loop stop =
    some ((refs.takeWhile fun cur => !stop (this.entry cur)).getLast?,
      (refs.dropWhile fun cur => !stop (this.entry cur)).head?) := by
  have hfuel : refs.length < this.allocated + 1 := by
    rw [h.length]
    exact Nat.lt_succ_self _
  unfold LinkedValues.loop
  rw [Chain.search_linked _ h.queue.linked hfuel, Option.or_none]

theorem lookup (h : Represents this values refs) (key : Str) :
    this.lookupEntry key = some (refs.find? fun ref => decide ((this.entry ref).key = key)) := by
  unfold LinkedValues.lookupEntry
  rw [h.loop, Option.map_some, ← List.find?_eq_head?_dropWhile_not]

theorem lookup_values (h : Represents this values refs) (key : Str) : lookupEntry values key =
    (refs.find? fun ref => decide ((this.entry ref).key = key)).map this.entry := by
  unfold lookupEntry
  rw [h.entries, List.find?_map]
  rfl

theorem modify {ref : ℕ} (h : Represents this values refs)
    (hfind : refs.find? (fun ref => decide ((this.entry ref).key = key)) = some ref) :
    Represents (this.modify ref f) (values.setEntry key f) refs := by
  have hmap : ∀ rs : List ℕ, rs.Nodup →
      rs.find? (fun ref => decide ((this.entry ref).key = key)) = some ref →
      modifyFirst key f (rs.map this.entry) = rs.map (this.modify ref f).entry := by
    intro rs hnd hrs
    induction rs with
    | nil => exact absurd hrs (by simp)
    | cons r rs ih =>
      obtain ⟨hr, hnd⟩ := List.nodup_cons.1 hnd
      rw [List.map_cons, List.map_cons]
      unfold modifyFirst
      by_cases hkey : (this.entry r).key = key
      · obtain rfl : r = ref := by simpa [hkey] using hrs
        rw [if_pos hkey]
        -- the others are other entries
        have hrest : rs.map (this.modify r f).entry = rs.map this.entry :=
          List.map_congr_left fun c hc => Function.update_of_ne (ne_of_mem_of_not_mem hc hr) _ _
        rw [hrest]
        simp [LinkedValues.modify]
      · have hrs : rs.find? (fun ref => decide ((this.entry ref).key = key)) = some ref := by
          simpa [hkey] using hrs
        have hne : r ≠ ref := by
          rintro rfl
          exact hr (List.mem_of_find?_eq_some hrs)
        rw [if_neg hkey, ih hnd hrs]
        simp [LinkedValues.modify, hne]
  refine ⟨h.queue, h.lt_allocated, h.length, ?_, h.current_version⟩
  unfold ConfigValues.setEntry
  simp only
  rw [h.entries, hmap refs h.queue.linked.nodup hfind]

theorem allocated_notMem (h : Represents this values refs) : this.allocated ∉ refs :=
  fun hmem => lt_irrefl _ (h.lt_allocated _ hmem)

theorem map_update (h : Represents this values refs) (entry : CfgEntry) {rs : List ℕ}
    (hrs : ∀ r ∈ rs, r ∈ refs) :
    rs.map (Function.update this.entry this.allocated entry) = rs.map this.entry := by
  refine List.map_congr_left fun r hr => Function.update_of_ne ?_ _ _
  exact ne_of_mem_of_not_mem (hrs r hr) h.allocated_notMem

theorem link {rs ss : List ℕ} (h : Represents this values (rs ++ ss)) (entry : CfgEntry) :
    Represents (this.link entry rs.getLast? ss.head?)
      { values with entries := rs.map this.entry ++ entry :: ss.map this.entry }
      (rs ++ this.allocated :: ss) := by
  refine ⟨h.queue.insert h.allocated_notMem, fun ref href => ?_, ?_, ?_, h.current_version⟩
  · have hle : ref ∈ rs ++ ss ∨ ref = this.allocated := by
      rcases List.mem_append.1 href with hrs | hss
      · exact Or.inl (List.mem_append_left _ hrs)
      · rcases List.mem_cons.1 hss with heq | hss
        · exact Or.inr heq
        · exact Or.inl (List.mem_append_right _ hss)
    rcases hle with hmem | rfl
    · exact Nat.lt_succ_of_lt (h.lt_allocated ref hmem)
    · exact Nat.lt_succ_self _
  · have hlength := h.length
    simp only [LinkedValues.link, List.length_append, List.length_cons] at hlength ⊢
    omega
  · simp only [LinkedValues.link]
    rw [List.map_append, List.map_cons, Function.update_self,
      h.map_update entry fun r hr => List.mem_append_left _ hr,
      h.map_update entry fun r hr => List.mem_append_right _ hr]

theorem add (h : Represents this values refs) (unknown_value : Option Str)
    (hnone : lookupEntry values key = none) : ∃ this' refs',
      this.xineConfigAdd key unknown_value = some (this', this.allocated) ∧
      Represents this' (xineConfigAdd values key unknown_value) refs' ∧
      refs'.find? (fun ref => decide ((this'.entry ref).key = key)) = some this.allocated := by
  obtain ⟨rs, hrs⟩ : ∃ rs, rs = refs.takeWhile fun cur => !stopsAt key (this.entry cur).key :=
    ⟨_, rfl⟩
  obtain ⟨ss, hss⟩ : ∃ ss, ss = refs.dropWhile fun cur => !stopsAt key (this.entry cur).key :=
    ⟨_, rfl⟩
  have hsplit : refs = rs ++ ss := by rw [hrs, hss, List.takeWhile_append_dropWhile]
  have hvalues : xineConfigAdd values key unknown_value =
      { values with
        entries := rs.map this.entry ++ newEntry key unknown_value :: ss.map this.entry } := by
    unfold xineConfigAdd
    rw [h.entries, List.takeWhile_map, List.dropWhile_map, hrs, hss]
    rfl
  refine ⟨this.link (newEntry key unknown_value) rs.getLast? ss.head?, rs ++ this.allocated :: ss, ?_, ?_,
    ?_⟩
  · unfold LinkedValues.xineConfigAdd
    rw [h.loop, Option.map_some, ← hrs, ← hss]
  · rw [hvalues]
    exact Represents.link (hsplit ▸ h) _
  · -- no entry before the new one has the key
    have hothers : ∀ ref ∈ rs, (this.entry ref).key ≠ key := by
      intro ref href
      have hmem : this.entry ref ∈ values.entries := by
        rw [h.entries, hsplit]
        exact List.mem_map_of_mem (List.mem_append_left _ href)
      unfold lookupEntry at hnone
      simpa using List.find?_eq_none.1 hnone _ hmem
    rw [List.find?_append, List.find?_eq_none.2 fun ref href => ?_]
    · simp [LinkedValues.link, newEntry]
    · have hne : ref ≠ this.allocated :=
        ne_of_mem_of_not_mem (hsplit ▸ List.mem_append_left ss href) h.allocated_notMem
      simpa [LinkedValues.link, hne] using hothers ref href

theorem setEntry (h : Represents this values refs) (key : Str) (f : CfgEntry → CfgEntry) :
    ∃ this', this.setEntry key f = some this' ∧ Represents this' (values.setEntry key f) refs := by
  unfold LinkedValues.setEntry
  rw [h.lookup, Option.map_some]
  cases hfind : refs.find? fun ref => decide ((this.entry ref).key = key) with
  | some ref => exact ⟨_, rfl, h.modify hfind⟩
  | none =>
    refine ⟨this, rfl, ?_⟩
    have hnone : lookupEntry values key = none := by rw [h.lookup_values, hfind, Option.map_none]
    rw [setEntry_of_none hnone]
    exact h

theorem registerEntry (h : Represents this values refs) (key : Str) (unknown_value : Option Str)
    (f : CfgEntry → CfgEntry) : ∃ this' refs', this.registerEntry key unknown_value f = some this' ∧
      Represents this' (registerEntry values key unknown_value f) refs' := by
  unfold LinkedValues.registerEntry Config.registerEntry
  rw [h.lookup, Option.bind_some]
  cases hfind : refs.find? fun ref => decide ((this.entry ref).key = key) with
  | some ref =>
    have hsome : lookupEntry values key ≠ none := by
      rw [h.lookup_values, hfind]
      exact Option.some_ne_none _
    refine ⟨_, refs, rfl, ?_⟩
    simp only
    rw [if_neg hsome]
    exact h.modify hfind
  | none =>
    have hnone : lookupEntry values key = none := by rw [h.lookup_values, hfind, Option.map_none]
    obtain ⟨this', refs', hadd, hrep, hnew⟩ := h.add unknown_value hnone
    refine ⟨_, refs', by rw [hadd, Option.map_some], ?_⟩
    simp only
    rw [if_pos hnone]
    exact hrep.modify hnew

theorem loadSetting (h : Represents this values refs) (key value : Str) : ∃ this' refs',
    this.loadSetting key value = some this' ∧ Represents this' (loadSetting values key value) refs' := by
  unfold LinkedValues.loadSetting Config.loadSetting
  have hvalues := h.lookup_values key
  rw [h.lookup, Option.bind_some]
  cases hfind : refs.find? fun ref => decide ((this.entry ref).key = key) with
  | none =>
    have hnone : lookupEntry values key = none := by rw [hvalues, hfind, Option.map_none]
    obtain ⟨this', refs', hadd, hrep, -⟩ := h.add (some value) hnone
    refine ⟨this', refs', by rw [hadd, Option.map_some], ?_⟩
    rw [hnone]
    exact hrep
  | some ref =>
    rw [hvalues, hfind, Option.map_some]
    simp only
    unfold LinkedValues.updateText updateText
    have hkey : (this.entry ref).key = key := by simpa using List.find?_some hfind
    cases htype : (this.entry ref).type with
    | unknown => exact ⟨_, refs, rfl, h.modify (hkey ▸ hfind)⟩
    | string =>
      obtain ⟨this', hset, hrep⟩ := h.setEntry (this.entry ref).key _
      exact ⟨this', refs, hset, hrep⟩
    | _ =>
      obtain ⟨this', hset, hrep⟩ := h.setEntry (this.entry ref).key _
      exact ⟨this', refs, hset, hrep⟩

theorem loadLine (h : Represents this values refs) (buffer : Str) : ∃ this' refs',
    this.loadLine buffer = some this' ∧ Represents this' (loadLine values buffer) refs' := by
  unfold LinkedValues.loadLine Config.loadLine
  simp only
  split_ifs
  · exact ⟨this, refs, rfl, h⟩
  · refine ⟨_, refs, rfl, h.queue, h.lt_allocated, h.length, h.entries, ?_⟩
    simp only
    rw [h.current_version]
  · exact ⟨this, refs, rfl, h⟩
  · cases splitSetting buffer.dropLast with
    | none => exact ⟨this, refs, rfl, h⟩
    | some setting => exact h.loadSetting setting.1 setting.2

theorem loadLines (h : Represents this values refs) (buffers : List Str) : ∃ this' refs',
    buffers.foldlM LinkedValues.loadLine this = some this' ∧
      Represents this' (buffers.foldl Config.loadLine values) refs' := by
  induction buffers generalizing this values refs with
  | nil => exact ⟨this, refs, rfl, h⟩
  | cons buffer buffers ih =>
    obtain ⟨this', refs', hline, hrep⟩ := h.loadLine buffer
    rw [List.foldlM_cons, List.foldl_cons, hline]
    exact ih hrep

theorem insertion (h : Represents this values refs) (i : Insertion) : ∃ this' refs',
    this.insertion i = some this' ∧ Represents this' (insertion values i) refs' := by
  cases i with
  | register registration =>
    obtain ⟨this', refs', hregister, hrep⟩ := h.registerEntry registration.key
      registration.unknown_value registration.fill
    rw [← register_eq] at hrep
    exact ⟨this', refs', hregister, hrep⟩
  | load text => exact h.loadLines (Lines.fgetsAll lineSize text)

theorem run (h : Represents this values refs) (insertions : List Insertion) : ∃ this' refs',
    Runs.run LinkedValues.insertion this insertions = some this' ∧
      Represents this' (insertions.foldl Config.insertion values) refs' := by
  induction insertions generalizing this values refs with
  | nil => exact ⟨this, refs, rfl, h⟩
  | cons i insertions ih =>
    obtain ⟨this', refs', hi, hrep⟩ := h.insertion i
    obtain ⟨this'', refs'', hrun, hrep⟩ := ih hrep
    exact ⟨this'', refs'', Runs.run_cons_eq_some.2 ⟨this', hi, hrun⟩, hrep⟩

end Represents

/-! ## Every run -/

/-- After any sequence of registrations and loads: the pointers are consistent; each key inserted is on the
list once, and no other; the keys are strictly sorted; and for each key inserted an entry is found. -/
theorem insertions_list (insertions : List Insertion) : ∃ this refs,
    Runs.run LinkedValues.insertion LinkedValues.init insertions = some this ∧
    Chain.Queue this.next this.first this.last refs ∧
    (∀ key, (refs.map fun ref => (this.entry ref).key).count key =
      if key ∈ insertions.flatMap Insertion.keys then 1 else 0) ∧
    (refs.map fun ref => keyOrder (this.entry ref).key).Pairwise (· < ·) ∧
    ∀ key ∈ insertions.flatMap Insertion.keys, ∃ ref ∈ refs,
      this.lookupEntry key = some (some ref) ∧ (this.entry ref).key = key := by
  obtain ⟨this, refs, hrun, hrep⟩ := Represents.init.run insertions
  have hkeys : refs.map (fun ref => (this.entry ref).key) =
      (insertions.flatMap Insertion.keys).foldl insertKey [] := by
    calc refs.map (fun ref => (this.entry ref).key)
        = keys (insertions.foldl insertion xineConfigInit) := by
          unfold keys
          rw [hrep.entries, List.map_map]
          rfl
      _ = (insertions.flatMap Insertion.keys).foldl insertKey [] := keys_insertions insertions
  have hordered : Ordered (refs.map fun ref => (this.entry ref).key) := by
    rw [hkeys]
    exact Ordered.foldl List.Pairwise.nil _
  have hmem : ∀ key, key ∈ refs.map (fun ref => (this.entry ref).key) ↔
      key ∈ insertions.flatMap Insertion.keys := by
    intro key
    rw [hkeys, mem_foldl_insertKey]
    simp
  refine ⟨this, refs, hrun, hrep.queue, fun key => ?_, ?_, fun key hkey => ?_⟩
  · rw [hordered.nodup.count]
    simp only [hmem]
  · have hmap : refs.map (fun ref => keyOrder (this.entry ref).key) =
        (refs.map fun ref => (this.entry ref).key).map keyOrder := by
      rw [List.map_map]
      rfl
    rw [hmap]
    exact List.pairwise_map.2 hordered
  · cases hfind : refs.find? fun ref => decide ((this.entry ref).key = key) with
    | some ref =>
      refine ⟨ref, List.mem_of_find?_eq_some hfind, by rw [hrep.lookup, hfind], ?_⟩
      simpa using List.find?_some hfind
    | none =>
      -- the key is on the list
      obtain ⟨ref, href, rfl⟩ := List.mem_map.1 ((hmem key).2 hkey)
      have hne := List.find?_eq_none.1 hfind ref href
      exact absurd (decide_eq_true rfl) hne

theorem Ordered.eq_of_mem {ks ks' : List Str} (h : Ordered ks) (h' : Ordered ks') (hmem : ∀ k, k ∈ ks ↔ k ∈ ks') :
    ks = ks' :=
  ((List.perm_ext_iff_of_nodup h.nodup h'.nodup).2 hmem).eq_of_pairwise
    (fun _ _ _ _ hlt hgt => absurd hgt (lt_asymm hlt)) h h'

/-- The order of the registrations and loads, and how often a key comes, make no difference to the order of the list. -/
theorem insertions_order {insertions insertions' : List Insertion}
    (h : ∀ key, key ∈ insertions.flatMap Insertion.keys ↔ key ∈ insertions'.flatMap Insertion.keys) :
    ∃ this refs this' refs', Runs.run LinkedValues.insertion LinkedValues.init insertions = some this ∧
      Runs.run LinkedValues.insertion LinkedValues.init insertions' = some this' ∧
      Chain.Queue this.next this.first this.last refs ∧ Chain.Queue this'.next this'.first this'.last refs' ∧
      refs.map (fun ref => (this.entry ref).key) = refs'.map fun ref => (this'.entry ref).key := by
  have hkeys {this values refs} (hrep : Represents this values refs) :
      refs.map (fun ref => (this.entry ref).key) = keys values := by
    rw [keys, hrep.entries, List.map_map]
    rfl
  obtain ⟨this, refs, hrun, hrep⟩ := Represents.init.run insertions
  obtain ⟨this', refs', hrun', hrep'⟩ := Represents.init.run insertions'
  refine ⟨this, refs, this', refs', hrun, hrun', hrep.queue, hrep'.queue, ?_⟩
  rw [hkeys hrep, hkeys hrep', keys_insertions, keys_insertions]
  refine (Ordered.foldl List.Pairwise.nil _).eq_of_mem (Ordered.foldl List.Pairwise.nil _) fun key => ?_
  rw [mem_foldl_insertKey, mem_foldl_insertKey, h]
  exact Iff.rfl

/-- Two entries in either order. -/
theorem insertions_order_two : ∃ this refs this' refs',
    Runs.run LinkedValues.insertion LinkedValues.init [.register saveDirRegistration, .load "a:1\n".toList] = some this ∧
      Runs.run LinkedValues.insertion LinkedValues.init [.load "a:1\n".toList, .register saveDirRegistration] = some this' ∧
      Chain.Queue this.next this.first this.last refs ∧ Chain.Queue this'.next this'.first this'.last refs' ∧
      refs.map (fun ref => (this.entry ref).key) = refs'.map fun ref => (this'.entry ref).key :=
  insertions_order fun key => by
    simp only [List.flatMap_cons, List.flatMap_nil, List.append_nil, List.mem_append]
    exact Or.comm

end Xine.Config
