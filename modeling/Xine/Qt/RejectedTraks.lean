import Xine.Qt.MoovAtom

/-!
# A rejected trak stays

What `parse_trak_atom` returns is lost: a trak that it gives up is among the traks of the movie, with pointers to
memory that has been freed. A trak is given up when a table is there twice, or when there is no memory for one.
-/

namespace Xine.Qt

open Walks

/-- The tables that a trak may have once. The chunk offsets are of 32 or of 64 bits. -/
inductive TrakTable where
  | editList | sampleSize | syncSample | chunkOffset | sampleToChunk | timeToSample
  deriving DecidableEq

/-- The table of an atom. -/
def tableOf (atom : ℕ) : Option TrakTable :=
  if atom = elstAtom then some .editList
  else if atom = stszAtom then some .sampleSize
  else if atom = stssAtom then some .syncSample
  else if atom = stcoAtom ∨ atom = co64Atom then some .chunkOffset
  else if atom = stscAtom then some .sampleToChunk
  else if atom = sttsAtom then some .timeToSample
  else none

/-- The trak has the table. -/
def QtTrak.has (trak : QtTrak) : TrakTable → Bool
  | .editList => trak.edit_list_table.isSome
  | .sampleSize => trak.sample_size_table.isSome
  | .syncSample => trak.sync_sample_table.isSome
  | .chunkOffset => trak.chunk_offset_table.isSome
  | .sampleToChunk => trak.sample_to_chunk_table.isSome
  | .timeToSample => trak.time_to_sample_table.isSome

namespace TrakSource

variable {src : TrakSource} {trak : QtTrak} {i j : ℕ} {done rest : List ℕ}

/-- The table of the atom at an index. -/
def tableAt (src : TrakSource) (i : ℕ) : Option TrakTable := tableOf (src.be i).toNat

/-- There are two atoms for one table, and this is the second. -/
def Second (src : TrakSource) (j i : ℕ) : Prop := src.tableAt j = src.tableAt i ∧ (src.tableAt i).isSome

/-- The atom at an index asks for memory: one with a table of entries, or a sample description. -/
def Asks (src : TrakSource) (i : ℕ) : Prop :=
  (src.be i).toNat = stsdAtom ∨
    (src.tableAt i).isSome ∧ ((src.be i).toNat = stszAtom → src.be (i + 8) = 0)

/-- There is no memory for the atom at an index. There is none for a negative number of entries of a sample
description. -/
def Short (src : TrakSource) (i : ℕ) : Prop :=
  src.Asks i ∧ src.memory i = false ∨ (src.be i).toNat = stsdAtom ∧ 2 ^ 31 ≤ (src.be (i + 8)).toNat

/-- A table is there twice, or there is no memory for one. -/
def Rejects (src : TrakSource) : Prop :=
  ∃ i ∈ src.indexes, src.Short i ∨ ∃ j ∈ src.indexes, j < i ∧ src.Second j i

/-! ## One atom -/

/-- What an atom comes to: it is loaded, or the trak is rejected, or the code fails. -/
def AtomSpec (src : TrakSource) (trak : QtTrak) (i : ℕ) : Except TrakFailure QtTrak → Prop
  | .ok after => ¬src.Short i ∧ (∀ kind, src.tableAt i = some kind → trak.has kind = false) ∧
      ∀ kind, after.has kind = (trak.has kind || decide (src.tableAt i = some kind))
  | .error .fault => True
  | .error .headerTrouble => ∃ kind, src.tableAt i = some kind ∧ trak.has kind = true
  | .error .noMemory => src.Short i

theorem short_iff_of_table {kind : TrakTable} (htable : src.tableAt i = some kind)
    (hstsz : (src.be i).toNat = stszAtom → src.be (i + 8) = 0) : src.Short i ↔ src.memory i = false := by
  have hstsd : (src.be i).toNat ≠ stsdAtom := by
    intro h
    unfold tableAt at htable
    rw [h] at htable
    exact Option.some_ne_none kind htable.symm
  unfold Short Asks
  rw [htable]
  constructor
  · rintro (⟨-, h⟩ | ⟨h, -⟩)
    · exact h
    · exact absurd h hstsd
  · intro h
    exact .inl ⟨.inr ⟨rfl, hstsz⟩, h⟩

theorem loadOnce_spec {α : Type} {kind : TrakTable} (htable : src.tableAt i = some kind)
    (hstsz : (src.be i).toNat ≠ stszAtom) {table : Option (Table α)} (hhas : trak.has kind = table.isSome)
    {entry : ℕ → α} {store : Table α → QtTrak}
    (hstore : ∀ t other, (store t).has other = (trak.has other || decide (some kind = some other))) :
    src.AtomSpec trak i (src.loadOnce table i entry >>= fun t => .ok (store t)) := by
  have hshort := short_iff_of_table htable (fun h => absurd h hstsz)
  unfold loadOnce loadTable
  split_ifs with hsome hmem hcount
  · exact ⟨kind, htable, hhas.trans hsome⟩
  · exact hshort.2 hmem
  · refine ⟨fun h => hmem (hshort.1 h), ?_, fun other => ?_⟩
    · intro other hother
      obtain rfl := Option.some.inj (htable.symm.trans hother)
      exact hhas.trans (Bool.eq_false_iff.2 hsome)
    · rw [htable]
      exact hstore _ other
  · trivial

theorem loadStsz_spec (hatom : (src.be i).toNat = stszAtom) : src.AtomSpec trak i (src.loadStsz trak i) := by
  have htable : src.tableAt i = some .sampleSize := by
    unfold tableAt
    rw [hatom]
    rfl
  have hstore : ∀ other, (trak.has other || decide (src.tableAt i = some other)) =
      match other with
      | .sampleSize => true
      | other => trak.has other := by
    intro other
    rw [htable]
    cases other <;> simp
  unfold loadStsz
  dsimp only
  split_ifs with hsome hsize hmem hcount
  · exact ⟨_, htable, hsome⟩
  · exact (short_iff_of_table htable fun _ => hsize).2 hmem
  · refine ⟨fun h => hmem ((short_iff_of_table htable fun _ => hsize).1 h), fun other hother => ?_,
      fun other => ?_⟩
    · obtain rfl := Option.some.inj (htable.symm.trans hother)
      exact Bool.eq_false_iff.2 hsome
    · rw [hstore]
      cases other <;> rfl
  · trivial
  · refine ⟨?_, fun other hother => ?_, fun other => ?_⟩
    · -- the one size is there without memory
      rintro (⟨hstsd | ⟨-, h⟩, -⟩ | ⟨hstsd, -⟩)
      · exact absurd (hatom.symm.trans hstsd) (by decide)
      · exact hsize (h hatom)
      · exact absurd (hatom.symm.trans hstsd) (by decide)
    · obtain rfl := Option.some.inj (htable.symm.trans hother)
      exact Bool.eq_false_iff.2 hsome
    · rw [hstore]
      cases other <;> rfl

theorem tableAt_eq_none_of {atom : ℕ} (hatom : (src.be i).toNat = atom) (h : tableOf atom = none) :
    src.tableAt i = none := by
  unfold tableAt
  rw [hatom]
  exact h

theorem atomSpec_ok_of_none (htable : src.tableAt i = none) (hshort : ¬src.Short i) {after : QtTrak}
    (hhas : ∀ kind, after.has kind = trak.has kind) : src.AtomSpec trak i (.ok after) := by
  refine ⟨hshort, fun kind h => absurd (htable.symm.trans h) (Option.some_ne_none kind).symm, fun kind => ?_⟩
  rw [hhas, htable, decide_eq_false (Option.some_ne_none kind).symm, Bool.or_false]

theorem audioProperties_error {atom_pos size : Word} {failure : TrakFailure}
    (h : src.audioProperties atom_pos size = .error failure) : failure = .fault := by
  unfold audioProperties at h
  dsimp only at h
  split_ifs at h <;> exact (Except.error.inj h).symm

theorem stsdEntries_error {count : ℕ} {atom_pos : Word} {failure : TrakFailure}
    (h : src.stsdEntries count atom_pos = .error failure) : failure = .fault := by
  induction count generalizing atom_pos with
  | zero => exact nomatch h
  | succ k ih =>
    unfold stsdEntries at h
    dsimp only at h
    generalize BitVec.ofNat 32 (word src.mem (atom_pos - 4).toNat) = size at h
    cases hfirst : src.audioProperties atom_pos size with
    | error e =>
      rw [hfirst] at h
      obtain rfl := Except.error.inj h
      exact audioProperties_error hfirst
    | ok properties =>
      rw [hfirst] at h
      cases hrest : src.stsdEntries k (atom_pos + size) with
      | error e =>
        have herror : (Except.error e : Except TrakFailure (List AudioProperties)) = .error failure := by
          rw [← h]
          change _ = (src.stsdEntries k (atom_pos + size) >>= _)
          rw [hrest]
          rfl
        obtain rfl := Except.error.inj herror
        exact ih hrest
      | ok entries =>
        change (src.stsdEntries k (atom_pos + size) >>= _) = _ at h
        rw [hrest] at h
        exact nomatch h

theorem loadStsd_spec (hatom : (src.be i).toNat = stsdAtom) : src.AtomSpec trak i (src.loadStsd trak i) := by
  have htable := tableAt_eq_none_of hatom rfl
  unfold loadStsd
  dsimp only
  by_cases hcount : (src.be (i + 8)).toNat < 2 ^ 31
  · rw [dif_pos hcount]
    split_ifs with hmem htype
    · exact .inl ⟨.inl hatom, hmem⟩
    · have hshort : ¬src.Short i := by
        rintro (⟨-, h⟩ | ⟨-, h⟩)
        · exact hmem h
        · exact absurd hcount (Nat.not_lt.2 h)
      cases hentries : src.stsdEntries (src.be (i + 8)).toNat (BitVec.ofNat 32 (i + 0x10)) with
      | error failure =>
        obtain rfl := stsdEntries_error hentries
        trivial
      | ok entries => exact atomSpec_ok_of_none htable hshort fun kind => by cases kind <;> rfl
    · have hshort : ¬src.Short i := by
        rintro (⟨-, h⟩ | ⟨-, h⟩)
        · exact hmem h
        · exact absurd hcount (Nat.not_lt.2 h)
      exact atomSpec_ok_of_none htable hshort fun kind => by cases kind <;> rfl
  · rw [dif_neg hcount]
    exact .inr ⟨hatom, Nat.not_lt.1 hcount⟩

theorem not_short (htable : src.tableAt i = none) (hstsd : (src.be i).toNat ≠ stsdAtom) : ¬src.Short i := by
  rintro (⟨h | ⟨h, -⟩, -⟩ | ⟨h, -⟩)
  · exact hstsd h
  · rw [htable] at h
    exact Bool.false_ne_true h
  · exact hstsd h

theorem atomStep_spec : src.AtomSpec trak i (src.atomStep trak i) := by
  unfold atomStep
  dsimp only
  have htable {atom : ℕ} {kind : TrakTable} (hatom : (src.be i).toNat = atom) (h : tableOf atom = some kind) :
      src.tableAt i = some kind := by
    unfold tableAt
    rw [hatom]
    exact h
  have hother {atom : ℕ} (hatom : (src.be i).toNat = atom) (h : atom ≠ stszAtom) :
      (src.be i).toNat ≠ stszAtom := fun h' => h (hatom.symm.trans h')
  split_ifs with helst hmdhd hstsd hstsz hstss hstco hco64 hstsc hstts
  · exact loadOnce_spec (htable helst rfl) (hother helst (by decide)) rfl
      fun t other => by cases other <;> simp [QtTrak.has]
  · refine atomSpec_ok_of_none (tableAt_eq_none_of hmdhd rfl) ?_ fun kind => by cases kind <;> rfl
    exact not_short (tableAt_eq_none_of hmdhd rfl) fun h => absurd (hmdhd.symm.trans h) (by decide)
  · exact loadStsd_spec hstsd
  · exact loadStsz_spec hstsz
  · exact loadOnce_spec (htable hstss rfl) (hother hstss (by decide)) rfl
      fun t other => by cases other <;> simp [QtTrak.has]
  · exact loadOnce_spec (htable hstco rfl) (hother hstco (by decide)) rfl
      fun t other => by cases other <;> simp [QtTrak.has]
  · exact loadOnce_spec (htable hco64 rfl) (hother hco64 (by decide)) rfl
      fun t other => by cases other <;> simp [QtTrak.has]
  · exact loadOnce_spec (htable hstsc rfl) (hother hstsc (by decide)) rfl
      fun t other => by cases other <;> simp [QtTrak.has]
  · exact loadOnce_spec (htable hstts rfl) (hother hstts (by decide)) rfl
      fun t other => by cases other <;> simp [QtTrak.has]
  · have hnone : src.tableAt i = none := by
      unfold tableAt tableOf
      rw [if_neg helst, if_neg hstsz, if_neg hstss, if_neg (not_or.2 ⟨hstco, hco64⟩), if_neg hstsc,
        if_neg hstts]
    exact atomSpec_ok_of_none hnone (not_short hnone hstsd) fun _ => rfl

/-! ## All atoms of a trak -/

/-- One of the atoms, behind those that have been loaded, is a second one or has no memory. -/
def Troubled (src : TrakSource) (done : List ℕ) : List ℕ → Prop
  | [] => False
  | i :: rest => (src.Short i ∨ ∃ j ∈ done, src.Second j i) ∨ src.Troubled (done ++ [i]) rest

theorem troubled_iff (hsorted : (done ++ rest).Pairwise (· < ·)) :
    src.Troubled done rest ↔ ∃ i ∈ rest, src.Short i ∨ ∃ j ∈ done ++ rest, j < i ∧ src.Second j i := by
  induction rest generalizing done with
  | nil => exact ⟨False.elim, fun ⟨_, h, _⟩ => absurd h List.not_mem_nil⟩
  | cons i rest ih =>
    have hassoc : done ++ [i] ++ rest = done ++ i :: rest := by rw [List.append_assoc, List.singleton_append]
    have hbefore : ∀ j ∈ done ++ i :: rest, j < i → j ∈ done := by
      intro j hj hlt
      obtain hj | hj := List.mem_append.1 hj
      · exact hj
      · obtain ⟨-, hpairs, -⟩ := List.pairwise_append.1 hsorted
        obtain rfl | hj := List.mem_cons.1 hj
        · exact absurd hlt (lt_irrefl _)
        · exact absurd hlt (lt_asymm ((List.pairwise_cons.1 hpairs).1 j hj))
    have hdone : ∀ j ∈ done, j < i := fun j hj =>
      (List.pairwise_append.1 hsorted).2.2 j hj i List.mem_cons_self
    rw [Troubled, ih (hassoc ▸ hsorted), hassoc]
    rw [List.exists_mem_cons_iff]
    refine or_congr (or_congr_right ⟨?_, ?_⟩) Iff.rfl
    · rintro ⟨j, hj, hsecond⟩
      exact ⟨j, List.mem_append_left _ hj, hdone j hj, hsecond⟩
    · rintro ⟨j, hj, hlt, hsecond⟩
      exact ⟨j, hbefore j hj hlt, hsecond⟩

theorem troubled_indexes_iff : src.Troubled [] src.indexes ↔ src.Rejects :=
  troubled_iff List.pairwise_lt_range'

end TrakSource

namespace MoovSource

variable {src : MoovSource} {place : ℤ} {held : HeldTrak} {done rest : List ℕ} {i : ℤ} {info : QtInfo}

/-- The trak has the tables of the atoms that have been loaded. -/
def Has (trak : TrakSource) (held : HeldTrak) (done : List ℕ) : Prop :=
  ∀ kind, held.trak.has kind = true ↔ ∃ j ∈ done, trak.tableAt j = some kind

/-- What is left to be loaded of a trak atom decides on what it comes to. -/
def LoadSpec (trak : TrakSource) (done rest : List ℕ) : Except TrakParse HeldTrak → Prop
  | .ok _ => ¬trak.Troubled done rest
  | .error (.rejected ..) => trak.Troubled done rest
  | .error .crashed => True
  | .error (.loaded _) => False

theorem foldlM_trakStep_spec (hhas : Has (src.trakSource place) held done) :
    LoadSpec (src.trakSource place) done rest (rest.foldlM (src.trakStep place) held) := by
  induction rest generalizing held done with
  | nil => exact id
  | cons i rest ih =>
    rw [List.foldlM_cons]
    have hspec := @TrakSource.atomStep_spec (src.trakSource place) held.trak i
    unfold trakStep
    cases hatom : (src.trakSource place).atomStep held.trak i with
    | error failure =>
      rw [hatom] at hspec
      cases failure with
      | fault => trivial
      | headerTrouble =>
        obtain ⟨kind, htable, hkind⟩ := hspec
        obtain ⟨j, hj, hj'⟩ := (hhas kind).1 hkind
        exact .inl (.inr ⟨j, hj, hj'.trans htable.symm, by rw [htable]; rfl⟩)
      | noMemory =>
        have htrouble : (src.trakSource place).Troubled done (i :: rest) := .inl (.inl hspec)
        change LoadSpec _ _ _ (.error (src.freeTrak place held i .noMemory))
        unfold freeTrak
        dsimp only
        split_ifs
        · trivial
        · exact htrouble
        · exact htrouble
    | ok trak =>
      rw [hatom] at hspec
      obtain ⟨hshort, hnew, hafter⟩ := hspec
      cases hallocate : src.allocate place held i with
      | none => trivial
      | some tables =>
        have hfirst : ¬((src.trakSource place).Short i ∨ ∃ j ∈ done, (src.trakSource place).Second j i) := by
          rintro (h | ⟨j, hj, hsame, hsome⟩)
          · exact hshort h
          · obtain ⟨kind, hkind⟩ := Option.isSome_iff_exists.1 hsome
            exact absurd ((hhas kind).2 ⟨j, hj, hsame.trans hkind⟩) (Bool.eq_false_iff.1 (hnew kind hkind))
        have hnext : Has (src.trakSource place) ⟨trak, tables⟩ (done ++ [i]) := by
          intro kind
          rw [hafter kind, Bool.or_eq_true, hhas kind, decide_eq_true_iff]
          simp only [List.mem_append, List.mem_singleton, or_and_right, exists_or, exists_eq_left]
        have hrest := ih hnext
        change LoadSpec _ _ _ (rest.foldlM (src.trakStep place) ⟨trak, tables⟩)
        revert hrest
        cases rest.foldlM (src.trakStep place) ⟨trak, tables⟩ with
        | ok held => exact fun hrest h => h.elim hfirst hrest
        | error parse =>
          cases parse with
          | loaded held => exact id
          | rejected e held freed => exact .inr
          | crashed => exact id

theorem parseTrakAtom_spec : match src.parseTrakAtom place with
    | .loaded _ => ¬(src.trakSource place).Rejects
    | .rejected .. => (src.trakSource place).Rejects
    | .crashed => True := by
  have hnone : Has (src.trakSource place)
      ⟨TrakSource.initialTrak (src.trakSource place).mediaType, .initial⟩ [] := by
    intro kind
    constructor
    · intro h
      cases kind <;> exact absurd h Bool.false_ne_true
    · rintro ⟨j, hj, -⟩
      exact absurd hj List.not_mem_nil
  have hspec := @foldlM_trakStep_spec src place _ _ (src.trakSource place).indexes hnone
  rw [← TrakSource.troubled_indexes_iff]
  unfold parseTrakAtom
  dsimp only
  revert hspec
  generalize (src.trakSource place).indexes.foldlM (src.trakStep place) _ = result
  intro hspec
  cases result with
  | ok held => exact hspec
  | error parse =>
    cases parse with
    | loaded held => exact hspec.elim
    | rejected e held freed => exact hspec
    | crashed => trivial

/-! ## The loop over the moov atom -/

/-- What an iteration that goes on does. -/
structure Goes (src : MoovSource) (s t : MoovLoop) : Prop where
  scan : src.moov.scan s.i = some t.i
  last_error : t.info.last_error = s.info.last_error
  traks : s.info.traks <+: t.info.traks
  trak : word src.moov.mem s.i = trakAtom → src.parseTrakAtom (s.i - 4) ≠ .crashed
  rejected : word src.moov.mem s.i = trakAtom → ∀ e held freed,
    src.parseTrakAtom (s.i - 4) = .rejected e held freed → held ∈ t.info.traks

theorem trakRound_next {s t : MoovLoop} {j : ℤ} (hscan : src.moov.scan s.i = some j)
    (h : src.trakRound s.i j s.info = .next t) : Goes src s t := by
  unfold trakRound at h
  cases hparse : src.parseTrakAtom (s.i - 4) with
  | crashed =>
    rw [hparse] at h
    exact nomatch h
  | loaded held =>
    rw [hparse] at h
    dsimp only at h
    split_ifs at h
    obtain rfl := MoovRound.next.inj h
    exact ⟨hscan, rfl, List.prefix_append _ _, fun _ => by rw [hparse]; exact nofun,
      fun _ e held freed hrejected => nomatch hparse.symm.trans hrejected⟩
  | rejected e held freed =>
    rw [hparse] at h
    dsimp only at h
    split_ifs at h
    obtain rfl := MoovRound.next.inj h
    refine ⟨hscan, rfl, List.prefix_append _ _, fun _ => by rw [hparse]; exact nofun, ?_⟩
    intro _ e' held' freed' hrejected
    obtain ⟨-, rfl, -⟩ := TrakParse.rejected.inj (hparse.symm.trans hrejected)
    exact List.mem_append_right _ (List.mem_singleton_self _)

theorem goes_of_round {s t : MoovLoop} (h : src.round s = .next t) : Goes src s t := by
  unfold round at h
  cases hscan : src.moov.scan s.i with
  | none =>
    rw [hscan] at h
    exact nomatch h
  | some j =>
    rw [hscan] at h
    dsimp only at h
    split_ifs at h with hmvhd herror htrak
    · obtain rfl := MoovRound.next.inj h
      have hne : word src.moov.mem s.i ≠ trakAtom := fun h' => absurd (hmvhd.symm.trans h') (by decide)
      exact ⟨hscan, rfl, List.prefix_rfl, fun h' => absurd h' hne, fun h' => absurd h' hne⟩
    · exact trakRound_next hscan h
    · obtain rfl := MoovRound.next.inj h
      exact ⟨hscan, rfl, List.prefix_rfl, fun h' => absurd h' htrak, fun h' => absurd h' htrak⟩

theorem goes_of_step {s t : MoovLoop} (h : src.step s = some t) : Goes src s t := by
  unfold step at h
  cases hround : src.round s with
  | next u =>
    rw [hround] at h
    cases h
    exact goes_of_round hround
  | done info =>
    rw [hround] at h
    exact nomatch h
  | crashed =>
    rw [hround] at h
    exact nomatch h

theorem last_error_of_reaches {s : MoovLoop} (h : Reaches src.step start s) : s.info.last_error = .ok :=
  h.invariant (I := fun s => s.info.last_error = .ok) rfl fun _ _ hok _ hu =>
    (goes_of_step hu).last_error.trans hok

theorem done_of_round {s : MoovLoop} (hok : s.info.last_error = .ok) (h : src.round s = .done info) :
    src.moov.scan s.i = none ∧ info = s.info := by
  unfold round at h
  cases hscan : src.moov.scan s.i with
  | none =>
    rw [hscan] at h
    exact ⟨rfl, (MoovRound.done.inj h).symm⟩
  | some j =>
    rw [hscan] at h
    dsimp only at h
    split_ifs at h with hmvhd herror htrak
    · exact absurd hok herror
    · unfold trakRound at h
      cases hparse : src.parseTrakAtom (s.i - 4) <;> rw [hparse] at h <;> dsimp only at h
      · rw [if_neg (not_not.2 hok)] at h
        exact nomatch h
      · rw [if_neg (not_not.2 hok)] at h
        exact nomatch h
      · exact nomatch h

/-- The iteration parses a trak atom. -/
def Parses (src : MoovSource) (loop : MoovLoop) : Prop :=
  src.moov.Scans loop.i ∧ word src.moov.mem loop.i = trakAtom

/-- A trak that is rejected is not among the traks of the movie, nor does one of them refer to what was freed, and
there is an error. The traks before it are as they were. -/
def LeavesNothing (src : MoovSource) (info : QtInfo) : Prop :=
  ∀ loop last_error held freed, src.Comes loop → src.Parses loop →
    src.parseTrakAtom (loop.i - 4) = .rejected last_error held freed →
      held ∉ info.traks ∧ (∀ trak ∈ info.traks, ∀ block ∈ freed, block ∉ trak.tables.blocks) ∧
        info.last_error ≠ .ok ∧ loop.info.traks <+: info.traks

theorem exists_next {s : MoovLoop} (h : src.Collects info) (hs : src.Comes s) (hscan : src.moov.Scans s.i) :
    ∃ t, src.step s = some t ∧ t.info.traks <+: info.traks := by
  obtain ⟨hmoov, hreach⟩ := hs
  unfold Collects at h
  rw [if_pos hmoov] at h
  obtain ⟨last, hlast, hdone⟩ := h
  obtain ⟨hend, rfl⟩ := done_of_round (last_error_of_reaches hlast) hdone
  obtain ⟨u, hu, hbehind, rfl⟩ := hlast.follows (f := id) (fun _ _ h => h)
    (by unfold step; rw [id, hdone]) hreach
  -- the loop is not done here
  obtain rfl | ⟨t, ht, hrest⟩ := hbehind.cases_head
  · have hsome := MoovBuffer.isSome_scan_iff.2 hscan
    rw [id, hend] at hsome
    exact absurd hsome Bool.false_ne_true
  · have hprefix : t.info.traks <+: last.info.traks := by
      refine Reaches.invariant (I := fun s => t.info.traks <+: s.info.traks) List.prefix_rfl ?_ hrest
      exact fun _ _ hprefix _ hv => hprefix.trans (goes_of_step hv).traks
    exact ⟨t, ht, hprefix⟩

/-- A trak that is rejected leaves nothing if and only if there is none. -/
theorem leavesNothing_iff (h : src.Collects info) :
    src.LeavesNothing info ↔ (src.moov.IsMoov → ∀ i, Reaches src.moov.scan atomPreambleSize i →
      src.moov.Scans i → word src.moov.mem i = trakAtom → ¬(src.trakSource (i - 4)).Rejects) := by
  constructor
  · intro hnothing hmoov i hi hscans htrak hrejects
    have hcollects := h
    unfold Collects at h
    rw [if_pos hmoov] at h
    obtain ⟨last, hlast, hdone⟩ := h
    obtain ⟨hend, -⟩ := done_of_round (last_error_of_reaches hlast) hdone
    obtain ⟨s, hs, -, rfl⟩ := hlast.follows (f := MoovLoop.i) (fun _ _ hu => (goes_of_step hu).scan) hend hi
    obtain ⟨t, ht, hprefix⟩ := exists_next hcollects ⟨hmoov, hs⟩ hscans
    have hgoes := goes_of_step ht
    have hspec := @parseTrakAtom_spec src (s.i - 4)
    cases hparse : src.parseTrakAtom (s.i - 4) with
    | loaded held =>
      rw [hparse] at hspec
      exact hspec hrejects
    | rejected last_error held freed =>
      have hmem := hprefix.subset (hgoes.rejected htrak last_error held freed hparse)
      exact (hnothing s last_error held freed ⟨hmoov, hs⟩ ⟨hscans, htrak⟩ hparse).1 hmem
    | crashed => exact hgoes.trak htrak hparse
  · intro hnone s last_error held freed hs hparses hparse
    have hreach : Reaches src.moov.scan atomPreambleSize s.i := by
      refine hs.2.invariant (I := fun s => Reaches src.moov.scan atomPreambleSize s.i) reaches_refl ?_
      exact fun _ _ hreach _ hu => hreach.next (goes_of_step hu).scan
    have hspec := @parseTrakAtom_spec src (s.i - 4)
    rw [hparse] at hspec
    exact absurd hspec (hnone hs.1 s.i hreach hparses.1 hparses.2)

end MoovSource

/-- A moov atom that has a trak atom with two tables of chunk offsets. -/
def twoOffsets : MoovSource where
  x86 := true
  bigEndian := false
  moov := ⟨fun i => [0, 0, 0, 56, 0x6d, 0x6f, 0x6f, 0x76, 0, 0, 0, 48, 0x74, 0x72, 0x61, 0x6b, 0, 0, 0, 20, 0x73, 0x74,
    0x63, 0x6f, 0, 0, 0, 0, 0, 0, 0, 1, 0, 0, 0, 0, 0, 0, 0, 20, 0x73, 0x74, 0x63, 0x6f, 0, 0, 0, 0, 0, 0, 0, 0, 0, 0, 0,
    0].getD i.toNat 0, 56⟩
  memory _ _ _ := true

theorem twoOffsets_parse :
    ∃ held freed, twoOffsets.parseTrakAtom 8 = .rejected .headerTrouble held freed := ⟨_, _, rfl⟩

theorem twoOffsets_collects : ∃ held freed, twoOffsets.parseTrakAtom 8 = .rejected .headerTrouble held freed ∧
    twoOffsets.Comes ⟨12, .create⟩ ∧ twoOffsets.Collects { QtInfo.create with traks := [held] } := by
  obtain ⟨held, freed, hparse⟩ := twoOffsets_parse
  have hmoov : twoOffsets.moov.IsMoov := by decide
  have hcomes : Reaches twoOffsets.step MoovSource.start ⟨12, .create⟩ :=
    Reaches.first (t := ⟨9, .create⟩) rfl (Reaches.first (t := ⟨10, .create⟩) rfl
      (Reaches.first (t := ⟨11, .create⟩) rfl (Reaches.first (t := ⟨12, .create⟩) rfl reaches_refl)))
  have hround : twoOffsets.round ⟨12, .create⟩ = .next ⟨57, { QtInfo.create with traks := [held] }⟩ := by
    change (match twoOffsets.parseTrakAtom 8 with
      | .loaded held | .rejected _ held _ => MoovRound.next ⟨57, { QtInfo.create with traks := [held] }⟩
      | .crashed => .crashed) = _
    rw [hparse]
  have hstep : twoOffsets.step ⟨12, .create⟩ = some ⟨57, { QtInfo.create with traks := [held] }⟩ := by
    unfold MoovSource.step
    rw [hround]
  refine ⟨held, freed, hparse, ⟨hmoov, hcomes⟩, ?_⟩
  unfold MoovSource.Collects
  rw [if_pos hmoov]
  exact ⟨_, hcomes.next hstep, rfl⟩

/-- The trak that is given up is there, without an error. -/
theorem twoOffsets_left : ∃ info, twoOffsets.Collects info ∧ ¬twoOffsets.LeavesNothing info := by
  obtain ⟨held, freed, hparse, hcomes, hcollects⟩ := twoOffsets_collects
  refine ⟨_, hcollects, fun h => ?_⟩
  have hleft := h _ _ _ _ hcomes ⟨by decide, by decide⟩ hparse
  exact hleft.2.2.1 rfl

/-- The condition is that of what comes out for it. -/
theorem leavesNothing_iff_twoOffsets : ∃ info, twoOffsets.Collects info ∧
    (twoOffsets.LeavesNothing info ↔ (twoOffsets.moov.IsMoov →
      ∀ i, Reaches twoOffsets.moov.scan atomPreambleSize i → twoOffsets.moov.Scans i →
        word twoOffsets.moov.mem i = trakAtom → ¬(twoOffsets.trakSource (i - 4)).Rejects)) := by
  obtain ⟨held, freed, hparse, hcomes, hcollects⟩ := twoOffsets_collects
  exact ⟨_, hcollects, MoovSource.leavesNothing_iff hcollects⟩

end Xine.Qt
