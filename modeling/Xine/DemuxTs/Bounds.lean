import Xine.DemuxTs.Demuxer

/-!
# The tables of the demuxer stay in bounds

No index is outside its table, as long as a table that is full does not have to take one more entry and the search
for a program that is not there finds a free entry.
-/

namespace Xine.DemuxTs

variable {d t : Demuxer} {p : Packet} {e : Es} {c : Demuxer.Chunk} {ch : ℤ}
  {x y : Except Fault Demuxer} {r r' : Prop} {mediaIndex pid descriptor : ℕ}

/-- What a step comes to, when `room` is the condition for its indexes. -/
def Outcome (room : Prop) (Inv : Demuxer → Prop) : Except Fault Demuxer → Prop
  | .ok t => room ∧ Inv t
  | .error .table => ¬room
  | .error .memory => room

namespace Outcome

variable {Inv Inv' : Demuxer → Prop} {f : Demuxer → Except Fault Demuxer}

theorem congr (h : Outcome r Inv x) (hr : r ↔ r') : Outcome r' Inv x := by
  rwa [← propext hr]

theorem mono (h : Outcome r Inv x) (hInv : ∀ t, Inv t → Inv' t) : Outcome r Inv' x := by
  match x, h with
  | .ok t, h => exact ⟨h.1, hInv t h.2⟩
  | .error .table, h => exact h
  | .error .memory, h => exact h

theorem bind (room : Demuxer → Prop) (h : Outcome r Inv x)
    (hf : ∀ t, x = .ok t → Inv t → Outcome (room t) Inv' (f t)) :
    Outcome (r ∧ ∀ t, x = .ok t → room t) Inv' (x >>= f) := by
  match x, h with
  | .ok t, h =>
    have hiff : room t ↔ r ∧ ∀ u, (.ok t : Except Fault Demuxer) = .ok u → room u := by
      constructor
      · intro hroom
        refine ⟨h.1, fun u hu => ?_⟩
        obtain rfl := Except.ok.inj hu
        exact hroom
      · intro hall
        exact hall.2 t rfl
    exact (hf t rfl h.2).congr hiff
  | .error .table, h => exact fun hall => h hall.1
  | .error .memory, h => exact ⟨h, fun t ht => nomatch ht⟩

theorem map {g : Demuxer → Demuxer} (h : Outcome r Inv x) (hg : ∀ t, Inv t → Inv' (g t)) :
    Outcome r Inv' (x >>= fun t => pure (g t)) := by
  match x, h with
  | .ok t, h => exact ⟨h.1, hg t h.2⟩
  | .error .table, h => exact h
  | .error .memory, h => exact h

theorem of_ok (h : Inv d) : Outcome True Inv (.ok d) := ⟨trivial, h⟩

end Outcome

/-! ## Loops over a table -/

theorem scan_eq (stop : ℕ → Bool) (left i : ℕ) :
    (∃ k, i ≤ k ∧ k < i + left ∧ stop k = true ∧ (∀ j, i ≤ j → j < k → stop j = false) ∧
      scan stop left i = .ok k) ∨
    (∀ j, i ≤ j → j < i + left → stop j = false) ∧ scan stop left i = .error .table := by
  induction left generalizing i with
  | zero => exact .inr ⟨fun j hj hlt => by omega, rfl⟩
  | succ left ih =>
    unfold scan
    by_cases h : stop i = true
    · rw [if_pos h]
      exact .inl ⟨i, le_refl i, by omega, h, fun j hj hlt => by omega, rfl⟩
    · rw [if_neg h]
      have hfirst {j : ℕ} (hij : i ≤ j) (hj : i + 1 ≤ j → stop j = false) : stop j = false := by
        rcases Nat.eq_or_lt_of_le hij with rfl | hlt
        · exact Bool.not_eq_true _ ▸ h
        · exact hj hlt
      rcases ih (i + 1) with ⟨k, hle, hlt, hstop, hbefore, hk⟩ | ⟨hall, hnone⟩
      · exact .inl ⟨k, by omega, by omega, hstop,
          fun j hj hjk => hfirst hj fun hj' => hbefore j hj' hjk, hk⟩
      · exact .inr ⟨fun j hj hlt => hfirst hj fun hj' => hall j hj' (by omega), hnone⟩

namespace Demuxer

/-- The indexes that the demuxer holds are inside the tables. -/
structure InTables (d : Demuxer) : Prop where
  scrambled_npids_le : d.scrambled_npids ≤ maxPids
  videoMedia_lt : d.videoMedia < maxPids
  audioMedia_lt : d.audioMedia < maxPids
  spu_media_lt : d.spu_media < maxPids
  media_index_lt : ∀ i, (d.spu_langs i).media_index < maxPids

/-- The first `n` entries of the table of programs are in use. -/
structure Programs (program_number : ℕ → ℕ) (n : ℕ) : Prop where
  le : n ≤ maxPmts
  used : ∀ i < n, program_number i ≠ invalid
  free : ∀ i, n ≤ i → program_number i = invalid
  injOn : ∀ i < n, ∀ j < n, program_number i = program_number j → i = j

/-- The invariant. -/
def Inv (d : Demuxer) : Prop := d.InTables ∧ ∃ n, Programs d.program_number n

/-- The programs in a table. -/
def programs (program_number : ℕ → ℕ) : Finset ℕ :=
  ((Finset.range maxPmts).filter fun i => program_number i ≠ invalid).image program_number

namespace Programs

variable {program_number : ℕ → ℕ} {n number i : ℕ}

theorem programs_eq (h : Programs program_number n) :
    programs program_number = (Finset.range n).image program_number := by
  unfold programs
  congr 1
  ext i
  rw [Finset.mem_filter, Finset.mem_range, Finset.mem_range]
  constructor
  · rintro ⟨-, hne⟩
    by_contra hle
    exact hne (h.free i (Nat.not_lt.1 hle))
  · intro hi
    exact ⟨hi.trans_le h.le, h.used i hi⟩

theorem card_programs (h : Programs program_number n) : (programs program_number).card = n := by
  rw [h.programs_eq, Finset.card_image_of_injOn, Finset.card_range]
  intro i hi j hj hij
  exact h.injOn i (by simpa using hi) j (by simpa using hj) hij

theorem mem_programs (h : Programs program_number n) :
    number ∈ programs program_number ↔ ∃ i < n, program_number i = number := by
  simp only [h.programs_eq, Finset.mem_image, Finset.mem_range]

theorem update_free (h : Programs program_number n) (hn : n < maxPmts) (hvalid : number ≠ invalid)
    (hnew : number ∉ programs program_number) :
    Programs (Function.update program_number n number) (n + 1) where
  le := hn
  used i hi := by
    rw [Function.update_apply]
    split_ifs with heq
    · exact hvalid
    · exact h.used i (by omega)
  free i hi := by
    rw [Function.update_of_ne (by omega)]
    exact h.free i (by omega)
  injOn i hi j hj hij := by
    have hother {k : ℕ} (hk : k < n + 1) (hne : k ≠ n) : program_number k ≠ number := fun heq =>
      hnew (h.mem_programs.2 ⟨k, by omega, heq⟩)
    rw [Function.update_apply, Function.update_apply] at hij
    split_ifs at hij with hin hjn hjn
    · exact hin.trans hjn.symm
    · exact absurd hij.symm (hother hj hjn)
    · exact absurd hij (hother hi hin)
    · exact h.injOn i (by omega) j (by omega) hij

theorem programs_update_free (h : Programs program_number n) (hn : n < maxPmts)
    (hvalid : number ≠ invalid) (hnew : number ∉ programs program_number) :
    programs (Function.update program_number n number) = insert number (programs program_number) := by
  ext k
  rw [(h.update_free hn hvalid hnew).mem_programs, Finset.mem_insert, h.mem_programs]
  constructor
  · rintro ⟨i, hi, hk⟩
    rcases eq_or_ne i n with rfl | hne
    · exact .inl (by rw [← hk, Function.update_self])
    · exact .inr ⟨i, by omega, by rw [← hk, Function.update_of_ne hne]⟩
  · rintro (rfl | ⟨i, hi, hk⟩)
    · exact ⟨n, by omega, Function.update_self ..⟩
    · exact ⟨i, by omega, by rw [Function.update_of_ne (by omega), hk]⟩

end Programs

/-! ## Elementary streams -/

theorem pesNew_of_lt (h : mediaIndex < maxPids) :
    d.pesNew mediaIndex pid descriptor = .ok { d with
      media := Function.update d.media mediaIndex { d.media mediaIndex with
        m := demuxTsPesNew (d.media mediaIndex).m pid descriptor } } := by
  unfold pesNew inTable
  rw [if_pos h]
  rfl

theorem pesNew_of_ge (h : maxPids ≤ mediaIndex) :
    d.pesNew mediaIndex pid descriptor = .error .table := by
  unfold pesNew inTable
  rw [if_neg (Nat.not_lt.2 h)]
  rfl

/-- The invariant, with a number of elementary streams that have been counted. -/
def Counted (n : ℕ) (d : Demuxer) : Prop := d.Inv ∧ d.media_num = n

theorem openVideo_outcome (h : d.Inv) :
    Outcome (d.media_num < maxPids) (fun t => t.Counted d.media_num ∧ t.videoPid = pid)
      (d.openVideo pid descriptor) := by
  unfold openVideo
  by_cases hlt : d.media_num < maxPids
  · rw [pesNew_of_lt hlt]
    exact ⟨hlt, ⟨⟨⟨h.1.1, hlt, h.1.3, h.1.4, h.1.5⟩, h.2⟩, rfl⟩, rfl⟩
  · rw [pesNew_of_ge (Nat.not_lt.1 hlt)]
    exact hlt

theorem openAudio_outcome (h : d.Inv) :
    Outcome (d.media_num < maxPids) (fun t => t.Counted d.media_num ∧ t.audioPid = pid)
      (d.openAudio pid descriptor) := by
  unfold openAudio
  by_cases hlt : d.media_num < maxPids
  · rw [pesNew_of_lt hlt]
    exact ⟨hlt, ⟨⟨⟨h.1.1, h.1.2, hlt, h.1.4, h.1.5⟩, h.2⟩, rfl⟩, rfl⟩
  · rw [pesNew_of_ge (Nat.not_lt.1 hlt)]
    exact hlt

theorem Inv.countMedia (h : d.Inv) : d.countMedia.Inv :=
  ⟨⟨h.1.1, h.1.2, h.1.3, h.1.4, h.1.5⟩, h.2⟩

theorem openSubtitles_of_lt (h : d.Inv) (hlt : d.media_num < maxPids) (pages : ℕ) :
    ∃ t, openSubtitles e pages d = .ok t ∧ t.Counted d.media_num := by
  induction pages generalizing d with
  | zero => exact ⟨d, rfl, h, rfl⟩
  | succ pages ih =>
    unfold openSubtitles
    split_ifs with hlangs
    · dsimp only
      rw [pesNew_of_lt hlt]
      refine ih ⟨⟨h.1.1, h.1.2, h.1.3, h.1.4, fun i => ?_⟩, h.2⟩ hlt
      change (Function.update d.spu_langs d.no_spu_langs ⟨e.pid, d.media_num⟩ i).media_index < _
      rw [Function.update_apply]
      split_ifs
      · exact hlt
      · exact h.1.5 i
    · exact ⟨d, rfl, h, rfl⟩

theorem openSubtitles_of_ge (hge : maxPids ≤ d.media_num) (pages : ℕ) :
    openSubtitles e pages d =
      if 0 < pages ∧ d.no_spu_langs < maxNoSpuLangs then .error .table else .ok d := by
  cases pages with
  | zero =>
    rw [if_neg (by simp)]
    rfl
  | succ pages =>
    unfold openSubtitles
    by_cases hlangs : d.no_spu_langs < maxNoSpuLangs
    · rw [if_pos hlangs, if_pos ⟨Nat.succ_pos _, hlangs⟩]
      dsimp only
      rw [pesNew_of_ge hge]
      rfl
    · rw [if_neg hlangs, if_neg fun h => hlangs h.2]

/-- A descriptor of a private stream opens it: AC3 while there is no audio stream, or a page of
subtitles. -/
def OpensPrivate (d : Demuxer) (e : Es) (i : ℕ) : Prop :=
  e.byte i = 0x6a ∧ d.audioPid = invalid ∨
    e.byte i = 0x59 ∧ 8 ≤ e.byte (i + 1) ∧ d.no_spu_langs < maxNoSpuLangs

instance {i : ℕ} : Decidable (d.OpensPrivate e i) := by
  unfold OpensPrivate
  infer_instance

theorem openPrivate_of_lt (h : d.Inv) (hlt : d.media_num < maxPids) (is : List ℕ) :
    ∃ t, openPrivate e is d = .ok t ∧ t.Counted d.media_num := by
  induction is generalizing d with
  | nil => exact ⟨d, rfl, h, rfl⟩
  | cons i is ih =>
    unfold openPrivate
    split_ifs with haudio hsub
    · have hout : Outcome _ _ (d.openAudio e.pid (e.byte 0)) := openAudio_outcome h
      match ht : d.openAudio e.pid (e.byte 0), hout with
      | .ok t, hout => exact ⟨t, rfl, hout.2.1⟩
      | .error .table, hout => exact absurd hlt hout
      | .error .memory, _ =>
        unfold openAudio at ht
        rw [pesNew_of_lt hlt] at ht
        exact absurd ht (by rintro ⟨⟩)
    · obtain ⟨t, ht, hcounted⟩ := openSubtitles_of_lt (e := e) h hlt (e.byte (i + 1) / 8)
      obtain ⟨u, hu, hucounted⟩ := ih hcounted.1 (by rw [hcounted.2]; exact hlt)
      rw [hcounted.2] at hucounted
      exact ⟨u, by rw [ht]; exact hu, hucounted⟩
    · exact ih h hlt

theorem openPrivate_of_ge (hge : maxPids ≤ d.media_num) (is : List ℕ) :
    openPrivate e is d =
      if ∃ i ∈ is, d.OpensPrivate e i then .error .table else .ok d := by
  induction is with
  | nil => simp [openPrivate]
  | cons i is ih =>
    unfold openPrivate
    by_cases haudio : e.byte i = 0x6a ∧ d.audioPid = invalid
    · rw [if_pos haudio, if_pos ⟨i, List.mem_cons_self, .inl haudio⟩]
      unfold openAudio
      rw [pesNew_of_ge hge]
      rfl
    · rw [if_neg haudio]
      by_cases hsub : e.byte i = 0x59
      · rw [if_pos hsub, openSubtitles_of_ge hge]
        by_cases hpages : 0 < e.byte (i + 1) / 8 ∧ d.no_spu_langs < maxNoSpuLangs
        · rw [if_pos hpages,
            if_pos ⟨i, List.mem_cons_self, .inr ⟨hsub, by omega, hpages.2⟩⟩]
          rfl
        · rw [if_neg hpages]
          refine ih.trans (if_congr ?_ rfl rfl)
          rw [List.exists_mem_cons_iff]
          refine (or_iff_right ?_).symm
          rintro (h | ⟨-, hlen, hlangs⟩)
          · exact haudio h
          · exact hpages ⟨by omega, hlangs⟩
      · rw [if_neg hsub, ih]
        refine if_congr ?_ rfl rfl
        rw [List.exists_mem_cons_iff]
        refine (or_iff_right ?_).symm
        rintro (h | h)
        · exact haudio h
        · exact hsub h.1

/-- An elementary stream of a map table is opened. -/
def Opens (d : Demuxer) (e : Es) : Prop :=
  (e.byte 0 = 1 ∨ e.byte 0 = 2) ∧ d.videoPid = invalid ∨
    (e.byte 0 = 3 ∨ e.byte 0 = 4) ∧ d.audioPid = invalid ∨
    e.byte 0 = 6 ∧ (∃ i ∈ e.descriptors, d.OpensPrivate e i) ∨
    0x80 ≤ e.byte 0 ∧ d.audioPid = invalid ∧ e.demuxTsGetRegDesc = 0x41432d33

/-- There is room for the elementary streams: whenever one is opened, fewer than `MAX_PIDS` have been
counted. -/
def RoomForEs : Demuxer → List Es → Prop
  | _, [] => True
  | d, e :: es =>
    (d.Opens e → d.media_num < maxPids) ∧ ∀ t, d.parseEs e = .ok t → RoomForEs t es

theorem openPrivate_outcome (h : d.Inv) :
    Outcome ((∃ i ∈ e.descriptors, d.OpensPrivate e i) → d.media_num < maxPids) Inv
      (openPrivate e e.descriptors d) := by
  by_cases hlt : d.media_num < maxPids
  · obtain ⟨t, ht, hcounted⟩ := openPrivate_of_lt (e := e) h hlt e.descriptors
    rw [ht]
    exact ⟨fun _ => hlt, hcounted.1⟩
  · rw [openPrivate_of_ge (Nat.not_lt.1 hlt)]
    split_ifs with hopens
    · exact fun himp => hlt (himp hopens)
    · exact ⟨fun hno => absurd hno hopens, h⟩

theorem openEs_outcome (h : d.Inv) :
    Outcome (d.Opens e → d.media_num < maxPids) Inv (d.openEs e) := by
  have hok (hopens : ¬d.Opens e) : Outcome (d.Opens e → d.media_num < maxPids) Inv (.ok d) :=
    ⟨fun hno => absurd hno hopens, h⟩
  have hvideo : Outcome (d.media_num < maxPids) Inv (d.openVideo e.pid (e.byte 0)) :=
    (openVideo_outcome h).mono fun t ht => ht.1.1
  have haudio : Outcome (d.media_num < maxPids) Inv (d.openAudio e.pid (e.byte 0)) :=
    (openAudio_outcome h).mono fun t ht => ht.1.1
  have hroom (hopens : d.Opens e) :
      d.media_num < maxPids ↔ (d.Opens e → d.media_num < maxPids) := by simp [hopens]
  unfold openEs
  dsimp only
  split_ifs with h1 hpid h3 hpid h5 h6 h80 hreg
  · exact hvideo.congr (hroom (.inl ⟨h1, hpid⟩))
  · exact hok (by unfold Opens; omega)
  · exact haudio.congr (hroom (.inr (.inl ⟨h3, hpid⟩)))
  · exact hok (by unfold Opens; omega)
  · exact hok (by unfold Opens; omega)
  · refine (openPrivate_outcome h).congr (imp_congr_left ?_)
    unfold Opens
    simp only [h6]
    simp
  · exact haudio.congr (hroom (.inr (.inr (.inr ⟨h80.2, h80.1, hreg⟩))))
  · refine hok ?_
    rintro (hopens | hopens | hopens | hopens)
    · exact h1 hopens.1
    · exact h3 hopens.1
    · exact h6 hopens.1
    · exact hreg hopens.2.2
  · exact hok (by unfold Opens; omega)

theorem parseEs_outcome (h : d.Inv) :
    Outcome (d.Opens e → d.media_num < maxPids) Inv (d.parseEs e) := by
  unfold parseEs
  exact (openEs_outcome h).map fun t ht => ht.countMedia

theorem foldlM_parseEs_outcome (h : d.Inv) (es : List Es) :
    Outcome (d.RoomForEs es) Inv (es.foldlM parseEs d) := by
  induction es generalizing d with
  | nil => exact ⟨trivial, h⟩
  | cons e es ih =>
    rw [List.foldlM_cons]
    exact (parseEs_outcome h).bind _ fun t _ ht => ih ht

/-! ## Association tables -/

/-- The programs of an association table, without those of network information tables. -/
def newPrograms (ps : List (ℕ × ℕ)) : Finset ℕ := (ps.map Prod.fst).toFinset.erase 0

theorem scan_program {program_number : ℕ → ℕ} {n number : ℕ} (h : Programs program_number n) :
    (∃ k, scan (fun i => program_number i = invalid ∨ program_number i = number) maxPmts 0 = .ok k ∧
      (k < n ∧ program_number k = number ∨
        k = n ∧ n < maxPmts ∧ number ∉ programs program_number)) ∨
    scan (fun i => program_number i = invalid ∨ program_number i = number) maxPmts 0 =
      .error .table ∧ n = maxPmts ∧ number ∉ programs program_number := by
  have hnotMem {k : ℕ} (hk : n ≤ k)
      (hbefore : ∀ j, 0 ≤ j → j < k → ¬(program_number j = invalid ∨ program_number j = number)) :
      number ∉ programs program_number := by
    rw [h.mem_programs]
    rintro ⟨i, hi, heq⟩
    exact hbefore i (Nat.zero_le i) (by omega) (.inr heq)
  rcases scan_eq (fun i => program_number i = invalid ∨ program_number i = number) maxPmts 0 with
    ⟨k, -, hlt, hstop, hbefore, hk⟩ | ⟨hall, hfault⟩
  · simp only [decide_eq_true_eq, decide_eq_false_iff_not] at hstop hbefore
    refine .inl ⟨k, hk, ?_⟩
    by_cases hkn : k < n
    · exact .inl ⟨hkn, hstop.resolve_left (h.used k hkn)⟩
    · have hkn' : k = n := by
        by_contra hne
        exact hbefore n (Nat.zero_le n) (by omega) (.inl (h.free n le_rfl))
      exact .inr ⟨hkn', by omega, hnotMem (by omega) hbefore⟩
  · simp only [decide_eq_false_iff_not] at hall
    have hn : n = maxPmts := by
      by_contra hne
      have hle := h.le
      exact hall n (Nat.zero_le n) (by omega) (.inl (h.free n le_rfl))
    exact .inr ⟨hfault, hn, hnotMem (k := maxPmts) (by omega) fun j hj hlt => hall j hj (by omega)⟩

@[simp] theorem setProgram_program_number {k number pmt_pid : ℕ} :
    (d.setProgram k number pmt_pid).program_number = Function.update d.program_number k number := by
  unfold setProgram
  split_ifs <;> rfl

theorem InTables.setProgram (h : d.InTables) {k number pmt_pid : ℕ} :
    (d.setProgram k number pmt_pid).InTables := by
  unfold Demuxer.setProgram
  split_ifs
  all_goals exact ⟨h.1, h.2, h.3, h.4, h.5⟩

theorem learnProgram_cases (h : d.Inv) {program : ℕ × ℕ} (hvalid : program.1 ≠ invalid) :
    (∃ t, d.learnProgram program = .ok t ∧ t.Inv ∧
      programs t.program_number = programs d.program_number ∪ newPrograms [program]) ∨
    d.learnProgram program = .error .table ∧
      maxPmts < (programs d.program_number ∪ newPrograms [program]).card := by
  obtain ⟨hin, n, hn⟩ := h
  obtain ⟨number, pmt_pid⟩ := program
  change number ≠ invalid at hvalid
  unfold learnProgram
  dsimp only
  by_cases hzero : number = 0
  · have hnew : newPrograms [(number, pmt_pid)] = ∅ := by
      rw [hzero]
      rfl
    rw [if_pos hzero, hnew, Finset.union_empty]
    exact .inl ⟨d, rfl, ⟨hin, n, hn⟩, rfl⟩
  · have hnew : programs d.program_number ∪ newPrograms [(number, pmt_pid)] =
        insert number (programs d.program_number) := by
      have hsingle : newPrograms [(number, pmt_pid)] = {number} :=
        Finset.erase_eq_of_notMem (by simpa using Ne.symm hzero)
      rw [hsingle, Finset.union_comm]
      rfl
    rw [if_neg hzero, hnew]
    rcases scan_program hn with
      ⟨k, hk, ⟨hlt, heq⟩ | ⟨rfl, hlt, hnotMem⟩⟩ | ⟨hfault, rfl, hnotMem⟩
    · have hmem : number ∈ programs d.program_number := hn.mem_programs.2 ⟨k, hlt, heq⟩
      have hupdate : (d.setProgram k number pmt_pid).program_number = d.program_number := by
        rw [setProgram_program_number, ← heq, Function.update_eq_self]
      refine .inl ⟨d.setProgram k number pmt_pid, by rw [hk]; rfl, ⟨hin.setProgram, n, ?_⟩, ?_⟩
      · rw [hupdate]
        exact hn
      · rw [hupdate, Finset.insert_eq_of_mem hmem]
    · refine .inl ⟨d.setProgram k number pmt_pid, by rw [hk]; rfl,
        ⟨hin.setProgram, k + 1, ?_⟩, ?_⟩
      · rw [setProgram_program_number]
        exact hn.update_free hlt hvalid hnotMem
      · rw [setProgram_program_number]
        exact hn.programs_update_free hlt hvalid hnotMem
    · refine .inr ⟨by rw [hfault]; rfl, ?_⟩
      rw [Finset.card_insert_of_notMem hnotMem, hn.card_programs]
      exact Nat.lt_succ_self _

/-- There is room for the programs of an association table. -/
def RoomForPrograms (d : Demuxer) (ps : List (ℕ × ℕ)) : Prop :=
  (programs d.program_number ∪ newPrograms ps).card ≤ maxPmts

theorem newPrograms_cons (program : ℕ × ℕ) (ps : List (ℕ × ℕ)) :
    newPrograms (program :: ps) = newPrograms [program] ∪ newPrograms ps := by
  unfold newPrograms
  rw [← Finset.erase_union_distrib, List.map_cons, List.toFinset_cons, Finset.insert_eq]
  rfl

theorem foldlM_learnProgram_outcome (h : d.Inv) (ps : List (ℕ × ℕ))
    (hvalid : ∀ program ∈ ps, program.1 ≠ invalid) :
    Outcome (d.RoomForPrograms ps) Inv (ps.foldlM learnProgram d) := by
  induction ps generalizing d with
  | nil =>
    obtain ⟨hin, n, hn⟩ := h
    refine ⟨?_, hin, n, hn⟩
    unfold RoomForPrograms
    rw [show newPrograms [] = ∅ from rfl, Finset.union_empty, hn.card_programs]
    exact hn.le
  | cons program ps ih =>
    have hcons : programs d.program_number ∪ newPrograms (program :: ps) =
        (programs d.program_number ∪ newPrograms [program]) ∪ newPrograms ps := by
      rw [newPrograms_cons program ps, Finset.union_assoc]
    rw [List.foldlM_cons]
    unfold RoomForPrograms
    rw [hcons]
    rcases learnProgram_cases h (hvalid program List.mem_cons_self) with
      ⟨t, ht, hInv, hprograms⟩ | ⟨hfault, hlt⟩
    · rw [ht, ← hprograms]
      exact ih hInv fun q hq => hvalid q (List.mem_cons_of_mem _ hq)
    · rw [hfault]
      intro hcard
      exact absurd ((Finset.card_le_card Finset.subset_union_left).trans hcard) (Nat.not_le.2 hlt)

/-- There is room for the association table in a packet, if it is accepted. -/
def RoomForPat (d : Demuxer) (p : Packet) (offset : ℕ) : Prop :=
  ∀ ps, patPrograms p offset = .ok ps → d.RoomForPrograms ps

/-- A table that is not accepted has no programs, or reads outside of the packet; the others list them. -/
def ListsPrograms (p : Packet) (r : Except Fault (List (ℕ × ℕ))) : Prop :=
  r = .ok [] ∨ r = .error .memory ∨
    ∃ n pkt, r = .ok ((List.range n).map fun k => patProgram p.mem (pkt + 4 * k))

theorem patPrograms_lists (p : Packet) (offset : ℕ) : ListsPrograms p (patPrograms p offset) := by
  unfold patPrograms
  dsimp only
  split_ifs
  all_goals try exact Or.inl rfl
  · exact Or.inr (Or.inl rfl)
  · exact Or.inr (Or.inr ⟨_, _, rfl⟩)

theorem patPrograms_ne_table {offset : ℕ} : patPrograms p offset ≠ .error .table := by
  rcases patPrograms_lists p offset with hnone | hmemory | ⟨n, pkt, hlist⟩
  · rw [hnone]
    rintro ⟨⟩
  · rw [hmemory]
    rintro ⟨⟩
  · rw [hlist]
    rintro ⟨⟩

theorem patProgram_fst_lt {mem : ℕ → Byte} {program : ℕ} : (patProgram mem program).1 < 2 ^ 16 := by
  have hhigh : (mem program).toNat <<< 8 < 2 ^ 16 := by
    rw [Nat.shiftLeft_eq]
    omega
  exact Nat.or_lt_two_pow hhigh (by omega)

theorem valid_of_patPrograms {offset : ℕ} {ps : List (ℕ × ℕ)} (h : patPrograms p offset = .ok ps) :
    ∀ program ∈ ps, program.1 ≠ invalid := by
  intro program hprogram
  rcases patPrograms_lists p offset with hnone | hmemory | ⟨n, pkt, hlist⟩
  · obtain rfl := Except.ok.inj (hnone.symm.trans h)
    exact absurd hprogram List.not_mem_nil
  · rw [hmemory] at h
    cases h
  · obtain rfl := Except.ok.inj (hlist.symm.trans h)
    obtain ⟨k, -, rfl⟩ := List.mem_map.1 hprogram
    refine (patProgram_fst_lt.trans ?_).ne
    decide

theorem parsePat_outcome (h : d.Inv) (offset : ℕ) :
    Outcome (d.RoomForPat p offset) Inv (d.parsePat p offset) := by
  unfold parsePat
  match hps : patPrograms p offset with
  | .ok ps =>
    refine (foldlM_learnProgram_outcome h ps (valid_of_patPrograms hps)).congr ?_
    unfold RoomForPat
    rw [hps]
    constructor
    · rintro hroom _ ⟨⟩
      exact hroom
    · intro hall
      exact hall ps rfl
  | .error .table => exact absurd hps patPrograms_ne_table
  | .error .memory =>
    change d.RoomForPat p offset
    unfold RoomForPat
    rw [hps]
    rintro _ ⟨⟩

/-! ## Map tables -/

/-- There is room for the elementary streams of a map table. -/
def RoomForSection (d : Demuxer) (mem : ℕ → Byte) (section_length : ℕ) : Prop :=
  ∀ es consistent, pmtStreams mem section_length = some (es, consistent) →
    RoomForEs { d with no_spu_langs := 0 } es

/-- There is room for the map table of a program that a packet completes, if it is accepted. -/
def RoomForPmt (d : Demuxer) (p : Packet) (offset program_count : ℕ) : Prop :=
  ∀ pmt s section_length,
    collectSection p offset (d.program_number program_count) (d.pmt program_count) =
      .ok (pmt, some (s, section_length)) →
    RoomForSection { d with pmt := Function.update d.pmt program_count pmt } s.mem section_length

theorem collectSection_ne_table {offset program_number : ℕ} {pmt : Option Section} :
    collectSection p offset program_number pmt ≠ .error .table := by
  have happend {pkt n : ℕ} {s : Section} : appendSection p pkt n s ≠ .error .table := by
    unfold appendSection
    dsimp only
    split_ifs <;> rintro ⟨⟩
  have hmap {pkt n : ℕ} {s : Section} {g : Section × Bool → Option Section × Option (Section × ℕ)} :
      (appendSection p pkt n s).map g ≠ .error .table := by
    match hx : appendSection p pkt n s with
    | .ok r => rintro ⟨⟩
    | .error .table => exact absurd hx happend
    | .error .memory => rintro ⟨⟩
  unfold collectSection
  dsimp only
  split_ifs
  · rintro ⟨⟩
  · rintro ⟨⟩
  · exact hmap
  · cases pmt with
    | none => rintro ⟨⟩
    | some s => exact hmap

theorem Inv.updateSpuChannel (h : d.Inv) (spu_channel : ℤ) : (d.updateSpuChannel spu_channel).Inv := by
  unfold Demuxer.updateSpuChannel
  split_ifs
  · exact ⟨⟨h.1.1, h.1.2, h.1.3, h.1.5 _, h.1.5⟩, h.2⟩
  · exact ⟨⟨h.1.1, h.1.2, h.1.3, h.1.4, h.1.5⟩, h.2⟩

theorem Inv.finishPmt (h : d.Inv) (mem : ℕ → Byte) (consistent : Bool) (spu_channel : ℤ) :
    (d.finishPmt mem consistent spu_channel).Inv := by
  unfold Demuxer.finishPmt
  split_ifs
  · refine Inv.updateSpuChannel ?_ _
    exact ⟨⟨h.1.1, h.1.2, h.1.3, h.1.4, h.1.5⟩, h.2⟩
  · exact h

theorem parseSection_outcome (h : d.Inv) (mem : ℕ → Byte) (section_length : ℕ) (spu_channel : ℤ) :
    Outcome (d.RoomForSection mem section_length) Inv
      (d.parseSection mem section_length spu_channel) := by
  unfold parseSection RoomForSection
  match pmtStreams mem section_length with
  | none =>
    refine ⟨?_, h⟩
    rintro es consistent ⟨⟩
  | some (es, consistent) =>
    have hes : Inv { d with no_spu_langs := 0 } := ⟨⟨h.1.1, h.1.2, h.1.3, h.1.4, h.1.5⟩, h.2⟩
    refine ((foldlM_parseEs_outcome hes es).map fun t ht => ht.finishPmt ..).congr ?_
    constructor
    · rintro hroom _ _ ⟨⟩
      exact hroom
    · intro hall
      exact hall es consistent rfl

theorem parsePmt_outcome (h : d.Inv) {offset program_count : ℕ} (hcount : program_count < maxPmts) :
    Outcome (d.RoomForPmt p offset program_count) Inv (d.parsePmt p offset program_count ch) := by
  have hin : inTable maxPmts program_count = .ok () := if_pos hcount
  have hpmt (pmt : ℕ → Option Section) : Inv { d with pmt } :=
    ⟨⟨h.1.1, h.1.2, h.1.3, h.1.4, h.1.5⟩, h.2⟩
  unfold parsePmt RoomForPmt
  rw [hin]
  match hcollect : collectSection p offset (d.program_number program_count)
      (d.pmt program_count) with
  | .error .table => exact absurd hcollect collectSection_ne_table
  | .error .memory => rintro pmt s n ⟨⟩
  | .ok (pmt, none) =>
    refine ⟨?_, hpmt _⟩
    rintro pmt s n ⟨⟩
  | .ok (pmt, some (s, n)) =>
    refine (parseSection_outcome (hpmt _) s.mem n ch).congr ?_
    constructor
    · rintro hroom _ _ _ ⟨⟩
      exact hroom
    · intro hall
      exact hall pmt s n rfl

/-! ## Packets -/

theorem scanScrambled_eq (d : Demuxer) (pid left i : ℕ) (hle : i + left ≤ maxPids) :
    ∃ b, d.scanScrambled pid left i = .ok b ∧
      (b = true ↔ ∃ j, i ≤ j ∧ j < i + left ∧ d.scrambled_pids j = pid) := by
  induction left generalizing i with
  | zero => exact ⟨false, rfl, ⟨nofun, fun ⟨j, hij, hj, _⟩ => by omega⟩⟩
  | succ left ih =>
    have hin : inTable maxPids i = .ok () := if_pos (by omega)
    unfold scanScrambled
    rw [hin]
    by_cases heq : d.scrambled_pids i = pid
    · refine ⟨true, by rw [if_pos heq]; rfl, ⟨fun _ => ⟨i, le_rfl, by omega, heq⟩, fun _ => rfl⟩⟩
    · obtain ⟨b, hb, hiff⟩ := ih (i + 1) (by omega)
      refine ⟨b, by rw [if_neg heq]; exact hb, hiff.trans ⟨?_, ?_⟩⟩
      · rintro ⟨j, hij, hj, hpid⟩
        exact ⟨j, by omega, by omega, hpid⟩
      · rintro ⟨j, hij, hj, hpid⟩
        have hne : j ≠ i := by
          rintro rfl
          exact heq hpid
        exact ⟨j, by omega, by omega, hpid⟩

/-- There is room for the pid of a scrambled packet. -/
def RoomForScrambled (d : Demuxer) (pid : ℕ) : Prop :=
  (∃ j < d.scrambled_npids, d.scrambled_pids j = pid) ∨ d.scrambled_npids < maxPids

theorem parseScrambled_outcome (h : d.Inv) :
    Outcome (d.RoomForScrambled pid) Inv (d.parseScrambled pid) := by
  obtain ⟨b, hb, hiff⟩ := scanScrambled_eq d pid d.scrambled_npids 0
    (by simpa using h.1.scrambled_npids_le)
  simp only [Nat.zero_le, Nat.zero_add, true_and] at hiff
  unfold parseScrambled RoomForScrambled
  rw [hb]
  cases b with
  | true => exact ⟨.inl (hiff.1 rfl), h⟩
  | false =>
    have hnew : ¬∃ j < d.scrambled_npids, d.scrambled_pids j = pid := by simp [← hiff]
    by_cases hlt : d.scrambled_npids < maxPids
    · have hin : inTable maxPids d.scrambled_npids = .ok () := if_pos hlt
      rw [hin]
      exact ⟨.inr hlt, ⟨hlt, h.1.2, h.1.3, h.1.4, h.1.5⟩, h.2⟩
    · have hin : inTable maxPids d.scrambled_npids = .error .table := if_neg hlt
      rw [hin]
      exact not_or.2 ⟨hnew, hlt⟩

/-- A stream is detected. -/
def Detects (d : Demuxer) (p : Packet) : Prop :=
  p.payload_unit_start_indicator = true ∧
    (0xE0 ≤ p.byte (p.data_offset + 3) ∧ p.byte (p.data_offset + 3) ≤ 0xEF ∧
        d.videoPid = invalid ∨
      0xC0 ≤ p.byte (p.data_offset + 3) ∧ p.byte (p.data_offset + 3) ≤ 0xDF ∧
        d.audioPid = invalid)

theorem autodetect_of_not_detects (h : ¬d.Detects p) : d.autodetect p = .ok d := by
  unfold autodetect
  dsimp only
  split_ifs with hpusi hvideo hpid haudio hpid
  · exact absurd ⟨by simpa using hpusi, .inl ⟨hvideo.1, hvideo.2, hpid⟩⟩ h
  · rfl
  · exact absurd ⟨by simpa using hpusi, .inr ⟨haudio.1, haudio.2, hpid⟩⟩ h
  · rfl
  · rfl
  · rfl

theorem autodetect_outcome (h : d.Inv) (hdetects : d.Detects p) :
    Outcome (d.media_num < maxPids) (fun t => t.Inv ∧ (p.pid = t.videoPid ∨ p.pid = t.audioPid))
      (d.autodetect p) := by
  obtain ⟨hpusi, hstream⟩ := hdetects
  unfold autodetect
  dsimp only
  rw [if_neg (not_not.2 hpusi)]
  rcases hstream with ⟨hlow, hhigh, hpid⟩ | ⟨hlow, hhigh, hpid⟩
  · rw [if_pos ⟨hlow, hhigh⟩, if_pos hpid]
    exact (openVideo_outcome h).map fun t ht => ⟨ht.1.1.countMedia, .inl ht.2.symm⟩
  · rw [if_neg (by omega), if_pos ⟨hlow, hhigh⟩, if_pos hpid]
    exact (openAudio_outcome h).map fun t ht => ⟨ht.1.1.countMedia, .inr ht.2.symm⟩

/-- The first program whose map table has the pid of the packet. -/
def MapTableOf (d : Demuxer) (p : Packet) (i : ℕ) : Prop :=
  i < maxPmts ∧ d.program_number i ≠ invalid ∧ d.pmt_pid i = p.pid ∧ ∀ j < i, d.pmt_pid j ≠ p.pid

/-- There is room for the search for a map table, and for the table that it finds. -/
def RoomForSearch (d : Demuxer) (p : Packet) : Prop :=
  ((programs d.program_number).card < maxPmts ∨ ∃ i, d.MapTableOf p i) ∧
    ∀ i, d.MapTableOf p i → d.RoomForPmt p (p.data_offset - 4) i

/-- There is room for the payload of a packet. -/
def RoomForPayload (d : Demuxer) (p : Packet) : Prop :=
  p.pid ≠ d.videoPid → p.pid ≠ d.audioPid →
    if p.pid = 0 then d.RoomForPat p (p.data_offset - 4)
    else p.pid ≠ nullPid → p.pid ≠ d.spu_pid → d.RoomForSearch p

/-- There is room for a packet. -/
def RoomForPacket (d : Demuxer) (p : Packet) : Prop :=
  p.sync_byte = 0x47 → p.transport_error_indicator = 0 → p.pid ≠ 0x1ffb →
    if p.transport_scrambling_control ≠ 0 then d.RoomForScrambled p.pid
    else p.adaptation_field_control &&& 0x1 ≠ 0 →
      (d.Detects p → d.media_num < maxPids) ∧
        (¬d.Detects p → p.data_offset ≤ pktSize → d.RoomForPayload p)

/-- There is room for the packet of a call. -/
def Room (d : Demuxer) (c : Chunk) : Prop :=
  ∀ p ∈ c.packet, (d.eventHandler c.pidsChange).RoomForPacket p

theorem bufferPes_outcome (h : d.Inv) (hlt : mediaIndex < maxPids) :
    Outcome True Inv (d.bufferPes p mediaIndex) := by
  have hin : inTable maxPids mediaIndex = .ok () := if_pos hlt
  unfold bufferPes
  rw [hin]
  dsimp only [bind, Except.bind]
  split
  · exact ⟨trivial, ⟨h.1.1, h.1.2, h.1.3, h.1.4, h.1.5⟩, h.2⟩
  · exact trivial

theorem scan_mapTable (h : d.Inv) :
    (∃ i, d.MapTableOf p i ∧
      scan (fun i => d.program_number i = invalid ∨ d.pmt_pid i = p.pid) maxPmts 0 = .ok i) ∨
    (¬∃ i, d.MapTableOf p i) ∧
      if (programs d.program_number).card < maxPmts then
        ∃ i, d.program_number i = invalid ∧
          scan (fun i => d.program_number i = invalid ∨ d.pmt_pid i = p.pid) maxPmts 0 = .ok i
      else scan (fun i => d.program_number i = invalid ∨ d.pmt_pid i = p.pid) maxPmts 0 =
        .error .table := by
  obtain ⟨-, n, hn⟩ := h
  rw [hn.card_programs]
  rcases scan_eq (fun i => d.program_number i = invalid ∨ d.pmt_pid i = p.pid) maxPmts 0 with
    ⟨k, -, hlt, hstop, hbefore, hk⟩ | ⟨hall, hfault⟩
  · simp only [decide_eq_true_eq, decide_eq_false_iff_not, not_or] at hstop hbefore
    have hle : k ≤ n := by
      by_contra hgt
      exact (hbefore n (Nat.zero_le n) (by omega)).1 (hn.free n le_rfl)
    by_cases hused : d.program_number k = invalid
    · have hkn : k = n := by
        by_contra hne
        exact hn.used k (by omega) hused
      refine .inr ⟨?_, ?_⟩
      · rintro ⟨i, -, hvalid, hpid, -⟩
        have hi : i < n := by
          by_contra hge
          exact hvalid (hn.free i (Nat.not_lt.1 hge))
        exact (hbefore i (Nat.zero_le i) (by omega)).2 hpid
      · rw [if_pos (by omega)]
        exact ⟨k, hused, hk⟩
    · exact .inl ⟨k, ⟨by omega, hused, hstop.resolve_left hused,
        fun j hj => (hbefore j (Nat.zero_le j) hj).2⟩, hk⟩
  · simp only [decide_eq_false_iff_not, not_or] at hall
    have hn' : ¬n < maxPmts := fun hlt => (hall n (Nat.zero_le n) (by omega)).1 (hn.free n le_rfl)
    refine .inr ⟨?_, ?_⟩
    · rintro ⟨i, hi, -, hpid, -⟩
      exact (hall i (Nat.zero_le i) (by omega)).2 hpid
    · rw [if_neg hn']
      exact hfault

theorem MapTableOf.unique {i j : ℕ} (hi : d.MapTableOf p i) (hj : d.MapTableOf p j) : i = j := by
  by_contra hne
  rcases Nat.lt_or_gt_of_ne hne with hlt | hlt
  · exact hj.2.2.2 i hlt hi.2.2.1
  · exact hi.2.2.2 j hlt hj.2.2.1

theorem search_outcome (h : d.Inv) :
    Outcome (d.RoomForSearch p) Inv (do
      let program_count ← scan
        (fun i => d.program_number i = invalid ∨ d.pmt_pid i = p.pid) maxPmts 0
      if d.program_number program_count = invalid then return d
      else d.parsePmt p (p.data_offset - 4) program_count ch) := by
  unfold RoomForSearch
  rcases scan_mapTable (p := p) h with ⟨i, hi, hscan⟩ | ⟨hnone, hscan⟩
  · rw [hscan]
    change Outcome _ Inv (if d.program_number i = invalid then _ else _)
    rw [if_neg hi.2.1]
    refine (parsePmt_outcome h hi.1).congr ⟨fun hroom => ⟨.inr ⟨i, hi⟩, fun j hj => ?_⟩, ?_⟩
    · rw [← hi.unique hj]
      exact hroom
    · intro hall
      exact hall.2 i hi
  · have hall : ∀ i, d.MapTableOf p i → d.RoomForPmt p (p.data_offset - 4) i :=
      fun i hi => absurd ⟨i, hi⟩ hnone
    split_ifs at hscan with hcard
    · obtain ⟨i, hfree, hscan⟩ := hscan
      rw [hscan]
      change Outcome _ Inv (if d.program_number i = invalid then _ else _)
      rw [if_pos hfree]
      exact ⟨⟨.inl hcard, hall⟩, h⟩
    · rw [hscan]
      rintro ⟨hroom, -⟩
      exact hroom.elim hcard hnone

theorem parsePayload_outcome (h : d.Inv) :
    Outcome (d.RoomForPayload p) Inv (d.parsePayload p ch) := by
  unfold parsePayload RoomForPayload
  by_cases hvideo : p.pid = d.videoPid
  · rw [if_pos hvideo]
    exact (bufferPes_outcome h h.1.videoMedia_lt).congr (by simp [hvideo])
  rw [if_neg hvideo]
  by_cases haudio : p.pid = d.audioPid
  · rw [if_pos haudio]
    exact (bufferPes_outcome h h.1.audioMedia_lt).congr (by simp [haudio])
  rw [if_neg haudio]
  by_cases hpat : p.pid = 0
  · rw [if_pos hpat, if_pos hpat]
    exact (parsePat_outcome h _).congr (by simp [hvideo, haudio])
  rw [if_neg hpat, if_neg hpat]
  by_cases hnull : p.pid = nullPid
  · rw [if_pos hnull]
    exact (Outcome.of_ok h).congr (by simp [hnull])
  rw [if_neg hnull]
  by_cases hspu : p.pid = d.spu_pid
  · rw [if_pos hspu]
    exact (bufferPes_outcome h h.1.spu_media_lt).congr (by simp [hspu])
  · rw [if_neg hspu]
    exact (search_outcome h).congr (by simp [hvideo, haudio, hnull, hspu])

theorem parsePayload_outcome_of_detected (h : d.Inv)
    (hpid : p.pid = d.videoPid ∨ p.pid = d.audioPid) :
    Outcome True Inv (d.parsePayload p ch) := by
  refine (parsePayload_outcome h).congr (iff_true_intro fun hvideo haudio => ?_)
  exact (hpid.elim hvideo haudio).elim

theorem parsePacket_outcome (h : d.Inv) :
    Outcome (d.RoomForPacket p) Inv (d.parsePacket p ch) := by
  unfold parsePacket RoomForPacket
  by_cases hsync : p.sync_byte ≠ 0x47
  · rw [if_pos hsync]
    exact (Outcome.of_ok h).congr (by simp [hsync])
  rw [if_neg hsync]
  by_cases herror : p.transport_error_indicator ≠ 0
  · rw [if_pos herror]
    exact (Outcome.of_ok h).congr (by simp [herror])
  rw [if_neg herror]
  by_cases hpsip : p.pid = 0x1ffb
  · rw [if_pos hpsip]
    exact (Outcome.of_ok h).congr (by simp [hpsip])
  rw [if_neg hpsip]
  rw [not_not] at hsync herror
  simp only [hsync, herror, hpsip, ne_eq, not_false_eq_true, forall_const]
  by_cases hscrambled : p.transport_scrambling_control = 0
  · rw [if_neg (not_not.2 hscrambled), if_neg (not_not.2 hscrambled)]
    by_cases hpayload : p.adaptation_field_control &&& 0x1 = 0
    · rw [if_pos hpayload]
      exact (Outcome.of_ok h).congr (by simp [hpayload])
    rw [if_neg hpayload]
    simp only [hpayload, not_false_eq_true, forall_const]
    by_cases hdetects : d.Detects p
    · simp only [hdetects, forall_const, not_true_eq_false, false_implies, and_true]
      refine ((autodetect_outcome h hdetects).bind (fun _ => True)
        fun t _ ht => ?_).congr (by simp)
      split_ifs
      · exact Outcome.of_ok ht.1
      · exact parsePayload_outcome_of_detected ht.1 ht.2
    · rw [autodetect_of_not_detects hdetects]
      change Outcome _ Inv (if p.data_offset > pktSize then _ else _)
      simp only [hdetects, false_implies, true_and, not_false_eq_true, forall_const]
      split_ifs with hoffset
      · exact (Outcome.of_ok h).congr (by simp [Nat.not_le.2 hoffset])
      · exact (parsePayload_outcome h).congr (by simp [Nat.not_lt.1 hoffset])
  · rw [if_pos hscrambled, if_pos hscrambled]
    exact parseScrambled_outcome h

theorem Inv.eventHandler (h : d.Inv) (pidsChange : Bool) : (d.eventHandler pidsChange).Inv := by
  unfold Demuxer.eventHandler
  split_ifs
  · exact ⟨⟨h.1.1, h.1.2, h.1.3, h.1.4, h.1.5⟩, h.2⟩
  · exact h

theorem sendChunk_outcome (h : d.Inv) : Outcome (d.Room c) Inv (d.sendChunk c) := by
  have hmap {x : Except Fault Demuxer} {r : Prop} (hx : Outcome r Inv x) :
      Outcome r Inv (x >>= fun d => pure
        (if c.spu_channel' ≠ d.current_spu_channel then d.updateSpuChannel c.spu_channel' else d)) := by
    refine hx.map fun t ht => ?_
    split_ifs
    · exact ht.updateSpuChannel _
    · exact ht
  have hevent := h.eventHandler c.pidsChange
  unfold sendChunk Room
  match c.packet with
  | none => exact hmap ((Outcome.of_ok hevent).congr (by simp))
  | some p => exact hmap ((parsePacket_outcome hevent).congr (by simp))

/-! ## Runs -/

/-- There is room in the demuxer, if it has not failed. -/
def RoomAfter (s : Except Fault Demuxer) (c : Chunk) : Prop := ∀ d, s = .ok d → d.Room c

/-- The demuxer has not failed at the index of a table. -/
def InBounds (s : Except Fault Demuxer) : Prop := s ≠ .error .table

theorem inv_init (spu_channel : ℤ) : (init spu_channel).Inv := by
  have hpos : 0 < maxPids := by decide
  refine ⟨⟨Nat.zero_le _, hpos, hpos, hpos, fun _ => hpos⟩, 0, ?_⟩
  exact ⟨Nat.zero_le _, fun i hi => absurd hi (Nat.not_lt_zero i), fun i _ => rfl,
    fun i hi => absurd hi (Nat.not_lt_zero i)⟩

/-- The demuxer is in bounds, and keeps the invariant if it has not failed. -/
def Good (s : Except Fault Demuxer) : Prop := InBounds s ∧ ∀ d, s = .ok d → d.Inv

theorem good_step {s t : Except Fault Demuxer} (h : Good s) (hroom : RoomAfter s c)
    (hstep : step s c = some t) : Good t := by
  cases hstep
  match s with
  | .ok d =>
    have hout := sendChunk_outcome (c := c) (h.2 d rfl)
    change Good (d.sendChunk c)
    match d.sendChunk c, hout with
    | .ok t, hout => exact ⟨nofun, fun u hu => Except.ok.inj hu ▸ hout.2⟩
    | .error .table, hout => exact absurd (hroom d rfl) hout
    | .error .memory, _ => exact ⟨nofun, nofun⟩
  | .error f => exact h

theorem not_inBounds_step {s t : Except Fault Demuxer} (h : Good s) (hroom : ¬RoomAfter s c)
    (hstep : step s c = some t) : ¬InBounds t := by
  cases hstep
  match s with
  | .ok d =>
    have hd : ¬d.Room c := fun hd => hroom fun u hu => Except.ok.inj hu ▸ hd
    have hout := sendChunk_outcome (c := c) (h.2 d rfl)
    change ¬InBounds (d.sendChunk c)
    match d.sendChunk c, hout with
    | .ok t, hout => exact absurd hout.1 hd
    | .error .table, _ => exact fun hne => hne rfl
    | .error .memory, hout => exact absurd hout hd
  | .error f => exact absurd nofun hroom

/-- In every run from a new demuxer, all indexes are inside their tables if and only if there is room
for each packet when it comes. -/
theorem tables_run_in_bounds_iff (spu_channel : ℤ) (cs : List Chunk) :
    Runs.Guarded step RoomAfter (.ok (init spu_channel)) cs ↔
      ∀ cs' s, cs' <+: cs → Runs.run step (.ok (init spu_channel)) cs' = some s → InBounds s := by
  have hrun (cs : List Chunk) (s : Except Fault Demuxer) : ∃ t, Runs.run step s cs = some t := by
    induction cs generalizing s with
    | nil => exact ⟨s, rfl⟩
    | cons c cs ih => exact ih _
  obtain ⟨u, hu⟩ := hrun cs (.ok (init spu_channel))
  refine Runs.guarded_iff (fun s (hs : Good s) => hs.1) (fun s c t => good_step)
    (fun s c t => not_inBounds_step) ⟨nofun, fun d hd => ?_⟩ hu
  obtain rfl := Except.ok.inj hd
  exact inv_init spu_channel

/-- A scrambled packet with the given pid. -/
def scrambledPacket (pid : ℕ) : Packet :=
  ⟨fun i => [0x47, BitVec.ofNat 8 (pid / 256), BitVec.ofNat 8 pid, 0xD0].getD i 0, 0, fun _ => 0,
    fun _ => 0⟩

/-- Scrambled packets with as many pids as given. -/
def scrambledChunks (n : ℕ) : List Chunk :=
  (List.range n).map fun k => ⟨false, some (scrambledPacket (0x100 + k)), -1, -1⟩

theorem tables_run_leaves_scrambled_pids :
    ∃ s, Runs.run step (.ok (init (-1))) (scrambledChunks 43) = some s ∧ ¬InBounds s := by
  refine ⟨.error .table, ?_, fun h => h rfl⟩
  rfl

end Demuxer

end Xine.DemuxTs
