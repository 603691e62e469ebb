import Xine.Config.Lookup
import Mathlib.Data.List.Induction

/-!
# The chapters of an Ogg stream

`send_ogg_buf` of `demux_ogg.c`: the table of the chapters that the comments of a video stream name, and the chapter
that a packet is in. The table is as long as the number of the chapter that was completed last.
-/

namespace Xine.Ogg

structure ChapterEntry where
  start_pts : ℤ
  name : List Char

/-- `chapter_info_t`. An entry that nothing has been written to is `none`. -/
structure ChapterInfo where
  current_chapter : ℤ
  max_chapter : ℕ
  entries : List (Option ChapterEntry)

/-- `strncasecmp` with a constant and its length finds no difference. -/
def startsWith (start : String) (comment : List Char) : Bool :=
  (comment.take start.length).map Char.toLower = start.toList.map Char.toLower

def digitAt (comment : List Char) (i : ℕ) : Bool := (comment.getD i '\x00').isDigit

/-- A comment for a chapter has a number of two digits, so that `strtol` finds no sign. -/
def isChapter (comment : List Char) : Bool := startsWith "CHAPTER" comment && digitAt comment 7 && digitAt comment 8

def isChapterTime (comment : List Char) : Bool :=
  comment.length = 22 && isChapter comment && comment.getD 9 '\x00' = '='

def isChapterName (comment : List Char) : Bool := isChapter comment && startsWith "NAME=" (comment.drop 9)

def chapterNumber (comment : List Char) : ℕ := (Decimal.readNat (comment.drop 7)).getD 0

/-- What the loop over the comments has found and not used yet. -/
structure Pairing where
  chapter_time : Option (List Char)
  chapter_name : Option (List Char)
  chapter_no : ℕ

def Pairing.fresh : Pairing := ⟨none, none, 0⟩

/-- The first two conditions of the loop. -/
def Pairing.read (p : Pairing) (comment : List Char) : Pairing :=
  let p := if p.chapter_time = none ∧ isChapterTime comment then
      { p with chapter_time := some (comment.drop 10), chapter_no := chapterNumber comment }
    else p
  if p.chapter_name = none ∧ isChapterName comment ∧ chapterNumber comment = p.chapter_no then
    { p with chapter_name := some (comment.drop 14) }
  else p

/-- `realloc`, with nothing written to what is added. -/
def realloc (entries : List (Option ChapterEntry)) (n : ℕ) : List (Option ChapterEntry) :=
  entries.take n ++ List.replicate (n - entries.length) none

/-- A chapter entry is created. -/
def createEntry (info : Option ChapterInfo) (chapter_no : ℕ) (entry : ChapterEntry) : ChapterInfo :=
  let info := info.getD ⟨-1, 0, []⟩
  { info with
    max_chapter := chapter_no
    entries := (realloc info.entries chapter_no).set (chapter_no - 1) (some entry) }

section Comments

-- The time of a chapter in units of 90 kHz is computed from its hour, minute, second and millisecond in floating point.
variable (startPts : ℤ → ℤ → ℤ → ℤ → ℤ)

def parseTime (time : List Char) : ℤ :=
  startPts (Config.atoi time) (Config.atoi (time.drop 3)) (Config.atoi (time.drop 6)) (Config.atoi (time.drop 9))

/-- The chapter that is complete. -/
def Pairing.chapter (p : Pairing) : Option (ℕ × ChapterEntry) :=
  p.chapter_time.bind fun time => p.chapter_name.bind fun name =>
    if p.chapter_no ≠ 0 then some (p.chapter_no, ⟨parseTime startPts time, name⟩) else none

/-- A turn of the loop over the comments. -/
def readComment (s : Pairing × Option ChapterInfo) (comment : List Char) : Pairing × Option ChapterInfo :=
  let p := s.1.read comment
  match p.chapter startPts with
  | some (chapter_no, entry) => (.fresh, some (createEntry s.2 chapter_no entry))
  | none => (p, s.2)

/-- The comments of a packet. -/
def readComments (info : Option ChapterInfo) (comments : List (List Char)) : Option ChapterInfo :=
  (comments.foldl (readComment startPts) (.fresh, info)).2

end Comments

/-- The loop that looks for the chapter, with `left` entries to go. -/
def chapterLoop (info : ChapterInfo) (pts : ℤ) : ℕ → ℕ → Option ℕ
  | 0, chapter => some chapter
  | left + 1, chapter => (info.entries[chapter]?.join).bind fun entry =>
    if entry.start_pts < pts then chapterLoop info pts left (chapter + 1) else some chapter

/-- The chapter of a video packet, and the name that the title gets when it is a new one. -/
def updateChapter (info : ChapterInfo) (pts : ℤ) : Option (ChapterInfo × Option (List Char)) :=
  (chapterLoop info pts info.max_chapter 0).bind fun chapter =>
    let chapter : ℤ := chapter - 1
    let info' := { info with current_chapter := chapter }
    if chapter ≠ info.current_chapter ∧ 0 ≤ chapter then
      (info.entries[chapter.toNat]?.join).map fun entry => (info', some entry.name)
    else some (info', none)

/-! ## The table after some chapters -/

variable {cs : List (ℕ × ChapterEntry)} {info : ChapterInfo} {startPts : ℤ → ℤ → ℤ → ℤ → ℤ} {i n : ℕ} {e : ChapterEntry}

def ChapterInfo.entry (info : ChapterInfo) (i : ℕ) : Option ChapterEntry := info.entries[i]?.join

/-- The chapters that some comments complete. -/
def completed (startPts : ℤ → ℤ → ℤ → ℤ → ℤ) : Pairing → List (List Char) → List (ℕ × ChapterEntry)
  | _, [] => []
  | p, comment :: comments =>
    match (p.read comment).chapter startPts with
    | some chapter => chapter :: completed startPts .fresh comments
    | none => completed startPts (p.read comment) comments

def table (cs : List (ℕ × ChapterEntry)) : Option ChapterInfo :=
  cs.foldl (fun info c => some (createEntry info c.1 c.2)) none

theorem readComments_eq (packets : List (List (List Char))) :
    packets.foldl (readComments startPts) none = table (packets.flatMap (completed startPts .fresh)) := by
  have hpacket (comments : List (List Char)) (p : Pairing) (info : Option ChapterInfo) :
      (comments.foldl (readComment startPts) (p, info)).2 =
        (completed startPts p comments).foldl (fun info c => some (createEntry info c.1 c.2)) info := by
    induction comments generalizing p info with
    | nil => rfl
    | cons comment comments ih =>
      rw [List.foldl_cons, completed, readComment]
      split
      · rename_i hchapter
        rw [hchapter, ih]
        rfl
      · rename_i hchapter
        rw [hchapter, ih]
  unfold table
  generalize (none : Option ChapterInfo) = info
  induction packets generalizing info with
  | nil => rfl
  | cons comments packets ih =>
    rw [List.foldl_cons, List.flatMap_cons, List.foldl_append, ← hpacket, ih]
    rfl

theorem completed_pos (p : Pairing) (comments : List (List Char)) : ∀ c ∈ completed startPts p comments, 0 < c.1 := by
  induction comments generalizing p with
  | nil => exact fun c hc => absurd hc List.not_mem_nil
  | cons comment comments ih =>
    rw [completed]
    split
    · rename_i chapter hchapter
      refine List.forall_mem_cons.2 ⟨?_, ih _⟩
      unfold Pairing.chapter at hchapter
      obtain ⟨time, -, hname⟩ := Option.bind_eq_some_iff.1 hchapter
      obtain ⟨name, -, hno⟩ := Option.bind_eq_some_iff.1 hname
      split at hno
      · rename_i hpos
        cases hno
        exact Nat.pos_of_ne_zero hpos
      · cases hno
    · exact ih _

theorem createEntry_entry (info : Option ChapterInfo) (hn : 0 < n) :
    (createEntry info n e).entry i =
      if i + 1 = n then some e else if i + 1 < n then (info.getD ⟨-1, 0, []⟩).entry i else none := by
  unfold createEntry ChapterInfo.entry realloc
  dsimp only
  generalize (info.getD ⟨-1, 0, []⟩).entries = entries
  have hlen : (entries.take n ++ List.replicate (n - entries.length) none).length = n := by
    rw [List.length_append, List.length_take, List.length_replicate]
    omega
  rw [List.getElem?_set, hlen]
  by_cases heq : i + 1 = n
  · rw [if_pos (show n - 1 = i by omega), if_pos (show n - 1 < n by omega), if_pos heq]
    rfl
  · rw [if_neg (show ¬n - 1 = i by omega), if_neg heq]
    split
    · rename_i hlt
      by_cases hi : i < entries.length
      · rw [List.getElem?_append_left (by rw [List.length_take]; omega), List.getElem?_take_of_lt (by omega)]
      · rw [List.getElem?_append_right (by rw [List.length_take]; omega), List.getElem?_eq_none (Nat.le_of_not_lt hi),
          List.getElem?_replicate]
        split <;> rfl
    · rw [List.getElem?_eq_none (by omega)]
      rfl

/-- A chapter behind which only chapters with greater numbers have been completed. -/
def Stands (cs : List (ℕ × ChapterEntry)) (n : ℕ) (e : ChapterEntry) : Prop :=
  ∃ before after, cs = before ++ (n, e) :: after ∧ ∀ c ∈ after, n < c.1

theorem stands_concat {k : ℕ} {e' : ChapterEntry} :
    Stands (cs ++ [(n, e')]) k e ↔ if k = n then e' = e else k < n ∧ Stands cs k e := by
  constructor
  · rintro ⟨before, after, hcs, hafter⟩
    rcases List.eq_nil_or_concat' after with rfl | ⟨after, c, rfl⟩
    · cases (List.append_inj' hcs rfl).2
      rw [if_pos rfl]
    · rw [← List.cons_append, ← List.append_assoc] at hcs
      obtain ⟨hinit, hlast⟩ := List.append_inj' hcs rfl
      cases hlast
      have hlt : k < n := hafter _ List.mem_concat_self
      rw [if_neg (Nat.ne_of_lt hlt)]
      exact ⟨hlt, before, after, hinit, fun c hc => hafter c (List.mem_append_left _ hc)⟩
  · split
    · rename_i heq
      intro he
      exact ⟨cs, [], by rw [heq, he], fun c hc => absurd hc List.not_mem_nil⟩
    · rintro ⟨hlt, before, after, rfl, hafter⟩
      refine ⟨before, after ++ [(n, e')], by rw [List.append_assoc, List.cons_append], fun c hc => ?_⟩
      rcases List.mem_append.1 hc with hc | hc
      · exact hafter c hc
      · rw [List.mem_singleton.1 hc]
        exact hlt

theorem table_concat (c : ℕ × ChapterEntry) : table (cs ++ [c]) = some (createEntry (table cs) c.1 c.2) := by
  unfold table
  rw [List.foldl_append]
  rfl

theorem table_entry (hpos : ∀ c ∈ cs, 0 < c.1) :
    ((table cs).getD ⟨-1, 0, []⟩).entry i = some e ↔ Stands cs (i + 1) e := by
  induction cs using List.reverseRecOn with
  | nil => exact iff_of_false nofun fun ⟨_, _, h, _⟩ => absurd h.symm (by simp)
  | append_singleton cs c ih =>
    rw [table_concat, Option.getD_some, createEntry_entry _ (hpos _ List.mem_concat_self), stands_concat,
      ← ih fun c hc => hpos c (List.mem_append_left _ hc)]
    split
    · exact Option.some_inj
    · split
      · rename_i hlt
        rw [and_iff_right hlt]
      · rename_i hlt
        exact iff_of_false nofun fun h => hlt h.1

/-! ## The chapter of a packet -/

/-- Every entry has been written to. -/
def ChapterInfo.Initialised (info : ChapterInfo) : Prop := ∀ i < info.max_chapter, ∃ e, info.entry i = some e

/-- The start times increase. -/
def ChapterInfo.Increasing (info : ChapterInfo) : Prop :=
  ∀ i j d e, i < j → info.entry i = some d → info.entry j = some e → d.start_pts < e.start_pts

/-- The last entry that starts before a time, or -1. -/
def ChapterInfo.IsLast (info : ChapterInfo) (pts chapter : ℤ) : Prop :=
  (chapter = -1 ∨ ∃ e, info.entry chapter.toNat = some e ∧ 0 ≤ chapter ∧ e.start_pts < pts) ∧
    ∀ (i : ℕ) e, chapter < i → info.entry i = some e → ¬e.start_pts < pts

/-- For every time, whatever the chapter has been, the entries that are read are there, and the last one that starts
before the time is found when the times increase. -/
def ChapterInfo.Finds (info : ChapterInfo) : Prop :=
  ∀ current pts, ∃ info' title, updateChapter { info with current_chapter := current } pts = some (info', title) ∧
    (info.Increasing → info.IsLast pts info'.current_chapter)

theorem chapterLoop_spec (hinit : info.Initialised) (pts : ℤ) {left chapter : ℕ}
    (hleft : chapter + left = info.max_chapter)
    (hbefore : ∀ i < chapter, ∃ e, info.entry i = some e ∧ e.start_pts < pts) :
    ∃ n, chapterLoop info pts left chapter = some n ∧ (∀ i < n, ∃ e, info.entry i = some e ∧ e.start_pts < pts) ∧
      (n = info.max_chapter ∨ ∃ e, info.entry n = some e ∧ ¬e.start_pts < pts) := by
  induction left generalizing chapter with
  | zero => exact ⟨chapter, rfl, hbefore, .inl hleft⟩
  | succ left ih =>
    obtain ⟨e, he⟩ := hinit chapter (by omega)
    rw [chapterLoop, show info.entries[chapter]?.join = some e from he, Option.bind_some]
    split
    · rename_i hlt
      refine ih (by omega) fun i hi => ?_
      rcases Nat.lt_succ_iff_lt_or_eq.1 hi with hi | rfl
      · exact hbefore i hi
      · exact ⟨e, he, hlt⟩
    · rename_i hge
      exact ⟨chapter, rfl, hbefore, .inr ⟨e, he, hge⟩⟩

theorem ChapterInfo.Initialised.finds (hinit : info.Initialised) (hlen : info.entries.length = info.max_chapter) :
    info.Finds := by
  intro current pts
  obtain ⟨n, hloop, hbefore, hstop⟩ := @chapterLoop_spec { info with current_chapter := current } hinit pts _ _
    (Nat.zero_add _) fun i hi => absurd hi (Nat.not_lt_zero i)
  have hlast : info.Increasing → info.IsLast pts (n - 1) := by
    intro hinc
    constructor
    · rcases Nat.eq_zero_or_pos n with rfl | hn
      · exact .inl rfl
      · obtain ⟨e, he, hlt⟩ := hbefore (n - 1) (by omega)
        have hnat : ((n : ℤ) - 1).toNat = n - 1 := by omega
        exact .inr ⟨e, hnat.symm ▸ he, by omega, hlt⟩
    · intro i e hi he hlt
      rcases hstop with hmax | ⟨d, hd, hge⟩
      · have hnone : info.entries[i]? = none := List.getElem?_eq_none (by rw [hlen]; exact hmax ▸ by omega)
        rw [ChapterInfo.entry, hnone] at he
        cases he
      · rcases Nat.eq_or_lt_of_le (show n ≤ i by omega) with rfl | hni
        · cases hd.symm.trans he
          exact hge hlt
        · exact hge (Int.lt_trans (hinc n i d e hni hd he) hlt)
  unfold updateChapter
  rw [hloop, Option.bind_some]
  dsimp only
  split
  · rename_i hnew
    obtain ⟨e, he, -⟩ := hbefore (n - 1) (by omega)
    have hnat : ((n : ℤ) - 1).toNat = n - 1 := by omega
    rw [hnat, show info.entries[n - 1]?.join = some e from he, Option.map_some]
    exact ⟨_, _, rfl, hlast⟩
  · exact ⟨_, _, rfl, hlast⟩

/-! ## Which comments make a table -/

/-- The chapter that has been completed last under a number. -/
def lastOf (cs : List (ℕ × ChapterEntry)) (n : ℕ) : Option ChapterEntry := (cs.reverse.find? (·.1 = n)).map Prod.snd

/-- The table is initialised, keeps each chapter as it was completed last, and finds the chapter of each packet. -/
def Serves (startPts : ℤ → ℤ → ℤ → ℤ → ℤ) (packets : List (List (List Char))) : Prop :=
  ∀ info, packets.foldl (readComments startPts) none = some info → info.Initialised ∧ info.Finds ∧
    ∀ n e, lastOf (packets.flatMap (completed startPts .fresh)) n = some e → info.entry (n - 1) = some e

/-- Every number up to one that occurs occurs, and each of them somewhere in front of nothing but greater numbers. -/
def Ascending (ns : List ℕ) : Prop :=
  ∀ n ∈ ns, ∀ k, 0 < k → k ≤ n → ∃ before after, ns = before ++ k :: after ∧ ∀ m ∈ after, k < m

theorem stands_iff : (∃ e, Stands cs n e) ↔
    ∃ before after, cs.map Prod.fst = before ++ n :: after ∧ ∀ m ∈ after, n < m := by
  constructor
  · rintro ⟨e, before, after, rfl, hafter⟩
    refine ⟨before.map Prod.fst, after.map Prod.fst, by rw [List.map_append]; rfl, fun m hm => ?_⟩
    obtain ⟨c, hc, rfl⟩ := List.mem_map.1 hm
    exact hafter c hc
  · rintro ⟨before, after, hcs, hafter⟩
    obtain ⟨before', rest, rfl, -, hrest⟩ := List.map_eq_append_iff.1 hcs
    obtain ⟨c, after', rfl, rfl, rfl⟩ := List.map_eq_cons_iff.1 hrest
    exact ⟨c.2, before', after', rfl, fun d hd => hafter d.1 (List.mem_map_of_mem hd)⟩

theorem Stands.lastOf (h : Stands cs n e) : lastOf cs n = some e := by
  obtain ⟨before, after, rfl, hafter⟩ := h
  have hnone : after.reverse.find? (·.1 = n) = none := List.find?_eq_none.2 fun c hc hn => by
    have hlt := hafter c (List.mem_reverse.1 hc)
    rw [of_decide_eq_true hn] at hlt
    exact Nat.lt_irrefl n hlt
  unfold Ogg.lastOf
  rw [List.reverse_append, List.reverse_cons, List.append_assoc, List.find?_append, hnone, Option.none_or,
    List.singleton_append, List.find?_cons_of_pos (by simp), Option.map_some]

theorem exists_lastOf (hn : n ∈ cs.map Prod.fst) : ∃ e, lastOf cs n = some e := by
  obtain ⟨c, hc, rfl⟩ := List.mem_map.1 hn
  obtain ⟨d, hd⟩ := Option.isSome_iff_exists.1
    (List.find?_isSome (p := fun d => decide (d.1 = c.1)).2 ⟨c, List.mem_reverse.2 hc, decide_eq_true rfl⟩)
  exact ⟨d.2, by rw [lastOf, hd, Option.map_some]⟩

/-- The table serves if and only if, among the numbers of the chapters that the comments complete, every number up to
the greatest occurs, and occurs last in front of nothing but greater ones. -/
theorem serves_iff (startPts : ℤ → ℤ → ℤ → ℤ → ℤ) (packets : List (List (List Char))) : Serves startPts packets ↔
    Ascending ((packets.flatMap (completed startPts .fresh)).map Prod.fst) := by
  unfold Serves
  rw [readComments_eq]
  have hpos : ∀ c ∈ packets.flatMap (completed startPts .fresh), 0 < c.1 := fun c hc => by
    obtain ⟨comments, -, hc⟩ := List.mem_flatMap.1 hc
    exact completed_pos _ comments c hc
  generalize packets.flatMap (completed startPts .fresh) = cs at hpos
  rcases List.eq_nil_or_concat' cs with rfl | ⟨cs, c, rfl⟩
  · exact iff_of_true nofun fun n hn => absurd hn List.not_mem_nil
  · have hentry (i : ℕ) (e : ChapterEntry) := @table_entry (cs ++ [c]) i e hpos
    have hcpos := hpos c List.mem_concat_self
    rw [table_concat, Option.getD_some] at hentry
    have hlen : (createEntry (table cs) c.1 c.2).entries.length = c.1 := by
      unfold createEntry realloc
      rw [List.length_set, List.length_append, List.length_take, List.length_replicate]
      omega
    have hmem : c.1 ∈ (cs ++ [c]).map Prod.fst := List.mem_map_of_mem List.mem_concat_self
    rw [table_concat]
    constructor
    · intro h n hn k hk hkn
      obtain ⟨hinit, -, hkept⟩ := h _ rfl
      obtain ⟨e, he⟩ := exists_lastOf hn
      have hinside : n - 1 < c.1 := by
        rw [← hlen]
        refine Nat.lt_of_not_le fun hge => ?_
        have hnone := hkept n e he
        rw [ChapterInfo.entry, List.getElem?_eq_none hge] at hnone
        cases hnone
      obtain ⟨e', he'⟩ := hinit (k - 1) (show k - 1 < c.1 by omega)
      have hstands := (hentry (k - 1) e').1 he'
      rw [Nat.sub_add_cancel hk] at hstands
      exact stands_iff.1 ⟨e', hstands⟩
    · intro h info hinfo
      cases hinfo
      have hinit : (createEntry (table cs) c.1 c.2).Initialised := fun i hi => by
        obtain ⟨e, he⟩ := stands_iff.2 (h c.1 hmem (i + 1) (Nat.succ_pos i) hi)
        exact ⟨e, (hentry i e).2 he⟩
      refine ⟨hinit, hinit.finds hlen, fun n e he => ?_⟩
      have hn : n ∈ (cs ++ [c]).map Prod.fst := by
        obtain ⟨d, hd, -⟩ := Option.map_eq_some_iff.1 he
        have hdn : d.1 = n := by simpa using List.find?_some hd
        exact hdn ▸ List.mem_map_of_mem (List.mem_reverse.1 (List.mem_of_find?_eq_some hd))
      have hnpos : 0 < n := by
        obtain ⟨d, hd, rfl⟩ := List.mem_map.1 hn
        exact hpos d hd
      obtain ⟨e', he'⟩ := stands_iff.2 (h n hn n hnpos (Nat.le_refl n))
      cases he.symm.trans he'.lastOf
      refine (hentry (n - 1) e).2 ?_
      rwa [Nat.sub_add_cancel hnpos]

/-- Comments for a second chapter without a first one. -/
def secondChapter : List (List Char) := ["CHAPTER02=00:00:00.000".toList, "CHAPTER02NAME=b".toList]

theorem not_serves : ¬∀ packets, Serves (fun hour min sec msec => (msec + 1000 * sec + 60000 * min + 3600000 * hour) * 90)
    packets := by
  intro h
  obtain ⟨e, he⟩ := (h [secondChapter] _ rfl).1 0 (by decide)
  exact Option.some_ne_none e (he.symm.trans rfl)

end Xine.Ogg
