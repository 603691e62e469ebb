import Mathlib.Algebra.Order.Ring.Nat
import Xine.Osd.Drawing

/-!
# The array of the runs

Which writes of `osd_show` are inside the array. Only the runs that do not end their line, the inner ones, look at
the room that is left, and they take one more run for each line into account. What is written depends on the
number of inner runs of each line alone.
-/

namespace Xine.Osd

/-! ## Inner runs -/

/-- The inner runs of a line that has some pixels more, when a run is counted. The length of a run has 16
bits, and a run whose length is zero is not written. -/
def innerFrom : RleElem → List ℕ → ℕ
  | _, [] => 0
  | rle, c :: pixels =>
    if rle.color ≠ c then
      (if rle.len ≠ 0 then 1 else 0) + innerFrom { len := 1, color := c } pixels
    else
      innerFrom { rle with len := (rle.len + 1) % 65536 } pixels

/-- The inner runs of a line: those that another color ends. -/
def inner (pixels : List ℕ) : ℕ := innerFrom { len := 0, color := 0 } pixels

/-- The number of elements that have been written, and of elements that the array has, with whether all
writes were inside. -/
structure Room where
  num_rle : ℕ
  data_size : ℕ
  inside : Bool

def Room.write (r : Room) : Room :=
  { r with num_rle := r.num_rle + 1, inside := r.inside && decide (r.num_rle < r.data_size) }

/-- An inner run, when there are `spare` more lines. -/
def Room.inner (spare : ℕ) (r : Room) : Room :=
  { r with data_size := if r.data_size < r.num_rle + spare then r.data_size + 1024
                        else r.data_size }.write

/-- Some inner runs. -/
def Room.inners (spare : ℕ) : ℕ → Room → Room
  | 0, r => r
  | k + 1, r => Room.inners spare k (r.inner spare)

/-- A line with some inner runs. -/
def Room.line (spare : ℕ) (r : Room) (k : ℕ) : Room := (Room.inners spare k r).write

/-- The room of the array that is being written. -/
def Show.room (s : Show) : Room where
  num_rle := s.num_rle
  data_size := s.data_size
  inside := s.writes.all fun w => decide (w.1 < w.2)

theorem Show.room_write (s : Show) : s.write.room = s.room.write := by
  unfold Show.room Show.write Room.write
  rw [Room.mk.injEq]
  refine ⟨rfl, rfl, ?_⟩
  rw [List.all_append, List.all_cons, List.all_nil, Bool.and_true]

theorem Show.room_grow_write (spare : ℕ) (s : Show) :
    (s.grow spare).write.room = s.room.inner spare := by
  rw [Show.room_write]
  unfold Room.inner Show.grow Show.room
  have hcast : ((s.data_size : ℤ) < s.num_rle + spare) ↔ s.data_size < s.num_rle + spare := by omega
  simp only [hcast]
  split <;> rfl

theorem Show.room_pixels (spare : ℕ) (pixels : List ℕ) :
    ∀ s : Show, (pixels.foldl (Show.pixel spare) s).room =
      Room.inners spare (innerFrom s.rle pixels) s.room := by
  induction pixels with
  | nil => exact fun _ => rfl
  | cons c pixels ih =>
    intro s
    rw [List.foldl_cons, ih, innerFrom]
    unfold Show.pixel
    split_ifs with hcolor hlen
    · rw [Nat.add_comm 1, Room.inners, ← Show.room_grow_write]
      rfl
    · rw [Nat.zero_add]
      rfl
    · rfl

theorem Show.room_line (spare : ℕ) (s : Show) (pixels : List ℕ) :
    (s.line spare pixels).room = s.room.line spare (inner pixels) := by
  unfold Show.line
  rw [Show.room_write, Show.room_pixels]
  rfl

theorem Show.room_lines (spare : ℕ) (lines : List (List ℕ)) :
    ∀ s : Show, (lines.foldl (Show.line spare) s).room =
      (lines.map inner).foldl (Room.line spare) s.room := by
  induction lines with
  | nil => exact fun _ => rfl
  | cons pixels lines ih =>
    intro s
    rw [List.foldl_cons, ih, Show.room_line]
    rfl

/-! ## The size of the array -/

variable {spare n m last : ℕ} {r : Room}

/-- The size of the array when there are some lines more and `n` runs have been written, `m` of them
inner ones, the last of these at `last`. It is at most what the inner runs can have made of it, and at
most what the last one has asked for. If it is less than both, the runs of the remaining lines fit. -/
structure Room.Grown (spare n m last : ℕ) (r : Room) : Prop where
  num_rle : r.num_rle = n
  chunks : 1024 ∣ r.data_size
  le_inners : r.data_size ≤ 1024 * (m + 1)
  le_last : 0 < m → r.data_size < last + spare + 1024
  large : r.data_size = 1024 * (m + 1) ∨ (0 < m ∧ last + spare ≤ r.data_size) ∨
    spare + m + 1022 ≤ r.data_size
  last_lt : 0 < m → last < n
  le_last_succ : m ≤ last + 1
  inners_le : m ≤ n

theorem Room.Grown.inner (h : r.Grown spare n m last) (hspare : 0 < spare) (hle : n ≤ r.data_size) :
    (r.inner spare).Grown spare (n + 1) (m + 1) n ∧ n + 1 ≤ (r.inner spare).data_size ∧
      (r.inner spare).inside = r.inside := by
  obtain ⟨hnum, hchunks, hinners, hlast, hlarge, hlast_lt, hlast_succ, hmn⟩ := h
  unfold Room.inner Room.write
  dsimp only
  rw [hnum]
  split_ifs with hgrow
  · refine ⟨⟨rfl, Nat.dvd_add hchunks (dvd_refl 1024), by dsimp only; omega,
      by dsimp only; omega, ?_, by omega, by omega, by omega⟩, by omega, ?_⟩
    · dsimp only
      omega
    · rw [decide_eq_true (by omega), Bool.and_true]
  · refine ⟨⟨rfl, hchunks, by dsimp only; omega, by dsimp only; omega, ?_, by omega, by omega,
      by omega⟩, by omega, ?_⟩
    · dsimp only
      omega
    · rw [decide_eq_true (by omega), Bool.and_true]

theorem Room.Grown.inners (hspare : 0 < spare) (k : ℕ) :
    ∀ {n m last : ℕ} {r : Room}, r.Grown spare n m last → n ≤ r.data_size →
      (Room.inners spare k r).Grown spare (n + k) (m + k) (if k = 0 then last else n + k - 1) ∧
        n + k ≤ (Room.inners spare k r).data_size ∧ (Room.inners spare k r).inside = r.inside := by
  induction k with
  | zero => exact fun h hle => ⟨h, hle, rfl⟩
  | succ k ih =>
    intro n m last r h hle
    obtain ⟨hgrown, hle', hinside⟩ := h.inner hspare hle
    obtain ⟨hgrown', hle'', hinside'⟩ := ih hgrown hle'
    rw [Room.inners, if_neg (Nat.succ_ne_zero k)]
    refine ⟨?_, by omega, hinside'.trans hinside⟩
    rw [show n + (k + 1) = n + 1 + k by omega, show m + (k + 1) = m + 1 + k by omega,
      show n + 1 + k - 1 = if k = 0 then n else n + 1 + k - 1 by split <;> omega]
    exact hgrown'

theorem Room.Grown.full_iff {j : ℕ} (h : r.Grown spare (j + m) m last) (hj : j ≤ spare) :
    r.data_size ≤ j + m ↔
      1024 + 1023 * m ≤ j ∨ 0 < m ∧ ∃ t, last + spare ≤ 1024 * t ∧ 1024 * t ≤ j + m := by
  obtain ⟨t, ht⟩ := h.chunks
  have hinners := h.le_inners
  have hlast := h.le_last
  constructor
  · intro hfull
    rcases h.large with hlarge | ⟨hpos, hlarge⟩ | hlarge
    · exact Or.inl (by omega)
    · exact Or.inr ⟨hpos, t, by omega, by omega⟩
    · omega
  · rintro (hfew | ⟨hpos, u, hu, hu'⟩)
    · omega
    · have := hlast hpos
      omega

/-! ## Several lines -/

/-- The inner runs of the lines before the line `j`, when each line has some. -/
def total (k : ℕ → ℕ) : ℕ → ℕ
  | 0 => 0
  | j + 1 => total k j + k j

/-- The array before the first run. -/
def Room.start : Room := { num_rle := 0, data_size := 1024, inside := true }

/-- The array in front of the line `j`. -/
def rooms (spare : ℕ) (k : ℕ → ℕ) : ℕ → Room
  | 0 => Room.start
  | j + 1 => (rooms spare k j).line spare (k j)

/-- The last line before the line `j` that has inner runs. -/
structure LastInner (k : ℕ → ℕ) (j i : ℕ) : Prop where
  lt : i < j
  pos : 0 < k i
  same : total k (i + 1) = total k j

/-- The end of the line `j` does not find room. -/
def Full (spare : ℕ) (k : ℕ → ℕ) (j : ℕ) : Prop :=
  1024 + 1023 * total k (j + 1) ≤ j ∨ 0 < total k (j + 1) ∧ ∃ i, LastInner k (j + 1) i ∧
    ∃ t, i + (total k (j + 1) - 1) + spare ≤ 1024 * t ∧ 1024 * t ≤ j + total k (j + 1)

variable {k : ℕ → ℕ}

theorem total_mono (k : ℕ → ℕ) : Monotone (total k) :=
  monotone_nat_of_le_succ fun _ => Nat.le_add_right _ _

theorem LastInner.unique {j i i' : ℕ} (h : LastInner k j i) (h' : LastInner k j i') : i = i' := by
  rcases Nat.lt_trichotomy i i' with hlt | rfl | hlt
  · have hmono := total_mono k (show i + 1 ≤ i' by omega)
    have hstep : total k (i' + 1) = total k i' + k i' := rfl
    have := h.same
    have := h'.same
    have := h'.pos
    omega
  · rfl
  · have hmono := total_mono k (show i' + 1 ≤ i by omega)
    have hstep : total k (i + 1) = total k i + k i := rfl
    have := h.same
    have := h'.same
    have := h.pos
    omega

/-- The array in front of the line `j`, when all writes have been inside. -/
structure Room.Before (spare : ℕ) (k : ℕ → ℕ) (j last : ℕ) (r : Room) : Prop where
  grown : r.Grown spare (j + total k j) (total k j) last
  room : j + total k j ≤ r.data_size
  last : 0 < total k j → ∃ i, LastInner k j i ∧ last = i + (total k j - 1)

theorem Room.before_start (spare : ℕ) (k : ℕ → ℕ) : Room.start.Before spare k 0 0 where
  grown := ⟨rfl, dvd_refl 1024, le_rfl, fun h => absurd h (Nat.lt_irrefl 0), Or.inl rfl,
    fun h => absurd h (Nat.lt_irrefl 0), Nat.zero_le _, le_rfl⟩
  room := Nat.zero_le _
  last := fun h => absurd h (Nat.lt_irrefl 0)

theorem Room.Grown.write (h : r.Grown spare n m last) : r.write.Grown spare (n + 1) m last := by
  obtain ⟨hnum, hchunks, hinners, hlast, hlarge, hlast_lt, hlast_succ, hmn⟩ := h
  exact ⟨by rw [← hnum]; rfl, hchunks, hinners, hlast, hlarge,
    fun h => Nat.lt_succ_of_lt (hlast_lt h), hlast_succ, Nat.le_succ_of_le hmn⟩

theorem Room.Before.line {j : ℕ} (hspare : 0 < spare) (hj : j ≤ spare) (h : r.Before spare k j last) :
    ((r.line spare (k j)).inside = true ↔ r.inside = true ∧ ¬Full spare k j) ∧
      ((r.line spare (k j)).inside = true →
        ∃ last', (r.line spare (k j)).Before spare k (j + 1) last') := by
  obtain ⟨hgrown, hroom, hlast⟩ := h
  obtain ⟨hgrown', hroom', hinside⟩ := hgrown.inners hspare (k j) hroom
  have htotal : total k (j + 1) = total k j + k j := rfl
  rw [Nat.add_assoc, ← htotal] at hgrown' hroom'
  have hlast' : 0 < total k (j + 1) → ∃ i, LastInner k (j + 1) i ∧
      (if k j = 0 then last else j + total k (j + 1) - 1) = i + (total k (j + 1) - 1) := by
    intro hpos
    by_cases hk : k j = 0
    · obtain ⟨i, hi, hle⟩ := hlast (by omega)
      exact ⟨i, ⟨Nat.lt_succ_of_lt hi.lt, hi.pos, by rw [hi.same]; omega⟩, by rw [if_pos hk]; omega⟩
    · exact ⟨j, ⟨Nat.lt_succ_self j, Nat.pos_of_ne_zero hk, rfl⟩, by rw [if_neg hk]; omega⟩
  have hfull : (Room.inners spare (k j) r).data_size ≤ j + total k (j + 1) ↔ Full spare k j := by
    rw [hgrown'.full_iff hj]
    unfold Full
    refine or_congr_right (and_congr_right fun hpos => ?_)
    obtain ⟨i, hi, hle⟩ := hlast' hpos
    rw [hle]
    exact ⟨fun ht => ⟨i, hi, ht⟩, fun ⟨i', hi', ht⟩ => by rwa [hi.unique hi']⟩
  have hline : (r.line spare (k j)).inside = true ↔ r.inside = true ∧ ¬Full spare k j := by
    rw [← hfull, ← hinside, Nat.not_le]
    show ((Room.inners spare (k j) r).inside && decide ((Room.inners spare (k j) r).num_rle < _)) =
      true ↔ _
    rw [Bool.and_eq_true, decide_eq_true_eq, hgrown'.num_rle]
  refine ⟨hline, fun hinside' => ⟨_, ?_, ?_, hlast'⟩⟩
  · rw [show j + 1 + total k (j + 1) = j + total k (j + 1) + 1 by omega]
    exact hgrown'.write
  · have hnot := mt hfull.1 (hline.1 hinside').2
    show j + 1 + total k (j + 1) ≤ (Room.inners spare (k j) r).data_size
    omega

theorem Room.inners_outside (k : ℕ) :
    ∀ {r : Room}, r.inside = false → (Room.inners spare k r).inside = false := by
  induction k with
  | zero => exact fun h => h
  | succ k ih =>
    intro r h
    apply ih
    show (r.inside && _) = false
    rw [h, Bool.false_and]

theorem Room.line_outside (k : ℕ) (h : r.inside = false) : (r.line spare k).inside = false := by
  show ((Room.inners spare k r).inside && _) = false
  rw [Room.inners_outside k h, Bool.false_and]

theorem rooms_inside_iff (hspare : 0 < spare) (k : ℕ → ℕ) (j : ℕ) :
    j ≤ spare + 1 → ((rooms spare k j).inside = true ↔ ∀ l < j, ¬Full spare k l) ∧
      ((rooms spare k j).inside = true → ∃ last, (rooms spare k j).Before spare k j last) := by
  induction j with
  | zero =>
    exact fun _ => ⟨⟨fun _ _ h => absurd h (Nat.not_lt_zero _), fun _ => rfl⟩,
      fun _ => ⟨0, Room.before_start spare k⟩⟩
  | succ j ih =>
    intro hj
    obtain ⟨hiff, hbefore⟩ := ih (by omega)
    rw [rooms]
    cases hinside : (rooms spare k j).inside with
    | false =>
      rw [Room.line_outside _ hinside]
      refine ⟨⟨fun h => absurd h Bool.false_ne_true, fun h => ?_⟩, fun h => absurd h Bool.false_ne_true⟩
      have := hiff.2 fun l hl => h l (Nat.lt_succ_of_lt hl)
      rw [hinside] at this
      exact absurd this Bool.false_ne_true
    | true =>
      obtain ⟨last, h⟩ := hbefore hinside
      obtain ⟨hline, hbefore'⟩ := h.line hspare (Nat.le_of_lt_succ hj)
      refine ⟨?_, hbefore'⟩
      rw [hline, hinside]
      constructor
      · rintro ⟨-, hnot⟩ l hl
        rcases Nat.lt_succ_iff_lt_or_eq.1 hl with hl | rfl
        · exact hiff.1 hinside l hl
        · exact hnot
      · exact fun h => ⟨rfl, h j (Nat.lt_succ_self j)⟩

/-! ## The pictures that fit -/

/-- The runs of lines with some inner runs each fit the array. A single line has 1024 runs at most. Of
several lines, those up to any line have an inner run for each 1023 lines behind the first 1024, and
the number of runs of all lines, and that of the runs of all lines but the last, is not one more than a
multiple of 1024 when there are inner runs, but none behind the first two lines, or behind the first. -/
structure Fits (ks : List ℕ) : Prop where
  single : ks.length = 1 → ks.sum < 1024
  early : 2 ≤ ks.length → ∀ j < ks.length, j < 1024 + 1023 * (ks.take (j + 1)).sum
  all : 2 ≤ ks.length → 0 < ks.sum → ks.sum = (ks.take 2).sum → ¬1024 ∣ ks.length - 1 + ks.sum
  butLast : 2 ≤ ks.length → 0 < (ks.take (ks.length - 1)).sum →
    (ks.take (ks.length - 1)).sum = (ks.take 1).sum →
    ¬1024 ∣ ks.length - 2 + (ks.take (ks.length - 1)).sum

theorem not_full_iff (hspare : 0 < spare) (k : ℕ → ℕ) :
    (∀ l < spare + 1, ¬Full spare k l) ↔
      (∀ j < spare + 1, j < 1024 + 1023 * total k (j + 1)) ∧
        (0 < total k (spare + 1) → total k (spare + 1) = total k 2 →
          ¬1024 ∣ spare + total k (spare + 1)) ∧
        (0 < total k spare → total k spare = total k 1 → ¬1024 ∣ spare - 1 + total k spare) := by
  have hone : total k 1 = k 0 := Nat.zero_add _
  have htwo : total k 2 = total k 1 + k 1 := rfl
  constructor
  · intro h
    refine ⟨fun j hj => ?_, fun hpos hsame ⟨t, ht⟩ => ?_, fun hpos hsame ⟨t, ht⟩ => ?_⟩
    · by_contra hle
      exact h j hj (Or.inl (by omega))
    · refine h spare (Nat.lt_succ_self spare) (Or.inr ⟨hpos, ?_⟩)
      by_cases hk : k 1 = 0
      · have hfirst : total k (0 + 1) = total k (spare + 1) := by
          rw [hsame, htwo, hk]
          rfl
        exact ⟨0, ⟨Nat.succ_pos spare, by omega, hfirst⟩, t, by omega, by omega⟩
      · exact ⟨1, ⟨by omega, Nat.pos_of_ne_zero hk, hsame.symm⟩, t, by omega, by omega⟩
    · have hlast : spare - 1 + 1 = spare := by omega
      refine h (spare - 1) (by omega) (Or.inr ?_)
      rw [hlast]
      exact ⟨hpos, 0, ⟨hspare, by omega, hsame.symm⟩, t, by omega, by omega⟩
  · rintro ⟨hearly, hall, hbutLast⟩ l hl (hfew | ⟨hpos, i, hi, t, ht, ht'⟩)
    · exact absurd (hearly l hl) (by omega)
    · have hsame := hi.same
      have hlt := hi.lt
      -- the last inner run is in one of the first two lines, and the line is one of the last two
      obtain rfl | hl : l = spare ∨ l + 1 = spare := by omega
      · have h12 := total_mono k (show 1 ≤ 2 by omega)
        have h2 := total_mono k (show 2 ≤ l + 1 by omega)
        obtain rfl | rfl : i = 0 ∨ i = 1 := by omega
        · rw [Nat.zero_add] at hsame
          by_cases hexact : 1024 * t = l + total k (l + 1)
          · exact hall hpos (by omega) ⟨t, hexact.symm⟩
          · have h1 := total_mono k (Nat.succ_le_of_lt hspare)
            rw [Nat.succ_eq_add_one, Nat.zero_add] at h1
            have h3 := total_mono k (show l ≤ l + 1 by omega)
            exact hbutLast (by omega) (by omega) ⟨t, by omega⟩
        · exact hall hpos hsame.symm ⟨t, by omega⟩
      · subst hl
        obtain rfl : i = 0 := by omega
        exact hbutLast hpos hsame.symm ⟨t, by omega⟩

theorem total_getD (ks : List ℕ) (j : ℕ) : total (fun l => ks.getD l 0) j = (ks.take j).sum := by
  induction j with
  | zero => rfl
  | succ j ih =>
    rw [total, ih, List.take_add_one, List.sum_append, List.getD_eq_getElem?_getD]
    cases ks[j]? <;> rfl

theorem rooms_getD (spare : ℕ) (ks : List ℕ) (j : ℕ) (hj : j ≤ ks.length) :
    rooms spare (fun l => ks.getD l 0) j = (ks.take j).foldl (Room.line spare) Room.start := by
  induction j with
  | zero => rfl
  | succ j ih =>
    rw [rooms, ih (by omega), List.take_succ_eq_append_getElem (by omega), List.foldl_append,
      List.getD_eq_getElem?_getD,
      List.getElem?_eq_getElem (by omega)]
    rfl

theorem Room.inners_zero (k : ℕ) :
    ∀ {r : Room}, r.num_rle ≤ 1024 → r.data_size = 1024 → r.inside = true →
      ((Room.inners 0 k r).write.inside = true ↔ r.num_rle + k < 1024) := by
  induction k with
  | zero =>
    intro r _ hsize hinside
    show (r.inside && decide (r.num_rle < r.data_size)) = true ↔ _
    rw [hinside, Bool.true_and, decide_eq_true_eq, hsize]
    rfl
  | succ k ih =>
    intro r hnum hsize hinside
    have hgrow : ¬r.data_size < r.num_rle + 0 := by omega
    rw [Room.inners]
    by_cases hlt : r.num_rle < 1024
    · rw [ih]
      · show r.num_rle + 1 + k < 1024 ↔ _
        omega
      · show r.num_rle + 1 ≤ 1024
        omega
      · show (if r.data_size < r.num_rle + 0 then _ else _) = 1024
        rw [if_neg hgrow, hsize]
      · show (r.inside && decide (r.num_rle < if r.data_size < r.num_rle + 0 then _ else _)) = true
        rw [if_neg hgrow, hinside, hsize, decide_eq_true hlt]
        rfl
    · have houtside : (r.inner 0).inside = false := by
        show (r.inside && decide (r.num_rle < if r.data_size < r.num_rle + 0 then _ else _)) = false
        rw [if_neg hgrow, hsize, decide_eq_false hlt, Bool.and_false]
      have hwrite : (Room.inners 0 k (r.inner 0)).write.inside = false := by
        show ((Room.inners 0 k (r.inner 0)).inside && _) = false
        rw [Room.inners_outside k houtside, Bool.false_and]
      rw [hwrite]
      exact ⟨fun h => absurd h Bool.false_ne_true, fun h => by omega⟩

theorem inside_iff (ks : List ℕ) :
    (ks.foldl (Room.line (ks.length - 1)) Room.start).inside = true ↔ Fits ks := by
  rcases hlen : ks.length with - | - | spare
  · obtain rfl := List.eq_nil_of_length_eq_zero hlen
    exact ⟨fun _ => ⟨by simp, by simp, by simp, by simp⟩, fun _ => rfl⟩
  · obtain ⟨k, rfl⟩ := List.length_eq_one_iff.1 hlen
    have hsingle := Room.inners_zero (r := Room.start) k (Nat.zero_le _) rfl rfl
    rw [show Room.start.num_rle + k = k from Nat.zero_add k] at hsingle
    refine Iff.trans hsingle ⟨fun h => ⟨fun _ => by simpa using h, by simp, by simp, by simp⟩,
      fun h => by simpa using h.single rfl⟩
  · have hiff := (rooms_inside_iff (Nat.succ_pos spare) (fun l => ks.getD l 0) (spare + 1 + 1)
      le_rfl).1
    rw [not_full_iff (Nat.succ_pos spare)] at hiff
    rw [rooms_getD _ _ _ hlen.ge] at hiff
    simp only [total_getD, ← hlen, List.take_length] at hiff
    have hlast : ks.length - 1 = spare + 1 := by omega
    refine Iff.trans hiff ⟨fun ⟨hearly, hall, hbutLast⟩ => ⟨by omega, fun _ => hearly, fun _ => ?_,
      fun _ => ?_⟩, fun h => ⟨h.early (by omega), ?_, ?_⟩⟩
    · rw [hlast]
      exact hall
    · rw [hlast, show ks.length - 2 = spare by omega]
      exact hbutLast
    · have hall := h.all (by omega)
      rwa [hlast] at hall
    · have hbutLast := h.butLast (by omega)
      rwa [hlast, show ks.length - 2 = spare by omega] at hbutLast

theorem Show.inside_iff (s : Show) : (∀ w ∈ s.writes, w.1 < w.2) ↔ s.room.inside = true := by
  unfold Show.room
  simp only [List.all_eq_true, decide_eq_true_eq]

theorem osdShow_room {osd : OsdObject} {s : Show} (h : osd.osdShow = some s) :
    s.room = (osd.clamp.lines.map inner).foldl
      (Room.line ((osd.clamp.lines.map inner).length - 1)) Room.start := by
  unfold OsdObject.osdShow at h
  split at h
  swap
  · cases h
  cases h
  have hlines : osd.clamp.lines.length = (osd.clamp.y2 - osd.clamp.y1 + 1).toNat := by
    unfold OsdObject.lines
    rw [List.length_map, List.length_range]
  by_cases hnone : osd.clamp.y2 < osd.clamp.y1
  · have hnil : osd.clamp.lines = [] := List.eq_nil_of_length_eq_zero (by omega)
    rw [hnil]
    rfl
  · have hspare : osd.clamp.y2 - osd.clamp.y1 = ((osd.clamp.lines.length - 1 : ℕ) : ℤ) := by omega
    rw [hspare, Show.room_lines, List.length_map]
    rfl

/-- The elements of an overlay are written inside its array if and only if the runs of the rectangle
fit. -/
theorem osdShow_inside (osd : OsdObject) (s : Show) (h : osd.osdShow = some s) :
    (∀ w ∈ s.writes, w.1 < w.2) ↔ Fits (osd.clamp.lines.map inner) := by
  rw [Show.inside_iff, osdShow_room h, inside_iff]

/-- A rectangle of two lines, of which each has a run of three pixels. -/
def small : OsdObject := (osdNewObject 10 10 fun _ => 0).filledRect 2 2 4 3 0

theorem osdShow_inside_small :
    ∃ s, small.osdShow = some s ∧ s.num_rle = 2 ∧ ∀ w ∈ s.writes, w.1 < w.2 := by
  have hinner : small.clamp.lines.map inner = [0, 0] := by decide
  have hfits : Fits [0, 0] := ⟨by decide, by decide, by decide, by decide⟩
  exact ⟨_, rfl, by decide, (osdShow_inside small _ rfl).2 (hinner ▸ hfits)⟩

/-- A rectangle of one pixel in each of `height + 1` lines: `osd_filled_rect` with nothing between its
sides. -/
def tall (height : ℕ) : OsdObject :=
  (osdNewObject 10 2000 fun _ => 0).filledRect 0 0 0 height 1

theorem tall_area (height : ℕ) (offset : ℤ) : (tall height).area offset = 0 := by
  unfold tall OsdObject.filledRect osdNewObject
  simp only [min_self, max_self, sub_self, ite_self, ite_eq_right_iff, List.any_eq_true,
    decide_eq_true_eq]
  rintro ⟨row, -, hle, hlt⟩
  omega

theorem tall_inner {height : ℕ} (h : height < 2000) :
    (tall height).clamp.lines.map inner = List.replicate (height + 1) 0 := by
  have hpixels : ∀ y, (tall height).clamp.pixels y = [0] := by
    intro y
    have hwidth : ((tall height).clamp.x2 - (tall height).clamp.x1 + 1).toNat = 1 := by
      show (min (max 0 (max 0 0)) 10 - min (min 10 (min 0 0)) 10 + 1 : ℤ).toNat = 1
      decide
    unfold OsdObject.pixels
    rw [hwidth]
    show [(tall height).area _] = [0]
    rw [tall_area]
  have hheight : ((tall height).clamp.y2 - (tall height).clamp.y1 + 1).toNat = height + 1 := by
    show (min (max 0 (max 0 (height : ℤ))) 2000 - min (min 2000 (min 0 (height : ℤ))) 2000 + 1).toNat =
      height + 1
    omega
  unfold OsdObject.lines
  rw [hheight, List.map_map]
  refine List.eq_replicate_iff.2 ⟨by rw [List.length_map, List.length_range], fun b hb => ?_⟩
  obtain ⟨i, -, rfl⟩ := List.mem_map.1 hb
  rw [Function.comp_apply, hpixels]
  rfl

/-- The rectangle has more lines than the array has elements, and none of them enlarges it. -/
theorem osdShow_not_inside :
    ∃ s, (tall 1024).osdShow = some s ∧ ¬∀ w ∈ s.writes, w.1 < w.2 := by
  have hshow : ∃ s, (tall 1024).osdShow = some s := by
    unfold OsdObject.osdShow
    rw [if_pos (by decide)]
    exact ⟨_, rfl⟩
  obtain ⟨s, hs⟩ := hshow
  refine ⟨s, hs, ?_⟩
  rw [Show.inside_iff, osdShow_room hs, inside_iff, tall_inner (by decide)]
  intro hfits
  have hzero : ∀ a b : ℕ, ((List.replicate a 0).take b).sum = 0 := by
    intro a b
    rw [List.take_replicate, List.sum_replicate_nat, Nat.mul_zero]
  have hlen : (List.replicate (1024 + 1) 0).length = 1025 := List.length_replicate
  have hearly := hfits.early (by omega) 1024 (by omega)
  rw [hzero] at hearly
  omega

end Xine.Osd
