import Mathlib.Data.List.Basic

/-!
# Pictures that are painted by pointers

A picture is a memory with a row of places behind the other, and a program writes it with a pointer that goes along a
row and then on to the next one. `rect` is the loop for a rectangle, and `tiles` paints equal rectangles that lie side
by side from a corner. `assigned` is what a list of writes leaves at a place: in a picture of tiles the colour of
the tile at the place, if that tile is painted.
-/

namespace Tiles

variable {β : Type*} {writes writes' : List (ℕ × β)} {p : ℕ}

/-! ## Writes -/

/-- What is written last at a place. -/
def assigned : List (ℕ × β) → ℕ → Option β
  | [], _ => none
  | w :: writes, p => (assigned writes p).or (if w.1 = p then some w.2 else none)

/-- The memory after the writes. -/
def perform (writes : List (ℕ × β)) (mem : ℕ → β) : ℕ → β :=
  writes.foldl (fun mem w => Function.update mem w.1 w.2) mem

theorem assigned_append : assigned (writes ++ writes') p = (assigned writes' p).or (assigned writes p) := by
  induction writes with
  | nil => exact (Option.or_none).symm
  | cons w writes ih => rw [List.cons_append, assigned, assigned, ih, Option.or_assoc]

theorem assigned_eq_none (h : ∀ w ∈ writes, w.1 ≠ p) : assigned writes p = none := by
  induction writes with
  | nil => rfl
  | cons w writes ih =>
    obtain ⟨hw, hwrites⟩ := List.forall_mem_cons.1 h
    rw [assigned, ih hwrites, if_neg hw]
    rfl

theorem perform_apply (mem : ℕ → β) : perform writes mem p = (assigned writes p).getD (mem p) := by
  induction writes generalizing mem with
  | nil => rfl
  | cons w writes ih =>
    have hrest : perform (w :: writes) mem p = (assigned writes p).getD (Function.update mem w.1 w.2 p) := ih _
    rw [hrest, assigned]
    cases assigned writes p with
    | some b => rfl
    | none =>
      rw [Option.none_or, Option.getD_none]
      by_cases hw : w.1 = p
      · rw [if_pos hw, ← hw, Function.update_self]
        rfl
      · rw [if_neg hw, Function.update_of_ne (Ne.symm hw)]
        rfl

/-! ## Rectangles -/

/-- A row: the pointer goes on by one. -/
def row (cols ptr : ℕ) (color : ℕ → β) : List (ℕ × β) := (List.range cols).map fun j => (ptr + j, color j)

/-- A rectangle: behind each row the pointer goes on to the next one. -/
def rect (cols inc : ℕ) : ℕ → ℕ → (ℕ → ℕ → β) → List (ℕ × β)
  | 0, _, _ => []
  | rows + 1, ptr, color =>
    row cols ptr (color 0) ++ rect cols inc rows (ptr + cols + inc) fun i => color (i + 1)

variable {cols inc rows ptr : ℕ} {w : ℕ × β}

theorem mem_row {color : ℕ → β} (h : w ∈ row cols ptr color) : ∃ j < cols, w.1 = ptr + j := by
  obtain ⟨j, hj, rfl⟩ := List.mem_map.1 h
  exact ⟨j, List.mem_range.1 hj, rfl⟩

theorem assigned_row (cols ptr : ℕ) (color : ℕ → β) (p : ℕ) : assigned (row cols ptr color) p =
    if ptr ≤ p ∧ p < ptr + cols then some (color (p - ptr)) else none := by
  induction cols with
  | zero =>
    rw [if_neg (by omega)]
    rfl
  | succ cols ih =>
    have hlast : row (cols + 1) ptr color = row cols ptr color ++ [(ptr + cols, color cols)] := by
      unfold row
      rw [List.range_succ, List.map_append]
      rfl
    rw [hlast, assigned_append, ih]
    by_cases hp : ptr + cols = p
    · subst hp
      rw [if_neg (by omega), if_pos (by omega), Nat.add_sub_cancel_left, Option.or_none, assigned, if_pos rfl]
      rfl
    · have hnone : assigned [(ptr + cols, color cols)] p = none := assigned_eq_none (by simpa using hp)
      rw [hnone, Option.none_or]
      by_cases hin : ptr ≤ p ∧ p < ptr + cols
      · rw [if_pos hin, if_pos (by omega)]
      · rw [if_neg hin, if_neg (by omega)]

theorem mem_rect {color : ℕ → ℕ → β} (h : w ∈ rect cols inc rows ptr color) :
    ∃ i < rows, ∃ j < cols, w.1 = ptr + i * (cols + inc) + j := by
  induction rows generalizing ptr color with
  | zero => exact absurd h List.not_mem_nil
  | succ rows ih =>
    obtain hrow | hrest := List.mem_append.1 h
    · obtain ⟨j, hj, hw⟩ := mem_row hrow
      exact ⟨0, Nat.succ_pos rows, j, hj, by rw [hw, Nat.zero_mul, Nat.add_zero]⟩
    · obtain ⟨i, hi, j, hj, hw⟩ := ih hrest
      exact ⟨i + 1, Nat.succ_lt_succ hi, j, hj, by rw [hw, Nat.succ_mul]; omega⟩

theorem row_congr {color color' : ℕ → β} (h : ∀ j < cols, color j = color' j) :
    row cols ptr color = row cols ptr color' := by
  unfold row
  apply List.map_congr_left
  intro j hj
  rw [h j (List.mem_range.1 hj)]

theorem rect_congr {color color' : ℕ → ℕ → β} (h : ∀ i < rows, ∀ j < cols, color i j = color' i j) :
    rect cols inc rows ptr color = rect cols inc rows ptr color' := by
  induction rows generalizing ptr color color' with
  | zero => rfl
  | succ rows ih =>
    rw [rect, rect, row_congr (h 0 (Nat.succ_pos rows)), ih fun i hi => h (i + 1) (Nat.succ_lt_succ hi)]

theorem place_inj {width r r' c c' : ℕ} (hc : c < width) (hc' : c' < width)
    (h : r * width + c = r' * width + c') : r = r' ∧ c = c' := by
  have hwidth : 0 < width := Nat.lt_of_le_of_lt (Nat.zero_le c) hc
  have hdiv (r c : ℕ) (hc : c < width) : (r * width + c) / width = r := by
    rw [Nat.mul_comm, Nat.mul_add_div hwidth, Nat.div_eq_of_lt hc, Nat.add_zero]
  have hr : r = r' := (hdiv r c hc).symm.trans ((congrArg (· / width) h).trans (hdiv r' c' hc'))
  subst hr
  exact ⟨rfl, Nat.add_left_cancel h⟩

theorem assigned_rect {width x r0 c0 : ℕ} (color : ℕ → ℕ → β) (hwidth : cols + inc = width)
    (hcols : c0 + cols ≤ width) (r c : ℕ) (hc : c < width) :
    assigned (rect cols inc rows (x + r0 * width + c0) color) (x + r * width + c) =
      if r0 ≤ r ∧ r < r0 + rows ∧ c0 ≤ c ∧ c < c0 + cols then some (color (r - r0) (c - c0)) else none := by
  induction rows generalizing r0 color with
  | zero =>
    rw [if_neg (by omega)]
    rfl
  | succ rows ih =>
    have hnext : x + r0 * width + c0 + cols + inc = x + (r0 + 1) * width + c0 := by
      rw [Nat.succ_mul]
      omega
    rw [rect, assigned_append, hnext, ih fun i => color (i + 1), assigned_row]
    by_cases hr : r = r0
    · subst hr
      rw [if_neg (by omega), Option.none_or, Nat.sub_self]
      by_cases hin : c0 ≤ c ∧ c < c0 + cols
      · rw [if_pos (by omega), if_pos (by omega)]
        congr 2
        omega
      · rw [if_neg (by omega), if_neg (by omega)]
    · -- another row is not in this one
      have hout : ¬(x + r0 * width + c0 ≤ x + r * width + c ∧
          x + r * width + c < x + r0 * width + c0 + cols) := by
        rintro ⟨hge, hlt⟩
        obtain ⟨j, hj⟩ : ∃ j, r * width + c = r0 * width + (c0 + j) :=
          ⟨r * width + c - (r0 * width + c0), by omega⟩
        exact hr (place_inj hc (by omega) hj).1
      rw [if_neg hout, Option.or_none]
      by_cases hin : r0 + 1 ≤ r ∧ r < r0 + 1 + rows ∧ c0 ≤ c ∧ c < c0 + cols
      · rw [if_pos hin, if_pos (by omega)]
        congr 2
        omega
      · rw [if_neg hin, if_neg (by omega)]

/-! ## Tiles -/

/-- The rows and columns of tiles, one row after the other. -/
def rowMajor (rows cols : ℕ) : List (ℕ × ℕ) :=
  (List.range rows).flatMap fun i => (List.range cols).map fun j => (i, j)

theorem mem_rowMajor {t : ℕ × ℕ} : t ∈ rowMajor rows cols ↔ t.1 < rows ∧ t.2 < cols := by
  obtain ⟨i, j⟩ := t
  simp [rowMajor]

/-- Tiles of some rows and columns at places of a grid, which starts at `x`. -/
def tiles (width x rows cols : ℕ) (places : List (ℕ × ℕ)) (color : ℕ × ℕ → ℕ → ℕ → β) : List (ℕ × β) :=
  places.flatMap fun t => rect cols (width - cols) rows (x + t.1 * (width * rows) + t.2 * cols) (color t)

variable {width x : ℕ} {places : List (ℕ × ℕ)} {color : ℕ × ℕ → ℕ → ℕ → β}

theorem assigned_tiles (hrows : 0 < rows) (hcols : 0 < cols) (hplaces : ∀ t ∈ places, t.2 * cols + cols ≤ width)
    (r c : ℕ) (hc : c < width) : assigned (tiles width x rows cols places color) (x + r * width + c) =
      if (r / rows, c / cols) ∈ places then some (color (r / rows, c / cols) (r % rows) (c % cols)) else none := by
  induction places with
  | nil =>
    rw [if_neg List.not_mem_nil]
    rfl
  | cons t places ih =>
    obtain ⟨hfit, hrest⟩ := List.forall_mem_cons.1 hplaces
    have hstart : x + t.1 * (width * rows) + t.2 * cols = x + t.1 * rows * width + t.2 * cols := by
      rw [Nat.mul_comm width rows, Nat.mul_assoc]
    have hhead : assigned (rect cols (width - cols) rows (x + t.1 * rows * width + t.2 * cols) (color t))
        (x + r * width + c) =
          if t.1 * rows ≤ r ∧ r < t.1 * rows + rows ∧ t.2 * cols ≤ c ∧ c < t.2 * cols + cols then
            some (color t (r - t.1 * rows) (c - t.2 * cols)) else none :=
      assigned_rect (color t) (by omega) hfit r c hc
    have hmod_r := Nat.div_add_mod' r rows
    have hmod_c := Nat.div_add_mod' c cols
    have hlt_r := Nat.mod_lt r hrows
    have hlt_c := Nat.mod_lt c hcols
    have hcons : tiles width x rows cols (t :: places) color =
        rect cols (width - cols) rows (x + t.1 * (width * rows) + t.2 * cols) (color t) ++
          tiles width x rows cols places color := List.flatMap_cons
    rw [hcons, assigned_append, ih hrest, hstart, hhead]
    by_cases ht : (r / rows, c / cols) = t
    · subst ht
      have hin : r / rows * rows ≤ r ∧ r < r / rows * rows + rows ∧ c / cols * cols ≤ c ∧
          c < c / cols * cols + cols := by omega
      have hr : r - r / rows * rows = r % rows := by omega
      have hc : c - c / cols * cols = c % cols := by omega
      rw [if_pos hin, if_pos List.mem_cons_self, hr, hc]
      split_ifs
      · rfl
      · rfl
    · -- the place is in another tile
      have hout : ¬(t.1 * rows ≤ r ∧ r < t.1 * rows + rows ∧ t.2 * cols ≤ c ∧ c < t.2 * cols + cols) := by
        rintro ⟨hr0, hr1, hc0, hc1⟩
        apply ht
        have hr : r / rows = t.1 := Nat.div_eq_of_lt_le hr0 (by rw [Nat.succ_mul]; exact hr1)
        have hc : c / cols = t.2 := Nat.div_eq_of_lt_le hc0 (by rw [Nat.succ_mul]; exact hc1)
        rw [hr, hc]
      rw [if_neg hout, Option.or_none]
      by_cases hmem : (r / rows, c / cols) ∈ places
      · rw [if_pos hmem, if_pos (List.mem_cons_of_mem t hmem)]
      · rw [if_neg hmem, if_neg fun h => (List.mem_cons.1 h).elim ht hmem]

theorem mem_tiles (hplaces : ∀ t ∈ places, t.2 * cols + cols ≤ width) (h : w ∈ tiles width x rows cols places color) :
    ∃ t ∈ places, ∃ i < rows, ∃ j < cols, w.1 = x + (t.1 * rows + i) * width + (t.2 * cols + j) := by
  obtain ⟨t, ht, hw⟩ := List.mem_flatMap.1 h
  obtain ⟨i, hi, j, hj, heq⟩ := mem_rect hw
  have hfit := hplaces t ht
  refine ⟨t, ht, i, hi, j, hj, ?_⟩
  rw [heq, show cols + (width - cols) = width by omega, Nat.mul_comm width rows, ← Nat.mul_assoc, Nat.add_mul]
  omega

/-- Tiles that cover a block of pixels, with the colour that each pixel of it gets. -/
structure Tiling (side rows cols : ℕ) (places : List (ℕ × ℕ)) (color : ℕ × ℕ → ℕ → ℕ → β) (pixel : ℕ → ℕ → β) :
    Prop where
  rows_pos : 0 < rows
  cols_pos : 0 < cols
  fit : ∀ t ∈ places, t.1 * rows + rows ≤ side ∧ t.2 * cols + cols ≤ side
  covers : ∀ r < side, ∀ c < side, (r / rows, c / cols) ∈ places
  colors : ∀ r < side, ∀ c < side, color (r / rows, c / cols) (r % rows) (c % cols) = pixel r c

variable {side : ℕ} {pixel : ℕ → ℕ → β}

theorem Tiling.assigned (h : Tiling side rows cols places color pixel) (hside : side ≤ width) {r c : ℕ}
    (hr : r < side) (hc : c < side) :
    assigned (tiles width x rows cols places color) (x + r * width + c) = some (pixel r c) := by
  rw [assigned_tiles h.rows_pos h.cols_pos (fun t ht => Nat.le_trans (h.fit t ht).2 hside) r c
    (Nat.lt_of_lt_of_le hc hside), if_pos (h.covers r hr c hc), h.colors r hr c hc]

theorem Tiling.inside (h : Tiling side rows cols places color pixel) (hside : side ≤ width)
    (hw : w ∈ tiles width x rows cols places color) : ∃ r < side, ∃ c < side, w.1 = x + r * width + c := by
  obtain ⟨t, ht, i, hi, j, hj, heq⟩ := mem_tiles (fun t ht => Nat.le_trans (h.fit t ht).2 hside) hw
  obtain ⟨hrows, hcols⟩ := h.fit t ht
  exact ⟨t.1 * rows + i, by omega, t.2 * cols + j, by omega, heq⟩

end Tiles
