import Mathlib.Algebra.Order.Ring.Int
import Mathlib.Tactic.Ring
import Xine.Osd.Drawing

/-!
# What the drawing functions write

`Paints P` says that nothing has changed but the elements of the area at the offsets with `P`, which have all been
written.
-/

namespace Xine.Osd

/-- The elements at the offsets with `P` have been written, and nothing else has changed. -/
structure Paints (P : ℤ → Prop) (canvas canvas' : Canvas) : Prop where
  osd : canvas'.osd = { canvas.osd with area := canvas'.osd.area }
  area : ∀ c, ¬P c → canvas'.osd.area c = canvas.osd.area c
  written : ∀ c, c ∈ canvas'.written ↔ c ∈ canvas.written ∨ P c

section Paints

variable {P Q : ℤ → Prop} {canvas canvas' canvas'' : Canvas}

theorem Paints.width (h : Paints P canvas canvas') : canvas'.osd.width = canvas.osd.width := by
  rw [h.osd]

theorem Paints.height (h : Paints P canvas canvas') : canvas'.osd.height = canvas.osd.height := by
  rw [h.osd]

theorem Paints.congr (h : Paints P canvas canvas') (hiff : ∀ c, P c ↔ Q c) :
    Paints Q canvas canvas' := by
  refine ⟨h.osd, fun c hc => h.area c (mt (hiff c).1 hc), fun c => ?_⟩
  rw [h.written, hiff]

theorem Paints.refl (canvas : Canvas) : Paints (fun _ => False) canvas canvas := by
  refine ⟨rfl, fun _ _ => rfl, fun c => ?_⟩
  rw [or_false]

theorem Paints.trans (h : Paints P canvas canvas') (h' : Paints Q canvas' canvas'') :
    Paints (fun c => P c ∨ Q c) canvas canvas'' := by
  refine ⟨?_, fun c hc => ?_, fun c => ?_⟩
  · rw [h'.osd, h.osd]
  · obtain ⟨hP, hQ⟩ := not_or.1 hc
    rw [h'.area c hQ, h.area c hP]
  · rw [h'.written, h.written, or_assoc]

theorem paints_store (canvas : Canvas) (c : ℤ) (color : ℕ) :
    Paints (fun a => a = c) canvas (canvas.store c color) := by
  refine ⟨rfl, fun a ha => Function.update_of_ne ha _ _, fun a => ?_⟩
  unfold Canvas.store
  rw [List.mem_append, List.mem_singleton]

theorem paints_put (canvas : Canvas) (c : ℤ) (color : ℕ) :
    Paints (fun a => a = c ∧ a ≤ canvas.osd.width * canvas.osd.height) canvas
      (canvas.put c color) := by
  unfold Canvas.put
  by_cases hle : c ≤ canvas.osd.width * canvas.osd.height
  · rw [if_pos hle]
    refine (paints_store canvas c color).congr fun a => ?_
    constructor
    · rintro rfl
      exact ⟨rfl, hle⟩
    · exact And.left
  · rw [if_neg hle]
    refine (Paints.refl canvas).congr fun a => ?_
    constructor
    · exact False.elim
    · rintro ⟨rfl, hle'⟩
      exact hle hle'

theorem paints_range {step : Canvas → ℕ → Canvas} {P : ℕ → ℤ → Prop} (canvas : Canvas) (n : ℕ)
    (hstep : ∀ i canvas', canvas'.osd.width = canvas.osd.width →
      canvas'.osd.height = canvas.osd.height → Paints (P i) canvas' (step canvas' i)) :
    Paints (fun c => ∃ i < n, P i c) canvas ((List.range n).foldl step canvas) := by
  induction n with
  | zero =>
    refine (Paints.refl canvas).congr fun c => ?_
    constructor
    · exact False.elim
    · rintro ⟨i, hi, -⟩
      exact absurd hi (Nat.not_lt_zero i)
  | succ n ih =>
    rw [List.range_succ, List.foldl_append]
    refine (ih.trans (hstep n _ ih.width ih.height)).congr fun c => ?_
    constructor
    · rintro (⟨i, hi, hP⟩ | hP)
      · exact ⟨i, Nat.lt_succ_of_lt hi, hP⟩
      · exact ⟨n, Nat.lt_succ_self n, hP⟩
    · rintro ⟨i, hi, hP⟩
      rcases Nat.lt_succ_iff_lt_or_eq.1 hi with hi | rfl
      · exact Or.inl ⟨i, hi, hP⟩
      · exact Or.inr hP

theorem paints_fill (canvas : Canvas) (c : ℤ) (n : ℕ) (color : ℕ → ℕ) :
    Paints (fun a => ∃ i < n, a = c + (i : ℤ)) canvas (canvas.fill c n color) :=
  paints_range canvas n fun i canvas' _ _ => paints_store canvas' (c + i) (color i)

theorem paints_rows (canvas : Canvas) (x y : ℤ) (width height : ℕ) (color : ℕ → ℕ → ℕ) :
    Paints (fun a => ∃ row < height, ∃ i < width, a = (y + (row : ℤ)) * canvas.osd.width + x + (i : ℤ))
      canvas (canvas.rows x y width height color) := by
  refine paints_range canvas height fun row canvas' hwidth _ => ?_
  rw [hwidth]
  exact paints_fill canvas' _ width (color row)

theorem paints_putRow (canvas : Canvas) (c : ℤ) (n : ℕ) (color : ℕ → ℕ) :
    Paints (fun a => ∃ i < n, a = c + (i : ℤ) ∧ a ≤ canvas.osd.width * canvas.osd.height) canvas
      (canvas.putRow c n color) := by
  refine paints_range canvas n fun i canvas' hwidth hheight => ?_
  rw [← hwidth, ← hheight]
  exact paints_put canvas' (c + i) (color i)

theorem paints_putRows (canvas : Canvas) (c : ℤ) (width height : ℕ) (color : ℕ → ℕ → ℕ) :
    Paints (fun a => ∃ row < height, ∃ i < width,
        a = c + (row : ℤ) * canvas.osd.width + (i : ℤ) ∧ a ≤ canvas.osd.width * canvas.osd.height)
      canvas (canvas.putRows c width height color) := by
  refine paints_range canvas height fun row canvas' hwidth hheight => ?_
  rw [← hwidth, ← hheight]
  exact paints_putRow canvas' _ width (color row)

theorem paints_stroke (step : Pen → Pen) (color : ℕ) (n : ℕ) (pen : Pen) (canvas : Canvas) :
    Paints (fun a => ∃ k < n, a = (step^[k] pen).c ∧ a ≤ canvas.osd.width * canvas.osd.height) canvas
      (Canvas.stroke step color n pen canvas) := by
  induction n generalizing pen canvas with
  | zero =>
    refine (Paints.refl canvas).congr fun c => ?_
    constructor
    · exact False.elim
    · rintro ⟨k, hk, -⟩
      exact absurd hk (Nat.not_lt_zero k)
  | succ n ih =>
    have hput := paints_put canvas pen.c color
    have hrest := ih (step pen) (canvas.put pen.c color)
    rw [hput.width, hput.height] at hrest
    refine (hput.trans hrest).congr fun c => ?_
    constructor
    · rintro (⟨hc, hle⟩ | ⟨k, hk, hc, hle⟩)
      · exact ⟨0, Nat.succ_pos n, hc, hle⟩
      · exact ⟨k + 1, Nat.succ_lt_succ hk, hc, hle⟩
    · rintro ⟨k, hk, hc, hle⟩
      cases k with
      | zero => exact Or.inl ⟨hc, hle⟩
      | succ k => exact Or.inr ⟨k, Nat.lt_of_succ_lt_succ hk, hc, hle⟩

end Paints

/-! ## Lines -/

section Lines

variable {inc a b s t along across d : ℤ} {k : ℕ} {canvas : Canvas} {x1 y1 x2 y2 : ℤ} {color : ℕ}

/-- Where a line is after `k` pixels: it has gone to the side at most as often as it must, and the
decision variable says how far it is from the straight line. -/
def OnLine (inc a b s t : ℤ) (k : ℕ) (along across d : ℤ) : Prop :=
  along = s + k ∧ ∃ j, across = t + inc * j ∧ d = 2 * (b * (k + 1)) - a - 2 * (a * j) ∧ 0 ≤ j ∧ j ≤ b

theorem onLine_start (inc a b s t : ℤ) (hb : 0 ≤ b) : OnLine inc a b s t 0 s t (2 * b - a) := by
  refine ⟨?_, 0, ?_, ?_, le_refl 0, hb⟩
  · rw [Nat.cast_zero, add_zero]
  · rw [mul_zero, add_zero]
  · rw [Nat.cast_zero]
    ring

theorem OnLine.next (h : OnLine inc a b s t k along across d) (hb : 0 ≤ b) (hk : (k : ℤ) < a) :
    (d < 0 → OnLine inc a b s t (k + 1) (along + 1) across (d + 2 * b)) ∧
      (¬d < 0 → OnLine inc a b s t (k + 1) (along + 1) (across + inc) (d + 2 * (b - a))) := by
  obtain ⟨halong, j, hacross, hd, hj, hjb⟩ := h
  have halong' : along + 1 = s + ((k + 1 : ℕ) : ℤ) := by
    rw [halong]
    push_cast
    ring
  constructor
  · intro _
    refine ⟨halong', j, hacross, ?_, hj, hjb⟩
    rw [hd]
    push_cast
    ring
  · intro hnonneg
    refine ⟨halong', j + 1, ?_, ?_, by omega, ?_⟩
    · rw [hacross]
      ring
    · rw [hd]
      push_cast
      ring
    · -- with as many steps as it must go, the line is not behind
      by_contra hlt
      have hjb' : j = b := by omega
      have hle : b * (k + 1) ≤ b * a := mul_le_mul_of_nonneg_left (by omega) hb
      rw [hjb', mul_comm a b] at hd
      omega

theorem OnLine.between (h : OnLine inc a b s t k along across d) {e : ℤ}
    (hinc : inc = if e > t then 1 else -1) (hb : b = |e - t|) :
    min t e ≤ across ∧ across ≤ max t e := by
  obtain ⟨-, j, hacross, -, hj, hjb⟩ := h
  split_ifs at hinc with hlt
  · rw [abs_of_nonneg (by omega)] at hb
    rw [hinc, one_mul] at hacross
    omega
  · rw [abs_of_nonpos (by omega)] at hb
    rw [hinc] at hacross
    omega

theorem flat_onLine (width x y : ℤ) (hb : 0 ≤ b) (hk : (k : ℤ) ≤ a) :
    let pen := (Pen.flatStep width inc (2 * b) (2 * (b - a)))^[k] ⟨x, y, 2 * b - a, y * width + x⟩
    OnLine inc a b x y k pen.x pen.y pen.d ∧ pen.c = pen.y * width + pen.x := by
  induction k with
  | zero => exact ⟨onLine_start inc a b x y hb, rfl⟩
  | succ k ih =>
    obtain ⟨hline, hc⟩ := ih (by omega)
    obtain ⟨hstraight, hside⟩ := hline.next hb (by omega)
    dsimp only at hstraight hside hc ⊢
    rw [Function.iterate_succ_apply']
    generalize (Pen.flatStep width inc (2 * b) (2 * (b - a)))^[k]
      ⟨x, y, 2 * b - a, y * width + x⟩ = pen at hstraight hside hc ⊢
    unfold Pen.flatStep
    by_cases hd : pen.d < 0
    · rw [if_pos hd]
      refine ⟨hstraight hd, ?_⟩
      dsimp only
      rw [hc, add_assoc]
    · rw [if_neg hd]
      exact ⟨hside hd, rfl⟩

theorem steep_onLine (width x y : ℤ) (hb : 0 ≤ b) (hk : (k : ℤ) ≤ a) :
    let pen := (Pen.steepStep width inc (2 * b) (2 * (b - a)))^[k] ⟨x, y, 2 * b - a, y * width + x⟩
    OnLine inc a b y x k pen.y pen.x pen.d ∧ pen.c = pen.y * width + pen.x := by
  induction k with
  | zero => exact ⟨onLine_start inc a b y x hb, rfl⟩
  | succ k ih =>
    obtain ⟨hline, hc⟩ := ih (by omega)
    obtain ⟨hstraight, hside⟩ := hline.next hb (by omega)
    dsimp only at hstraight hside hc ⊢
    rw [Function.iterate_succ_apply']
    generalize (Pen.steepStep width inc (2 * b) (2 * (b - a)))^[k]
      ⟨x, y, 2 * b - a, y * width + x⟩ = pen at hstraight hside hc ⊢
    unfold Pen.steepStep
    by_cases hd : pen.d < 0
    · rw [if_pos hd]
      refine ⟨hstraight hd, ?_⟩
      dsimp only
      rw [hc]
      ring
    · rw [if_neg hd]
      exact ⟨hside hd, rfl⟩

/-- The offsets of a rectangle of the area. -/
def InRect (width left top right bottom c : ℤ) : Prop :=
  ∃ x y, left ≤ x ∧ x ≤ right ∧ top ≤ y ∧ y ≤ bottom ∧ c = y * width + x

theorem paints_flatLine (canvas : Canvas) (x1 y1 x2 y2 : ℤ) (color : ℕ) :
    ∃ P, Paints P canvas (canvas.flatLine x1 y1 x2 y2 color) ∧ ∀ c, P c →
      InRect canvas.osd.width (min x1 x2) (min y1 y2) (max x1 x2) (max y1 y2) c := by
  refine ⟨_, paints_stroke _ color _ _ canvas, ?_⟩
  rintro c ⟨k, hk, rfl, -⟩
  by_cases hswap : x1 > x2
  · simp only [if_pos hswap] at hk ⊢
    have hdx : |x1 - x2| = x1 - x2 := abs_of_nonneg (by omega)
    obtain ⟨hline, hc⟩ := @flat_onLine (if y1 > y2 then 1 else -1) |x1 - x2| |y1 - y2| k
      canvas.osd.width x2 y2 (abs_nonneg _) (by omega)
    have hbetween := hline.between rfl rfl
    obtain ⟨hx, -⟩ := hline
    exact ⟨_, _, by omega, by omega, by omega, by omega, hc⟩
  · simp only [if_neg hswap] at hk ⊢
    have hdx : |x1 - x2| = x2 - x1 := by
      rw [abs_sub_comm]
      exact abs_of_nonneg (by omega)
    obtain ⟨hline, hc⟩ := @flat_onLine (if y2 > y1 then 1 else -1) |x1 - x2| |y1 - y2| k
      canvas.osd.width x1 y1 (abs_nonneg _) (by omega)
    have hbetween := hline.between rfl (abs_sub_comm y1 y2)
    obtain ⟨hx, -⟩ := hline
    exact ⟨_, _, by omega, by omega, by omega, by omega, hc⟩

theorem paints_steepLine (canvas : Canvas) (x1 y1 x2 y2 : ℤ) (color : ℕ) :
    ∃ P, Paints P canvas (canvas.steepLine x1 y1 x2 y2 color) ∧ ∀ c, P c →
      InRect canvas.osd.width (min x1 x2) (min y1 y2) (max x1 x2) (max y1 y2) c := by
  refine ⟨_, paints_stroke _ color _ _ canvas, ?_⟩
  rintro c ⟨k, hk, rfl, -⟩
  by_cases hswap : y1 > y2
  · simp only [if_pos hswap] at hk ⊢
    have hdy : |y1 - y2| = y1 - y2 := abs_of_nonneg (by omega)
    obtain ⟨hline, hc⟩ := @steep_onLine (if x1 > x2 then 1 else -1) |y1 - y2| |x1 - x2| k
      canvas.osd.width x2 y2 (abs_nonneg _) (by omega)
    have hbetween := hline.between rfl rfl
    obtain ⟨hy, -⟩ := hline
    exact ⟨_, _, by omega, by omega, by omega, by omega, hc⟩
  · simp only [if_neg hswap] at hk ⊢
    have hdy : |y1 - y2| = y2 - y1 := by
      rw [abs_sub_comm]
      exact abs_of_nonneg (by omega)
    obtain ⟨hline, hc⟩ := @steep_onLine (if x2 > x1 then 1 else -1) |y1 - y2| |x1 - x2| k
      canvas.osd.width x1 y1 (abs_nonneg _) (by omega)
    have hbetween := hline.between rfl (abs_sub_comm x1 x2)
    obtain ⟨hy, -⟩ := hline
    exact ⟨_, _, by omega, by omega, by omega, by omega, hc⟩

end Lines

end Xine.Osd
