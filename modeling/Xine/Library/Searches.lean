import Xine.Library.Walks

/-!
# Bisection

A range of places is halved again and again, for a target that is not below the key of its first place and
below the key behind its last one. Nothing is assumed of the order of the keys: the two halves
are brackets again, and a range of one place has the target between its key and the next.
-/

namespace Bisection

open Walks

variable {α : Type*} [LinearOrder α] {key : ℕ → α} {target : α} {n : ℕ} {r s : ℕ × ℕ}
  {stop : ℕ × ℕ → Prop} [DecidablePred stop]

/-- The place at which a range is halved, which is not its first one. -/
def middle (r : ℕ × ℕ) : ℕ := (r.1 + r.2 + 1) / 2

/-- The half of a range where the target is. -/
def half (key : ℕ → α) (target : α) (r : ℕ × ℕ) : ℕ × ℕ :=
  if target < key (middle r) then (r.1, middle r - 1) else (middle r, r.2)

/-- The walk over ranges, which ends at one that is to be stopped at. -/
def halving (key : ℕ → α) (target : α) (stop : ℕ × ℕ → Prop) [DecidablePred stop] (r : ℕ × ℕ) :
    Option (ℕ × ℕ) :=
  if stop r then none else some (half key target r)

/-- The target is between the key of a place and that of the next, of `n` places. -/
def Between (key : ℕ → α) (target : α) (n k : ℕ) : Prop :=
  k + 1 < n ∧ key k ≤ target ∧ target < key (k + 1)

/-- A range of places with the target in it, of `n` places the last of which is above the target. -/
structure Bracket (key : ℕ → α) (target : α) (n : ℕ) (r : ℕ × ℕ) : Prop where
  ordered : r.1 ≤ r.2
  inside : r.2 < n
  low : key r.1 ≤ target
  high : r.2 + 1 < n → target < key (r.2 + 1)
  last : target < key (n - 1)

theorem Bracket.whole (hn : 0 < n) (hlow : key 0 ≤ target) (hlast : target < key (n - 1)) :
    Bracket key target n (0, n - 1) where
  ordered := Nat.zero_le _
  inside := Nat.sub_one_lt_of_lt hn
  low := hlow
  high h := absurd h (by dsimp only; omega)
  last := hlast

theorem middle_le (h : r.1 ≤ r.2) : r.1 ≤ middle r ∧ middle r ≤ r.2 := by
  unfold middle
  omega

theorem lt_middle (h : r.1 < r.2) : r.1 < middle r := by
  unfold middle
  omega

theorem Bracket.middle_lt (h : Bracket key target n r) : middle r < n :=
  (middle_le h.ordered).2.trans_lt h.inside

theorem Bracket.succ_lt (h : Bracket key target n r) {k : ℕ} (hk : k < n) (hkey : key k ≤ target) :
    k + 1 < n := by
  by_contra hend
  have hlast : k = n - 1 := by omega
  exact (hlast ▸ hkey).not_gt h.last

theorem Bracket.half (h : Bracket key target n r) (hlt : r.1 < r.2) :
    Bracket key target n (half key target r) := by
  obtain ⟨hordered, hinside, hlow, hhigh, hlast⟩ := h
  have hmiddle := lt_middle hlt
  have hle := (middle_le hordered).2
  unfold Bisection.half
  split_ifs with hbelow
  · refine ⟨by dsimp only; omega, by dsimp only; omega, hlow, fun _ => ?_, hlast⟩
    rwa [Nat.sub_add_cancel (by omega)]
  · exact ⟨hle, hinside, le_of_not_gt hbelow, hhigh, hlast⟩

theorem half_lt (hlt : r.1 < r.2) :
    (half key target r).2 - (half key target r).1 < r.2 - r.1 := by
  have hmiddle := lt_middle hlt
  have hle := (middle_le hlt.le).2
  unfold half
  split_ifs <;> dsimp only <;> omega

theorem Bracket.between (h : Bracket key target n r) (heq : r.1 = r.2) : Between key target n r.1 := by
  have hlt := h.succ_lt (heq ▸ h.inside) h.low
  exact ⟨hlt, h.low, heq ▸ h.high (heq ▸ hlt)⟩

theorem halving_eq_none_iff : halving key target stop r = none ↔ stop r := by
  unfold halving
  by_cases h : stop r
  · rw [if_pos h]
    exact iff_of_true rfl h
  · rw [if_neg h]
    exact iff_of_false (Option.some_ne_none _) h

theorem halving_eq_some_iff : halving key target stop r = some s ↔ ¬stop r ∧ half key target r = s := by
  unfold halving
  by_cases h : stop r
  · rw [if_pos h]
    exact iff_of_false nofun fun hs => hs.1 h
  · rw [if_neg h]
    exact ⟨fun hs => ⟨h, Option.some.inj hs⟩, fun hs => congrArg some hs.2⟩

end Bisection

/-!
## Narrowing

A range of places is halved until its ends are next to each other. The first place of it is not past the target,
unless it is the first of all, and the other one is, unless it is the last of all. A search keeps the place where
it has last looked, which is one of the two ends.
-/

namespace Narrowing

open Walks

variable {past : ℕ → Prop} [DecidablePred past] {m : ℕ} {r : ℕ × ℕ}

/-- The place at which a range is halved. -/
def middle (r : ℕ × ℕ) : ℕ := (r.1 + r.2) / 2

/-- The half of a range where the target is. -/
def half (past : ℕ → Prop) [DecidablePred past] (r : ℕ × ℕ) : ℕ × ℕ :=
  if past (middle r) then (r.1, middle r) else (middle r, r.2)

/-- The walk over ranges. -/
def narrowing (past : ℕ → Prop) [DecidablePred past] (r : ℕ × ℕ) : Option (ℕ × ℕ) :=
  if r.1 + 1 < r.2 then some (half past r) else none

/-- A range, and the place where the search has last looked. -/
structure Search where
  range : ℕ × ℕ
  last : Option ℕ

/-- The search from the first place to the last one. -/
def Search.start (m : ℕ) : Search := ⟨(0, m), none⟩

/-- The walk of a search. -/
def look (past : ℕ → Prop) [DecidablePred past] (s : Search) : Option Search :=
  if s.range.1 + 1 < s.range.2 then some ⟨half past s.range, some (middle s.range)⟩ else none

variable {s t : Search}

theorem look_eq_some_iff :
    look past s = some t ↔
      s.range.1 + 1 < s.range.2 ∧ t = ⟨half past s.range, some (middle s.range)⟩ := by
  unfold look
  rw [Option.ite_none_right_eq_some, Option.some_inj]
  exact and_congr_right fun _ => eq_comm

theorem look_eq_none_iff : look past s = none ↔ s.range.2 ≤ s.range.1 + 1 := by
  unfold look
  split_ifs with h
  · exact iff_of_false not_false (by omega)
  · exact iff_of_true rfl (by omega)

theorem middle_mem (h : r.1 + 1 < r.2) : r.1 < middle r ∧ middle r < r.2 := by
  unfold middle
  omega

/-- What is known of the ends of the range, and of the place where the search has last looked. -/
structure Sided (past : ℕ → Prop) (m : ℕ) (s : Search) : Prop where
  ordered : s.range.1 ≤ s.range.2
  inside : s.range.2 ≤ m
  apart : 0 < m → s.range.1 < s.range.2
  low : s.range.1 ≠ 0 → ¬past s.range.1
  high : s.range.2 ≠ m → past s.range.2
  last : s.last = none ∧ s.range = (0, m) ∨ s.last = some s.range.1 ∧ ¬past s.range.1 ∨
    s.last = some s.range.2 ∧ past s.range.2

omit [DecidablePred past] in
theorem Sided.start : Sided past m (Search.start m) where
  ordered := Nat.zero_le m
  inside := le_rfl
  apart := id
  low h := absurd rfl h
  high h := absurd rfl h
  last := .inl ⟨rfl, rfl⟩

theorem Sided.look (h : Sided past m s) (ht : look past s = some t) : Sided past m t := by
  obtain ⟨hwide, rfl⟩ := look_eq_some_iff.1 ht
  obtain ⟨hlow, hhigh⟩ := middle_mem hwide
  have hinside := h.inside
  unfold half
  by_cases hpast : past (middle s.range)
  · rw [if_pos hpast]
    exact ⟨hlow.le, by dsimp only; omega, fun _ => hlow, h.low, fun _ => hpast, .inr (.inr ⟨rfl, hpast⟩)⟩
  · rw [if_neg hpast]
    exact ⟨hhigh.le, hinside, fun _ => hhigh, fun _ => hpast, h.high, .inr (.inl ⟨rfl, hpast⟩)⟩

theorem look_lt (ht : look past s = some t) : t.range.2 - t.range.1 < s.range.2 - s.range.1 := by
  obtain ⟨hwide, rfl⟩ := look_eq_some_iff.1 ht
  obtain ⟨hlow, hhigh⟩ := middle_mem hwide
  unfold half
  split_ifs <;> dsimp only <;> omega

theorem Sided.reaches (h : Reaches (Narrowing.look past) (Search.start m) s) : Sided past m s :=
  h.invariant Sided.start fun _ _ hsided _ ht => hsided.look ht

theorem Sided.next (h : Sided past m s) (hend : Narrowing.look past s = none) (hm : 0 < m) :
    s.range.2 = s.range.1 + 1 := by
  have hle := look_eq_none_iff.1 hend
  have hlt := h.apart hm
  omega

omit [DecidablePred past] in
theorem Sided.single (h : Sided past m s) (hlt : ¬s.range.1 < s.range.2) :
    s.range.1 = 0 ∧ s.last.getD 0 = 0 := by
  obtain ⟨hordered, hinside, hapart, -, -, hlast⟩ := h
  have hm : m = 0 := Nat.eq_zero_of_not_pos fun hm => hlt (hapart hm)
  have hlow : s.range.1 = 0 := by omega
  have hhigh : s.range.2 = 0 := by omega
  refine ⟨hlow, ?_⟩
  obtain ⟨hnone, -⟩ | ⟨hsome, -⟩ | ⟨hsome, -⟩ := hlast
  · rw [hnone]
    rfl
  · rw [hsome]
    exact hlow
  · rw [hsome]
    exact hhigh

theorem Sided.eq_pred (h : Sided past m s) (hend : Narrowing.look past s = none) {first : ℕ}
    (hfirst : first ≤ m) (hpast : ∀ k, k ≤ m → (past k ↔ first ≤ k)) : s.range.1 = first - 1 := by
  obtain ⟨hordered, hinside, hapart, hlow, hhigh, -⟩ := h
  have hle := look_eq_none_iff.1 hend
  have hlow' := (hpast s.range.1 (by omega)).not
  have hhigh' := hpast s.range.2 hinside
  by_cases hzero : s.range.1 = 0
  · by_cases htop : s.range.2 = m
    · omega
    · have hge := hhigh'.1 (hhigh htop)
      omega
  · have hlt := hlow'.1 (hlow hzero)
    by_cases htop : s.range.2 = m
    · omega
    · have hge := hhigh'.1 (hhigh htop)
      omega

/-- A range that closes from above: it is halved behind its first place, at one that is past the target. -/
def Closes (past : ℕ → Prop) (r : ℕ × ℕ) : Prop :=
  r.1 + 1 < r.2 ∧ middle r = r.1 + 1 ∧ past (middle r)

theorem exists_look (h : Reaches (narrowing past) (0, m) r) :
    ∃ s, Reaches (look past) (Search.start m) s ∧ s.range = r := by
  induction h with
  | refl => exact ⟨_, reaches_refl, rfl⟩
  | tail hreach hr ih =>
    obtain ⟨s, hs, rfl⟩ := ih
    obtain ⟨hwide, hhalf⟩ := Option.ite_none_right_eq_some.1 hr
    exact ⟨_, hs.next (look_eq_some_iff.2 ⟨hwide, rfl⟩), Option.some.inj hhalf⟩

theorem reaches_range (h : Reaches (look past) (Search.start m) s) :
    Reaches (narrowing past) (0, m) s.range := by
  induction h with
  | refl => exact reaches_refl
  | tail hreach hr ih =>
    obtain ⟨hwide, rfl⟩ := look_eq_some_iff.1 hr
    exact ih.next (if_pos hwide)

theorem Closes.eq_end (hr : Reaches (narrowing past) (0, m) r) (hcloses : Closes past r)
    (ht : Reaches (look past) (Search.start m) t) (hend : look past t = none) :
    t = ⟨(r.1, r.1 + 1), some (r.1 + 1)⟩ := by
  obtain ⟨hwide, hmiddle, hpast⟩ := hcloses
  obtain ⟨s, hs, rfl⟩ := exists_look hr
  have hnext : look past s = some ⟨(s.range.1, s.range.1 + 1), some (s.range.1 + 1)⟩ := by
    refine look_eq_some_iff.2 ⟨hwide, ?_⟩
    unfold half
    rw [if_pos hpast, hmiddle]
  exact ht.eq_of_ends (hs.next hnext) hend (look_eq_none_iff.2 le_rfl)

theorem exists_closes (ht : Reaches (look past) (Search.start m) t)
    (hlast : t.last = some (t.range.1 + 1)) :
    ∃ r, Reaches (narrowing past) (0, m) r ∧ Closes past r ∧ r.1 = t.range.1 := by
  cases ht with
  | refl => exact absurd hlast.symm (Option.some_ne_none _)
  | tail hs hstep =>
    rename_i s
    obtain ⟨hwide, rfl⟩ := look_eq_some_iff.1 hstep
    have hmiddle : middle s.range = (half past s.range).1 + 1 := Option.some.inj hlast
    refine ⟨s.range, reaches_range hs, ?_⟩
    unfold half at hmiddle ⊢
    by_cases hpast : past (middle s.range)
    · rw [if_pos hpast] at hmiddle ⊢
      exact ⟨⟨hwide, hmiddle, hpast⟩, rfl⟩
    · rw [if_neg hpast] at hmiddle
      exact absurd hmiddle (Nat.succ_ne_self _).symm

/-- What holds of the ranges that close from above is what holds of the end of a search that has last looked
at its upper end. -/
theorem forall_closes_iff {P : ℕ → Prop} (ht : Reaches (look past) (Search.start m) t)
    (hend : look past t = none) :
    (∀ r, Reaches (narrowing past) (0, m) r → Closes past r → P r.1) ↔
      (t.last = some (t.range.1 + 1) → P t.range.1) := by
  constructor
  · intro hall hlast
    obtain ⟨r, hr, hcloses, heq⟩ := exists_closes ht hlast
    exact heq ▸ hall r hr hcloses
  · intro h r hr hcloses
    obtain rfl := hcloses.eq_end hr ht hend
    exact h rfl

end Narrowing
