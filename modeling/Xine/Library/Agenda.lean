import Mathlib.Algebra.GroupWithZero.Divisibility
import Mathlib.Algebra.Order.Ring.Int
import Mathlib.Algebra.Ring.Divisibility.Basic
import Mathlib.Data.Int.Interval
import Mathlib.Data.List.TakeWhile

/-!
# Agendas

An agenda is a list of entries in the order of their keys, and entries with one key in the order in
which they were entered, which is the order of their stamps. `insert` enters an entry behind all that
do not come later, and keeps the order when its stamp is new; taking entries out
keeps the order too. What is due at some time, that is a set of entries that is
closed downwards, is a prefix of the agenda.
-/

namespace Agenda

variable {α κ : Type*} [LinearOrder κ] {key : α → κ} {stamp : α → ℕ} {a : α} {l l' : List α}
  {p : α → Bool}

/-- The entry `a`, whose key is `k`, goes behind all that do not come later. -/
def insert (key : α → κ) (k : κ) (a : α) (l : List α) : List α :=
  l.takeWhile (fun b => decide (key b ≤ k)) ++ a :: l.dropWhile fun b => decide (key b ≤ k)

theorem mem_insert {k : κ} {b : α} : b ∈ insert key k a l ↔ b = a ∨ b ∈ l := by
  have hsplit := List.takeWhile_append_dropWhile (p := fun b => decide (key b ≤ k)) (l := l)
  calc b ∈ insert key k a l
      ↔ b = a ∨ b ∈ l.takeWhile (fun b => decide (key b ≤ k)) ++
          l.dropWhile fun b => decide (key b ≤ k) := by
        simp only [insert, List.mem_append, List.mem_cons]
        exact or_left_comm
    _ ↔ b = a ∨ b ∈ l := by rw [hsplit]

/-- The entries are in the order of their keys and then of their stamps. -/
def Ordered (key : α → κ) (stamp : α → ℕ) (l : List α) : Prop :=
  l.Pairwise fun a b => key a < key b ∨ key a = key b ∧ stamp a < stamp b

theorem Ordered.sublist (h : Ordered key stamp l) (hsub : l'.Sublist l) : Ordered key stamp l' :=
  List.Pairwise.sublist hsub h

theorem Ordered.congr {key' : α → κ} {stamp' : α → ℕ} (h : Ordered key stamp l)
    (hkey : ∀ b ∈ l, key' b = key b) (hstamp : ∀ b ∈ l, stamp' b = stamp b) :
    Ordered key' stamp' l := by
  refine List.Pairwise.imp_of_mem (fun {b c} hb hc hbc => ?_) h
  rwa [hkey b hb, hkey c hc, hstamp b hb, hstamp c hc]

theorem Ordered.key_le {b : α} (h : Ordered key stamp (a :: l)) (hb : b ∈ l) : key a ≤ key b := by
  rcases (List.pairwise_cons.1 h).1 b hb with hlt | ⟨heq, -⟩
  · exact hlt.le
  · exact heq.le

theorem Ordered.takeWhile_eq_filter (h : Ordered key stamp l)
    (hp : ∀ b c, key b ≤ key c → p c → p b) :
    l.takeWhile p = l.filter p ∧ l.dropWhile p = l.filter fun b => !p b := by
  induction l with
  | nil => exact ⟨rfl, rfl⟩
  | cons b l ih =>
    obtain ⟨htake, hdrop⟩ := ih (h.sublist (List.sublist_cons_self b l))
    by_cases hb : p b
    · simp [hb, htake, hdrop]
    · -- then nothing behind it is due
      have hl : ∀ c ∈ l, p c = false := fun c hc => by
        by_contra hpc
        exact hb (hp b c (h.key_le hc) (by simpa using hpc))
      have hnil : l.filter p = [] := List.filter_eq_nil_iff.2 fun c hc => by simp [hl c hc]
      have hself : (l.filter fun c => !p c) = l :=
        List.filter_eq_self.2 fun c hc => by simp [hl c hc]
      simp [hb, hnil, hself]

/-- Entering an entry with a new stamp keeps the order. The entry gets its key and its stamp as it is
entered, and those of the others stay. -/
theorem Ordered.insert (key' : α → κ) (stamp' : α → ℕ) (h : Ordered key stamp l)
    (hkey : ∀ b ∈ l, key' b = key b) (hstamp : ∀ b ∈ l, stamp' b = stamp b)
    (ha : ∀ b ∈ l, stamp b < stamp' a) : Ordered key' stamp' (insert key (key' a) a l) := by
  have hsplit := List.takeWhile_append_dropWhile (p := fun b => decide (key b ≤ key' a)) (l := l)
  have hdown : ∀ b c, key b ≤ key c → decide (key c ≤ key' a) → decide (key b ≤ key' a) := by
    intro b c hbc hc
    simp only [decide_eq_true_eq] at hc ⊢
    exact hbc.trans hc
  obtain ⟨htake, hdrop⟩ := h.takeWhile_eq_filter hdown
  have hbefore : ∀ b ∈ l.takeWhile fun b => decide (key b ≤ key' a), b ∈ l ∧ key b ≤ key' a := by
    rw [htake]
    intro b hb
    simpa using List.mem_filter.1 hb
  have hafter : ∀ b ∈ l.dropWhile fun b => decide (key b ≤ key' a), b ∈ l ∧ key' a < key b := by
    rw [hdrop]
    intro b hb
    simpa using List.mem_filter.1 hb
  have hpair := h.congr hkey hstamp
  rw [← hsplit] at hpair
  obtain ⟨hl, hr, hlr⟩ := List.pairwise_append.1 hpair
  refine List.pairwise_append.2 ⟨hl, List.pairwise_cons.2 ⟨fun b hb => .inl ?_, hr⟩, ?_⟩
  · obtain ⟨hmem, hlt⟩ := hafter b hb
    rwa [hkey b hmem]
  · intro b hb c hc
    rcases List.mem_cons.1 hc with rfl | hc
    · obtain ⟨hmem, hle⟩ := hbefore b hb
      rw [hkey b hmem, hstamp b hmem]
      rcases hle.lt_or_eq with hlt | heq
      · exact .inl hlt
      · exact .inr ⟨heq, ha b hmem⟩
    · exact hlr b hb c hc

end Agenda

/-!
## Recurring times

A recurring time has a first occurrence and a period, and comes again after each period; with the
period 0 it comes once. `Occurs first period t` says that it comes at `t`, and `count` is the number
of its occurrences behind one time and up to another.
-/

namespace Recurring

variable {first period a b t : ℤ}

/-- The recurring time comes at `t`. -/
def Occurs (first period t : ℤ) : Prop := first ≤ t ∧ period ∣ t - first

instance : Decidable (Occurs first period t) := by
  unfold Occurs
  infer_instance

/-- The number of occurrences behind `a` and up to `b`. -/
def count (first period a b : ℤ) : ℕ :=
  ((@Finset.Ioc ℤ Int.instLinearOrder.toPreorder _ a b).filter fun t => Occurs first period t).card

theorem count_pos_iff : 0 < count first period a b ↔ ∃ t, a < t ∧ t ≤ b ∧ Occurs first period t := by
  unfold count
  rw [Finset.card_pos]
  constructor
  · rintro ⟨t, ht⟩
    obtain ⟨hmem, hocc⟩ := Finset.mem_filter.1 ht
    obtain ⟨hlt, hle⟩ := Finset.mem_Ioc.1 hmem
    exact ⟨t, hlt, hle, hocc⟩
  · rintro ⟨t, hlt, hle, hocc⟩
    exact ⟨t, Finset.mem_filter.2 ⟨Finset.mem_Ioc.2 ⟨hlt, hle⟩, hocc⟩⟩

theorem occurs_first : Occurs first period first := ⟨le_rfl, by rw [sub_self]; exact dvd_zero period⟩

theorem occurs_zero_iff : Occurs first 0 t ↔ t = first := by
  unfold Occurs
  rw [zero_dvd_iff, sub_eq_zero]
  constructor
  · rintro ⟨-, rfl⟩
    rfl
  · rintro rfl
    exact ⟨le_rfl, rfl⟩

theorem exists_occurs_iff (hperiod : 0 < period) (hfirst : first ≤ a) :
    (∃ t, a ≤ t ∧ t ≤ b ∧ Occurs first period t) ↔ a + (first - a) % period ≤ b := by
  have hnonneg := Int.emod_nonneg (first - a) hperiod.ne'
  have hdvd : period ∣ a + (first - a) % period - first := by
    have := Int.dvd_sub_self_of_emod_eq (a := first - a) (b := period) rfl
    have heq : a + (first - a) % period - first = (first - a) % period - (first - a) := by omega
    rw [heq]
    exact this
  constructor
  · rintro ⟨t, hat, htb, -, ht⟩
    -- the two occurrences differ by periods, and the rest is less than one
    refine le_trans ?_ htb
    by_contra hlt
    have hsub : period ∣ a + (first - a) % period - t := by
      have heq : a + (first - a) % period - t =
          (a + (first - a) % period - first) - (t - first) := by omega
      rw [heq]
      exact dvd_sub hdvd ht
    have hle := Int.le_of_dvd (by omega) hsub
    have hmod := Int.emod_lt_of_pos (first - a) hperiod
    omega
  · intro hb
    exact ⟨_, by omega, hb, by omega, hdvd⟩

theorem isLeast_occurs (hperiod : 0 < period) (hfirst : first ≤ a) :
    IsLeast {t | a < t ∧ Occurs first period t} (a + (period - (a - first) % period)) := by
  have hnonneg := Int.emod_nonneg (a - first) hperiod.ne'
  have hlt := Int.emod_lt_of_pos (a - first) hperiod
  have hdvd : period ∣ a + (period - (a - first) % period) - first := by
    have hsub : period ∣ (a - first) - (a - first) % period := Int.dvd_self_sub_of_emod_eq rfl
    have heq : a + (period - (a - first) % period) - first =
        period + ((a - first) - (a - first) % period) := by omega
    rw [heq]
    exact dvd_add (dvd_refl period) hsub
  refine ⟨⟨by omega, by omega, hdvd⟩, ?_⟩
  rintro t ⟨hat, -, ht⟩
  -- two occurrences differ by periods, and there is no room for one before
  by_contra hlater
  have hsub : period ∣ a + (period - (a - first) % period) - t := by
    have heq : a + (period - (a - first) % period) - t =
        (a + (period - (a - first) % period) - first) - (t - first) := by omega
    rw [heq]
    exact dvd_sub hdvd ht
  have hle := Int.le_of_dvd (by omega) hsub
  omega

theorem isLeast_first (hfirst : a < first) : IsLeast {t | a < t ∧ Occurs first period t} first :=
  ⟨⟨hfirst, occurs_first⟩, fun _ ht => ht.2.1⟩

end Recurring
