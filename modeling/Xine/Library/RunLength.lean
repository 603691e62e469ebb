import Mathlib.Algebra.Order.BigOperators.Group.List
import Mathlib.Algebra.Order.Ring.Nat
import Mathlib.Data.List.Infix

/-!
# Run lengths with a counter that wraps

The runs of a list, each with its length modulo `m`. A run that another value ends is left out if its length is
zero; the last one is always there.
-/

namespace RunLength

variable {α : Type*} {m : ℕ} {run : ℕ × α} {as : List α}

/-- The list that some runs stand for. -/
def expand (runs : List (ℕ × α)) : List α := runs.flatMap fun run => List.replicate run.1 run.2

/-- The length of all runs. -/
def weight (runs : List (ℕ × α)) : ℕ := (runs.map Prod.fst).sum

@[simp] theorem expand_cons (run : ℕ × α) (runs : List (ℕ × α)) :
    expand (run :: runs) = List.replicate run.1 run.2 ++ expand runs := rfl

@[simp] theorem weight_nil : weight ([] : List (ℕ × α)) = 0 := rfl

@[simp] theorem weight_cons (run : ℕ × α) (runs : List (ℕ × α)) :
    weight (run :: runs) = run.1 + weight runs := rfl

theorem weight_append (runs runs' : List (ℕ × α)) :
    weight (runs ++ runs') = weight runs + weight runs' := by
  unfold weight
  rw [List.map_append, List.sum_append]

theorem length_expand (runs : List (ℕ × α)) : (expand runs).length = weight runs := by
  induction runs with
  | nil => rfl
  | cons run runs ih => rw [expand_cons, List.length_append, List.length_replicate, ih, weight_cons]

theorem expand_append (runs runs' : List (ℕ × α)) :
    expand (runs ++ runs') = expand runs ++ expand runs' := List.flatMap_append

theorem getElem?_expand {before after : List (ℕ × α)} {k : ℕ} (hle : weight before ≤ k)
    (hlt : k < weight before + run.1) : (expand (before ++ run :: after))[k]? = some run.2 := by
  rw [expand_append, expand_cons, List.getElem?_append_right (by rwa [length_expand]), length_expand,
    List.getElem?_append_left (by rw [List.length_replicate]; omega), List.getElem?_replicate,
    if_pos (by omega)]

theorem weight_flatten (rows : List (List (ℕ × α))) :
    weight rows.flatten = (rows.map weight).sum := by
  induction rows with
  | nil => rfl
  | cons row rows ih => rw [List.flatten_cons, weight_append, ih, List.map_cons, List.sum_cons]

/-- There are no `m` equal values in a row. -/
def Short (m : ℕ) (as : List α) : Prop := ∀ a, ¬List.replicate m a <:+: as

theorem Short.of_suffix {bs : List α} (h : Short m as) (hsuffix : bs <:+ as) : Short m bs :=
  fun a hrow => h a (hrow.trans hsuffix.isInfix)

/-- A run that another value ends. -/
def emit (run : ℕ × α) : List (ℕ × α) := if run.1 ≠ 0 then [run] else []

theorem expand_emit (run : ℕ × α) (runs : List (ℕ × α)) :
    expand (emit run ++ runs) = List.replicate run.1 run.2 ++ expand runs := by
  unfold emit
  split_ifs with hlen
  · rfl
  · rw [not_not.1 hlen]
    rfl

theorem weight_emit (run : ℕ × α) : weight (emit run) = run.1 := by
  unfold emit
  split_ifs with hlen
  · rfl
  · exact (not_not.1 hlen).symm

variable [DecidableEq α]

/-- The runs of a list when a run is being counted. -/
def runsFrom (m : ℕ) : ℕ × α → List α → List (ℕ × α)
  | run, [] => [run]
  | run, a :: as =>
    if run.2 ≠ a then emit run ++ runsFrom m (1, a) as
    else runsFrom m ((run.1 + 1) % m, run.2) as

theorem runsFrom_ne {a : α} (hne : run.2 ≠ a) (as : List α) :
    runsFrom m run (a :: as) = emit run ++ runsFrom m (1, a) as := by
  rw [runsFrom, if_pos hne]

theorem runsFrom_same {a : α} (heq : run.2 = a) (as : List α) :
    runsFrom m run (a :: as) = runsFrom m ((run.1 + 1) % m, run.2) as := by
  rw [runsFrom, if_neg (not_not.2 heq)]

theorem weight_runsFrom_le (m : ℕ) (run : ℕ × α) (as : List α) :
    weight (runsFrom m run as) ≤ run.1 + as.length := by
  induction as generalizing run with
  | nil => exact Nat.le_refl _
  | cons a as ih =>
    rw [List.length_cons]
    by_cases heq : run.2 = a
    · have hrest := ih ((run.1 + 1) % m, run.2)
      have hmod := Nat.mod_le (run.1 + 1) m
      rw [runsFrom_same heq]
      dsimp only at hrest
      omega
    · have hrest := ih (1, a)
      rw [runsFrom_ne heq, weight_append, weight_emit]
      dsimp only at hrest
      omega

theorem runsFrom_replicate (k n : ℕ) (a : α) (as : List α) (hk : k < m) :
    runsFrom m (k, a) (List.replicate n a ++ as) = runsFrom m ((k + n) % m, a) as := by
  induction n generalizing k with
  | zero => rw [List.replicate_zero, List.nil_append, Nat.add_zero, Nat.mod_eq_of_lt hk]
  | succ n ih =>
    have hlt := Nat.mod_lt (k + 1) (Nat.zero_lt_of_lt hk)
    rw [List.replicate_succ, List.cons_append, runsFrom_same rfl, ih _ hlt, Nat.mod_add_mod]
    congr 3
    omega

theorem weight_runsFrom_lt (hm : 1 < m) {a : α} (pre post : List α) (hrun : run.1 < m) :
    weight (runsFrom m run (pre ++ (List.replicate m a ++ post))) <
      run.1 + (pre ++ (List.replicate m a ++ post)).length := by
  induction pre generalizing run with
  | nil =>
    obtain ⟨n, rfl⟩ := Nat.exists_eq_add_one_of_ne_zero (by omega : m ≠ 0)
    rw [List.nil_append, List.replicate_succ, List.cons_append, List.length_cons,
      List.length_append, List.length_replicate]
    by_cases heq : run.2 = a
    · -- the run that is being counted comes back to where it was
      have hpost := weight_runsFrom_le (n + 1) (run.1, a) post
      have hback : ((run.1 + 1) % (n + 1) + n) % (n + 1) = run.1 := by
        rw [Nat.mod_add_mod, Nat.add_assoc, Nat.add_comm 1, Nat.add_mod_right, Nat.mod_eq_of_lt hrun]
      rw [runsFrom_same heq, heq, runsFrom_replicate _ _ _ _ (Nat.mod_lt _ (by omega)), hback]
      dsimp only at hpost
      omega
    · -- a new run, which comes back to zero
      have hpost := weight_runsFrom_le (n + 1) (0, a) post
      have hzero : (1 + n) % (n + 1) = 0 := by rw [Nat.add_comm, Nat.mod_self]
      rw [runsFrom_ne heq, weight_append, weight_emit, runsFrom_replicate _ _ _ _ hm, hzero]
      dsimp only at hpost
      omega
  | cons b pre ih =>
    rw [List.cons_append, List.length_cons]
    by_cases heq : run.2 = b
    · have hrest := @ih ((run.1 + 1) % m, run.2) (Nat.mod_lt _ (Nat.zero_lt_of_lt hm))
      have hmod := Nat.mod_le (run.1 + 1) m
      rw [runsFrom_same heq]
      dsimp only at hrest
      omega
    · have hrest := @ih (1, b) hm
      rw [runsFrom_ne heq, weight_append, weight_emit]
      dsimp only at hrest
      omega

theorem expand_runsFrom (hrun : run.1 < m) (h : Short m (List.replicate run.1 run.2 ++ as)) :
    expand (runsFrom m run as) = List.replicate run.1 run.2 ++ as := by
  induction as generalizing run with
  | nil => simp [runsFrom, expand]
  | cons a as ih =>
    by_cases heq : run.2 = a
    · have hlist : List.replicate run.1 run.2 ++ a :: as = List.replicate (run.1 + 1) run.2 ++ as := by
        rw [heq, List.replicate_succ', List.append_assoc, List.singleton_append]
      rw [hlist] at h ⊢
      -- the counter does not wrap
      have hlt : run.1 + 1 < m := by
        by_contra hle
        have hm : run.1 + 1 = m := by omega
        rw [hm] at h
        exact h run.2 (List.prefix_append _ as).isInfix
      rw [runsFrom_same heq, Nat.mod_eq_of_lt hlt]
      exact @ih (run.1 + 1, run.2) hlt h
    · have hrest : Short m (List.replicate 1 a ++ as) := h.of_suffix (List.suffix_append _ _)
      have hm : 1 < m := by
        by_contra hle
        refine hrest a ?_
        rcases (show m = 0 ∨ m = 1 by omega) with rfl | rfl
        · exact List.nil_infix
        · exact (List.prefix_append _ as).isInfix
      rw [runsFrom_ne heq, expand_emit, @ih (1, a) hm hrest]
      rfl

theorem weight_runs_iff (hm : 1 < m) (z : α) (as : List α) :
    weight (runsFrom m (0, z) as) = as.length ↔ Short m as := by
  constructor
  · rintro hweight a ⟨pre, post, rfl⟩
    have hlt := @weight_runsFrom_lt α m (0, z) _ hm a pre post (Nat.zero_lt_of_lt hm)
    rw [List.append_assoc] at hweight
    dsimp only at hlt
    omega
  · intro h
    rw [← length_expand, expand_runsFrom (Nat.zero_lt_of_lt hm) (by simpa using h)]
    rfl

/-! ## The lines of a picture -/

/-- The runs of all lines can be split into rows that give the lines back if and only if no line has a
run that is too long. -/
theorem rows_iff (hm : 1 < m) (z : α) (lines : List (List α)) :
    (∃ rows : List (List (ℕ × α)), rows.flatten = lines.flatMap (runsFrom m (0, z)) ∧
        rows.map expand = lines) ↔ ∀ line ∈ lines, Short m line := by
  constructor
  · rintro ⟨rows, hflatten, hrows⟩
    -- the rows are as long as the lines, but the runs of a line are never longer than the line
    have htotal : (lines.map fun line => weight (runsFrom m (0, z) line)).sum =
        (lines.map List.length).sum := by
      have hweight := congrArg weight hflatten
      rw [weight_flatten, List.flatMap, weight_flatten, List.map_map] at hweight
      refine hweight.symm.trans ?_
      rw [← hrows, List.map_map]
      exact congrArg List.sum (List.map_congr_left fun row _ => (length_expand row).symm)
    intro line hline
    refine (weight_runs_iff hm z line).1 ?_
    by_contra hne
    have hle : ∀ as ∈ lines, weight (runsFrom m (0, z) as) ≤ as.length := by
      intro as _
      have hle := weight_runsFrom_le m (0, z) as
      dsimp only at hle
      omega
    have hlt := List.sum_lt_sum (fun line => weight (runsFrom m (0, z) line)) List.length hle
      ⟨line, hline, lt_of_le_of_ne (hle line hline) hne⟩
    omega
  · intro h
    refine ⟨lines.map (runsFrom m (0, z)), rfl, ?_⟩
    rw [List.map_map]
    conv_rhs => rw [← List.map_id lines]
    refine List.map_congr_left fun line hline => ?_
    exact expand_runsFrom (Nat.zero_lt_of_lt hm) (by simpa using h line hline)

end RunLength
