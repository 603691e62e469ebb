import Xine.Cue.Schedule
import Xine.Lists.Cursor

/-!
# Disposing cue points

`xine_event_dispose_cue_point` of `events.c` looks for a cue point from the first on, and deletes the node
that the cursor is left on. That is the cue point if it is in the list; otherwise it is the last one, or
none at all.
-/

namespace Xine.Cue

open Xine.Lists

variable {α : Type*} {test : α → Bool} {s s' : Cursor CuePoint} {cuetime frequency : ℤ}

/-- The contents of the list. -/
def contents (s : Cursor α) : List α := s.nodes.map Prod.fst

/-- The loop `while (x && !test (x)) x = xine_list_next_content (l)`. Each turn but the last moves the
cursor. -/
def walk (test : α → Bool) : ℕ → Option α × Cursor α → Option α × Cursor α
  | 0, r => r
  | _ + 1, (none, s) => (none, s)
  | turns + 1, (some x, s) => if test x then (some x, s) else walk test turns s.next

/-- The cue point is the one that is to be disposed. -/
def isCue (cuetime frequency : ℤ) (cue_point : CuePoint) : Bool :=
  decide (cue_point.cuetime = cuetime ∧ cue_point.frequency = frequency)

/-- `xine_event_create_cue_point`, on the list of the cue points. -/
def createCuePoint (s : Cursor CuePoint) (cuetime frequency : ℤ) : Cursor CuePoint :=
  s.append ⟨0, cuetime, frequency⟩

def xineEventDisposeCuePoint (s : Cursor CuePoint) (cuetime frequency : ℤ) : Option (Cursor CuePoint) :=
  (walk (isCue cuetime frequency) (s.nodes.length + 1) s.first).2.delete

theorem delete_on (before : List (α × ℤ)) (node : α × ℤ) (behind : List (α × ℤ)) :
    ∃ s', (Cursor.on before node behind).delete = some s' ∧ s'.nodes = before ++ behind := by
  cases behind with
  | cons next behind => exact ⟨_, rfl, rfl⟩
  | nil =>
    refine ⟨_, rfl, ?_⟩
    rw [List.append_nil]
    cases hbefore : before.reverse with
    | nil => exact (List.reverse_eq_nil_iff.1 hbefore).symm
    | cons prev rest =>
      rw [← List.reverse_reverse before, hbefore, List.reverse_cons]
      rfl

theorem delete_walk {turns : ℕ} {before : List (α × ℤ)} {node : α × ℤ} {behind : List (α × ℤ)}
    (hturns : behind.length < turns) :
    ∃ s', (walk test turns (some node.1, Cursor.on before node behind)).2.delete = some s' ∧
      s'.nodes = before ++
        if (node :: behind).any fun n => test n.1 then (node :: behind).eraseP fun n => test n.1
        else (node :: behind).dropLast := by
  induction behind generalizing before node turns with
  | nil =>
    obtain ⟨turns, rfl⟩ := Nat.exists_eq_succ_of_ne_zero (Nat.ne_of_gt hturns)
    obtain ⟨s', hs', hnodes⟩ := delete_on before node []
    have hend : (walk test turns (none, Cursor.on before node [])).2 = .on before node [] := by
      cases turns <;> rfl
    cases htest : test node.1 with
    | true => exact ⟨s', by rw [walk, htest]; exact hs', by simp [hnodes, htest]⟩
    | false =>
      refine ⟨s', ?_, by simp [hnodes, htest]⟩
      rw [walk, htest, if_neg Bool.false_ne_true]
      exact (congrArg Cursor.delete hend).trans hs'
  | cons next behind ih =>
    obtain ⟨turns, rfl⟩ := Nat.exists_eq_succ_of_ne_zero (Nat.ne_of_gt (Nat.zero_lt_of_lt hturns))
    cases htest : test node.1 with
    | true =>
      obtain ⟨s', hs', hnodes⟩ := delete_on before node (next :: behind)
      exact ⟨s', by rw [walk, htest]; exact hs', by simp [hnodes, htest]⟩
    | false =>
      obtain ⟨s', hs', hnodes⟩ := @ih turns (before ++ [node]) next (Nat.lt_of_succ_lt_succ hturns)
      refine ⟨s', ?_, ?_⟩
      · rw [walk, htest, if_neg Bool.false_ne_true]
        exact hs'
      · have hany : ((node :: next :: behind).any fun n => test n.1) =
            (next :: behind).any fun n => test n.1 := by simp [htest]
        rw [hnodes, hany, List.append_assoc]
        split_ifs
        · have hne : ¬test node.1 = true := Bool.eq_false_iff.1 htest
          rw [@List.eraseP_cons_of_neg _ node _ (fun n => test n.1) hne]
          rfl
        · rfl

theorem dispose_spec {node : CuePoint × ℤ} {behind : List (CuePoint × ℤ)} (hnodes : s.nodes = node :: behind)
    (cuetime frequency : ℤ) :
    ∃ s', xineEventDisposeCuePoint s cuetime frequency = some s' ∧
      contents s' = if (contents s).any (isCue cuetime frequency) then
        (contents s).eraseP (isCue cuetime frequency) else (contents s).dropLast := by
  have hfirst : s.first = (some node.1, .on [] node behind) := by
    unfold Cursor.first
    rw [hnodes]
    rfl
  obtain ⟨s', hs', hleft⟩ := @delete_walk _ (isCue cuetime frequency) (s.nodes.length + 1) [] node behind (by
    rw [hnodes, List.length_cons]
    omega)
  refine ⟨s', ?_, ?_⟩
  · unfold xineEventDisposeCuePoint
    rw [hfirst]
    exact hs'
  · unfold contents
    rw [hleft, hnodes, List.nil_append, List.any_map, List.eraseP_map, ← List.map_dropLast, ← apply_ite]
    rfl

/-- The first such cue point is taken out and the others keep their order; without one nothing changes. -/
def Disposes (s : Cursor CuePoint) (cuetime frequency : ℤ) : Prop :=
  ∃ s', xineEventDisposeCuePoint s cuetime frequency = some s' ∧
    contents s' = (contents s).eraseP (isCue cuetime frequency)

/-- Disposing does so exactly if the cue point is in the list. -/
theorem disposes_iff (s : Cursor CuePoint) (cuetime frequency : ℤ) :
    Disposes s cuetime frequency ↔
      ∃ c ∈ contents s, c.cuetime = cuetime ∧ c.frequency = frequency := by
  have hany : (∃ c ∈ contents s, c.cuetime = cuetime ∧ c.frequency = frequency) ↔
      (contents s).any (isCue cuetime frequency) = true := by
    rw [List.any_eq_true]
    exact exists_congr fun c => and_congr_right fun _ => (decide_eq_true_iff).symm
  rw [hany]
  cases hnodes : s.nodes with
  | nil =>
    have hcontents : contents s = [] := by rw [contents, hnodes, List.map_nil]
    rw [hcontents, List.any_nil]
    refine iff_of_false ?_ Bool.false_ne_true
    rintro ⟨s', hs', -⟩
    have hcrash : xineEventDisposeCuePoint s cuetime frequency = none := by
      unfold xineEventDisposeCuePoint Cursor.first
      rw [hnodes]
      rfl
    exact absurd (hcrash.symm.trans hs') (Option.some_ne_none s').symm
  | cons node behind =>
    obtain ⟨s', hs', hleft⟩ := dispose_spec hnodes cuetime frequency
    constructor
    · rintro ⟨s'', hs'', herase⟩
      obtain rfl : s' = s'' := Option.some.inj (hs'.symm.trans hs'')
      by_contra hno
      -- nothing is erased, but the last cue point is gone
      have hnone : ∀ c ∈ contents s, ¬isCue cuetime frequency c = true := fun c hc h =>
        hno (List.any_eq_true.2 ⟨c, hc, h⟩)
      rw [List.eraseP_of_forall_not hnone] at herase
      rw [if_neg hno, herase] at hleft
      have hlength := congrArg List.length hleft
      have hcons : contents s = node.1 :: behind.map Prod.fst := by rw [contents, hnodes, List.map_cons]
      rw [List.length_dropLast, hcons, List.length_cons] at hlength
      omega
    · intro h
      rw [if_pos h] at hleft
      exact ⟨s', hs', hleft⟩

/-- Of a cue point that is not there, the list loses its last one instead. -/
theorem dispose_other : (createCuePoint .empty 0 40).nodes = [(⟨0, 0, 40⟩, 0)] ∧
    ¬Disposes (createCuePoint .empty 0 40) 0 90 := by
  refine ⟨rfl, ?_⟩
  rintro ⟨s', hs', hcontents⟩
  have hnone : xineEventDisposeCuePoint (createCuePoint .empty 0 40) 0 90 = some .empty := rfl
  obtain rfl : Cursor.empty = s' := Option.some.inj (hnone.symm.trans hs')
  exact absurd hcontents (by decide)

end Xine.Cue
