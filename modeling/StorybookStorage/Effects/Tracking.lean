import Mathlib.Logic.Function.Basic
import StorybookStorage.Effects.Pool

/-!
# What tasks have in their hands

A tracker follows one task by its operations and their answers alone.  A program
that behaves by its tracker when it runs alone does so in every pool, so what a
task has in its hands can be read off its past.
-/

namespace Effects

variable {S : Signature} {σ τ ι err err' α β : Type}

/-- Bookkeeping along the operations of one task. -/
structure Tracker (S : Signature) (τ : Type) where
  start : τ
  Can : τ -> S.Op -> Prop
  next : τ -> (c : S.Op) -> S.Ret c -> τ

namespace Tracker

variable (T : Tracker S τ)

def after (past : List (Sigma S.Ret)) : τ :=
  past.foldl (fun x e => T.next x e.1 e.2) T.start

@[simp] theorem after_nil : T.after [] = T.start := rfl

theorem after_concat (past : List (Sigma S.Ret)) (c : S.Op) (r : S.Ret c) :
    T.after (past ++ [⟨c, r⟩]) = T.next (T.after past) c r := by
  unfold after
  rw [List.foldl_append]
  rfl

def machine : Machine S τ where
  Can := T.Can
  Step x c r x' := x' = T.next x c r

variable {T} {x : τ}

theorem wp_op {c : S.Op} {Q : Except err (S.Ret c) -> τ -> Prop}
    (hcan : T.Can x c) (h : forall r, Q (Except.ok r) (T.next x c r)) :
    T.machine.wp (Prog.op c) Q x := by
  refine ⟨hcan, ?_⟩
  intro r x' hstep
  rw [hstep]
  exact h r

theorem wp_issues {p : Prog S err α} {P : S.Op -> Prop} (hp : p.Issues P)
    (hcan : forall c, P c -> T.Can x c)
    (hkeep : forall c r, P c -> T.next x c r = x) :
    T.machine.wp p (fun _ x' => x' = x) x := by
  induction p with
  | done a => rfl
  | raise e => rfl
  | call c k ih =>
      refine ⟨hcan c hp.left, ?_⟩
      intro r x' hstep
      rw [hstep, hkeep c r hp.left]
      exact ih r (hp.right r)

end Tracker

/-!
## Pools
-/

namespace Tracker

variable (T : Tracker S τ)

/-- What every task of a pool has in its hands; who is not there has nothing
yet. -/
def hands (P : Pool S σ ι err α) (i : Nat) : τ :=
  ((P.tasks[i]?).map fun t => T.after t.past).getD T.start

variable {T} {P : Pool S σ ι err α} {i : Nat} {t : Task S ι err α}

theorem hands_eq (ht : P.tasks[i]? = some t) : T.hands P i = T.after t.past := by
  unfold hands
  rw [ht]
  rfl

theorem hands_boot (s : σ) :
    T.hands (Pool.boot s : Pool S σ ι err α) = fun _ => T.start := rfl

theorem hands_spawn (tag : ι) (p : Prog S err α) :
    T.hands (P.spawn tag p) = T.hands P := by
  funext j
  cases hj : (P.spawn tag p).tasks[j]? with
  | none =>
      have hlen := List.getElem?_eq_none_iff.mp hj
      rw [Pool.length_spawn] at hlen
      unfold hands
      rw [hj, List.getElem?_eq_none (by omega)]
  | some u =>
      rw [hands_eq hj]
      rcases Pool.tasks_spawn_get hj with hold | ⟨rfl, rfl⟩
      · exact (hands_eq hold).symm
      · unfold hands
        rw [List.getElem?_eq_none (Nat.le_refl _)]
        rfl

theorem hands_advance (ht : P.tasks[i]? = some t) (c : S.Op) (r : S.Ret c)
    (p : Prog S err α) (s' : σ) :
    T.hands (P.advance i t ⟨c, r⟩ p s') =
      Function.update (T.hands P) i (T.next (T.hands P i) c r) := by
  funext j
  by_cases hj : j = i
  · subst hj
    rw [Function.update_self, hands_eq (Pool.tasks_advance_self ht ..),
      hands_eq ht]
    exact T.after_concat t.past c r
  · rw [Function.update_of_ne hj]
    unfold hands
    rw [Pool.tasks_advance_ne t _ p s' hj]

end Tracker

theorem Rules.Reach.tracked {R : Rules S σ ι err α} {s : σ} {T : Tracker S τ}
    {Q : ι -> Except err α -> τ -> Prop}
    (hprograms : forall tag, R.accepts tag ->
      T.machine.wp (R.program tag) (Q tag) T.start)
    {P : Pool S σ ι err α} (hreach : R.Reach s P) {i : Nat}
    {t : Task S ι err α} (ht : P.tasks[i]? = some t) :
    T.machine.wp t.code (Q t.tag) (T.after t.past) := by
  refine Rules.Reach.invariant (I := fun P =>
    forall (i : Nat) (t : Task S ι err α), P.tasks[i]? = some t ->
      T.machine.wp t.code (Q t.tag) (T.after t.past)) ?_ ?_ ?_ ?_ hreach i t ht
  · intro i t ht
    exact (Pool.tasks_boot_get ht).elim
  · intro P tag _ hP haccepts i t ht
    rcases Pool.tasks_spawn_get ht with hold | ⟨_, rfl⟩
    · exact hP i t hold
    · exact hprograms tag haccepts
  · intro P i t c k r s' _ hP ht hc _ _ j t' ht'
    rcases Pool.tasks_advance_get ht' with ⟨_, rfl⟩ | ⟨_, hold⟩
    · have hwp := hP i t ht
      rw [hc] at hwp
      show T.machine.wp (k r) (Q t.tag) (T.after (t.past ++ [⟨c, r⟩]))
      rw [T.after_concat]
      exact hwp.right r _ rfl
    · exact hP j t' hold
  · intro P _ _ _ i t ht
    exact (Pool.tasks_stop_get ht).elim

end Effects
