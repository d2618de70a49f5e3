import StorybookStorage.Effects.Diary

/-!
# Programs among others

Between two steps of a task the others may take any number of steps.  What they
all keep to is a preorder on the shared state; a program that does what it
promises whatever happens within that preorder does so in every pool.
-/

namespace Effects

variable {S : Signature} {σ ι err α : Type}

/-- The steps of a machine, each with what the others do after it; the past is
kept. -/
def Machine.among (M : Machine S σ) (rely : σ -> σ -> Prop) :
    Machine S (List (Sigma S.Ret) × σ) where
  Can w c := M.Can w.2 c
  Step w c r w' :=
    w'.1 = w.1 ++ [⟨c, r⟩] ∧ exists s, M.Step w.2 c r s ∧ rely s w'.2

theorem wp_among {M : Machine S σ} {rely : σ -> σ -> Prop} {c : S.Op}
    {Q : Except err (S.Ret c) -> List (Sigma S.Ret) × σ -> Prop}
    {past : List (Sigma S.Ret)} {s : σ} (hcan : M.Can s c)
    (h : forall r s1 s', M.Step s c r s1 -> rely s1 s' ->
      Q (Except.ok r) (past ++ [⟨c, r⟩], s')) :
    (M.among rely).wp (Prog.op c) Q (past, s) := by
  refine ⟨hcan, ?_⟩
  intro r w' hstep
  rcases w' with ⟨past', s'⟩
  rcases hstep with ⟨rfl, s1, hs1, hrely⟩
  exact h r s1 s' hs1 hrely

theorem wp_among_any {M : Machine S σ} {rely : σ -> σ -> Prop}
    (hcan : forall s c, M.Can s c) (p : Prog S err α)
    (w : List (Sigma S.Ret) × σ) :
    (M.among rely).wp p (fun _ _ => True) w := by
  induction p generalizing w with
  | done a => trivial
  | raise e => trivial
  | call c k ih => exact ⟨hcan w.2 c, fun r w' _ => ih r w'⟩

structure Rules.Guarantees (R : Rules S σ ι err α) (s : σ)
    (rely : σ -> σ -> Prop) : Prop where
  refl : forall s, rely s s
  trans : forall {s1 s2 s3}, rely s1 s2 -> rely s2 s3 -> rely s1 s3
  step : forall P (i : Nat) (t : Task S ι err α) c k r s', R.Reach s P ->
    P.tasks[i]? = some t -> t.code = Prog.call c k ->
    R.machine.Step P.shared c r s' -> rely P.shared s'

/-- A program that keeps its promise among others is on its way to it, whatever
the others do next. -/
theorem Rules.Reach.among {R : Rules S σ ι err α} {s : σ}
    {rely : σ -> σ -> Prop} (hguarantees : R.Guarantees s rely)
    {W : ι -> Prop} {Q : ι -> Except err α -> List (Sigma S.Ret) × σ -> Prop}
    (hprograms : forall P tag s', R.Reach s P -> rely P.shared s' ->
      R.accepts tag -> W tag ->
      (R.machine.among rely).wp (R.program tag) (Q tag) ([], s'))
    {P : Pool S σ ι err α} (hreach : R.Reach s P) {i : Nat}
    {t : Task S ι err α} (ht : P.tasks[i]? = some t) (hW : W t.tag) {s' : σ}
    (hrely : rely P.shared s') :
    (R.machine.among rely).wp t.code (Q t.tag) (t.past, s') := by
  refine Rules.Reach.invariant (I := fun P =>
    forall (i : Nat) (t : Task S ι err α) s', P.tasks[i]? = some t -> W t.tag ->
      rely P.shared s' ->
      (R.machine.among rely).wp t.code (Q t.tag) (t.past, s'))
    ?_ ?_ ?_ ?_ hreach i t s' ht hW hrely
  · intro i t s' ht
    exact (Pool.tasks_boot_get ht).elim
  · intro P tag hreach hP haccepts i t s' ht hW hrely
    rcases Pool.tasks_spawn_get ht with hold | ⟨_, rfl⟩
    · exact hP i t s' hold hW hrely
    · exact hprograms P tag s' hreach hrely haccepts hW
  · intro P i t c k r s1 hreach hP ht hc _ hstep j t' s' ht' hW hrely
    rcases Pool.tasks_advance_get ht' with ⟨_, rfl⟩ | ⟨_, hold⟩
    · have hwp := hP i t P.shared ht hW (hguarantees.refl _)
      rw [hc] at hwp
      exact hwp.right r (t.past ++ [⟨c, r⟩], s') ⟨rfl, s1, hstep, hrely⟩
    · apply hP j t' s' hold hW
      exact hguarantees.trans
        (hguarantees.step P i t c k r s1 hreach ht hc hstep) hrely
  · intro P _ _ _ i t s' ht
    exact (Pool.tasks_stop_get ht).elim

/-- A task that has ended has kept its promise, and nothing that happens after
takes it back. -/
theorem Rules.Reach.among_ended {R : Rules S σ ι err α} {s : σ}
    {rely : σ -> σ -> Prop} (hguarantees : R.Guarantees s rely)
    {W : ι -> Prop} {Q : ι -> Except err α -> List (Sigma S.Ret) × σ -> Prop}
    (hprograms : forall P tag s', R.Reach s P -> rely P.shared s' ->
      R.accepts tag -> W tag ->
      (R.machine.among rely).wp (R.program tag) (Q tag) ([], s'))
    {P : Pool S σ ι err α} (hreach : R.Reach s P) {i : Nat}
    {t : Task S ι err α} (ht : P.tasks[i]? = some t) (hW : W t.tag)
    {o : Except err α} (ho : t.code.ending = some o) :
    Q t.tag o (t.past, P.shared) :=
  Machine.wp_ended (Rules.Reach.among hguarantees hprograms hreach ht hW
    (hguarantees.refl _)) ho

end Effects
