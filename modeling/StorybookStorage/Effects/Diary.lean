import StorybookStorage.Effects.Pool

/-!
# Programs and what they have done so far

A diary permits an operation by the operations the program has made before.
When every program keeps to its diary alone, every task of every reachable pool
does, whatever the other tasks are.
-/

namespace Effects

variable {S : Signature} {σ ι err α : Type}

/-- Permits operations by the past; `Ans` are the answers that occur. -/
def diary (Can : List (Sigma S.Ret) -> S.Op -> Prop)
    (Ans : (c : S.Op) -> S.Ret c -> Prop) :
    Machine S (List (Sigma S.Ret)) where
  Can l c := Can l c
  Step l c r l' := Ans c r ∧ l' = l ++ [⟨c, r⟩]

variable {Can : List (Sigma S.Ret) -> S.Op -> Prop}
  {Ans : (c : S.Op) -> S.Ret c -> Prop}

theorem wp_diary {c : S.Op} {Q : Except err (S.Ret c) -> _ -> Prop}
    {l : List (Sigma S.Ret)} (hcan : Can l c)
    (h : forall r, Ans c r -> Q (Except.ok r) (l ++ [⟨c, r⟩])) :
    (diary Can Ans).wp (Prog.op c) Q l := by
  refine ⟨hcan, ?_⟩
  intro r l' hstep
  rcases hstep with ⟨hans, rfl⟩
  exact h r hans

theorem wp_diary_issues {p : Prog S err α} {P : S.Op -> Prop}
    {I : List (Sigma S.Ret) -> Prop} (hp : p.Issues P)
    (hcan : forall l c, I l -> P c -> Can l c)
    (hkeep : forall l c r, I l -> P c -> Ans c r -> I (l ++ [⟨c, r⟩]))
    {l : List (Sigma S.Ret)} (hl : I l) :
    (diary Can Ans).wp p (fun _ l => I l) l := by
  induction p generalizing l with
  | done a => exact hl
  | raise e => exact hl
  | call c k ih =>
      refine ⟨hcan l c hl hp.left, ?_⟩
      intro r l' hstep
      rcases hstep with ⟨hans, rfl⟩
      exact ih r (hp.right r) (hkeep l c r hl hp.left hans)

theorem wp_diary_any (p : Prog S err α) (l : List (Sigma S.Ret)) :
    (diary (fun _ _ => True) Ans).wp p (fun _ _ => True) l := by
  induction p generalizing l with
  | done a => trivial
  | raise e => trivial
  | call c k ih => exact ⟨trivial, fun r l' _ => ih r l'⟩

theorem Rules.Reach.past {R : Rules S σ ι err α} {s : σ}
    {Q : ι -> Except err α -> List (Sigma S.Ret) -> Prop}
    (hprograms : forall tag, R.accepts tag ->
      (Effects.diary (fun _ _ => True) fun _ _ => True).wp (R.program tag)
        (Q tag) [])
    {P : Pool S σ ι err α} (hreach : R.Reach s P) {i : Nat}
    {t : Task S ι err α} (ht : P.tasks[i]? = some t) :
    (Effects.diary (fun _ _ => True) fun _ _ => True).wp t.code (Q t.tag)
      t.past := by
  refine Rules.Reach.invariant (I := fun P =>
    forall (i : Nat) (t : Task S ι err α), P.tasks[i]? = some t ->
      (Effects.diary (fun _ _ => True) fun _ _ => True).wp t.code (Q t.tag)
        t.past)
    ?_ ?_ ?_ ?_ hreach i t ht
  · intro i t ht
    exact (Pool.tasks_boot_get ht).elim
  · intro P tag _ hP haccepts i t ht
    rcases Pool.tasks_spawn_get ht with hold | ⟨_, rfl⟩
    · exact hP i t hold
    · exact hprograms tag haccepts
  · intro P i t c k r s' _ hP ht hc _ _ j t' ht'
    rcases Pool.tasks_advance_get ht' with ⟨_, rfl⟩ | ⟨_, hold⟩
    · have hwp := hP i t ht
      rw [hc] at hwp
      exact hwp.right r _ ⟨trivial, rfl⟩
    · exact hP j t' hold
  · intro P _ _ _ i t ht
    exact (Pool.tasks_stop_get ht).elim

theorem Rules.Reach.past_ended {R : Rules S σ ι err α} {s : σ}
    {Q : ι -> Except err α -> List (Sigma S.Ret) -> Prop}
    (hprograms : forall tag, R.accepts tag ->
      (Effects.diary (fun _ _ => True) fun _ _ => True).wp (R.program tag)
        (Q tag) [])
    {P : Pool S σ ι err α} (hreach : R.Reach s P) {i : Nat}
    {t : Task S ι err α} {o : Except err α} (ht : P.tasks[i]? = some t)
    (ho : t.code.ending = some o) : Q t.tag o t.past :=
  Machine.wp_ended (Rules.Reach.past hprograms hreach ht) ho

/-- Tasks keep to their diaries in every pool; the answers are those that
occur in reachable pools. -/
theorem Rules.Reach.diary_reached {R : Rules S σ ι err α} {s : σ}
    {Can : ι -> List (Sigma S.Ret) -> S.Op -> Prop}
    (hprograms : forall tag, R.accepts tag ->
      (Effects.diary (Can tag) Ans).wp (R.program tag) (fun _ _ => True) [])
    (hanswers : forall P c r s', R.Reach s P ->
      R.machine.Step P.shared c r s' -> Ans c r)
    {P : Pool S σ ι err α} (hreach : R.Reach s P) {i : Nat}
    {t : Task S ι err α} (ht : P.tasks[i]? = some t) :
    (Effects.diary (Can t.tag) Ans).wp t.code (fun _ _ => True) t.past := by
  refine Rules.Reach.invariant (I := fun P =>
    forall (i : Nat) (t : Task S ι err α), P.tasks[i]? = some t ->
      (Effects.diary (Can t.tag) Ans).wp t.code (fun _ _ => True) t.past)
    ?_ ?_ ?_ ?_ hreach i t ht
  · intro i t ht
    exact (Pool.tasks_boot_get ht).elim
  · intro P tag _ hP haccepts i t ht
    rcases Pool.tasks_spawn_get ht with hold | ⟨_, rfl⟩
    · exact hP i t hold
    · exact hprograms tag haccepts
  · intro P i t c k r s' hreach hP ht hc _ hstep j t' ht'
    rcases Pool.tasks_advance_get ht' with ⟨_, rfl⟩ | ⟨_, hold⟩
    · have hwp := hP i t ht
      rw [hc] at hwp
      exact hwp.right r _ ⟨hanswers _ _ _ _ hreach hstep, rfl⟩
    · exact hP j t' hold
  · intro P _ _ _ i t ht
    exact (Pool.tasks_stop_get ht).elim

theorem Rules.Reach.diary {R : Rules S σ ι err α} {s : σ}
    {Can : ι -> List (Sigma S.Ret) -> S.Op -> Prop}
    (hprograms : forall tag, R.accepts tag ->
      (Effects.diary (Can tag) Ans).wp (R.program tag) (fun _ _ => True) [])
    (hanswers : forall s c r s', R.machine.Step s c r s' -> Ans c r)
    {P : Pool S σ ι err α} (hreach : R.Reach s P) {i : Nat}
    {t : Task S ι err α} (ht : P.tasks[i]? = some t) :
    (Effects.diary (Can t.tag) Ans).wp t.code (fun _ _ => True) t.past :=
  Rules.Reach.diary_reached hprograms
    (fun _ _ _ _ _ hstep => hanswers _ _ _ _ hstep) hreach ht

end Effects
