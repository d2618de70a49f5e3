import StorybookStorage.Effects.Background

/-!
# Components and their clients

A component is known to its clients by its verbs alone: a client is a task that
awaits verbs, and an implementation says what each verb runs.  An abstract
component is a machine whose operations are the verbs.

An implementation simulates an abstract component when each of its verbs, from
related states, answers what the abstract one may answer.  Then no client can
tell them apart: whatever it gets from the implementation, the abstract
component may have given it.
-/

namespace Effects

variable {S : Signature} {σ ρ ι err α : Type}

def Turn.answered (turn : Turn S ι err α) : ι × Except err α :=
  (turn.tag, turn.outcome)

theorem History.meet {M : Machine S σ} {program : ι -> Prog S err α}
    {meets meets' : σ -> Turn S ι err α -> Prop} {s s' : σ}
    {turns : List (Turn S ι err α)} (h : History M program meets s turns s')
    (hmeets : forall turn, turn ∈ turns -> forall s, meets' s turn) :
    History M program meets' s turns s' := by
  induction h with
  | start => exact History.start _
  | turn _ hrun _ ih =>
      apply History.turn (ih _) hrun
      · exact hmeets _ (List.mem_append_right _ (List.mem_singleton_self _)) _
      · intro turn hturn
        exact hmeets turn (List.mem_append_left _ hturn)

namespace Jobs

variable {J : Jobs S err} {M : Machine S σ} {A : Machine J.signature ρ}
  {R : σ -> ρ -> Prop} {Ok : J.Job -> Prop}

/-!
## An implementation as a component
-/

/-- A verb is a step: a run of what implements it. -/
def component (J : Jobs S err) (M : Machine S σ) : Machine J.signature σ where
  Can _ _ := True
  Step s j r s' := exists trace, M.Runs s (J.run j) trace r s'

/-- A client of the component is the sequential program. -/
theorem component_runs_iff {p : J.Task α} {s s' : σ} {o : Except err α} :
    (exists trace, (J.component M).Runs s p trace o s') <->
      exists trace, M.Runs s (J.inline p) trace o s' := by
  constructor
  · intro h
    rcases h with ⟨trace, hrun⟩
    induction hrun with
    | done s a => exact ⟨[], Machine.Runs.done s a⟩
    | raise s e => exact ⟨[], Machine.Runs.raise s e⟩
    | call hstep _ ih =>
        rcases hstep with ⟨trace1, hjob⟩
        rcases ih with ⟨trace2, hrest⟩
        exact ⟨trace1 ++ trace2, hjob.handle hrest⟩
  · intro h
    rcases h with ⟨trace, hrun⟩
    induction p generalizing s trace with
    | done a =>
        cases hrun
        exact ⟨[], Machine.Runs.done _ a⟩
    | raise e =>
        cases hrun
        exact ⟨[], Machine.Runs.raise _ e⟩
    | call j k ih =>
        rcases Machine.runs_handle hrun with
          ⟨r, s1, trace1, trace2, hjob, hrest, _⟩
        rcases ih r trace2 hrest with ⟨verbs, htask⟩
        exact ⟨⟨j, r⟩ :: verbs, Machine.Runs.call ⟨trace1, hjob⟩ htask⟩

/-- A turn in which no other verbs were asked for. -/
def Within (Ok : J.Job -> Prop) (_ : σ) (turn : Turn J.signature ι err α) :
    Prop :=
  forall e, e ∈ turn.trace -> Ok e.1

/-- Sequential programs that issue only some verbs, one after the other, as
clients of the component. -/
theorem component_history {client : ι -> J.Task α}
    {meets : σ -> Turn S ι err α -> Prop}
    (hclient : forall s turn, meets s turn -> (client turn.tag).Issues Ok)
    {s s' : σ} {turns : List (Turn S ι err α)}
    (h : History M (fun tag => J.inline (client tag)) meets s turns s') :
    exists turns', History (J.component M) client (Within Ok) s turns' s' ∧
      turns'.map Turn.answered = turns.map Turn.answered := by
  induction h with
  | start => exact ⟨[], History.start _, rfl⟩
  | turn _ hrun hmeets ih =>
      rcases ih with ⟨turns', hbefore, hsame⟩
      rcases component_runs_iff.mpr ⟨_, hrun⟩ with ⟨verbs, htask⟩
      refine ⟨_, History.turn hbefore htask ?_, ?_⟩
      · exact htask.issues (hclient _ _ hmeets)
      · rw [List.map_append, List.map_append, hsame]
        rfl

/-!
## Simulation
-/

/-- One verb at a time, with equal answers. -/
structure Simulates (J : Jobs S err) (M : Machine S σ)
    (A : Machine J.signature ρ) (R : σ -> ρ -> Prop) (Ok : J.Job -> Prop) :
    Prop where
  job : forall j s a trace r s', Ok j -> R s a -> M.Runs s (J.run j) trace r s' ->
    exists a', A.Step a j r a' ∧ R s' a'

/-- A run that asks for simulated verbs only is one of the abstract
component. -/
theorem Simulates.task (h : Simulates J M A R Ok) {p : J.Task α} {s s' : σ}
    {a : ρ} {trace : List (Sigma J.signature.Ret)} {o : Except err α}
    (hrelated : R s a) (hrun : (J.component M).Runs s p trace o s')
    (hok : forall e, e ∈ trace -> Ok e.1) :
    exists a', A.Runs a p trace o a' ∧ R s' a' := by
  induction hrun generalizing a with
  | done s b => exact ⟨a, Machine.Runs.done a b, hrelated⟩
  | raise s e => exact ⟨a, Machine.Runs.raise a e, hrelated⟩
  | call hstep _ ih =>
      rcases hstep with ⟨trace1, hjob⟩
      rcases h.job _ _ a trace1 _ _ (hok _ List.mem_cons_self) hrelated hjob with
        ⟨a1, habstract, hrelated1⟩
      rcases ih hrelated1 fun e he => hok e (List.mem_cons_of_mem _ he) with
        ⟨a', hrest, hrelated'⟩
      exact ⟨a', Machine.Runs.call habstract hrest, hrelated'⟩

theorem Simulates.history (h : Simulates J M A R Ok) {client : ι -> J.Task α}
    {s s' : σ} {a : ρ} {turns : List (Turn J.signature ι err α)}
    (hrelated : R s a)
    (hturns : History (J.component M) client (Within Ok) s turns s') :
    exists a', History A client (fun _ _ => True) a turns a' ∧ R s' a' := by
  induction hturns with
  | start => exact ⟨a, History.start a, hrelated⟩
  | turn _ hrun hwithin ih =>
      rcases ih with ⟨a1, hbefore, hrelated1⟩
      rcases h.task hrelated1 hrun hwithin with ⟨a', htask, hrelated'⟩
      exact ⟨a', History.turn hbefore htask trivial, hrelated'⟩

end Jobs

/-!
## Replaying clients
-/

section Replay

variable {χ : Type} (X : Chooser S σ χ)
  [forall s c ch, Decidable (X.legal s c ch)] (J : Jobs S err)

/-- A verb is run on choices of its own. -/
def Chooser.component : Chooser J.signature σ (Nat -> χ) where
  legal s j choose := (X.replay choose (J.run j) 0 s).isSome = true
  exec choose j s :=
    ((X.replay choose (J.run j) 0 s).map Prod.snd).getD
      (Except.error J.cancelled, s)

instance (s : σ) (j : J.Job) (choose : Nat -> χ) :
    Decidable ((X.component J).legal s j choose) :=
  inferInstanceAs (Decidable (_ = true))

theorem Chooser.component_step {s s' : σ} {j : J.Job}
    {r : Except err (J.Val j)}
    (h : (X.component J).machine.Step s j r s') :
    (J.component X.machine).Step s j r s' := by
  rcases h with ⟨choose, hlegal, hexec⟩
  rcases Option.isSome_iff_exists.mp hlegal with ⟨⟨trace, run⟩, hreplay⟩
  unfold Chooser.component at hexec
  dsimp only at hexec
  rw [hreplay] at hexec
  cases hexec
  exact ⟨trace, X.replay_runs choose hreplay⟩

theorem Chooser.component_history {client : ι -> J.Task α}
    {meets : σ -> Turn J.signature ι err α -> Prop} {s s' : σ}
    {turns : List (Turn J.signature ι err α)}
    (h : History (X.component J).machine client meets s turns s') :
    History (J.component X.machine) client meets s turns s' := by
  induction h with
  | start => exact History.start _
  | turn _ hrun hmeets ih =>
      exact History.turn ih
        (hrun.imp fun _ _ _ _ hstep => X.component_step J hstep) hmeets

end Replay

end Effects
