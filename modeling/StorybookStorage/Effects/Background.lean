import StorybookStorage.Effects.Replay

/-!
# Jobs that outlive their caller

A task hands its work to worker threads as jobs and waits for each answer.  A
task that is cancelled while it waits goes on with an error, and the job it
waited for stays with the crew, which runs it when it pleases: before or after
anything the task does later.

A task that is never cancelled is the sequential program that runs each job
where it is handed over.
-/

namespace Effects

/-- The jobs of a task, what each of them runs, and whether the task waits for
it.  Work that is not awaited is done on the spot. -/
structure Jobs (S : Signature) (err : Type) where
  Job : Type
  Val : Job -> Type
  run : (j : Job) -> Prog S err (Val j)
  awaited : Job -> Bool
  /-- What a cancelled task sees in place of an answer. -/
  cancelled : err

namespace Jobs

variable {S : Signature} {σ χ err α β : Type} (J : Jobs S err)

abbrev signature : Signature where
  Op := J.Job
  Ret j := Except err (J.Val j)

abbrev Task (α : Type) := Prog J.signature err α

def await (j : J.Job) : J.Task (J.Val j) :=
  Prog.call (S := J.signature) j Prog.ofExcept

/-- The sequential program: every job runs where it is awaited. -/
def inline : J.Task α -> Prog S err α
  | Prog.done a => Prog.done a
  | Prog.raise e => Prog.raise e
  | Prog.call j k => (J.run j).handle fun r => inline (k r)

section Inline

@[simp] theorem inline_pure (a : α) : J.inline (pure a) = pure a := rfl

@[simp] theorem inline_raise (e : err) :
    J.inline (Prog.raise e : J.Task α) = Prog.raise e := rfl

@[simp] theorem inline_ofExcept (r : Except err α) :
    J.inline (Prog.ofExcept r) = Prog.ofExcept r := by
  cases r <;> rfl

@[simp] theorem inline_await (j : J.Job) : J.inline (J.await j) = J.run j := by
  have hanswer : (fun r => J.inline (Prog.ofExcept r)) =
      (Prog.ofExcept : Except err (J.Val j) -> Prog S err (J.Val j)) :=
    funext fun r => J.inline_ofExcept r
  show (J.run j).handle (fun r => J.inline (Prog.ofExcept r)) = _
  rw [hanswer]
  exact Prog.handle_ofExcept _

theorem inline_handle (p : J.Task α) (f : Except err α -> J.Task β) :
    J.inline (p.handle f) = (J.inline p).handle fun r => J.inline (f r) := by
  induction p with
  | done a => rfl
  | raise e => rfl
  | call j k ih =>
      show (J.run j).handle (fun r => J.inline ((k r).handle f)) =
        ((J.run j).handle fun r => J.inline (k r)).handle _
      rw [Prog.handle_handle]
      exact congrArg _ (funext ih)

@[simp] theorem inline_bind (p : J.Task α) (f : α -> J.Task β) :
    J.inline (p >>= f) = J.inline p >>= fun a => J.inline (f a) := by
  refine (J.inline_handle p _).trans ?_
  refine congrArg (Prog.handle (J.inline p)) (funext fun r => ?_)
  cases r <;> rfl

@[simp] theorem inline_tryCatch (p : J.Task α) (f : err -> J.Task α) :
    J.inline (p.tryCatch f) =
      (J.inline p).tryCatch fun e => J.inline (f e) := by
  refine (J.inline_handle p _).trans ?_
  refine congrArg (Prog.handle (J.inline p)) (funext fun r => ?_)
  cases r <;> rfl

@[simp] theorem inline_tryFinally (p : J.Task α) (f : J.Task β) :
    J.inline (p.tryFinally f) = (J.inline p).tryFinally (J.inline f) := by
  refine (J.inline_handle p _).trans ?_
  refine congrArg (Prog.handle (J.inline p)) (funext fun r => ?_)
  refine (J.inline_bind f _).trans ?_
  rw [funext fun _ => J.inline_ofExcept r]
  rfl

@[simp] theorem inline_onError (p : J.Task α) (f : J.Task β) :
    J.inline (p.onError f) = (J.inline p).onError (J.inline f) := by
  refine (J.inline_handle p _).trans ?_
  refine congrArg (Prog.handle (J.inline p)) (funext fun r => ?_)
  cases r with
  | ok a => rfl
  | error e => exact J.inline_bind f _

end Inline

/-!
## The crew
-/

/-- The state the jobs share, the jobs whose task was cancelled and that have
not run yet, and the jobs that have run, in that order. -/
structure Crew (σ : Type) where
  shared : σ
  pending : List J.Job
  log : List J.Job

def Crew.start (s : σ) : J.Crew σ where
  shared := s
  pending := []
  log := []

/-- The crew runs some of the jobs it was left with, in any order. -/
inductive Works (M : Machine S σ) : J.Crew σ -> J.Crew σ -> Prop where
  | idle (w : J.Crew σ) : Works M w w
  | job {s s' : σ} {j : J.Job} {front back log : List J.Job}
      {trace : List (Sigma S.Ret)} {r : Except err (J.Val j)} {w : J.Crew σ} :
      M.Runs s (J.run j) trace r s' ->
      Works M { shared := s', pending := front ++ back, log := log ++ [j] } w ->
      Works M { shared := s, pending := front ++ j :: back, log := log } w

inductive Answers (M : Machine S σ) :
    J.Crew σ -> (j : J.Job) -> Except err (J.Val j) -> J.Crew σ -> Prop where
  | finished {s s' : σ} {pending log : List J.Job} (j : J.Job)
      {trace : List (Sigma S.Ret)} {r : Except err (J.Val j)} :
      M.Runs s (J.run j) trace r s' ->
      Answers M { shared := s, pending := pending, log := log } j r
        { shared := s', pending := pending, log := log ++ [j] }
  | abandoned {s : σ} {pending log : List J.Job} (j : J.Job) :
      J.awaited j = true ->
      Answers M { shared := s, pending := pending, log := log } j
        (Except.error J.cancelled)
        { shared := s, pending := j :: pending, log := log }

def crew (M : Machine S σ) : Machine J.signature (J.Crew σ) where
  Can _ _ := True
  Step w j r w' := exists w1, J.Works M w w1 ∧ J.Answers M w1 j r w'

variable {J} {M : Machine S σ} {w w1 w' : J.Crew σ}

theorem Works.trans (h : J.Works M w w1) (h' : J.Works M w1 w') :
    J.Works M w w' := by
  induction h with
  | idle w => exact h'
  | job hrun _ ih => exact Works.job hrun (ih h')

theorem Works.of_nil (h : J.Works M w w') (hnil : w.pending = []) : w' = w := by
  cases h with
  | idle _ => rfl
  | job _ _ => simp at hnil

/-- What the crew does first can be put before a run, or after it where the
task has nothing left to do. -/
theorem Works.before_run {p : J.Task α} {w2 : J.Crew σ}
    {trace : List (Sigma J.signature.Ret)} {o : Except err α}
    (h : J.Works M w w1) (hrun : (J.crew M).Runs w1 p trace o w2)
    (h' : J.Works M w2 w') :
    exists trace w3, (J.crew M).Runs w p trace o w3 ∧ J.Works M w3 w' := by
  cases hrun with
  | done _ a => exact ⟨[], w, Machine.Runs.done w a, h.trans h'⟩
  | raise _ e => exact ⟨[], w, Machine.Runs.raise w e, h.trans h'⟩
  | call hstep hrest =>
      rcases hstep with ⟨w0, hworks, hanswer⟩
      exact ⟨_, w2, Machine.Runs.call ⟨w0, h.trans hworks, hanswer⟩ hrest, h'⟩

/-!
## Tasks that are not cancelled
-/

theorem runs_of_inline {p : J.Task α} {s s' : σ} {trace : List (Sigma S.Ret)}
    {o : Except err α} (hrun : M.Runs s (J.inline p) trace o s')
    (pending log : List J.Job) :
    exists trace' log',
      (J.crew M).Runs { shared := s, pending := pending, log := log } p trace' o
        { shared := s', pending := pending, log := log' } := by
  induction p generalizing s trace log with
  | done a =>
      cases hrun
      exact ⟨[], log, Machine.Runs.done _ a⟩
  | raise e =>
      cases hrun
      exact ⟨[], log, Machine.Runs.raise _ e⟩
  | call j k ih =>
      rcases Machine.runs_handle hrun with ⟨r, s1, t1, t2, hjob, hrest, _⟩
      rcases ih r hrest (log ++ [j]) with ⟨trace', log', hafter⟩
      exact ⟨⟨j, r⟩ :: trace', log',
        Machine.Runs.call ⟨_, Works.idle _, Answers.finished j hjob⟩ hafter⟩

/-- A task that sees no cancellation runs the sequential program. -/
theorem inline_of_runs {p : J.Task α}
    {trace : List (Sigma J.signature.Ret)} {o : Except err α}
    (hrun : (J.crew M).Runs w p trace o w') (hnil : w.pending = [])
    (hcalm : forall j, ⟨j, Except.error J.cancelled⟩ ∉ trace) :
    w'.pending = [] ∧
      exists trace', M.Runs w.shared (J.inline p) trace' o w'.shared := by
  induction hrun with
  | done w a => exact ⟨hnil, [], Machine.Runs.done _ a⟩
  | raise w e => exact ⟨hnil, [], Machine.Runs.raise _ e⟩
  | @call w w1 w' j r k trace o hstep _ ih =>
      rcases hstep with ⟨w0, hworks, hanswer⟩
      cases hworks.of_nil hnil
      cases hanswer with
      | finished _ hjob =>
          rcases ih hnil fun i hi => hcalm i (List.mem_cons_of_mem _ hi) with
            ⟨hdone, trace', hrest⟩
          exact ⟨hdone, _, hjob.handle hrest⟩
      | abandoned _ _ => exact absurd List.mem_cons_self (hcalm j)

/-!
## Disciplines

What jobs keep, in whatever order they run.  A job is due when it may run now
and, whatever other due jobs do, at any later time.
-/

structure Discipline (J : Jobs S err) (M : Machine S σ) where
  Valid : σ -> List J.Job -> Prop
  Due : σ -> List J.Job -> J.Job -> Prop
  valid : forall {s s' log j trace r}, Valid s log -> Due s log j ->
    M.Runs s (J.run j) trace r s' -> Valid s' (log ++ [j])
  due : forall {s s' log j trace r i}, Valid s log -> Due s log j ->
    M.Runs s (J.run j) trace r s' -> Due s log i -> Due s' (log ++ [j]) i

namespace Discipline

variable {D : J.Discipline M}

structure Holds (D : J.Discipline M) (w : J.Crew σ) : Prop where
  valid : D.Valid w.shared w.log
  pending : forall j, j ∈ w.pending -> D.Due w.shared w.log j

def Later (D : J.Discipline M) (w w' : J.Crew σ) : Prop :=
  forall j, D.Due w.shared w.log j -> D.Due w'.shared w'.log j

theorem Later.trans (h : D.Later w w1) (h' : D.Later w1 w') : D.Later w w' :=
  fun j hj => h' j (h j hj)

theorem Holds.works (h : D.Holds w) (hworks : J.Works M w w') :
    D.Holds w' ∧ D.Later w w' := by
  induction hworks with
  | idle w => exact ⟨h, fun _ hj => hj⟩
  | @job s s' j front back log trace r w hrun _ ih =>
      have hj : D.Due s log j := h.pending j (by simp)
      have hstays : forall i, D.Due s log i -> D.Due s' (log ++ [j]) i :=
        fun i hi => D.due h.valid hj hrun hi
      have hnext : D.Holds
          { shared := s', pending := front ++ back, log := log ++ [j] } := by
        refine ⟨D.valid h.valid hj hrun, ?_⟩
        intro i hi
        apply hstays
        apply h.pending
        rcases List.mem_append.mp hi with hfront | hback
        · exact List.mem_append_left _ hfront
        · exact List.mem_append_right _ (List.mem_cons_of_mem _ hback)
      rcases ih hnext with ⟨hend, hlater⟩
      exact ⟨hend, fun i hi => hlater i (hstays i hi)⟩

variable {Q : Except err α -> J.Crew σ -> Prop}

theorem wp_await {j : J.Job} {k : Except err (J.Val j) -> J.Task α}
    (h : D.Holds w)
    (hfinished : forall w1 trace r s', D.Holds w1 -> D.Later w w1 ->
      M.Runs w1.shared (J.run j) trace r s' ->
      (J.crew M).wp (k r) Q
        { shared := s', pending := w1.pending, log := w1.log ++ [j] })
    (habandoned : J.awaited j = true -> forall w1, D.Holds w1 -> D.Later w w1 ->
      (J.crew M).wp (k (Except.error J.cancelled)) Q
        { shared := w1.shared, pending := j :: w1.pending, log := w1.log }) :
    (J.crew M).wp (Prog.call (S := J.signature) j k) Q w := by
  refine ⟨trivial, ?_⟩
  intro r w' hdone
  rcases hdone with ⟨w1, hworks, hanswer⟩
  rcases h.works hworks with ⟨hholds, hlater⟩
  cases hanswer with
  | finished _ hrun => exact hfinished _ _ _ _ hholds hlater hrun
  | abandoned _ hawaited => exact habandoned hawaited _ hholds hlater

theorem wp_due {j : J.Job} {k : Except err (J.Val j) -> J.Task α}
    (h : D.Holds w) (hdue : D.Due w.shared w.log j)
    (hfinished : forall w1 w' trace r, D.Holds w1 -> D.Due w1.shared w1.log j ->
      M.Runs w1.shared (J.run j) trace r w'.shared -> w'.log = w1.log ++ [j] ->
      D.Holds w' -> D.Later w w' -> (J.crew M).wp (k r) Q w')
    (habandoned : forall w', D.Holds w' -> D.Later w w' ->
      (J.crew M).wp (k (Except.error J.cancelled)) Q w') :
    (J.crew M).wp (Prog.call (S := J.signature) j k) Q w := by
  apply wp_await h
  · intro w1 trace r s' hholds hlater hrun
    have hj := hlater j hdue
    refine hfinished w1 _ trace r hholds hj hrun rfl ⟨?_, ?_⟩ ?_
    · exact D.valid hholds.valid hj hrun
    · exact fun i hi => D.due hholds.valid hj hrun (hholds.pending i hi)
    · exact fun i hi => D.due hholds.valid hj hrun (hlater i hi)
  · intro _ w1 hholds hlater
    refine habandoned _ ⟨hholds.valid, ?_⟩ hlater
    intro i hi
    rcases List.mem_cons.mp hi with rfl | hrest
    · exact hlater i hdue
    · exact hholds.pending i hrest

theorem wp_await_due {j : J.Job} (h : D.Holds w)
    (hdue : D.Due w.shared w.log j) :
    (J.crew M).wp (J.await j)
      (fun r w' => D.Holds w' ∧ D.Later w w' ∧
        (r = Except.error J.cancelled ∨
          exists w1 trace, D.Holds w1 ∧ D.Due w1.shared w1.log j ∧
            M.Runs w1.shared (J.run j) trace r w'.shared ∧
            w'.log = w1.log ++ [j])) w := by
  apply wp_due h hdue
  · intro w1 w' trace r h1 hj hrun hlog h' hlater
    rw [Machine.wp_ofExcept]
    exact ⟨h', hlater, Or.inr ⟨w1, trace, h1, hj, hrun, hlog⟩⟩
  · intro w' h' hlater
    rw [Machine.wp_ofExcept]
    exact ⟨h', hlater, Or.inl rfl⟩

theorem wp_issues {p : J.Task α} (h : D.Holds w)
    (hp : p.Issues (D.Due w.shared w.log)) :
    (J.crew M).wp p (fun _ w' => D.Holds w' ∧ D.Later w w') w := by
  have hgo : forall (p : J.Task α) w1, D.Holds w1 -> D.Later w w1 ->
      p.Issues (D.Due w.shared w.log) ->
      (J.crew M).wp p (fun _ w' => D.Holds w' ∧ D.Later w w') w1 := by
    intro p
    induction p with
    | done a => exact fun w1 h1 hlater _ => ⟨h1, hlater⟩
    | raise e => exact fun w1 h1 hlater _ => ⟨h1, hlater⟩
    | call j k ih =>
        intro w1 h1 hlater hp
        apply wp_due h1 (hlater j hp.left)
        · intro _ w' _ r _ _ _ _ h' hlater'
          exact ih r w' h' (hlater.trans hlater') (hp.right r)
        · intro w' h' hlater'
          exact ih _ w' h' (hlater.trans hlater') (hp.right _)
  exact hgo p w h (fun _ hj => hj) hp

end Discipline

/-!
## Playing a schedule
-/

/-- What happens next: the task is answered, the task is cancelled, or the crew
runs the job it was left with last. -/
inductive Move where
  | finish
  | leave
  | late

section Play

variable (J) (X : Chooser S σ χ)
  [forall s c ch, Decidable (X.legal s c ch)] (choose : Nat -> χ)

def play : List Move -> J.Task α -> Nat -> J.Crew σ ->
    Option (Except err α × J.Crew σ)
  | [], p, _, w => p.ending.map fun o => (o, w)
  | Move.late :: rest, p, n, w =>
      match w.pending with
      | [] => none
      | j :: pending =>
          (X.replay choose (J.run j) n w.shared).bind fun run =>
            play rest p (n + run.1.length)
              { shared := run.2.2, pending := pending, log := w.log ++ [j] }
  | Move.finish :: rest, Prog.call j k, n, w =>
      (X.replay choose (J.run j) n w.shared).bind fun run =>
        play rest (k run.2.1) (n + run.1.length)
          { shared := run.2.2, pending := w.pending, log := w.log ++ [j] }
  | Move.leave :: rest, Prog.call j k, n, w =>
      if J.awaited j then
        play rest (k (Except.error J.cancelled)) n
          { shared := w.shared, pending := j :: w.pending, log := w.log }
      else
        none
  | _, _, _, _ => none

variable {J X choose}

theorem play_runs {moves : List Move} {p : J.Task α} {n : Nat} {w w' : J.Crew σ}
    {o : Except err α} (h : J.play X choose moves p n w = some (o, w')) :
    exists trace w1, (J.crew X.machine).Runs w p trace o w1 ∧
      J.Works X.machine w1 w' := by
  induction moves generalizing p n w with
  | nil =>
      rcases Option.map_eq_some_iff.mp h with ⟨o', hend, heq⟩
      cases heq
      cases p with
      | done a =>
          cases hend
          exact ⟨[], _, Machine.Runs.done _ a, Works.idle _⟩
      | raise e =>
          cases hend
          exact ⟨[], _, Machine.Runs.raise _ e, Works.idle _⟩
      | call j k => cases hend
  | cons move rest ih =>
      rcases w with ⟨shared, pending, log⟩
      cases move with
      | late =>
          cases pending with
          | nil => cases h
          | cons j pending =>
              rcases Option.bind_eq_some_iff.mp h with ⟨run, hjob, hrest⟩
              have hwork := @Works.job S σ err J X.machine _ _ j [] pending log _
                _ _ (X.replay_runs choose hjob) (Works.idle _)
              rcases ih hrest with ⟨trace, w1, hrun, hworks⟩
              exact hwork.before_run hrun hworks
      | finish =>
          cases p with
          | done a => cases h
          | raise e => cases h
          | call j k =>
              rcases Option.bind_eq_some_iff.mp h with ⟨run, hjob, hrest⟩
              rcases ih hrest with ⟨trace, w1, hrun, hworks⟩
              have hanswer := @Answers.finished S σ err J X.machine _ _ pending log
                j _ _ (X.replay_runs choose hjob)
              exact ⟨_, w1,
                Machine.Runs.call ⟨_, Works.idle _, hanswer⟩ hrun, hworks⟩
      | leave =>
          cases p with
          | done a => cases h
          | raise e => cases h
          | call j k =>
              unfold play at h
              split at h
              · rename_i hawaited
                rcases ih h with ⟨trace, w1, hrun, hworks⟩
                exact ⟨_, w1,
                  Machine.Runs.call
                    ⟨_, Works.idle _, Answers.abandoned j hawaited⟩ hrun,
                  hworks⟩
              · cases h

end Play

end Jobs

end Effects
