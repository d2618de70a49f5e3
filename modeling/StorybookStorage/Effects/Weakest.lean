import StorybookStorage.Effects.Program

/-!
# Machines, runs and weakest preconditions

A machine says which operations are permitted in a state and which answers and
successor states they may have.  `Runs` is the big-step meaning of a program on
a machine; `wp` is its demonic weakest precondition, computed along the program.
The two agree, so a property of all runs is proved by pushing `wp` through the
program text.
-/

namespace Effects

/-- Permitted operations and their possible effects. -/
structure Machine (S : Signature) (σ : Type) where
  Can : σ -> S.Op -> Prop
  Step : σ -> (c : S.Op) -> S.Ret c -> σ -> Prop

variable {S : Signature} {σ err err' α β : Type}

namespace Machine

/-- Every way program `p` can run to its end from a state, with the operations
it makes on the way. -/
inductive Runs (M : Machine S σ) :
    σ -> Prog S err α -> List (Sigma S.Ret) -> Except err α -> σ -> Prop where
  | done (s : σ) (a : α) : Runs M s (Prog.done a) [] (Except.ok a) s
  | raise (s : σ) (e : err) : Runs M s (Prog.raise e) [] (Except.error e) s
  | call {s s' t : σ} {c : S.Op} {r : S.Ret c}
      {k : S.Ret c -> Prog S err α} {trace : List (Sigma S.Ret)}
      {o : Except err α} :
      M.Step s c r s' ->
      Runs M s' (k r) trace o t ->
      Runs M s (Prog.call c k) (⟨c, r⟩ :: trace) o t

/-- Weakest precondition: every operation met is permitted and every ending
satisfies `Q`. -/
def wp (M : Machine S σ) :
    Prog S err α -> (Except err α -> σ -> Prop) -> σ -> Prop
  | Prog.done a, Q, s => Q (Except.ok a) s
  | Prog.raise e, Q, s => Q (Except.error e) s
  | Prog.call c k, Q, s =>
      M.Can s c ∧ forall r s', M.Step s c r s' -> M.wp (k r) Q s'

variable {M : Machine S σ}

@[simp] theorem wp_done (a : α) (Q : Except err α -> σ -> Prop) (s : σ) :
    M.wp (Prog.done a) Q s <-> Q (Except.ok a) s := Iff.rfl

@[simp] theorem wp_pure (a : α) (Q : Except err α -> σ -> Prop) (s : σ) :
    M.wp (pure a : Prog S err α) Q s <-> Q (Except.ok a) s := Iff.rfl

@[simp] theorem wp_raise (e : err) (Q : Except err α -> σ -> Prop) (s : σ) :
    M.wp (Prog.raise e) Q s <-> Q (Except.error e) s := Iff.rfl

theorem wp_call (c : S.Op) (k : S.Ret c -> Prog S err α)
    (Q : Except err α -> σ -> Prop) (s : σ) :
    M.wp (Prog.call c k) Q s <->
      M.Can s c ∧ forall r s', M.Step s c r s' -> M.wp (k r) Q s' := Iff.rfl

@[simp] theorem wp_ofExcept (r : Except err α)
    (Q : Except err α -> σ -> Prop) (s : σ) :
    M.wp (Prog.ofExcept r : Prog S err α) Q s <-> Q r s := by
  cases r <;> exact Iff.rfl

theorem wp_mono {p : Prog S err α} {Q Q' : Except err α -> σ -> Prop} {s : σ}
    (h : M.wp p Q s) (hQ : forall o t, Q o t -> Q' o t) :
    M.wp p Q' s := by
  induction p generalizing s with
  | done a => exact hQ _ _ h
  | raise e => exact hQ _ _ h
  | call c k ih =>
      refine ⟨h.left, ?_⟩
      intro r s' hstep
      exact ih r (h.right r s' hstep)

/-- All structured control flow goes through this rule. -/
theorem wp_handle (p : Prog S err α) (f : Except err α -> Prog S err' β)
    (Q : Except err' β -> σ -> Prop) (s : σ) :
    M.wp (p.handle f) Q s <-> M.wp p (fun o t => M.wp (f o) Q t) s := by
  induction p generalizing s with
  | done a => exact Iff.rfl
  | raise e => exact Iff.rfl
  | call c k ih =>
      constructor
      · intro h
        exact ⟨h.left, fun r s' hstep => (ih r s').mp (h.right r s' hstep)⟩
      · intro h
        exact ⟨h.left, fun r s' hstep => (ih r s').mpr (h.right r s' hstep)⟩

theorem wp_bind (p : Prog S err α) (f : α -> Prog S err β)
    (Q : Except err β -> σ -> Prop) (s : σ) :
    M.wp (p >>= f) Q s <->
      M.wp p
        (fun o t =>
          match o with
          | Except.ok a => M.wp (f a) Q t
          | Except.error e => Q (Except.error e) t) s := by
  show M.wp (p.handle _) Q s <-> _
  rw [wp_handle]
  constructor
  · intro h
    refine wp_mono h ?_
    intro o t ho
    cases o <;> exact ho
  · intro h
    refine wp_mono h ?_
    intro o t ho
    cases o <;> exact ho

theorem wp_tryCatch (p : Prog S err α) (f : err -> Prog S err α)
    (Q : Except err α -> σ -> Prop) (s : σ) :
    M.wp (p.tryCatch f) Q s <->
      M.wp p
        (fun o t =>
          match o with
          | Except.ok a => Q (Except.ok a) t
          | Except.error e => M.wp (f e) Q t) s := by
  unfold Prog.tryCatch
  rw [wp_handle]
  constructor
  · intro h
    refine wp_mono h ?_
    intro o t ho
    cases o <;> exact ho
  · intro h
    refine wp_mono h ?_
    intro o t ho
    cases o <;> exact ho

theorem wp_tryFinally (p : Prog S err α) (f : Prog S err β)
    (Q : Except err α -> σ -> Prop) (s : σ) :
    M.wp (p.tryFinally f) Q s <->
      M.wp p
        (fun o t =>
          M.wp f
            (fun o' t' =>
              match o' with
              | Except.ok _ => Q o t'
              | Except.error e => Q (Except.error e) t') t) s := by
  unfold Prog.tryFinally
  rw [wp_handle]
  constructor
  · intro h
    refine wp_mono h ?_
    intro o t ho
    refine wp_mono ((wp_bind f (fun _ => Prog.ofExcept o) Q t).mp ho) ?_
    intro o' t' ho'
    cases o' with
    | ok b => exact (wp_ofExcept o Q t').mp ho'
    | error e => exact ho'
  · intro h
    refine wp_mono h ?_
    intro o t ho
    refine (wp_bind f (fun _ => Prog.ofExcept o) Q t).mpr ?_
    refine wp_mono ho ?_
    intro o' t' ho'
    cases o' with
    | ok b => exact (wp_ofExcept o Q t').mpr ho'
    | error e => exact ho'

theorem wp_onError (p : Prog S err α) (f : Prog S err β)
    (Q : Except err α -> σ -> Prop) (s : σ) :
    M.wp (p.onError f) Q s <->
      M.wp p
        (fun o t =>
          match o with
          | Except.ok a => Q (Except.ok a) t
          | Except.error e =>
              M.wp f
                (fun o' t' =>
                  match o' with
                  | Except.ok _ => Q (Except.error e) t'
                  | Except.error e' => Q (Except.error e') t') t) s := by
  unfold Prog.onError
  rw [wp_handle]
  constructor
  · intro h
    refine wp_mono h ?_
    intro o t ho
    cases o with
    | ok a => exact ho
    | error e =>
        refine wp_mono ((wp_bind f (fun _ => Prog.raise e) Q t).mp ho) ?_
        intro o' t' ho'
        cases o' <;> exact ho'
  · intro h
    refine wp_mono h ?_
    intro o t ho
    cases o with
    | ok a => exact ho
    | error e =>
        refine (wp_bind f (fun _ => Prog.raise e) Q t).mpr ?_
        refine wp_mono ho ?_
        intro o' t' ho'
        cases o' <;> exact ho'

/-!
## Weakest preconditions and runs
-/

theorem wp_ended {p : Prog S err α} {Q : Except err α -> σ -> Prop} {s : σ}
    {o : Except err α} (h : M.wp p Q s) (ho : p.ending = some o) : Q o s := by
  cases p with
  | done a =>
      cases ho
      exact h
  | raise e =>
      cases ho
      exact h
  | call c k => cases ho

theorem wp_sound {p : Prog S err α} {Q : Except err α -> σ -> Prop}
    {s t : σ} {trace : List (Sigma S.Ret)} {o : Except err α}
    (h : M.wp p Q s) (hrun : M.Runs s p trace o t) : Q o t := by
  induction hrun with
  | done s a => exact h
  | raise s e => exact h
  | call hstep _ ih => exact ih (h.right _ _ hstep)

/-- Where nothing is forbidden, `wp` says exactly what all runs do. -/
theorem wp_iff_runs (hcan : forall s c, M.Can s c)
    (p : Prog S err α) (Q : Except err α -> σ -> Prop) (s : σ) :
    M.wp p Q s <-> forall trace o t, M.Runs s p trace o t -> Q o t := by
  constructor
  · intro h trace o t hrun
    exact wp_sound h hrun
  · induction p generalizing s with
    | done a => intro h; exact h _ _ _ (Runs.done s a)
    | raise e => intro h; exact h _ _ _ (Runs.raise s e)
    | call c k ih =>
        intro h
        refine ⟨hcan s c, ?_⟩
        intro r s' hstep
        apply ih r s'
        intro trace o t hrun
        exact h _ o t (Runs.call hstep hrun)

theorem Runs.issues {p : Prog S err α} {P : S.Op -> Prop} {s t : σ}
    {trace : List (Sigma S.Ret)} {o : Except err α}
    (h : M.Runs s p trace o t) (hp : p.Issues P) :
    forall e, e ∈ trace -> P e.1 := by
  induction h with
  | done s a =>
      intro e he
      cases he
  | raise s e =>
      intro e he
      cases he
  | call _ _ ih =>
      intro e he
      rcases List.mem_cons.mp he with rfl | he
      · exact hp.left
      · exact ih (hp.right _) e he

/-- A program whose operations can always be made can be run to its end. -/
theorem runs_exist {p : Prog S err α} {P : S.Op -> Prop} (hp : p.Issues P)
    (hstep : forall s c, P c -> exists r s', M.Step s c r s') (s : σ) :
    exists trace o t, M.Runs s p trace o t := by
  induction p generalizing s with
  | done a => exact ⟨_, _, _, Runs.done s a⟩
  | raise e => exact ⟨_, _, _, Runs.raise s e⟩
  | call c k ih =>
      rcases hstep s c hp.left with ⟨r, s1, hfirst⟩
      rcases ih r (hp.right r) s1 with ⟨trace, o, t, hrest⟩
      exact ⟨_, _, _, Runs.call hfirst hrest⟩

theorem runs_map {p : Prog S err α} {f : α -> β} {s t : σ}
    {trace : List (Sigma S.Ret)} {o : Except err β}
    (h : M.Runs s (f <$> p) trace o t) :
    exists o', M.Runs s p trace o' t ∧ o = o'.map f := by
  induction p generalizing s trace with
  | done a =>
      cases h
      exact ⟨Except.ok a, Runs.done _ a, rfl⟩
  | raise e =>
      cases h
      exact ⟨Except.error e, Runs.raise _ e, rfl⟩
  | call c k ih =>
      cases h with
      | call hstep hrest =>
          rcases ih _ hrest with ⟨o', hrun, ho⟩
          exact ⟨o', Runs.call hstep hrun, ho⟩

theorem Runs.map {p : Prog S err α} {s t : σ} {trace : List (Sigma S.Ret)}
    {o : Except err α} (h : M.Runs s p trace o t) (f : α -> β) :
    M.Runs s (f <$> p) trace (o.map f) t := by
  induction h with
  | done s a => exact Runs.done s (f a)
  | raise s e => exact Runs.raise s e
  | call hstep _ ih => exact Runs.call hstep ih

theorem Runs.imp {N : Machine S σ} {p : Prog S err α} {s t : σ}
    {trace : List (Sigma S.Ret)} {o : Except err α} (h : M.Runs s p trace o t)
    (hsteps : forall e, e ∈ trace -> forall s s', M.Step s e.1 e.2 s' ->
      N.Step s e.1 e.2 s') : N.Runs s p trace o t := by
  induction h with
  | done s a => exact Runs.done s a
  | raise s e => exact Runs.raise s e
  | call hstep _ ih =>
      apply Runs.call (hsteps _ List.mem_cons_self _ _ hstep)
      apply ih
      intro e he
      exact hsteps e (List.mem_cons_of_mem _ he)

theorem runs_single {c : S.Op} {k : S.Ret c -> Prog S err α} {s t : σ}
    {trace : List (Sigma S.Ret)} {o : Except err α}
    (hend : forall r, exists o', (k r).ending = some o')
    (h : M.Runs s (Prog.call c k) trace o t) :
    exists r, M.Step s c r t ∧ (k r).ending = some o := by
  cases h with
  | @call _ s1 _ _ r _ rest _ hstep hrest =>
      refine ⟨r, ?_⟩
      rcases hend r with ⟨o', ho'⟩
      cases hk : k r with
      | done a =>
          rw [hk] at hrest
          cases hrest
          exact ⟨hstep, rfl⟩
      | raise e =>
          rw [hk] at hrest
          cases hrest
          exact ⟨hstep, rfl⟩
      | call c' k' =>
          rw [hk] at ho'
          cases ho'

theorem Runs.handle {p : Prog S err α} {f : Except err α -> Prog S err' β}
    {s s1 t : σ} {trace1 trace2 : List (Sigma S.Ret)} {r : Except err α}
    {o : Except err' β} (h : M.Runs s p trace1 r s1)
    (h' : M.Runs s1 (f r) trace2 o t) :
    M.Runs s (p.handle f) (trace1 ++ trace2) o t := by
  induction h with
  | done s a => exact h'
  | raise s e => exact h'
  | call hstep _ ih => exact Runs.call hstep (ih h')

/-- Whatever ends a program decides what runs next. -/
theorem runs_handle {p : Prog S err α} {f : Except err α -> Prog S err' β}
    {s t : σ} {trace : List (Sigma S.Ret)} {o : Except err' β}
    (h : M.Runs s (p.handle f) trace o t) :
    exists r s1 trace1 trace2, M.Runs s p trace1 r s1 ∧
      M.Runs s1 (f r) trace2 o t ∧ trace = trace1 ++ trace2 := by
  induction p generalizing s trace with
  | done a => exact ⟨Except.ok a, s, [], trace, Runs.done s a, h, rfl⟩
  | raise e => exact ⟨Except.error e, s, [], trace, Runs.raise s e, h, rfl⟩
  | call c k ih =>
      cases h with
      | call hstep hrest =>
          rcases ih _ hrest with ⟨r, s1, trace1, trace2, hp, hf, rfl⟩
          exact ⟨r, s1, _ :: trace1, trace2, Runs.call hstep hp, hf, rfl⟩

/-- A sequence runs its first part to the end before the second, unless the
first part raises. -/
theorem runs_bind {p : Prog S err α} {f : α -> Prog S err β} {s t : σ}
    {trace : List (Sigma S.Ret)} {o : Except err β}
    (h : M.Runs s (p >>= f) trace o t) :
    (exists a s1 trace1 trace2, M.Runs s p trace1 (Except.ok a) s1 ∧
      M.Runs s1 (f a) trace2 o t ∧ trace = trace1 ++ trace2) ∨
      exists e, M.Runs s p trace (Except.error e) t ∧ o = Except.error e := by
  rcases runs_handle h with ⟨r, s1, trace1, trace2, hp, hf, rfl⟩
  cases r with
  | ok a => exact Or.inl ⟨a, s1, trace1, trace2, hp, hf, rfl⟩
  | error e =>
      cases hf
      rw [List.append_nil]
      exact Or.inr ⟨e, hp, rfl⟩

theorem runs_tryCatch {p : Prog S err α} {f : err -> Prog S err α} {s t : σ}
    {trace : List (Sigma S.Ret)} {o : Except err α}
    (h : M.Runs s (p.tryCatch f) trace o t) :
    (exists a, M.Runs s p trace (Except.ok a) t ∧ o = Except.ok a) ∨
      exists e s1 trace1 trace2, M.Runs s p trace1 (Except.error e) s1 ∧
        M.Runs s1 (f e) trace2 o t ∧ trace = trace1 ++ trace2 := by
  rcases runs_handle h with ⟨r, s1, trace1, trace2, hp, hf, rfl⟩
  cases r with
  | ok a =>
      cases hf
      rw [List.append_nil]
      exact Or.inl ⟨a, hp, rfl⟩
  | error e => exact Or.inr ⟨e, s1, trace1, trace2, hp, hf, rfl⟩

theorem runs_onError {p : Prog S err α} {f : Prog S err β} {s t : σ}
    {trace : List (Sigma S.Ret)} {o : Except err α}
    (h : M.Runs s (p.onError f) trace o t) :
    (exists a, M.Runs s p trace (Except.ok a) t ∧ o = Except.ok a) ∨
      exists e s1 trace1 trace2 r, M.Runs s p trace1 (Except.error e) s1 ∧
        M.Runs s1 f trace2 r t ∧ trace = trace1 ++ trace2 ∧
        ((exists b, r = Except.ok b) -> o = Except.error e) ∧
        (forall e', r = Except.error e' -> o = Except.error e') := by
  rcases runs_handle h with ⟨r, s1, trace1, trace2, hp, hf, rfl⟩
  cases r with
  | ok a =>
      cases hf
      rw [List.append_nil]
      exact Or.inl ⟨a, hp, rfl⟩
  | error e =>
      rcases runs_handle hf with ⟨r, s2, trace3, trace4, hclean, hend, rfl⟩
      cases r with
      | ok b =>
          cases hend
          rw [List.append_nil]
          exact Or.inr ⟨e, s1, trace1, trace3, Except.ok b, hp, hclean, rfl,
            fun _ => rfl, fun _ he => nomatch he⟩
      | error e' =>
          cases hend
          rw [List.append_nil]
          refine Or.inr ⟨e, s1, trace1, trace3, Except.error e', hp, hclean,
            rfl, ?_, ?_⟩
          · intro hok
            rcases hok with ⟨_, heq⟩
            cases heq
          · intro e'' he
            cases he
            rfl

/-- A machine that follows another one, step by step and as long as the program
does what the other permits, inherits its weakest preconditions. -/
theorem wp_simulates {τ : Type} {N : Machine S τ}
    {R : σ -> List (Sigma S.Ret) -> τ -> Prop}
    (hstep : forall s past t c r s', R s past t -> N.Can t c ->
      M.Step s c r s' ->
      exists t', N.Step t c r t' ∧ R s' (past ++ [⟨c, r⟩]) t')
    {p : Prog S err α} {Q : Except err α -> τ -> Prop} {s s' : σ} {t : τ}
    {trace : List (Sigma S.Ret)} {o : Except err α}
    (past : List (Sigma S.Ret)) (hrun : M.Runs s p trace o s')
    (hR : R s past t) (hwp : N.wp p Q t) :
    exists t', R s' (past ++ trace) t' ∧ Q o t' := by
  induction hrun generalizing t past with
  | done s a => exact ⟨t, by simpa using hR, hwp⟩
  | raise s e => exact ⟨t, by simpa using hR, hwp⟩
  | call hs _ ih =>
      rcases hstep _ _ _ _ _ _ hR hwp.left hs with ⟨t1, ht1, hR1⟩
      rcases ih _ hR1 (hwp.right _ _ ht1) with ⟨t2, hR2, hQ⟩
      exact ⟨t2, by simpa using hR2, hQ⟩

/-!
## On the way
-/

/-- A state a program passes through, before or at its end. -/
inductive Passes (M : Machine S σ) : σ -> Prog S err α -> σ -> Prop where
  | here (s : σ) (p : Prog S err α) : Passes M s p s
  | after {s s' t : σ} {c : S.Op} {r : S.Ret c} {k : S.Ret c -> Prog S err α} :
      M.Step s c r s' ->
      Passes M s' (k r) t ->
      Passes M s (Prog.call c k) t

/-- A machine that permits an operation only while an invariant holds. -/
def guarded (M : Machine S σ) (I : σ -> Prop) : Machine S σ where
  Can s c := M.Can s c ∧ I s
  Step := M.Step

/-- On a guarded machine a weakest precondition speaks of every moment. -/
theorem passes_of_wp {I : σ -> Prop} {p : Prog S err α}
    {Q : Except err α -> σ -> Prop} {s t : σ}
    (h : (M.guarded I).wp p Q s) (hend : forall o t, Q o t -> I t)
    (hpasses : M.Passes s p t) : I t := by
  induction hpasses with
  | here s p =>
      cases p with
      | done a => exact hend _ _ h
      | raise e => exact hend _ _ h
      | call c k => exact h.left.right
  | after hstep _ ih => exact ih (h.right _ _ hstep)

theorem wp_guarded_issues {I J : σ -> Prop} {P : S.Op -> Prop}
    {p : Prog S err α} {s : σ} (hp : p.Issues P) (hJ : J s)
    (hstrong : forall s, J s -> I s) (hcan : forall s c, M.Can s c)
    (hkeep : forall s c r s', P c -> J s -> M.Step s c r s' -> J s') :
    (M.guarded I).wp p (fun _ t => J t) s := by
  induction p generalizing s with
  | done a => exact hJ
  | raise e => exact hJ
  | call c k ih =>
      refine ⟨⟨hcan s c, hstrong s hJ⟩, ?_⟩
      intro r s' hstep
      exact ih r (hp.right r) (hkeep s c r s' hp.left hJ hstep)

/-!
## Taking notes
-/

variable {κ : Type}

/-- A machine that permits everything and only notes what it sees. -/
def noting (note : (c : S.Op) -> S.Ret c -> List κ) : Machine S (List κ) where
  Can _ _ := True
  Step l c r l' := l' = l ++ note c r

def notes (note : (c : S.Op) -> S.Ret c -> List κ)
    (trace : List (Sigma S.Ret)) : List κ :=
  trace.flatMap fun e => note e.1 e.2

variable {f : (c : S.Op) -> S.Ret c -> List κ}

@[simp] theorem notes_nil : notes f [] = [] := rfl

@[simp] theorem notes_cons (e : Sigma S.Ret) (trace : List (Sigma S.Ret)) :
    notes f (e :: trace) = f e.1 e.2 ++ notes f trace := rfl

@[simp] theorem notes_append (trace1 trace2 : List (Sigma S.Ret)) :
    notes f (trace1 ++ trace2) = notes f trace1 ++ notes f trace2 :=
  List.flatMap_append

theorem wp_noting_op (c : S.Op) (Q : Except err (S.Ret c) -> List κ -> Prop)
    (l : List κ) :
    (noting f).wp (Prog.op c) Q l <->
      forall r, Q (Except.ok r) (l ++ f c r) := by
  constructor
  · intro h r
    exact h.right r _ rfl
  · intro h
    refine ⟨trivial, ?_⟩
    intro r l' hl
    cases hl
    exact h r

theorem runs_noting {p : Prog S err α} {s t : σ} {trace : List (Sigma S.Ret)}
    {o : Except err α} (h : M.Runs s p trace o t) (l : List κ) :
    (noting f).Runs l p trace o (l ++ notes f trace) := by
  induction h generalizing l with
  | done s a =>
      rw [notes_nil, List.append_nil]
      exact Runs.done l a
  | raise s e =>
      rw [notes_nil, List.append_nil]
      exact Runs.raise l e
  | call hstep _ ih =>
      rw [notes_cons, ← List.append_assoc]
      exact Runs.call rfl (ih _)

theorem noted {p : Prog S err α} {s t : σ} {trace : List (Sigma S.Ret)}
    {o : Except err α} {Q : Except err α -> List κ -> Prop}
    (hwp : (noting f).wp p Q []) (h : M.Runs s p trace o t) :
    Q o (notes f trace) :=
  wp_sound hwp (runs_noting h [])

end Machine

/-!
## Histories
-/

/-- One program run to its end. -/
structure Turn (S : Signature) (ι err α : Type) where
  tag : ι
  trace : List (Sigma S.Ret)
  outcome : Except err α

/-- Programs run one after the other, each to its end, as long as every turn
meets a condition on the state it started from. -/
inductive History {ι : Type} (M : Machine S σ) (program : ι -> Prog S err α)
    (meets : σ -> Turn S ι err α -> Prop) :
    σ -> List (Turn S ι err α) -> σ -> Prop where
  | start (s : σ) : History M program meets s [] s
  | turn {s s1 s2 : σ} {turns : List (Turn S ι err α)} {tag : ι}
      {trace : List (Sigma S.Ret)} {o : Except err α} :
      History M program meets s turns s1 ->
      M.Runs s1 (program tag) trace o s2 ->
      meets s1 { tag := tag, trace := trace, outcome := o } ->
      History M program meets s
        (turns ++ [{ tag := tag, trace := trace, outcome := o }]) s2

/-- An invariant of a history: true at the start and kept by every turn. -/
theorem History.invariant {ι : Type} {M : Machine S σ}
    {program : ι -> Prog S err α} {meets : σ -> Turn S ι err α -> Prop}
    {I : List (Turn S ι err α) -> σ -> Prop} {s s' : σ}
    {turns : List (Turn S ι err α)} (hstart : I [] s)
    (hturn : forall turns s1 tag trace o s2, I turns s1 ->
      M.Runs s1 (program tag) trace o s2 ->
      meets s1 { tag := tag, trace := trace, outcome := o } ->
      I (turns ++ [{ tag := tag, trace := trace, outcome := o }]) s2)
    (h : History M program meets s turns s') : I turns s' := by
  induction h with
  | start => exact hstart
  | turn _ hrun hmeets ih => exact hturn _ _ _ _ _ _ ih hrun hmeets

theorem History.imp {ι : Type} {M : Machine S σ} {program : ι -> Prog S err α}
    {meets meets' : σ -> Turn S ι err α -> Prop} {s s' : σ}
    {turns : List (Turn S ι err α)}
    (himp : forall s turn, meets s turn -> meets' s turn)
    (h : History M program meets s turns s') :
    History M program meets' s turns s' := by
  induction h with
  | start => exact History.start _
  | turn _ hrun hmeets ih => exact History.turn ih hrun (himp _ _ hmeets)

end Effects
