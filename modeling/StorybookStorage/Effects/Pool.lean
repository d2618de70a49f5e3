import StorybookStorage.Effects.Weakest

/-!
# Interleaved tasks over a shared state

A pool runs any number of programs against one shared state, one operation at a
time and in any order.  Each task keeps the list of operations it has made with
the answers it got, so a statement about where a task stands is a statement
about its past.
-/

namespace Effects

variable {S : Signature} {σ χ ι err α : Type}

structure Chooser (S : Signature) (σ χ : Type) where
  legal : σ -> S.Op -> χ -> Prop
  exec : χ -> (c : S.Op) -> σ -> S.Ret c × σ

def Chooser.machine (X : Chooser S σ χ) : Machine S σ where
  Can _ _ := True
  Step s c r s' := exists ch, X.legal s c ch ∧ X.exec ch c s = (r, s')

theorem Chooser.wp_call (X : Chooser S σ χ) (c : S.Op)
    (k : S.Ret c -> Prog S err α) (Q : Except err α -> σ -> Prop) (s : σ) :
    X.machine.wp (Prog.call c k) Q s <->
      forall ch, X.legal s c ch ->
        X.machine.wp (k (X.exec ch c s).1) Q (X.exec ch c s).2 := by
  constructor
  · intro h ch hlegal
    exact h.right _ _ ⟨ch, hlegal, rfl⟩
  · intro h
    refine ⟨trivial, ?_⟩
    intro r s' hstep
    rcases hstep with ⟨ch, hlegal, hexec⟩
    have hk := h ch hlegal
    rw [hexec] at hk
    exact hk

structure Task (S : Signature) (ι err α : Type) where
  tag : ι
  past : List (Sigma S.Ret)
  code : Prog S err α

/-- All tasks with the state they share, every tag ever started, and the order
in which the tasks made their operations. -/
structure Pool (S : Signature) (σ ι err α : Type) where
  shared : σ
  tasks : List (Task S ι err α)
  started : List ι
  trace : List (Nat × Sigma S.Ret)

namespace Pool

def boot (s : σ) : Pool S σ ι err α where
  shared := s
  tasks := []
  started := []
  trace := []

def spawn (P : Pool S σ ι err α) (tag : ι) (p : Prog S err α) :
    Pool S σ ι err α where
  shared := P.shared
  tasks := P.tasks ++ [{ tag := tag, past := [], code := p }]
  started := P.started ++ [tag]
  trace := P.trace

def advance (P : Pool S σ ι err α) (i : Nat) (t : Task S ι err α)
    (e : Sigma S.Ret) (p : Prog S err α) (s' : σ) : Pool S σ ι err α where
  shared := s'
  tasks := P.tasks.set i { tag := t.tag, past := t.past ++ [e], code := p }
  started := P.started
  trace := P.trace ++ [(i, e)]

/-- All running tasks are lost, the shared state stays. -/
def stop (P : Pool S σ ι err α) : Pool S σ ι err α where
  shared := P.shared
  tasks := []
  started := P.started
  trace := []

end Pool

/-- What may happen in a pool: which programs start, which scheduled steps are
considered, and whether the whole pool may be stopped. -/
structure Rules (S : Signature) (σ ι err α : Type) where
  machine : Machine S σ
  program : ι -> Prog S err α
  accepts : ι -> Prop
  guard : Pool S σ ι err α -> Nat -> Sigma S.Ret -> Prop
  stops : Prop

namespace Rules

inductive Next (R : Rules S σ ι err α) :
    Pool S σ ι err α -> Pool S σ ι err α -> Prop where
  | spawn {P : Pool S σ ι err α} (tag : ι) :
      R.accepts tag ->
      Next R P (P.spawn tag (R.program tag))
  | advance {P : Pool S σ ι err α} {i : Nat} {t : Task S ι err α}
      {c : S.Op} {k : S.Ret c -> Prog S err α} {r : S.Ret c} {s' : σ} :
      P.tasks[i]? = some t ->
      t.code = Prog.call c k ->
      R.guard P i ⟨c, r⟩ ->
      R.machine.Step P.shared c r s' ->
      Next R P (P.advance i t ⟨c, r⟩ (k r) s')
  | stop {P : Pool S σ ι err α} :
      R.stops ->
      Next R P P.stop

/-- Pools reached from a shared state by any schedule. -/
inductive Reach (R : Rules S σ ι err α) (s : σ) : Pool S σ ι err α -> Prop where
  | boot : Reach R s (Pool.boot s)
  | next {P P' : Pool S σ ι err α} :
      Reach R s P ->
      R.Next P P' ->
      Reach R s P'

variable {R : Rules S σ ι err α} {s : σ}

/-- An invariant of the pool: true at boot and kept by every kind of step. -/
theorem Reach.invariant {I : Pool S σ ι err α -> Prop}
    (hboot : I (Pool.boot s))
    (hspawn : forall P tag, R.Reach s P -> I P -> R.accepts tag ->
      I (P.spawn tag (R.program tag)))
    (hadvance : forall P i t c k r s', R.Reach s P -> I P ->
      P.tasks[i]? = some t -> t.code = Prog.call c k ->
      R.guard P i ⟨c, r⟩ ->
      R.machine.Step P.shared c r s' ->
      I (P.advance i t ⟨c, r⟩ (k r) s'))
    (hstop : forall P, R.Reach s P -> I P -> R.stops -> I P.stop)
    {P : Pool S σ ι err α} (h : R.Reach s P) : I P := by
  induction h with
  | boot => exact hboot
  | next hreach hnext ih =>
      cases hnext with
      | spawn tag haccepts => exact hspawn _ tag hreach ih haccepts
      | advance ht hc hg hstep =>
          exact hadvance _ _ _ _ _ _ _ hreach ih ht hc hg hstep
      | stop hstops => exact hstop _ hreach ih hstops

end Rules

/-!
## Finding a task after a step
-/

namespace Pool

theorem tasks_boot_get {s : σ} {j : Nat} {t : Task S ι err α}
    (h : (boot s : Pool S σ ι err α).tasks[j]? = some t) : False := by
  simp [boot] at h

theorem tasks_stop_get {P : Pool S σ ι err α} {j : Nat} {t : Task S ι err α}
    (h : P.stop.tasks[j]? = some t) : False := by
  simp [stop] at h

theorem tasks_spawn_get {P : Pool S σ ι err α} {tag : ι} {p : Prog S err α}
    {j : Nat} {t : Task S ι err α}
    (h : (P.spawn tag p).tasks[j]? = some t) :
    P.tasks[j]? = some t ∨
      (j = P.tasks.length ∧ t = { tag := tag, past := [], code := p }) := by
  unfold spawn at h
  rcases Nat.lt_or_ge j P.tasks.length with hlt | hge
  · rw [List.getElem?_append_left hlt] at h
    exact Or.inl h
  · rw [List.getElem?_append_right hge] at h
    have hj : j - P.tasks.length = 0 := by
      by_contra hne
      rw [List.getElem?_eq_none (by simp; omega)] at h
      cases h
    rw [hj] at h
    refine Or.inr ⟨by omega, ?_⟩
    simpa using h.symm

theorem tasks_advance_get {P : Pool S σ ι err α} {i j : Nat}
    {t u : Task S ι err α} {e : Sigma S.Ret} {p : Prog S err α} {s' : σ}
    (h : (P.advance i t e p s').tasks[j]? = some u) :
    (j = i ∧ u = { tag := t.tag, past := t.past ++ [e], code := p }) ∨
      (j ≠ i ∧ P.tasks[j]? = some u) := by
  unfold advance at h
  by_cases hij : j = i
  · subst hij
    by_cases hlt : j < P.tasks.length
    · rw [List.getElem?_set_self hlt] at h
      exact Or.inl ⟨rfl, by simpa using h.symm⟩
    · rw [List.getElem?_eq_none (by simpa using Nat.le_of_not_lt hlt)] at h
      cases h
  · rw [List.getElem?_set_ne (fun hji => hij hji.symm)] at h
    exact Or.inr ⟨hij, h⟩

theorem length_spawn {P : Pool S σ ι err α} (tag : ι) (p : Prog S err α) :
    (P.spawn tag p).tasks.length = P.tasks.length + 1 := by
  simp [spawn]

theorem tasks_spawn_lt {P : Pool S σ ι err α} (tag : ι) (p : Prog S err α)
    {j : Nat} (h : j < P.tasks.length) :
    (P.spawn tag p).tasks[j]? = P.tasks[j]? :=
  List.getElem?_append_left h

theorem length_advance (P : Pool S σ ι err α) (i : Nat) (t : Task S ι err α)
    (e : Sigma S.Ret) (p : Prog S err α) (s' : σ) :
    (P.advance i t e p s').tasks.length = P.tasks.length :=
  List.length_set

theorem tasks_advance_self {P : Pool S σ ι err α} {i : Nat}
    {t : Task S ι err α} (ht : P.tasks[i]? = some t)
    (e : Sigma S.Ret) (p : Prog S err α) (s' : σ) :
    (P.advance i t e p s').tasks[i]? =
      some { tag := t.tag, past := t.past ++ [e], code := p } := by
  rcases List.getElem?_eq_some_iff.mp ht with ⟨hlt, _⟩
  exact List.getElem?_set_self hlt

theorem tasks_advance_ne {P : Pool S σ ι err α} {i j : Nat}
    (t : Task S ι err α) (e : Sigma S.Ret) (p : Prog S err α) (s' : σ)
    (hij : j ≠ i) :
    (P.advance i t e p s').tasks[j]? = P.tasks[j]? :=
  List.getElem?_set_ne (fun hji => hij hji.symm)

end Pool

/-!
## Playing a schedule
-/

inductive Event (χ ι : Type) where
  | spawn (tag : ι)
  | run (i : Nat) (ch : χ)
  | stop

/-- Rules over a chooser, with everything decidable: they can be played. -/
structure Game (S : Signature) (σ χ ι err α : Type) where
  chooser : Chooser S σ χ
  program : ι -> Prog S err α
  accepts : ι -> Prop
  guard : Pool S σ ι err α -> Nat -> Sigma S.Ret -> Prop
  stops : Prop

def Game.rules (G : Game S σ χ ι err α) : Rules S σ ι err α where
  machine := G.chooser.machine
  program := G.program
  accepts := G.accepts
  guard := G.guard
  stops := G.stops

namespace Game

variable (G : Game S σ χ ι err α)
  [forall s c ch, Decidable (G.chooser.legal s c ch)]
  [forall tag, Decidable (G.accepts tag)]
  [forall P i e, Decidable (G.guard P i e)]
  [Decidable G.stops]

def move (P : Pool S σ ι err α) : Event χ ι -> Option (Pool S σ ι err α)
  | Event.spawn tag =>
      if G.accepts tag then some (P.spawn tag (G.program tag)) else none
  | Event.run i ch =>
      match P.tasks[i]? with
      | none => none
      | some t =>
          match t.code with
          | Prog.done _ => none
          | Prog.raise _ => none
          | Prog.call c k =>
              if G.guard P i ⟨c, (G.chooser.exec ch c P.shared).1⟩ ∧
                  G.chooser.legal P.shared c ch then
                some
                  (P.advance i t ⟨c, (G.chooser.exec ch c P.shared).1⟩
                    (k (G.chooser.exec ch c P.shared).1)
                    (G.chooser.exec ch c P.shared).2)
              else
                none
  | Event.stop => if G.stops then some P.stop else none

def play (P : Pool S σ ι err α) : List (Event χ ι) -> Option (Pool S σ ι err α)
  | [] => some P
  | e :: rest =>
      match G.move P e with
      | none => none
      | some P' => play P' rest

theorem move_next {P P' : Pool S σ ι err α} {e : Event χ ι}
    (h : G.move P e = some P') : G.rules.Next P P' := by
  cases e with
  | spawn tag =>
      simp only [move] at h
      split at h
      · rename_i haccepts
        cases h
        exact Rules.Next.spawn (R := G.rules) tag haccepts
      · cases h
  | run i ch =>
      simp only [move] at h
      cases ht : P.tasks[i]? with
      | none => simp [ht] at h
      | some t =>
          rw [ht] at h
          cases hc : t.code with
          | done a => simp [hc] at h
          | raise e => simp [hc] at h
          | call c k =>
              simp only [hc] at h
              split at h
              · rename_i hok
                cases h
                exact Rules.Next.advance (R := G.rules) ht hc hok.left
                  ⟨ch, hok.right, rfl⟩
              · cases h
  | stop =>
      simp only [move] at h
      split at h
      · rename_i hstops
        cases h
        exact Rules.Next.stop (R := G.rules) hstops
      · cases h

theorem play_reach_from {s : σ} {P P' : Pool S σ ι err α}
    {events : List (Event χ ι)} (hP : G.rules.Reach s P)
    (h : G.play P events = some P') : G.rules.Reach s P' := by
  induction events generalizing P with
  | nil =>
      cases h
      exact hP
  | cons e rest ih =>
      simp only [play] at h
      cases hm : G.move P e with
      | none => simp [hm] at h
      | some P1 =>
          rw [hm] at h
          exact ih (Rules.Reach.next hP (G.move_next hm)) h

theorem play_reach {s : σ} {P : Pool S σ ι err α}
    {events : List (Event χ ι)}
    (h : G.play (Pool.boot s) events = some P) : G.rules.Reach s P :=
  play_reach_from G Rules.Reach.boot h

def outcome (s : σ) (events : List (Event χ ι)) : Pool S σ ι err α :=
  (G.play (Pool.boot s) events).getD (Pool.boot s)

theorem outcome_reach (s : σ) (events : List (Event χ ι)) :
    G.rules.Reach s (G.outcome s events) := by
  unfold outcome
  cases h : G.play (Pool.boot s) events with
  | none => exact Rules.Reach.boot
  | some P => exact G.play_reach h

end Game

end Effects
