import StorybookStorage.Effects.Pool

/-!
# Replaying runs one after the other

A chooser whose choices are numbered runs programs deterministically: the n-th
operation takes the n-th choice.  What is replayed is a run, and a sequence of
replayed programs is a history.
-/

namespace Effects

variable {S : Signature} {σ χ ι err α : Type}

namespace Chooser

variable (X : Chooser S σ χ) [forall s c ch, Decidable (X.legal s c ch)]
  (choose : Nat -> χ)

/-- Run a program on the choices from a number on, as long as they are legal. -/
def replay :
    Prog S err α -> Nat -> σ -> Option (List (Sigma S.Ret) × Except err α × σ)
  | Prog.done a, _, s => some ([], Except.ok a, s)
  | Prog.raise e, _, s => some ([], Except.error e, s)
  | Prog.call c k, n, s =>
      if X.legal s c (choose n) then
        (replay (k (X.exec (choose n) c s).1) (n + 1)
          (X.exec (choose n) c s).2).map
            fun run => (⟨c, (X.exec (choose n) c s).1⟩ :: run.1, run.2)
      else
        none

theorem replay_runs {p : Prog S err α} {n : Nat} {s t : σ}
    {trace : List (Sigma S.Ret)} {o : Except err α}
    (h : X.replay choose p n s = some (trace, o, t)) :
    X.machine.Runs s p trace o t := by
  induction p generalizing n s trace with
  | done a =>
      cases h
      exact Machine.Runs.done _ a
  | raise e =>
      cases h
      exact Machine.Runs.raise _ e
  | call c k ih =>
      unfold replay at h
      split at h
      · rename_i hlegal
        rcases Option.map_eq_some_iff.mp h with ⟨⟨rest, o', t'⟩, hrest, heq⟩
        cases heq
        exact Machine.Runs.call ⟨choose n, hlegal, rfl⟩ (ih _ hrest)
      · cases h

variable (program : ι -> Prog S err α) (meets : σ -> Turn S ι err α -> Prop)
  [forall s turn, Decidable (meets s turn)]

/-- Run programs one after the other; a turn that is not legal, or does not
meet the condition, is left out with all that follow. -/
def replayAll :
    List ι -> Nat -> List (Turn S ι err α) × σ -> List (Turn S ι err α) × σ
  | [], _, past => past
  | tag :: rest, n, past =>
      match X.replay choose (program tag) n past.2 with
      | none => past
      | some (trace, o, t) =>
          if meets past.2 { tag := tag, trace := trace, outcome := o } then
            replayAll rest (n + trace.length)
              (past.1 ++ [{ tag := tag, trace := trace, outcome := o }], t)
          else
            past

theorem replayAll_history {s : σ} {tags : List ι} {n : Nat}
    {past : List (Turn S ι err α) × σ}
    (h : History X.machine program meets s past.1 past.2) :
    History X.machine program meets s
      (X.replayAll choose program meets tags n past).1
      (X.replayAll choose program meets tags n past).2 := by
  induction tags generalizing n past with
  | nil => exact h
  | cons tag rest ih =>
      unfold replayAll
      split
      · exact h
      · rename_i trace o t hreplay
        split
        · rename_i hmeets
          exact ih (History.turn h (X.replay_runs choose hreplay) hmeets)
        · exact h

theorem replayAll_tags {tags : List ι} {n : Nat}
    {past : List (Turn S ι err α) × σ}
    (h : (X.replayAll choose program meets tags n past).1.length =
      past.1.length + tags.length) :
    (X.replayAll choose program meets tags n past).1.map Turn.tag =
      past.1.map Turn.tag ++ tags := by
  induction tags generalizing n past with
  | nil => exact (List.append_nil _).symm
  | cons tag rest ih =>
      have hstuck : past.1.length ≠ past.1.length + (tag :: rest).length := by
        simp
      unfold replayAll at h ⊢
      split at h
      · exact absurd h hstuck
      · rename_i trace o t hreplay
        split at h
        · rename_i hmeets
          rw [if_pos hmeets, ih]
          · simp
          · rw [h, List.length_append, List.length_cons, List.length_singleton]
            omega
        · exact absurd h hstuck

def replayFrom (s : σ) (tags : List ι) : List (Turn S ι err α) × σ :=
  X.replayAll choose program meets tags 0 ([], s)

theorem replayFrom_history (s : σ) (tags : List ι) :
    History X.machine program meets s
      (X.replayFrom choose program meets s tags).1
      (X.replayFrom choose program meets s tags).2 :=
  X.replayAll_history choose program meets (History.start s)

theorem replayFrom_tags {s : σ} {tags : List ι}
    (h : (X.replayFrom choose program meets s tags).1.length = tags.length) :
    (X.replayFrom choose program meets s tags).1.map Turn.tag = tags := by
  apply X.replayAll_tags choose program meets
  rw [List.length_nil, Nat.zero_add]
  exact h

end Chooser

end Effects
