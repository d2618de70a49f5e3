import Mathlib.Data.Set.Basic

/-!
# Programs that call an environment

A program either finishes, raises, or issues one operation and continues with
whatever the environment answers.  The operations stay uninterpreted here, so
the same program text can be run alone, interleaved with other programs, or
followed by an abstract bookkeeping machine.

Exceptions follow the usual structured discipline: `handle` sees both ways a
program can end, and the try/except and try/finally forms are instances.
-/

namespace Effects

structure Signature where
  Op : Type
  Ret : Op -> Type

inductive Prog (S : Signature) (err α : Type) where
  | done (a : α) : Prog S err α
  | raise (e : err) : Prog S err α
  | call (c : S.Op) (k : S.Ret c -> Prog S err α) : Prog S err α

namespace Prog

variable {S : Signature} {err err' α β : Type}

/-- Continue from either way of ending. -/
def handle : Prog S err α -> (Except err α -> Prog S err' β) -> Prog S err' β
  | done a, f => f (Except.ok a)
  | raise e, f => f (Except.error e)
  | call c k, f => call c fun r => (k r).handle f

def bind (p : Prog S err α) (f : α -> Prog S err β) : Prog S err β :=
  p.handle fun
    | Except.ok a => f a
    | Except.error e => raise e

instance : Monad (Prog S err) where
  pure := done
  bind := bind

theorem bind_done (p : Prog S err α) : p.bind done = p := by
  induction p with
  | done a => rfl
  | raise e => rfl
  | call c k ih => exact congrArg (call c) (funext ih)

theorem bind_bind {γ : Type} (p : Prog S err α) (f : α -> Prog S err β)
    (g : β -> Prog S err γ) :
    (p.bind f).bind g = p.bind fun a => (f a).bind g := by
  induction p with
  | done a => rfl
  | raise e => rfl
  | call c k ih => exact congrArg (call c) (funext ih)

instance : LawfulMonad (Prog S err) :=
  LawfulMonad.mk' _ bind_done (fun _ _ => rfl) bind_bind

def op (c : S.Op) : Prog S err (S.Ret c) :=
  call c done

/-- Resume an ending that was caught. -/
def ofExcept : Except err α -> Prog S err α
  | Except.ok a => done a
  | Except.error e => raise e

def tryCatch (p : Prog S err α) (h : err -> Prog S err α) : Prog S err α :=
  p.handle fun
    | Except.ok a => done a
    | Except.error e => h e

/-- `try p finally f`: what `f` raises replaces the ending of `p`. -/
def tryFinally (p : Prog S err α) (f : Prog S err β) : Prog S err α :=
  p.handle fun r => f.bind fun _ => ofExcept r

/-- Run `f` only when `p` ends by raising, then raise again. -/
def onError (p : Prog S err α) (f : Prog S err β) : Prog S err α :=
  p.handle fun
    | Except.ok a => done a
    | Except.error e => f.bind fun _ => raise e

theorem handle_handle {err'' γ : Type} (p : Prog S err α)
    (f : Except err α -> Prog S err' β) (g : Except err' β -> Prog S err'' γ) :
    (p.handle f).handle g = p.handle fun r => (f r).handle g := by
  induction p with
  | done a => rfl
  | raise e => rfl
  | call c k ih => exact congrArg (call c) (funext ih)

theorem handle_ofExcept (p : Prog S err α) : p.handle ofExcept = p := by
  induction p with
  | done a => rfl
  | raise e => rfl
  | call c k ih => exact congrArg (call c) (funext ih)

/-- The ending of a program that has no operation left to issue. -/
def ending : Prog S err α -> Option (Except err α)
  | done a => some (Except.ok a)
  | raise e => some (Except.error e)
  | call _ _ => none

@[simp] theorem ending_done (a : α) :
    (done a : Prog S err α).ending = some (Except.ok a) := rfl

@[simp] theorem ending_raise (e : err) :
    (raise e : Prog S err α).ending = some (Except.error e) := rfl

@[simp] theorem ending_call (c : S.Op) (k : S.Ret c -> Prog S err α) :
    (call c k).ending = none := rfl

/-!
## Which operations a program may issue
-/

/-- Every operation has a property, whatever is answered. -/
def Issues (P : S.Op -> Prop) : Prog S err α -> Prop
  | done _ => True
  | raise _ => True
  | call c k => P c ∧ forall r, (k r).Issues P

section Issues

variable {P P' : S.Op -> Prop}

theorem issues_pure (a : α) : (pure a : Prog S err α).Issues P := trivial

theorem issues_raise (e : err) : (raise e : Prog S err α).Issues P := trivial

theorem issues_ofExcept (r : Except err α) :
    (ofExcept r : Prog S err α).Issues P := by
  cases r with
  | ok a => exact issues_pure a
  | error e => exact issues_raise e

theorem issues_op {c : S.Op} (h : P c) : (op c : Prog S err (S.Ret c)).Issues P :=
  ⟨h, fun r => issues_pure r⟩

theorem Issues.imp {p : Prog S err α} (h : p.Issues P)
    (himp : forall c, P c -> P' c) : p.Issues P' := by
  induction p with
  | done a => trivial
  | raise e => trivial
  | call c k ih => exact ⟨himp c h.left, fun r => ih r (h.right r)⟩

theorem Issues.handle {p : Prog S err α} {f : Except err α -> Prog S err' β}
    (hp : p.Issues P) (hf : forall r, (f r).Issues P) :
    (p.handle f).Issues P := by
  induction p with
  | done a => exact hf (Except.ok a)
  | raise e => exact hf (Except.error e)
  | call c k ih => exact ⟨hp.left, fun r => ih r (hp.right r)⟩

theorem Issues.bind {p : Prog S err α} {f : α -> Prog S err β}
    (hp : p.Issues P) (hf : forall a, (f a).Issues P) : (p >>= f).Issues P := by
  apply hp.handle
  intro r
  cases r with
  | ok a => exact hf a
  | error e => exact issues_raise e

theorem Issues.tryCatch {p : Prog S err α} {f : err -> Prog S err α}
    (hp : p.Issues P) (hf : forall e, (f e).Issues P) :
    (p.tryCatch f).Issues P := by
  apply hp.handle
  intro r
  cases r with
  | ok a => exact issues_pure a
  | error e => exact hf e

theorem Issues.tryFinally {p : Prog S err α} {f : Prog S err β}
    (hp : p.Issues P) (hf : f.Issues P) : (p.tryFinally f).Issues P :=
  hp.handle fun r => hf.bind fun _ => issues_ofExcept r

theorem Issues.onError {p : Prog S err α} {f : Prog S err β}
    (hp : p.Issues P) (hf : f.Issues P) : (p.onError f).Issues P := by
  apply hp.handle
  intro r
  cases r with
  | ok a => exact issues_pure a
  | error e => exact hf.bind fun _ => issues_raise e

end Issues

end Prog

end Effects
