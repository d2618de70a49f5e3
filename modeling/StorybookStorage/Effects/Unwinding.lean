import Mathlib.Data.List.Forall2
import StorybookStorage.Effects.Weakest

/-!
# Two histories side by side

One history runs a list of programs, the other only those of them that an
observer knows of.  The observer cannot tell the two apart if some relation
between the states is kept by every program that stays hidden, and by every
other one when both histories run it.
-/

namespace Effects

variable {S : Signature} {σ ι err α : Type}

/-- What one turn does to related states. -/
structure Unwinding (M : Machine S σ) (program : ι -> Prog S err α)
    (meets : σ -> Turn S ι err α -> Prop) (visible : ι -> Bool)
    (Related : σ -> σ -> Prop) (Alike : Turn S ι err α -> Turn S ι err α -> Prop) :
    Prop where
  hidden : forall s s' tag trace o t, Related s s' -> visible tag = false ->
    M.Runs s (program tag) trace o t ->
    meets s { tag := tag, trace := trace, outcome := o } -> Related t s'
  shown : forall s s' tag trace trace' o o' t t', Related s s' ->
    visible tag = true ->
    M.Runs s (program tag) trace o t ->
    meets s { tag := tag, trace := trace, outcome := o } ->
    M.Runs s' (program tag) trace' o' t' ->
    meets s' { tag := tag, trace := trace', outcome := o' } ->
    Related t t' ∧
      Alike { tag := tag, trace := trace, outcome := o }
        { tag := tag, trace := trace', outcome := o' }

variable {M : Machine S σ} {program : ι -> Prog S err α}
  {meets : σ -> Turn S ι err α -> Prop} {visible : ι -> Bool}
  {Related : σ -> σ -> Prop} {Alike : Turn S ι err α -> Turn S ι err α -> Prop}

theorem History.split_last {s t : σ} {turns : List (Turn S ι err α)} {tags : List ι}
    {tag : ι} (h : History M program meets s turns t)
    (htags : turns.map Turn.tag = tags ++ [tag]) :
    exists front s1 trace o,
      turns = front ++ [{ tag := tag, trace := trace, outcome := o }] ∧
      front.map Turn.tag = tags ∧ History M program meets s front s1 ∧
      M.Runs s1 (program tag) trace o t ∧
      meets s1 { tag := tag, trace := trace, outcome := o } := by
  cases h with
  | start =>
      have hlen := congrArg List.length htags
      simp at hlen
  | @turn s1 _ front tag' trace o hfront hrun hmeets =>
      rw [List.map_append] at htags
      rcases List.append_inj' htags rfl with ⟨hfronts, hlast⟩
      obtain rfl : tag' = tag := (List.cons.inj hlast).left
      exact ⟨front, s1, trace, o, rfl, hfronts, hfront, hrun, hmeets⟩

/-- A program that has ended before its first call does so in every state. -/
theorem Machine.Runs.alike_of_quiet {p : Prog S err α} {s s' t t' : σ}
    {trace trace' : List (Sigma S.Ret)} {o o' : Except err α}
    (h : M.Runs s p trace o t) (hquiet : trace = [])
    (h' : M.Runs s' p trace' o' t') : o' = o ∧ t = s ∧ t' = s' := by
  cases h with
  | done _ a =>
      cases h'
      exact ⟨rfl, rfl, rfl⟩
  | raise _ e =>
      cases h'
      exact ⟨rfl, rfl, rfl⟩
  | call => cases hquiet

theorem History.note {P : ι -> Prop} {s t : σ} {turns : List (Turn S ι err α)}
    (h : History M program meets s turns t)
    (hall : forall turn, turn ∈ turns -> P turn.tag) :
    History M program (fun s turn => meets s turn ∧ P turn.tag) s turns t := by
  induction h with
  | start => exact History.start _
  | turn _ hrun hmeets ih =>
      have hfront := ih fun turn hturn => hall turn (List.mem_append_left _ hturn)
      have hlast := hall _ (List.mem_append_right _ List.mem_cons_self)
      exact History.turn hfront hrun ⟨hmeets, hlast⟩

theorem History.eq_of_nil {s t : σ} {turns : List (Turn S ι err α)}
    (h : History M program meets s turns t) (hnil : turns = []) : t = s := by
  cases h with
  | start => rfl
  | turn =>
      have hlen := congrArg List.length hnil
      simp at hlen

/-- The turns an observer knows of come out alike. -/
theorem Unwinding.histories
    (h : Unwinding M program meets visible Related Alike) {s s' t t' : σ}
    {turns turns' : List (Turn S ι err α)} (hrelated : Related s s')
    (hturns : History M program meets s turns t)
    (hturns' : History M program meets s' turns' t')
    (htags : turns'.map Turn.tag = (turns.map Turn.tag).filter visible) :
    Related t t' ∧
      List.Forall₂ Alike (turns.filter fun turn => visible turn.tag) turns' := by
  induction hturns generalizing turns' t' with
  | start =>
      have hnil := List.map_eq_nil_iff.mp htags
      rw [hturns'.eq_of_nil hnil, hnil]
      exact ⟨hrelated, List.Forall₂.nil⟩
  | @turn s1 t front tag trace o hfront hrun hmeets ih =>
      rw [List.map_append, List.filter_append] at htags
      rw [List.filter_append]
      cases hvisible : visible tag with
      | false =>
          simp only [List.map_cons, List.map_nil, List.filter_cons, hvisible,
            List.filter_nil, Bool.false_eq_true, if_false, List.append_nil]
            at htags ⊢
          rcases ih hturns' htags with ⟨hbefore, halike⟩
          exact ⟨h.hidden _ _ _ _ _ _ hbefore hvisible hrun hmeets, halike⟩
      | true =>
          simp only [List.map_cons, List.map_nil, List.filter_cons, hvisible,
            List.filter_nil, if_true] at htags ⊢
          rcases hturns'.split_last htags with
            ⟨front', s1', trace', o', rfl, hfronts, hfront', hrun', hmeets'⟩
          rcases ih hfront' hfronts with ⟨hbefore, halike⟩
          rcases h.shown _ _ _ _ _ _ _ _ _ hbefore hvisible hrun hmeets hrun'
            hmeets' with ⟨hafter, hturn⟩
          exact ⟨hafter, List.rel_append halike
            (List.Forall₂.cons hturn List.Forall₂.nil)⟩

end Effects
