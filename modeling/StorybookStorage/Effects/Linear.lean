import Mathlib.Data.List.Basic
import StorybookStorage.Effects.Diary

/-!
# Linearization points

A sequential object performs one act after the other.  Tasks of a pool carry
out its operations in many steps; some of the steps are points, at which the
whole act happens.  What the object has performed after a run are the acts of
the points, in the order of the trace, and the part of each task in it is what
the points in its own past are.
-/

namespace Effects

variable {S : Signature} {σ ι err α μ ρ π κ : Type}

/-- A sequential object: the answer of an act and the state after it. -/
structure SeqObject (μ π ρ : Type) where
  answer : π -> μ -> ρ
  next : π -> μ -> μ

namespace SeqObject

variable (O : SeqObject μ π ρ)

def after (m : μ) (acts : List (κ × π)) : μ :=
  acts.foldl (fun m a => O.next a.2 m) m

def served : μ -> List (κ × π) -> List (κ × π × ρ)
  | _, [] => []
  | m, (owner, x) :: rest =>
      (owner, x, O.answer x m) :: served (O.next x m) rest

theorem after_concat (m : μ) (acts : List (κ × π)) (a : κ × π) :
    O.after m (acts ++ [a]) = O.next a.2 (O.after m acts) :=
  List.foldl_append

theorem served_concat (m : μ) (acts : List (κ × π)) (a : κ × π) :
    O.served m (acts ++ [a]) =
      O.served m acts ++ [(a.1, a.2, O.answer a.2 (O.after m acts))] := by
  induction acts generalizing m with
  | nil => rfl
  | cons first rest ih =>
      show _ :: O.served (O.next first.2 m) (rest ++ [a]) = _
      rw [ih]
      rfl

/-- The state after a step that may be a point. -/
def move (x : Option π) (m : μ) : μ := x.elim m fun x => O.next x m

def part [DecidableEq κ] (owner : κ) (answers : List (κ × π × ρ)) :
    List (π × ρ) :=
  (answers.filter fun a => decide (a.1 = owner)).map Prod.snd

theorem part_concat [DecidableEq κ] (owner : κ) (answers : List (κ × π × ρ))
    (a : κ × π × ρ) :
    part owner (answers ++ [a]) =
      part owner answers ++ if a.1 = owner then [a.2] else [] := by
  unfold part
  rw [List.filter_append, List.map_append]
  congr 1
  by_cases h : a.1 = owner <;> simp [h]

end SeqObject

namespace Pool

variable (point : ι -> Sigma S.Ret -> Option π)

/-- The acts of the points in the trace, each with its task. -/
def acts (P : Pool S σ ι err α) : List (Nat × π) :=
  P.trace.filterMap fun e =>
    (P.tasks[e.1]?).bind fun t => (point t.tag e.2).map fun x => (e.1, x)

def Indexed (P : Pool S σ ι err α) : Prop :=
  forall e, e ∈ P.trace -> e.1 < P.tasks.length

variable {point}

theorem acts_spawn {P : Pool S σ ι err α} (h : P.Indexed) (tag : ι)
    (p : Prog S err α) : acts point (P.spawn tag p) = acts point P := by
  unfold acts
  apply List.filterMap_congr
  intro e he
  rw [tasks_spawn_lt tag p (h e he)]

theorem acts_advance {P : Pool S σ ι err α} {i : Nat} {t : Task S ι err α}
    (ht : P.tasks[i]? = some t) (e : Sigma S.Ret) (p : Prog S err α) (s' : σ) :
    acts point (P.advance i t e p s') =
      acts point P ++ ((point t.tag e).map fun x => (i, x)).toList := by
  have hsame : forall (j : Nat) (e' : Sigma S.Ret),
      ((P.advance i t e p s').tasks[j]?).bind
          (fun u => (point u.tag e').map fun x => (j, x)) =
        (P.tasks[j]?).bind fun u => (point u.tag e').map fun x => (j, x) := by
    intro j e'
    rcases eq_or_ne j i with rfl | hne
    · rw [tasks_advance_self ht, ht]
      rfl
    · rw [tasks_advance_ne t e p s' hne]
  unfold acts
  show List.filterMap _ (P.trace ++ [(i, e)]) = _
  rw [List.filterMap_append]
  congr 1
  · congr 1
    funext e'
    exact hsame e'.1 e'.2
  · rw [List.filterMap_cons, hsame, ht, Option.bind_some]
    cases point t.tag e <;> rfl

end Pool

/-!
## Where a pool stands with its object
-/

section Standing

variable (O : SeqObject μ π ρ) (point : ι -> Sigma S.Ret -> Option π)
  (abs : σ -> μ) (m : μ)

def Pool.part (i : Nat) (P : Pool S σ ι err α) : List (π × ρ) :=
  SeqObject.part i (O.served m (P.acts point))

/-- The pool is where the object is, and each task has had the acts that its
past has points for. -/
structure Pool.Linear (P : Pool S σ ι err α) : Prop where
  indexed : P.Indexed
  state : abs P.shared = O.after m (P.acts point)
  points : forall (i : Nat) (t : Task S ι err α), P.tasks[i]? = some t ->
    (P.part O point m i).map Prod.fst = t.past.filterMap (point t.tag)
  idle : forall i, P.tasks.length ≤ i -> P.part O point m i = []

variable {O point abs m}

theorem Pool.part_spawn {P : Pool S σ ι err α} (h : P.Indexed) (i : Nat)
    (tag : ι) (p : Prog S err α) :
    (P.spawn tag p).part O point m i = P.part O point m i := by
  unfold Pool.part
  rw [Pool.acts_spawn h]

def Pool.gained (O : SeqObject μ π ρ) (s : μ) : Option π -> List (π × ρ)
  | none => []
  | some x => [(x, O.answer x s)]

theorem Pool.Linear.part_advance {P : Pool S σ ι err α}
    (h : P.Linear O point abs m) {i : Nat} {t : Task S ι err α}
    (ht : P.tasks[i]? = some t) (e : Sigma S.Ret) (p : Prog S err α) (s' : σ)
    (j : Nat) :
    (P.advance i t e p s').part O point m j =
      P.part O point m j ++
        if j = i then Pool.gained O (abs P.shared) (point t.tag e) else [] := by
  unfold Pool.part
  rw [Pool.acts_advance ht, h.state]
  cases point t.tag e with
  | none =>
      rw [Option.map_none, Option.toList_none, List.append_nil]
      split <;> exact (List.append_nil _).symm
  | some x =>
      rw [Option.map_some, Option.toList_some, SeqObject.served_concat,
        SeqObject.part_concat]
      congr 1
      by_cases hj : j = i
      · rw [if_pos hj, if_pos hj.symm]
        rfl
      · rw [if_neg hj, if_neg fun h => hj h.symm]

theorem Pool.linear_boot (s : σ) (hm : abs s = m) :
    (Pool.boot s : Pool S σ ι err α).Linear O point abs m where
  indexed := by
    intro e he
    cases he
  state := hm
  points := fun _ _ ht => (Pool.tasks_boot_get ht).elim
  idle := fun _ _ => rfl

theorem Pool.Linear.spawn {P : Pool S σ ι err α}
    (h : P.Linear O point abs m) (tag : ι) (p : Prog S err α) :
    (P.spawn tag p).Linear O point abs m where
  indexed := by
    intro e he
    rw [Pool.length_spawn]
    exact Nat.lt_succ_of_lt (h.indexed e he)
  state := by
    rw [Pool.acts_spawn h.indexed]
    exact h.state
  points := by
    intro i t ht
    rw [Pool.part_spawn h.indexed]
    rcases Pool.tasks_spawn_get ht with hold | ⟨rfl, rfl⟩
    · exact h.points i t hold
    · rw [h.idle _ (le_refl _)]
      rfl
  idle := by
    intro i hi
    rw [Pool.part_spawn h.indexed]
    rw [Pool.length_spawn] at hi
    exact h.idle i (by omega)

/-- A step keeps up with the object when its point does what the act does, and
a step without a point does nothing. -/
theorem Pool.Linear.advance {P : Pool S σ ι err α}
    (h : P.Linear O point abs m) {i : Nat} {t : Task S ι err α}
    (ht : P.tasks[i]? = some t) {e : Sigma S.Ret} {p : Prog S err α} {s' : σ}
    (hstep : abs s' = O.move (point t.tag e) (abs P.shared)) :
    (P.advance i t e p s').Linear O point abs m where
  indexed := by
    intro e' he'
    rw [Pool.length_advance]
    rcases List.mem_append.mp he' with hold | hnew
    · exact h.indexed e' hold
    · rw [List.mem_singleton.mp hnew]
      exact (List.getElem?_eq_some_iff.mp ht).1
  state := by
    show abs s' = _
    rw [Pool.acts_advance ht, hstep]
    unfold SeqObject.move
    cases point t.tag e with
    | none =>
        rw [Option.map_none, Option.toList_none, List.append_nil]
        exact h.state
    | some x =>
        rw [Option.map_some, Option.toList_some, SeqObject.after_concat,
          ← h.state]
        rfl
  points := by
    intro j u hu
    rw [h.part_advance ht]
    rcases Pool.tasks_advance_get hu with ⟨rfl, rfl⟩ | ⟨hne, hold⟩
    · rw [if_pos rfl, List.map_append, h.points _ _ ht, List.filterMap_append]
      congr 1
      show _ = List.filterMap (point t.tag) [e]
      rw [List.filterMap_cons]
      cases point t.tag e <;> rfl
    · rw [if_neg hne, List.append_nil]
      exact h.points j u hold
  idle := by
    intro j hj
    rw [Pool.length_advance] at hj
    have hlt := (List.getElem?_eq_some_iff.mp ht).1
    rw [h.part_advance ht, if_neg (by omega), List.append_nil]
    exact h.idle j hj

end Standing

end Effects
