import Mathlib.Data.List.Induction
import Mathlib.Order.Lattice

/-!
# Keeping the best so far

A loop over a list that takes a candidate where it ranks above what it has kept
so far.  What it ends with depends on the members of the list alone, as long as
no two candidates rank the same.
-/

namespace Best

variable {α β : Type} [LinearOrder β] (candidate : α -> Bool) (rank : α -> β)

def keep (kept : Option α) (a : α) : Option α :=
  if candidate a = true ∧
      kept.all (fun b => decide (rank b < rank a)) = true then
    some a
  else
    kept

def best (items : List α) : Option α :=
  items.foldl (keep candidate rank) none

/-- A candidate that no candidate ranks above. -/
structure IsBest (items : List α) (b : α) : Prop where
  mem : b ∈ items
  fits : candidate b = true
  greatest : forall a, a ∈ items -> candidate a = true -> rank a ≤ rank b

/-- What the loop may have kept of these items. -/
inductive Kept (items : List α) : Option α -> Prop where
  | nothing :
      (forall a, a ∈ items -> candidate a = false) ->
      Kept items none
  | found (b : α) :
      IsBest candidate rank items b ->
      Kept items (some b)

/-- Candidates of one rank are the same. -/
def Ranked (items : List α) : Prop :=
  forall a b, a ∈ items -> b ∈ items -> candidate a = true ->
    candidate b = true -> rank a = rank b -> a = b

variable {candidate rank} {items items' : List α} {kept : Option α} {a b : α}

/-!
## One turn
-/

theorem IsBest.snoc (h : IsBest candidate rank items b)
    (hlast : candidate a = true -> rank a ≤ rank b) :
    IsBest candidate rank (items ++ [a]) b where
  mem := List.mem_append_left _ h.mem
  fits := h.fits
  greatest := by
    intro c hc hfits
    rcases List.mem_append.mp hc with hold | hnew
    · exact h.greatest c hold hfits
    · rw [List.mem_singleton.mp hnew] at hfits ⊢
      exact hlast hfits

/-- Where nothing kept ranks as high, the new candidate is the best. -/
theorem Kept.replace (h : Kept candidate rank items kept)
    (hfits : candidate a = true)
    (habove : kept.all (fun b => decide (rank b < rank a)) = true) :
    IsBest candidate rank (items ++ [a]) a where
  mem := List.mem_append_right _ (List.mem_singleton_self a)
  fits := hfits
  greatest := by
    intro c hc hcandidate
    rcases List.mem_append.mp hc with hold | hnew
    · cases h with
      | nothing hnone =>
          rw [hnone c hold] at hcandidate
          cases hcandidate
      | found b hb =>
          have hlt : rank b < rank a := of_decide_eq_true habove
          exact le_of_lt (lt_of_le_of_lt (hb.greatest c hold hcandidate) hlt)
    · rw [List.mem_singleton.mp hnew]

theorem Kept.keep (h : Kept candidate rank items kept) (a : α) :
    Kept candidate rank (items ++ [a]) (keep candidate rank kept a) := by
  unfold Best.keep
  split
  · rename_i htaken
    exact Kept.found a (h.replace htaken.left htaken.right)
  · rename_i hpassed
    cases h with
    | nothing hnone =>
        apply Kept.nothing
        intro c hc
        rcases List.mem_append.mp hc with hold | hnew
        · exact hnone c hold
        · rw [List.mem_singleton.mp hnew, ← Bool.not_eq_true]
          intro hfits
          exact hpassed ⟨hfits, rfl⟩
    | found b hb =>
        apply Kept.found b
        apply hb.snoc
        intro hfits
        rw [← not_lt]
        intro hlt
        exact hpassed ⟨hfits, decide_eq_true hlt⟩

/-!
## The loop
-/

theorem best_kept (items : List α) :
    Kept candidate rank items (best candidate rank items) := by
  induction items using List.reverseRecOn with
  | nil =>
      apply Kept.nothing
      intro a ha
      cases ha
  | append_singleton front last ih =>
      unfold best at ih ⊢
      rw [List.foldl_append]
      exact ih.keep last

theorem best_eq_none : best candidate rank items = none <->
    forall a, a ∈ items -> candidate a = false := by
  have hkept : Kept candidate rank items (best candidate rank items) :=
    best_kept items
  constructor
  · intro hnone
    rw [hnone] at hkept
    cases hkept with
    | nothing h => exact h
  · intro h
    cases hbest : best candidate rank items with
    | none => rfl
    | some b =>
        rw [hbest] at hkept
        cases hkept with
        | found b hb =>
            have hfits := hb.fits
            rw [h b hb.mem] at hfits
            cases hfits

theorem IsBest.unique (hranked : Ranked candidate rank items)
    (ha : IsBest candidate rank items a) (hb : IsBest candidate rank items b) :
    a = b := by
  apply hranked a b ha.mem hb.mem ha.fits hb.fits
  exact le_antisymm (hb.greatest a ha.mem ha.fits) (ha.greatest b hb.mem hb.fits)

theorem best_eq_some (hranked : Ranked candidate rank items) :
    best candidate rank items = some b <-> IsBest candidate rank items b := by
  have hkept : Kept candidate rank items (best candidate rank items) :=
    best_kept items
  constructor
  · intro hbest
    rw [hbest] at hkept
    cases hkept with
    | found b hb => exact hb
  · intro hb
    cases hbest : best candidate rank items with
    | none =>
        have hfits := hb.fits
        rw [best_eq_none.mp hbest b hb.mem] at hfits
        cases hfits
    | some c =>
        rw [hbest] at hkept
        cases hkept with
        | found c hc => rw [hc.unique hranked hb]

/-- The order of the items does not matter. -/
theorem best_of_same_members (hranked : Ranked candidate rank items)
    (hsame : forall a, a ∈ items' <-> a ∈ items) :
    best candidate rank items' = best candidate rank items := by
  have hranked' : Ranked candidate rank items' := by
    intro a b ha hb
    exact hranked a b ((hsame a).mp ha) ((hsame b).mp hb)
  apply Option.ext
  intro b
  rw [best_eq_some hranked, best_eq_some hranked']
  constructor
  · intro h
    exact
      { mem := (hsame b).mp h.mem
        fits := h.fits
        greatest := fun a ha => h.greatest a ((hsame a).mpr ha) }
  · intro h
    exact
      { mem := (hsame b).mpr h.mem
        fits := h.fits
        greatest := fun a ha => h.greatest a ((hsame a).mp ha) }

end Best
