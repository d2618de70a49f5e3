import Mathlib.Algebra.Order.Floor.Div
import Mathlib.Data.List.Sort

/-!
# Reading an ordered set page by page

A reader asks for the keys beyond its cursor, at most `limit` of them at a time,
and the last key of a page is the next cursor while there is more.  The set may
change between two requests.
-/

namespace Paging

variable {α : Type}

def next (limit : Nat) (rest : List α) : Option α :=
  if limit < rest.length then (rest.take limit).getLast? else none

theorem next_eq_some {limit : Nat} {rest : List α} {c : α}
    (h : next limit rest = some c) :
    limit < rest.length ∧ (rest.take limit).getLast? = some c := by
  unfold next at h
  split at h
  · rename_i hmore
    exact ⟨hmore, h⟩
  · cases h

theorem next_eq_none {limit : Nat} (hlimit : 0 < limit) {rest : List α} :
    next limit rest = none <-> rest.length ≤ limit := by
  unfold next
  split
  · rename_i hmore
    rw [List.getLast?_eq_none_iff, List.take_eq_nil_iff]
    constructor
    · intro hnil
      rcases hnil with hzero | hempty
      · omega
      · simp [hempty]
    · omega
  · simp only [true_iff]
    omega

variable [LinearOrder α]

def after (cursor : Option α) (keys : List α) : List α :=
  match cursor with
  | none => keys
  | some c => keys.filter (fun k => decide (c < k))

/-- How far a reader is. -/
structure Progress (α : Type) where
  seen : List α
  cursor : Option α
  ended : Bool

def start : Progress α where
  seen := []
  cursor := none
  ended := false

def Progress.turn (s : Progress α) (limit : Nat) (keys : List α) :
    Progress α where
  seen := s.seen ++ (after s.cursor keys).take limit
  cursor := next limit (after s.cursor keys)
  ended := (next limit (after s.cursor keys)).isNone

/-- The requests of a reader that stops at the end, with what each found. -/
inductive Reads (limit : Nat) : List (List α) -> Progress α -> Prop where
  | start : Reads limit [] start
  | turn {found : List (List α)} {s : Progress α} (keys : List α) :
      Reads limit found s -> s.ended = false ->
      Reads limit (found ++ [keys]) (s.turn limit keys)

/-!
## One page
-/

theorem after_sublist (cursor : Option α) (keys : List α) :
    (after cursor keys).Sublist keys := by
  cases cursor with
  | none => exact List.Sublist.refl keys
  | some c => exact List.filter_sublist

theorem mem_after {cursor : Option α} {keys : List α} {k : α} :
    k ∈ after cursor keys <->
      k ∈ keys ∧ forall c, cursor = some c -> c < k := by
  cases cursor with
  | none => simp [after]
  | some c => simp [after]

theorem after_eq_self {keys : List α} {c : α}
    (h : forall k, k ∈ keys -> c < k) : after (some c) keys = keys := by
  unfold after
  rw [List.filter_eq_self]
  intro k hk
  exact decide_eq_true (h k hk)

theorem lt_of_mem_drop {rest : List α} {n : Nat} {c k : α}
    (hsorted : rest.SortedLT) (hlast : (rest.take n).getLast? = some c)
    (hk : k ∈ rest.drop n) : c < k := by
  have hcross := hsorted.pairwise
  rw [← List.take_append_drop n rest, List.pairwise_append] at hcross
  exact hcross.right.right c (List.mem_of_getLast? hlast) k hk

theorem le_of_mem_take {rest : List α} {n : Nat} {c k : α}
    (hsorted : rest.SortedLT) (hlast : (rest.take n).getLast? = some c)
    (hk : k ∈ rest.take n) : k ≤ c := by
  rcases List.getLast?_eq_some_iff.mp hlast with ⟨front, hfront⟩
  have hpage : (rest.take n).Pairwise (· < ·) :=
    hsorted.pairwise.sublist (List.take_sublist n rest)
  rw [hfront] at hk hpage
  rcases List.mem_append.mp hk with hfront' | hlast'
  · exact le_of_lt ((List.pairwise_append.mp hpage).right.right k hfront' c
      (List.mem_singleton_self c))
  · exact le_of_eq (List.mem_singleton.mp hlast')

/-- Beyond the last of the first `n` keys lie the others. -/
theorem after_getLast {keys : List α} {n : Nat} {c : α}
    (hsorted : keys.SortedLT) (hlast : (keys.take n).getLast? = some c) :
    after (some c) keys = keys.drop n := by
  have hfront : (keys.take n).filter (fun k => decide (c < k)) = [] := by
    rw [List.filter_eq_nil_iff]
    intro k hk
    simpa using le_of_mem_take hsorted hlast hk
  have hback : (keys.drop n).filter (fun k => decide (c < k)) = keys.drop n := by
    rw [List.filter_eq_self]
    intro k hk
    simpa using lt_of_mem_drop hsorted hlast hk
  calc
    after (some c) keys
        = (keys.take n ++ keys.drop n).filter (fun k => decide (c < k)) := by
          rw [List.take_append_drop]
          rfl
    _ = keys.drop n := by rw [List.filter_append, hfront, hback, List.nil_append]

theorem turn_goes {s : Progress α} {limit : Nat} {keys : List α}
    (h : (s.turn limit keys).ended = false) :
    exists c, next limit (after s.cursor keys) = some c := by
  cases hnext : next limit (after s.cursor keys) with
  | none =>
      have hended : (next limit (after s.cursor keys)).isNone = false := h
      rw [hnext] at hended
      cases hended
  | some c => exact ⟨c, rfl⟩

/-!
## Increasing, and bounded by the cursor
-/

structure Ordered (s : Progress α) : Prop where
  increasing : s.seen.SortedLT
  bounded : s.ended = false -> forall k, k ∈ s.seen ->
    exists c, s.cursor = some c ∧ k ≤ c

theorem ordered_start : Ordered (start : Progress α) where
  increasing := List.Pairwise.nil.sortedLT
  bounded := by
    intro _ k hk
    cases hk

theorem Ordered.turn {s : Progress α} (h : Ordered s) (hmore : s.ended = false)
    {keys : List α} (hkeys : keys.SortedLT) (limit : Nat) :
    Ordered (s.turn limit keys) := by
  have hrest : (after s.cursor keys).SortedLT :=
    (hkeys.pairwise.sublist (after_sublist s.cursor keys)).sortedLT
  have hbeyond : forall k, k ∈ s.seen -> forall x, x ∈ after s.cursor keys ->
      k < x := by
    intro k hk x hx
    rcases h.bounded hmore k hk with ⟨c, hc, hle⟩
    exact lt_of_le_of_lt hle ((mem_after.mp hx).right c hc)
  constructor
  · apply List.Pairwise.sortedLT
    show (s.seen ++ (after s.cursor keys).take limit).Pairwise (· < ·)
    rw [List.pairwise_append]
    refine ⟨h.increasing.pairwise,
      hrest.pairwise.sublist (List.take_sublist _ _), ?_⟩
    intro k hk x hx
    exact hbeyond k hk x (List.mem_of_mem_take hx)
  · intro hgoes k hk
    rcases turn_goes hgoes with ⟨c, hc⟩
    rcases next_eq_some hc with ⟨_, hlast⟩
    refine ⟨c, hc, ?_⟩
    rcases List.mem_append.mp hk with hold | hnew
    · exact le_of_lt (hbeyond k hold c
        (List.mem_of_mem_take (List.mem_of_getLast? hlast)))
    · exact le_of_mem_take hrest hlast hnew

theorem Reads.ordered {limit : Nat} {found : List (List α)} {s : Progress α}
    (h : Reads limit found s)
    (hsorted : forall keys, keys ∈ found -> keys.SortedLT) : Ordered s := by
  induction h with
  | start => exact ordered_start
  | turn keys _ hmore ih =>
      have hbefore := ih fun keys' h => hsorted keys' (List.mem_append_left _ h)
      exact hbefore.turn hmore (hsorted keys (by simp)) limit

/-!
## Nothing lost
-/

/-- The reader has seen the key by the time it is past it. -/
def Tracked (k : α) (s : Progress α) : Prop :=
  s.ended = true ∨ (exists c, s.cursor = some c ∧ k ≤ c) -> k ∈ s.seen

theorem Tracked.turn {k : α} {s : Progress α} (h : Tracked k s)
    {keys : List α} (hkeys : keys.SortedLT) (hk : k ∈ keys) {limit : Nat}
    (hlimit : 0 < limit) : Tracked k (s.turn limit keys) := by
  intro hpast
  have hrest : (after s.cursor keys).SortedLT :=
    (hkeys.pairwise.sublist (after_sublist s.cursor keys)).sortedLT
  show k ∈ s.seen ++ (after s.cursor keys).take limit
  rw [List.mem_append, or_iff_not_imp_left]
  intro hunseen
  have hafter : k ∈ after s.cursor keys := by
    refine mem_after.mpr ⟨hk, ?_⟩
    intro c hc
    rw [← not_le]
    intro hle
    exact hunseen (h (Or.inr ⟨c, hc, hle⟩))
  rcases hpast with hend | ⟨c, hc, hle⟩
  · have hall := (next_eq_none hlimit).mp (Option.isNone_iff_eq_none.mp hend)
    rwa [List.take_of_length_le hall]
  · rcases next_eq_some hc with ⟨_, hlast⟩
    rw [← List.take_append_drop limit (after s.cursor keys)] at hafter
    rcases List.mem_append.mp hafter with hpage | hbeyond
    · exact hpage
    · exact absurd hle (not_le.mpr (lt_of_mem_drop hrest hlast hbeyond))

/-- A key that every request found is seen in the end. -/
theorem Reads.tracked {limit : Nat} (hlimit : 0 < limit)
    {found : List (List α)} {s : Progress α} (h : Reads limit found s)
    (hsorted : forall keys, keys ∈ found -> keys.SortedLT) {k : α}
    (hk : forall keys, keys ∈ found -> k ∈ keys) : Tracked k s := by
  induction h with
  | start =>
      intro hpast
      rcases hpast with hend | ⟨c, hc, _⟩
      · cases hend
      · cases hc
  | turn keys _ _ ih =>
      have hbefore := ih
        (fun keys' h => hsorted keys' (List.mem_append_left _ h))
        (fun keys' h => hk keys' (List.mem_append_left _ h))
      exact hbefore.turn (hsorted keys (by simp)) (hk keys (by simp)) hlimit

theorem Reads.found {limit : Nat} {found : List (List α)} {s : Progress α}
    (h : Reads limit found s) {k : α} (hk : k ∈ s.seen) :
    exists keys, keys ∈ found ∧ k ∈ keys := by
  induction h with
  | start => cases hk
  | turn keys _ _ ih =>
      rcases List.mem_append.mp hk with hold | hnew
      · rcases ih hold with ⟨keys', hkeys', hk'⟩
        exact ⟨keys', List.mem_append_left _ hkeys', hk'⟩
      · exact ⟨keys, by simp,
          (after_sublist _ _).mem (List.mem_of_mem_take hnew)⟩

/-!
## A set that does not change
-/

def requests (limit n : Nat) : Nat := max 1 (n ⌈/⌉ limit)

/-- The state after `i` requests that all found the same keys. -/
structure Halfway (limit : Nat) (keys : List α) (i : Nat) (s : Progress α) :
    Prop where
  seen : s.seen = keys.take (limit * i)
  rest : s.ended = false -> after s.cursor keys = keys.drop (limit * i)
  ended : s.ended = true <-> 0 < i ∧ keys.length ≤ limit * i
  before : forall j, 0 < j -> j < i -> limit * j < keys.length

theorem halfway_start (limit : Nat) (keys : List α) :
    Halfway limit keys 0 start where
  seen := by simp [start]
  rest := by
    intro _
    simp [start, after]
  ended := by simp [start]
  before := by
    intro j _ hj
    omega

theorem Halfway.turn {limit : Nat} (hlimit : 0 < limit) {keys : List α}
    (hkeys : keys.SortedLT) {i : Nat} {s : Progress α}
    (h : Halfway limit keys i s) (hmore : s.ended = false) :
    Halfway limit keys (i + 1) (s.turn limit keys) := by
  have hpage : keys.take (limit * i) ++ (keys.drop (limit * i)).take limit =
      keys.take (limit * (i + 1)) := by
    rw [Nat.mul_succ, List.take_add]
  have hrest := h.rest hmore
  constructor
  · show s.seen ++ (after s.cursor keys).take limit = _
    rw [h.seen, hrest, hpage]
  · intro hgoes
    rcases turn_goes hgoes with ⟨c, hc⟩
    rcases next_eq_some hc with ⟨_, hlast⟩
    show after (next limit (after s.cursor keys)) keys = _
    rw [hc]
    apply after_getLast hkeys
    rw [← hpage, List.getLast?_append, ← hrest, hlast, Option.some_or]
  · show (next limit (after s.cursor keys)).isNone = true <-> _
    rw [Option.isNone_iff_eq_none, next_eq_none hlimit, hrest,
      List.length_drop, Nat.mul_succ]
    omega
  · intro j hj hlt
    rcases Nat.lt_succ_iff_lt_or_eq.mp hlt with hless | rfl
    · exact h.before j hj hless
    · rw [← not_le]
      intro hle
      rw [h.ended.mpr ⟨hj, hle⟩] at hmore
      cases hmore

theorem Reads.halfway {limit : Nat} (hlimit : 0 < limit)
    {found : List (List α)} {s : Progress α} (h : Reads limit found s)
    {keys : List α} (hkeys : keys.SortedLT)
    (hsame : forall keys', keys' ∈ found -> keys' = keys) :
    Halfway limit keys found.length s := by
  induction h with
  | start => exact halfway_start limit keys
  | turn keys' _ hmore ih =>
      have hbefore := ih fun other h => hsame other (List.mem_append_left _ h)
      rw [hsame keys' (by simp), List.length_append]
      exact hbefore.turn hlimit hkeys hmore

theorem Halfway.requests {limit : Nat} (hlimit : 0 < limit) {keys : List α}
    {i : Nat} {s : Progress α} (h : Halfway limit keys i s) :
    i ≤ requests limit keys.length ∧
      (s.ended = true <-> i = requests limit keys.length) := by
  have hceil : forall j, keys.length ⌈/⌉ limit ≤ j <->
      keys.length ≤ limit * j := fun j => ceilDiv_le_iff_le_mul hlimit
  have hnot : forall j, 0 < j -> j < i -> j < keys.length ⌈/⌉ limit := by
    intro j hj hlt
    rw [← not_le, hceil, not_le]
    exact h.before j hj hlt
  have hupper : i ≤ Paging.requests limit keys.length := by
    unfold Paging.requests
    rcases Nat.lt_or_ge 1 i with hmany | hfew
    · have hlast := hnot (i - 1) (by omega) (by omega)
      omega
    · omega
  refine ⟨hupper, ?_⟩
  rw [h.ended, ← hceil]
  unfold Paging.requests at hupper ⊢
  omega

theorem Halfway.all_seen {limit : Nat} {keys : List α} {i : Nat}
    {s : Progress α} (h : Halfway limit keys i s) (hend : s.ended = true) :
    s.seen = keys := by
  rw [h.seen, List.take_of_length_le (h.ended.mp hend).right]

end Paging
