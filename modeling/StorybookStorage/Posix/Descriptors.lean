import Mathlib.Data.List.Basic
import StorybookStorage.Effects.Tracking
import StorybookStorage.Posix.Calls

/-!
# Who has which descriptor

A task that has at most one file open at a time, closes only what it has opened
and has nothing open at its end never loses a descriptor.  In a pool of such
tasks the open descriptors are those the running tasks have, one each.
-/

namespace Posix

open Effects Python FileTree

/-- The one descriptor a task has open. -/
def grip : Tracker calls (Option Nat) where
  start := none
  Can held c :=
    match c with
    | Call.openWrite _ => held = none
    | Call.openRead _ => held = none
    | Call.close fd => held = some fd
    | _ => True
  next held c r :=
    match c, r with
    | Call.openWrite _, Except.ok fd => some fd
    | Call.openRead _, Except.ok fd => some fd
    | Call.close _, _ => none
    | _, _ => held

/-- A call that neither opens nor closes. -/
def Bare : Call -> Prop
  | Call.openWrite _ => False
  | Call.openRead _ => False
  | Call.close _ => False
  | _ => True

theorem bare_can {c : Call} (h : Bare c) (held : Option Nat) : grip.Can held c := by
  cases c with
  | openWrite t => exact h.elim
  | openRead t => exact h.elim
  | close fd => exact h.elim
  | _ => trivial

theorem bare_next {c : Call} (h : Bare c) (held : Option Nat) (r : Call.Ret c) :
    grip.next held c r = held := by
  cases c with
  | openWrite t => exact h.elim
  | openRead t => exact h.elim
  | close fd => exact h.elim
  | _ => rfl

/-!
## What a call does to the table
-/

def SameOpen (fs fs' : FileTree) : Prop :=
  forall n, fs'.handles n = none <-> fs.handles n = none

/-- How a call changes the table, and the grip of its task accordingly. -/
inductive Grasps (fs : FileTree) (c : Call) (r : Call.Ret c) (fs' : FileTree) :
    Prop where
  | keeps :
      SameOpen fs fs' -> (forall held, grip.next held c r = held) ->
      Grasps fs c r fs'
  | opens (fd : Nat) :
      (forall held, grip.Can held c -> held = none) ->
      (forall held, grip.next held c r = some fd) ->
      fs.handles fd = none -> fs'.handles fd ≠ none ->
      (forall n, n ≠ fd -> fs'.handles n = fs.handles n) ->
      Grasps fs c r fs'
  | closes (fd : Nat) :
      (forall held, grip.Can held c -> held = some fd) ->
      (forall held, grip.next held c r = none) ->
      fs'.handles fd = none ->
      (forall n, n ≠ fd -> fs'.handles n = fs.handles n) ->
      Grasps fs c r fs'

variable {ch : Choice} {fs fs' : FileTree}

theorem sameOpen_of_eq (h : fs'.handles = fs.handles) : SameOpen fs fs' := by
  intro n
  rw [h]

theorem sameOpen_set {fd : Nat} {x y : Handle} (hx : fs.handles fd = some x)
    (h : fs'.handles = Function.update fs.handles fd (some y)) :
    SameOpen fs fs' := by
  intro n
  rw [h, Function.update_apply]
  split
  · rename_i hn
    rw [hn, hx]
    simp
  · rfl

theorem Grasps.bare {c : Call} {r : Call.Ret c} (hc : Bare c)
    (hsame : SameOpen fs fs') : Grasps fs c r fs' :=
  Grasps.keeps hsame fun held => bare_next hc held r

theorem grasps_of_opened {c : Call} {r : Call.Ret c} {x : Handle}
    (hsound : fs.Sound) (hcan : forall held, grip.Can held c -> held = none)
    (hnext : forall held, grip.next held c r = some fs.nextFd)
    (h : fs'.handles = Function.update fs.handles fs.nextFd (some x)) :
    Grasps fs c r fs' := by
  refine Grasps.opens fs.nextFd hcan hnext ?_ ?_ ?_
  · cases hx : fs.handles fs.nextFd with
    | none => rfl
    | some y => exact absurd (hsound.handle _ y hx).right (Nat.lt_irrefl _)
  · rw [h, Function.update_self]
    exact nofun
  · intro n hn
    rw [h, Function.update_of_ne hn]

theorem exec_grasps {c : Call} {r : Call.Ret c} (hsound : fs.Sound)
    (hexec : exec ch c fs = (r, fs')) : Grasps fs c r fs' := by
  have hquiet : c.Quiet -> Bare c -> Grasps fs c r fs' := by
    intro hc hbare
    apply Grasps.bare hbare
    rw [exec_quiet hc hexec]
    exact fun _ => Iff.rfl
  cases c with
  | uuid4 =>
      rcases exec_uuid4 hexec with ⟨_, _, _, _, _, hhandles, _⟩
      exact Grasps.bare trivial (sameOpen_of_eq hhandles)
  | openWrite t =>
      rcases exec_openWrite hexec with
        ⟨_, rfl, rfl⟩ | ⟨j, _, rfl, rfl⟩ | ⟨_, _, rfl, rfl⟩
      · exact Grasps.keeps (fun _ => Iff.rfl) fun _ => rfl
      · exact grasps_of_opened hsound (fun _ h => h) (fun _ => rfl) rfl
      · exact grasps_of_opened hsound (fun _ h => h) (fun _ => rfl) rfl
  | openRead t =>
      rcases exec_openRead hexec with ⟨_, rfl, rfl⟩ | ⟨j, _, rfl, rfl⟩
      · exact Grasps.keeps (fun _ => Iff.rfl) fun _ => rfl
      · exact grasps_of_opened hsound (fun _ h => h) (fun _ => rfl) rfl
  | write fd chunk =>
      rcases exec_write hexec with ⟨_, _, rfl⟩ | ⟨x, hx, rfl, _⟩
      · exact Grasps.bare trivial fun _ => Iff.rfl
      · exact Grasps.bare trivial (sameOpen_set hx rfl)
  | flush fd =>
      rcases exec_flush hexec with ⟨_, _, rfl⟩ | ⟨x, n, hx, rfl, _⟩
      · exact Grasps.bare trivial fun _ => Iff.rfl
      · exact Grasps.bare trivial (sameOpen_set hx rfl)
  | close fd =>
      have hshut : fs'.handles fd = none ∧
          forall n, n ≠ fd -> fs'.handles n = fs.handles n := by
        rcases exec_close hexec with ⟨hnone, _, rfl⟩ | ⟨x, n, hx, rfl, _⟩
        · exact ⟨hnone, fun _ _ => rfl⟩
        · refine ⟨Function.update_self .., ?_⟩
          intro m hm
          exact (Function.update_of_ne hm ..).trans (Function.update_of_ne hm ..)
      exact Grasps.closes fd (fun _ h => h) (fun _ => rfl) hshut.left hshut.right
  | read fd limit =>
      rcases exec_read hexec with ⟨_, _, rfl⟩ | ⟨x, got, hx, _, _, rfl⟩
      · exact Grasps.bare trivial fun _ => Iff.rfl
      · exact Grasps.bare trivial (sameOpen_set hx rfl)
  | makedirs t =>
      rcases exec_makedirs hexec with ⟨_, _, rfl⟩ | ⟨limit, rfl, _⟩
      · exact Grasps.bare trivial fun _ => Iff.rfl
      · exact Grasps.bare trivial (sameOpen_of_eq (mkdirs_handles _ _ _ _).left)
  | rename src dst =>
      rcases exec_rename hexec with ⟨_, _, rfl⟩ | ⟨j, _, _, _, _, rfl⟩
      · exact Grasps.bare trivial fun _ => Iff.rfl
      · exact Grasps.bare trivial fun _ => Iff.rfl
  | remove t =>
      rcases exec_remove hexec with ⟨_, _, rfl⟩ | ⟨j, _, _, rfl⟩
      · exact Grasps.bare trivial fun _ => Iff.rfl
      · exact Grasps.bare trivial fun _ => Iff.rfl
  | _ => exact hquiet trivial trivial

/-!
## Pools
-/

structure Divided (fs : FileTree) (hands : Nat -> Option Nat) : Prop where
  sound : fs.Sound
  held : forall i fd, hands i = some fd -> fs.handles fd ≠ none
  owner : forall fd, fs.handles fd ≠ none -> exists i, hands i = some fd
  apart : forall i j fd, hands i = some fd -> hands j = some fd -> i = j

variable {hands : Nat -> Option Nat} {i : Nat}

theorem Divided.opens (h : Divided fs hands) (hsound : fs'.Sound) {new : Nat}
    (hempty : hands i = none) (hfree : fs.handles new = none)
    (hopen : fs'.handles new ≠ none)
    (hothers : forall n, n ≠ new -> fs'.handles n = fs.handles n) :
    Divided fs' (Function.update hands i (some new)) where
  sound := hsound
  held := by
    intro j fd hj
    rw [Function.update_apply] at hj
    split at hj
    · cases hj
      exact hopen
    · have hold := h.held j fd hj
      rw [hothers fd (fun heq => hold (heq ▸ hfree))]
      exact hold
  owner := by
    intro fd hfd
    by_cases hnew : fd = new
    · subst hnew
      exact ⟨i, Function.update_self ..⟩
    · rw [hothers fd hnew] at hfd
      rcases h.owner fd hfd with ⟨j, hj⟩
      refine ⟨j, ?_⟩
      rw [Function.update_of_ne]
      · exact hj
      · intro hji
        rw [hji, hempty] at hj
        cases hj
  apart := by
    intro j k fd hj hk
    rw [Function.update_apply] at hj hk
    split at hj
    · rename_i hji
      cases hj
      split at hk
      · rename_i hki
        rw [hji, hki]
      · exact absurd hfree (h.held k new hk)
    · split at hk
      · cases hk
        exact absurd hfree (h.held j new hj)
      · exact h.apart j k fd hj hk

theorem Divided.closes (h : Divided fs hands) (hsound : fs'.Sound) {gone : Nat}
    (hfull : hands i = some gone) (hfree : fs'.handles gone = none)
    (hothers : forall n, n ≠ gone -> fs'.handles n = fs.handles n) :
    Divided fs' (Function.update hands i none) where
  sound := hsound
  held := by
    intro j fd hj
    rw [Function.update_apply] at hj
    split at hj
    · cases hj
    · rename_i hji
      rw [hothers fd]
      · exact h.held j fd hj
      · intro heq
        subst heq
        exact hji (h.apart j i fd hj hfull)
  owner := by
    intro fd hfd
    have hne : fd ≠ gone := fun heq => hfd (heq ▸ hfree)
    rw [hothers fd hne] at hfd
    rcases h.owner fd hfd with ⟨j, hj⟩
    refine ⟨j, ?_⟩
    rw [Function.update_of_ne]
    · exact hj
    · intro hji
      rw [hji, hfull] at hj
      exact hne (Option.some.inj hj).symm
  apart := by
    intro j k fd hj hk
    rw [Function.update_apply] at hj hk
    split at hj
    · cases hj
    · split at hk
      · cases hk
      · exact h.apart j k fd hj hk

theorem Divided.call (h : Divided fs hands) {c : Call} {r : Call.Ret c}
    (hcan : grip.Can (hands i) c) (hexec : exec ch c fs = (r, fs')) :
    Divided fs' (Function.update hands i (grip.next (hands i) c r)) := by
  have hsound := exec_sound h.sound hexec
  cases exec_grasps h.sound hexec with
  | keeps hsame hnext =>
      rw [hnext, Function.update_eq_self]
      exact
        { sound := hsound
          held := fun j fd hj hnone => h.held j fd hj ((hsame fd).mp hnone)
          owner := fun fd hfd =>
            h.owner fd fun hnone => hfd ((hsame fd).mpr hnone)
          apart := h.apart }
  | opens new hempty hnext hfree hopen hothers =>
      rw [hnext]
      exact h.opens hsound (hempty _ hcan) hfree hopen hothers
  | closes gone hfull hnext hfree hothers =>
      rw [hnext]
      exact h.closes hsound (hfull _ hcan) hfree hothers

section Pools

variable {ι err α : Type} {R : Rules calls FileTree ι err α} {allow : Policy}

/-- In a pool of tasks that each behave by their grip, and that is never
stopped. -/
theorem divided_of_reach (hmachine : R.machine = (system allow).machine)
    (hstops : ¬ R.stops)
    (hprograms : forall tag, R.accepts tag ->
      grip.machine.wp (R.program tag) (fun _ held => held = none) none)
    (hsound : fs.Sound) (hnone : forall fd, fs.handles fd = none)
    {P : Pool calls FileTree ι err α} (hreach : R.Reach fs P) :
    Divided P.shared (grip.hands P) := by
  refine Rules.Reach.invariant (I := fun P => Divided P.shared (grip.hands P))
    ?_ ?_ ?_ ?_ hreach
  · rw [Tracker.hands_boot]
    exact
      { sound := hsound
        held := nofun
        owner := fun fd hopen => absurd (hnone fd) hopen
        apart := nofun }
  · intro P tag _ hP _
    rw [Tracker.hands_spawn]
    exact hP
  · intro P i t c k r fs' hreach hP ht hc _ hstep
    rw [hmachine] at hstep
    rcases hstep with ⟨ch, _, hexec⟩
    have hwp := Rules.Reach.tracked hprograms hreach ht
    rw [hc] at hwp
    rw [Tracker.hands_advance ht]
    apply hP.call _ hexec
    rw [Tracker.hands_eq ht]
    exact hwp.left
  · intro P _ _ hstop
    exact absurd hstop hstops

theorem open_le_running {P : Pool calls FileTree ι err α}
    (h : Divided P.shared (grip.hands P))
    (hended : forall (i : Nat) (t : Task calls ι err α) o,
      P.tasks[i]? = some t -> t.code.ending = some o ->
      grip.after t.past = none)
    {fds : List Nat} (hnodup : fds.Nodup)
    (hopen : forall fd, fd ∈ fds -> P.shared.handles fd ≠ none) :
    fds.length ≤ (P.tasks.filter fun t => t.code.ending.isNone).length := by
  have hsub : fds ⊆ (P.tasks.filter fun t => t.code.ending.isNone).filterMap
      fun t => grip.after t.past := by
    intro fd hfd
    rcases h.owner fd (hopen fd hfd) with ⟨i, hi⟩
    cases ht : P.tasks[i]? with
    | none =>
        unfold Tracker.hands at hi
        rw [ht] at hi
        cases hi
    | some t =>
        rw [Tracker.hands_eq ht] at hi
        have hrunning : t.code.ending.isNone = true := by
          cases ho : t.code.ending with
          | none => rfl
          | some o =>
              rw [hended i t o ht ho] at hi
              cases hi
        exact List.mem_filterMap.mpr
          ⟨t, List.mem_filter.mpr ⟨List.mem_of_getElem? ht, hrunning⟩, hi⟩
  exact (List.subperm_of_subset hnodup hsub).length_le.trans
    (List.length_filterMap_le _ _)

end Pools

end Posix
