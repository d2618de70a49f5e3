import Mathlib.Algebra.Order.Ring.Rat
import StorybookStorage.Posix.Undisturbed

/-!
# A clock that does not go back

Here the clock is a part of the state.  The file system stamps files with what
it shows, and what it shows never decreases; so a file that is too old by some
moment was so already when the clock passed that moment.
-/

namespace Posix

open Effects Python FileTree

abbrev Clocked := FileTree × Rat

def clocked (allow : Policy) : Chooser calls Clocked Choice where
  legal s c ch := Legal allow s.1 c ch ∧ s.2 ≤ ch.now
  exec ch c s := ((exec ch c s.1).1, ((exec ch c s.1).2, ch.now))

instance (allow : Policy) [forall fs c fault, Decidable (allow fs c fault)]
    (s : Clocked) (c : Call) (ch : Choice) :
    Decidable ((clocked allow).legal s c ch) :=
  inferInstanceAs (Decidable ((system allow).legal s.1 c ch ∧ s.2 ≤ ch.now))

def Aged (cutoff : Rat) (fs : FileTree) (q : Path) : Prop :=
  exists i, fs.node q = some (Node.file i) ∧ (fs.inodes i).mtime < cutoff

variable {ch : Choice} {fs fs' : FileTree}

theorem mtime_update (inodes : Nat -> Inode) (j : Nat) (data : Bytes) (now : Rat)
    (i : Nat) :
    (Function.update inodes j { data := data, mtime := now } i).mtime =
      if i = j then now else (inodes i).mtime := by
  rw [Function.update_apply]
  split <;> rfl

theorem mtime_set (inodes : Nat -> Inode) (j : Nat) (data : Bytes) (now : Rat)
    (i : Nat) :
    (Function.update inodes j { data := data, mtime := now } i).mtime =
        (inodes i).mtime ∨
      (Function.update inodes j { data := data, mtime := now } i).mtime =
        now := by
  rw [mtime_update]
  split
  · exact Or.inr rfl
  · exact Or.inl rfl

theorem mtime_drain (fd n : Nat) (x : Handle) (now : Rat) (i : Nat) :
    ((fs.drain fd x n now).inodes i).mtime = (fs.inodes i).mtime ∨
      ((fs.drain fd x n now).inodes i).mtime = now := by
  unfold drain setHandle setInode
  dsimp only
  rw [mtime_update]
  split
  · rename_i hi
    subst hi
    split
    · exact Or.inl rfl
    · exact Or.inr rfl
  · exact Or.inl rfl

theorem exec_mtime {c : Call} {r : Call.Ret c}
    (hexec : exec ch c fs = (r, fs')) (i : Nat) :
    (fs'.inodes i).mtime = (fs.inodes i).mtime ∨
      (fs'.inodes i).mtime = ch.now := by
  have hquiet : c.Quiet -> (fs'.inodes i).mtime = (fs.inodes i).mtime := by
    intro hc
    rw [exec_quiet hc hexec]
  cases c with
  | uuid4 =>
      rcases exec_uuid4 hexec with ⟨_, _, _, hinodes, _⟩
      rw [hinodes]
      exact Or.inl rfl
  | openWrite t =>
      rcases exec_openWrite hexec with
        ⟨_, _, rfl⟩ | ⟨j, _, _, rfl⟩ | ⟨_, _, _, rfl⟩
      · exact Or.inl rfl
      · exact mtime_set fs.inodes j [] ch.now i
      · exact mtime_set fs.inodes fs.nextIno [] ch.now i
  | openRead t =>
      rcases exec_openRead hexec with ⟨_, _, rfl⟩ | ⟨j, _, _, rfl⟩
      · exact Or.inl rfl
      · exact Or.inl rfl
  | write fd chunk =>
      rcases exec_write hexec with ⟨_, _, rfl⟩ | ⟨x, _, rfl, _⟩
      · exact Or.inl rfl
      · exact mtime_drain _ _ _ _ i
  | flush fd =>
      rcases exec_flush hexec with ⟨_, _, rfl⟩ | ⟨x, n, _, rfl, _⟩
      · exact Or.inl rfl
      · exact mtime_drain _ _ _ _ i
  | close fd =>
      rcases exec_close hexec with ⟨_, _, rfl⟩ | ⟨x, n, _, rfl, _⟩
      · exact Or.inl rfl
      · exact mtime_drain fd n x ch.now i
  | read fd limit =>
      rcases exec_read hexec with ⟨_, _, rfl⟩ | ⟨x, got, _, _, _, rfl⟩
      · exact Or.inl rfl
      · exact Or.inl rfl
  | makedirs t =>
      rcases exec_makedirs hexec with ⟨_, _, rfl⟩ | ⟨limit, rfl, _⟩
      · exact Or.inl rfl
      · rw [mkdirs_inodes]
        exact Or.inl rfl
  | rename src dst =>
      rcases exec_rename hexec with ⟨_, _, rfl⟩ | ⟨j, _, _, _, _, rfl⟩
      · exact Or.inl rfl
      · exact Or.inl rfl
  | remove t =>
      rcases exec_remove hexec with ⟨_, _, rfl⟩ | ⟨j, _, _, rfl⟩
      · exact Or.inl rfl
      · exact Or.inl rfl
  | _ => exact Or.inl (hquiet trivial)

theorem openWrite_mtime {t : Text} {n i : Nat}
    (hexec : exec ch (Call.openWrite t) fs = (Except.ok n, fs'))
    (hi : fs'.node (resolve t) = some (Node.file i)) :
    (fs'.inodes i).mtime = ch.now := by
  rcases exec_openWrite hexec with
    ⟨_, hr, _⟩ | ⟨j, hj, _, rfl⟩ | ⟨_, _, _, rfl⟩
  · cases hr
  · have hsame : fs.node (resolve t) = some (Node.file i) := hi
    rw [hj] at hsame
    cases hsame
    exact (mtime_update fs.inodes _ [] ch.now _).trans (if_pos rfl)
  · rw [node_openHandle, node_create_self] at hi
    cases hi
    exact (mtime_update fs.inodes _ [] ch.now _).trans (if_pos rfl)

/-- No call makes a file too old, unless it moves it to its place. -/
theorem Aged.before {c : Call} {r : Call.Ret c} {q : Path} {cutoff : Rat}
    (h : Aged cutoff fs' q) (hexec : exec ch c fs = (r, fs'))
    (hmoves : forall src dst, c = Call.rename src dst -> resolve dst ≠ q)
    (hclock : cutoff ≤ ch.now) : Aged cutoff fs q := by
  rcases h with ⟨i, hi, hold⟩
  rcases exec_file hexec hi with hbefore | hplaced
  · rcases exec_mtime hexec i with hsame | hnow
    · rw [hsame] at hold
      exact ⟨i, hbefore, hold⟩
    · rw [hnow] at hold
      exact absurd (hclock.trans_lt hold) (lt_irrefl cutoff)
  · cases c with
    | openWrite t =>
        cases r with
        | error e => cases hplaced
        | ok n =>
            cases List.mem_singleton.mp hplaced
            rw [openWrite_mtime hexec hi] at hold
            exact absurd (hclock.trans_lt hold) (lt_irrefl cutoff)
    | rename src dst =>
        cases r with
        | error e => cases hplaced
        | ok _ =>
            exact absurd (List.mem_singleton.mp hplaced).symm
              (hmoves src dst rfl)
    | _ => cases hplaced

/-!
## What is not too old
-/

variable {p : Text} {cutoff : Rat}

theorem unaged_of_isfile (hfault : ch.fault = none)
    (hexec : exec ch (Call.isfile p) fs = (false, fs')) :
    ¬ Aged cutoff fs' (resolve p) := by
  intro hold
  rcases hold with ⟨i, hi, _⟩
  have hno : (ch.fault.isNone && fs.isFile (resolve p)) = false :=
    congrArg Prod.fst hexec
  rw [exec_quiet (c := Call.isfile p) trivial hexec] at hi
  rw [hfault, isFile_iff.mpr ⟨i, hi⟩] at hno
  cases hno

theorem unaged_of_getmtime {r : Except Errno Rat} (hfault : ch.fault = none)
    (hexec : exec ch (Call.getmtime p) fs = (r, fs'))
    (hr : forall m, r = Except.ok m -> ¬ m < cutoff) :
    ¬ Aged cutoff fs' (resolve p) := by
  intro hold
  rcases hold with ⟨i, hi, hless⟩
  have hread : (statAt ch p fs).map Stat.mtime = r := congrArg Prod.fst hexec
  rw [exec_quiet (c := Call.getmtime p) trivial hexec] at hi hless
  unfold statAt at hread
  rw [hfault] at hread
  dsimp only at hread
  rw [hi] at hread
  exact hr _ hread.symm hless

theorem unaged_of_remove {r : Except Errno Unit} (hfault : ch.fault = none)
    (hexec : exec ch (Call.remove p) fs = (r, fs')) :
    ¬ Aged cutoff fs' (resolve p) := by
  intro hold
  rcases hold with ⟨i, hi, _⟩
  cases r with
  | error e =>
      rcases exec_remove hexec with ⟨_, _, rfl⟩ | ⟨_, hr, _⟩
      · exact remove_error hfault hexec i hi
      · cases hr
  | ok _ =>
      rcases exec_remove hexec with ⟨_, hr, _⟩ | ⟨j, _, _, rfl⟩
      · cases hr
      · rw [node_unlink_self] at hi
        cases hi

end Posix
