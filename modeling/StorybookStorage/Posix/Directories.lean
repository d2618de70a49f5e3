import StorybookStorage.Posix.Undisturbed

/-!
# Where directories come from

Only `makedirs` makes directories, on its own way, and nothing takes one away.
Without faults the calls that change the tree fail only for what is in their
way.
-/

namespace Posix

open Python Effects FileTree

variable {fs fs' : FileTree}

theorem exec_dir_old {ch : Choice} {c : Call} {r : Call.Ret c} {q : Path}
    (hexec : exec ch c fs = (r, fs')) (hq : fs'.node q = some Node.dir) :
    fs.node q = some Node.dir ∨
      exists t, c = Call.makedirs t ∧ q <+: resolve t := by
  have hquiet : c.Quiet -> fs.node q = some Node.dir := by
    intro hc
    rwa [exec_quiet hc hexec] at hq
  cases c with
  | uuid4 =>
      rcases exec_uuid4 hexec with ⟨_, _, hentries, _⟩
      refine Or.inl ?_
      unfold node at hq ⊢
      rw [← hentries]
      exact hq
  | openWrite t =>
      rcases exec_openWrite hexec with
        ⟨_, _, rfl⟩ | ⟨j, _, _, rfl⟩ | ⟨_, _, _, rfl⟩
      · exact Or.inl hq
      · exact Or.inl hq
      · refine Or.inl ?_
        change (fs.create (resolve t) ch.now).node q = some Node.dir at hq
        rcases eq_or_ne q (resolve t) with rfl | hne
        · rw [node_create_self] at hq
          cases hq
        · rwa [node_create_ne _ _ hne] at hq
  | openRead t =>
      rcases exec_openRead hexec with ⟨_, _, rfl⟩ | ⟨j, _, _, rfl⟩
      · exact Or.inl hq
      · exact Or.inl hq
  | write fd chunk =>
      rcases exec_write hexec with ⟨_, _, rfl⟩ | ⟨x, _, rfl, _⟩
      · exact Or.inl hq
      · exact Or.inl hq
  | flush fd =>
      rcases exec_flush hexec with ⟨_, _, rfl⟩ | ⟨x, n, _, rfl, _⟩
      · exact Or.inl hq
      · exact Or.inl hq
  | close fd =>
      rcases exec_close hexec with ⟨_, _, rfl⟩ | ⟨x, n, _, rfl, _⟩
      · exact Or.inl hq
      · exact Or.inl hq
  | read fd limit =>
      rcases exec_read hexec with ⟨_, _, rfl⟩ | ⟨x, got, _, _, _, rfl⟩
      · exact Or.inl hq
      · exact Or.inl hq
  | makedirs t =>
      rcases exec_makedirs hexec with ⟨_, _, rfl⟩ | ⟨limit, rfl, _, _⟩
      · exact Or.inl hq
      · cases hnode : fs.node q with
        | some n =>
            rw [node_mkdirs_of_some hnode] at hq
            exact Or.inl hq
        | none =>
            rcases node_mkdirs_of_none hnode with hnone | ⟨_, hway⟩
            · rw [hnone] at hq
              cases hq
            · exact Or.inr ⟨t, rfl, hway⟩
  | rename src dst =>
      rcases exec_rename hexec with ⟨_, _, rfl⟩ | ⟨j, _, _, _, _, rfl⟩
      · exact Or.inl hq
      · refine Or.inl ?_
        rcases eq_or_ne q (resolve dst) with rfl | hne
        · rw [node_link_self] at hq
          cases hq
        · rw [node_link_ne _ _ hne] at hq
          rcases eq_or_ne q (resolve src) with rfl | hne'
          · rw [node_unlink_self] at hq
            cases hq
          · rwa [node_unlink_ne _ hne'] at hq
  | remove t =>
      rcases exec_remove hexec with ⟨_, _, rfl⟩ | ⟨j, _, _, rfl⟩
      · exact Or.inl hq
      · refine Or.inl ?_
        rcases eq_or_ne q (resolve t) with rfl | hne
        · rw [node_unlink_self] at hq
          cases hq
        · rwa [node_unlink_ne _ hne] at hq
  | _ => exact Or.inl (hquiet trivial)

theorem step_dir {allow : Policy} {c : Call} {r : Call.Ret c} {q : Path}
    (h : (system allow).machine.Step fs c r fs')
    (hq : fs.node q = some Node.dir) : fs'.node q = some Node.dir := by
  rcases h with ⟨ch, _, hexec⟩
  exact exec_dir hexec hq

theorem step_dir_old {allow : Policy} {c : Call} {r : Call.Ret c} {q : Path}
    (h : (system allow).machine.Step fs c r fs')
    (hq : fs'.node q = some Node.dir) :
    fs.node q = some Node.dir ∨
      exists t, c = Call.makedirs t ∧ q <+: resolve t := by
  rcases h with ⟨ch, _, hexec⟩
  exact exec_dir_old hexec hq

theorem step_dir_iff {allow : Policy} {c : Call} {r : Call.Ret c} {q : Path}
    (h : (system allow).machine.Step fs c r fs')
    (hc : forall t, c ≠ Call.makedirs t) :
    fs'.node q = some Node.dir <-> fs.node q = some Node.dir := by
  constructor
  · intro hq
    rcases step_dir_old h hq with hold | ⟨t, ht, _⟩
    · exact hold
    · exact absurd ht (hc t)
  · exact step_dir h

def SameDirs (fs fs' : FileTree) : Prop :=
  forall q, fs'.node q = some Node.dir <-> fs.node q = some Node.dir

theorem SameDirs.refl (fs : FileTree) : SameDirs fs fs := fun _ => Iff.rfl

theorem SameDirs.trans {fs1 : FileTree} (h : SameDirs fs fs1)
    (h' : SameDirs fs1 fs') : SameDirs fs fs' :=
  fun q => (h' q).trans (h q)

theorem step_sameDirs {allow : Policy} {c : Call} {r : Call.Ret c}
    (h : (system allow).machine.Step fs c r fs')
    (hc : forall t, c ≠ Call.makedirs t) : SameDirs fs fs' :=
  fun _ => step_dir_iff h hc

section Runs

variable {allow : Policy} {err α : Type} {p : Prog calls err α}
  {trace : List (Sigma calls.Ret)} {o : Except err α} {q : Path}

theorem runs_dir (hrun : (system allow).machine.Runs fs p trace o fs')
    (hq : fs.node q = some Node.dir) : fs'.node q = some Node.dir := by
  induction hrun with
  | done s a => exact hq
  | raise s e => exact hq
  | call hstep _ ih => exact ih (step_dir hstep hq)

/-- A directory that is there after a run was there before, or lies on the way
of one of its `makedirs` calls. -/
theorem runs_dir_old (hrun : (system allow).machine.Runs fs p trace o fs')
    (hq : fs'.node q = some Node.dir) :
    fs.node q = some Node.dir ∨
      exists t r, ⟨Call.makedirs t, r⟩ ∈ trace ∧ q <+: resolve t := by
  induction hrun with
  | done s a => exact Or.inl hq
  | raise s e => exact Or.inl hq
  | call hstep _ ih =>
      rcases ih hq with hold | ⟨t, r, hmem, hway⟩
      · rcases step_dir_old hstep hold with hfirst | ⟨t, rfl, hway⟩
        · exact Or.inl hfirst
        · exact Or.inr ⟨t, _, List.mem_cons_self, hway⟩
      · exact Or.inr ⟨t, r, List.mem_cons_of_mem _ hmem, hway⟩

end Runs

/-!
## Steps without faults
-/

section Steps

theorem step_made {allow : Policy} {t : Text} (hroot : fs.node [] = some Node.dir)
    (h : (system allow).machine.Step fs (Call.makedirs t) (Except.ok ()) fs') :
    fs'.node (resolve t) = some Node.dir := by
  rcases h with ⟨ch, _, hexec⟩
  rcases exec_makedirs hexec with ⟨_, hno, _⟩ | ⟨limit, rfl, hway, hlimit⟩
  · cases hno
  · rw [hlimit rfl]
    exact node_mkdirs_made hroot (fun q i _ hq => hway q i hq) (Nat.le_refl _)
      (resolve t) (List.nil_prefix) List.prefix_rfl

theorem step_unmade {t : Text} {n : Errno}
    (h : (system noFault).machine.Step fs (Call.makedirs t) (Except.error n)
      fs') : exists q, q <+: resolve t ∧ fs.isFile q = true := by
  rcases h with ⟨ch, ⟨hfault, _⟩, hexec⟩
  rcases makedirs_error hfault hexec with ⟨q, i, hway, hfile⟩
  exact ⟨q, hway, isFile_iff.mpr ⟨i, hfile⟩⟩

theorem missing_ne_full {p : Path} : fs.missing p ≠ Errno.ENOSPC := by
  unfold missing
  split
  · decide
  · decide

theorem step_unmade_errno {t : Text} {n : Errno}
    (h : (system noFault).machine.Step fs (Call.makedirs t) (Except.error n)
      fs') : n ≠ Errno.ENOSPC := by
  rcases h with ⟨ch, ⟨hfault, _⟩, hexec⟩
  have hfault : ch.fault = none := hfault
  simp only [system, exec, makedirsAt, hfault] at hexec
  split at hexec
  · cases hexec
    decide
  · split at hexec
    · cases hexec
      decide
    · cases hexec

theorem step_unrenamed_errno {src dst : Text} {n : Errno}
    (h : (system noFault).machine.Step fs (Call.rename src dst)
      (Except.error n) fs') : n ≠ Errno.ENOSPC := by
  rcases h with ⟨ch, ⟨hfault, _⟩, hexec⟩
  have hfault : ch.fault = none := hfault
  simp only [system, exec, renameTo, hfault] at hexec
  split at hexec
  · cases hexec
    exact missing_ne_full
  · cases hexec
    decide
  · split at hexec
    · cases hexec
      decide
    · split at hexec
      · cases hexec
      · cases hexec
        exact missing_ne_full

theorem step_unopened {t : Text} {n : Errno}
    (h : (system noFault).machine.Step fs (Call.openWrite t) (Except.error n)
      fs') :
    fs.node (resolve t) = some Node.dir ∨
      fs.node (resolve t).dropLast ≠ some Node.dir := by
  rcases h with ⟨ch, ⟨hfault, _⟩, hexec⟩
  exact openWrite_error hfault hexec

theorem step_opened {allow : Policy} {t : Text} {fd : Nat}
    (h : (system allow).machine.Step fs (Call.openWrite t) (Except.ok fd) fs') :
    fs'.handles fd ≠ none := by
  rcases h with ⟨ch, _, hexec⟩
  rcases exec_openWrite hexec with
    ⟨_, hno, _⟩ | ⟨i, _, hfd, rfl⟩ | ⟨_, _, hfd, rfl⟩
  · cases hno
  · cases hfd
    simp [FileTree.openHandle, FileTree.setInode]
  · cases hfd
    simp [FileTree.openHandle, FileTree.create]

theorem step_write {fd : Nat} {chunk : Bytes} {r : Except Errno Unit}
    (h : (system noFault).machine.Step fs (Call.write fd chunk) r fs')
    (hfd : fs.handles fd ≠ none) : r = Except.ok () := by
  rcases h with ⟨ch, ⟨hfault, _⟩, hexec⟩
  rcases exec_write hexec with ⟨hnone, _⟩ | ⟨x, _, _, hok⟩
  · exact absurd hnone hfd
  · exact hok hfault

theorem step_flush {fd : Nat} {r : Except Errno Unit}
    (h : (system noFault).machine.Step fs (Call.flush fd) r fs')
    (hfd : fs.handles fd ≠ none) : r = Except.ok () := by
  rcases h with ⟨ch, ⟨hfault, _⟩, hexec⟩
  rcases exec_flush hexec with ⟨hnone, _⟩ | ⟨x, _, _, _, _, hok⟩
  · exact absurd hnone hfd
  · exact hok hfault

theorem step_fsync {fd : Nat} {r : Except Errno Unit}
    (h : (system noFault).machine.Step fs (Call.fsync fd) r fs')
    (hfd : fs.handles fd ≠ none) : r = Except.ok () := by
  rcases h with ⟨ch, ⟨hfault, _⟩, hexec⟩
  rcases Option.ne_none_iff_exists'.mp hfd with ⟨x, hx⟩
  have hfault : ch.fault = none := hfault
  simp only [system, exec, fsyncTo, hx, hfault] at hexec
  exact (Prod.mk.inj hexec).left.symm

theorem step_written_open {allow : Policy} {fd : Nat} {chunk : Bytes}
    {r : Except Errno Unit}
    (h : (system allow).machine.Step fs (Call.write fd chunk) r fs')
    (hfd : fs.handles fd ≠ none) : fs'.handles fd ≠ none := by
  rcases h with ⟨ch, _, hexec⟩
  rcases exec_write hexec with ⟨hnone, _⟩ | ⟨x, _, rfl, _⟩
  · exact absurd hnone hfd
  · simp [drain, setHandle]

theorem step_flushed_open {allow : Policy} {fd : Nat} {r : Except Errno Unit}
    (h : (system allow).machine.Step fs (Call.flush fd) r fs')
    (hfd : fs.handles fd ≠ none) : fs'.handles fd ≠ none := by
  rcases h with ⟨ch, _, hexec⟩
  rcases exec_flush hexec with ⟨hnone, _⟩ | ⟨x, _, _, rfl, _⟩
  · exact absurd hnone hfd
  · simp [drain, setHandle]

theorem step_close {fd : Nat} {r : Except Errno Unit}
    (h : (system noFault).machine.Step fs (Call.close fd) r fs') :
    r = Except.ok () := by
  rcases h with ⟨ch, ⟨hfault, _⟩, hexec⟩
  rcases exec_close hexec with ⟨_, hok, _⟩ | ⟨x, k, _, _, _, hok⟩
  · exact hok
  · exact hok hfault

theorem step_unrenamed {src dst : Text} {n : Errno}
    (h : (system noFault).machine.Step fs (Call.rename src dst)
      (Except.error n) fs') (hsrc : fs.isFile (resolve src) = true) :
    fs.node (resolve dst) = some Node.dir ∨
      fs.node (resolve dst).dropLast ≠ some Node.dir := by
  rcases h with ⟨ch, ⟨hfault, _⟩, hexec⟩
  rcases isFile_iff.mp hsrc with ⟨i, hi⟩
  exact rename_error hfault hi hexec

theorem step_renamed {allow : Policy} {src dst : Text}
    (h : (system allow).machine.Step fs (Call.rename src dst) (Except.ok ())
      fs') :
    fs.node (resolve dst) ≠ some Node.dir ∧
      fs.node (resolve dst).dropLast = some Node.dir ∧
      fs'.isFile (resolve dst) = true := by
  rcases h with ⟨ch, _, hexec⟩
  rcases exec_rename hexec with ⟨_, hno, _⟩ | ⟨i, _, _, hdst, hparent, rfl⟩
  · cases hno
  · exact ⟨hdst, hparent, isFile_iff.mpr ⟨i, node_link_self _ _ _⟩⟩

end Steps

end Posix
