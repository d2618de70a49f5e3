import StorybookStorage.Posix.Calls

/-!
# Numbers are never used twice

Inode numbers and descriptors only grow, and an open descriptor keeps its
inode.  What a program opened stays its own whatever runs beside it.
-/

namespace Posix

open Effects Python FileTree

structure Grows (fs fs' : FileTree) : Prop where
  nextIno : fs.nextIno ≤ fs'.nextIno
  nextFd : fs.nextFd ≤ fs'.nextFd
  handle : forall fd x', fd < fs.nextFd -> fs'.handles fd = some x' ->
    exists x, fs.handles fd = some x ∧ x.ino = x'.ino

variable {fs fs1 fs' : FileTree}

theorem Grows.refl (fs : FileTree) : Grows fs fs where
  nextIno := Nat.le_refl _
  nextFd := Nat.le_refl _
  handle := fun _ x' _ hx' => ⟨x', hx', rfl⟩

theorem Grows.trans (h : Grows fs fs1) (h' : Grows fs1 fs') : Grows fs fs' where
  nextIno := Nat.le_trans h.nextIno h'.nextIno
  nextFd := Nat.le_trans h.nextFd h'.nextFd
  handle := by
    intro fd x' hfd hx'
    rcases h'.handle fd x' (Nat.lt_of_lt_of_le hfd h.nextFd) hx' with
      ⟨x1, hx1, hino1⟩
    rcases h.handle fd x1 hfd hx1 with ⟨x, hx, hino⟩
    exact ⟨x, hx, hino.trans hino1⟩

theorem grows_of_fields (hino : fs'.nextIno = fs.nextIno)
    (hfd : fs'.nextFd = fs.nextFd) (hhandles : fs'.handles = fs.handles) :
    Grows fs fs' where
  nextIno := Nat.le_of_eq hino.symm
  nextFd := Nat.le_of_eq hfd.symm
  handle := by
    intro fd x' _ hx'
    rw [hhandles] at hx'
    exact ⟨x', hx', rfl⟩

theorem grows_openHandle (x : Handle) : Grows fs (fs.openHandle x) where
  nextIno := Nat.le_refl _
  nextFd := Nat.le_succ _
  handle := by
    intro fd x' hfd hx'
    refine ⟨x', ?_, rfl⟩
    simpa [FileTree.openHandle, Function.update_of_ne (Nat.ne_of_lt hfd)]
      using hx'

theorem grows_setHandle {fd : Nat} {x : Handle} {y : Option Handle}
    (hx : fs.handles fd = some x) (hy : forall z, y = some z -> x.ino = z.ino) :
    Grows fs (fs.setHandle fd y) where
  nextIno := Nat.le_refl _
  nextFd := Nat.le_refl _
  handle := by
    intro fd' x' _ hx'
    by_cases heq : fd' = fd
    · subst heq
      exact ⟨x, hx, hy x' (by simpa [FileTree.setHandle] using hx')⟩
    · refine ⟨x', ?_, rfl⟩
      simpa [FileTree.setHandle, Function.update_of_ne heq] using hx'

theorem grows_setInode (i : Nat) (n : Inode) : Grows fs (fs.setInode i n) :=
  grows_of_fields rfl rfl rfl

theorem grows_drain {fd n : Nat} {x y : Handle} {now : Rat}
    (hx : fs.handles fd = some x) (hino : x.ino = y.ino) :
    Grows fs (fs.drain fd y n now) := by
  apply (grows_setInode y.ino _).trans
  refine @grows_setHandle (fs.setInode y.ino _) fd x _ hx ?_
  intro z hz
  rw [← Option.some.inj hz]
  exact hino

theorem exec_grows {ch : Choice} {c : Call} {r : Call.Ret c}
    (hexec : exec ch c fs = (r, fs')) : Grows fs fs' := by
  have hquiet : c.Quiet -> Grows fs fs' := by
    intro hc
    rw [exec_quiet hc hexec]
    exact Grows.refl fs
  cases c with
  | uuid4 =>
      rcases exec_uuid4 hexec with ⟨_, _, _, _, hino, hhandles, hfd⟩
      exact grows_of_fields hino hfd hhandles
  | openWrite t =>
      rcases exec_openWrite hexec with
        ⟨_, _, rfl⟩ | ⟨j, _, _, rfl⟩ | ⟨_, _, _, rfl⟩
      · exact Grows.refl _
      · exact (grows_setInode j _).trans (grows_openHandle _)
      · have hcreate : Grows fs (fs.create (resolve t) ch.now) :=
          { nextIno := Nat.le_succ _
            nextFd := Nat.le_refl _
            handle := fun _ x' _ hx' => ⟨x', hx', rfl⟩ }
        exact hcreate.trans (grows_openHandle _)
  | openRead t =>
      rcases exec_openRead hexec with ⟨_, _, rfl⟩ | ⟨j, _, _, rfl⟩
      · exact Grows.refl _
      · exact grows_openHandle _
  | write fd chunk =>
      rcases exec_write hexec with ⟨_, _, rfl⟩ | ⟨x, hx, rfl, _⟩
      · exact Grows.refl _
      · exact grows_drain hx rfl
  | flush fd =>
      rcases exec_flush hexec with ⟨_, _, rfl⟩ | ⟨x, n, hx, rfl, _⟩
      · exact Grows.refl _
      · exact grows_drain hx rfl
  | close fd =>
      rcases exec_close hexec with ⟨_, _, rfl⟩ | ⟨x, n, hx, rfl, _⟩
      · exact Grows.refl _
      · apply (@grows_drain fs fd n x x ch.now hx rfl).trans
        refine @grows_setHandle (fs.drain fd x n ch.now) fd
          { ino := x.ino, pos := x.pos, pending := x.pending.drop n } none ?_ ?_
        · simp [FileTree.drain, FileTree.setHandle]
        · intro z hz
          cases hz
  | read fd limit =>
      rcases exec_read hexec with ⟨_, _, rfl⟩ | ⟨x, got, hx, _, _, rfl⟩
      · exact Grows.refl _
      · apply grows_setHandle hx
        intro z hz
        rw [← Option.some.inj hz]
  | makedirs t =>
      rcases exec_makedirs hexec with ⟨_, _, rfl⟩ | ⟨limit, rfl, _, _⟩
      · exact Grows.refl _
      · rcases mkdirs_handles fs [] (resolve t) limit with ⟨hhandles, hfd, _⟩
        exact grows_of_fields (mkdirs_nextIno fs [] (resolve t) limit) hfd
          hhandles
  | rename src dst =>
      rcases exec_rename hexec with ⟨_, _, rfl⟩ | ⟨j, _, _, _, _, rfl⟩
      · exact Grows.refl _
      · exact grows_of_fields rfl rfl rfl
  | remove t =>
      rcases exec_remove hexec with ⟨_, _, rfl⟩ | ⟨j, _, _, rfl⟩
      · exact Grows.refl _
      · exact grows_of_fields rfl rfl rfl
  | _ => exact hquiet trivial

theorem runs_grows {allow : Policy} {err α : Type} {p : Prog calls err α}
    {trace : List (Sigma calls.Ret)} {o : Except err α}
    (hrun : (system allow).machine.Runs fs p trace o fs') : Grows fs fs' := by
  induction hrun with
  | done s a => exact Grows.refl s
  | raise s e => exact Grows.refl s
  | call hstep _ ih =>
      rcases hstep with ⟨ch, _, hexec⟩
      exact (exec_grows hexec).trans ih

end Posix
