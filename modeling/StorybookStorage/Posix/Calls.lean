import StorybookStorage.Posix.Soundness

/-!
# What one call can do

One inversion lemma for each call that changes the tree, listing everything it
may have done.  Later proofs read these instead of unfolding `exec`.
-/

namespace Posix

open Effects Python FileTree

/-- Calls that only look. -/
def Call.Quiet : Call -> Prop
  | Call.time => True
  | Call.pathExists _ => True
  | Call.isfile _ => True
  | Call.isdir _ => True
  | Call.stat _ => True
  | Call.getmtime _ => True
  | Call.listdir _ => True
  | Call.walk _ => True
  | Call.fsync _ => True
  | _ => False

variable {ch : Choice} {fs fs' : FileTree}

theorem exec_quiet {c : Call} {r : Call.Ret c} (h : c.Quiet)
    (hexec : exec ch c fs = (r, fs')) : fs' = fs := by
  have hsame : (exec ch c fs).2 = fs := by
    cases c <;> first | rfl | exact absurd h id
  rw [hexec] at hsame
  exact hsame

theorem exec_uuid4 {r : Text} (h : exec ch Call.uuid4 fs = (r, fs')) :
    r = ch.token ∧ fs'.tokens = ch.token :: fs.tokens ∧
      fs'.entries = fs.entries ∧ fs'.inodes = fs.inodes ∧
      fs'.nextIno = fs.nextIno ∧ fs'.handles = fs.handles ∧
      fs'.nextFd = fs.nextFd := by
  cases h
  exact ⟨rfl, rfl, rfl, rfl, rfl, rfl, rfl⟩

theorem exec_openWrite {t : Text} {r : Except Errno Nat}
    (h : exec ch (Call.openWrite t) fs = (r, fs')) :
    (exists e, r = Except.error e ∧ fs' = fs) ∨
      (exists i, fs.node (resolve t) = some (Node.file i) ∧
        r = Except.ok fs.nextFd ∧
        fs' = (fs.setInode i { data := [], mtime := ch.now }).openHandle
          { ino := i, pos := 0, pending := [] }) ∨
      (fs.node (resolve t) = none ∧
        fs.node (resolve t).dropLast = some Node.dir ∧
        r = Except.ok fs.nextFd ∧
        fs' = (fs.create (resolve t) ch.now).openHandle
          { ino := fs.nextIno, pos := 0, pending := [] }) := by
  simp only [exec, openWriteAt] at h
  split at h
  · cases h
    exact Or.inl ⟨_, rfl, rfl⟩
  · split at h
    · cases h
      exact Or.inl ⟨_, rfl, rfl⟩
    · rename_i i hnode
      cases h
      exact Or.inr (Or.inl ⟨i, hnode, rfl, rfl⟩)
    · rename_i hnode
      split at h
      · rename_i hparent
        cases h
        exact Or.inr (Or.inr ⟨hnode, hparent, rfl, rfl⟩)
      · cases h
        exact Or.inl ⟨_, rfl, rfl⟩

theorem exec_openRead {t : Text} {r : Except Errno Nat}
    (h : exec ch (Call.openRead t) fs = (r, fs')) :
    (exists e, r = Except.error e ∧ fs' = fs) ∨
      (exists i, fs.node (resolve t) = some (Node.file i) ∧
        r = Except.ok fs.nextFd ∧
        fs' = fs.openHandle { ino := i, pos := 0, pending := [] }) := by
  simp only [exec, openReadAt] at h
  split at h
  · cases h
    exact Or.inl ⟨_, rfl, rfl⟩
  · split at h
    · cases h
      exact Or.inl ⟨_, rfl, rfl⟩
    · cases h
      exact Or.inl ⟨_, rfl, rfl⟩
    · rename_i i hnode
      cases h
      exact Or.inr ⟨i, hnode, rfl, rfl⟩

theorem exec_write {fd : Nat} {chunk : Bytes} {r : Except Errno Unit}
    (h : exec ch (Call.write fd chunk) fs = (r, fs')) :
    (fs.handles fd = none ∧ r = Except.error Errno.EBADF ∧ fs' = fs) ∨
      (exists x, fs.handles fd = some x ∧
        fs' = fs.drain fd
          { ino := x.ino, pos := x.pos, pending := x.pending ++ chunk }
          ch.amount ch.now ∧
        (ch.fault = none -> r = Except.ok ())) := by
  simp only [exec, writeTo] at h
  split at h
  · rename_i hnone
    cases h
    exact Or.inl ⟨hnone, rfl, rfl⟩
  · rename_i x hx
    cases h
    refine Or.inr ⟨x, hx, rfl, ?_⟩
    intro hf
    rw [hf]

theorem exec_flush {fd : Nat} {r : Except Errno Unit}
    (h : exec ch (Call.flush fd) fs = (r, fs')) :
    (fs.handles fd = none ∧ r = Except.error Errno.EBADF ∧ fs' = fs) ∨
      (exists x n, fs.handles fd = some x ∧
        fs' = fs.drain fd x n ch.now ∧
        (r = Except.ok () -> n = x.pending.length) ∧
        (ch.fault = none -> r = Except.ok ())) := by
  simp only [exec, flushTo] at h
  split at h
  · rename_i hnone
    cases h
    exact Or.inl ⟨hnone, rfl, rfl⟩
  · rename_i x hx
    split at h
    · rename_i e hf
      cases h
      refine Or.inr ⟨x, _, hx, rfl, ?_, ?_⟩
      · intro hr
        cases hr
      · intro hnf
        rw [hf] at hnf
        cases hnf
    · cases h
      exact Or.inr ⟨x, _, hx, rfl, fun _ => rfl, fun _ => rfl⟩

theorem exec_close {fd : Nat} {r : Except Errno Unit}
    (h : exec ch (Call.close fd) fs = (r, fs')) :
    (fs.handles fd = none ∧ r = Except.ok () ∧ fs' = fs) ∨
      (exists x n, fs.handles fd = some x ∧
        fs' = (fs.drain fd x n ch.now).setHandle fd none ∧
        (r = Except.ok () -> n = x.pending.length) ∧
        (ch.fault = none -> r = Except.ok ())) := by
  simp only [exec, closeFd] at h
  split at h
  · rename_i hnone
    cases h
    exact Or.inl ⟨hnone, rfl, rfl⟩
  · rename_i x hx
    split at h
    · rename_i e hf
      cases h
      refine Or.inr ⟨x, _, hx, rfl, ?_, ?_⟩
      · intro hr
        cases hr
      · intro hnf
        rw [hf] at hnf
        cases hnf
    · cases h
      exact Or.inr ⟨x, _, hx, rfl, fun _ => rfl, fun _ => rfl⟩

theorem exec_read {fd : Nat} {limit : Option Nat} {r : Except Errno Bytes}
    (h : exec ch (Call.read fd limit) fs = (r, fs')) :
    (exists e, r = Except.error e ∧ fs' = fs) ∨
      (exists x got, fs.handles fd = some x ∧ r = Except.ok got ∧
        got = upTo limit ((fs.inodes x.ino).data.drop x.pos) ∧
        fs' = fs.setHandle fd
          (some
            { ino := x.ino
              pos := x.pos + got.length
              pending := x.pending })) := by
  simp only [exec, readFrom] at h
  split at h
  · cases h
    exact Or.inl ⟨_, rfl, rfl⟩
  · rename_i x hx
    split at h
    · cases h
      exact Or.inl ⟨_, rfl, rfl⟩
    · cases h
      exact Or.inr ⟨x, _, hx, rfl, rfl, rfl⟩

theorem isFile_iff {fs : FileTree} {q : Path} :
    fs.isFile q = true <-> exists i, fs.node q = some (Node.file i) := by
  unfold isFile content
  constructor
  · intro h
    split at h
    · rename_i i hi
      exact ⟨i, hi⟩
    · cases h
  · intro h
    rcases h with ⟨i, hi⟩
    rw [hi]
    rfl

theorem isDir_iff {fs : FileTree} {q : Path} :
    fs.isDir q = true <-> fs.node q = some Node.dir := by
  simp [isDir]

theorem node_none_iff {fs : FileTree} {q : Path} :
    fs.node q = none <-> fs.node q ≠ some Node.dir ∧ fs.isFile q = false := by
  unfold isFile content
  cases fs.node q with
  | none => simp
  | some n => cases n <;> simp

theorem not_isFile {p : Path} (h : fs.isFile p = false) (i : Nat) :
    fs.node p ≠ some (Node.file i) := by
  intro hnode
  simp [isFile, content, hnode] at h

theorem exec_makedirs {t : Text} {r : Except Errno Unit}
    (h : exec ch (Call.makedirs t) fs = (r, fs')) :
    (exists e, r = Except.error e ∧ fs' = fs) ∨
      (exists limit, fs' = fs.mkdirs [] (resolve t) limit ∧
        (forall q i, q <+: resolve t -> fs.node q ≠ some (Node.file i)) ∧
        (r = Except.ok () -> limit = (resolve t).length)) := by
  simp only [exec, makedirsAt] at h
  split at h
  · cases h
    exact Or.inl ⟨_, rfl, rfl⟩
  · split at h
    · cases h
      exact Or.inl ⟨_, rfl, rfl⟩
    · rename_i hclear
      have hway : forall q i, q <+: resolve t ->
          fs.node q ≠ some (Node.file i) := by
        intro q i hq
        apply not_isFile
        simp only [List.any_eq_true, not_exists, not_and] at hclear
        simpa using hclear q ((List.mem_inits q (resolve t)).mpr hq)
      split at h
      · cases h
        refine Or.inr ⟨_, rfl, hway, ?_⟩
        intro hr
        cases hr
      · cases h
        exact Or.inr ⟨_, rfl, hway, fun _ => rfl⟩

theorem exec_rename {src dst : Text} {r : Except Errno Unit}
    (h : exec ch (Call.rename src dst) fs = (r, fs')) :
    (exists e, r = Except.error e ∧ fs' = fs) ∨
      (exists i, r = Except.ok () ∧
        fs.node (resolve src) = some (Node.file i) ∧
        fs.node (resolve dst) ≠ some Node.dir ∧
        fs.node (resolve dst).dropLast = some Node.dir ∧
        fs' = (fs.unlink (resolve src)).link (resolve dst) (Node.file i)) := by
  simp only [exec, renameTo] at h
  split at h
  · cases h
    exact Or.inl ⟨_, rfl, rfl⟩
  · split at h
    · cases h
      exact Or.inl ⟨_, rfl, rfl⟩
    · cases h
      exact Or.inl ⟨_, rfl, rfl⟩
    · rename_i i hnode
      split at h
      · cases h
        exact Or.inl ⟨_, rfl, rfl⟩
      · rename_i hdir
        split at h
        · rename_i hparent
          cases h
          exact Or.inr ⟨i, rfl, hnode, by simpa [isDir] using hdir,
            by simpa [isDir] using hparent, rfl⟩
        · cases h
          exact Or.inl ⟨_, rfl, rfl⟩

theorem exec_remove {t : Text} {r : Except Errno Unit}
    (h : exec ch (Call.remove t) fs = (r, fs')) :
    (exists e, r = Except.error e ∧ fs' = fs) ∨
      (exists i, r = Except.ok () ∧
        fs.node (resolve t) = some (Node.file i) ∧
        fs' = fs.unlink (resolve t)) := by
  simp only [exec, removeAt] at h
  split at h
  · cases h
    exact Or.inl ⟨_, rfl, rfl⟩
  · split at h
    · cases h
      exact Or.inl ⟨_, rfl, rfl⟩
    · cases h
      exact Or.inl ⟨_, rfl, rfl⟩
    · rename_i i hnode
      cases h
      exact Or.inr ⟨i, rfl, hnode, rfl⟩

/-!
## Failures without a device error
-/

theorem stat_error {t : Text} {e : Errno} (hf : ch.fault = none)
    (h : exec ch (Call.stat t) fs = (Except.error e, fs')) :
    fs.node (resolve t) = none := by
  simp only [exec, statAt, hf] at h
  split at h
  · assumption
  · cases h
  · cases h

theorem openWrite_error {t : Text} {e : Errno} (hf : ch.fault = none)
    (h : exec ch (Call.openWrite t) fs = (Except.error e, fs')) :
    fs.node (resolve t) = some Node.dir ∨
      fs.node (resolve t).dropLast ≠ some Node.dir := by
  simp only [exec, openWriteAt, hf] at h
  split at h
  · exact Or.inl (by assumption)
  · cases h
  · split at h
    · cases h
    · exact Or.inr (by assumption)

theorem openRead_error {t : Text} {e : Errno} (hf : ch.fault = none)
    (h : exec ch (Call.openRead t) fs = (Except.error e, fs')) (i : Nat) :
    fs.node (resolve t) ≠ some (Node.file i) := by
  intro hnode
  simp only [exec, openReadAt, hf, hnode] at h
  cases h

theorem read_error {fd : Nat} {limit : Option Nat} {e : Errno}
    (hf : ch.fault = none)
    (h : exec ch (Call.read fd limit) fs = (Except.error e, fs')) :
    fs.handles fd = none := by
  simp only [exec, readFrom, hf] at h
  split at h
  · assumption
  · cases h

theorem fsync_error {fd : Nat} {e : Errno} (hf : ch.fault = none)
    (h : exec ch (Call.fsync fd) fs = (Except.error e, fs')) :
    fs.handles fd = none := by
  simp only [exec, fsyncTo, hf] at h
  split at h
  · assumption
  · cases h

theorem makedirs_error {t : Text} {e : Errno} (hf : ch.fault = none)
    (h : exec ch (Call.makedirs t) fs = (Except.error e, fs')) :
    exists q i, q <+: resolve t ∧ fs.node q = some (Node.file i) := by
  simp only [exec, makedirsAt, hf] at h
  split at h
  · rename_i hself
    rcases isFile_iff.mp hself with ⟨i, hi⟩
    exact ⟨_, i, List.prefix_rfl, hi⟩
  · split at h
    · rename_i hway
      rcases List.any_eq_true.mp hway with ⟨q, hq, hqfile⟩
      rcases isFile_iff.mp hqfile with ⟨i, hi⟩
      exact ⟨q, i, (List.mem_inits q _).mp hq, hi⟩
    · cases h

theorem rename_error {src dst : Text} {e : Errno} {i : Nat}
    (hf : ch.fault = none) (hsrc : fs.node (resolve src) = some (Node.file i))
    (h : exec ch (Call.rename src dst) fs = (Except.error e, fs')) :
    fs.node (resolve dst) = some Node.dir ∨
      fs.node (resolve dst).dropLast ≠ some Node.dir := by
  simp only [exec, renameTo, hf, hsrc] at h
  split at h
  · rename_i hdir
    exact Or.inl (by simpa [isDir] using hdir)
  · split at h
    · cases h
    · rename_i hparent
      exact Or.inr (by simpa [isDir] using hparent)

theorem remove_error {t : Text} {e : Errno} (hf : ch.fault = none)
    (h : exec ch (Call.remove t) fs = (Except.error e, fs')) (i : Nat) :
    fs.node (resolve t) ≠ some (Node.file i) := by
  intro hnode
  simp only [exec, removeAt, hf, hnode] at h
  cases h

/-!
## Soundness is kept by every call
-/

theorem sound_of_fields_eq (h : fs.Sound)
    (hentries : fs'.entries = fs.entries) (hino : fs'.nextIno = fs.nextIno)
    (hhandles : fs'.handles = fs.handles) (hfd : fs'.nextFd = fs.nextFd) :
    fs'.Sound := by
  have hnode : forall p, fs'.node p = fs.node p := by
    intro p
    unfold node
    rw [hentries]
  exact
    { root := by rw [hnode]; exact h.root
      parent := by
        intro p hp hsome
        rw [hnode] at hsome ⊢
        exact h.parent p hp hsome
      inj := by
        intro p q i hp hq
        rw [hnode] at hp hq
        exact h.inj p q i hp hq
      bound := by
        intro p i hp
        rw [hnode] at hp
        rw [hino]
        exact h.bound p i hp
      handle := by
        intro fd x hx
        rw [hhandles] at hx
        rw [hino, hfd]
        exact h.handle fd x hx }

theorem exec_sound {c : Call} {r : Call.Ret c} (h : fs.Sound)
    (hexec : exec ch c fs = (r, fs')) : fs'.Sound := by
  cases c with
  | uuid4 =>
      rcases exec_uuid4 hexec with ⟨_, _, hentries, _, hino, hhandles, hfd⟩
      exact sound_of_fields_eq h hentries hino hhandles hfd
  | time =>
      cases hexec
      exact h
  | pathExists p =>
      cases hexec
      exact h
  | isfile p =>
      cases hexec
      exact h
  | isdir p =>
      cases hexec
      exact h
  | stat p =>
      cases hexec
      exact h
  | getmtime p =>
      cases hexec
      exact h
  | listdir p =>
      cases hexec
      exact h
  | walk p =>
      cases hexec
      exact h
  | fsync fd =>
      cases hexec
      exact h
  | openWrite p =>
      rcases exec_openWrite hexec with
        ⟨_, _, hfs⟩ | ⟨i, hnode, _, hfs⟩ | ⟨hnone, hparent, _, hfs⟩
      · rw [hfs]
        exact h
      · rw [hfs]
        exact (h.setInode i _).openHandle (h.bound _ _ hnode)
      · rw [hfs]
        exact (h.create _ hparent hnone).openHandle (Nat.lt_succ_self _)
  | openRead p =>
      rcases exec_openRead hexec with
        ⟨_, _, hfs⟩ | ⟨i, hnode, _, hfs⟩
      · rw [hfs]
        exact h
      · rw [hfs]
        exact h.openHandle (h.bound _ _ hnode)
  | write fd chunk =>
      rcases exec_write hexec with
        ⟨_, _, hfs⟩ | ⟨x, hx, hfs, _⟩
      · rw [hfs]
        exact h
      · rw [hfs]
        refine h.drain ?_ _ _
        exact h.handle fd x hx
  | flush fd =>
      rcases exec_flush hexec with
        ⟨_, _, hfs⟩ | ⟨x, n, hx, hfs, _⟩
      · rw [hfs]
        exact h
      · rw [hfs]
        exact h.drain (h.handle fd x hx) _ _
  | close fd =>
      rcases exec_close hexec with
        ⟨_, _, hfs⟩ | ⟨x, n, hx, hfs, _⟩
      · rw [hfs]
        exact h
      · rw [hfs]
        apply (h.drain (h.handle fd x hx) _ _).setHandle
        intro y hy
        cases hy
  | read fd limit =>
      rcases exec_read hexec with
        ⟨_, _, hfs⟩ | ⟨x, got, hx, _, _, hfs⟩
      · rw [hfs]
        exact h
      · rw [hfs]
        apply h.setHandle
        intro y hy
        rw [← Option.some.inj hy]
        exact h.handle fd x hx
  | makedirs p =>
      rcases exec_makedirs hexec with
        ⟨_, _, hfs⟩ | ⟨limit, hfs, hway, _⟩
      · rw [hfs]
        exact h
      · rw [hfs]
        exact h.mkdirs h.root (fun q i _ hq => hway q i hq)
  | rename src dst =>
      rcases exec_rename hexec with
        ⟨_, _, hfs⟩ | ⟨i, _, hsrc, hdst, hparent, hfs⟩
      · rw [hfs]
        exact h
      · rw [hfs]
        exact h.move hsrc hdst hparent
  | remove p =>
      rcases exec_remove hexec with
        ⟨_, _, hfs⟩ | ⟨i, _, hnode, hfs⟩
      · rw [hfs]
        exact h
      · rw [hfs]
        apply h.unlink
        rw [hnode]
        simp

theorem runs_sound {allow : Policy} {err α : Type} {p : Prog calls err α}
    {trace : List (Sigma calls.Ret)} {o : Except err α} (h : fs.Sound)
    (hrun : (system allow).machine.Runs fs p trace o fs') : fs'.Sound := by
  induction hrun with
  | done s a => exact h
  | raise s e => exact h
  | call hstep _ ih =>
      rcases hstep with ⟨ch, _, hexec⟩
      exact ih (exec_sound h hexec)

/-- No call takes a directory away. -/
theorem exec_dir {c : Call} {r : Call.Ret c} {q : Path}
    (hexec : exec ch c fs = (r, fs')) (hq : fs.node q = some Node.dir) :
    fs'.node q = some Node.dir := by
  have hquiet : c.Quiet -> fs'.node q = some Node.dir := by
    intro hc
    rw [exec_quiet hc hexec, hq]
  have hentries : fs'.entries = fs.entries -> fs'.node q = some Node.dir := by
    intro hsame
    unfold node
    rw [hsame]
    exact hq
  cases c with
  | uuid4 =>
      rcases exec_uuid4 hexec with ⟨_, _, hsame, _⟩
      exact hentries hsame
  | openWrite t =>
      rcases exec_openWrite hexec with
        ⟨_, _, rfl⟩ | ⟨i, _, _, rfl⟩ | ⟨hnone, _, _, rfl⟩
      · exact hq
      · exact hentries rfl
      · have hne : q ≠ resolve t := by
          intro heq
          subst heq
          rw [hnone] at hq
          cases hq
        exact (node_create_ne fs ch.now hne).trans hq
  | openRead t =>
      rcases exec_openRead hexec with ⟨_, _, rfl⟩ | ⟨i, _, _, rfl⟩
      · exact hq
      · exact hentries rfl
  | write fd chunk =>
      rcases exec_write hexec with ⟨_, _, rfl⟩ | ⟨x, _, rfl, _⟩
      · exact hq
      · exact hentries rfl
  | flush fd =>
      rcases exec_flush hexec with ⟨_, _, rfl⟩ | ⟨x, n, _, rfl, _⟩
      · exact hq
      · exact hentries rfl
  | close fd =>
      rcases exec_close hexec with ⟨_, _, rfl⟩ | ⟨x, n, _, rfl, _⟩
      · exact hq
      · exact hentries rfl
  | read fd limit =>
      rcases exec_read hexec with ⟨_, _, rfl⟩ | ⟨x, got, _, _, _, rfl⟩
      · exact hq
      · exact hentries rfl
  | makedirs t =>
      rcases exec_makedirs hexec with ⟨_, _, rfl⟩ | ⟨limit, rfl, _, _⟩
      · exact hq
      · exact node_mkdirs_of_some hq
  | rename src dst =>
      rcases exec_rename hexec with ⟨_, _, rfl⟩ | ⟨i, _, hsrc, hdst, _, rfl⟩
      · exact hq
      · have hnesrc : q ≠ resolve src := by
          intro heq
          subst heq
          rw [hsrc] at hq
          cases hq
        have hnedst : q ≠ resolve dst := by
          intro heq
          subst heq
          exact hdst hq
        rw [node_link_ne _ _ hnedst, node_unlink_ne fs hnesrc]
        exact hq
  | remove t =>
      rcases exec_remove hexec with ⟨_, _, rfl⟩ | ⟨i, _, hnode, rfl⟩
      · exact hq
      · have hne : q ≠ resolve t := by
          intro heq
          subst heq
          rw [hnode] at hq
          cases hq
        rw [node_unlink_ne fs hne]
        exact hq
  | _ => exact hquiet trivial

end Posix
