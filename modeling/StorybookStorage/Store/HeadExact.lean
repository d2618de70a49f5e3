import StorybookStorage.Drivers.Failures
import StorybookStorage.Drivers.Records
import StorybookStorage.Store.Operations
import StorybookStorage.Posix.Undisturbed

/-!
# Head as a function

Without faults `head` is a function of the object's inode and of the bytes of
the sidecar, and it changes no name and no inode.
-/

namespace StorybookStorage

open Python Posix Effects FileTree

variable {α : Type}

/-- Every call answers what `exec` computes, with one of the faults the policy
has for it. -/
theorem wp_choice {allow : Policy} {c : Call} {fs : FileTree}
    {Q : Except Exn (Call.Ret c) -> FileTree -> Prop}
    (h : forall ch, allow fs c ch.fault ->
      Q (Except.ok (exec ch c fs).1) (exec ch c fs).2) :
    (system allow).machine.wp (Prog.op (S := calls) c) Q fs := by
  refine ⟨trivial, ?_⟩
  intro r fs' hstep
  rcases hstep with ⟨ch, hlegal, hexec⟩
  have hstep : exec ch c fs = (r, fs') := hexec
  have hq := h ch hlegal.left
  rw [hstep] at hq
  exact hq

theorem wp_exact {c : Call} {fs : FileTree}
    {Q : Except Exn (Call.Ret c) -> FileTree -> Prop}
    (h : forall ch, ch.fault = none ->
      Q (Except.ok (exec ch c fs).1) (exec ch c fs).2) :
    (system noFault).machine.wp (Prog.op (S := calls) c) Q fs :=
  wp_choice h

theorem looking_runs {p : Io α} (h : p.Issues Looks) (fs : FileTree) :
    exists trace o fs', (system noFault).machine.Runs fs p trace o fs' := by
  refine Machine.runs_exist h ?_ fs
  intro fs c hlooks
  refine ⟨_, _, { fault := none, amount := 0, token := [], now := 0 },
    ⟨rfl, ?_⟩, rfl⟩
  intro heq
  subst heq
  exact absurd hlooks id

def fileInode (fs : FileTree) (p : Path) : Option Inode :=
  match fs.node p with
  | some (Node.file i) => some (fs.inodes i)
  | _ => none

theorem fileInode_data {fs : FileTree} {p : Path} :
    (fileInode fs p).map Inode.data = fs.content p := by
  unfold fileInode content
  cases fs.node p with
  | none => rfl
  | some n => cases n <;> rfl

def inodeStat (inode : Inode) : Stat where
  isFile := true
  size := inode.data.length
  mtime := inode.mtime

/-- The same names and inodes. -/
structure SameFiles (fs fs' : FileTree) : Prop where
  node : fs'.node = fs.node
  inodes : fs'.inodes = fs.inodes

theorem SameFiles.fileInode {fs fs' : FileTree} (h : SameFiles fs fs')
    (p : Path) : fileInode fs' p = fileInode fs p := by
  unfold StorybookStorage.fileInode
  rw [h.node, h.inodes]

theorem SameFiles.trans {fs fs1 fs' : FileTree} (h : SameFiles fs fs1)
    (h' : SameFiles fs1 fs') : SameFiles fs fs' where
  node := h'.node.trans h.node
  inodes := h'.inodes.trans h.inodes

section Rules

variable {fs : FileTree} {t : Text}

theorem wp_exact_stat {Q : Except Exn Stat -> FileTree -> Prop}
    (hfile : forall i, fs.node (resolve t) = some (Node.file i) ->
      Q (Except.ok (inodeStat (fs.inodes i))) fs)
    (hother : forall o, (forall i, fs.node (resolve t) ≠ some (Node.file i)) ->
      (exists st, o = Except.ok st) ∨ (exists n, o = Except.error (Exn.os n)) ->
      Q o fs) :
    (system noFault).machine.wp (Os.stat t) Q fs := by
  apply wp_raising
  apply wp_exact (c := Call.stat t)
  intro ch hfault
  simp only [exec, statAt, hfault]
  cases hnode : fs.node (resolve t) with
  | none => exact hother _ (by simp [hnode]) (Or.inr ⟨_, rfl⟩)
  | some n =>
      cases n with
      | dir => exact hother _ (by simp [hnode]) (Or.inl ⟨_, rfl⟩)
      | file i => exact hfile i hnode

theorem wp_exact_isfile {Q : Except Exn Bool -> FileTree -> Prop}
    (h : Q (Except.ok (fs.isFile (resolve t))) fs) :
    (system noFault).machine.wp (Os.isfile t) Q fs := by
  apply wp_exact (c := Call.isfile t)
  intro ch hfault
  simp only [exec, hfault, Option.isNone_none, Bool.true_and]
  exact h

theorem fileInode_of_file {p : Path} {i : Nat}
    (h : fs.node p = some (Node.file i)) : fileInode fs p = some (fs.inodes i) := by
  unfold fileInode
  rw [h]

theorem fileInode_of_not_file {p : Path}
    (h : forall i, fs.node p ≠ some (Node.file i)) : fileInode fs p = none := by
  unfold fileInode
  split
  · rename_i i hi
    exact absurd hi (h i)
  · rfl

theorem wp_exact_safeStat {Q : Except Exn (Option Stat) -> FileTree -> Prop}
    (h : Q (Except.ok ((fileInode fs (resolve t)).map inodeStat)) fs) :
    (system noFault).machine.wp (safeStat t) Q fs := by
  unfold safeStat
  rw [Machine.wp_tryCatch, Machine.wp_bind]
  apply wp_exact_stat
  · intro i hi
    rw [fileInode_of_file hi] at h
    show (system noFault).machine.wp (Os.isfile t >>= fun _ => _) _ _
    rw [Machine.wp_bind]
    apply wp_exact_isfile
    unfold isFile content
    rw [hi]
    exact h
  · intro o hno ho
    rw [fileInode_of_not_file hno] at h
    rcases ho with ⟨st, rfl⟩ | ⟨n, rfl⟩
    · show (system noFault).machine.wp (Os.isfile t >>= fun _ => _) _ _
      rw [Machine.wp_bind]
      apply wp_exact_isfile
      have hregular : fs.isFile (resolve t) = false := by
        unfold isFile content
        split
        · rename_i i hi
          exact absurd hi (hno i)
        · rfl
      rw [hregular]
      exact h
    · exact h

theorem wp_exact_readWhole {f : Bytes -> Io α} {r : Bytes -> Except Exn α}
    (hf : forall b, f b = Prog.ofExcept (r b))
    {Q : Except Exn α -> FileTree -> Prop}
    (hfile : forall inode fs', fileInode fs (resolve t) = some inode ->
      SameFiles fs fs' -> Q (r inode.data) fs')
    (hother : fileInode fs (resolve t) = none -> forall n,
      Q (Except.error (Exn.os n)) fs) :
    (system noFault).machine.wp
      (Os.openRead t >>= fun fh =>
        Prog.tryFinally (Os.read fh none >>= f) (Os.close fh)) Q fs := by
  rw [Machine.wp_bind]
  apply wp_raising
  apply wp_exact (c := Call.openRead t)
  intro ch hfault
  simp only [exec, openReadAt, hfault]
  cases hnode : fs.node (resolve t) with
  | none => exact hother (fileInode_of_not_file (by simp [hnode])) _
  | some n =>
      cases n with
      | dir => exact hother (fileInode_of_not_file (by simp [hnode])) _
      | file i =>
          dsimp only
          rw [Machine.wp_tryFinally, Machine.wp_bind]
          apply wp_raising
          apply wp_exact (c := Call.read fs.nextFd none)
          intro ch1 hfault1
          have hself : (fs.openHandle { ino := i, pos := 0, pending := [] }).handles
              fs.nextFd = some { ino := i, pos := 0, pending := [] } :=
            Function.update_self _ _ _
          simp only [exec, readFrom, hself, hfault1]
          rw [hf, Machine.wp_ofExcept]
          apply wp_raising
          apply wp_exact (c := Call.close fs.nextFd)
          intro ch2 hfault2
          simp only [exec, closeFd, FileTree.setHandle, Function.update_self,
            hfault2]
          refine hfile (fs.inodes i) _ (fileInode_of_file hnode) ⟨rfl, ?_⟩
          simp [FileTree.drain, FileTree.setInode, FileTree.openHandle,
            FileTree.setHandle]

end Rules

/-!
## The answer of head
-/

section Head

variable {settings : Settings} (d : LocalFsBlobDriver) (slot : Slot settings)

def sidecarValue : Option Bytes -> Except Exn (Option Json)
  | none => Except.ok none
  | some raw => readBack d raw

def fallbackEtag (inode : Inode) : Text :=
  if inode.data.length > etagFallbackMaxBytes then
    []
  else
    d.platform.sha256.digest inode.data

def infoOf (inode : Inode) : Option Json -> Except Exn ObjectInfo
  | some v =>
      d.infoOfSidecar slot.key (inodeStat inode)
        (d.platform.isoformat inode.mtime) v
  | none =>
      Except.ok
        (fallbackInfo d slot.key inode.data.length
          (d.platform.isoformat inode.mtime) (fallbackEtag d inode))

def headOf (object : Option Inode) (sidecar : Option Bytes) :
    Except Exn (Option ObjectInfo) :=
  match object with
  | none => Except.ok none
  | some inode =>
      match sidecarValue d sidecar with
      | Except.error e => Except.error e
      | Except.ok v => (infoOf d slot inode (v.filter Json.truthy)).map some

variable {d slot} {fs fs' : FileTree}

theorem content_eq_map {p : Path} :
    fs.content p = (fileInode fs p).map Inode.data := fileInode_data.symm

theorem wp_exact_readSidecar
    {Q : Except Exn (Option Json) -> FileTree -> Prop}
    (h : forall fs', SameFiles fs fs' ->
      Q (sidecarValue d (storedSidecar d slot fs)) fs') :
    (system noFault).machine.wp (d.readSidecar slot.bucket slot.key) Q fs := by
  have hplace : storedSidecar d slot fs =
      (fileInode fs (resolve (slot.sidecarText d.root))).map Inode.data := by
    rw [slot.resolve_sidecarText]
    exact content_eq_map
  rw [hplace] at h
  unfold LocalFsBlobDriver.readSidecar safeReadText
  rw [Machine.wp_tryCatch, slot.metaPath_ok]
  show (system noFault).machine.wp (Prog.tryCatch _ _ >>= fun _ => _) _ _
  rw [Machine.wp_bind, Machine.wp_tryCatch]
  apply wp_exact_readWhole (r := fun raw =>
    (decode raw).elim (Except.error Exn.unicodeDecodeError)
      (fun t => Except.ok (some t)))
  · intro raw
    cases decode raw <;> rfl
  · intro inode fs' hinode hsame
    have hq := h fs' hsame
    rw [hinode] at hq
    simp only [Option.map_some, sidecarValue, readBack] at hq
    cases hdecode : decode inode.data with
    | none =>
        rw [hdecode] at hq
        exact hq
    | some text =>
        rw [hdecode] at hq
        dsimp only [Option.elim] at hq ⊢
        cases hloads : d.platform.json.loads text with
        | ok v =>
            rw [hloads] at hq
            exact hq
        | error e =>
            rw [hloads] at hq
            exact hq
  · intro hnone n
    have hq := h fs ⟨rfl, rfl⟩
    rw [hnone] at hq
    cases n <;> exact hq

theorem wp_exact_etagFromFile {t : Text} {inode : Inode}
    {Q : Except Exn Text -> FileTree -> Prop}
    (hinode : fileInode fs (resolve t) = some inode)
    (h : forall fs', SameFiles fs fs' ->
      Q (Except.ok (fallbackEtag d inode)) fs') :
    (system noFault).machine.wp (d.etagFromFile t inode.data.length) Q fs := by
  unfold LocalFsBlobDriver.etagFromFile
  unfold fallbackEtag at h
  split
  · rename_i hbig
    rw [if_pos hbig] at h
    exact h fs ⟨rfl, rfl⟩
  · rename_i hsmall
    rw [if_neg hsmall] at h
    rw [Machine.wp_tryCatch]
    apply wp_exact_readWhole
      (r := fun b => Except.ok (d.platform.sha256.digest b))
    · intro b
      rfl
    · intro inode' fs' hinode' hsame
      rw [hinode] at hinode'
      cases hinode'
      exact h fs' hsame
    · intro hnone
      rw [hinode] at hnone
      cases hnone

theorem wp_exact_head {Q : Except Exn (Option ObjectInfo) -> FileTree -> Prop}
    (h : forall fs', SameFiles fs fs' ->
      Q (headOf d slot (fileInode fs (slot.objectLoc d.root))
        (storedSidecar d slot fs)) fs') :
    (system noFault).machine.wp (d.head slot.bucket slot.key) Q fs := by
  rw [← slot.resolve_objectText] at h
  unfold LocalFsBlobDriver.head
  rw [slot.objectPath_ok]
  show (system noFault).machine.wp (safeStat _ >>= fun _ => _) _ _
  rw [Machine.wp_bind]
  apply wp_exact_safeStat
  cases hobject : fileInode fs (resolve (slot.objectText d.root)) with
  | none =>
      rw [hobject] at h
      exact h fs ⟨rfl, rfl⟩
  | some inode =>
      rw [hobject] at h
      dsimp only [Option.map_some]
      rw [Machine.wp_bind]
      apply wp_exact_readSidecar
      intro fs1 hsame1
      unfold headOf at h
      dsimp only at h
      cases hside : sidecarValue d (storedSidecar d slot fs) with
      | error e =>
          rw [hside] at h
          exact h fs1 hsame1
      | ok v =>
          rw [hside] at h
          dsimp only at h ⊢
          cases hv : v.filter Json.truthy with
          | some j =>
              rw [hv] at h
              dsimp only
              rw [Machine.wp_bind, Machine.wp_ofExcept]
              have hq := h fs1 hsame1
              unfold infoOf at hq
              dsimp only at hq
              change Q (Except.map some
                (d.infoOfSidecar slot.key (inodeStat inode)
                  (d.platform.isoformat (inodeStat inode).mtime) j)) fs1 at hq
              cases hinfo : d.infoOfSidecar slot.key (inodeStat inode)
                  (d.platform.isoformat (inodeStat inode).mtime) j with
              | error e =>
                  rw [hinfo] at hq
                  exact hq
              | ok info =>
                  rw [hinfo] at hq
                  exact hq
          | none =>
              rw [hv] at h
              dsimp only
              rw [Machine.wp_bind]
              apply wp_exact_etagFromFile
              · rw [hsame1.fileInode, hobject]
              · intro fs2 hsame2
                exact h fs2 (hsame1.trans hsame2)

/-- `head` answers what `headOf` says. -/
theorem head_exact {trace : List (Sigma calls.Ret)}
    {o : Except Exn (Option ObjectInfo)}
    (hrun : (system noFault).machine.Runs fs (d.head slot.bucket slot.key) trace
      o fs') :
    o = headOf d slot (fileInode fs (slot.objectLoc d.root))
        (storedSidecar d slot fs) ∧ SameFiles fs fs' := by
  apply Machine.wp_sound (Q := fun o fs' =>
    o = headOf d slot (fileInode fs (slot.objectLoc d.root))
        (storedSidecar d slot fs) ∧ SameFiles fs fs') _ hrun
  apply wp_exact_head
  intro fs1 hsame
  exact ⟨rfl, hsame⟩

theorem exists_head (d : LocalFsBlobDriver) (slot : Slot settings)
    (fs : FileTree) : exists trace o fs',
      (system noFault).machine.Runs fs (d.head slot.bucket slot.key) trace o
        fs' :=
  looking_runs (head_looks d slot.bucket slot.key) fs

theorem headOf_record {inode : Inode} {record : SidecarRecord} :
    headOf d slot (some inode) (some (recordBytes d record)) =
      Except.ok (some (recordedInfo d slot.key
        (d.platform.isoformat inode.mtime) record)) := by
  unfold headOf sidecarValue infoOf
  dsimp only
  rw [readBack_recordBytes]
  dsimp only
  rw [Option.filter_some_pos (truthy_record record)]
  rfl

end Head

end StorybookStorage
