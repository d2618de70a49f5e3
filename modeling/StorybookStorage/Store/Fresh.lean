import StorybookStorage.Core.Reference
import StorybookStorage.Store.Operations

/-!
# The store before its first object

`ensure_layout` on an empty disk makes the directories of the service and
nothing else.  A `Fresh` tree is any tree like that, as far as the driver can
tell.
-/

namespace StorybookStorage

open Python Posix Effects FileTree

def bareTree : FileTree where
  entries := AList.insert [] Node.dir ∅
  inodes := fun _ => { data := [], mtime := 0 }
  nextIno := 0
  handles := fun _ => none
  nextFd := 3
  tokens := []

def layTree (fs : FileTree) (places : List Text) : FileTree :=
  places.foldl (fun fs p => fs.mkdirs [] (resolve p) (resolve p).length) fs

/-- What `ensure_layout` leaves of an empty disk. -/
def freshTree (root : Text) (buckets : List Text) : FileTree :=
  layTree bareTree
    (join root tmpDir :: join root metaDir ::
      buckets.flatMap fun b => [join root b, join (join root metaDir) b])

def OnlyDirs (fs : FileTree) : Prop :=
  forall p i, fs.node p ≠ some (Node.file i)

structure Fresh (root : Text) (fs : FileTree) : Prop where
  sound : fs.Sound
  tmp : fs.node (resolve root ++ [tmpDir]) = some Node.dir
  clean : forall u, fs.node (resolve root ++ [tmpDir, u]) ≠ some Node.dir
  vacant : forall p i, resolve root <+: p -> fs.node p ≠ some (Node.file i)

theorem bareTree_node {p : Path} {n : Node} (h : bareTree.node p = some n) :
    p = [] ∧ n = Node.dir := by
  unfold FileTree.node bareTree at h
  by_cases hp : p = []
  · rw [hp, AList.lookup_insert] at h
    exact ⟨hp, (Option.some.inj h).symm⟩
  · rw [AList.lookup_insert_ne hp] at h
    cases h

theorem bareTree_sound : bareTree.Sound where
  root := AList.lookup_insert ∅
  parent := by
    intro p hp hnode
    cases hn : bareTree.node p with
    | none => exact absurd hn hnode
    | some n => exact absurd (bareTree_node hn).left hp
  inj := by
    intro p q i hp
    cases (bareTree_node hp).right
  bound := by
    intro p i hp
    cases (bareTree_node hp).right
  handle := by
    intro fd h hh
    cases hh

theorem OnlyDirs.mkdirs {fs : FileTree} (h : OnlyDirs fs) (p : Path) (n : Nat) :
    OnlyDirs (fs.mkdirs [] p n) := by
  intro q i hq
  cases hn : fs.node q with
  | some m =>
      have hm := @node_mkdirs_of_some fs [] q p n m hn
      rw [hq] at hm
      cases hm
      exact h q i hn
  | none =>
      rcases @node_mkdirs_of_none fs [] q p n hn with
        hnone | ⟨hdir, _⟩
      · rw [hq] at hnone
        cases hnone
      · rw [hq] at hdir
        cases hdir

theorem layTree_sound {fs : FileTree} (places : List Text) (hs : fs.Sound)
    (hd : OnlyDirs fs) :
    (layTree fs places).Sound ∧ OnlyDirs (layTree fs places) := by
  induction places generalizing fs with
  | nil => exact ⟨hs, hd⟩
  | cons p rest ih =>
      exact ih (hs.mkdirs hs.root (fun q i _ _ => hd q i)) (hd.mkdirs _ _)

theorem layTree_dir {fs : FileTree} {q : Path} (places : List Text)
    (h : fs.node q = some Node.dir) :
    (layTree fs places).node q = some Node.dir := by
  induction places generalizing fs with
  | nil => exact h
  | cons p rest ih => exact ih (node_mkdirs_of_some h)

theorem layTree_none {fs : FileTree} {q : Path} {places : List Text}
    (hq : forall p, p ∈ places -> ¬ q <+: resolve p) (h : fs.node q = none) :
    (layTree fs places).node q = none := by
  induction places generalizing fs with
  | nil => exact h
  | cons p rest ih =>
      apply ih
      · intro p' hp'
        exact hq p' (List.mem_cons_of_mem _ hp')
      · rcases @node_mkdirs_of_none _ [] _ _ (resolve p).length h with
          hnone | ⟨_, hpre⟩
        · exact hnone
        · exact absurd hpre (hq p List.mem_cons_self)

theorem bareTree_onlyDirs : OnlyDirs bareTree :=
  fun _ _ h => nomatch (bareTree_node h).right

theorem freshTree_clean {root : Text} {buckets : List Text}
    (hbuckets : forall b, b ∈ buckets -> Plain b ∧ b ≠ tmpDir) (u : Text) :
    (freshTree root buckets).node (resolve root ++ [tmpDir, u]) = none := by
  have hshort : forall name, Plain name ->
      ¬ resolve root ++ [tmpDir, u] <+: resolve (join root name) := by
    intro name hname hpre
    have hlen := hpre.length_le
    rw [resolve_join_single hname] at hlen
    simp at hlen
  have hmeta : resolve (join root metaDir) = resolve root ++ [metaDir] :=
    resolve_join_single Slot.plain_metaDir
  apply layTree_none
  · intro p hp
    rcases List.mem_cons.mp hp with rfl | hp
    · exact hshort _ Slot.plain_tmpDir
    rcases List.mem_cons.mp hp with rfl | hp
    · exact hshort _ Slot.plain_metaDir
    rcases List.mem_flatMap.mp hp with ⟨b, hb, hpb⟩
    rcases List.mem_cons.mp hpb with rfl | hpb
    · exact hshort _ (hbuckets b hb).left
    · rw [List.mem_singleton.mp hpb, resolve_join_single (hbuckets b hb).left,
        hmeta]
      intro hpre
      rw [List.append_assoc] at hpre
      exact absurd (Slot.ne_of_prefix_under hpre) (by decide)
  · cases hn : bareTree.node (resolve root ++ [tmpDir, u]) with
    | none => rfl
    | some n => exact absurd (bareTree_node hn).left (by simp)

theorem freshTree_fresh {root : Text} {buckets : List Text}
    (hbuckets : forall b, b ∈ buckets -> Plain b ∧ b ≠ tmpDir) :
    Fresh root (freshTree root buckets) where
  sound := (layTree_sound _ bareTree_sound bareTree_onlyDirs).left
  tmp := by
    show (layTree (bareTree.mkdirs [] (resolve (join root tmpDir)) _) _).node _ = _
    apply layTree_dir
    have hloc : resolve (join root tmpDir) = resolve root ++ [tmpDir] :=
      resolve_join_single Slot.plain_tmpDir
    rw [hloc]
    exact node_mkdirs_made bareTree_sound.root
      (fun q i _ _ => bareTree_onlyDirs q i) (Nat.le_refl _) _
      List.nil_prefix List.prefix_rfl
  clean := by
    intro u h
    rw [freshTree_clean hbuckets] at h
    cases h
  vacant := fun p i _ =>
    (layTree_sound _ bareTree_sound bareTree_onlyDirs).right p i

theorem Fresh.no_file_below {root : Text} {fs : FileTree} (h : Fresh root fs)
    {p q : Path} (hp : resolve root <+: p) (hq : q <+: p) :
    fs.isFile q = false := by
  rw [Bool.eq_false_iff]
  intro hfile
  rcases isFile_iff.mp hfile with ⟨i, hi⟩
  rcases List.prefix_or_prefix_of_prefix hq hp with habove | hbelow
  · rw [h.sound.dir_of_prefix h.tmp (habove.trans (List.prefix_append _ _))] at hi
    cases hi
  · exact h.vacant q i hbelow hi

/-!
## Running the layout
-/

theorem OnlyDirs.isFile {fs : FileTree} (h : OnlyDirs fs) (p : Path) :
    fs.isFile p = false := by
  unfold FileTree.isFile FileTree.content
  cases hn : fs.node p with
  | none => rfl
  | some n =>
      cases n with
      | dir => rfl
      | file i => exact absurd hn (h p i)

theorem makeAll_runs {fs fs' : FileTree} {places : List Text}
    {trace : List (Sigma calls.Ret)} {o : Except Exn Unit} (hd : OnlyDirs fs)
    (hrun : (system noFault).machine.Runs fs (makeAll places) trace o fs') :
    o = Except.ok () ∧ fs' = layTree fs places := by
  induction places generalizing fs trace with
  | nil =>
      cases hrun
      exact ⟨rfl, rfl⟩
  | cons p rest ih =>
      change (system noFault).machine.Runs fs
        (Prog.call (S := calls) (Call.makedirs p) _) _ _ _ at hrun
      cases hrun with
      | call hstep hrest =>
          rcases hstep with ⟨ch, ⟨hfault, _⟩, hexec⟩
          have hexec' : makedirsAt ch p fs = _ := hexec
          unfold makedirsAt at hexec'
          rw [hd.isFile, if_neg (by simp), if_neg, show ch.fault = none from hfault]
            at hexec'
          · cases hexec'
            exact ih (hd.mkdirs _ _) hrest
          · simp [hd.isFile]

/-- `ensure_layout` on an empty disk always succeeds, with one result. -/
theorem ensureLayout_runs {root : Text} {buckets : List Text} {fs' : FileTree}
    {trace : List (Sigma calls.Ret)} {o : Except Exn Unit}
    (hrun : (system noFault).machine.Runs bareTree (ensureLayout root buckets)
      trace o fs') :
    o = Except.ok () ∧ fs' = freshTree root buckets :=
  makeAll_runs bareTree_onlyDirs hrun

/-!
## What a fresh tree shows
-/

variable {settings : Settings} {d : LocalFsBlobDriver}

theorem Fresh.storedObject {fs : FileTree} (h : Fresh d.root fs)
    (slot : Slot settings) : storedObject d slot fs = none := by
  unfold StorybookStorage.storedObject FileTree.content
  cases hn : fs.node (slot.objectLoc d.root) with
  | none => rfl
  | some n =>
      cases n with
      | dir => rfl
      | file i => exact absurd hn (h.vacant _ i (List.prefix_append _ _))

theorem Fresh.storedSidecar {fs : FileTree} (h : Fresh d.root fs)
    (slot : Slot settings) : storedSidecar d slot fs = none := by
  unfold StorybookStorage.storedSidecar FileTree.content
  cases hn : fs.node (slot.sidecarLoc d.root) with
  | none => rfl
  | some n =>
      cases n with
      | dir => rfl
      | file i => exact absurd hn (h.vacant _ i (List.prefix_append _ _))

/-!
## A small store
-/

def sampleVerifier (token : Text) : Option (Option Text) :=
  if token = text "signed-by-auth" then some (some (text "user-1")) else none

def sampleDriver : LocalFsBlobDriver where
  platform := Platform.reference sampleVerifier
  root := text "/r"
  signSecret := text "secret"
  publicBase := text "https://files"

def sampleSettings : Settings where
  storagePublicBaseUrl := text "https://files/"
  storageSignSecret := text "secret"
  storageRoot := text "/r"
  apiKeys := AList.singleton (text "backend") (text "key-1")
  buckets := [text "assets"]
  serviceOnlyPrefixes := [text "system/"]
  storageMaxObjectBytes := 1000
  prefixSizeCaps := ∅
  userMimeCaps := AList.singleton (text "image/") 100
  storageSignedGetDevStream := false

def sampleTree : FileTree := freshTree (text "/r") [text "assets"]

theorem sampleTree_fresh : Fresh sampleDriver.root sampleTree :=
  freshTree_fresh (by decide)

def sampleSlot (key : String)
    (h : KeyGrammar.validateKey (text key) true = Except.ok () := by rfl) :
    Slot sampleSettings where
  bucket := text "assets"
  key := text key
  accepted := h

def pictureSlot : Slot sampleSettings := sampleSlot "a.png"

def folderSlot : Slot sampleSettings := sampleSlot "d.x"

def nestedSlot : Slot sampleSettings := sampleSlot "d.x/a.png"

def pageSlot : Slot sampleSettings := sampleSlot "a.html"

/-- A rendition beside another object, with the at sign of such keys. -/
def renditionSlot : Slot sampleSettings := sampleSlot "a.pdf@web.pdf"

def sampleChoice (n : Nat) : Choice where
  fault := none
  amount := 0
  token := List.replicate 30 '0' ++
    [Nat.digitChar (n / 10), Nat.digitChar (n % 10)]
  now := 0

/-- Choices with one failing call. -/
def sampleFault (failing n : Nat) : Choice where
  fault := if n = failing then some Errno.EIO else none
  amount := 0
  token := (sampleChoice n).token
  now := 0

def callsOf {ι : Type} (i first count : Nat) : List (Event Choice ι) :=
  (List.range count).map fun k => Event.run i (sampleChoice (first + k))

def sampleSource (chunks : List Bytes) : Data :=
  Data.stream { chunks := chunks, ending := none }

end StorybookStorage
