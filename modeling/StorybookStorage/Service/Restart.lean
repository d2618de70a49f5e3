import Mathlib.Data.List.Infix
import StorybookStorage.Store.Atomicity
import StorybookStorage.Store.Backlog

/-!
# One process after the other

A process may end at any moment, and another one starts on the disk it leaves.
The registers go through all the lives as if they were one, and a start on what
is left always succeeds, keeps every object and every sidecar, and leaves no
staging file that was stale.
-/

namespace StorybookStorage

open Python Posix Effects FileTree

variable {settings : Settings} {d : LocalFsBlobDriver}

/-!
## Lives
-/

/-- Any number of lives, with the acts of each.  Within a life errands of any
number of processes run; what runs when it ends is lost. -/
inductive Lives (d : LocalFsBlobDriver) (fs : FileTree) :
    List (Nat × ObjectAct settings) -> FileTree -> Prop where
  | none : Lives d fs [] fs
  | life {past : List (Nat × ObjectAct settings)} {fs' : FileTree}
      (P : ErrandPool settings) :
      Lives d fs past fs' ->
      (atomicGame d).rules.Reach fs' P ->
      Lives d fs (past ++ P.acts (errandPoint d)) P.shared

theorem Lives.first {fs : FileTree} {P : ErrandPool settings}
    (hreach : (atomicGame d).rules.Reach fs P) :
    Lives d fs (P.acts (errandPoint d)) P.shared :=
  Lives.life P Lives.none hreach

def Laid (root : Text) (buckets : List Text) (fs : FileTree) : Prop :=
  forall p, p ∈ (join root tmpDir :: join root metaDir ::
      buckets.flatMap fun b => [join root b, join (join root metaDir) b]) ->
    fs.node (resolve p) = some Node.dir

structure Bootable (settings : Settings) (d : LocalFsBlobDriver)
    (fs : FileTree) : Prop where
  sound : fs.Sound
  proper : Proper fs
  laid : Laid d.root settings.buckets fs

theorem layTree_made {fs : FileTree} {places : List Text}
    (hroot : fs.node [] = some Node.dir) (hdirs : OnlyDirs fs) {p : Text}
    (hp : p ∈ places) : (layTree fs places).node (resolve p) = some Node.dir := by
  induction places generalizing fs with
  | nil => cases hp
  | cons q rest ih =>
      rcases List.mem_cons.mp hp with rfl | hrest
      · show (layTree (fs.mkdirs [] (resolve p) (resolve p).length) rest).node _ =
          _
        apply layTree_dir
        exact node_mkdirs_made hroot (fun q i _ _ => hdirs q i) (Nat.le_refl _) _
          List.nil_prefix List.prefix_rfl
      · exact ih (node_mkdirs_of_some hroot) (hdirs.mkdirs _ _) hrest

theorem freshTree_bootable :
    Bootable settings d (freshTree d.root settings.buckets) where
  sound := (layTree_sound _ bareTree_sound bareTree_onlyDirs).left
  proper := freshTree_proper _ _
  laid := fun _ hp => layTree_made bareTree_sound.root bareTree_onlyDirs hp

theorem Bootable.step {fs fs' : FileTree} (h : Bootable settings d fs)
    {allow : Policy} {c : Call} {r : Call.Ret c}
    (hstep : (system allow).machine.Step fs c r fs') :
    Bootable settings d fs' := by
  rcases hstep with ⟨ch, _, hexec⟩
  exact
    { sound := exec_sound h.sound hexec
      proper := h.proper.exec hexec
      laid := fun p hp => exec_dir hexec (h.laid p hp) }

theorem Bootable.run {fs fs' : FileTree} (h : Bootable settings d fs)
    {allow : Policy} {α : Type} {p : Io α} {trace : List (Sigma calls.Ret)}
    {o : Except Exn α} (hrun : (system allow).machine.Runs fs p trace o fs') :
    Bootable settings d fs' := by
  induction hrun with
  | done s a => exact h
  | raise s e => exact h
  | call hstep _ ih => exact ih (h.step hstep)

theorem Bootable.reach {fs : FileTree} (h : Bootable settings d fs)
    {P : ErrandPool settings} (hreach : (atomicGame d).rules.Reach fs P) :
    Bootable settings d P.shared := by
  refine Rules.Reach.invariant (I := fun P => Bootable settings d P.shared) h
    (fun _ _ _ h _ => h) ?_ (fun _ _ h _ => h) hreach
  intro P i t c k r fs' _ hP _ _ _ hstep
  exact hP.step hstep

theorem Bootable.lives {fs fs' : FileTree} (h : Bootable settings d fs)
    {past : List (Nat × ObjectAct settings)} (hlives : Lives d fs past fs') :
    Bootable settings d fs' := by
  induction hlives with
  | none => exact h
  | life P _ hreach ih => exact ih.reach hreach

theorem Bootable.registers {fs fs' : FileTree} (h : Bootable settings d fs)
    {past : List (Nat × ObjectAct settings)} (hlives : Lives d fs past fs') :
    objectsOf d fs' =
      StorybookStorage.registers.after (objectsOf d fs) past := by
  induction hlives with
  | none => rfl
  | life P hlives hreach ih =>
      have hbootable := h.lives hlives
      rcases atomically_of_reach hbootable.sound hbootable.proper hreach with
        ⟨_, _, hI⟩
      rw [hI.linear.state, ih]
      exact List.foldl_append.symm

/-!
## A start without failures
-/

theorem mkdirs_same {fs : FileTree} {at_ : Path} {segs : List Text} {limit : Nat}
    (h : forall q, at_ <+: q -> q <+: at_ ++ segs -> q ≠ at_ ->
      fs.node q ≠ none) : fs.mkdirs at_ segs limit = fs := by
  induction segs generalizing at_ limit with
  | nil => rfl
  | cons seg rest ih =>
      have hway : at_ ++ seg :: rest = (at_ ++ [seg]) ++ rest := by simp
      have hnode := h (at_ ++ [seg]) (List.prefix_append _ _)
        (hway ▸ List.prefix_append _ _) (by simp)
      unfold mkdirs
      cases hn : fs.node (at_ ++ [seg]) with
      | none => exact absurd hn hnode
      | some n =>
          apply ih
          intro q hq hq' _
          apply h q ((List.prefix_append _ _).trans hq) (hway ▸ hq')
          intro heq
          have hlen := hq.length_le
          rw [heq] at hlen
          simp at hlen

theorem makedirs_there {fs : FileTree} (hsound : fs.Sound) {p : Text}
    (hp : fs.node (resolve p) = some Node.dir) {ch : Choice}
    (hfault : ch.fault = none) :
    exec ch (Call.makedirs p) fs = (Except.ok (), fs) := by
  have hdir : forall q, q <+: resolve p -> fs.node q = some Node.dir :=
    fun q hq => hsound.dir_of_prefix hp hq
  have hnofile : forall q, q <+: resolve p -> fs.isFile q = false := by
    intro q hq
    rw [Bool.eq_false_iff]
    intro hfile
    rcases isFile_iff.mp hfile with ⟨i, hi⟩
    rw [hdir q hq] at hi
    cases hi
  have hway : ((resolve p).inits.any fs.isFile) = false := by
    rw [List.any_eq_false]
    intro q hq
    rw [hnofile q ((List.mem_inits q _).mp hq)]
    exact Bool.false_ne_true
  have hsame : fs.mkdirs [] (resolve p) (resolve p).length = fs := by
    apply mkdirs_same
    intro q _ hq _
    rw [hdir q (by simpa using hq)]
    exact nofun
  show makedirsAt ch p fs = _
  unfold makedirsAt
  rw [hnofile _ List.prefix_rfl, hway, hfault, hsame]
  rfl

theorem wp_makeAll_there {fs : FileTree} (hsound : fs.Sound) {places : List Text}
    (hplaces : forall p, p ∈ places -> fs.node (resolve p) = some Node.dir)
    {Q : Except Exn Unit -> FileTree -> Prop} (h : Q (Except.ok ()) fs) :
    (system noFault).machine.wp (makeAll places) Q fs := by
  induction places with
  | nil => exact h
  | cons p rest ih =>
      show (system noFault).machine.wp (Os.makedirs p >>= fun _ => _) Q fs
      rw [Machine.wp_bind]
      apply wp_raising
      apply wp_choice
      intro ch hfault
      rw [makedirs_there hsound (hplaces p List.mem_cons_self) hfault]
      exact ih fun q hq => hplaces q (List.mem_cons_of_mem _ hq)

theorem wp_cleanupStaleTmp_there {fs : FileTree} {root : Text} {older : Rat}
    (htmp : fs.node (resolve (join root tmpDir)) = some Node.dir) :
    (system noFault).machine.wp (cleanupStaleTmp root older)
      (fun o _ => o.isOk = true) fs := by
  unfold cleanupStaleTmp
  rw [Machine.wp_bind]
  apply wp_choice
  intro ch hfault
  have hthere : exec ch (Call.isdir (join root tmpDir)) fs = (true, fs) := by
    show (ch.fault.isNone && fs.isDir (resolve (join root tmpDir)), fs) = _
    rw [show ch.fault = none from hfault]
    unfold isDir
    rw [htmp]
    rfl
  rw [hthere]
  show (system noFault).machine.wp (Os.time >>= fun _ => _) _ fs
  rw [Machine.wp_bind]
  apply wp_choice
  intro ch1 _
  show (system noFault).machine.wp (Os.listdir _ >>= fun _ => _) _ fs
  rw [Machine.wp_bind]
  apply wp_raising
  apply wp_choice
  intro ch2 hfault2
  have hlists : exists names, listdirAt ch2 (join root tmpDir) fs =
      Except.ok names := by
    unfold listdirAt
    rw [show ch2.fault = none from hfault2]
    dsimp only
    rw [htmp]
    exact ⟨_, rfl⟩
  rcases hlists with ⟨names, hnames⟩
  have hexec : exec ch2 (Call.listdir (join root tmpDir)) fs =
      (Except.ok names, fs) := congrArg (fun r => (r, fs)) hnames
  rw [hexec]
  refine Machine.wp_mono wp_sweepNames_exact ?_
  intro o fs' hswept
  rcases hswept with ⟨gone, _, rfl⟩
  rfl

/-- What a sweep at the start does: the stale staging files go, by the clock it
has read, and nothing else. -/
structure TmpCleared (root : Text) (trace : List (Sigma calls.Ret))
    (fs fs' : FileTree) : Prop where
  contents : fs'.inodes = fs.inodes
  swept : exists now : Rat, ⟨Call.time, now⟩ ∈ trace ∧
    (forall q, fs'.node q = fs.node q ∨
      (fs'.node q = none ∧ Stale root (now - 3600) fs q)) ∧
    forall name, ¬ Stale root (now - 3600) fs' (tmpLoc root name)

theorem cleared_of_run {fs fs' : FileTree} {root : Text}
    {trace : List (Sigma calls.Ret)} {o : Except Exn Nat} (hproper : Proper fs)
    (htmp : fs.node (resolve (join root tmpDir)) = some Node.dir)
    (hrun : (system noFault).machine.Runs fs (cleanupStaleTmp root 3600) trace o
      fs') : o.isOk = true ∧ TmpCleared root trace fs fs' := by
  have hok := Machine.wp_sound (wp_cleanupStaleTmp_there htmp) hrun
  refine ⟨hok, ?_⟩
  cases cleanupStaleTmp_run hrun with
  | absent hnodir => exact absurd htmp (hnodir faultless_noFault)
  | unlisted now n => cases hok
  | listed now names rest _ _ hnames hrest =>
      rcases Machine.wp_sound wp_sweepNames_exact hrest with ⟨gone, hthinned, _⟩
      have hplain : forall name, fs.node (tmpLoc root name) ≠ none ->
          Plain name := by
        intro name hnode
        rcases Option.ne_none_iff_exists'.mp hnode with ⟨n, hn⟩
        exact hproper _ n hn name (by simp [tmpLoc])
      rcases swept_of_thinned hplain hnames hthinned with
        ⟨hgone, hspared, hcomplete⟩
      refine ⟨hthinned.contents, now, by simp, ?_, ?_⟩
      · intro q
        by_cases hq : q ∈ gone
        · exact Or.inr (hspared q hq)
        · left
          rw [hthinned.node, if_neg hq]
      · intro name hstale
        rcases hstale with ⟨hwithin, i, hi, hold⟩
        have hbefore : fs.node (tmpLoc root name) = some (Node.file i) := by
          rw [hthinned.node] at hi
          split at hi
          · cases hi
          · exact hi
        rw [hthinned.contents] at hold
        have hnone := hcomplete faultless_noFault name
          ⟨hwithin, i, hbefore, hold⟩
        rw [hnone] at hi
        cases hi

theorem TmpCleared.content {fs fs' : FileTree} {root : Text}
    {trace : List (Sigma calls.Ret)} (h : TmpCleared root trace fs fs') {q : Path}
    (hq : forall name, q ≠ tmpLoc root name) : fs'.content q = fs.content q := by
  rcases h.swept with ⟨now, _, hkept, _⟩
  unfold FileTree.content
  rw [h.contents]
  rcases hkept q with hsame | ⟨_, ⟨name, hname⟩, _⟩
  · rw [hsame]
  · exact absurd hname (hq name)

theorem startup_run {fs fs' : FileTree} (h : Bootable settings d fs)
    {texts : Reprs} {storageDriver : Text} {free : Nat}
    {trace : List (Sigma calls.Ret)} {o : Except Exn Nat}
    (hrun : (system noFault).machine.Runs fs
      (startup texts d.root settings.buckets storageDriver (Except.ok free))
      trace o fs') :
    (o.isOk = true <-> storageDriver = text "local-fs") ∧
      TmpCleared d.root trace fs fs' := by
  have htmp := h.laid (join d.root tmpDir) List.mem_cons_self
  have hlayout : (system noFault).machine.wp
      (ensureLayout d.root settings.buckets)
      (fun o s => o = Except.ok () ∧ s = fs) fs :=
    wp_makeAll_there h.sound h.laid ⟨rfl, rfl⟩
  rcases Machine.runs_bind hrun with
    ⟨_, s1, before, after, hmakes, hrest, rfl⟩ | ⟨e, hmakes, _⟩
  · rcases Machine.wp_sound hlayout hmakes with ⟨_, rfl⟩
    rcases Machine.runs_bind hrest with
      ⟨removed, s2, sweep, last, hsweep, hlast, rfl⟩ | ⟨e, hsweep, _⟩
    · rcases cleared_of_run h.proper htmp hsweep with ⟨_, hcleared⟩
      have hend : (storageDriver = text "local-fs" -> o = Except.ok removed) ∧
          (storageDriver ≠ text "local-fs" ->
            o = Except.error (noDriver texts storageDriver)) ∧
          fs' = s2 := by
        unfold knownDriver at hlast
        by_cases hdriver : storageDriver = text "local-fs"
        · rw [if_pos hdriver] at hlast
          cases hlast
          exact ⟨fun _ => rfl, fun hne => absurd hdriver hne, rfl⟩
        · rw [if_neg hdriver] at hlast
          cases hlast
          exact ⟨fun heq => absurd heq hdriver, fun _ => rfl, rfl⟩
      rcases hend with ⟨hserves, hrefuses, rfl⟩
      refine ⟨⟨?_, ?_⟩, ?_⟩
      · intro hok
        by_contra hdriver
        rw [hrefuses hdriver] at hok
        cases hok
      · intro hdriver
        rw [hserves hdriver]
        rfl
      · rcases hcleared.swept with ⟨now, hnow, hswept⟩
        refine ⟨hcleared.contents, now, ?_, hswept⟩
        exact List.mem_append_right _ (List.mem_append_left _ hnow)
    · have hok := (cleared_of_run h.proper htmp hsweep).left
      cases hok
  · have hok := (Machine.wp_sound hlayout hmakes).left
    cases hok

/-- Whatever the lives before did and wherever they broke off, a start without
failures succeeds exactly with the driver that is there; what it leaves is the
objects the registers hold after all acts of all lives, every sidecar, and no
staging file that was stale. -/
theorem restart_recovers {fs fs1 fs2 : FileTree}
    (hbootable : Bootable settings d fs)
    {past : List (Nat × ObjectAct settings)} (hlives : Lives d fs past fs1)
    {texts : Reprs} {storageDriver : Text} {free : Nat}
    {trace : List (Sigma calls.Ret)} {o : Except Exn Nat}
    (hrun : (system noFault).machine.Runs fs1
      (startup texts d.root settings.buckets storageDriver (Except.ok free))
      trace o fs2) :
    (o.isOk = true <-> storageDriver = text "local-fs") ∧
      objectsOf d fs2 = registers.after (objectsOf d fs) past ∧
      (forall slot : Slot settings,
        storedSidecar d slot fs2 = storedSidecar d slot fs1) ∧
      TmpCleared d.root trace fs1 fs2 ∧ Bootable settings d fs2 := by
  have hready := hbootable.lives hlives
  have hended := startup_run hready hrun
  refine ⟨hended.left, ?_, ?_, hended.right, hready.run hrun⟩
  · rw [← hbootable.registers hlives]
    funext slot
    exact hended.right.content fun name => tmpLoc_ne_objectLoc name
  · intro slot
    exact hended.right.content fun name => tmpLoc_ne_sidecarLoc name

def brokenOff : ErrandPool sampleSettings :=
  let put chunks :=
    Errand.request (Operation.put pictureSlot (sampleSource chunks)
      (text "image/png") none none)
  (atomicGame sampleDriver).outcome sampleTree
    ([Event.spawn (put [[1, 2], [3]])] ++ callsOf 0 0 16 ++
      [Event.spawn (put [[7, 7], [8]])] ++ callsOf 1 60 4)

def laterChoice (n : Nat) : Choice where
  fault := none
  amount := 0
  token := (sampleChoice n).token
  now := 90000

def restarted :
    Option (List (Sigma calls.Ret) × Except Exn Nat × FileTree) :=
  (system noFault).replay laterChoice
    (startup sampleReprs sampleDriver.root sampleSettings.buckets
      (text "local-fs") (Except.ok 1)) 0 brokenOff.shared

theorem restarted_runs {trace : List (Sigma calls.Ret)} {o : Except Exn Nat}
    {fs : FileTree} (h : restarted = some (trace, o, fs)) :
    (system noFault).machine.Runs brokenOff.shared
      (startup sampleReprs sampleDriver.root sampleSettings.buckets
        (text "local-fs") (Except.ok 1)) trace o fs :=
  (system noFault).replay_runs laterChoice h

theorem sampleTree_bootable :
    Bootable sampleSettings sampleDriver sampleTree := freshTree_bootable

theorem brokenOff_lives : Lives sampleDriver sampleTree
    (brokenOff.acts (errandPoint sampleDriver)) brokenOff.shared :=
  Lives.first ((atomicGame sampleDriver).outcome_reach sampleTree _)

theorem restart_recovers_brokenOff :
    exists trace fs, restarted = some (trace, Except.ok 1, fs) ∧
      objectsOf sampleDriver fs pictureSlot = some [1, 2, 3] ∧
      objectsOf sampleDriver fs =
        registers.after (objectsOf sampleDriver sampleTree)
          (brokenOff.acts (errandPoint sampleDriver)) ∧
      TmpCleared sampleDriver.root trace brokenOff.shared fs := by
  have hends : restarted.map (fun run => (run.2.1.toOption,
      objectsOf sampleDriver run.2.2 pictureSlot)) =
        some (some 1, some [1, 2, 3]) := by decide +kernel
  rcases Option.map_eq_some_iff.mp hends with ⟨⟨trace, o, fs⟩, hrun, heq⟩
  have ho : o = Except.ok 1 := by
    cases o with
    | ok n =>
        have hn := congrArg Prod.fst heq
        rw [Option.some.inj hn]
    | error e => cases congrArg Prod.fst heq
  have hall := restart_recovers sampleTree_bootable brokenOff_lives
    (restarted_runs hrun)
  refine ⟨trace, fs, ?_, congrArg Prod.snd heq, hall.right.left,
    hall.right.right.right.left⟩
  rw [hrun, ho]

end StorybookStorage
