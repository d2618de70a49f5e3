import StorybookStorage.Drivers.Listing
import StorybookStorage.Store.FailedPut
import StorybookStorage.Store.Fresh
import StorybookStorage.Store.HeadExact

/-!
# What a sweep removes

`cleanup_stale_tmp` counts exactly the files it removes and removes only what is
too old, whichever of its calls fail for an entry.  It is not without
exceptions: the directory is listed outside the guarded region.
-/

namespace StorybookStorage

open Python Posix Effects FileTree

structure Stale (root : Text) (cutoff : Rat) (fs : FileTree) (q : Path) :
    Prop where
  within : exists name, q = tmpLoc root name
  old : exists i, fs.node q = some (Node.file i) ∧ (fs.inodes i).mtime < cutoff

/-- The sweep answers with a count, and it is the number of the places that are
gone.  All of them were stale by the clock the sweep has read, and without
failures nothing stale is left. -/
structure Swept (root : Text) (older : Rat) (fs : FileTree)
    (trace : List (Sigma calls.Ret)) (o : Except Exn Nat) (fs' : FileTree) :
    Prop where
  counted : exists gone : List Path, gone.Nodup ∧
    (forall q, q ∈ gone <-> fs'.node q ≠ fs.node q) ∧
    o = Except.ok gone.length
  spared : forall q, fs'.node q ≠ fs.node q -> fs'.node q = none ∧
    exists now : Rat, ⟨Call.time, now⟩ ∈ trace ∧
      Stale root (now - older) fs q
  contents : fs'.inodes = fs.inodes
  complete :
    (system noFault).machine.Runs fs (cleanupStaleTmp root older) trace o fs' ->
    forall name, fs.isFile (tmpLoc root name) = true ->
      exists now : Rat, ⟨Call.time, now⟩ ∈ trace ∧
        (Stale root (now - older) fs (tmpLoc root name) ->
          fs'.node (tmpLoc root name) = none)

def Faultless (allow : Policy) : Prop :=
  forall fs c fault, allow fs c fault -> fault = none

variable {allow : Policy} {root tmp p : Text} {older cutoff : Rat}
  {names : List Text} {fs fs1 fs' : FileTree} {gone : List Path}
  {trace : List (Sigma calls.Ret)}

/-!
## One entry
-/

/-- An entry is removed if it is a regular file and too old, or else it is left
as it is.  Without faults it is left only if it is not both. -/
theorem wp_sweepEntry_exact {Q : Except Exn Bool -> FileTree -> Prop}
    (htaken : forall i, fs.node (resolve p) = some (Node.file i) ->
      (fs.inodes i).mtime < cutoff ->
      Q (Except.ok true) (fs.unlink (resolve p)))
    (hkept : (Faultless allow -> forall i,
        fs.node (resolve p) = some (Node.file i) ->
        ¬ (fs.inodes i).mtime < cutoff) ->
      Q (Except.ok false) fs) :
    (system allow).machine.wp (sweepEntry p cutoff) Q fs := by
  unfold sweepEntry
  rw [Machine.wp_tryCatch, Machine.wp_bind]
  apply wp_choice
  intro ch hallow
  show (system allow).machine.wp
    (if (ch.fault.isNone && fs.isFile (resolve p)) = true then _ else _) _ fs
  split
  · rename_i hregular
    rcases isFile_iff.mp (Bool.and_eq_true_iff.mp hregular).right with ⟨i, hi⟩
    rw [Machine.wp_bind]
    apply wp_raising
    apply wp_choice
    intro ch1 hallow1
    cases hfault : ch1.fault with
    | some e =>
        have hread : (exec ch1 (Call.getmtime p) fs).1 = Except.error e := by
          show (statAt ch1 p fs).map Stat.mtime = _
          simp only [statAt, hfault]
          rfl
        rw [hread]
        apply hkept
        intro hclean
        rw [hclean _ _ _ hallow1] at hfault
        cases hfault
    | none =>
        have hread : (exec ch1 (Call.getmtime p) fs).1 =
            Except.ok (fs.inodes i).mtime := by
          show (statAt ch1 p fs).map Stat.mtime = _
          simp only [statAt, hfault, hi]
          rfl
        rw [hread]
        show (system allow).machine.wp
          (if (fs.inodes i).mtime < cutoff then _ else _) _ fs
        split
        · rename_i hold
          rw [Machine.wp_bind]
          apply wp_raising
          apply wp_choice
          intro ch2 hallow2
          cases hfault2 : ch2.fault with
          | some e =>
              have hremove : exec ch2 (Call.remove p) fs =
                  (Except.error e, fs) := by
                show removeAt ch2 p fs = _
                simp only [removeAt, hfault2]
              rw [hremove]
              apply hkept
              intro hclean
              rw [hclean _ _ _ hallow2] at hfault2
              cases hfault2
          | none =>
              have hremove : exec ch2 (Call.remove p) fs =
                  (Except.ok (), fs.unlink (resolve p)) := by
                show removeAt ch2 p fs = _
                simp only [removeAt, hfault2, hi]
              rw [hremove]
              exact htaken i hi hold
        · rename_i hyoung
          apply hkept
          intro _ j hj
          rw [hi] at hj
          cases hj
          exact hyoung
  · rename_i hother
    apply hkept
    intro hclean i hi
    rw [hclean _ _ _ hallow, isFile_iff.mpr ⟨i, hi⟩] at hother
    exact absurd rfl hother

/-!
## All entries
-/

/-- The tree without the places that are gone, each an old regular file under
one of the names; with nothing overlooked, every such file is gone. -/
structure Thinned (exhaustive : Prop) (tmp : Text) (cutoff : Rat)
    (names : List Text) (fs : FileTree) (gone : List Path) (fs' : FileTree) :
    Prop where
  nodup : gone.Nodup
  node : forall q, fs'.node q = if q ∈ gone then none else fs.node q
  contents : fs'.inodes = fs.inodes
  named : forall q, q ∈ gone ->
    exists name, name ∈ names ∧ q = resolve (join tmp name)
  old : forall q, q ∈ gone -> exists i,
    fs.node q = some (Node.file i) ∧ (fs.inodes i).mtime < cutoff
  complete : exhaustive -> forall name, name ∈ names -> forall i,
    fs.node (resolve (join tmp name)) = some (Node.file i) ->
    (fs.inodes i).mtime < cutoff -> resolve (join tmp name) ∈ gone

theorem thinned_nil {exhaustive : Prop} :
    Thinned exhaustive tmp cutoff [] fs [] fs where
  nodup := List.nodup_nil
  node := fun _ => rfl
  contents := rfl
  named := by
    intro q hq
    cases hq
  old := by
    intro q hq
    cases hq
  complete := by
    intro _ name hname
    cases hname

theorem Thinned.keep {exhaustive : Prop} {name : Text}
    (h : Thinned exhaustive tmp cutoff names fs gone fs')
    (hkept : exhaustive -> forall i,
      fs.node (resolve (join tmp name)) = some (Node.file i) ->
      ¬ (fs.inodes i).mtime < cutoff) :
    Thinned exhaustive tmp cutoff (name :: names) fs gone fs' where
  nodup := h.nodup
  node := h.node
  contents := h.contents
  named := by
    intro q hq
    rcases h.named q hq with ⟨name', hname', heq⟩
    exact ⟨name', List.mem_cons_of_mem _ hname', heq⟩
  old := h.old
  complete := by
    intro hall name' hname' i hi hold
    rcases List.mem_cons.mp hname' with rfl | hname'
    · exact absurd hold (hkept hall i hi)
    · exact h.complete hall name' hname' i hi hold

theorem Thinned.take {exhaustive : Prop} {name : Text} {i : Nat}
    (hi : fs.node (resolve (join tmp name)) = some (Node.file i))
    (hold : (fs.inodes i).mtime < cutoff)
    (h : Thinned exhaustive tmp cutoff names
      (fs.unlink (resolve (join tmp name))) gone fs') :
    Thinned exhaustive tmp cutoff (name :: names) fs
      (resolve (join tmp name) :: gone) fs' where
  nodup := by
    refine List.nodup_cons.mpr ⟨?_, h.nodup⟩
    intro hmem
    rcases h.old _ hmem with ⟨j, hj, _⟩
    rw [node_unlink_self] at hj
    cases hj
  node := by
    intro q
    rw [h.node]
    by_cases hq : q = resolve (join tmp name)
    · rw [hq, node_unlink_self, if_pos List.mem_cons_self, ite_self]
    · rw [node_unlink_ne fs hq]
      simp only [List.mem_cons, hq, false_or]
  contents := h.contents
  named := by
    intro q hq
    rcases List.mem_cons.mp hq with rfl | hq
    · exact ⟨name, List.mem_cons_self, rfl⟩
    · rcases h.named q hq with ⟨name', hname', heq⟩
      exact ⟨name', List.mem_cons_of_mem _ hname', heq⟩
  old := by
    intro q hq
    rcases List.mem_cons.mp hq with rfl | hq
    · exact ⟨i, hi, hold⟩
    · rcases h.old q hq with ⟨j, hj, hjold⟩
      have hne : q ≠ resolve (join tmp name) := by
        intro heq
        subst heq
        rw [node_unlink_self] at hj
        cases hj
      rw [node_unlink_ne fs hne] at hj
      exact ⟨j, hj, hjold⟩
  complete := by
    intro hall name' hname' j hj hjold
    by_cases hsame : resolve (join tmp name') = resolve (join tmp name)
    · rw [hsame]
      exact List.mem_cons_self
    · apply List.mem_cons_of_mem
      rcases List.mem_cons.mp hname' with rfl | hname'
      · exact absurd rfl hsame
      · apply h.complete hall name' hname' j _ hjold
        rw [node_unlink_ne fs hsame]
        exact hj

theorem wp_sweepNames_exact {removed : Nat} :
    (system allow).machine.wp (sweepNames tmp cutoff names removed)
      (fun o fs' => exists gone,
        Thinned (Faultless allow) tmp cutoff names fs gone fs' ∧
        o = Except.ok (removed + gone.length)) fs := by
  induction names generalizing removed fs with
  | nil => exact ⟨[], thinned_nil, rfl⟩
  | cons name rest ih =>
      show (system allow).machine.wp (sweepEntry _ _ >>= fun _ => _) _ fs
      rw [Machine.wp_bind]
      apply wp_sweepEntry_exact
      · intro i hi hold
        refine Machine.wp_mono ih ?_
        intro o fs2 hswept
        rcases hswept with ⟨gone, hthinned, ho⟩
        refine ⟨_, hthinned.take hi hold, ?_⟩
        rw [ho, if_pos rfl, List.length_cons]
        congr 1
        omega
      · intro hkept
        refine Machine.wp_mono ih ?_
        intro o fs2 hswept
        rcases hswept with ⟨gone, hthinned, ho⟩
        exact ⟨gone, hthinned.keep hkept, ho⟩

/-!
## The whole sweep
-/

/-- How a sweep can go: there is no directory, the directory is not listed, or
the entries are gone through. -/
inductive SweepRun (allow : Policy) (root : Text) (older : Rat)
    (fs : FileTree) :
    List (Sigma calls.Ret) -> Except Exn Nat -> FileTree -> Prop where
  | absent :
      (Faultless allow ->
        fs.node (resolve (join root tmpDir)) ≠ some Node.dir) ->
      SweepRun allow root older fs
        [⟨Call.isdir (join root tmpDir), false⟩] (Except.ok 0) fs
  | unlisted (now : Rat) (n : Errno) :
      SweepRun allow root older fs
        [⟨Call.isdir (join root tmpDir), true⟩, ⟨Call.time, now⟩,
          ⟨Call.listdir (join root tmpDir), Except.error n⟩]
        (Except.error (Exn.os n)) fs
  | listed (now : Rat) (names : List Text) (rest : List (Sigma calls.Ret))
      (o : Except Exn Nat) (fs' : FileTree) :
      (forall name, name ∈ names <->
        fs.node (resolve (join root tmpDir) ++ [name]) ≠ none) ->
      (system allow).machine.Runs fs
        (sweepNames (join root tmpDir) (now - older) names 0) rest o fs' ->
      SweepRun allow root older fs
        (⟨Call.isdir (join root tmpDir), true⟩ :: ⟨Call.time, now⟩ ::
          ⟨Call.listdir (join root tmpDir), Except.ok names⟩ :: rest) o fs'

theorem mem_listdir {ch : Choice}
    (h : listdirAt ch p fs = Except.ok names) (name : Text) :
    name ∈ names <-> fs.node (resolve p ++ [name]) ≠ none := by
  have hnames : names = (fs.children (resolve p)).filterMap List.getLast? := by
    unfold listdirAt at h
    split at h
    · cases h
    · split at h
      · cases h
      · cases h
      · cases h
        rfl
  rw [hnames, List.mem_filterMap]
  constructor
  · intro hswept
    rcases hswept with ⟨q, hq, hlast⟩
    rcases mem_children.mp hq with ⟨hnode, name', rfl⟩
    rw [List.getLast?_concat] at hlast
    rw [← Option.some.inj hlast]
    exact hnode
  · intro hnode
    exact ⟨resolve p ++ [name], mem_children.mpr ⟨hnode, name, rfl⟩,
      List.getLast?_concat⟩

theorem cleanupStaleTmp_run {o : Except Exn Nat}
    (hrun : (system allow).machine.Runs fs (cleanupStaleTmp root older)
      trace o fs') : SweepRun allow root older fs trace o fs' := by
  unfold cleanupStaleTmp at hrun
  change (system allow).machine.Runs fs (Prog.call (S := calls)
    (Call.isdir (join root tmpDir)) _) trace o fs' at hrun
  cases hrun with
  | @call _ fs1 _ _ there _ rest _ hstep hrest =>
      rcases hstep with ⟨ch, hlegal, hexec⟩
      have hthere : (ch.fault.isNone &&
          fs.isDir (resolve (join root tmpDir))) = there :=
        congrArg Prod.fst hexec
      have hsame : fs1 = fs :=
        exec_quiet (c := Call.isdir (join root tmpDir)) trivial hexec
      rw [hsame] at hrest
      cases there with
      | false =>
          cases hrest
          apply SweepRun.absent
          intro hclean hdir
          rw [hclean _ _ _ hlegal.left] at hthere
          simp [isDir, hdir] at hthere
      | true =>
          change (system allow).machine.Runs fs (Prog.call (S := calls)
            Call.time _) rest o fs' at hrest
          cases hrest with
          | @call _ fs2 _ _ now _ rest2 _ hstep2 hrest2 =>
              rcases hstep2 with ⟨ch2, _, hexec2⟩
              have hsame2 : fs2 = fs :=
                exec_quiet (c := Call.time) trivial hexec2
              rw [hsame2] at hrest2
              change (system allow).machine.Runs fs (Prog.call (S := calls)
                (Call.listdir (join root tmpDir)) _) rest2 o fs' at hrest2
              cases hrest2 with
              | @call _ fs3 _ _ names _ rest3 _ hstep3 hrest3 =>
                  rcases hstep3 with ⟨ch3, _, hexec3⟩
                  have hnames : listdirAt ch3 (join root tmpDir) fs = names :=
                    congrArg Prod.fst hexec3
                  have hsame3 : fs3 = fs :=
                    exec_quiet (c := Call.listdir (join root tmpDir)) trivial
                      hexec3
                  rw [hsame3] at hrest3
                  cases names with
                  | error n =>
                      cases hrest3
                      exact SweepRun.unlisted now n
                  | ok names =>
                      exact SweepRun.listed now names rest3 o fs'
                        (mem_listdir hnames) hrest3

theorem resolve_tmp (root name : Text) :
    resolve (join root tmpDir) ++ [name] = tmpLoc root name := by
  rw [resolve_join_single Slot.plain_tmpDir, List.append_assoc]
  rfl

theorem resolve_tmpEntry {name : Text} (h : Plain name) :
    resolve (join (join root tmpDir) name) = tmpLoc root name := by
  rw [resolve_join_single h, resolve_tmp]

theorem sweepEntry_issues :
    (sweepEntry p cutoff).Issues fun c => forall t, c ≠ Call.listdir t := by
  have hisfile : forall t, Call.isfile p ≠ Call.listdir t := by
    intro t h
    cases h
  have hgetmtime : forall t, Call.getmtime p ≠ Call.listdir t := by
    intro t h
    cases h
  have hremove : forall t, Call.remove p ≠ Call.listdir t := by
    intro t h
    cases h
  unfold sweepEntry
  apply Prog.Issues.tryCatch
  · apply (issues_call (Call.isfile p) hisfile).bind
    intro regular
    cases regular with
    | false => exact Prog.issues_pure _
    | true =>
        apply (issues_raising (issues_call (Call.getmtime p) hgetmtime)).bind
        intro mtime
        show Prog.Issues (S := calls) _ (if mtime < cutoff then _ else _)
        split
        · apply (issues_raising (issues_call (Call.remove p) hremove)).bind
          intro _
          exact Prog.issues_pure _
        · exact Prog.issues_pure _
  · intro e
    cases e with
    | os n => exact Prog.issues_pure _
    | _ => exact Prog.issues_raise _

theorem sweepNames_issues {removed : Nat} :
    (sweepNames tmp cutoff names removed).Issues
      fun c => forall t, c ≠ Call.listdir t := by
  induction names generalizing removed with
  | nil => exact Prog.issues_pure _
  | cons name rest ih => exact sweepEntry_issues.bind fun _ => ih

/-- A run that lists the directory sweeps it. -/
theorem swept_of_thinned
    (hplain : forall name, fs.node (tmpLoc root name) ≠ none -> Plain name)
    (hnames : forall name, name ∈ names <->
      fs.node (resolve (join root tmpDir) ++ [name]) ≠ none)
    {exhaustive : Prop}
    (h : Thinned exhaustive (join root tmpDir) cutoff names fs gone fs') :
    (forall q, q ∈ gone <-> fs'.node q ≠ fs.node q) ∧
    (forall q, q ∈ gone -> fs'.node q = none ∧ Stale root cutoff fs q) ∧
    (exhaustive -> forall name, Stale root cutoff fs (tmpLoc root name) ->
      fs'.node (tmpLoc root name) = none) := by
  have hentry : forall name, name ∈ names ->
      resolve (join (join root tmpDir) name) = tmpLoc root name := by
    intro name hname
    apply resolve_tmpEntry
    apply hplain
    rw [← resolve_tmp]
    exact (hnames name).mp hname
  refine ⟨?_, ?_, ?_⟩
  · intro q
    rw [h.node]
    constructor
    · intro hq
      rcases h.old q hq with ⟨i, hi, _⟩
      rw [if_pos hq, hi]
      simp
    · intro hne
      by_contra hq
      exact hne (if_neg hq)
  · intro q hq
    rcases h.named q hq with ⟨name, hname, rfl⟩
    refine ⟨?_, ⟨name, hentry name hname⟩, h.old _ hq⟩
    rw [h.node, if_pos hq]
  · intro hall name hswept
    rcases hswept with ⟨_, i, hi, hold⟩
    have hname : name ∈ names := by
      rw [hnames, resolve_tmp, hi]
      simp
    rw [← hentry name hname] at hi ⊢
    rw [h.node, if_pos (h.complete hall name hname i hi hold)]

theorem faultless_noFault : Faultless noFault := fun _ _ _ h => h

theorem swept_of_absent (hsound : fs.Sound)
    (habsent : trace = [⟨Call.isdir (join root tmpDir), false⟩]) :
    Swept root older fs trace (Except.ok 0) fs where
  counted := by
    refine ⟨[], List.nodup_nil, ?_, rfl⟩
    intro q
    simp
  spared := by
    intro q hq
    exact absurd rfl hq
  contents := rfl
  complete := by
    intro hquiet name hname
    rw [habsent] at hquiet
    cases cleanupStaleTmp_run hquiet with
    | absent hnodir =>
        -- A file would have the directory for its parent.
        rcases isFile_iff.mp hname with ⟨i, hi⟩
        have hparent := hsound.parent (tmpLoc root name) (by simp [tmpLoc])
          (by rw [hi]; simp)
        rw [← resolve_tmp, List.dropLast_concat] at hparent
        exact absurd hparent (hnodir faultless_noFault)

theorem swept_of_listed {o : Except Exn Nat} {now : Rat}
    {rest : List (Sigma calls.Ret)}
    (hplain : forall name, fs.node (tmpLoc root name) ≠ none -> Plain name)
    (hnames : forall name, name ∈ names <->
      fs.node (resolve (join root tmpDir) ++ [name]) ≠ none)
    (hrest : (system allow).machine.Runs fs
      (sweepNames (join root tmpDir) (now - older) names 0) rest o fs') :
    Swept root older fs
      (⟨Call.isdir (join root tmpDir), true⟩ :: ⟨Call.time, now⟩ ::
        ⟨Call.listdir (join root tmpDir), Except.ok names⟩ :: rest) o fs' := by
  rcases Machine.wp_sound wp_sweepNames_exact hrest with ⟨gone, hthinned, ho⟩
  rcases swept_of_thinned hplain hnames hthinned with ⟨hgone, hspared, _⟩
  refine ⟨⟨gone, hthinned.nodup, hgone, ?_⟩, ?_, hthinned.contents, ?_⟩
  · rw [ho, Nat.zero_add]
  · intro q hq
    rcases hspared q ((hgone q).mpr hq) with ⟨hnone, hstale⟩
    exact ⟨hnone, now, by simp, hstale⟩
  · intro hquiet name _
    refine ⟨now, by simp, ?_⟩
    cases cleanupStaleTmp_run hquiet with
    | listed _ _ _ _ _ _ hquietRest =>
        rcases Machine.wp_sound wp_sweepNames_exact hquietRest with
          ⟨gone', hthinned', _⟩
        rcases swept_of_thinned hplain hnames hthinned' with ⟨_, _, hcomplete⟩
        exact hcomplete faultless_noFault name

def leftTree : FileTree :=
  sampleTree.create (tmpLoc sampleDriver.root (text "left")) 0

theorem leftTree_sound : leftTree.Sound :=
  sampleTree_fresh.sound.create 0 (by decide) (by decide)

theorem leftTree_plain {name : Text}
    (h : leftTree.node (tmpLoc sampleDriver.root name) ≠ none) :
    Plain name := by
  by_cases hleft : tmpLoc sampleDriver.root name =
      tmpLoc sampleDriver.root (text "left")
  · have hname : name = text "left" := by
      simpa [tmpLoc] using hleft
    rw [hname]
    decide
  · rw [leftTree, node_create_ne _ _ hleft] at h
    cases hnode : sampleTree.node (tmpLoc sampleDriver.root name) with
    | none => exact absurd hnode h
    | some n =>
        cases n with
        | dir => exact absurd hnode (sampleTree_fresh.clean name)
        | file i =>
            exact absurd hnode
              (sampleTree_fresh.vacant _ i (List.prefix_append _ _))

def bootSweep (failing : Nat) :
    Option (List (Sigma calls.Ret) × Except Exn Nat × FileTree) :=
  (system anyFault).replay
    (fun n => { sampleFault failing n with now := 7200 })
    (cleanupStaleTmp sampleDriver.root 3600) 0 leftTree

def listingFailed : Sigma calls.Ret -> Bool
  | ⟨Call.listdir _, Except.error _⟩ => true
  | _ => false

end StorybookStorage
