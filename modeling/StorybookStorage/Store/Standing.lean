import StorybookStorage.Store.Backlog

/-!
# The state of the jobs of a put

What is known of the tree after the jobs that have run, in whatever order, and
which jobs may still come.  Every job keeps it, so it holds of a crew at any
time.
-/

namespace StorybookStorage

open Python Posix Effects Contract
open LocalFsBlobDriver (Job)

variable {settings : Settings} (d : LocalFsBlobDriver) (slot : Slot settings)

inductive Placing : Call -> Prop where
  | opens (u : Text) : Placing (Call.openWrite (tmpText d.root u))
  | moves (u : Text) :
      Placing (Call.rename (tmpText d.root u) (slot.objectText d.root))

def Clearing (c : Call) : Prop :=
  exists u, c = Call.remove (tmpText d.root u)

def Reliable (allow : Policy) (P : Call -> Prop) : Prop :=
  forall fs c fault, P c -> allow fs c fault -> fault = none

/-- A directory at the object's place blocks it. -/
def putFate (fs : FileTree) (u : Text) (log : List Job) : Fate :=
  fate (fs.isDir (slot.objectLoc d.root)) (tmpText d.root u) log

structure Standing (allow : Policy) (fs : FileTree) (u : Text) (s : FileTree)
    (log : List Job) : Prop where
  fenced : Fenced d fs u s
  opened : forall t, Job.openWrite t ∈ log -> t = tmpText d.root u
  held : (putFate d slot fs u log).moved = false -> Held d slot fs u s
  left : (putFate d slot fs u log).moved = false ->
    s.isFile (tmpLoc d.root u) = true ->
    (putFate d slot fs u log).staged = true
  staged : Reliable allow (Placing d slot) ->
    (putFate d slot fs u log).moved = false ->
    (putFate d slot fs u log).staged = true ->
    s.isFile (tmpLoc d.root u) = true
  moved : Reliable allow (Placing d slot) ->
    (putFate d slot fs u log).moved = true ->
    exists i, s.node (slot.objectLoc d.root) = some (Node.file i) ∧
      fs.nextIno ≤ i

inductive Due (fs : FileTree) (u : Text) (s : FileTree) (log : List Job) :
    Job -> Prop where
  | peruses (j : Job) : Perusal j -> Due fs u s log j
  | waits : Due fs u s log Job.nextChunk
  | dates : Due fs u s log Job.utcnow
  | opens : Due fs u s log (Job.openWrite (tmpText d.root u))
  | writes (fh : Nat) (chunk : Bytes) :
      Guarded fs fh s -> Due fs u s log (Job.write fh chunk)
  | flushes (fh : Nat) : Guarded fs fh s -> Due fs u s log (Job.flush fh)
  | syncs (fh : Nat) : Guarded fs fh s -> Due fs u s log (Job.fsync fh)
  | closes (fh : Nat) : Guarded fs fh s -> Due fs u s log (Job.close fh)
  | makes : Due fs u s log (Job.makedirs (dirname (slot.objectText d.root)))
  | moves :
      s.node (slot.objectLoc d.root).dropLast = some Node.dir ->
      Due fs u s log
        (Job.rename (tmpText d.root u) (slot.objectText d.root))
  | clears : Due fs u s log (Job.rm (tmpText d.root u))
  | makesRoom :
      (putFate d slot fs u log).moved = true ->
      Due fs u s log (Job.makedirs (dirname (slot.sidecarText d.root)))
  | describes (body : Text) :
      (putFate d slot fs u log).moved = true ->
      Due fs u s log (Job.atomicWriteText (slot.sidecarText d.root) body)

section Standing

variable {d slot} {allow : Policy} {fs s s' : FileTree} {u : Text}
  {log : List Job} {j : Job}

/-- Nothing is opened but the staging file, if the next job opens nothing
else. -/
theorem Standing.opened_snoc (h : Standing d slot allow fs u s log)
    (hopen : forall t, j = Job.openWrite t -> t = tmpText d.root u) :
    forall t, Job.openWrite t ∈ log ++ [j] -> t = tmpText d.root u := by
  intro t ht
  rcases List.mem_append.mp ht with hold | hnew
  · exact h.opened t hold
  · exact hopen t (List.mem_singleton.mp hnew).symm

theorem Standing.calm (h : Standing d slot allow fs u s log)
    (hcalm : Calm d slot u s s')
    (hheld : (putFate d slot fs u log).moved = false ->
      Innocent d slot fs u s s')
    (hj : putFate d slot fs u (log ++ [j]) = putFate d slot fs u log)
    (hopen : forall t, j ≠ Job.openWrite t) :
    Standing d slot allow fs u s' (log ++ [j]) := by
  have hfile : s'.isFile (tmpLoc d.root u) = true <->
      s.isFile (tmpLoc d.root u) = true := by
    rw [isFile_iff, isFile_iff]
    exact exists_congr hcalm.tmp
  constructor
  · exact h.fenced.calm hcalm
  · exact h.opened_snoc fun t ht => absurd ht (hopen t)
  · rw [hj]
    intro hmoved
    exact (h.held hmoved).innocent (hheld hmoved)
  · rw [hj, hfile]
    exact h.left
  · rw [hj, hfile]
    exact h.staged
  · rw [hj]
    intro hreliable hmoved
    rcases h.moved hreliable hmoved with ⟨i, hi, hle⟩
    exact ⟨i, (hcalm.object i).mpr hi, hle⟩

theorem Standing.innocent (h : Standing d slot allow fs u s log)
    (hinnocent : Innocent d slot fs u s s')
    (hj : putFate d slot fs u (log ++ [j]) = putFate d slot fs u log)
    (hopen : forall t, j ≠ Job.openWrite t) :
    Standing d slot allow fs u s' (log ++ [j]) :=
  h.calm hinnocent.calm (fun _ => hinnocent) hj hopen

theorem Held.beside (h : Held d slot fs u s)
    (hnode : forall q, q ≠ tmpLoc d.root u -> s'.node q = s.node q)
    (hinodes : forall i, i < fs.nextIno -> s'.inodes i = s.inodes i) :
    Held d slot fs u s' where
  files := by
    intro q i hq
    rw [hnode q hq]
    exact h.files q i hq
  inodes := fun i hi => (hinodes i hi).trans (h.inodes i hi)
  blocked := by
    rw [hnode _ (tmpLoc_ne_objectLoc u)]
    exact h.blocked

theorem staging_ne_tmpLoc : resolve d.root ++ [tmpDir] ≠ tmpLoc d.root u := by
  intro heq
  have hlen := congrArg List.length heq
  simp [tmpLoc] at hlen

theorem root_ne_tmpLoc : [] ≠ tmpLoc d.root u := by
  intro heq
  have hlen := congrArg List.length heq
  simp [tmpLoc] at hlen

theorem open_effect {r : Except Errno Nat} (htoken : IsToken u)
    (h : Fenced d fs u s)
    (hstep : (system allow).machine.Step s
      (Call.openWrite (tmpText d.root u)) r s') :
    Fenced d fs u s' ∧
      (forall q, q ≠ tmpLoc d.root u -> s'.node q = s.node q) ∧
      forall i, i < fs.nextIno -> s'.inodes i = s.inodes i := by
  have hloc : resolve (tmpText d.root u) = tmpLoc d.root u :=
    resolve_tmpText htoken
  rcases hstep with ⟨ch, _, hexec⟩
  rcases exec_openWrite hexec with
    ⟨_, _, rfl⟩ | ⟨j, hj, _, rfl⟩ | ⟨_, _, _, rfl⟩
  · exact ⟨h, fun _ _ => rfl, fun _ _ => rfl⟩
  · rw [hloc] at hj
    refine ⟨⟨h.root, h.nextIno, h.staging, h.own, h.vacant⟩, fun _ _ => rfl, ?_⟩
    intro i hi
    apply Function.update_of_ne
    have hle := h.own j hj
    omega
  · rw [hloc]
    have hnode : forall q, q ≠ tmpLoc d.root u ->
        (s.create (tmpLoc d.root u) ch.now).node q = s.node q :=
      fun q hq => FileTree.node_create_ne s ch.now hq
    have hself := FileTree.node_create_self s (tmpLoc d.root u) ch.now
    refine ⟨⟨?_, ?_, ?_, ?_, ?_⟩, hnode, ?_⟩
    · exact (hnode _ root_ne_tmpLoc).trans h.root
    · exact Nat.le_succ_of_le h.nextIno
    · exact (hnode _ staging_ne_tmpLoc).trans h.staging
    · intro i hi
      have heq := hself.symm.trans hi
      cases heq
      exact h.nextIno
    · intro hdir
      have heq := hself.symm.trans hdir
      cases heq
    · intro i hi
      apply Function.update_of_ne
      have hle := h.nextIno
      omega

theorem Standing.open (h : Standing d slot allow fs u s log)
    {r : Except Errno Nat} (htoken : IsToken u)
    (hstep : (system allow).machine.Step s
      (Call.openWrite (tmpText d.root u)) r s') :
    Standing d slot allow fs u s'
      (log ++ [Job.openWrite (tmpText d.root u)]) := by
  have hloc : resolve (tmpText d.root u) = tmpLoc d.root u :=
    resolve_tmpText htoken
  rcases open_effect htoken h.fenced hstep with ⟨hfenced, hnode, hinodes⟩
  have hfate : putFate d slot fs u
      (log ++ [Job.openWrite (tmpText d.root u)]) =
      { staged := true, moved := (putFate d slot fs u log).moved } := by
    simp [putFate, Fate.after]
  constructor
  · exact hfenced
  · exact h.opened_snoc fun t ht => (Job.openWrite.inj ht).symm
  · rw [hfate]
    exact fun hmoved => (h.held hmoved).beside hnode hinodes
  · rw [hfate]
    exact fun _ _ => rfl
  · intro hreliable _ _
    -- The staging directory is there and the name is free, so opening works.
    cases r with
    | ok fh => rw [← hloc]; exact opened_file hstep
    | error n =>
        rcases hstep with ⟨ch, hlegal, hexec⟩
        have hfault := hreliable _ _ _ (Placing.opens u) hlegal.left
        rcases openWrite_error hfault hexec with hdir | hparent
        · rw [hloc] at hdir
          exact absurd hdir h.fenced.vacant
        · rw [hloc] at hparent
          have hlast : (tmpLoc d.root u).dropLast =
              resolve d.root ++ [tmpDir] := by
            unfold tmpLoc
            rw [append_two, List.dropLast_concat]
          rw [hlast] at hparent
          exact absurd h.fenced.staging hparent
  · rw [hfate]
    intro hreliable hmoved
    rcases h.moved hreliable hmoved with ⟨i, hi, hle⟩
    exact ⟨i, (hnode _ (tmpLoc_ne_objectLoc u)).trans hi, hle⟩

theorem Standing.remove (h : Standing d slot allow fs u s log)
    {r : Except Errno Unit} (htoken : IsToken u)
    (hreliable : Reliable allow (Clearing d))
    (hstep : (system allow).machine.Step s
      (Call.remove (tmpText d.root u)) r s') :
    Standing d slot allow fs u s' (log ++ [Job.rm (tmpText d.root u)]) := by
  have hloc : resolve (tmpText d.root u) = tmpLoc d.root u :=
    resolve_tmpText htoken
  have hfate : putFate d slot fs u (log ++ [Job.rm (tmpText d.root u)]) =
      { staged := false, moved := (putFate d slot fs u log).moved } := by
    simp [putFate, Fate.after]
  rcases hstep with ⟨ch, hlegal, hexec⟩
  have hfault := hreliable _ _ _ ⟨u, rfl⟩ hlegal.left
  have heffect : (forall i, s'.node (tmpLoc d.root u) ≠ some (Node.file i)) ∧
      s'.node (tmpLoc d.root u) ≠ some Node.dir ∧
      (forall q, q ≠ tmpLoc d.root u -> s'.node q = s.node q) ∧
      s'.nextIno = s.nextIno ∧ s'.inodes = s.inodes := by
    cases r with
    | error n =>
        have hnone := remove_error hfault hexec
        rw [hloc] at hnone
        rcases exec_remove hexec with ⟨_, _, rfl⟩ | ⟨j, hr, _⟩
        · exact ⟨hnone, h.fenced.vacant, fun _ _ => rfl, rfl, rfl⟩
        · cases hr
    | ok _ =>
        rcases exec_remove hexec with ⟨_, hr, _⟩ | ⟨j, _, _, rfl⟩
        · cases hr
        · rw [hloc]
          refine ⟨?_, ?_, fun q hq => FileTree.node_unlink_ne s hq, rfl, rfl⟩
          · intro i
            simp
          · simp
  rcases heffect with ⟨hnone, hvacant, hnode, hino, hinodes⟩
  constructor
  · refine ⟨?_, ?_, ?_, fun i hi => absurd hi (hnone i), hvacant⟩
    · exact (hnode _ root_ne_tmpLoc).trans h.fenced.root
    · rw [hino]
      exact h.fenced.nextIno
    · exact (hnode _ staging_ne_tmpLoc).trans h.fenced.staging
  · apply h.opened_snoc
    intro t ht
    cases ht
  · rw [hfate]
    exact fun hmoved => (h.held hmoved).beside hnode fun i _ => by rw [hinodes]
  · intro _ hfile
    rcases isFile_iff.mp hfile with ⟨i, hi⟩
    exact absurd hi (hnone i)
  · rw [hfate]
    intro _ _ hstaged
    cases hstaged
  · rw [hfate]
    intro hplacing hmoved
    rcases h.moved hplacing hmoved with ⟨i, hi, hle⟩
    exact ⟨i, (hnode _ (tmpLoc_ne_objectLoc u)).trans hi, hle⟩

theorem fate_rename :
    putFate d slot fs u
        (log ++ [Job.rename (tmpText d.root u) (slot.objectText d.root)]) =
      if (putFate d slot fs u log).staged = true ∧
          fs.isDir (slot.objectLoc d.root) = false then
        { staged := false, moved := true }
      else putFate d slot fs u log := by
  unfold putFate
  rw [fate_snoc]
  simp only [Fate.after, true_and]

theorem Standing.unrenamed (h : Standing d slot allow fs u s log) {n : Errno}
    (htoken : IsToken u)
    (hparent : s.node (slot.objectLoc d.root).dropLast = some Node.dir)
    (hstep : (system allow).machine.Step s
      (Call.rename (tmpText d.root u) (slot.objectText d.root))
      (Except.error n) s') :
    Standing d slot allow fs u s'
      (log ++ [Job.rename (tmpText d.root u) (slot.objectText d.root)]) := by
  have hloc : resolve (tmpText d.root u) = tmpLoc d.root u :=
    resolve_tmpText htoken
  rcases hstep with ⟨ch, hlegal, hexec⟩
  have hsame : s' = s := by
    rcases exec_rename hexec with ⟨_, _, hsame⟩ | ⟨_, hr, _⟩
    · exact hsame
    · cases hr
  subst hsame
  have hopened := h.opened_snoc
    (j := Job.rename (tmpText d.root u) (slot.objectText d.root))
    (fun t ht => by cases ht)
  by_cases hcond : (putFate d slot fs u log).staged = true ∧
      fs.isDir (slot.objectLoc d.root) = false
  · have hfate := (@fate_rename settings d slot fs u log).trans (if_pos hcond)
    constructor
    · exact h.fenced
    · exact hopened
    · rw [hfate]
      intro hmoved
      cases hmoved
    · rw [hfate]
      intro hmoved
      cases hmoved
    · rw [hfate]
      intro _ hmoved
      cases hmoved
    · intro hreliable _
      cases hmoved : (putFate d slot fs u log).moved with
      | true => exact h.moved hreliable hmoved
      | false =>
          have hfault := hreliable _ _ _ (Placing.moves u) hlegal.left
          rcases isFile_iff.mp (h.staged hreliable hmoved hcond.left) with
            ⟨i, hi⟩
          rw [← hloc] at hi
          rcases rename_error hfault hi hexec with hdir | hnone
          · rw [slot.resolve_objectText] at hdir
            have hblocked := isDir_iff.mpr ((h.held hmoved).blocked.mp hdir)
            rw [hcond.right] at hblocked
            cases hblocked
          · rw [slot.resolve_objectText] at hnone
            exact absurd hparent hnone
  · have hfate := (@fate_rename settings d slot fs u log).trans (if_neg hcond)
    constructor
    · exact h.fenced
    · exact hopened
    · rw [hfate]
      exact h.held
    · rw [hfate]
      exact h.left
    · rw [hfate]
      exact h.staged
    · rw [hfate]
      exact h.moved

theorem Standing.renamed (h : Standing d slot allow fs u s log)
    (htoken : IsToken u)
    (hstep : (system allow).machine.Step s
      (Call.rename (tmpText d.root u) (slot.objectText d.root))
      (Except.ok ()) s') :
    Standing d slot allow fs u s'
        (log ++ [Job.rename (tmpText d.root u) (slot.objectText d.root)]) ∧
      (putFate d slot fs u
        (log ++ [Job.rename (tmpText d.root u)
          (slot.objectText d.root)])).moved = true := by
  have hloc : resolve (tmpText d.root u) = tmpLoc d.root u :=
    resolve_tmpText htoken
  have hdirs := fun q => @step_dir s s' allow _ _ q hstep
  rcases hstep with ⟨ch, _, hexec⟩
  rcases exec_rename hexec with ⟨_, hr, _⟩ | ⟨i, _, hi, hdest, _, rfl⟩
  · cases hr
  rw [hloc] at hi hdirs ⊢
  rw [slot.resolve_objectText] at hdest hdirs ⊢
  have hmoved : (putFate d slot fs u
      (log ++ [Job.rename (tmpText d.root u)
        (slot.objectText d.root)])).moved = true := by
    rw [fate_rename]
    split
    · rfl
    · rename_i hcond
      cases hold : (putFate d slot fs u log).moved with
      | true => rfl
      | false =>
          -- Nothing was moved before, so what moved now had been staged.
          apply absurd _ hcond
          refine ⟨h.left hold (isFile_iff.mpr ⟨i, hi⟩), ?_⟩
          rw [Bool.eq_false_iff]
          intro hblocked
          exact hdest ((h.held hold).blocked.mpr (isDir_iff.mp hblocked))
  have hgone : ((s.unlink (tmpLoc d.root u)).link (slot.objectLoc d.root)
      (Node.file i)).node (tmpLoc d.root u) = none := by
    rw [FileTree.node_link_ne _ _ (tmpLoc_ne_objectLoc u).symm,
      FileTree.node_unlink_self]
  refine ⟨⟨⟨?_, h.fenced.nextIno, ?_, ?_, ?_⟩, ?_, ?_, ?_, ?_, ?_⟩, hmoved⟩
  · exact hdirs _ h.fenced.root
  · exact hdirs _ h.fenced.staging
  · intro j hj
    rw [hgone] at hj
    cases hj
  · rw [hgone]
    simp
  · apply h.opened_snoc
    intro t ht
    cases ht
  · rw [hmoved]
    intro hno
    cases hno
  · rw [hmoved]
    intro hno
    cases hno
  · rw [hmoved]
    intro _ hno
    cases hno
  · intro _ _
    exact ⟨i, FileTree.node_link_self _ _ _, h.fenced.own i hi⟩

theorem fate_moved (h : (putFate d slot fs u log).moved = true) :
    (putFate d slot fs u (log ++ [j])).moved = true := by
  unfold putFate at h ⊢
  rw [fate_snoc]
  cases j with
  | openWrite t =>
      simp only [Fate.after]
      split
      · exact h
      · exact h
  | rm t =>
      simp only [Fate.after]
      split
      · exact h
      · exact h
  | rename t dst =>
      simp only [Fate.after]
      split
      · rfl
      · exact h
  | _ => exact h

variable {trace : List (Sigma calls.Ret)}

theorem Standing.run (h : Standing d slot allow fs u s log) (htoken : IsToken u)
    (hreliable : Reliable allow (Clearing d)) (hdue : Due d slot fs u s log j)
    {r : Except Exn (d.jobs.Val j)}
    (hrun : (system allow).machine.Runs s (d.jobs.run j) trace r s') :
    Standing d slot allow fs u s' (log ++ [j]) := by
  have hplain : forall {i : Job},
      (forall p, Fate.after (fs.isDir (slot.objectLoc d.root))
        (tmpText d.root u) p i = p) ->
      putFate d slot fs u (log ++ [i]) = putFate d slot fs u log := by
    intro i hi
    unfold putFate
    rw [fate_snoc, hi]
  cases hdue with
  | peruses j hj =>
      refine h.innocent ((hj.still hrun).innocent (runs_grows hrun))
        (hplain ?_) ?_
      · cases hj <;> exact fun _ => rfl
      · cases hj <;> simp
  | waits =>
      cases hrun
      exact h.innocent innocent_refl (hplain fun _ => rfl) (by simp)
  | dates =>
      rcases Machine.runs_single (fun b => ⟨_, rfl⟩) hrun with ⟨b, hstep, _⟩
      cases quiet_same (by trivial) hstep
      exact h.innocent innocent_refl (hplain fun _ => rfl) (by simp)
  | opens =>
      rcases Machine.runs_single (fun r => by cases r <;> exact ⟨_, rfl⟩) hrun
        with ⟨r, hstep, _⟩
      exact h.open htoken hstep
  | writes fh chunk hguarded =>
      rcases Machine.runs_single (fun r => by cases r <;> exact ⟨_, rfl⟩) hrun
        with ⟨r, hstep, _⟩
      exact h.innocent (fill_innocent (by rfl) hguarded hstep)
        (hplain fun _ => rfl) (by simp)
  | flushes fh hguarded =>
      rcases Machine.runs_single (fun r => by cases r <;> exact ⟨_, rfl⟩) hrun
        with ⟨r, hstep, _⟩
      exact h.innocent (fill_innocent (by rfl) hguarded hstep)
        (hplain fun _ => rfl) (by simp)
  | syncs fh hguarded =>
      rcases Machine.runs_single (fun r => by cases r <;> exact ⟨_, rfl⟩) hrun
        with ⟨r, hstep, _⟩
      exact h.innocent (fill_innocent (by rfl) hguarded hstep)
        (hplain fun _ => rfl) (by simp)
  | closes fh hguarded =>
      rcases Machine.runs_single (fun r => by cases r <;> exact ⟨_, rfl⟩) hrun
        with ⟨r, hstep, _⟩
      exact h.innocent (fill_innocent (by rfl) hguarded hstep)
        (hplain fun _ => rfl) (by simp)
  | makes =>
      rcases Machine.runs_single (fun r => by cases r <;> exact ⟨_, rfl⟩) hrun
        with ⟨r, hstep, _⟩
      exact h.innocent (make_innocent hstep) (hplain fun _ => rfl) (by simp)
  | moves hparent =>
      rcases Machine.runs_single (fun r => by cases r <;> exact ⟨_, rfl⟩) hrun
        with ⟨r, hstep, _⟩
      cases r with
      | ok _ => exact (h.renamed htoken hstep).left
      | error n => exact h.unrenamed htoken hparent hstep
  | clears =>
      rcases safeUnlink_runs hrun with ⟨r, hstep, _⟩
      exact h.remove htoken hreliable hstep
  | makesRoom hmoved =>
      rcases Machine.runs_single (fun r => by cases r <;> exact ⟨_, rfl⟩) hrun
        with ⟨r, hstep, _⟩
      refine h.calm (describe_calm hstep) ?_ (hplain fun _ => rfl) (by simp)
      intro hno
      rw [hmoved] at hno
      cases hno
  | describes body hmoved =>
      refine h.calm (record_calm hrun) ?_ (hplain fun _ => rfl) (by simp)
      intro hno
      rw [hmoved] at hno
      cases hno

/-- What is due stays due. -/
theorem Due.later {i : Job} (h : Due d slot fs u s log i)
    (hgrows : Grows s s')
    (hdirs : forall q, s.node q = some Node.dir -> s'.node q = some Node.dir) :
    Due d slot fs u s' (log ++ [j]) i := by
  cases h with
  | peruses _ hj => exact Due.peruses _ hj
  | waits => exact Due.waits
  | dates => exact Due.dates
  | opens => exact Due.opens
  | writes fh chunk hguarded => exact Due.writes fh chunk (hguarded.grows hgrows)
  | flushes fh hguarded => exact Due.flushes fh (hguarded.grows hgrows)
  | syncs fh hguarded => exact Due.syncs fh (hguarded.grows hgrows)
  | closes fh hguarded => exact Due.closes fh (hguarded.grows hgrows)
  | makes => exact Due.makes
  | moves hparent => exact Due.moves (hdirs _ hparent)
  | clears => exact Due.clears
  | makesRoom hmoved => exact Due.makesRoom (fate_moved hmoved)
  | describes body hmoved => exact Due.describes body (fate_moved hmoved)

end Standing

def putDiscipline {allow : Policy} {u : Text} (fs : FileTree)
    (htoken : IsToken u) (hreliable : Reliable allow (Clearing d)) :
    d.jobs.Discipline (system allow).machine where
  Valid s log := Standing d slot allow fs u s log
  Due s log j := Due d slot fs u s log j
  valid hvalid hdue hrun := hvalid.run htoken hreliable hdue hrun
  due _ _ hrun hi := hi.later (runs_grows hrun) fun _ => runs_dir hrun

def readDiscipline (allow : Policy) (fs : FileTree) :
    d.jobs.Discipline (system allow).machine where
  Valid s log := Still fs s ∧ forall t, Job.openWrite t ∉ log
  Due _ _ j := Perusal j
  valid := by
    intro s s' log j trace r hminded hdue hrun
    rcases hminded with ⟨hstill, hunopened⟩
    refine ⟨hstill.trans (hdue.still hrun), ?_⟩
    intro t ht
    rcases List.mem_append.mp ht with hold | hnew
    · exact hunopened t hold
    · rw [← List.mem_singleton.mp hnew] at hdue
      cases hdue
  due _ _ _ hi := hi

end StorybookStorage
