import StorybookStorage.Drivers.PutTask
import StorybookStorage.Posix.Directories
import StorybookStorage.Posix.Growth
import StorybookStorage.Store.Litter

/-!
# The jobs of a cancelled put

A put that was cancelled leaves jobs behind, and they run in any order.  What
they do to the staging file and to the object depends on the order alone: the
file that was staged stays until it is removed, and a rename moves it only if
it is still there.
-/

namespace StorybookStorage

open Python Posix Effects Contract
open LocalFsBlobDriver (Job)

/-!
## Orders
-/

/-- The staging file is removed, and before that it is not moved away, unless
something blocks the place it is moved to. -/
def Cleared (blocked : Bool) (t : Text) (rest : List Job) : Prop :=
  exists before after, rest = before ++ Job.rm t :: after ∧
    forall dst, Job.rename t dst ∈ before -> blocked = true

def EachCleared (blocked : Bool) (t : Text) (log : List Job) : Prop :=
  forall before after, log = before ++ Job.openWrite t :: after ->
    Cleared blocked t after

def AllCleared (blocked : Bool) (log : List Job) : Prop :=
  forall t, EachCleared blocked t log

structure Fate where
  staged : Bool
  moved : Bool
deriving DecidableEq

def Fate.idle : Fate where
  staged := false
  moved := false

def Fate.after (blocked : Bool) (t : Text) (p : Fate) : Job -> Fate
  | Job.openWrite t' =>
      if t' = t then { staged := true, moved := p.moved } else p
  | Job.rm t' => if t' = t then { staged := false, moved := p.moved } else p
  | Job.rename t' _ =>
      if t' = t ∧ p.staged = true ∧ blocked = false then
        { staged := false, moved := true }
      else p
  | _ => p

def fate (blocked : Bool) (t : Text) (log : List Job) : Fate :=
  log.foldl (Fate.after blocked t) Fate.idle

section Orders

variable {blocked : Bool} {t : Text} {j : Job} {log rest : List Job}

@[simp] theorem fate_snoc :
    fate blocked t (log ++ [j]) = (fate blocked t log).after blocked t j := by
  simp [fate]

theorem not_cleared_nil : ¬ Cleared blocked t [] := by
  intro hpast
  rcases hpast with ⟨before, after, heq, _⟩
  simp at heq

theorem cleared_rm : Cleared blocked t (Job.rm t :: rest) :=
  ⟨[], rest, rfl, fun _ h => nomatch h⟩

theorem cleared_cons (hrm : j ≠ Job.rm t) :
    Cleared blocked t (j :: rest) <->
      ((forall dst, j = Job.rename t dst -> blocked = true) ∧
        Cleared blocked t rest) := by
  constructor
  · intro hpast
    rcases hpast with ⟨before, after, heq, hclear⟩
    cases before with
    | nil => exact absurd (List.cons.inj heq).left hrm
    | cons i before =>
        rcases List.cons.inj heq with ⟨rfl, rfl⟩
        constructor
        · intro dst heq
          subst heq
          exact hclear dst List.mem_cons_self
        · exact ⟨before, after, rfl,
            fun dst h => hclear dst (List.mem_cons_of_mem _ h)⟩
  · intro hpast
    rcases hpast with ⟨hfirst, before, after, rfl, hclear⟩
    refine ⟨j :: before, after, rfl, ?_⟩
    intro dst hmem
    rcases List.mem_cons.mp hmem with heq | hrest
    · exact hfirst dst heq.symm
    · exact hclear dst hrest

theorem eachCleared_cons :
    EachCleared blocked t (j :: rest) <->
      ((j = Job.openWrite t -> Cleared blocked t rest) ∧
        EachCleared blocked t rest) := by
  constructor
  · intro h
    constructor
    · intro heq
      subst heq
      exact h [] rest rfl
    · intro before after heq
      subst heq
      exact h (j :: before) after rfl
  · intro hpast before after heq
    rcases hpast with ⟨hfirst, hrest⟩
    cases before with
    | nil =>
        rcases List.cons.inj heq with ⟨rfl, rfl⟩
        exact hfirst rfl
    | cons i before =>
        exact hrest before after (List.cons.inj heq).right

/-- From any fate on, the jobs end with nothing staged and nothing moved
exactly if they clear what is staged before and whatever they stage. -/
theorem after_idle_iff (p : Fate) :
    log.foldl (Fate.after blocked t) p = Fate.idle <->
      (p.moved = false ∧ (p.staged = true -> Cleared blocked t log) ∧
        EachCleared blocked t log) := by
  induction log generalizing p with
  | nil =>
      have hnone : EachCleared blocked t [] := by
        intro before after heq
        simp at heq
      rcases p with ⟨staged, moved⟩
      simp [Fate.idle, not_cleared_nil, hnone, and_comm]
  | cons j rest ih =>
      rw [List.foldl_cons, ih, eachCleared_cons]
      by_cases hrm : j = Job.rm t
      · subst hrm
        simp [Fate.after, cleared_rm]
      · rw [cleared_cons hrm]
        cases j with
        | openWrite t' =>
            by_cases ht : t' = t
            · subst ht
              simp only [Fate.after, if_true]
              simp
              tauto
            · simp [Fate.after, ht]
        | rm t' =>
            have ht : t' ≠ t := fun h => hrm (h ▸ rfl)
            simp [Fate.after, ht]
        | rename t' dst =>
            by_cases ht : t' = t
            · subst ht
              rcases p with ⟨staged, moved⟩
              cases staged <;> cases blocked <;> simp [Fate.after]
            · simp [Fate.after, ht]
        | _ => simp [Fate.after]

end Orders

/-!
## Trees
-/

variable {settings : Settings} (d : LocalFsBlobDriver) (slot : Slot settings)

structure Untouched (fs fs' : FileTree) (q : Path) : Prop where
  node : forall i, fs'.node q = some (Node.file i) <->
    fs.node q = some (Node.file i)
  inode : forall i, fs.node q = some (Node.file i) ->
    fs'.inodes i = fs.inodes i

structure Intact (fs fs' : FileTree) : Prop where
  object : Untouched fs fs' (slot.objectLoc d.root)
  sidecar : Untouched fs fs' (slot.sidecarLoc d.root)
  tidy : forall name, fs'.isFile (tmpLoc d.root name) = true ->
    fs.isFile (tmpLoc d.root name) = true

structure Fenced (fs : FileTree) (u : Text) (s : FileTree) : Prop where
  root : s.node [] = some Node.dir
  nextIno : fs.nextIno ≤ s.nextIno
  staging : s.node (resolve d.root ++ [tmpDir]) = some Node.dir
  own : forall i, s.node (tmpLoc d.root u) = some (Node.file i) ->
    fs.nextIno ≤ i
  vacant : s.node (tmpLoc d.root u) ≠ some Node.dir

structure Held (fs : FileTree) (u : Text) (s : FileTree) : Prop where
  files : forall q i, q ≠ tmpLoc d.root u ->
    (s.node q = some (Node.file i) <-> fs.node q = some (Node.file i))
  inodes : forall i, i < fs.nextIno -> s.inodes i = fs.inodes i
  blocked : s.node (slot.objectLoc d.root) = some Node.dir <->
    fs.node (slot.objectLoc d.root) = some Node.dir

structure Calm (u : Text) (s s' : FileTree) : Prop where
  grows : Grows s s'
  dirs : forall q, s.node q = some Node.dir -> s'.node q = some Node.dir
  tmp : forall i, s'.node (tmpLoc d.root u) = some (Node.file i) <->
    s.node (tmpLoc d.root u) = some (Node.file i)
  tmpDir : s'.node (tmpLoc d.root u) = some Node.dir ->
    s.node (tmpLoc d.root u) = some Node.dir
  object : forall i, s'.node (slot.objectLoc d.root) = some (Node.file i) <->
    s.node (slot.objectLoc d.root) = some (Node.file i)

structure Innocent (fs : FileTree) (u : Text) (s s' : FileTree) : Prop where
  grows : Grows s s'
  dirs : forall q, s.node q = some Node.dir -> s'.node q = some Node.dir
  files : forall q i, s'.node q = some (Node.file i) <->
    s.node q = some (Node.file i)
  inodes : forall i, i < fs.nextIno -> s'.inodes i = s.inodes i
  tmpDir : s'.node (tmpLoc d.root u) = some Node.dir ->
    s.node (tmpLoc d.root u) = some Node.dir
  objectDir : s'.node (slot.objectLoc d.root) = some Node.dir ->
    s.node (slot.objectLoc d.root) = some Node.dir

section Trees

variable {d slot} {fs s s' : FileTree} {u : Text}

theorem Innocent.calm (h : Innocent d slot fs u s s') : Calm d slot u s s' where
  grows := h.grows
  dirs := h.dirs
  tmp := h.files _
  tmpDir := h.tmpDir
  object := h.files _

theorem innocent_refl : Innocent d slot fs u s s where
  grows := Grows.refl s
  dirs := fun _ h => h
  files := fun _ _ => Iff.rfl
  inodes := fun _ _ => rfl
  tmpDir := fun h => h
  objectDir := fun h => h

theorem Fenced.calm (h : Fenced d fs u s) (hcalm : Calm d slot u s s') :
    Fenced d fs u s' where
  root := hcalm.dirs _ h.root
  nextIno := Nat.le_trans h.nextIno hcalm.grows.nextIno
  staging := hcalm.dirs _ h.staging
  own := fun i hi => h.own i ((hcalm.tmp i).mp hi)
  vacant := fun hdir => h.vacant (hcalm.tmpDir hdir)

theorem Held.innocent (h : Held d slot fs u s)
    (hinnocent : Innocent d slot fs u s s') : Held d slot fs u s' where
  files := fun q i hq => (hinnocent.files q i).trans (h.files q i hq)
  inodes := fun i hi => (hinnocent.inodes i hi).trans (h.inodes i hi)
  blocked :=
    ⟨fun hdir => h.blocked.mp (hinnocent.objectDir hdir),
      fun hdir => hinnocent.dirs _ (h.blocked.mpr hdir)⟩

theorem tmpLoc_ne_sidecarLoc (u : Text) :
    slot.sidecarLoc d.root ≠ tmpLoc d.root u := by
  intro heq
  apply slot.tmp_not_above_sidecarLoc d.root u
  rw [heq]
  exact List.prefix_rfl

theorem Held.intact (h : Held d slot fs u s) (hsound : fs.Sound)
    (hgone : s.isFile (tmpLoc d.root u) = false) : Intact d slot fs s := by
  have hsame : forall q, q ≠ tmpLoc d.root u -> Untouched fs s q := by
    intro q hq
    refine ⟨fun i => h.files q i hq, ?_⟩
    intro i hi
    exact h.inodes i (hsound.bound q i hi)
  refine ⟨hsame _ (tmpLoc_ne_objectLoc u), hsame _ (tmpLoc_ne_sidecarLoc u), ?_⟩
  intro name hfile
  by_cases hname : tmpLoc d.root name = tmpLoc d.root u
  · rw [hname, hgone] at hfile
    cases hfile
  · rcases isFile_iff.mp hfile with ⟨i, hi⟩
    exact isFile_iff.mpr ⟨i, (h.files _ i hname).mp hi⟩

/-!
## What the jobs do
-/

def Guarded (fs : FileTree) (fh : Nat) (s : FileTree) : Prop :=
  fh < s.nextFd ∧ forall x, s.handles fh = some x -> fs.nextIno ≤ x.ino

theorem Guarded.grows {fh : Nat} (h : Guarded fs fh s) (hgrows : Grows s s') :
    Guarded fs fh s' := by
  refine ⟨Nat.lt_of_lt_of_le h.left hgrows.nextFd, ?_⟩
  intro x' hx'
  rcases hgrows.handle fh x' h.left hx' with ⟨x, hx, hino⟩
  rw [← hino]
  exact h.right x hx

variable {allow : Policy}

theorem innocent_of_nodes (hgrows : Grows s s')
    (hnode : forall q, s'.node q = s.node q)
    (hinodes : forall i, i < fs.nextIno -> s'.inodes i = s.inodes i) :
    Innocent d slot fs u s s' where
  grows := hgrows
  dirs := fun q h => (hnode q).trans h
  files := fun q i => by rw [hnode]
  inodes := hinodes
  tmpDir := fun h => (hnode _).symm.trans h
  objectDir := fun h => (hnode _).symm.trans h

def OnDescriptor (fh : Nat) : Call -> Prop
  | Call.write fh' _ => fh' = fh
  | Call.flush fh' => fh' = fh
  | Call.fsync fh' => fh' = fh
  | Call.close fh' => fh' = fh
  | _ => False

theorem fill_innocent {c : Call} {r : Call.Ret c} {fh : Nat}
    (hc : OnDescriptor fh c) (hguarded : Guarded fs fh s)
    (h : (system allow).machine.Step s c r s') : Innocent d slot fs u s s' := by
  rcases h with ⟨ch, _, hexec⟩
  have hgrows := exec_grows hexec
  have hino : forall x i, s.handles fh = some x -> i < fs.nextIno ->
      i ≠ x.ino := by
    intro x i hx hi heq
    have hle := hguarded.right x hx
    omega
  cases c with
  | write fh' b =>
      cases hc
      rcases exec_write hexec with ⟨_, _, rfl⟩ | ⟨x, hx, rfl, _⟩
      · exact innocent_refl
      · refine innocent_of_nodes hgrows (fun _ => rfl) ?_
        intro i hi
        exact Function.update_of_ne (hino x i hx hi) _ _
  | flush fh' =>
      cases hc
      rcases exec_flush hexec with ⟨_, _, rfl⟩ | ⟨x, n, hx, rfl, _⟩
      · exact innocent_refl
      · refine innocent_of_nodes hgrows (fun _ => rfl) ?_
        intro i hi
        exact Function.update_of_ne (hino x i hx hi) _ _
  | fsync fh' =>
      rw [exec_quiet (by trivial) hexec]
      exact innocent_refl
  | close fh' =>
      cases hc
      rcases exec_close hexec with ⟨_, _, rfl⟩ | ⟨x, n, hx, rfl, _⟩
      · exact innocent_refl
      · refine innocent_of_nodes hgrows (fun _ => rfl) ?_
        intro i hi
        exact Function.update_of_ne (hino x i hx hi) _ _
  | _ => exact absurd hc id

theorem single_run {c : Call} {r : Call.Ret c}
    (h : (system allow).machine.Step s c r s') :
    (system allow).machine.Runs s (Prog.op (S := calls) c : Io (Call.Ret c))
      [⟨c, r⟩] (Except.ok r) s' :=
  Machine.Runs.call h (Machine.Runs.done s' r)

theorem make_files {t : Text} {r : Except Errno Unit}
    (h : (system allow).machine.Step s (Call.makedirs t) r s') (q : Path)
    (i : Nat) : s'.node q = some (Node.file i) <->
      s.node q = some (Node.file i) := by
  apply runs_file_iff (single_run h)
  intro e he
  rw [List.mem_singleton.mp he]
  exact List.not_mem_nil

theorem step_grows {c : Call} {r : Call.Ret c}
    (h : (system allow).machine.Step s c r s') : Grows s s' := by
  rcases h with ⟨ch, _, hexec⟩
  exact exec_grows hexec

theorem make_dir {t : Text} {r : Except Errno Unit} {q : Path}
    (h : (system allow).machine.Step s (Call.makedirs t) r s')
    (hq : ¬ q <+: resolve t) (hdir : s'.node q = some Node.dir) :
    s.node q = some Node.dir := by
  rcases step_dir_old h hdir with hold | ⟨t', ht, hway⟩
  · exact hold
  · cases ht
    exact absurd hway hq

theorem make_innocent {r : Except Errno Unit}
    (h : (system allow).machine.Step s
      (Call.makedirs (dirname (slot.objectText d.root))) r s') :
    Innocent d slot fs u s s' where
  grows := step_grows h
  dirs := fun _ => step_dir h
  files := make_files h
  inodes := by
    intro i _
    rcases h with ⟨ch, _, hexec⟩
    rcases exec_makedirs hexec with ⟨_, _, rfl⟩ | ⟨limit, rfl, _, _⟩
    · rfl
    · rw [FileTree.mkdirs_inodes]
  tmpDir := by
    apply make_dir h
    rw [slot.resolve_dirname_objectText]
    intro hway
    exact slot.tmp_not_above_objectLoc d.root u
      (hway.trans (List.dropLast_prefix _))
  objectDir := by
    apply make_dir h
    rw [slot.resolve_dirname_objectText]
    exact Slot.not_prefix_dropLast (slot.objectLoc_ne_nil d.root)

theorem describe_calm {r : Except Errno Unit}
    (h : (system allow).machine.Step s
      (Call.makedirs (dirname (slot.sidecarText d.root))) r s') :
    Calm d slot u s s' where
  grows := step_grows h
  dirs := fun _ => step_dir h
  tmp := make_files h _
  tmpDir := by
    apply make_dir h
    rw [slot.resolve_dirname_sidecarText]
    intro hway
    exact slot.tmp_not_above_sidecarLoc d.root u
      (hway.trans (List.dropLast_prefix _))
  object := make_files h _

inductive RecordCall (tmp path : Text) : Call -> Prop where
  | opens : RecordCall tmp path (Call.openWrite tmp)
  | fills (c : Call) : Looks c -> RecordCall tmp path c
  | moves : RecordCall tmp path (Call.rename tmp path)

theorem record_issues {tmp path : Text} {body : Bytes} :
    Prog.Issues (S := calls) (RecordCall tmp path)
      (do
        let fh ← Os.openWrite tmp
        Prog.tryFinally (Os.write fh body) (Os.close fh)
        Os.rename tmp path : Io Unit) := by
  apply (issues_raising (issues_call _ RecordCall.opens)).bind
  intro fh
  apply Prog.Issues.bind
  · apply Prog.Issues.tryFinally
    · exact issues_raising (issues_call _ (RecordCall.fills _ trivial))
    · exact issues_raising (issues_call _ (RecordCall.fills _ trivial))
  · intro _
    exact issues_raising (issues_call _ RecordCall.moves)

theorem tmpLoc_ne_sidecarTmp {w : Text} (hw : IsToken w) :
    tmpLoc d.root u ≠ resolve (sidecarTmp (slot.sidecarText d.root) w) := by
  rcases slot.resolve_sidecarTmp d.root hw with ⟨name, hname⟩
  rcases slot.sidecarLoc_dropLast d.root with ⟨init, hinit⟩
  intro heq
  rw [hname] at heq
  refine stagingPlace_tmp_meta ?_ heq
  rw [hinit]
  exact ⟨slot.bucket :: init, by simp⟩

theorem record_calm {body : Text} {trace : List (Sigma calls.Ret)}
    {o : Except Exn Unit}
    (hrun : (system allow).machine.Runs s
      (atomicWriteText (slot.sidecarText d.root) body) trace o s') :
    Calm d slot u s s' := by
  have hgrows := runs_grows hrun
  have hdirs := fun q => @runs_dir s s' allow _ _ _ _ _ q hrun
  change (system allow).machine.Runs s (Prog.call (S := calls) Call.uuid4 _)
    trace o s' at hrun
  cases hrun with
  | @call _ s1 _ _ w _ rest _ hdraw hrest =>
      rcases drawn_unnamed hdraw with ⟨htoken, hentries, _⟩
      have hnode : forall q, s1.node q = s.node q := by
        intro q
        unfold FileTree.node
        rw [hentries]
      have hcalls := hrest.issues record_issues
      have hfiles : forall q,
          q ≠ resolve (sidecarTmp (slot.sidecarText d.root) w) ->
          q ≠ slot.sidecarLoc d.root ->
          forall i, s'.node q = some (Node.file i) <->
            s.node q = some (Node.file i) := by
        intro q hq hq' i
        rw [← hnode q]
        apply runs_file_iff hrest
        intro e he hmem
        have hcall := hcalls e he
        generalize e.1 = c at hcall hmem
        cases hcall with
        | opens => exact hq (List.mem_singleton.mp hmem)
        | fills _ hlooks =>
            rw [looks_names hlooks] at hmem
            cases hmem
        | moves =>
            rcases List.mem_cons.mp hmem with heq | hmem
            · exact hq heq
            · rw [← slot.resolve_sidecarText] at hq'
              exact hq' (List.mem_singleton.mp hmem)
      constructor
      · exact hgrows
      · exact hdirs
      · exact hfiles _ (tmpLoc_ne_sidecarTmp htoken)
          (tmpLoc_ne_sidecarLoc u).symm
      · intro hdir
        rw [← hnode]
        rcases runs_dir_old hrest hdir with hold | ⟨t, r, hmem, _⟩
        · exact hold
        · cases hcalls _ hmem with
          | fills _ hlooks => exact absurd hlooks id
      · apply hfiles
        · intro heq
          apply slot.visible_objectLoc d.root
          rw [heq]
          exact ⟨w, slot.place_sidecarTmp htoken⟩
        · exact slot.objectLoc_ne_sidecarLoc d.root slot

end Trees

/-!
## Jobs that read
-/

structure Still (fs fs' : FileTree) : Prop where
  node : fs'.node = fs.node
  inodes : fs'.inodes = fs.inodes
  nextIno : fs'.nextIno = fs.nextIno

theorem Still.refl (fs : FileTree) : Still fs fs where
  node := rfl
  inodes := rfl
  nextIno := rfl

section Reading

variable {d : LocalFsBlobDriver} {allow : Policy} {fs s s1 s' : FileTree}
  {α : Type} {trace : List (Sigma calls.Ret)} {o : Except Exn α}

theorem Still.trans (h : Still fs s) (h' : Still s s') : Still fs s' where
  node := h'.node.trans h.node
  inodes := h'.inodes.trans h.inodes
  nextIno := h'.nextIno.trans h.nextIno

theorem same_of_ended {p : Io α} (hend : exists o', p.ending = some o')
    (hrun : (system allow).machine.Runs s p trace o s') : s' = s := by
  rcases hend with ⟨o', hend⟩
  cases hrun with
  | done _ a => rfl
  | raise _ e => rfl
  | call hstep hrest => cases hend

theorem still_of_ended {p : Io α} (hend : exists o', p.ending = some o')
    (hrun : (system allow).machine.Runs s p trace o s') : Still s s' := by
  cases same_of_ended hend hrun
  exact Still.refl _

theorem still_of_quiet {c : Call} {r : Call.Ret c} (hc : c.Quiet)
    (h : (system allow).machine.Step s c r s') : Still s s' := by
  cases quiet_same hc h
  exact Still.refl _

def Drained (s : FileTree) (fh : Nat) : Prop :=
  forall x, s.handles fh = some x -> x.pending = []

theorem openRead_still {t : Text} {r : Except Errno Nat}
    (h : (system allow).machine.Step s (Call.openRead t) r s') :
    Still s s' ∧ forall fh, r = Except.ok fh -> Drained s' fh := by
  rcases h with ⟨ch, _, hexec⟩
  rcases exec_openRead hexec with ⟨n, rfl, rfl⟩ | ⟨i, _, rfl, rfl⟩
  · refine ⟨Still.refl _, ?_⟩
    intro fh hr
    cases hr
  · refine ⟨⟨rfl, rfl, rfl⟩, ?_⟩
    intro fh hr x hx
    cases hr
    have heq : ({ ino := i, pos := 0, pending := [] } : Handle) = x := by
      simpa [FileTree.openHandle] using hx
    rw [← heq]

theorem read_still {fh : Nat} {limit : Option Nat} {r : Except Errno Bytes}
    (hdrained : Drained s fh)
    (h : (system allow).machine.Step s (Call.read fh limit) r s') :
    Still s s' ∧ Drained s' fh := by
  rcases h with ⟨ch, _, hexec⟩
  rcases exec_read hexec with ⟨n, _, rfl⟩ | ⟨x, got, hx, _, _, rfl⟩
  · exact ⟨Still.refl _, hdrained⟩
  · refine ⟨⟨rfl, rfl, rfl⟩, ?_⟩
    intro y hy
    have heq : y.pending = x.pending := by
      rw [← show _ = y by simpa [FileTree.setHandle] using hy]
    rw [heq]
    exact hdrained x hx

theorem close_still {fh : Nat} {r : Except Errno Unit} (hdrained : Drained s fh)
    (h : (system allow).machine.Step s (Call.close fh) r s') : Still s s' := by
  rcases h with ⟨ch, _, hexec⟩
  rcases exec_close hexec with ⟨_, _, rfl⟩ | ⟨x, n, hx, rfl, _⟩
  · exact Still.refl _
  · refine ⟨rfl, ?_, rfl⟩
    have hsame : Function.update s.inodes x.ino (s.inodes x.ino) = s.inodes :=
      Function.update_eq_self _ _
    simp only [FileTree.drain, FileTree.setHandle, FileTree.setInode,
      hdrained x hx, List.take_nil, List.append_nil, if_true, hsame]

/-- A file that is opened, read and closed stays as it is, whatever fails. -/
theorem readWhole_still {t : Text} {f : Bytes -> Io α}
    (hf : forall b, exists o', (f b).ending = some o')
    (hrun : (system allow).machine.Runs s
      (Os.openRead t >>= fun fh =>
        Prog.tryFinally (Os.read fh none >>= f) (Os.close fh)) trace o s') :
    Still s s' := by
  rcases Machine.runs_bind hrun with
    ⟨fh, s1, t1, t2, hopen, hbody, rfl⟩ | ⟨e, hopen, rfl⟩
  · rcases Machine.runs_single (fun r => by cases r <;> exact ⟨_, rfl⟩) hopen
      with ⟨r, hstep, hr⟩
    rcases openRead_still hstep with ⟨hstill, hdrained⟩
    have hfh : Drained s1 fh := by
      cases r with
      | ok fh' =>
          cases hr
          exact hdrained _ rfl
      | error n => cases hr
    rcases Machine.runs_handle hbody with
      ⟨r2, s2, t3, t4, hread, hclose, rfl⟩
    have hmiddle : Still s1 s2 ∧ Drained s2 fh := by
      rcases Machine.runs_bind hread with
        ⟨b, s3, t5, t6, hfirst, hrest, rfl⟩ | ⟨e, hfirst, rfl⟩
      · rcases Machine.runs_single (fun r => by cases r <;> exact ⟨_, rfl⟩)
          hfirst with ⟨_, hstep, _⟩
        rcases read_still hfh hstep with ⟨hstill, hdrained⟩
        cases same_of_ended (hf b) hrest
        exact ⟨hstill, hdrained⟩
      · rcases Machine.runs_single (fun r => by cases r <;> exact ⟨_, rfl⟩)
          hfirst with ⟨_, hstep, _⟩
        exact read_still hfh hstep
    apply (hstill.trans hmiddle.left).trans
    rcases Machine.runs_bind hclose with
      ⟨_, s3, t5, t6, hfirst, hrest, rfl⟩ | ⟨e, hfirst, rfl⟩
    · rcases Machine.runs_single (fun r => by cases r <;> exact ⟨_, rfl⟩)
          hfirst with ⟨_, hstep, _⟩
      apply (close_still hmiddle.right hstep).trans
      refine still_of_ended ?_ hrest
      cases r2 with
      | ok a => exact ⟨_, rfl⟩
      | error e => exact ⟨_, rfl⟩
    · rcases Machine.runs_single (fun r => by cases r <;> exact ⟨_, rfl⟩)
          hfirst with ⟨_, hstep, _⟩
      exact close_still hmiddle.right hstep
  · rcases Machine.runs_single (fun r => by cases r <;> exact ⟨_, rfl⟩) hopen
      with ⟨r, hstep, _⟩
    exact (openRead_still hstep).left

inductive Perusal : Job -> Prop where
  | tests (t : Text) : Perusal (Job.pathExists t)
  | stats (t : Text) : Perusal (Job.safeStat t)
  | reads (t : Text) : Perusal (Job.safeReadText t)
  | computes (t : Text) : Perusal (Job.compute t)

theorem safeStat_still {t : Text} {o : Except Exn (Option Stat)}
    (hrun : (system allow).machine.Runs s (safeStat t) trace o s') :
    Still s s' := by
  have hbody : forall {trace o s'}, (system allow).machine.Runs s
      (do
        let st ← Os.stat t
        let regular ← Os.isfile t
        pure (if regular then some st else none) : Io (Option Stat)) trace o
      s' -> Still s s' := by
    intro trace o s' hrun
    rcases Machine.runs_bind hrun with
      ⟨st, s1, t1, t2, hfirst, hrest, rfl⟩ | ⟨e, hfirst, rfl⟩
    · rcases Machine.runs_single (fun r => by cases r <;> exact ⟨_, rfl⟩) hfirst
        with ⟨r, hstep, _⟩
      rcases Machine.runs_single (fun b => ⟨_, rfl⟩) hrest with ⟨b, hlast, _⟩
      exact (still_of_quiet (by trivial) hstep).trans
        (still_of_quiet (by trivial) hlast)
    · rcases Machine.runs_single (fun r => by cases r <;> exact ⟨_, rfl⟩) hfirst
        with ⟨r, hstep, _⟩
      exact still_of_quiet (by trivial) hstep
  rcases Machine.runs_tryCatch hrun with
    ⟨a, htry, _⟩ | ⟨e, s1, t1, t2, htry, hcaught, _⟩
  · exact hbody htry
  · apply (hbody htry).trans
    refine still_of_ended ?_ hcaught
    cases e <;> exact ⟨_, rfl⟩

theorem safeReadText_still {t : Text} {o : Except Exn (Option Text)}
    (hrun : (system allow).machine.Runs s (safeReadText t) trace o s') :
    Still s s' := by
  rcases Machine.runs_tryCatch hrun with
    ⟨a, htry, _⟩ | ⟨e, s1, t1, t2, htry, hcaught, _⟩
  · refine readWhole_still ?_ htry
    intro b
    cases decode b <;> exact ⟨_, rfl⟩
  · refine (readWhole_still ?_ htry).trans (still_of_ended ?_ hcaught)
    · intro b
      cases decode b <;> exact ⟨_, rfl⟩
    · unfold missingAsNone
      split <;> exact ⟨_, rfl⟩

theorem Perusal.still {j : Job} (h : Perusal j) {r : Except Exn (d.jobs.Val j)}
    (hrun : (system allow).machine.Runs s (d.jobs.run j) trace r s') :
    Still s s' := by
  cases h with
  | tests t =>
      rcases Machine.runs_single (fun b => ⟨_, rfl⟩) hrun with ⟨b, hstep, _⟩
      exact still_of_quiet (by trivial) hstep
  | stats t => exact safeStat_still hrun
  | reads t => exact safeReadText_still hrun
  | computes t => exact readWhole_still (fun b => ⟨_, rfl⟩) hrun

theorem Still.innocent {settings : Settings} {slot : Slot settings} {u : Text}
    (h : Still s s') (hgrows : Grows s s') : Innocent d slot fs u s s' := by
  apply innocent_of_nodes hgrows
  · intro q
    rw [h.node]
  · intro i _
    rw [h.inodes]

end Reading

end StorybookStorage
