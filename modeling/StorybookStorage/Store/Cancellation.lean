import StorybookStorage.Store.Standing

/-!
# A cancelled put

The coroutine of `put` on worker threads, cancelled any number of times.
Whether it leaves the stored object and its sidecar alone and no staging file
behind is decided by the order in which its jobs ran.
-/

namespace StorybookStorage

open Python Posix Effects Contract
open LocalFsBlobDriver (Job)

variable {settings : Settings} (d : LocalFsBlobDriver) (slot : Slot settings)

/-!
## The course of the coroutine
-/

section Course

variable {d slot} {allow : Policy} {fs : FileTree} {u : Text}
  {w : d.jobs.Crew FileTree} (htoken : IsToken u)
  (hreliable : Reliable allow (Clearing d))

theorem waitTask_issues {P : Job -> Prop} (hwait : P Job.nextChunk)
    (data : Data) : Prog.Issues (S := d.jobs.signature) P (d.waitTask data) := by
  cases data with
  | bytes b => exact Prog.issues_pure ()
  | stream source =>
      exact ⟨hwait, fun r => Prog.issues_ofExcept r⟩

structure OnFile (P : Job -> Prop) (fh : Nat) : Prop where
  wait : P Job.nextChunk
  write : forall chunk, P (Job.write fh chunk)
  flush : P (Job.flush fh)
  fsync : P (Job.fsync fh)
  close : P (Job.close fh)

theorem await_issues {P : Job -> Prop} {j : Job} (hj : P j) :
    Prog.Issues (S := d.jobs.signature) P (d.jobs.await j) :=
  ⟨hj, fun r => Prog.issues_ofExcept r⟩

theorem writeChunksTask_issues {P : Job -> Prop} {fh : Nat}
    (hfile : OnFile P fh) {data : Data} (chunks : List Bytes)
    (acc : d.platform.sha256.State × Nat) :
    Prog.Issues (S := d.jobs.signature) P
      (d.writeChunksTask (d.waitTask data) fh chunks acc) := by
  induction chunks generalizing acc with
  | nil => exact Prog.issues_pure acc
  | cons chunk rest ih =>
      apply (waitTask_issues hfile.wait data).bind
      intro _
      apply (await_issues (hfile.write chunk)).bind
      intro _
      exact ih _

theorem receiveTask_issues {P : Job -> Prop} {fh : Nat} (hfile : OnFile P fh)
    (data : Data) :
    Prog.Issues (S := d.jobs.signature) P (d.receiveTask fh data) := by
  apply (writeChunksTask_issues hfile _ _).bind
  intro acc
  apply (waitTask_issues hfile.wait data).bind
  intro _
  cases (asAiter data).ending with
  | some e => exact Prog.issues_raise e
  | none =>
      apply (await_issues hfile.flush).bind
      intro _
      apply (await_issues hfile.fsync).bind
      intro _
      exact Prog.issues_pure acc

theorem opened_guarded {s s' : FileTree} {fh : Nat} (htoken : IsToken u)
    (h : Fenced d fs u s)
    (hstep : (system allow).machine.Step s
      (Call.openWrite (tmpText d.root u)) (Except.ok fh) s') :
    Guarded fs fh s' := by
  have hloc : resolve (tmpText d.root u) = tmpLoc d.root u :=
    resolve_tmpText htoken
  rcases hstep with ⟨ch, _, hexec⟩
  rcases exec_openWrite hexec with
    ⟨_, hr, _⟩ | ⟨i, hi, hr, rfl⟩ | ⟨_, _, hr, rfl⟩
  · cases hr
  · cases hr
    refine ⟨Nat.lt_succ_self _, ?_⟩
    intro x hx
    have heq : ({ ino := i, pos := 0, pending := [] } : Handle) = x := by
      simpa [FileTree.openHandle, FileTree.setInode] using hx
    rw [← heq]
    rw [hloc] at hi
    exact h.own i hi
  · cases hr
    refine ⟨Nat.lt_succ_self _, ?_⟩
    intro x hx
    have heq : ({ ino := s.nextIno, pos := 0, pending := [] } : Handle) = x := by
      simpa [FileTree.openHandle, FileTree.create] using hx
    rw [← heq]
    exact h.nextIno

theorem stageTask_keeps {data : Data}
    (h : (putDiscipline d slot fs htoken hreliable).Holds w) :
    (d.jobs.crew (system allow).machine).wp
      (d.stageTask (tmpText d.root u) (slot.objectText d.root) data)
      (fun o w' => (putDiscipline d slot fs htoken hreliable).Holds w' ∧
        ((exists acc, o = Except.ok acc) ->
          (putFate d slot fs u w'.log).moved = true)) w := by
  have hraised : forall {e : Exn} {w' : d.jobs.Crew FileTree},
      (exists acc, (Except.error e : Except Exn
        (d.platform.sha256.State × Nat)) = Except.ok acc) ->
      (putFate d slot fs u w'.log).moved = true := by
    intro e w' hafter
    rcases hafter with ⟨acc, hacc⟩
    cases hacc
  unfold LocalFsBlobDriver.stageTask
  rw [Machine.wp_bind]
  refine Machine.wp_mono
    (Jobs.Discipline.wp_await_due h Due.opens) ?_
  intro o w1 hafter
  rcases hafter with ⟨h1, _, hopened⟩
  cases o with
  | error e => exact ⟨h1, hraised⟩
  | ok fh =>
      dsimp only
      have hguarded : Guarded fs fh w1.shared := by
        rcases hopened with hno | ⟨w0, trace, h0, _, hrun, _⟩
        · cases hno
        · rcases Machine.runs_single (fun r => by cases r <;> exact ⟨_, rfl⟩)
            hrun with ⟨r, hstep, hend⟩
          cases r with
          | error n => cases hend
          | ok fh' =>
              cases hend
              exact opened_guarded htoken h0.valid.fenced hstep
      have hfile : OnFile (Due d slot fs u w1.shared w1.log) fh :=
        { wait := Due.waits
          write := fun chunk => Due.writes fh chunk hguarded
          flush := Due.flushes fh hguarded
          fsync := Due.syncs fh hguarded
          close := Due.closes fh hguarded }
      rw [Machine.wp_bind]
      refine Machine.wp_mono
        (Jobs.Discipline.wp_issues h1
          ((receiveTask_issues hfile data).tryFinally
            (await_issues hfile.close))) ?_
      intro o w2 hafter
      rcases hafter with ⟨h2, _⟩
      cases o with
      | error e => exact ⟨h2, hraised⟩
      | ok acc =>
          dsimp only
          rw [Machine.wp_bind]
          refine Machine.wp_mono
            (Jobs.Discipline.wp_await_due h2 Due.makes) ?_
          intro o w3 hafter
          rcases hafter with ⟨h3, _, hmade⟩
          cases o with
          | error e => exact ⟨h3, hraised⟩
          | ok _ =>
              dsimp only
              have hparent : w3.shared.node (slot.objectLoc d.root).dropLast =
                  some Node.dir := by
                rcases hmade with hno | ⟨w0, trace, h0, _, hrun, _⟩
                · cases hno
                · rcases Machine.runs_single
                    (fun r => by cases r <;> exact ⟨_, rfl⟩) hrun with
                    ⟨r, hstep, hend⟩
                  cases r with
                  | error n => cases hend
                  | ok _ =>
                      have hdir := step_made h0.valid.fenced.root hstep
                      rwa [slot.resolve_dirname_objectText] at hdir
              rw [Machine.wp_bind]
              refine Machine.wp_mono
                (Jobs.Discipline.wp_await_due h3 (Due.moves hparent)) ?_
              intro o w4 hafter
              rcases hafter with ⟨h4, _, hmoved⟩
              cases o with
              | error e => exact ⟨h4, hraised⟩
              | ok _ =>
                  refine ⟨h4, fun _ => ?_⟩
                  rcases hmoved with hno | ⟨w0, trace, h0, _, hrun, hlog⟩
                  · cases hno
                  · rcases Machine.runs_single
                      (fun r => by cases r <;> exact ⟨_, rfl⟩) hrun with
                      ⟨r, hstep, hend⟩
                    cases r with
                    | error n => cases hend
                    | ok _ =>
                        rw [hlog]
                        exact (h0.valid.renamed htoken hstep).right

theorem writeSidecarTask_issues {log : List Job} {s : FileTree}
    (hmoved : (putFate d slot fs u log).moved = true)
    (contentType etag : Text) (size : Nat) (metadata : Metadata) :
    Prog.Issues (S := d.jobs.signature) (Due d slot fs u s log)
      (d.writeSidecarTask slot.bucket slot.key contentType etag size
        metadata) := by
  unfold LocalFsBlobDriver.writeSidecarTask
  rw [slot.metaPath_ok]
  apply (await_issues Due.dates).bind
  intro now
  apply Prog.Issues.tryCatch
  · show Prog.Issues (S := d.jobs.signature) _
      (d.jobs.await (Job.makedirs (dirname (slot.sidecarText d.root))) >>= _)
    apply (await_issues (Due.makesRoom hmoved)).bind
    intro _
    exact await_issues (Due.describes _ hmoved)
  · intro e
    split
    · exact Prog.issues_pure ()
    · exact Prog.issues_raise _

/-- What a crew keeps that works for a put. -/
def Minded (hreliable : Reliable allow (Clearing d)) (slot : Slot settings)
    (fs : FileTree) (w : d.jobs.Crew FileTree) : Prop :=
  (readDiscipline d allow fs).Holds w ∨
    exists u, exists htoken : IsToken u,
      fs.isFile (tmpLoc d.root u) = false ∧
        (putDiscipline d slot fs htoken hreliable).Holds w

theorem drawn_standing {s s' : FileTree} {log : List Job} {j : Job}
    (hsound : fs.Sound)
    (htmp : fs.node (resolve d.root ++ [tmpDir]) = some Node.dir)
    (hstill : Still fs s) (hunopened : forall t, Job.openWrite t ∉ log)
    (hj : forall t, j ≠ Job.openWrite t)
    (hdraw : (system allow).machine.Step s Call.uuid4 u s') :
    IsToken u ∧ fs.isFile (tmpLoc d.root u) = false ∧
      Standing d slot allow fs u s' (log ++ [j]) := by
  rcases drawn_unnamed hdraw with ⟨htoken, hentries, _⟩
  have hvacant : s'.node (tmpLoc d.root u) = none := by
    rw [← show resolve (tmpText d.root u) = tmpLoc d.root u from
      resolve_tmpText htoken]
    exact drawn_vacant hdraw (place_tmpText htoken)
  have hstill' : Still fs s' := by
    rcases hdraw with ⟨ch, _, hexec⟩
    rcases exec_uuid4 hexec with ⟨_, _, hentries, hinodes, hino, _⟩
    refine hstill.trans ⟨?_, hinodes, hino⟩
    funext q
    unfold FileTree.node
    rw [hentries]
  have hlog : forall t, Job.openWrite t ∉ log ++ [j] := by
    intro t ht
    rcases List.mem_append.mp ht with hold | hnew
    · exact hunopened t hold
    · exact hj t (List.mem_singleton.mp hnew).symm
  have hidle : putFate d slot fs u (log ++ [j]) = Fate.idle := by
    apply (after_idle_iff Fate.idle).mpr
    refine ⟨rfl, ?_, ?_⟩
    · intro hno
      cases hno
    · intro before after heq
      apply absurd _ (hlog (tmpText d.root u))
      rw [heq]
      simp
  have hunused : fs.isFile (tmpLoc d.root u) = false := by
    rw [Bool.eq_false_iff]
    intro hfile
    rcases isFile_iff.mp hfile with ⟨i, hi⟩
    rw [← hstill'.node, hvacant] at hi
    cases hi
  refine ⟨htoken, hunused, ?_, ?_, ?_, ?_, ?_, ?_⟩
  · refine ⟨?_, Nat.le_of_eq hstill'.nextIno.symm, ?_, ?_, ?_⟩
    · rw [hstill'.node]
      exact hsound.root
    · rw [hstill'.node]
      exact htmp
    · intro i hi
      rw [hvacant] at hi
      cases hi
    · rw [hvacant]
      simp
  · exact fun t ht => absurd ht (hlog t)
  · intro _
    refine ⟨?_, ?_, ?_⟩
    · intro q i _
      rw [hstill'.node]
    · intro i _
      rw [hstill'.inodes]
    · rw [hstill'.node]
  · intro _ hfile
    rcases isFile_iff.mp hfile with ⟨i, hi⟩
    rw [hvacant] at hi
    cases hi
  · rw [hidle]
    intro _ _ hno
    cases hno
  · rw [hidle]
    intro _ hno
    cases hno

variable {data : Data} {contentType : Text} {ifNoneMatch : Option Text}
  {metadata : Option Metadata}

theorem storeTask_minded (hreliable : Reliable allow (Clearing d))
    (hsound : fs.Sound)
    (htmp : fs.node (resolve d.root ++ [tmpDir]) = some Node.dir)
    (h : (readDiscipline d allow fs).Holds w) :
    (d.jobs.crew (system allow).machine).wp
      (d.storeTask slot.bucket slot.key (slot.objectText d.root) data
        contentType metadata)
      (fun _ w' => Minded hreliable slot fs w') w := by
  unfold LocalFsBlobDriver.storeTask
  rw [Machine.wp_bind]
  apply Jobs.Discipline.wp_await h
  · intro w1 trace r s' h1 _ hrun
    rcases Machine.runs_single (fun u => ⟨_, rfl⟩) hrun with ⟨u, hdraw, hend⟩
    cases hend
    have hnew : forall t, Job.newTmpPath ≠ Job.openWrite t := by
      intro t ht
      cases ht
    have hdrawn := @drawn_standing settings d slot allow fs u _ _ _ _ hsound htmp
      h1.valid.left h1.valid.right hnew hdraw
    rcases hdrawn with ⟨htoken, hunused, hstanding⟩
    have h2 : (putDiscipline d slot fs htoken hreliable).Holds
        { shared := s', pending := w1.pending,
          log := w1.log ++ [Job.newTmpPath] } :=
      ⟨hstanding, fun j hj => Due.peruses j (h1.pending j hj)⟩
    have hminded : forall {w' : d.jobs.Crew FileTree},
        (putDiscipline d slot fs htoken hreliable).Holds w' ->
        Minded hreliable slot fs w' :=
      fun h' => Or.inr ⟨u, htoken, hunused, h'⟩
    show (d.jobs.crew (system allow).machine).wp
      (Prog.onError (Prog.tryCatch
        (d.stageTask (tmpText d.root u) (slot.objectText d.root) data) _)
        (d.jobs.await (Job.rm (tmpText d.root u))) >>= fun _ => _) _ _
    rw [Machine.wp_bind, Machine.wp_onError, Machine.wp_tryCatch]
    refine Machine.wp_mono (stageTask_keeps htoken hreliable h2) ?_
    intro o w3 hafter
    rcases hafter with ⟨h3, hmoved⟩
    cases o with
    | error e =>
        show (d.jobs.crew (system allow).machine).wp
          (d.jobs.await (Job.rm (tmpText d.root u))) _ w3
        refine Machine.wp_mono
          (Jobs.Discipline.wp_await_due h3 Due.clears) ?_
        intro o w4 hafter
        rcases hafter with ⟨h4, _⟩
        cases o <;> exact hminded h4
    | ok acc =>
        have hissues := writeSidecarTask_issues (s := w3.shared)
          (hmoved ⟨acc, rfl⟩) contentType (d.platform.sha256.hexdigest acc.1)
          acc.2 (metadata.getD ∅)
        dsimp only
        rw [Machine.wp_bind]
        refine Machine.wp_mono (Jobs.Discipline.wp_issues h3 hissues) ?_
        intro o w4 hafter
        rcases hafter with ⟨h4, _⟩
        cases o <;> exact hminded h4
  · intro hno
    cases hno

theorem headTask_issues {P : Job -> Prop} (hp : forall j, Perusal j -> P j) :
    Prog.Issues (S := d.jobs.signature) P (d.headTask slot.bucket slot.key) := by
  unfold LocalFsBlobDriver.headTask
  rw [slot.objectPath_ok]
  show Prog.Issues (S := d.jobs.signature) P (d.jobs.await _ >>= fun _ => _)
  apply (await_issues (hp _ (Perusal.stats _))).bind
  intro stat
  cases stat with
  | none => exact Prog.issues_pure none
  | some st =>
      apply Prog.Issues.bind
      · unfold LocalFsBlobDriver.readSidecarTask
        rw [slot.metaPath_ok]
        apply Prog.Issues.tryCatch
        · show Prog.Issues (S := d.jobs.signature) P
            (d.jobs.await _ >>= fun _ => _)
          apply (await_issues (hp _ (Perusal.reads _))).bind
          intro raw
          cases raw with
          | none => exact Prog.issues_pure none
          | some t =>
              dsimp only
              cases d.platform.json.loads t with
              | ok v => exact Prog.issues_pure (some v)
              | error e => exact Prog.issues_raise _
        · intro e
          split
          · exact Prog.issues_pure none
          · exact Prog.issues_pure none
          · exact Prog.issues_raise _
      · intro sidecar
        cases sidecar.filter Json.truthy with
        | some v =>
            apply (Prog.issues_ofExcept _).bind
            intro info
            exact Prog.issues_pure (some info)
        | none =>
            apply Prog.Issues.bind
            · unfold LocalFsBlobDriver.etagTask
              split
              · exact Prog.issues_pure []
              · apply (await_issues (hp _ (Perusal.computes _))).tryCatch
                intro e
                split
                · exact Prog.issues_pure []
                · exact Prog.issues_raise _
            · intro etag
              exact Prog.issues_pure _

theorem putTask_minded (hreliable : Reliable allow (Clearing d))
    (hsound : fs.Sound)
    (htmp : fs.node (resolve d.root ++ [tmpDir]) = some Node.dir) :
    (d.jobs.crew (system allow).machine).wp
      (d.putTask slot.bucket slot.key data contentType ifNoneMatch metadata)
      (fun _ w' => Minded hreliable slot fs w') (Jobs.Crew.start d.jobs fs) := by
  have h : (readDiscipline d allow fs).Holds (Jobs.Crew.start d.jobs fs) :=
    ⟨⟨Still.refl fs, fun _ => List.not_mem_nil⟩,
      fun _ hj => absurd hj List.not_mem_nil⟩
  unfold LocalFsBlobDriver.putTask
  rw [slot.objectPath_ok]
  show (d.jobs.crew (system allow).machine).wp
    (if ifNoneMatch = some (text "*") then _ else _) _ _
  split
  · rw [Machine.wp_bind]
    refine Machine.wp_mono
      (Jobs.Discipline.wp_await_due h (Perusal.tests _)) ?_
    intro o w1 hafter
    rcases hafter with ⟨h1, _⟩
    cases o with
    | error e => exact Or.inl h1
    | ok met =>
        cases met with
        | true =>
            show (d.jobs.crew (system allow).machine).wp
              (d.headTask slot.bucket slot.key >>= fun _ => _) _ _
            rw [Machine.wp_bind]
            refine Machine.wp_mono
              (Jobs.Discipline.wp_issues h1 (headTask_issues fun _ hj => hj)) ?_
            intro o w2 hafter
            rcases hafter with ⟨h2, _⟩
            cases o <;> exact Or.inl h2
        | false => exact storeTask_minded hreliable hsound htmp h1
  · exact storeTask_minded hreliable hsound htmp h

/-!
## What is left
-/

theorem Standing.intact {s : FileTree} {log : List Job}
    (h : Standing d slot allow fs u s log) (hsound : fs.Sound)
    (hcleared : AllCleared (fs.isDir (slot.objectLoc d.root)) log) :
    Intact d slot fs s := by
  have hidle : putFate d slot fs u log = Fate.idle :=
    (after_idle_iff Fate.idle).mpr
      ⟨rfl, fun hno => (by cases hno), hcleared (tmpText d.root u)⟩
  have hmoved : (putFate d slot fs u log).moved = false := by
    rw [hidle]
    rfl
  apply (h.held hmoved).intact hsound
  rw [Bool.eq_false_iff]
  intro hfile
  have hstaged := h.left hmoved hfile
  rw [hidle] at hstaged
  cases hstaged

theorem Standing.cleared {s : FileTree} {log : List Job}
    (h : Standing d slot allow fs u s log) (hsound : fs.Sound)
    (hunused : fs.isFile (tmpLoc d.root u) = false)
    (hplacing : Reliable allow (Placing d slot)) (hintact : Intact d slot fs s) :
    AllCleared (fs.isDir (slot.objectLoc d.root)) log := by
  have hidle : putFate d slot fs u log = Fate.idle := by
    cases hmoved : (putFate d slot fs u log).moved with
    | true =>
        rcases h.moved hplacing hmoved with ⟨i, hi, hle⟩
        have hlt := hsound.bound _ i ((hintact.object.node i).mp hi)
        omega
    | false =>
        cases hstaged : (putFate d slot fs u log).staged with
        | true =>
            have hleft := hintact.tidy u (h.staged hplacing hmoved hstaged)
            rw [hunused] at hleft
            cases hleft
        | false =>
            cases hfate : putFate d slot fs u log with
            | mk staged moved =>
                rw [hfate] at hmoved hstaged
                cases hmoved
                cases hstaged
                rfl
  intro t before after heq
  have ht : t = tmpText d.root u := by
    apply h.opened
    rw [heq]
    simp
  rw [ht] at heq
  rw [ht]
  exact ((after_idle_iff Fate.idle).mp hidle).right.right before after heq

theorem Still.intact {s : FileTree} (h : Still fs s) : Intact d slot fs s where
  object :=
    { node := fun i => by rw [h.node]
      inode := fun i _ => by rw [h.inodes] }
  sidecar :=
    { node := fun i => by rw [h.node]
      inode := fun i _ => by rw [h.inodes] }
  tidy := by
    intro name hfile
    rw [isFile_iff] at hfile ⊢
    rwa [h.node] at hfile

variable {hreliable : Reliable allow (Clearing d)} {w' : d.jobs.Crew FileTree}

theorem Minded.works (h : Minded hreliable slot fs w)
    (hworks : d.jobs.Works (system allow).machine w w') :
    Minded hreliable slot fs w' := by
  rcases h with hread | ⟨u, htoken, hunused, hput⟩
  · exact Or.inl (hread.works hworks).left
  · exact Or.inr ⟨u, htoken, hunused, (hput.works hworks).left⟩

theorem Minded.intact_iff (h : Minded hreliable slot fs w) (hsound : fs.Sound) :
    (AllCleared (fs.isDir (slot.objectLoc d.root)) w.log ->
        Intact d slot fs w.shared) ∧
      (Reliable allow (Placing d slot) -> Intact d slot fs w.shared ->
        AllCleared (fs.isDir (slot.objectLoc d.root)) w.log) := by
  rcases h with hread | ⟨u, htoken, hunused, hput⟩
  · refine ⟨fun _ => hread.valid.left.intact, ?_⟩
    intro _ _ t before after heq
    apply absurd _ (hread.valid.right t)
    rw [heq]
    simp
  · exact ⟨hput.valid.intact hsound,
      hput.valid.cleared hsound hunused⟩

end Course

/-!
## The coroutine and its crew
-/

variable {d slot} {allow : Policy} {fs : FileTree} {data : Data}
  {contentType : Text} {ifNoneMatch : Option Text} {metadata : Option Metadata}
  {trace : List (Sigma d.jobs.signature.Ret)} {w w' : d.jobs.Crew FileTree}

/-- A coroutine that saw no cancellation has run `put`, and left no job. -/
theorem uncancelled_put {o : Except Exn PutResult}
    (hrun : (d.jobs.crew (system allow).machine).Runs
      (Jobs.Crew.start d.jobs fs)
      (d.putTask slot.bucket slot.key data contentType ifNoneMatch metadata)
      trace o w)
    (hcalm : forall j, ⟨j, Except.error Exn.cancelled⟩ ∉ trace) :
    w.pending = [] ∧ exists trace', (system allow).machine.Runs fs
      (d.put slot.bucket slot.key data contentType ifNoneMatch metadata) trace'
      o w.shared := by
  rw [← d.inline_putTask]
  exact Jobs.inline_of_runs hrun rfl hcalm

/-- Every run of `put` is one of the coroutine. -/
theorem coroutine_runs {trace : List (Sigma calls.Ret)} {fs' : FileTree}
    {o : Except Exn PutResult}
    (hrun : (system allow).machine.Runs fs
      (d.put slot.bucket slot.key data contentType ifNoneMatch metadata) trace o
      fs') :
    exists trace' w, (d.jobs.crew (system allow).machine).Runs
      (Jobs.Crew.start d.jobs fs)
      (d.putTask slot.bucket slot.key data contentType ifNoneMatch metadata)
      trace' o w ∧ w.shared = fs' ∧ w.pending = [] := by
  rw [← d.inline_putTask] at hrun
  rcases Jobs.runs_of_inline hrun [] [] with ⟨trace', log', hafter⟩
  exact ⟨trace', _, hafter, rfl, rfl⟩

/-- A put that ended with `CancelledError`, whatever its jobs have done since:
unless a call on the staging file met a device error, it has left everything as
it was exactly if whatever it staged was removed later and not moved before. -/
theorem cancelled_intact_iff (hsound : fs.Sound)
    (htmp : fs.node (resolve d.root ++ [tmpDir]) = some Node.dir)
    (hclearing : Reliable allow (Clearing d))
    (hrun : (d.jobs.crew (system allow).machine).Runs
      (Jobs.Crew.start d.jobs fs)
      (d.putTask slot.bucket slot.key data contentType ifNoneMatch metadata)
      trace (Except.error Exn.cancelled) w)
    (hworks : d.jobs.Works (system allow).machine w w') :
    (AllCleared (fs.isDir (slot.objectLoc d.root)) w'.log ->
        Intact d slot fs w'.shared) ∧
      (Reliable allow (Placing d slot) -> Intact d slot fs w'.shared ->
        AllCleared (fs.isDir (slot.objectLoc d.root)) w'.log) := by
  have hminded : Minded hclearing slot fs w :=
    Machine.wp_sound (putTask_minded hclearing hsound htmp) hrun
  exact (hminded.works hworks).intact_iff hsound

def cancelledPut (moves : List Jobs.Move) :
    Option (Except Exn PutResult × sampleDriver.jobs.Crew FileTree) :=
  sampleDriver.jobs.play (system noFault) sampleChoice moves
    (sampleDriver.putTask pictureSlot.bucket pictureSlot.key (Data.bytes [1, 2])
      (text "image/png") none none) 0
    (Jobs.Crew.start sampleDriver.jobs sampleTree)

def CancelledRun (w : sampleDriver.jobs.Crew FileTree) : Prop :=
  exists trace w1,
    (sampleDriver.jobs.crew (system noFault).machine).Runs
      (Jobs.Crew.start sampleDriver.jobs sampleTree)
      (sampleDriver.putTask pictureSlot.bucket pictureSlot.key
        (Data.bytes [1, 2]) (text "image/png") none none) trace
      (Except.error Exn.cancelled) w1 ∧
    sampleDriver.jobs.Works (system noFault).machine w1 w ∧ w.pending = []

theorem cancelledRun {moves : List Jobs.Move}
    {run : Except Exn PutResult × sampleDriver.jobs.Crew FileTree}
    (h : cancelledPut moves = some run)
    (hraised : raised run.1 = some Exn.cancelled)
    (hdone : run.2.pending = []) : CancelledRun run.2 := by
  rcases run with ⟨o, w⟩
  rcases Jobs.play_runs h with ⟨trace, w1, hrun, hworks⟩
  cases eq_of_raised hraised
  exact ⟨trace, w1, hrun, hworks, hdone⟩

theorem reliable_noFault (P : Call -> Prop) : Reliable noFault P :=
  fun _ _ _ _ h => h

theorem allCleared_open_rm {blocked : Bool} {t : Text} :
    AllCleared blocked [Job.newTmpPath, Job.openWrite t, Job.rm t] := by
  intro t'
  rw [eachCleared_cons, eachCleared_cons, eachCleared_cons]
  refine ⟨nofun, ?_, nofun, ?_⟩
  · intro hopen
    cases hopen
    exact cleared_rm
  · intro before after heq
    cases before <;> cases heq

/-- The file is opened before it is removed, and all is as it was. -/
theorem cancelled_intact_iff_early :
    exists w : sampleDriver.jobs.Crew FileTree, CancelledRun w ∧
      AllCleared (sampleTree.isDir (pictureSlot.objectLoc sampleDriver.root))
        w.log ∧
      Intact sampleDriver pictureSlot sampleTree w.shared := by
  have hplay : ((cancelledPut [Jobs.Move.finish, Jobs.Move.leave,
      Jobs.Move.late, Jobs.Move.finish]).map fun run =>
        (raised run.1, run.2.pending, run.2.log)) =
      some (some Exn.cancelled, [], [Job.newTmpPath,
        Job.openWrite (tmpText sampleDriver.root (sampleChoice 0).token),
        Job.rm (tmpText sampleDriver.root (sampleChoice 0).token)]) := by
    decide +kernel
  rcases Option.map_eq_some_iff.mp hplay with ⟨run, hrun, heq⟩
  rcases Prod.mk.inj heq with ⟨hraised, hrest⟩
  rcases Prod.mk.inj hrest with ⟨hdone, hlog⟩
  have hcancelled := cancelledRun hrun hraised hdone
  rcases hcancelled with ⟨trace, w1, hruns, hworks, _⟩
  have htmp : sampleTree.node (resolve sampleDriver.root ++ [tmpDir]) =
      some Node.dir := sampleTree_fresh.tmp
  have hcleared : AllCleared
      (sampleTree.isDir (pictureSlot.objectLoc sampleDriver.root))
      run.2.log := by
    rw [hlog]
    exact allCleared_open_rm
  have hiff := cancelled_intact_iff sampleTree_fresh.sound htmp
    (reliable_noFault _) hruns hworks
  exact ⟨run.2, ⟨trace, w1, hruns, hworks, hdone⟩, hcleared,
    hiff.left hcleared⟩

/-- The file is opened after it was removed, and it stays. -/
theorem cancelledPut_litters :
    exists w, CancelledRun w ∧
      ¬ Intact sampleDriver pictureSlot sampleTree w.shared := by
  have hplay : ((cancelledPut [Jobs.Move.finish, Jobs.Move.leave,
      Jobs.Move.finish, Jobs.Move.late]).map fun run =>
        (raised run.1, run.2.pending, run.2.shared.isFile
          (tmpLoc sampleDriver.root (sampleChoice 0).token))) =
      some (some Exn.cancelled, [], true) := by
    decide +kernel
  rcases Option.map_eq_some_iff.mp hplay with ⟨run, hrun, heq⟩
  rcases Prod.mk.inj heq with ⟨hraised, hrest⟩
  rcases Prod.mk.inj hrest with ⟨hdone, hfile⟩
  refine ⟨run.2, cancelledRun hrun hraised hdone, ?_⟩
  intro hintact
  have hold := hintact.tidy _ hfile
  have hnone : sampleTree.isFile
      (tmpLoc sampleDriver.root (sampleChoice 0).token) = false := by
    decide +kernel
  rw [hnone] at hold
  cases hold

end StorybookStorage
