import StorybookStorage.Effects.Diary
import StorybookStorage.Posix.Names
import StorybookStorage.Routers.Common
import StorybookStorage.Store.Operations
import StorybookStorage.Store.StaleSweep

/-!
# The life of a process

`main.py` and `drivers/registry.py`: what a process does before it serves, the
driver it builds, and the sweep it repeats in the background.
-/

namespace StorybookStorage

open Python Posix Effects FileTree

def runtimeError (message : Text) : Exn :=
  Exn.other (text "RuntimeError: " ++ message)

/-- What `build_driver` raises in place of a driver. -/
def noDriver (texts : Reprs) (storageDriver : Text) : Exn :=
  if storageDriver = text "s3" then
    runtimeError
      (text "STORAGE_DRIVER=s3 is declared but not implemented in v1" ++
        text " (see design 02 §3)")
  else
    runtimeError
      (text "Unknown STORAGE_DRIVER=" ++ texts.str storageDriver ++
        text " (expected 'local-fs' or 's3')")

def knownDriver (texts : Reprs) (storageDriver : Text) : Except Exn Unit :=
  if storageDriver = text "local-fs" then Except.ok ()
  else Except.error (noDriver texts storageDriver)

/-- `lifespan` before it serves.  What `shutil.disk_usage` answers is given;
fetching the JWKS ahead neither raises nor touches the disk. -/
def startup (texts : Reprs) (root : Text) (buckets : List Text)
    (storageDriver : Text)
    (diskUsage : Except Exn Nat) : Io Nat := do
  ensureLayout root buckets
  let removed ← cleanupStaleTmp root 3600
  Prog.ofExcept (knownDriver texts storageDriver)
  let _ ← Prog.ofExcept diskUsage
  pure removed

inductive SweeperLog where
  | tmpSwept (removed : Nat)
  | tmpSweepFailed (error : Exn)

/-- One turn of the loop in `_tmp_sweeper`; only a cancellation gets out. -/
def sweeperTurn (root : Text) : Io (List SweeperLog) :=
  Prog.tryCatch
    (do
      let removed ← cleanupStaleTmp root 3600
      pure (if removed = 0 then [] else [SweeperLog.tmpSwept removed]))
    (fun
      | Exn.cancelled => Prog.raise Exn.cancelled
      | e => pure [SweeperLog.tmpSweepFailed e])

/-- `_tmp_sweeper`, for the turns it has before the process ends. -/
def tmpSweeper (root : Text) : Nat -> Io (List SweeperLog)
  | 0 => pure []
  | turns + 1 => do
      let line ← sweeperTurn root
      let rest ← tmpSweeper root turns
      pure (line ++ rest)

/-- What runs in the processes of the service: a call of a driver, a process
that starts, and the sweeper of a process. -/
inductive Errand (settings : Settings) where
  | request (op : Operation settings)
  | startup (texts : Reprs) (storageDriver : Text)
      (diskUsage : Except Exn Nat)
  | sweeper (turns : Nat)

inductive Report where
  | request (reply : Reply)
  | startup (removed : Nat)
  | sweeper (log : List SweeperLog)

def Errand.run {settings : Settings} (d : LocalFsBlobDriver) :
    Errand settings -> Io Report
  | request op => Report.request <$> op.run d
  | startup texts storageDriver diskUsage =>
      Report.startup <$>
        StorybookStorage.startup texts d.root settings.buckets storageDriver
          diskUsage
  | sweeper turns => Report.sweeper <$> tmpSweeper d.root turns

/-!
## What starts and sweeps call
-/

def Tends : Call -> Prop
  | Call.time => True
  | Call.isdir _ => True
  | Call.isfile _ => True
  | Call.getmtime _ => True
  | Call.listdir _ => True
  | Call.makedirs _ => True
  | Call.remove _ => True
  | _ => False

section Calls

variable {root : Text}

theorem sweepEntry_tends {p : Text} {cutoff : Rat} :
    (sweepEntry p cutoff).Issues Tends := by
  apply Prog.Issues.tryCatch
  · apply (issues_call (Call.isfile p) trivial).bind
    intro regular
    cases regular with
    | false => exact Prog.issues_pure _
    | true =>
        apply (issues_raising (issues_call (Call.getmtime p) trivial)).bind
        intro m
        show Prog.Issues _ (if m < cutoff then _ else _)
        split
        · apply (issues_raising (issues_call (Call.remove p) trivial)).bind
          intro _
          exact Prog.issues_pure _
        · exact Prog.issues_pure _
  · intro e
    cases e with
    | os n => exact Prog.issues_pure _
    | _ => exact Prog.issues_raise _

theorem sweepNames_tends {tmp : Text} {cutoff : Rat} {names : List Text}
    {removed : Nat} :
    (sweepNames tmp cutoff names removed).Issues Tends := by
  induction names generalizing removed with
  | nil => exact Prog.issues_pure _
  | cons name rest ih => exact sweepEntry_tends.bind fun _ => ih

theorem cleanupStaleTmp_tends {older : Rat} :
    (cleanupStaleTmp root older).Issues Tends := by
  apply (issues_call (Call.isdir _) trivial).bind
  intro there
  cases there with
  | false => exact Prog.issues_pure _
  | true =>
      apply (issues_call Call.time trivial).bind
      intro now
      apply (issues_raising (issues_call (Call.listdir _) trivial)).bind
      intro names
      exact sweepNames_tends

theorem makeAll_tends {places : List Text} :
    (makeAll places).Issues Tends := by
  induction places with
  | nil => exact Prog.issues_pure _
  | cons p rest ih =>
      apply (issues_raising (issues_call (Call.makedirs p) trivial)).bind
      intro _
      exact ih

theorem startup_tends {texts : Reprs} {buckets : List Text}
    {storageDriver : Text} {diskUsage : Except Exn Nat} :
    (startup texts root buckets storageDriver diskUsage).Issues Tends := by
  apply makeAll_tends.bind
  intro _
  apply cleanupStaleTmp_tends.bind
  intro removed
  cases knownDriver texts storageDriver with
  | error e => exact Prog.issues_raise _
  | ok _ =>
      cases diskUsage with
      | error e => exact Prog.issues_raise _
      | ok free => exact Prog.issues_pure _

theorem tmpSweeper_tends {turns : Nat} :
    (tmpSweeper root turns).Issues Tends := by
  induction turns with
  | zero => exact Prog.issues_pure _
  | succ turns ih =>
      have hturn : (sweeperTurn root).Issues Tends := by
        apply Prog.Issues.tryCatch
        · apply cleanupStaleTmp_tends.bind
          intro removed
          exact Prog.issues_pure _
        · intro e
          cases e with
          | cancelled => exact Prog.issues_raise _
          | _ => exact Prog.issues_pure _
      apply hturn.bind
      intro line
      apply ih.bind
      intro rest
      exact Prog.issues_pure _

end Calls

/-!
## What errands may do
-/

section Contracts

variable {ι : Type} {K : Contract ι} {tag : ι} {env : View -> View -> Prop}
  {v : View} {g : Hold} {seen : List Sight}

theorem wp_makeAll {places : List Text} {Q : Except Exn Unit -> Focus -> Prop}
    (hmakes : forall seen p, K.Makes tag seen p)
    (h : forall o v' seen', Q o ⟨v', g, seen'⟩) :
    (K.machine tag env).wp (makeAll places) Q ⟨v, g, seen⟩ := by
  induction places generalizing v seen with
  | nil => exact h _ _ _
  | cons p rest ih =>
      show (K.machine tag env).wp (Os.makedirs p >>= fun _ => _) Q _
      rw [Machine.wp_bind]
      apply wp_makedirs (hmakes _ _)
      · intro _ v' _ _ _
        exact ih
      · intro e _ v' _ _ _
        exact h _ _ _

variable (d : LocalFsBlobDriver)

theorem wp_startup {texts : Reprs} {buckets : List Text} {storageDriver : Text}
    {diskUsage : Except Exn Nat} {Q : Except Exn Nat -> Focus -> Prop}
    (hfd : g.fd = none) (htoken : g.token = none) (hsweeps : K.Sweeps)
    (hremoves : forall seen p, K.Removes tag seen p)
    (hmakes : forall seen p, K.Makes tag seen p)
    (h : forall o v' seen', Q o ⟨v', g, seen'⟩) :
    (K.machine tag env).wp (startup texts d.root buckets storageDriver diskUsage) Q
      ⟨v, g, seen⟩ := by
  unfold startup
  rw [Machine.wp_bind]
  apply wp_makeAll hmakes
  intro o v1 seen1
  cases o with
  | error e => exact h _ _ _
  | ok _ =>
      show (K.machine tag env).wp (cleanupStaleTmp d.root 3600 >>= fun _ => _) Q _
      rw [Machine.wp_bind]
      apply wp_cleanupStaleTmp d hfd htoken hsweeps hremoves
      intro o v2 seen2
      cases o with
      | error e => exact h _ _ _
      | ok removed =>
          cases knownDriver texts storageDriver with
          | error e => exact h _ _ _
          | ok _ => cases diskUsage <;> exact h _ _ _

theorem wp_tmpSweeper {turns : Nat}
    {Q : Except Exn (List SweeperLog) -> Focus -> Prop}
    (hfd : g.fd = none) (htoken : g.token = none) (hsweeps : K.Sweeps)
    (hremoves : forall seen p, K.Removes tag seen p)
    (h : forall o v' seen', Q o ⟨v', g, seen'⟩) :
    (K.machine tag env).wp (tmpSweeper d.root turns) Q ⟨v, g, seen⟩ := by
  induction turns generalizing v seen Q with
  | zero => exact h _ _ _
  | succ turns ih =>
      have hrest : forall (line : List SweeperLog) v' seen',
          (K.machine tag env).wp (tmpSweeper d.root turns >>= fun rest =>
            pure (line ++ rest)) Q ⟨v', g, seen'⟩ := by
        intro line v' seen'
        rw [Machine.wp_bind]
        apply ih
        intro o v2 seen2
        cases o <;> exact h _ _ _
      show (K.machine tag env).wp (sweeperTurn d.root >>= fun _ => _) Q _
      rw [Machine.wp_bind]
      unfold sweeperTurn
      rw [Machine.wp_tryCatch, Machine.wp_bind]
      apply wp_cleanupStaleTmp d hfd htoken hsweeps hremoves
      intro o v1 seen1
      cases o with
      | ok removed => exact hrest _ _ _
      | error e =>
          cases e with
          | cancelled => exact h _ _ _
          | _ => exact hrest _ _ _

end Contracts

/-!
## Only staging files are swept
-/

def SweepsTmp (root : Text) : Call -> Prop
  | Call.remove t => exists name, Plain name ∧ t = join (join root tmpDir) name
  | _ => True

def ListsNames : (c : Call) -> Call.Ret c -> Prop
  | Call.listdir _, Except.ok names => forall name, name ∈ names -> Plain name
  | _, _ => True

abbrev tmpDiary (root : Text) : Machine calls (List (Sigma calls.Ret)) :=
  diary (fun _ c => SweepsTmp root c) ListsNames

theorem SweepsTmp.unnamed {root : Text} {c : Call} (h : c.names = []) :
    SweepsTmp root c := by
  cases c with
  | remove t => cases h
  | _ => trivial

section Diaries

variable {root : Text} {l : List (Sigma calls.Ret)}

theorem wp_sweepEntry_tmp {name : Text} {cutoff : Rat}
    {Q : Except Exn Bool -> List (Sigma calls.Ret) -> Prop} (hname : Plain name)
    (h : forall o l', Q o l') :
    (tmpDiary root).wp (sweepEntry (join (join root tmpDir) name) cutoff) Q
      l := by
  unfold sweepEntry
  rw [Machine.wp_tryCatch, Machine.wp_bind]
  apply wp_diary (SweepsTmp.unnamed (c := Call.isfile _) rfl)
  intro regular _
  cases regular with
  | false => exact h _ _
  | true =>
      show (tmpDiary root).wp (Os.getmtime _ >>= fun _ => _) _ _
      rw [Machine.wp_bind]
      apply wp_raising
      apply wp_diary (SweepsTmp.unnamed (c := Call.getmtime _) rfl)
      intro mtime _
      cases mtime with
      | error e => exact h _ _
      | ok m =>
          show (tmpDiary root).wp (if m < cutoff then _ else _) _ _
          split
          · rw [Machine.wp_bind]
            apply wp_raising
            apply wp_diary ⟨name, hname, rfl⟩
            intro r _
            cases r <;> exact h _ _
          · exact h _ _

theorem wp_sweepNames_tmp {names : List Text} {cutoff : Rat} {removed : Nat}
    {Q : Except Exn Nat -> List (Sigma calls.Ret) -> Prop}
    (hnames : forall name, name ∈ names -> Plain name)
    (h : forall o l', Q o l') :
    (tmpDiary root).wp (sweepNames (join root tmpDir) cutoff names removed) Q
      l := by
  induction names generalizing removed l with
  | nil => exact h _ _
  | cons name rest ih =>
      show (tmpDiary root).wp (sweepEntry _ _ >>= fun _ => _) Q l
      rw [Machine.wp_bind]
      apply wp_sweepEntry_tmp (hnames _ List.mem_cons_self)
      intro o l'
      cases o with
      | ok gone => exact ih fun n hn => hnames n (List.mem_cons_of_mem _ hn)
      | error e => exact h _ _

theorem wp_cleanupStaleTmp_tmp {older : Rat}
    {Q : Except Exn Nat -> List (Sigma calls.Ret) -> Prop}
    (h : forall o l', Q o l') :
    (tmpDiary root).wp (cleanupStaleTmp root older) Q l := by
  unfold cleanupStaleTmp
  rw [Machine.wp_bind]
  apply wp_diary (SweepsTmp.unnamed (c := Call.isdir _) rfl)
  intro there _
  cases there with
  | false => exact h _ _
  | true =>
      show (tmpDiary root).wp (Os.time >>= fun _ => _) _ _
      rw [Machine.wp_bind]
      apply wp_diary (SweepsTmp.unnamed (c := Call.time) rfl)
      intro now _
      show (tmpDiary root).wp (Os.listdir _ >>= fun _ => _) _ _
      rw [Machine.wp_bind]
      apply wp_raising
      apply wp_diary (SweepsTmp.unnamed (c := Call.listdir _) rfl)
      intro names hnames
      cases names with
      | error e => exact h _ _
      | ok names => exact wp_sweepNames_tmp hnames h

theorem wp_makeAll_tmp {places : List Text}
    {Q : Except Exn Unit -> List (Sigma calls.Ret) -> Prop}
    (h : forall o l', Q o l') : (tmpDiary root).wp (makeAll places) Q l := by
  induction places generalizing l with
  | nil => exact h _ _
  | cons p rest ih =>
      show (tmpDiary root).wp (Os.makedirs p >>= fun _ => _) Q l
      rw [Machine.wp_bind]
      apply wp_raising
      apply wp_diary (SweepsTmp.unnamed (c := Call.makedirs _) rfl)
      intro r _
      cases r with
      | ok _ => exact ih
      | error e => exact h _ _

theorem wp_startup_tmp {texts : Reprs} {buckets : List Text}
    {storageDriver : Text}
    {diskUsage : Except Exn Nat} :
    (tmpDiary root).wp (startup texts root buckets storageDriver diskUsage)
      (fun _ _ => True) l := by
  unfold startup
  rw [Machine.wp_bind]
  apply wp_makeAll_tmp
  intro o l1
  cases o with
  | error e => trivial
  | ok _ =>
      show (tmpDiary root).wp (cleanupStaleTmp root 3600 >>= fun _ => _) _ _
      rw [Machine.wp_bind]
      apply wp_cleanupStaleTmp_tmp
      intro o l2
      cases o with
      | error e => trivial
      | ok removed =>
          cases knownDriver texts storageDriver with
          | error e => trivial
          | ok _ => cases diskUsage <;> trivial

theorem wp_tmpSweeper_tmp {turns : Nat}
    {Q : Except Exn (List SweeperLog) -> List (Sigma calls.Ret) -> Prop}
    (h : forall o l', Q o l') : (tmpDiary root).wp (tmpSweeper root turns) Q l := by
  induction turns generalizing l Q with
  | zero => exact h _ _
  | succ turns ih =>
      have hrest : forall (line : List SweeperLog) l',
          (tmpDiary root).wp (tmpSweeper root turns >>= fun rest =>
            pure (line ++ rest)) Q l' := by
        intro line l'
        rw [Machine.wp_bind]
        apply ih
        intro o l2
        cases o <;> exact h _ _
      show (tmpDiary root).wp (sweeperTurn root >>= fun _ => _) Q _
      rw [Machine.wp_bind]
      unfold sweeperTurn
      rw [Machine.wp_tryCatch, Machine.wp_bind]
      apply wp_cleanupStaleTmp_tmp
      intro o l1
      cases o with
      | ok removed => exact hrest _ _
      | error e =>
          cases e with
          | cancelled => exact h _ _
          | _ => exact hrest _ _

end Diaries

def TidyCall {settings : Settings} (root : Text) :
    Errand settings -> List (Sigma calls.Ret) -> Call -> Prop
  | Errand.request (Operation.cleanupStaleTmp _), _, c => SweepsTmp root c
  | Errand.request _, _, _ => True
  | _, _, c => SweepsTmp root c

theorem errand_tidies {settings : Settings} {d : LocalFsBlobDriver}
    (errand : Errand settings) :
    (diary (TidyCall d.root errand) ListsNames).wp (errand.run d)
      (fun _ _ => True) [] := by
  cases errand with
  | request op =>
      apply wp_map
      cases op with
      | cleanupStaleTmp older =>
          exact wp_map (wp_cleanupStaleTmp_tmp fun _ _ => trivial)
      | _ => exact wp_diary_any _ _
  | startup texts storageDriver diskUsage => exact wp_map wp_startup_tmp
  | sweeper turns => exact wp_map (wp_tmpSweeper_tmp fun _ _ => trivial)

theorem layTree_proper {fs : FileTree} (places : List Text) (h : Proper fs) :
    Proper (layTree fs places) := by
  induction places generalizing fs with
  | nil => exact h
  | cons p rest ih => exact ih (h.mkdirs p _)

theorem freshTree_proper (root : Text) (buckets : List Text) :
    Proper (freshTree root buckets) := by
  apply layTree_proper
  intro p n hp seg hseg
  rw [(bareTree_node hp).left] at hseg
  cases hseg

theorem listsNames_of_proper {allow : Policy} {fs fs' : FileTree} {c : Call}
    {r : Call.Ret c} (h : Proper fs)
    (hstep : (system allow).machine.Step fs c r fs') : ListsNames c r := by
  rcases hstep with ⟨ch, _, hexec⟩
  cases c with
  | listdir t =>
      cases r with
      | error e => trivial
      | ok names =>
          intro name hname
          have hlisted : listdirAt ch t fs = Except.ok names :=
            congrArg Prod.fst hexec
          have hnode := (mem_listdir hlisted name).mp hname
          rcases Option.ne_none_iff_exists'.mp hnode with ⟨n, hn⟩
          exact h _ n hn name (by simp)
  | _ => trivial

end StorybookStorage
