import StorybookStorage.Store.Fresh
import StorybookStorage.Store.Phase

/-!
# Sweeps and puts in progress

A sweep takes the age of a staging file as a sign that its put is gone, and a
put that waits for its client has such a file too.  As long as no sweep finds
the staging file of a put in progress too old, sweeps remove nothing that a put
still needs.
-/

namespace StorybookStorage

open Python Posix Effects FileTree

/-!
## What an operation calls
-/

def clockRead : Sigma calls.Ret -> Option Rat
  | ⟨Call.time, now⟩ => some now
  | _ => none

def clockOf (past : List (Sigma calls.Ret)) : Option Rat :=
  past.findSome? clockRead

theorem clockOf_append {past : List (Sigma calls.Ret)} {now : Rat}
    (h : clockOf past = some now) (later : List (Sigma calls.Ret)) :
    clockOf (past ++ later) = some now := by
  unfold clockOf at h ⊢
  rw [List.findSome?_append, h]
  rfl

/-- A sweep only looks, but for removing what it has just found too old. -/
inductive SweepCall (older : Rat) (past : List (Sigma calls.Ret)) :
    Call -> Prop where
  | looks (c : Call) : c.Quiet -> SweepCall older past c
  | removes (t : Text) (now m : Rat) :
      clockOf past = some now ->
      past.getLast? = some ⟨Call.getmtime t, Except.ok m⟩ ->
      m < now - older ->
      SweepCall older past (Call.remove t)

def Allowed {settings : Settings} (root : Text) :
    Operation settings -> List (Sigma calls.Ret) -> Call -> Prop
  | Operation.put _ _ _ _ _, past, c => PutCall root (phaseOf root past) c
  | Operation.cleanupStaleTmp older, past, c => SweepCall older past c
  | Operation.get _ _, _, c => Away root c
  | Operation.head _, _, c => Away root c
  | Operation.delete _, _, c => Away root c

section Diaries

variable {settings : Settings} {d : LocalFsBlobDriver}
  {l : List (Sigma calls.Ret)} {older now : Rat}

abbrev sweepDiary (older : Rat) : Machine calls (List (Sigma calls.Ret)) :=
  diary (SweepCall older) Answers

theorem wp_sweepEntry {p : Text}
    {Q : Except Exn Bool -> List (Sigma calls.Ret) -> Prop}
    (hclock : clockOf l = some now)
    (h : forall o l', clockOf l' = some now -> Q o l') :
    (sweepDiary older).wp (sweepEntry p (now - older)) Q l := by
  unfold sweepEntry
  rw [Machine.wp_tryCatch, Machine.wp_bind]
  apply wp_diary (SweepCall.looks (Call.isfile p) trivial)
  intro regular _
  have hclock1 := clockOf_append hclock [⟨Call.isfile p, regular⟩]
  cases regular with
  | false => exact h _ _ hclock1
  | true =>
      show (sweepDiary older).wp (Os.getmtime p >>= fun _ => _) _ _
      rw [Machine.wp_bind]
      apply wp_raising
      apply wp_diary (SweepCall.looks (Call.getmtime p) trivial)
      intro mtime _
      have hclock2 := clockOf_append hclock1 [⟨Call.getmtime p, mtime⟩]
      cases mtime with
      | error e => exact h _ _ hclock2
      | ok m =>
          show (sweepDiary older).wp (if m < now - older then _ else _) _ _
          split
          · rename_i hold
            rw [Machine.wp_bind]
            apply wp_raising
            apply wp_diary
              (SweepCall.removes p now m hclock2 (List.getLast?_concat ..) hold)
            intro r _
            have hclock3 := clockOf_append hclock2 [⟨Call.remove p, r⟩]
            cases r with
            | ok _ => exact h _ _ hclock3
            | error e => exact h _ _ hclock3
          · exact h _ _ hclock2

theorem wp_sweepNames {tmp : Text} {names : List Text} {removed : Nat}
    (hclock : clockOf l = some now) :
    (sweepDiary older).wp (sweepNames tmp (now - older) names removed)
      (fun _ _ => True) l := by
  induction names generalizing removed l with
  | nil => trivial
  | cons name rest ih =>
      show (sweepDiary older).wp (sweepEntry _ _ >>= fun _ => _) _ l
      rw [Machine.wp_bind]
      apply wp_sweepEntry hclock
      intro o l' hclock'
      cases o with
      | ok gone => exact ih hclock'
      | error e => trivial

theorem cleanupStaleTmp_diary :
    (sweepDiary older).wp (cleanupStaleTmp d.root older)
      (fun _ _ => True) [] := by
  unfold cleanupStaleTmp
  rw [Machine.wp_bind]
  apply wp_diary (SweepCall.looks (Call.isdir _) trivial)
  intro there _
  cases there with
  | false => trivial
  | true =>
      show (sweepDiary older).wp (Os.time >>= fun _ => _) _ _
      rw [Machine.wp_bind]
      apply wp_diary (SweepCall.looks Call.time trivial)
      intro now _
      show (sweepDiary older).wp (Os.listdir _ >>= fun _ => _) _ _
      rw [Machine.wp_bind]
      apply wp_raising
      apply wp_diary (SweepCall.looks (Call.listdir _) trivial)
      intro names _
      cases names with
      | error e => trivial
      | ok names =>
          apply wp_sweepNames
          exact clockOf_append rfl _

theorem away_remove {root t : Text} (h : forall w, resolve t ≠ tmpLoc root w) :
    Away root (Call.remove t) := by
  intro q hq w
  rw [List.mem_singleton.mp hq]
  exact h w

theorem safeUnlink_away {root t : Text}
    (h : forall w, resolve t ≠ tmpLoc root w) :
    (safeUnlink t).Issues (Away root) := by
  apply Prog.Issues.tryCatch
  · apply (issues_raising (issues_call (Call.remove t) (away_remove h))).bind
    intro _
    exact Prog.issues_pure _
  · intro e
    cases e with
    | os n => exact Prog.issues_pure _
    | _ => exact Prog.issues_raise _

theorem delete_away (slot : Slot settings) :
    (d.delete slot.bucket slot.key).Issues (Away d.root) := by
  unfold LocalFsBlobDriver.delete
  rw [slot.objectPath_ok, slot.metaPath_ok]
  have hobject : forall w, resolve (slot.objectText d.root) ≠ tmpLoc d.root w := by
    intro w
    rw [slot.resolve_objectText]
    exact tmpLoc_ne_objectLoc w
  apply (safeUnlink_away hobject).bind
  intro existed
  apply (safeUnlink_away fun w => sidecarText_ne_tmpLoc w).bind
  intro _
  exact Prog.issues_pure _

theorem away_diary {α : Type} {p : Io α} (hp : p.Issues (Away d.root)) :
    (diary (fun _ c => Away d.root c) Answers).wp p (fun _ _ => True) [] :=
  wp_diary_issues (I := fun _ => True) hp (fun _ _ _ h => h)
    (fun _ _ _ _ _ _ => trivial) trivial

theorem operation_diary (op : Operation settings) :
    (diary (Allowed d.root op) Answers).wp (op.run d) (fun _ _ => True) [] := by
  cases op with
  | put slot data contentType ifNoneMatch metadata =>
      exact wp_map (Machine.wp_mono put_diary fun _ _ _ => trivial)
  | get slot pulls =>
      have hlooks := fetch_looks d slot.bucket slot.key pulls
      exact wp_map (away_diary (hlooks.imp fun _ h => looks_away h))
  | head slot =>
      have hlooks := head_looks d slot.bucket slot.key
      exact wp_map (away_diary (hlooks.imp fun _ h => looks_away h))
  | delete slot => exact wp_map (away_diary (delete_away slot))
  | cleanupStaleTmp older =>
      exact wp_map (Machine.wp_mono cleanupStaleTmp_diary fun _ _ _ => trivial)

end Diaries

/-!
## Pools of operations
-/

abbrev StoreTask (settings : Settings) :=
  Task calls (Operation settings) Exn Reply

abbrev StorePool (settings : Settings) :=
  Pool calls FileTree (Operation settings) Exn Reply

section Tasks

variable {settings : Settings} (root : Text)

/-- Where the put of a task stands. -/
def putPhase (t : StoreTask settings) : Phase :=
  match t.tag with
  | Operation.put _ _ _ _ _ => phaseOf root t.past
  | _ => Phase.idle

/-- The staging place of a put in progress. -/
def stagedBy (t : StoreTask settings) : Option Path :=
  match t.code.ending with
  | none => (putPhase root t).token.map (tmpLoc root)
  | some _ => none

/-- Files last modified before this moment are too old for a sweep. -/
def cutoffOf (t : StoreTask settings) : Option Rat :=
  match t.tag with
  | Operation.cleanupStaleTmp older =>
      (clockOf t.past).map fun now => now - older
  | _ => none

def modifiedAt (fs : FileTree) (q : Path) : Option Rat :=
  match fs.node q with
  | some (Node.file i) => some (fs.inodes i).mtime
  | _ => none

/-- When a sweep reads the age of a file that a put in progress stages, the
file is not too old. -/
def Recent (P : StorePool settings) (i : Nat) (e : Sigma calls.Ret) : Prop :=
  match e.1 with
  | Call.getmtime p =>
      forall t, t ∈ P.tasks -> stagedBy root t = some (resolve p) ->
        forall cutoff, cutoff ∈ (P.tasks[i]?).bind cutoffOf ->
          forall m, m ∈ modifiedAt P.shared (resolve p) -> cutoff ≤ m
  | _ => True

instance (P : StorePool settings) (i : Nat) (e : Sigma calls.Ret) :
    Decidable (Recent root P i e) := by
  unfold Recent
  split <;> infer_instance

@[reducible] def sweepGame (d : LocalFsBlobDriver) (allow : Policy)
    (guard : StorePool settings -> Nat -> Sigma calls.Ret -> Prop) :
    Game calls FileTree Choice (Operation settings) Exn Reply where
  chooser := system allow
  program := Operation.run d
  accepts _ := True
  guard := guard
  stops := True

/-- Nothing a put in progress may need lies at this place. -/
def Orphan (P : StorePool settings) (q : Path) : Prop :=
  P.shared.node q = some Node.dir ∨
    ((forall w, tmpLoc root w = q -> w ∈ P.shared.tokens) ∧
      forall (i : Nat) (t : StoreTask settings), P.tasks[i]? = some t ->
        stagedBy root t ≠ some q)

structure Patrolled (P : StorePool settings) : Prop where
  known : forall (i : Nat) (t : StoreTask settings) u,
    P.tasks[i]? = some t -> (putPhase root t).token = some u ->
    IsToken u ∧ u ∈ P.shared.tokens
  apart : forall (i j : Nat) (t t' : StoreTask settings) u,
    P.tasks[i]? = some t -> P.tasks[j]? = some t' ->
    (putPhase root t).token = some u -> (putPhase root t').token = some u ->
    i = j
  stamped : forall w, P.shared.isFile (tmpLoc root w) = true ->
    w ∈ P.shared.tokens
  /-- A put in progress that stages a file still has it. -/
  kept : forall (i : Nat) (t : StoreTask settings) u,
    P.tasks[i]? = some t -> t.code.ending = none ->
    putPhase root t = Phase.staging u ->
    P.shared.isFile (tmpLoc root u) = true
  /-- What a sweep has found too old is an orphan. -/
  marked : forall (i : Nat) (t : StoreTask settings) p m cutoff,
    P.tasks[i]? = some t -> cutoffOf t = some cutoff ->
    t.past.getLast? = some ⟨Call.getmtime p, Except.ok m⟩ -> m < cutoff ->
    Orphan root P (resolve p)

end Tasks

/-!
## One step
-/

section Steps

variable {settings : Settings} {root : Text} {allow : Policy}
  {P : StorePool settings} {i : Nat} {t : StoreTask settings} {c : Call}
  {r : Call.Ret c} {fs' : FileTree} {p : Prog calls Exn Reply} {u : Text}

/-- A step that the diary of its task allows. -/
structure Strides (root : Text) (allow : Policy) (P : StorePool settings)
    (i : Nat) (t : StoreTask settings) (c : Call) (r : Call.Ret c)
    (fs' : FileTree) : Prop where
  task : P.tasks[i]? = some t
  running : t.code.ending = none
  allowed : Allowed root t.tag t.past c
  step : (system allow).machine.Step P.shared c r fs'

theorem next_token_cases {fs : FileTree} {phase : Phase}
    (hstep : (system allow).machine.Step fs c r fs')
    (h : (phase.next root c r).token = some u) :
    phase.token = some u ∨ (IsToken u ∧ u ∉ fs.tokens ∧ u ∈ fs'.tokens) := by
  cases phase with
  | idle =>
      cases c with
      | uuid4 =>
          rcases hstep with ⟨ch, ⟨_, hfresh⟩, hexec⟩
          rcases exec_uuid4 hexec with ⟨rfl, htokens, _⟩
          cases h
          rcases hfresh rfl with ⟨htoken, hnew, _⟩
          rw [htokens]
          exact Or.inr ⟨htoken, hnew, List.mem_cons_self⟩
      | _ => cases h
  | drawn v =>
      rw [next_drawn] at h
      split at h <;> exact Or.inl h
  | staging v =>
      rw [next_staging] at h
      split at h <;> exact Or.inl h
  | finished v => exact Or.inl h

theorem putPhase_step (t : StoreTask settings) (c : Call) (r : Call.Ret c)
    (p : Prog calls Exn Reply) :
    putPhase root
        ({ tag := t.tag, past := t.past ++ [⟨c, r⟩], code := p } :
          StoreTask settings) = (putPhase root t).next root c r ∨
      (putPhase root
        ({ tag := t.tag, past := t.past ++ [⟨c, r⟩], code := p } :
          StoreTask settings) = Phase.idle ∧ putPhase root t = Phase.idle) := by
  rcases t with ⟨tag, past, code⟩
  cases tag with
  | put slot data contentType ifNoneMatch metadata =>
      exact Or.inl (phaseOf_concat root past c r)
  | _ => exact Or.inr ⟨rfl, rfl⟩

/-- A task that is not a sweep calls what a put in its phase may call. -/
theorem Strides.kinds (h : Strides root allow P i t c r fs') :
    PutCall root (putPhase root t) c ∨
      exists older, t.tag = Operation.cleanupStaleTmp older ∧
        SweepCall older t.past c := by
  have hallowed := h.allowed
  rcases t with ⟨tag, past, code⟩
  cases tag with
  | put slot data contentType ifNoneMatch metadata => exact Or.inl hallowed
  | cleanupStaleTmp older => exact Or.inr ⟨older, rfl, hallowed⟩
  | get slot pulls => exact Or.inl (PutCall.away c hallowed)
  | head slot => exact Or.inl (PutCall.away c hallowed)
  | delete slot => exact Or.inl (PutCall.away c hallowed)

theorem Patrolled.resolve_tmp (hP : Patrolled root P)
    (ht : P.tasks[i]? = some t) (hu : (putPhase root t).token = some u) :
    resolve (tmpText root u) = tmpLoc root u :=
  resolve_tmpText (hP.known i t u ht hu).left

/-- Only the put that drew a token makes its staging file. -/
theorem Strides.places (h : Strides root allow P i t c r fs')
    (hP : Patrolled root P) (hq : tmpLoc root u ∈ placesFile c r) :
    (putPhase root t).token = some u := by
  rcases h.kinds with hput | ⟨older, _, hsweep⟩
  · cases hput with
    | away _ ha => exact absurd hq (away_places ha u)
    | opens v hdrawn =>
        have hv : (putPhase root t).token = some v := by
          rw [hdrawn]
          rfl
        have hplace := List.mem_singleton.mp (placesFile_names hq)
        rw [hP.resolve_tmp h.task hv] at hplace
        rw [tmpLoc_inj hplace]
        exact hv
    | moves v dst hstaging hdst =>
        cases r with
        | error e => cases hq
        | ok _ => exact absurd (List.mem_singleton.mp hq).symm (hdst u)
    | removes v htoken => cases hq
  · cases hsweep with
    | looks _ hquiet =>
        rw [quiet_places hquiet] at hq
        cases hq
    | removes q now m _ _ _ => cases hq

theorem cutoffOf_sweep {older now : Rat}
    (htag : t.tag = Operation.cleanupStaleTmp older)
    (hclock : clockOf t.past = some now) : cutoffOf t = some (now - older) := by
  unfold cutoffOf
  rw [htag, hclock]
  rfl

theorem Strides.takes (h : Strides root allow P i t c r fs')
    (hP : Patrolled root P) (hq : tmpLoc root u ∈ takesFile c r) :
    (putPhase root t).token = some u ∨ Orphan root P (tmpLoc root u) := by
  rcases h.kinds with hput | ⟨older, htag, hsweep⟩
  · refine Or.inl ?_
    cases hput with
    | away _ ha => exact absurd hq (away_takes ha u)
    | opens v hdrawn => cases hq
    | moves v dst hstaging hdst =>
        have hv : (putPhase root t).token = some v := by
          rw [hstaging]
          rfl
        cases r with
        | error e => cases hq
        | ok _ =>
            have hplace := List.mem_singleton.mp hq
            rw [hP.resolve_tmp h.task hv] at hplace
            rw [tmpLoc_inj hplace]
            exact hv
    | removes v hv =>
        have hplace := List.mem_singleton.mp (takesFile_names hq)
        rw [hP.resolve_tmp h.task hv] at hplace
        rw [tmpLoc_inj hplace]
        exact hv
  · refine Or.inr ?_
    cases hsweep with
    | looks _ hquiet =>
        rw [quiet_takes hquiet] at hq
        cases hq
    | removes q now m hclock hlast hold =>
        have hcutoff := cutoffOf_sweep htag hclock
        have hmarked := hP.marked i t q m _ h.task hcutoff hlast hold
        have hplace := List.mem_singleton.mp (takesFile_names hq)
        rw [hplace]
        exact hmarked

theorem stagedBy_some {q : Path} : stagedBy root t = some q <->
    t.code.ending = none ∧
      exists w, (putPhase root t).token = some w ∧ tmpLoc root w = q := by
  unfold stagedBy
  cases t.code.ending with
  | none => simp
  | some o => simp

theorem next_staging_cases {phase : Phase}
    (h : phase.next root c r = Phase.staging u) :
    (phase = Phase.drawn u ∧ tmpLoc root u ∈ placesFile c r) ∨
      (phase = Phase.staging u ∧ tmpLoc root u ∉ takesFile c r) := by
  cases phase with
  | idle => cases c <;> cases h
  | drawn v =>
      rw [next_drawn] at h
      split at h
      · rename_i hplaced
        cases h
        exact Or.inl ⟨rfl, hplaced⟩
      · cases h
  | staging v =>
      rw [next_staging] at h
      split at h
      · cases h
      · rename_i hleft
        cases h
        exact Or.inr ⟨rfl, hleft⟩
  | finished v => cases h

theorem Strides.token (h : Strides root allow P i t c r fs')
    (hu : (putPhase root ({ tag := t.tag, past := t.past ++ [⟨c, r⟩], code := p } :
      StoreTask settings)).token = some u) :
    (putPhase root t).token = some u ∨
      (IsToken u ∧ u ∉ P.shared.tokens ∧ u ∈ fs'.tokens) := by
  rcases putPhase_step t c r p with hnext | ⟨hidle, _⟩
  · rw [hnext] at hu
    exact next_token_cases h.step hu
  · rw [hidle] at hu
    cases hu

theorem Strides.tokens (h : Strides root allow P i t c r fs')
    (hu : u ∈ P.shared.tokens) : u ∈ fs'.tokens := by
  rcases h.step with ⟨ch, _, hexec⟩
  exact exec_tokens hexec hu

theorem Orphan.stride {q : Path} (hq : Orphan root P q)
    (h : Strides root allow P i t c r fs') :
    Orphan root (P.advance i t ⟨c, r⟩ p fs') q := by
  rcases hq with hdir | ⟨htokens, hstaged⟩
  · rcases h.step with ⟨ch, _, hexec⟩
    exact Or.inl (exec_dir hexec hdir)
  · refine Or.inr ⟨fun w hw => h.tokens (htokens w hw), ?_⟩
    intro j t' ht' hsome
    rcases Pool.tasks_advance_get ht' with ⟨_, rfl⟩ | ⟨_, hold⟩
    · rcases stagedBy_some.mp hsome with ⟨_, w, hw, hwq⟩
      rcases h.token hw with hbefore | ⟨_, hnew, _⟩
      · exact hstaged i t h.task (stagedBy_some.mpr ⟨h.running, w, hbefore, hwq⟩)
      · exact hnew (htokens w hwq)
    · exact hstaged j t' hold hsome

theorem getmtime_ok {ch : Choice} {fs fs1 : FileTree} {q : Text} {m : Rat}
    (hexec : exec ch (Call.getmtime q) fs = (Except.ok m, fs1)) :
    fs.node (resolve q) = some Node.dir ∨
      (fs.isFile (resolve q) = true ∧ modifiedAt fs (resolve q) = some m) := by
  have hstat : (statAt ch q fs).map Stat.mtime = Except.ok m :=
    congrArg Prod.fst hexec
  unfold statAt at hstat
  split at hstat
  · cases hstat
  · split at hstat
    · cases hstat
    · rename_i hdir
      exact Or.inl hdir
    · rename_i k hk
      cases hstat
      refine Or.inr ⟨isFile_iff.mpr ⟨k, hk⟩, ?_⟩
      unfold modifiedAt
      rw [hk]

/-- What a sweep finds too old is an orphan, when what is staged is recent. -/
theorem Strides.marks {q : Text} {m cutoff : Rat}
    (h : Strides root allow P i t (Call.getmtime q) (Except.ok m) fs')
    (hP : Patrolled root P)
    (hguard : Recent root P i ⟨Call.getmtime q, Except.ok m⟩)
    (hcutoff : cutoffOf t = some cutoff) (hold : m < cutoff) :
    Orphan root P (resolve q) := by
  rcases h.step with ⟨ch, _, hexec⟩
  rcases getmtime_ok hexec with hdir | ⟨hfile, hmodified⟩
  · exact Or.inl hdir
  · refine Or.inr ⟨?_, ?_⟩
    · intro w hw
      rw [← hw] at hfile
      exact hP.stamped w hfile
    · intro j t' ht' hsome
      have hmem : cutoff ∈ (P.tasks[i]?).bind cutoffOf := by
        rw [h.task]
        exact hcutoff
      have hrecent := hguard t' (List.mem_of_getElem? ht') hsome cutoff hmem m
        hmodified
      exact absurd hold (not_lt.mpr hrecent)

theorem cutoffOf_step {e : Sigma calls.Ret} (he : clockRead e = none) :
    cutoffOf ({ tag := t.tag, past := t.past ++ [e], code := p } :
      StoreTask settings) = cutoffOf t := by
  have hclock : clockOf (t.past ++ [e]) = clockOf t.past := by
    unfold clockOf
    rw [List.findSome?_append]
    simp [he]
  unfold cutoffOf
  rw [hclock]

theorem Patrolled.stride (hP : Patrolled root P)
    (h : Strides root allow P i t c r fs')
    (hguard : Recent root P i ⟨c, r⟩) :
    Patrolled root (P.advance i t ⟨c, r⟩ p fs') := by
  rcases h.step with ⟨ch, hlegal, hexec⟩
  constructor
  · intro j t' u ht' hu
    rcases Pool.tasks_advance_get ht' with ⟨_, rfl⟩ | ⟨_, hold⟩
    · rcases h.token hu with hbefore | ⟨htoken, _, hin⟩
      · have hknown := hP.known i t u h.task hbefore
        exact ⟨hknown.left, h.tokens hknown.right⟩
      · exact ⟨htoken, hin⟩
    · have hknown := hP.known j t' u hold hu
      exact ⟨hknown.left, h.tokens hknown.right⟩
  · -- A token drawn in this step is in no other task, for those are known.
    intro j l t1 t2 u h1 h2 hu1 hu2
    rcases Pool.tasks_advance_get h1 with ⟨hj, rfl⟩ | ⟨_, hold1⟩
    · rcases Pool.tasks_advance_get h2 with ⟨hl, rfl⟩ | ⟨_, hold2⟩
      · rw [hj, hl]
      · rcases h.token hu1 with hbefore | ⟨_, hnew, _⟩
        · rw [hj]
          exact hP.apart i l t t2 u h.task hold2 hbefore hu2
        · exact absurd (hP.known l t2 u hold2 hu2).right hnew
    · rcases Pool.tasks_advance_get h2 with ⟨hl, rfl⟩ | ⟨_, hold2⟩
      · rcases h.token hu2 with hbefore | ⟨_, hnew, _⟩
        · rw [hl]
          exact hP.apart j i t1 t u hold1 h.task hu1 hbefore
        · exact absurd (hP.known j t1 u hold1 hu1).right hnew
      · exact hP.apart j l t1 t2 u hold1 hold2 hu1 hu2
  · intro w hw
    rcases isFile_iff.mp hw with ⟨k, hk⟩
    rcases exec_file hexec hk with hbefore | hplaced
    · exact h.tokens (hP.stamped w (isFile_iff.mpr ⟨k, hbefore⟩))
    · exact h.tokens (hP.known i t w h.task (h.places hP hplaced)).right
  · intro j t' u ht' hrunning hphase
    rcases Pool.tasks_advance_get ht' with ⟨_, rfl⟩ | ⟨hne, hold⟩
    · rcases putPhase_step t c r p with hnext | ⟨hidle, _⟩
      · rw [hnext] at hphase
        rcases next_staging_cases hphase with ⟨_, hplaced⟩ | ⟨hstaging, hleft⟩
        · exact isFile_iff.mpr (exec_placed hexec hplaced)
        · have hfile := hP.kept i t u h.task h.running hstaging
          rcases isFile_iff.mp hfile with ⟨k, hk⟩
          rcases exec_stays hexec hk with hstays | htaken
          · exact isFile_iff.mpr hstays
          · exact absurd htaken hleft
      · rw [hidle] at hphase
        cases hphase
    · have hfile := hP.kept j t' u hold hrunning hphase
      have hu : (putPhase root t').token = some u := by
        rw [hphase]
        rfl
      rcases isFile_iff.mp hfile with ⟨k, hk⟩
      rcases exec_stays hexec hk with hstays | htaken
      · exact isFile_iff.mpr hstays
      · rcases h.takes hP htaken with hown | hdir | ⟨_, hstaged⟩
        · exact absurd (hP.apart j i t' t u hold h.task hu hown) hne
        · rw [hk] at hdir
          cases hdir
        · exact absurd (stagedBy_some.mpr ⟨hrunning, u, hu, rfl⟩)
            (hstaged j t' hold)
  · intro j t' q m cutoff ht' hcutoff hlast hold
    refine Orphan.stride ?_ h
    rcases Pool.tasks_advance_get ht' with ⟨_, rfl⟩ | ⟨_, hbefore⟩
    · have hlast' : some (⟨c, r⟩ : Sigma calls.Ret) =
          some ⟨Call.getmtime q, Except.ok m⟩ := by
        rw [← hlast]
        exact (List.getLast?_concat ..).symm
      cases hlast'
      rw [cutoffOf_step rfl] at hcutoff
      exact h.marks hP hguard hcutoff hold
    · exact hP.marked j t' q m cutoff hbefore hcutoff hlast hold

end Steps

/-!
## Whole runs
-/

section Runs

variable {settings : Settings} {d : LocalFsBlobDriver} {allow : Policy}
  {root : Text} {P : StorePool settings} {fs : FileTree}

theorem putPhase_new (op : Operation settings) (p : Prog calls Exn Reply) :
    putPhase root ({ tag := op, past := [], code := p } : StoreTask settings) =
      Phase.idle := by
  cases op <;> rfl

theorem Patrolled.boot (hfresh : Fresh d.root fs) :
    Patrolled d.root (Pool.boot fs : StorePool settings) where
  known := fun _ _ _ ht => (Pool.tasks_boot_get ht).elim
  apart := fun _ _ _ _ _ ht => (Pool.tasks_boot_get ht).elim
  stamped := by
    intro w hw
    rcases isFile_iff.mp hw with ⟨i, hi⟩
    exact absurd hi (hfresh.vacant _ i (List.prefix_append _ _))
  kept := fun _ _ _ ht => (Pool.tasks_boot_get ht).elim
  marked := fun _ _ _ _ _ ht => (Pool.tasks_boot_get ht).elim

theorem Patrolled.spawn (hP : Patrolled root P) (op : Operation settings)
    (p : Prog calls Exn Reply) : Patrolled root (P.spawn op p) := by
  have hold : forall (i : Nat) (t : StoreTask settings) u,
      (P.spawn op p).tasks[i]? = some t -> (putPhase root t).token = some u ->
      P.tasks[i]? = some t := by
    intro i t u ht hu
    rcases Pool.tasks_spawn_get ht with hbefore | ⟨_, rfl⟩
    · exact hbefore
    · rw [putPhase_new] at hu
      cases hu
  constructor
  · intro i t u ht hu
    exact hP.known i t u (hold i t u ht hu) hu
  · intro i j t t' u ht ht' hu hu'
    exact hP.apart i j t t' u (hold i t u ht hu) (hold j t' u ht' hu') hu hu'
  · exact hP.stamped
  · intro i t u ht hrunning hphase
    have hu : (putPhase root t).token = some u := by
      rw [hphase]
      rfl
    exact hP.kept i t u (hold i t u ht hu) hrunning hphase
  · intro i t q m cutoff ht hcutoff hlast hlt
    rcases Pool.tasks_spawn_get ht with hbefore | ⟨_, rfl⟩
    · refine (hP.marked i t q m cutoff hbefore hcutoff hlast hlt).imp_right ?_
      intro h
      rcases h with ⟨htokens, hstaged⟩
      refine ⟨htokens, ?_⟩
      intro j t' ht' hsome
      rcases stagedBy_some.mp hsome with ⟨_, w, hw, _⟩
      exact hstaged j t' (hold j t' w ht' hw) hsome
    · cases hlast

theorem Patrolled.stop (hP : Patrolled root P) : Patrolled root P.stop where
  known := fun _ _ _ ht => (Pool.tasks_stop_get ht).elim
  apart := fun _ _ _ _ _ ht => (Pool.tasks_stop_get ht).elim
  stamped := hP.stamped
  kept := fun _ _ _ ht => (Pool.tasks_stop_get ht).elim
  marked := fun _ _ _ _ _ ht => (Pool.tasks_stop_get ht).elim

theorem strides {guard : StorePool settings -> Nat -> Sigma calls.Ret -> Prop}
    (hreach : (sweepGame d allow guard).rules.Reach fs P) {i : Nat}
    {t : StoreTask settings} {c : Call} {k : Call.Ret c -> Prog calls Exn Reply}
    {r : Call.Ret c} {fs' : FileTree} (ht : P.tasks[i]? = some t)
    (hc : t.code = Prog.call c k)
    (hstep : (system allow).machine.Step P.shared c r fs') :
    Strides d.root allow P i t c r fs' := by
  have hanswers : forall s c r s', (system allow).machine.Step s c r s' ->
      Answers c r := by
    intro s c r s' hstep
    rcases hstep with ⟨ch, ⟨_, hfresh⟩, hexec⟩
    cases c with
    | uuid4 =>
        rw [(exec_uuid4 hexec).left]
        exact (hfresh rfl).left
    | _ => trivial
  have hprograms : forall op, (sweepGame d allow guard).rules.accepts op ->
      (diary (Allowed d.root op) Answers).wp (op.run d) (fun _ _ => True) [] :=
    fun op _ => operation_diary op
  have hdiary := Rules.Reach.diary hprograms hanswers hreach ht
  rw [hc] at hdiary
  exact
    { task := ht
      running := by rw [hc]; rfl
      allowed := hdiary.left
      step := hstep }

theorem patrolled (hfresh : Fresh d.root fs)
    (hreach : (sweepGame d allow (Recent d.root)).rules.Reach fs P) :
    Patrolled d.root P := by
  refine Rules.Reach.invariant (I := Patrolled d.root) (Patrolled.boot hfresh)
    ?_ ?_ ?_ hreach
  · intro P op _ hP _
    exact hP.spawn op _
  · intro P i t c k r s' hreach hP ht hc hguard hstep
    exact hP.stride (strides hreach ht hc hstep) hguard
  · intro P _ hP _
    exact hP.stop

structure Spared (d : LocalFsBlobDriver) (allow : Policy)
    (P : StorePool settings) : Prop where
  /-- A put in progress still has its staging file. -/
  kept : forall (i : Nat) (t : StoreTask settings) u,
    P.tasks[i]? = some t -> t.code.ending = none ->
    putPhase d.root t = Phase.staging u ->
    P.shared.isFile (tmpLoc d.root u) = true
  /-- A sweep removes at most an entry that no put in progress stages. -/
  sweeps : forall (i : Nat) (t : StoreTask settings) older c k r fs',
    P.tasks[i]? = some t -> t.tag = Operation.cleanupStaleTmp older ->
    t.code = Prog.call c k ->
    (system allow).machine.Step P.shared c r fs' ->
    fs' = P.shared ∨
      exists q, fs' = P.shared.unlink q ∧
        forall (j : Nat) (t' : StoreTask settings), P.tasks[j]? = some t' ->
          stagedBy d.root t' ≠ some q
  /-- Without a device error a staging file fails to be moved only where
  its destination is in the way. -/
  renames : forall (i : Nat) (t : StoreTask settings) u dst k ch e fs',
    P.tasks[i]? = some t -> IsToken u ->
    t.code = Prog.call (Call.rename (tmpText d.root u) dst) k ->
    Legal allow P.shared (Call.rename (tmpText d.root u) dst) ch ->
    ch.fault = none ->
    exec ch (Call.rename (tmpText d.root u) dst) P.shared =
      (Except.error e, fs') ->
    P.shared.node (resolve dst) = some Node.dir ∨
      P.shared.node (resolve dst).dropLast ≠ some Node.dir

theorem PutCall.rename {phase : Phase} {src dst : Text}
    (h : PutCall root phase (Call.rename src dst)) :
    Away root (Call.rename src dst) ∨
      exists v, src = tmpText root v ∧ phase = Phase.staging v := by
  cases h with
  | away _ haway => exact Or.inl haway
  | moves v _ hstaging _ => exact Or.inr ⟨v, rfl, hstaging⟩

/-- While what puts in progress stage looks recent to every sweep, sweeps only
remove orphans. -/
theorem sweeps_spare (hfresh : Fresh d.root fs)
    (hreach : (sweepGame d allow (Recent d.root)).rules.Reach fs P) :
    Spared d allow P := by
  have hP := patrolled hfresh hreach
  constructor
  · exact hP.kept
  · intro i t older c k r fs' ht htag hc hstep
    have hstride := strides hreach ht hc hstep
    rcases hstep with ⟨ch, _, hexec⟩
    have hallowed := hstride.allowed
    rw [htag] at hallowed
    cases hallowed with
    | looks _ hquiet => exact Or.inl (exec_quiet hquiet hexec)
    | removes q now m hclock hlast hold =>
        have hcutoff := cutoffOf_sweep htag hclock
        rcases exec_remove hexec with ⟨_, _, hsame⟩ | ⟨n, _, hfile, hgone⟩
        · exact Or.inl hsame
        · refine Or.inr ⟨_, hgone, ?_⟩
          rcases hP.marked i t q m _ ht hcutoff hlast hold with
            hdir | ⟨_, hstaged⟩
          · rw [hfile] at hdir
            cases hdir
          · exact hstaged
  · intro i t u dst k ch e fs' ht htoken hc hlegal hfault hexec
    have hstride := strides hreach ht hc ⟨ch, hlegal, hexec⟩
    have hplace : resolve (tmpText d.root u) = tmpLoc d.root u :=
      resolve_tmpText htoken
    have hfile : P.shared.isFile (tmpLoc d.root u) = true := by
      rcases hstride.kinds with hput | ⟨older, _, hsweep⟩
      · rcases hput.rename with haway | ⟨v, hsrc, hstaging⟩
        · exact absurd hplace (haway _ List.mem_cons_self u)
        · have hv : (putPhase d.root t).token = some v := by
            rw [hstaging]
            rfl
          have hsame := hP.resolve_tmp ht hv
          rw [← hsrc, hplace] at hsame
          rw [hsame]
          exact hP.kept i t v ht hstride.running hstaging
      · cases hsweep with
        | looks _ hquiet => exact absurd hquiet id
    rcases isFile_iff.mp hfile with ⟨n, hn⟩
    rw [← hplace] at hn
    exact rename_error hfault hn hexec

end Runs

/-!
## Two runs
-/

def olderThanSec : Rat := 3600

def callsAt (i first count : Nat) (now : Rat) :
    List (Event Choice (Operation sampleSettings)) :=
  (List.range count).map fun k =>
    Event.run i
      { fault := none
        amount := 0
        token := (sampleChoice (first + k)).token
        now := now }

def pausedPut : Operation sampleSettings :=
  Operation.put pictureSlot (sampleSource [[1, 2], [3]]) (text "image/png") none
    none

def sweptWhileFilling : List (Event Choice (Operation sampleSettings)) :=
  [Event.spawn pausedPut] ++ callsAt 0 0 3 0 ++
    [Event.spawn (Operation.cleanupStaleTmp olderThanSec)] ++
    callsAt 1 20 5 1800

def sweptWhilePaused : List (Event Choice (Operation sampleSettings)) :=
  [Event.spawn pausedPut] ++ callsAt 0 0 3 0 ++
    [Event.spawn (Operation.cleanupStaleTmp olderThanSec)] ++
    callsAt 1 20 6 7200

def endedBy {settings : Settings} (P : StorePool settings) (i : Nat) :
    Option (Option Exn) :=
  (P.tasks[i]?).bind fun t => t.code.ending.map raised

theorem sweeps_spare_filling :
    let P := (sweepGame sampleDriver anyFault (Recent sampleDriver.root)).outcome
      sampleTree sweptWhileFilling
    P.tasks.length = 2 ∧
      (P.tasks[1]?).map (fun t => t.code.ending.isSome) = some true ∧
      Spared sampleDriver anyFault P := by
  refine ⟨by decide +kernel, by decide +kernel, ?_⟩
  exact sweeps_spare sampleTree_fresh
    ((sweepGame sampleDriver anyFault _).outcome_reach sampleTree _)

def pausedPool (events : List (Event Choice (Operation sampleSettings))) :
    StorePool sampleSettings :=
  (sweepGame sampleDriver noFault fun _ _ _ => True).outcome sampleTree events

/-- A client that pauses for two hours loses its staging file, and its put
fails although its stream ends normally and no device fails. -/
theorem pausedPut_swept :
    (sweepGame sampleDriver noFault fun _ _ _ => True).rules.Reach sampleTree
        (pausedPool sweptWhilePaused) ∧
      ¬ Spared sampleDriver noFault (pausedPool sweptWhilePaused) ∧
      (sweepGame sampleDriver noFault fun _ _ _ => True).rules.Reach sampleTree
        (pausedPool (sweptWhilePaused ++ callsAt 0 40 7 7200)) ∧
      endedBy (pausedPool (sweptWhilePaused ++ callsAt 0 40 7 7200)) 0 =
        some (some (Exn.storageIoError Errno.ENOENT)) ∧
      endedBy (pausedPool (sweptWhileFilling ++ callsAt 0 40 13 7200)) 0 =
        some none := by
  have hreach : forall events,
      (sweepGame sampleDriver noFault fun _ _ _ => True).rules.Reach sampleTree
        (pausedPool events) :=
    fun events => (sweepGame sampleDriver noFault _).outcome_reach sampleTree _
  refine ⟨hreach _, ?_, hreach _, by decide +kernel, by decide +kernel⟩
  intro hspared
  have hfirst : (pausedPool sweptWhilePaused).tasks[0]?.map (fun t =>
      (t.code.ending.isNone, putPhase sampleDriver.root t)) =
        some (true, Phase.staging (sampleChoice 0).token) := by decide +kernel
  rcases Option.map_eq_some_iff.mp hfirst with ⟨t, ht, hstate⟩
  rcases Prod.mk.inj hstate with ⟨hrunning, hphase⟩
  have hkept := hspared.kept 0 t _ ht (Option.isNone_iff_eq_none.mp hrunning) hphase
  have hgone : (pausedPool sweptWhilePaused).shared.isFile
      (tmpLoc sampleDriver.root (sampleChoice 0).token) = false := by
    decide +kernel
  rw [hgone] at hkept
  cases hkept

end StorybookStorage
