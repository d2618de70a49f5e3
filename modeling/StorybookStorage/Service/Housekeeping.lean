import StorybookStorage.Effects.Rely
import StorybookStorage.Posix.Clock
import StorybookStorage.Service.Restart
import StorybookStorage.Store.Sweeping

/-!
# What sweeps leave behind

Sweeps of the staging files run beside the requests of clients, beside each
other and in several processes.  Nothing that runs makes a staging file old or
moves a file among them, so what a sweep has cleared stays clear: once it has
ended well, nothing is ever stale again by the clock it has read.
-/

namespace StorybookStorage

open Python Posix Effects FileTree

variable {settings : Settings} {d : LocalFsBlobDriver} {root : Text}

def MovesAway (root : Text) (c : Call) : Prop :=
  forall src dst, c = Call.rename src dst ->
    forall name, resolve dst ≠ tmpLoc root name

/-- What errands may call next, as far as it matters here. -/
def ErrandCall (root : Text) :
    Errand settings -> List (Sigma calls.Ret) -> Call -> Prop
  | Errand.request op, past, c => Allowed root op past c
  | _, _, c => MovesAway root c

/-!
## No errand moves a file among the staging files
-/

theorem allowed_movesAway {op : Operation settings}
    {past : List (Sigma calls.Ret)} {c : Call} (h : Allowed root op past c) :
    MovesAway root c := by
  have haway : Away root c -> MovesAway root c := by
    intro h src dst hc name hname
    subst hc
    exact h _ (List.mem_cons_of_mem _ List.mem_cons_self) name hname
  cases op with
  | put slot data contentType ifNoneMatch metadata =>
      have hput : PutCall root (phaseOf root past) c := h
      cases hput with
      | away _ h => exact haway h
      | moves u dst _ hdst =>
          intro src dst' hc name
          cases hc
          exact hdst name
      | _ => exact nofun
  | cleanupStaleTmp older =>
      have hsweep : SweepCall older past c := h
      cases hsweep with
      | looks _ hquiet =>
          intro src dst hc
          subst hc
          exact absurd hquiet id
      | removes => exact nofun
  | _ => exact haway h

theorem errandCall_movesAway {errand : Errand settings}
    {past : List (Sigma calls.Ret)} {c : Call}
    (h : ErrandCall root errand past c) : MovesAway root c := by
  cases errand with
  | request op => exact @allowed_movesAway _ _ op past c h
  | startup texts storageDriver diskUsage => exact h
  | sweeper turns => exact h

theorem tends_movesAway {c : Call} (h : Tends c) : MovesAway root c := by
  intro src dst hc
  subst hc
  exact h.elim

theorem errand_movesAway (errand : Errand settings) :
    (diary (ErrandCall d.root errand) Answers).wp (errand.run d)
      (fun _ _ => True) [] := by
  have hplain : forall {α : Type} {p : Io α}, p.Issues Tends ->
      (diary (fun _ c => MovesAway d.root c) Answers).wp p (fun _ _ => True)
        [] :=
    fun hp => wp_diary_issues (I := fun _ => True) hp
      (fun _ _ _ h => tends_movesAway h) (fun _ _ _ _ _ _ => trivial) trivial
  cases errand with
  | request op => exact wp_map (operation_diary op)
  | startup texts storageDriver diskUsage =>
      exact wp_map (hplain startup_tends)
  | sweeper turns => exact wp_map (hplain tmpSweeper_tends)

/-!
## Any schedule under one clock
-/

def Sees : Call -> Bool
  | Call.isdir _ => true
  | Call.isfile _ => true
  | Call.getmtime _ => true
  | Call.remove _ => true
  | _ => false

def sightedFault : Policy := fun _ c fault => fault = none ∨ Sees c = false

instance (fs : FileTree) (c : Call) (f : Option Errno) :
    Decidable (sightedFault fs c f) := by
  unfold sightedFault
  infer_instance

abbrev ClockedTask (settings : Settings) :=
  Task calls (Errand settings) Exn Report

abbrev ClockedPool (settings : Settings) :=
  Pool calls Clocked (Errand settings) Exn Report

@[reducible] def clockedGame (d : LocalFsBlobDriver) :
    Game calls Clocked Choice (Errand settings) Exn Report where
  chooser := clocked sightedFault
  program := Errand.run d
  accepts _ := True
  guard _ _ _ := True
  stops := True

/-- What all errands keep to: the clock goes on, and no staging file gets older
than the clock lets it. -/
structure Ageing (root : Text) (s s' : Clocked) : Prop where
  clock : s.2 ≤ s'.2
  proper : Proper s.1 -> Proper s'.1
  there : s.1.node (resolve (join root tmpDir)) = some Node.dir ->
    s'.1.node (resolve (join root tmpDir)) = some Node.dir
  aged : forall cutoff, cutoff ≤ s.2 -> forall name,
    Aged cutoff s'.1 (tmpLoc root name) -> Aged cutoff s.1 (tmpLoc root name)

theorem Ageing.refl (s : Clocked) : Ageing root s s where
  clock := le_refl _
  proper := id
  there := id
  aged _ _ _ := id

theorem Ageing.trans {s1 s2 s3 : Clocked} (h : Ageing root s1 s2)
    (h' : Ageing root s2 s3) : Ageing root s1 s3 where
  clock := h.clock.trans h'.clock
  proper hs := h'.proper (h.proper hs)
  there hs := h'.there (h.there hs)
  aged cutoff hcutoff name hold :=
    h.aged cutoff hcutoff name
      (h'.aged cutoff (hcutoff.trans h.clock) name hold)

theorem clocked_ageing {allow : Policy} {s s' : Clocked} {c : Call}
    {r : Call.Ret c} (hstep : (clocked allow).machine.Step s c r s')
    (hmoves : MovesAway root c) : Ageing root s s' := by
  rcases hstep with ⟨ch, ⟨_, hclock⟩, hexec⟩
  cases hexec
  exact
    { clock := hclock
      proper := fun hs => hs.exec rfl
      there := fun hs => exec_dir rfl hs
      aged := fun cutoff hcutoff name hold =>
        hold.before rfl (fun src dst hc => hmoves src dst hc name)
          (hcutoff.trans hclock) }

theorem answers_of_clocked {allow : Policy} {s s' : Clocked} {c : Call}
    {r : Call.Ret c} (hstep : (clocked allow).machine.Step s c r s') :
    Answers c r := by
  rcases hstep with ⟨ch, ⟨⟨_, hfresh⟩, _⟩, hexec⟩
  cases c with
  | uuid4 =>
      cases hexec
      exact (hfresh rfl).left
  | _ => trivial

theorem clockedGame_guarantees {s : Clocked} :
    ((clockedGame d).rules : Rules calls Clocked (Errand settings) Exn
      Report).Guarantees s
      (Ageing d.root) where
  refl := Ageing.refl
  trans := Ageing.trans
  step P i t c k r s' hreach ht hc hstep := by
    have hdiary := Rules.Reach.diary_reached
      (fun errand _ => errand_movesAway errand)
      (fun _ c r s' _ hstep => answers_of_clocked hstep) hreach ht
    rw [hc] at hdiary
    exact clocked_ageing hstep (errandCall_movesAway hdiary.left)

/-!
## One sweep among others
-/

def Sweepable (root : Text) (fs : FileTree) : Prop :=
  Proper fs ∧ fs.node (resolve (join root tmpDir)) = some Node.dir

/-- No staging file is stale by a clock that was read. -/
def Clear (root : Text) (older now : Rat) (s : Clocked) : Prop :=
  now ≤ s.2 ∧ forall name, ¬ Aged (now - older) s.1 (tmpLoc root name)

/-- The middle of a sweep: stale staging files have names that are still to
come. -/
structure Midway (root : Text) (older : Rat)
    (start : List (Sigma calls.Ret) × Clocked) (now : Rat) (names : List Text)
    (w : List (Sigma calls.Ret) × Clocked) : Prop where
  ageing : Ageing root start.2 w.2
  clock : now ≤ w.2.2
  ahead : forall name, Aged (now - older) w.2.1 (tmpLoc root name) ->
    name ∈ names
  read : ⟨Call.time, now⟩ ∈ w.1
  behind : forall now' : Rat, ⟨Call.time, now'⟩ ∈ w.1 ->
    ⟨Call.time, now'⟩ ∈ start.1 ∨ now' = now

section Among

variable {older now : Rat} {names : List Text} {name : Text}
  {start : List (Sigma calls.Ret) × Clocked} {past : List (Sigma calls.Ret)}
  {s s' : Clocked}

theorem Ageing.sweepable (h : Ageing root s s') (hs : Sweepable root s.1) :
    Sweepable root s'.1 := ⟨h.proper hs.left, h.there hs.right⟩

/-- What is not stale by a clock that was read does not become so. -/
theorem Ageing.never (h : Ageing root s s') (holder : 0 ≤ older)
    (hnow : now ≤ s.2) (hnever : ¬ Aged (now - older) s.1 (tmpLoc root name)) :
    ¬ Aged (now - older) s'.1 (tmpLoc root name) :=
  fun hold => hnever (h.aged _ ((sub_le_self now holder).trans hnow) name hold)

theorem Clear.later (h : Clear root older now s) (holder : 0 ≤ older)
    (hage : Ageing root s s') : Clear root older now s' :=
  ⟨h.left.trans hage.clock, fun name => hage.never holder h.left (h.right name)⟩

theorem Midway.later (h : Midway root older start now names (past, s))
    (holder : 0 ≤ older) (hage : Ageing root s s') :
    Midway root older start now names (past, s') where
  ageing := h.ageing.trans hage
  clock := h.clock.trans hage.clock
  ahead name hold :=
    h.ahead name (hage.aged _ ((sub_le_self now holder).trans h.clock) name hold)
  read := h.read
  behind := h.behind

theorem Midway.call {c : Call} {r : Call.Ret c}
    (h : Midway root older start now names (past, s)) (hc : c ≠ Call.time) :
    Midway root older start now names (past ++ [⟨c, r⟩], s) where
  ageing := h.ageing
  clock := h.clock
  ahead := h.ahead
  read := List.mem_append_left _ h.read
  behind now' hread := by
    rcases List.mem_append.mp hread with hbefore | hnew
    · exact h.behind now' hbefore
    · cases List.mem_singleton.mp hnew
      exact absurd rfl hc

theorem Midway.drop (h : Midway root older start now (name :: names) (past, s))
    (hnever : ¬ Aged (now - older) s.1 (tmpLoc root name)) :
    Midway root older start now names (past, s) where
  ageing := h.ageing
  clock := h.clock
  ahead name' hold := by
    rcases List.mem_cons.mp (h.ahead name' hold) with rfl | hrest
    · exact absurd hold hnever
    · exact hrest
  read := h.read
  behind := h.behind

theorem Midway.done (h : Midway root older start now [] (past, s)) :
    Clear root older now s := by
  refine ⟨h.clock, ?_⟩
  intro name hold
  cases h.ahead name hold

abbrev amongClocked (root : Text) :
    Machine calls (List (Sigma calls.Ret) × Clocked) :=
  (clocked sightedFault).machine.among (Ageing root)

theorem wp_clocked {c : Call}
    {Q : Except Exn (Call.Ret c) -> List (Sigma calls.Ret) × Clocked -> Prop}
    (hmoves : forall src dst, c ≠ Call.rename src dst)
    (hQ : forall ch r fs' s', sightedFault s.1 c ch.fault ->
      exec ch c s.1 = (r, fs') -> Ageing root s (fs', ch.now) ->
      Ageing root (fs', ch.now) s' -> Q (Except.ok r) (past ++ [⟨c, r⟩], s')) :
    (amongClocked root).wp (Prog.op (S := calls) c) Q (past, s) := by
  apply wp_among trivial
  intro r s1 s' hstep hage
  have hown : Ageing root s s1 :=
    clocked_ageing hstep fun src dst hc => absurd hc (hmoves src dst)
  rcases hstep with ⟨ch, ⟨⟨hallow, _⟩, _⟩, hexec⟩
  cases hexec
  exact hQ ch _ _ s' hallow rfl hown hage

theorem wp_midway {c : Call}
    {Q : Except Exn (Call.Ret c) -> List (Sigma calls.Ret) × Clocked -> Prop}
    (h : Midway root older start now names (past, s)) (holder : 0 ≤ older)
    (hc : c ≠ Call.time) (hmoves : forall src dst, c ≠ Call.rename src dst)
    (hQ : forall ch r fs' s', sightedFault s.1 c ch.fault ->
      exec ch c s.1 = (r, fs') ->
      (forall name, ¬ Aged (now - older) fs' (tmpLoc root name) ->
        ¬ Aged (now - older) s'.1 (tmpLoc root name)) ->
      Midway root older start now names (past ++ [⟨c, r⟩], s') ->
      Q (Except.ok r) (past ++ [⟨c, r⟩], s')) :
    (amongClocked root).wp (Prog.op (S := calls) c) Q (past, s) := by
  apply wp_clocked hmoves
  intro ch r fs' s' hallow hexec hown hage
  apply hQ ch r fs' s' hallow hexec
  · intro name
    exact hage.never holder (h.clock.trans hown.clock)
  · exact (h.later holder (hown.trans hage)).call hc

/-- An entry is looked at, and removed if it is too old; so it is not stale
after, whoever removed it. -/
theorem wp_sweepEntry_midway
    {Q : Except Exn Bool -> List (Sigma calls.Ret) × Clocked -> Prop}
    (hplain : Plain name) (h : Midway root older start now (name :: names) (past, s))
    (holder : 0 ≤ older)
    (hQ : forall gone past' s', Midway root older start now names (past', s') ->
      Q (Except.ok gone) (past', s')) :
    (amongClocked root).wp
      (sweepEntry (join (join root tmpDir) name) (now - older)) Q (past, s) := by
  have hentry : resolve (join (join root tmpDir) name) = tmpLoc root name :=
    resolve_tmpEntry hplain
  unfold sweepEntry
  rw [Machine.wp_tryCatch, Machine.wp_bind]
  apply wp_midway (c := Call.isfile _) h holder nofun nofun
  intro ch regular fs1 s1 hallow hexec hnever hmid
  have hfault : ch.fault = none := hallow.resolve_right nofun
  cases regular with
  | false =>
      apply hQ
      apply hmid.drop
      apply hnever
      rw [← hentry]
      exact unaged_of_isfile hfault hexec
  | true =>
      show (amongClocked root).wp (Os.getmtime _ >>= fun _ => _) _ _
      rw [Machine.wp_bind]
      apply wp_raising
      apply wp_midway (c := Call.getmtime _) hmid holder nofun nofun
      intro ch1 mtime fs2 s2 hallow1 hexec1 hnever1 hmid1
      have hfault1 : ch1.fault = none := hallow1.resolve_right nofun
      cases mtime with
      | error e =>
          apply hQ
          apply hmid1.drop
          apply hnever1
          rw [← hentry]
          exact unaged_of_getmtime hfault1 hexec1 nofun
      | ok m =>
          show (amongClocked root).wp (if m < now - older then _ else _) _ _
          split
          · rw [Machine.wp_bind]
            apply wp_raising
            apply wp_midway (c := Call.remove _) hmid1 holder nofun nofun
            intro ch2 r fs3 s3 hallow2 hexec2 hnever2 hmid2
            have hgone : ¬ Aged (now - older) s3.1 (tmpLoc root name) := by
              apply hnever2
              rw [← hentry]
              exact unaged_of_remove (hallow2.resolve_right nofun) hexec2
            cases r with
            | ok _ => exact hQ true _ _ (hmid2.drop hgone)
            | error e => exact hQ false _ _ (hmid2.drop hgone)
          · rename_i hyoung
            apply hQ
            apply hmid1.drop
            apply hnever1
            rw [← hentry]
            apply unaged_of_getmtime hfault1 hexec1
            intro m' hm
            cases hm
            exact hyoung

theorem wp_sweepNames_midway {removed : Nat}
    {Q : Except Exn Nat -> List (Sigma calls.Ret) × Clocked -> Prop}
    (hplain : forall name, name ∈ names -> Plain name)
    (h : Midway root older start now names (past, s)) (holder : 0 ≤ older)
    (hQ : forall o past' s', Midway root older start now [] (past', s') ->
      Q o (past', s')) :
    (amongClocked root).wp
      (sweepNames (join root tmpDir) (now - older) names removed) Q
      (past, s) := by
  induction names generalizing removed past s with
  | nil => exact hQ _ _ _ h
  | cons name rest ih =>
      show (amongClocked root).wp (sweepEntry _ _ >>= fun _ => _) _ _
      rw [Machine.wp_bind]
      apply wp_sweepEntry_midway (hplain _ List.mem_cons_self) h holder
      intro gone past' s' hmid
      exact ih (fun n hn => hplain n (List.mem_cons_of_mem _ hn)) hmid

/-- A sweep that ends well has read a clock, and by that clock nothing is
stale. -/
theorem wp_cleanupStaleTmp_among
    {Q : Except Exn Nat -> List (Sigma calls.Ret) × Clocked -> Prop}
    (hready : Sweepable root s.1) (holder : 0 ≤ older)
    (hQ : forall o past' s', Ageing root s s' ->
      (o.isOk = true -> exists now : Rat, ⟨Call.time, now⟩ ∈ past' ∧
        Clear root older now s' ∧
        forall now' : Rat, ⟨Call.time, now'⟩ ∈ past' ->
          ⟨Call.time, now'⟩ ∈ past ∨ now' = now) ->
      Q o (past', s')) :
    (amongClocked root).wp (cleanupStaleTmp root older) Q (past, s) := by
  unfold cleanupStaleTmp
  rw [Machine.wp_bind]
  apply wp_clocked (c := Call.isdir _) nofun
  intro ch there fs1 s1 hallow hexec hown1 hage1
  have hthere : (ch.fault.isNone &&
      s.1.isDir (resolve (join root tmpDir))) = there :=
    congrArg Prod.fst hexec
  rw [hallow.resolve_right nofun, isDir_iff.mpr hready.right] at hthere
  subst hthere
  have hs1 := hown1.trans hage1
  show (amongClocked root).wp (Os.time >>= fun _ => _) _ _
  rw [Machine.wp_bind]
  apply wp_clocked (c := Call.time) nofun
  intro ch2 (now : Rat) fs2 s2 _ hexec2 hown2 hage2
  have hs2 := hs1.trans (hown2.trans hage2)
  have hnow : now ≤ s2.2 := by
    have hread : ch2.now = now := congrArg Prod.fst hexec2
    rw [← hread]
    exact hage2.clock
  show (amongClocked root).wp (Os.listdir _ >>= fun _ => _) _ _
  rw [Machine.wp_bind]
  apply wp_raising
  apply wp_clocked (c := Call.listdir _) nofun
  intro ch3 r fs3 s3 _ hexec3 hown3 hage3
  have hs3 := hown3.trans hage3
  cases r with
  | error e => exact hQ _ _ _ (hs2.trans hs3) nofun
  | ok names =>
      have hlisted : listdirAt ch3 (join root tmpDir) s2.1 = Except.ok names :=
        congrArg Prod.fst hexec3
      have hnames := mem_listdir hlisted
      have hmid : Midway root older (past, s) now names
          (past ++ [⟨Call.isdir (join root tmpDir), true⟩] ++ [⟨Call.time, now⟩] ++
            [⟨Call.listdir (join root tmpDir), Except.ok names⟩], s3) :=
        { ageing := hs2.trans hs3
          clock := hnow.trans hs3.clock
          ahead := by
            intro name hold
            rcases hs3.aged _ ((sub_le_self now holder).trans hnow) name hold
              with ⟨i, hi, _⟩
            rw [hnames, resolve_tmp]
            intro hnone
            have hnode : s2.1.node (tmpLoc root name) = none := hnone
            rw [hi] at hnode
            cases hnode
          read := by simp
          behind := by
            intro now' hread
            simp only [List.mem_append, List.mem_singleton] at hread
            rcases hread with ((hbefore | hisdir) | htime) | hlistdir
            · exact Or.inl hbefore
            · cases hisdir
            · cases htime
              exact Or.inr rfl
            · cases hlistdir }
      apply wp_sweepNames_midway ?_ hmid holder
      · intro o past' s' hmid'
        exact hQ o past' s' hmid'.ageing fun _ =>
          ⟨now, hmid'.read, hmid'.done, hmid'.behind⟩
      · intro name hname
        rcases Option.ne_none_iff_exists'.mp ((hnames name).mp hname) with
          ⟨n, hn⟩
        exact (hs2.sweepable hready).left _ n hn name (by simp)

theorem wp_makeAll_among {places : List Text}
    {Q : Except Exn Unit -> List (Sigma calls.Ret) × Clocked -> Prop}
    (hQ : forall o past' s', Ageing root s s' ->
      (forall now : Rat, ⟨Call.time, now⟩ ∈ past' -> ⟨Call.time, now⟩ ∈ past) ->
      Q o (past', s')) :
    (amongClocked root).wp (makeAll places) Q (past, s) := by
  induction places generalizing past s with
  | nil => exact hQ _ _ _ (Ageing.refl s) fun _ => id
  | cons p rest ih =>
      show (amongClocked root).wp (Os.makedirs p >>= fun _ => _) _ _
      rw [Machine.wp_bind]
      apply wp_raising
      apply wp_clocked (c := Call.makedirs p) nofun
      intro ch r fs1 s1 _ _ hown hage
      have hs1 := hown.trans hage
      have hread : forall now : Rat,
          ⟨Call.time, now⟩ ∈ past ++ [⟨Call.makedirs p, r⟩] ->
          ⟨Call.time, now⟩ ∈ past := by
        intro now hmem
        rcases List.mem_append.mp hmem with hbefore | hnew
        · exact hbefore
        · cases List.mem_singleton.mp hnew
      cases r with
      | error e => exact hQ _ _ _ hs1 hread
      | ok _ =>
          apply ih
          intro o past' s' hage' hread'
          exact hQ o past' s' (hs1.trans hage') fun now hmem =>
            hread now (hread' now hmem)

def Tidied (root : Text) (older : Rat)
    (w : List (Sigma calls.Ret) × Clocked) : Prop :=
  (exists now : Rat, ⟨Call.time, now⟩ ∈ w.1) ∧
    forall now : Rat, ⟨Call.time, now⟩ ∈ w.1 -> Clear root older now w.2

theorem wp_startup_among {texts : Reprs} {buckets : List Text}
    {storageDriver : Text}
    {diskUsage : Except Exn Nat} (hready : Sweepable root s.1) :
    (amongClocked root).wp (startup texts root buckets storageDriver diskUsage)
      (fun o w => o.isOk = true -> Tidied root 3600 w) ([], s) := by
  unfold startup
  rw [Machine.wp_bind]
  apply wp_makeAll_among
  intro o past1 s1 hs1 hread1
  cases o with
  | error e => exact nofun
  | ok _ =>
      show (amongClocked root).wp (cleanupStaleTmp root 3600 >>= fun _ => _) _ _
      rw [Machine.wp_bind]
      apply wp_cleanupStaleTmp_among (hs1.sweepable hready) (by norm_num)
      intro o past2 s2 hs2 hswept
      cases o with
      | error e => exact nofun
      | ok removed =>
          rcases hswept rfl with ⟨now, hread, hclear, honly⟩
          have htidied : Tidied root 3600 (past2, s2) := by
            refine ⟨⟨now, hread⟩, ?_⟩
            intro now' hread'
            rcases honly now' hread' with hbefore | rfl
            · cases hread1 now' hbefore
            · exact hclear
          cases knownDriver texts storageDriver with
          | error e => exact nofun
          | ok _ =>
              cases diskUsage with
              | error e => exact nofun
              | ok free => exact fun _ => htidied

def Untroubled (log : List SweeperLog) : Prop :=
  forall e, SweeperLog.tmpSweepFailed e ∉ log

theorem wp_tmpSweeper_among {turns : Nat} {tidy : Prop}
    (hready : Sweepable root s.1)
    (hclear : tidy -> forall now : Rat, ⟨Call.time, now⟩ ∈ past ->
      Clear root 3600 now s) :
    (amongClocked root).wp (tmpSweeper root turns)
      (fun o w => forall log, o = Except.ok log -> Untroubled log -> tidy ->
        (turns = 0 -> exists now : Rat, ⟨Call.time, now⟩ ∈ past) ->
        Tidied root 3600 w) (past, s) := by
  induction turns generalizing past s tidy with
  | zero => exact fun _ _ _ htidy hread => ⟨hread rfl, hclear htidy⟩
  | succ turns ih =>
      -- A turn that failed leaves nothing to show about the others.
      have hrest : forall (line : List SweeperLog) past' s', Ageing root s s' ->
          (Untroubled line -> tidy -> Tidied root 3600 (past', s')) ->
          (amongClocked root).wp
            (tmpSweeper root turns >>= fun rest => pure (line ++ rest))
            (fun o w => forall log, o = Except.ok log -> Untroubled log ->
              tidy -> (turns + 1 = 0 -> exists now : Rat,
                ⟨Call.time, now⟩ ∈ past) -> Tidied root 3600 w) (past', s') := by
        intro line past' s' hage htidied
        rw [Machine.wp_bind]
        have hturns := @ih past' s' (Untroubled line ∧ tidy)
          (hage.sweepable hready) fun h => (htidied h.left h.right).right
        apply Machine.wp_mono hturns
        intro o w hw
        cases o with
        | error e => exact nofun
        | ok rest =>
            intro log hlog hquiet htidy _
            cases hlog
            have hline : Untroubled line :=
              fun e he => hquiet e (List.mem_append_left _ he)
            apply hw rest rfl _ ⟨hline, htidy⟩ fun _ => (htidied hline htidy).left
            exact fun e he => hquiet e (List.mem_append_right _ he)
      show (amongClocked root).wp (sweeperTurn root >>= fun _ => _) _ _
      rw [Machine.wp_bind]
      unfold sweeperTurn
      rw [Machine.wp_tryCatch, Machine.wp_bind]
      apply wp_cleanupStaleTmp_among hready (by norm_num)
      intro o past1 s1 hs1 hswept
      cases o with
      | ok removed =>
          apply hrest _ _ _ hs1
          intro _ htidy
          rcases hswept rfl with ⟨now, hread, hnow, honly⟩
          refine ⟨⟨now, hread⟩, ?_⟩
          intro now' hread'
          rcases honly now' hread' with hbefore | rfl
          · exact (hclear htidy now' hbefore).later (by norm_num) hs1
          · exact hnow
      | error e =>
          have hfailed : (amongClocked root).wp
              (tmpSweeper root turns >>= fun rest =>
                pure ([SweeperLog.tmpSweepFailed e] ++ rest)) _ (past1, s1) :=
            hrest _ _ _ hs1 fun hquiet => absurd List.mem_cons_self (hquiet e)
          cases e with
          | cancelled => exact nofun
          | _ => exact hfailed

end Among

/-!
## Every errand that sweeps
-/

inductive Sweeping : Errand settings -> Rat -> Prop where
  | request (older : Rat) :
      0 ≤ older ->
      Sweeping (Errand.request (Operation.cleanupStaleTmp older)) older
  | startup (texts : Reprs) (storageDriver : Text)
      (diskUsage : Except Exn Nat) :
      Sweeping (Errand.startup texts storageDriver diskUsage) 3600
  | sweeper (turns : Nat) : Sweeping (Errand.sweeper (turns + 1)) 3600

def Done : Except Exn Report -> Prop
  | Except.ok (Report.sweeper log) => Untroubled log
  | Except.ok _ => True
  | Except.error _ => False

theorem wp_sweeping {errand : Errand settings} {s : Clocked}
    (hready : Sweepable d.root s.1) :
    (amongClocked d.root).wp (errand.run d)
      (fun o w => forall older, Sweeping errand older -> Done o ->
        Tidied d.root older w) ([], s) := by
  cases errand with
  | request op =>
      cases op with
      | cleanupStaleTmp older =>
          by_cases holder : 0 ≤ older
          · apply wp_map
            apply wp_map
            apply wp_cleanupStaleTmp_among hready holder
            intro o past' s' _ hswept older' hsweeping hdone
            cases hsweeping
            cases o with
            | error e => exact hdone.elim
            | ok removed =>
                rcases hswept rfl with ⟨now, hread, hclear, honly⟩
                refine ⟨⟨now, hread⟩, ?_⟩
                intro now' hread'
                rcases honly now' hread' with hbefore | rfl
                · cases hbefore
                · exact hclear
          · apply Machine.wp_mono (wp_among_any (fun _ _ => trivial) _ _)
            intro o w _ older' hsweeping
            cases hsweeping with
            | request _ h => exact absurd h holder
      | _ =>
          apply Machine.wp_mono (wp_among_any (fun _ _ => trivial) _ _)
          intro o w _ older' hsweeping
          cases hsweeping
  | startup texts storageDriver diskUsage =>
      apply wp_map
      apply Machine.wp_mono (wp_startup_among hready)
      intro o w hw older hsweeping hdone
      cases hsweeping
      cases o with
      | error e => exact hdone.elim
      | ok removed => exact hw rfl
  | sweeper turns =>
      apply wp_map
      apply Machine.wp_mono
        (wp_tmpSweeper_among hready fun (_ : True) _ h => by cases h)
      intro o w hw older hsweeping hdone
      cases hsweeping
      cases o with
      | error e => exact hdone.elim
      | ok log => exact hw log rfl hdone trivial nofun

theorem sweepable_of_reach {s : Clocked} (hready : Sweepable d.root s.1)
    {P : ClockedPool settings} (hreach : (clockedGame d).rules.Reach s P) :
    Sweepable d.root P.shared.1 := by
  refine Rules.Reach.invariant (I := fun P => Sweepable d.root P.shared.1)
    hready ?_ ?_ ?_ hreach
  · intro P errand _ h _
    exact h
  · intro P i t c k r s' hreach h ht hc _ hstep
    have hage := clockedGame_guarantees.step P i t c k r s' hreach ht hc hstep
    exact hage.sweepable h
  · intro P _ h _
    exact h

def laterCallsOf {ι : Type} (i first count : Nat) : List (Event Choice ι) :=
  (List.range count).map fun k => Event.run i (laterChoice (first + k))

/-- A put stages its file and waits for a day; then the sweeper has a turn, and
another put begins. -/
def waitedADay : ClockedPool sampleSettings :=
  let put := Errand.request (Operation.put pictureSlot
    (sampleSource [[1, 2], [3]]) (text "image/png") none none)
  (clockedGame sampleDriver).outcome (sampleTree, 0)
    ([Event.spawn put] ++ callsOf 0 0 4 ++
      [Event.spawn (Errand.sweeper 1)] ++ laterCallsOf 1 20 6 ++
      [Event.spawn put] ++ laterCallsOf 2 30 4)

def sweptOne : Except Exn Report -> Bool
  | Except.ok (Report.sweeper [SweeperLog.tmpSwept 1]) => true
  | _ => false

theorem done_of_sweptOne {o : Except Exn Report} (h : sweptOne o = true) :
    Done o := by
  unfold sweptOne at h
  split at h
  · intro e he
    cases List.mem_singleton.mp he
  · cases h

def isSweeper : Errand sampleSettings -> Bool
  | Errand.sweeper 1 => true
  | _ => false

theorem sweeping_of_isSweeper {errand : Errand sampleSettings}
    (h : isSweeper errand = true) : Sweeping errand 3600 := by
  unfold isSweeper at h
  split at h
  · exact Sweeping.sweeper 0
  · cases h

end StorybookStorage
