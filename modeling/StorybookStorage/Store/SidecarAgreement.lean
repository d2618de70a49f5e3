import StorybookStorage.Store.History

/-!
# Object and sidecar side by side

Unconditional puts and deletes of one slot, interleaved call by call on a
device without faults.  Each of them changes the object first and the sidecar
second.  As long as no put replaces the sidecar of an object that is not its
own and whose last change is complete, the two files agree again once all have
returned.
-/

namespace StorybookStorage

open Python Posix Effects Contract

variable {settings : Settings} (d : LocalFsBlobDriver) (slot : Slot settings)

inductive Change where
  | put (data : Data) (contentType : Text) (metadata : Option Metadata)
  | delete

namespace Change

def run : Change -> Io Unit
  | put data contentType metadata =>
      (fun _ => ()) <$> d.put slot.bucket slot.key data contentType none metadata
  | delete => (fun _ => ()) <$> d.delete slot.bucket slot.key

def body : Change -> Option Bytes
  | put data _ _ => some data.body
  | delete => none

end Change

abbrev ChangePool := Pool calls FileTree Change Exn Unit

abbrev ChangeTask := Task calls Change Exn Unit

/-!
## Following the order of changes
-/

def changes : Sight -> Bool
  | Sight.placed p => decide (p = slot.objectLoc d.root)
  | Sight.removed p => decide (p = slot.objectLoc d.root)
  | _ => false

def settles : Sight -> Bool
  | Sight.placed p => decide (p = slot.sidecarLoc d.root)
  | Sight.removed p => decide (p = slot.sidecarLoc d.root)
  | Sight.failed (Call.remove t) => decide (resolve t = slot.sidecarLoc d.root)
  | Sight.failed _ => true
  | Sight.tested _ _ => false

def aheadAfter (ahead : Bool) (x : Sight) : Bool :=
  if changes d slot x then true
  else if settles d slot x then false
  else ahead

/-- After changing the object, a task has yet to see to its sidecar. -/
def sidecarAhead (seen : List Sight) : Bool :=
  seen.foldl (aheadAfter d slot) false

def touched (seen : List Sight) : Bool := seen.any (changes d slot)

def lastChanger (trace : List (Nat × Sigma calls.Ret)) : Option Nat :=
  trace.foldl
    (fun last e => if touched d slot (sight e.2.1 e.2.2) then some e.1 else last)
    none

/-- The task that changed the object last has its sidecar step ahead. -/
def Awaited (P : ChangePool) : Bool :=
  ((lastChanger d slot P.trace).bind fun l => P.tasks[l]?).any
    fun t => sidecarAhead d slot (sights t.past)

/-- A put renames its sidecar into place only next to its own object, or while
the task that changed the object last has its sidecar step ahead. -/
def Ordered (P : ChangePool) (i : Nat) (e : Sigma calls.Ret) : Prop :=
  Sight.placed (slot.sidecarLoc d.root) ∈ sight e.1 e.2 ->
    storedObject d slot P.shared = (P.tasks[i]?).bind (fun t => t.tag.body) ∨
      Awaited d slot P = true

instance (P : ChangePool) (i : Nat) (e : Sigma calls.Ret) :
    Decidable (Ordered d slot P i e) := by
  unfold Ordered
  infer_instance

@[reducible] def changeGame
    (guard : ChangePool -> Nat -> Sigma calls.Ret -> Prop) :
    Game calls FileTree Choice Change Exn Unit where
  chooser := system noFault
  program := Change.run d slot
  accepts _ := True
  guard := guard
  stops := False

def Agreed (fs : FileTree) : Prop :=
  forall raw, storedSidecar d slot fs = some raw ->
    exists b, storedObject d slot fs = some b ∧ Describes d raw b

def AgreedView (v : View) : Prop :=
  forall raw, v (slot.sidecarLoc d.root) = some (Entry.file raw) ->
    exists b, v (slot.objectLoc d.root) = some (Entry.file b) ∧ Describes d raw b

variable {d slot}

theorem agreedView_iff {fs : FileTree} :
    AgreedView d slot ((staging d.root).view fs) <-> Agreed d slot fs := by
  unfold AgreedView Agreed
  simp only [view_storedObject, view_storedSidecar]

theorem sidecarAhead_append (a b : List Sight) :
    sidecarAhead d slot (a ++ b) =
      b.foldl (aheadAfter d slot) (sidecarAhead d slot a) := by
  unfold sidecarAhead
  rw [List.foldl_append]

theorem touched_append (a b : List Sight) :
    touched d slot (a ++ b) = (touched d slot a || touched d slot b) :=
  List.any_append

theorem lastChanger_append (trace : List (Nat × Sigma calls.Ret)) (i : Nat)
    (e : Sigma calls.Ret) :
    lastChanger d slot (trace ++ [(i, e)]) =
      if touched d slot (sight e.1 e.2) then some i
      else lastChanger d slot trace := by
  unfold lastChanger
  rw [List.foldl_append]
  rfl

theorem touched_of_ahead {seen : List Sight}
    (h : sidecarAhead d slot seen = true) : touched d slot seen = true := by
  induction seen using List.reverseRecOn with
  | nil => cases h
  | append_singleton front x ih =>
      rw [sidecarAhead_append] at h
      rw [touched_append, Bool.or_eq_true]
      by_cases hx : changes d slot x = true
      · exact Or.inr (by simp [touched, hx])
      · apply Or.inl
        apply ih
        simp only [List.foldl_cons, List.foldl_nil, aheadAfter, if_neg hx] at h
        split at h
        · cases h
        · exact h

theorem settles_of_not_ahead {seen : List Sight}
    (h : seen.foldl (aheadAfter d slot) true = false) :
    exists x, x ∈ seen ∧ settles d slot x = true := by
  induction seen with
  | nil => cases h
  | cons x rest ih =>
      by_cases hx : settles d slot x = true
      · exact ⟨x, List.mem_cons_self, hx⟩
      · have hstay : aheadAfter d slot true x = true := by
          unfold aheadAfter
          rw [if_neg hx]
          split <;> rfl
        rw [List.foldl_cons, hstay] at h
        rcases ih h with ⟨y, hy, hsettles⟩
        exact ⟨y, List.mem_cons_of_mem _ hy, hsettles⟩

theorem ahead_mute {ι : Type} {K : Contract ι}
    (hK : K.toStaging = staging d.root) {more : List Sight} (h : Mute K more) :
    more.foldl (aheadAfter d slot) false = false := by
  induction more with
  | nil => rfl
  | cons x rest ih =>
      have hrest := ih (fun y hy => h y (List.mem_cons_of_mem _ hy))
      have hx : changes d slot x = false := by
        rcases h x List.mem_cons_self with ⟨c, rfl⟩ | ⟨p, rfl, hhidden⟩
        · rfl
        · simp only [changes, decide_eq_false_iff_not]
          intro hp
          rw [hp, hK] at hhidden
          exact slot.visible_objectLoc d.root hhidden
      rw [List.foldl_cons]
      unfold aheadAfter
      rw [if_neg (by simp [hx])]
      split <;> exact hrest

/-!
## The contract of a change
-/

variable (d slot)

def agreement : Contract Change where
  toStaging := staging d.root
  May _ := False
  Sweeps := False
  Reads _ _ := True
  Writes _ := True
  Stages c seen p :=
    c.body ≠ none ∧
      (touched d slot seen = true -> p.dropLast = (slot.sidecarLoc d.root).dropLast)
  Publishes c seen p b :=
    exists body, c.body = some body ∧
      ((p = slot.objectLoc d.root ∧ touched d slot seen = false ∧ b = body) ∨
        (p = slot.sidecarLoc d.root ∧ Describes d b body))
  Removes c _ p :=
    c = Change.delete ∧ (p = slot.objectLoc d.root ∨ p = slot.sidecarLoc d.root)
  Makes c seen p :=
    c.body ≠ none ∧
      ((p = (slot.objectLoc d.root).dropLast ∧ touched d slot seen = false) ∨
        p = (slot.sidecarLoc d.root).dropLast)

def Settled (_ : Change) (_ : Except Exn Unit) (s : Focus) : Prop :=
  sidecarAhead d slot s.seen = false

variable {d slot}

theorem housed_step {c : Change} {seen : List Sight} {v v' : View}
    {g g' : Hold} {call : Call} {r : Call.Ret call} (h : Housed d slot v)
    (hcan : (agreement d slot).Can c seen g call)
    (hstep : (agreement d slot).Step v g call r v' g') :
    Housed d slot v' := by
  intro raw hraw
  by_cases hplaced : Sight.placed (slot.sidecarLoc d.root) ∈ sight call r
  · rcases hstep.placed hcan hplaced with ⟨b, _, _, hparent, _⟩
    exact hstep.dirs hparent
  · apply hstep.dirs
    have hold := hraw
    by_cases hremoved : Sight.removed (slot.sidecarLoc d.root) ∈ sight call r
    · rw [hstep.removed (slot.visible_sidecarLoc d.root) hremoved] at hold
      cases hold
    · rw [hstep.same hcan hplaced (fun _ => hremoved)] at hold
      · exact h raw hold
      · intro p hplace
        rcases hplace with ⟨_, ⟨rfl, _⟩ | rfl⟩
        · intro hpre
          exact slot.sidecarLoc_not_below_objectLoc d.root slot
            (hpre.trans (List.dropLast_prefix _))
        · exact Slot.not_prefix_dropLast (slot.sidecarLoc_ne_nil d.root)

theorem agreement_programs (c : Change) (v : View) :
    ((agreement d slot).machine c (keeping (Housed d slot))).wp
      (c.run d slot) (Settled d slot c)
      { view := v, hold := Hold.idle, seen := [] } := by
  have hsteady := steady_keeping (Housed d slot)
  have hobject : sidecarAhead d slot [Sight.placed (slot.objectLoc d.root)] =
      true := by
    simp [sidecarAhead, aheadAfter, changes]
  cases c with
  | put data contentType metadata =>
      have hnone : testedSights slot d.root none = [] := if_neg (by simp)
      apply wp_map
      apply wp_put d slot rfl hsteady trivial trivial rfl
      · rw [hnone]
        exact
          { writes := trivial
            stages := fun u hu => ⟨by simp [Change.body], fun h => nomatch h⟩
            makes := ⟨by simp [Change.body], Or.inl ⟨rfl, rfl⟩⟩
            publishes := fun _ => ⟨_, rfl, Or.inl ⟨rfl, rfl, rfl⟩⟩
            sidecarStages := by
              intro u hu
              refine ⟨by simp [Change.body], fun _ => ?_⟩
              rcases slot.resolve_sidecarTmp d.root hu with ⟨name, hname⟩
              rw [hname, List.dropLast_concat]
            sidecarMakes := ⟨by simp [Change.body], Or.inr rfl⟩
            sidecarPublishes := fun now =>
              ⟨_, rfl, Or.inr ⟨rfl, describes_sidecarBytes _ _ _ now⟩⟩ }
      · intro o v1 v' g' more hcond
        cases hcond
      · intro e v1 v' u more _ _ _ _ hmute
        rw [hnone]
        exact ahead_mute rfl hmute
      · intro v1 v2 v' g' more _ _ _ _ hside _
        rw [hnone]
        show sidecarAhead d slot
          ([Sight.placed (slot.objectLoc d.root)] ++ more) = false
        rw [sidecarAhead_append, hobject]
        rcases hside with ⟨rfl, _⟩ | ⟨⟨hmute, call, rest, rfl, hcall⟩, _⟩
        · have hne := (slot.objectLoc_ne_sidecarLoc d.root slot).symm
          simp [aheadAfter, changes, settles, hne]
        · have hsettles : settles d slot (Sight.failed call) = true := by
            cases call with
            | remove t => exact absurd rfl (hcall t)
            | _ => rfl
          rw [List.foldl_cons]
          show List.foldl _ (if false = true then true else
            if settles d slot (Sight.failed call) = true then false else true)
              rest = false
          rw [if_neg (by simp), if_pos hsettles]
          exact ahead_mute rfl
            (fun x hx => hmute x (List.mem_cons_of_mem _ hx))
  | delete =>
      apply wp_map
      apply wp_delete d slot rfl rfl
      · exact ⟨rfl, Or.inl rfl⟩
      · intro existed
        exact ⟨rfl, Or.inr rfl⟩
      · intro existed cleaned v1 v' _ _
        show sidecarAhead d slot
          ([] ++ [unlinkSight (slot.objectText d.root) existed] ++
            [unlinkSight (slot.sidecarText d.root) cleaned]) = false
        rw [sidecarAhead_append]
        have hne := (slot.objectLoc_ne_sidecarLoc d.root slot).symm
        cases cleaned <;>
          simp [unlinkSight, aheadAfter, changes, settles, hne]

theorem agreement_governed
    {guard : ChangePool -> Nat -> Sigma calls.Ret -> Prop} :
    Governed (agreement d slot) (Housed d slot) (Settled d slot) noFault
      (changeGame d slot guard).rules where
  machine := rfl
  admits _ _ _ h := Or.inl h
  programs c _ v _ := agreement_programs c v
  keeps _ _ _ _ _ _ _ _ hv hcan hstep := housed_step hv hcan hstep

/-!
## One call
-/

section Call

variable {c : Change} {seen : List Sight} {v v' : View} {g g' : Hold}
  {call : Call} {r : Call.Ret call}

theorem touched_iff {seen : List Sight} :
    touched d slot seen = true <->
      Sight.placed (slot.objectLoc d.root) ∈ seen ∨
        Sight.removed (slot.objectLoc d.root) ∈ seen := by
  unfold touched
  rw [List.any_eq_true]
  constructor
  · intro hplace
    rcases hplace with ⟨x, hx, hchange⟩
    cases x with
    | placed p =>
        rw [← (decide_eq_true_eq.mp hchange : p = _)]
        exact Or.inl hx
    | removed p =>
        rw [← (decide_eq_true_eq.mp hchange : p = _)]
        exact Or.inr hx
    | tested p there => cases hchange
    | failed c => cases hchange
  · intro hplace
    rcases hplace with h | h
    · exact ⟨_, h, by simp [changes]⟩
    · exact ⟨_, h, by simp [changes]⟩

theorem object_same (hcan : (agreement d slot).Can c seen g call)
    (hstep : (agreement d slot).Step v g call r v' g')
    (h : touched d slot (sight call r) = false) :
    v' (slot.objectLoc d.root) = v (slot.objectLoc d.root) := by
  have hnot : ¬ touched d slot (sight call r) = true := by
    rw [h]
    simp
  rw [touched_iff, not_or] at hnot
  apply hstep.same hcan hnot.left (fun _ => hnot.right)
  intro p hplace
  rcases hplace with ⟨_, ⟨rfl, _⟩ | rfl⟩
  · exact Slot.not_prefix_dropLast (slot.objectLoc_ne_nil d.root)
  · intro hpre
    exact slot.objectLoc_not_below_meta d.root slot
      (hpre.trans (List.dropLast_prefix _))

theorem object_changed (hcan : (agreement d slot).Can c seen g call)
    (hstep : (agreement d slot).Step v g call r v' g')
    (h : touched d slot (sight call r) = true) :
    v' (slot.objectLoc d.root) = c.body.map Entry.file := by
  rcases touched_iff.mp h with hplaced | hremoved
  · rcases hstep.placed hcan hplaced with
      ⟨b, ⟨body, hbody, ⟨_, _, hb⟩ | ⟨hloc, _⟩⟩, _, _, hv'⟩
    · rw [hv', Function.update_self, hbody, hb]
      rfl
    · exact absurd hloc (slot.objectLoc_ne_sidecarLoc d.root slot)
  · have hvisible := slot.visible_objectLoc d.root
    rcases hcan.removes hvisible hremoved with ⟨rfl, _⟩
    exact hstep.removed hvisible hremoved

theorem sidecar_same (hcan : (agreement d slot).Can c seen g call)
    (hstep : (agreement d slot).Step v g call r v' g')
    (hplaced : Sight.placed (slot.sidecarLoc d.root) ∉ sight call r)
    (hremoved : Sight.removed (slot.sidecarLoc d.root) ∉ sight call r) :
    v' (slot.sidecarLoc d.root) = v (slot.sidecarLoc d.root) := by
  apply hstep.same hcan hplaced (fun _ => hremoved)
  intro p hplace
  rcases hplace with ⟨_, ⟨rfl, _⟩ | rfl⟩
  · intro hpre
    exact slot.sidecarLoc_not_below_objectLoc d.root slot
      (hpre.trans (List.dropLast_prefix _))
  · exact Slot.not_prefix_dropLast (slot.sidecarLoc_ne_nil d.root)

/-- Without device faults, the sidecar step fails only where there is no
sidecar. -/
theorem no_sidecar_of_failed (hcan : (agreement d slot).Can c seen g call)
    (hstep : (agreement d slot).Step v g call r v' g')
    (hhoused : Housed d slot v) (htouched : touched d slot seen = true)
    (hdrawn : forall u p, g = Hold.drawn u -> (staging d.root).Place u p ->
      p.dropLast = (slot.sidecarLoc d.root).dropLast -> v p ≠ some Entry.dir)
    {failing : Call} (hfailed : Sight.failed failing ∈ sight call r)
    (hsettles : settles d slot (Sight.failed failing) = true) (raw : Bytes) :
    v (slot.sidecarLoc d.root) ≠ some (Entry.file raw) := by
  have hreason : forall {α : Type} {c : Call} {why : Prop} {r : Except Errno α},
      (agreement d slot).Fails c why r -> r.isOk = false -> why := by
    intro α c why r hfails hr
    rcases hfails hr with hmay | hwhy
    · exact absurd hmay id
    · exact hwhy
  intro hraw
  have hparent := hhoused raw hraw
  cases call with
  | makedirs t =>
      cases r with
      | ok _ => simp [sight] at hfailed
      | error e =>
          rcases hcan with ⟨_, ⟨_, huntouched⟩ | hloc⟩
          · rw [htouched] at huntouched
            cases huntouched
          · have hwhy := hreason hstep.right.right.right rfl
            rw [hloc] at hwhy
            exact hwhy.left hparent
  | openWrite t =>
      cases r with
      | ok _ => simp [sight] at hfailed
      | error e =>
          rcases hcan with ⟨⟨_, hnext⟩, u, hg, hplace⟩
          rcases hstep with ⟨_, _, _, hfails, _⟩
          rcases hreason hfails rfl with hdir | hno
          · exact hdrawn u _ hg hplace (hnext htouched) hdir
          · rw [hnext htouched] at hno
            exact hno hparent
  | rename src dst =>
      cases r with
      | ok _ => simp [sight] at hfailed
      | error e =>
          rcases hcan with ⟨_, _, _, _, body, _, ⟨_, huntouched, _⟩ | ⟨hloc, _⟩⟩
          · rw [htouched] at huntouched
            cases huntouched
          · rcases hstep with ⟨_, _, _, _, hfails, _⟩
            rw [hloc] at hfails
            rcases hreason hfails rfl with hsweeps | hdir | hno
            · exact hsweeps
            · rw [hraw] at hdir
              cases hdir
            · exact hno hparent
  | remove t =>
      cases r with
      | ok _ => simp [sight] at hfailed
      | error e =>
          have hsame : failing = Call.remove t := by
            simpa [sight] using hfailed
          rw [hsame] at hsettles
          have hloc : resolve t = slot.sidecarLoc d.root :=
            decide_eq_true_eq.mp hsettles
          have hvisible : ¬ (agreement d slot).Hidden (resolve t) := by
            rw [hloc]
            exact slot.visible_sidecarLoc d.root
          have hno := hreason (hstep.right hvisible).right.left rfl
          rw [hloc] at hno
          exact hno raw hraw
  | write fd chunk =>
      cases r with
      | ok _ => simp [sight] at hfailed
      | error e =>
          rcases hstep with ⟨_, _, _, _, _, hfails, _⟩
          exact hreason hfails rfl
  | flush fd =>
      cases r with
      | ok _ => simp [sight] at hfailed
      | error e => exact hreason hstep.right.right rfl
  | fsync fd =>
      cases r with
      | ok _ => simp [sight] at hfailed
      | error e => exact hreason hstep.right.right rfl
  | close fd =>
      cases r with
      | ok _ => simp [sight] at hfailed
      | error e => exact hreason hstep.right.right rfl
  | _ => simp [sight] at hfailed

end Call

/-!
## The invariant
-/

variable (d slot)

/-- The object is what its last changer made it, and unless that task has its
sidecar step ahead, the two files agree. -/
structure Orderly (P : ChangePool) (G : Nat -> Hold) : Prop where
  known : forall l, lastChanger d slot P.trace = some l -> l < P.tasks.length
  content : forall (l : Nat) (t : ChangeTask),
    lastChanger d slot P.trace = some l -> P.tasks[l]? = some t ->
    (staging d.root).view P.shared (slot.objectLoc d.root) =
      t.tag.body.map Entry.file
  agreed : (forall (l : Nat) (t : ChangeTask),
      lastChanger d slot P.trace = some l -> P.tasks[l]? = some t ->
      sidecarAhead d slot (sights t.past) = false) ->
    AgreedView d slot ((staging d.root).view P.shared)
  drawn : forall i u p, G i = Hold.drawn u -> (staging d.root).Place u p ->
    p.dropLast = (slot.sidecarLoc d.root).dropLast ->
    (staging d.root).view P.shared p ≠ some Entry.dir

variable {d slot}

theorem exists_of_awaited {P : ChangePool} (h : Awaited d slot P = true) :
    exists l u, lastChanger d slot P.trace = some l ∧ P.tasks[l]? = some u ∧
      sidecarAhead d slot (sights u.past) = true := by
  rcases (Option.any_eq_true _ _).mp h with ⟨u, hu, hahead⟩
  rcases Option.bind_eq_some_iff.mp hu with ⟨l, hl, hu⟩
  exact ⟨l, u, hl, hu, hahead⟩

theorem Orderly.keeps_drawn {P : ChangePool} {G : Nat -> Hold}
    (h : Orderly d slot P G) {i : Nat} {t : ChangeTask} {call : Call}
    {r : Call.Ret call} {fs' : FileTree} {g' : Hold}
    (hcan : (agreement d slot).Can t.tag (sights t.past) (G i) call)
    (hstep : (agreement d slot).Step ((staging d.root).view P.shared) (G i) call
      r ((staging d.root).view fs') g') (j : Nat) (u : Text) (p : Path)
    (hg : Function.update G i g' j = Hold.drawn u)
    (hplace : (staging d.root).Place u p)
    (hnext : p.dropLast = (slot.sidecarLoc d.root).dropLast) :
    (staging d.root).view fs' p ≠ some Entry.dir := by
  intro hdir
  have hbefore : (staging d.root).view P.shared p = some Entry.dir := by
    rcases hstep.made hcan hdir with hold | ⟨q, ⟨_, hq⟩, hpre⟩
    · exact hold
    · have hlast : (slot.sidecarLoc d.root).dropLast <+: q := by
        rw [← hnext]
        exact (List.dropLast_prefix _).trans hpre
      rcases slot.sidecarLoc_dropLast d.root with ⟨init, hinit⟩
      rcases hq with ⟨rfl, _⟩ | rfl
      · rw [hinit] at hlast
        exact absurd (Slot.ne_of_prefix_under
          (hlast.trans (List.dropLast_prefix _))).symm
          (slot.bucket_ne (by decide))
      · rw [← hnext] at hpre
        have hne : p ≠ [] := by
          intro heq
          subst heq
          rw [List.dropLast_nil] at hnext
          rw [← hnext] at hinit
          simp at hinit
        exact absurd hpre (Slot.not_prefix_dropLast hne)
  by_cases hj : j = i
  · rw [hj, Function.update_self] at hg
    rcases hstep.drawn hg with hold | ⟨_, hfree⟩
    · exact h.drawn i u p hold hplace hnext hbefore
    · rw [hfree p hplace] at hbefore
      cases hbefore
  · rw [Function.update_of_ne hj] at hg
    exact h.drawn j u p hg hplace hnext hbefore

/-- A call that leaves the object alone leaves the files in agreement, unless
their last changer has its sidecar step ahead. -/
theorem Orderly.agrees_after {P : ChangePool} {G : Nat -> Hold}
    (h : Orderly d slot P G) (hhoused : Housed d slot
      ((staging d.root).view P.shared)) {i : Nat} {t : ChangeTask} {call : Call}
    {k : Call.Ret call -> Io Unit} {r : Call.Ret call} {fs' : FileTree}
    {g' : Hold} (ht : P.tasks[i]? = some t)
    (hguard : Ordered d slot P i ⟨call, r⟩)
    (hcan : (agreement d slot).Can t.tag (sights t.past) (G i) call)
    (hstep : (agreement d slot).Step ((staging d.root).view P.shared) (G i) call
      r ((staging d.root).view fs') g')
    (hobject : (staging d.root).view fs' (slot.objectLoc d.root) =
      (staging d.root).view P.shared (slot.objectLoc d.root))
    (hsettled : forall (l : Nat) (u : ChangeTask),
      lastChanger d slot P.trace = some l ->
      (P.advance i t ⟨call, r⟩ (k r) fs').tasks[l]? = some u ->
      sidecarAhead d slot (sights u.past) = false) :
    AgreedView d slot ((staging d.root).view fs') := by
  have hothers : forall (l : Nat) (u : ChangeTask),
      lastChanger d slot P.trace = some l -> P.tasks[l]? = some u -> l ≠ i ->
      sidecarAhead d slot (sights u.past) = false := by
    intro l u hl hu hne
    apply hsettled l u hl
    rw [Pool.tasks_advance_ne _ _ _ _ hne]
    exact hu
  by_cases hplaced : Sight.placed (slot.sidecarLoc d.root) ∈ sight call r
  · rcases hstep.placed hcan hplaced with
      ⟨b, ⟨body, hbody, ⟨hloc, _⟩ | ⟨_, hdescribes⟩⟩, _, _, hv'⟩
    · exact absurd hloc.symm (slot.objectLoc_ne_sidecarLoc d.root slot)
    have hown : (staging d.root).view P.shared (slot.objectLoc d.root) =
        some (Entry.file body) := by
      rcases hguard hplaced with hmine | hawaited
      · rw [view_storedObject, hmine, ht]
        exact hbody
      · rcases exists_of_awaited hawaited with ⟨l, u, hl, hu, hahead⟩
        by_cases hli : l = i
        · rw [hli, ht] at hu
          cases hu
          rw [h.content l t hl (hli ▸ ht), hbody]
          rfl
        · rw [hothers l u hl hu hli] at hahead
          cases hahead
    intro raw hraw
    rw [hv', Function.update_self] at hraw
    cases hraw
    exact ⟨body, hobject.trans hown, hdescribes⟩
  by_cases hremoved : Sight.removed (slot.sidecarLoc d.root) ∈ sight call r
  · intro raw hraw
    rw [hstep.removed (slot.visible_sidecarLoc d.root) hremoved] at hraw
    cases hraw
  have hsidecar := sidecar_same hcan hstep hplaced hremoved
  by_cases hbefore : forall (l : Nat) (u : ChangeTask),
      lastChanger d slot P.trace = some l -> P.tasks[l]? = some u ->
      sidecarAhead d slot (sights u.past) = false
  · have hagreed := h.agreed hbefore
    intro raw hraw
    rw [hsidecar] at hraw
    rw [hobject]
    exact hagreed raw hraw
  · push Not at hbefore
    rcases hbefore with ⟨l, u, hl, hu, hahead⟩
    have hahead : sidecarAhead d slot (sights u.past) = true := by
      simpa using hahead
    by_cases hli : l = i
    · subst hli
      rw [ht] at hu
      cases hu
      have hlater := hsettled l _ hl (Pool.tasks_advance_self ht _ _ _)
      rw [show sights (t.past ++ [⟨call, r⟩]) = _ from sights_concat _ _ _,
        sidecarAhead_append, hahead] at hlater
      rcases settles_of_not_ahead hlater with ⟨x, hx, hsettles⟩
      intro raw hraw
      rw [hsidecar] at hraw
      cases x with
      | placed p =>
          rw [(decide_eq_true_eq.mp hsettles : p = _)] at hx
          exact absurd hx hplaced
      | removed p =>
          rw [(decide_eq_true_eq.mp hsettles : p = _)] at hx
          exact absurd hx hremoved
      | tested p there => cases hsettles
      | failed failing =>
          exact absurd hraw (no_sidecar_of_failed hcan hstep hhoused
            (touched_of_ahead hahead) (h.drawn l) hx hsettles raw)
    · rw [hothers l u hl hu hli] at hahead
      cases hahead

theorem Orderly.advance {P : ChangePool} {G : Nat -> Hold}
    (h : Orderly d slot P G) (hhoused : Housed d slot
      ((staging d.root).view P.shared)) {i : Nat} {t : ChangeTask} {call : Call}
    {k : Call.Ret call -> Io Unit} {r : Call.Ret call} {fs' : FileTree}
    {g' : Hold} (ht : P.tasks[i]? = some t)
    (hguard : Ordered d slot P i ⟨call, r⟩)
    (hcan : (agreement d slot).Can t.tag (sights t.past) (G i) call)
    (hstep : (agreement d slot).Step ((staging d.root).view P.shared) (G i) call
      r ((staging d.root).view fs') g') :
    Orderly d slot (P.advance i t ⟨call, r⟩ (k r) fs')
      (Function.update G i g') := by
  have htrace : lastChanger d slot (P.advance i t ⟨call, r⟩ (k r) fs').trace =
      if touched d slot (sight call r) then some i
      else lastChanger d slot P.trace := lastChanger_append _ _ _
  have hself := Pool.tasks_advance_self ht ⟨call, r⟩ (k r) fs'
  by_cases htouched : touched d slot (sight call r) = true
  · rw [if_pos htouched] at htrace
    have hahead : sidecarAhead d slot (sights (t.past ++ [⟨call, r⟩])) =
        true := by
      rcases List.any_eq_true.mp htouched with ⟨x, hx, hchange⟩
      rw [sights_concat, sidecarAhead_append, sight_single hx]
      exact if_pos hchange
    constructor
    · intro l hl
      rw [htrace] at hl
      cases hl
      exact (List.getElem?_eq_some_iff.mp hself).1
    · intro l u hl hu
      rw [htrace] at hl
      cases hl
      rw [hself] at hu
      cases hu
      exact object_changed hcan hstep htouched
    · intro hsettled
      have hfalse := hsettled i _ htrace hself
      rw [show sidecarAhead d slot (sights (t.past ++ [⟨call, r⟩])) = false
        from hfalse] at hahead
      cases hahead
    · exact h.keeps_drawn hcan hstep
  · rw [if_neg htouched] at htrace
    have hobject := object_same hcan hstep (by simpa using htouched)
    constructor
    · intro l hl
      rw [htrace] at hl
      have hknown := h.known l hl
      rwa [← P.length_advance i t ⟨call, r⟩ (k r) fs'] at hknown
    · intro l u hl hu
      rw [htrace] at hl
      show (staging d.root).view fs' (slot.objectLoc d.root) = _
      rw [hobject]
      rcases Pool.tasks_advance_get hu with ⟨rfl, rfl⟩ | ⟨_, hold⟩
      · exact h.content _ t hl ht
      · exact h.content l u hl hold
    · intro hsettled
      exact h.agrees_after hhoused ht hguard hcan hstep hobject
        (fun l u hl hu => hsettled l u (htrace.trans hl) hu)
    · exact h.keeps_drawn hcan hstep

/-- Once all changes have returned, the sidecar agrees with the object, and
`head` reports what is stored. -/
theorem sidecar_agrees {fs : FileTree} (hsound : fs.Sound)
    (hagreed : Agreed d slot fs) {P : ChangePool}
    (hreach : (changeGame d slot (Ordered d slot)).rules.Reach fs P)
    (hreturned : forall t, t ∈ P.tasks -> t.code.ending ≠ none) :
    Agreed d slot P.shared ∧
      forall b trace o fs', storedObject d slot P.shared = some b ->
        (system noFault).machine.Runs P.shared (d.head slot.bucket slot.key)
          trace o fs' ->
        Reports d b o := by
  have hinv : exists G, (agreement d slot).Custody (Housed d slot)
      (Settled d slot) P G ∧ Orderly d slot P G := by
    apply agreement_governed.invariant hsound (housed_of_sound hsound)
      ?_ ?_ ?_ ?_ hreach
    · exact
        { known := fun _ h => nomatch h
          content := fun _ _ h => nomatch h
          agreed := fun _ => agreedView_iff.mpr hagreed
          drawn := fun _ _ _ h => nomatch h }
    · intro P G c _ hI _
      have hold : forall (l : Nat), lastChanger d slot P.trace = some l ->
          (P.spawn c (c.run d slot)).tasks[l]? = P.tasks[l]? :=
        fun l hl => Pool.tasks_spawn_lt _ _ (hI.known l hl)
      constructor
      · intro l hl
        rw [Pool.length_spawn]
        exact Nat.lt_succ_of_lt (hI.known l hl)
      · intro l t hl ht
        exact hI.content l t hl ((hold l hl).symm.trans ht)
      · intro hsettled
        apply hI.agreed
        intro l t hl ht
        exact hsettled l t hl ((hold l hl).trans ht)
      · exact hI.drawn
    · intro P G i t call k r fs' g' hcustody hI ht _ hguard hcan hstep _
      exact hI.advance hcustody.good ht hguard hcan hstep
    · intro P G _ _ hstops
      exact absurd hstops id
  rcases hinv with ⟨G, hcustody, hI⟩
  have hfinal : Agreed d slot P.shared := by
    apply agreedView_iff.mp
    apply hI.agreed
    intro l t _ ht
    cases hend : t.code.ending with
    | none => exact absurd hend (hreturned t (List.mem_of_getElem? ht))
    | some o => exact hcustody.done ht hend
  refine ⟨hfinal, ?_⟩
  intro b trace o fs' hb hrun
  rcases head_runs solo_noFault hcustody.rep.sound hrun with ⟨_, _, hheads⟩
  apply hheads.reports ((view_storedObject d slot).mpr hb)
  intro raw hraw
  rcases hfinal raw ((view_storedSidecar d slot).mp hraw) with
    ⟨b', hb', hdescribes⟩
  rw [hb] at hb'
  cases hb'
  exact hdescribes

/-!
## Two runs
-/

def sampleChange (chunks : List Bytes) : Change :=
  Change.put (sampleSource chunks) (text "image/png") none

/-- Two overwrites: the first writes its sidecar while the second, which has
replaced the object, is still at work. -/
def overlappingPuts : ChangePool :=
  (changeGame sampleDriver pictureSlot
      (Ordered sampleDriver pictureSlot)).outcome sampleTree
    ([Event.spawn (sampleChange [[1, 2]]), Event.spawn (sampleChange [[3]])] ++
      callsOf 0 0 8 ++ callsOf 1 10 8 ++ callsOf 0 20 7 ++ callsOf 1 30 7)

def lateSidecar : ChangePool :=
  (changeGame sampleDriver pictureSlot fun _ _ _ => True).outcome
    sampleTree
    ([Event.spawn (sampleChange [[1, 2]]), Event.spawn (sampleChange [[3]])] ++
      callsOf 0 0 8 ++ callsOf 1 10 15 ++ callsOf 0 30 7)

theorem sidecar_agrees_overlappingPuts :
    Agreed sampleDriver pictureSlot overlappingPuts.shared ∧
      (storedSidecar sampleDriver pictureSlot
        overlappingPuts.shared).isSome = true := by
  constructor
  · have hagreed : Agreed sampleDriver pictureSlot sampleTree := by
      intro raw hraw
      rw [sampleTree_fresh.storedSidecar] at hraw
      cases hraw
    exact (sidecar_agrees sampleTree_fresh.sound hagreed
      ((changeGame _ _ _).outcome_reach sampleTree _)
      (by decide +kernel : forall t, t ∈ overlappingPuts.tasks ->
        t.code.ending ≠ none)).left
  · decide +kernel

/-- A sidecar written late describes bytes that are no longer there. -/
theorem lateSidecar_disagrees :
    (changeGame sampleDriver pictureSlot fun _ _ _ => True).rules.Reach
        sampleTree lateSidecar ∧
      (forall t, t ∈ lateSidecar.tasks -> t.code.ending ≠ none) ∧
      ¬ Agreed sampleDriver pictureSlot lateSidecar.shared := by
  refine ⟨(changeGame _ _ _).outcome_reach sampleTree _, by decide +kernel, ?_⟩
  intro hagreed
  let record := sampleDriver.sidecarRecord (text "image/png")
    (sampleDriver.platform.sha256.digest [1, 2]) 2 ∅ 0
  have hfiles : storedObject sampleDriver pictureSlot
        lateSidecar.shared = some [3] ∧
      storedSidecar sampleDriver pictureSlot lateSidecar.shared =
        some (recordBytes sampleDriver record) := by decide +kernel
  rcases hagreed _ hfiles.right with ⟨b, hb, other, hraw, hbytes, _⟩
  rw [hfiles.left] at hb
  cases hb
  have hjson := recordBytes_injective sampleDriver hraw
  have hsize : (2 : Int) = other.bytes := by
    have hfields := Json.obj.inj hjson
    simp only [List.cons.injEq, Prod.mk.injEq, Json.int.injEq] at hfields
    exact hfields.right.right.left.right
  rw [hbytes] at hsize
  cases hsize

end StorybookStorage
