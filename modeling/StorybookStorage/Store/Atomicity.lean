import StorybookStorage.Effects.Linear
import StorybookStorage.Service.Lifespan
import StorybookStorage.Store.Fresh
import StorybookStorage.Store.History

/-!
# Objects are atomic registers

Puts, gets, heads and deletes of any slots, sweeps, and processes that start,
interleaved call by call, on a device that may fail every call but the existence
test and the unlink: what comes of it is what a single register for each slot
comes to, on which every operation acts at one moment between its start and its
end.
-/

namespace StorybookStorage

open Python Posix Effects Contract

variable {settings : Settings} (d : LocalFsBlobDriver)

/-!
## The registers
-/

inductive ObjectAct (settings : Settings) where
  | store (slot : Slot settings) (b : Bytes)
  | discard (slot : Slot settings)
  | look (slot : Slot settings)

def ObjectAct.slot : ObjectAct settings -> Slot settings
  | store slot _ => slot
  | discard slot => slot
  | look slot => slot

/-- One register for each slot.  Every act answers what was there before. -/
def registers : SeqObject (Slot settings -> Option Bytes) (ObjectAct settings)
    (Option Bytes) where
  answer act m := m act.slot
  next act m :=
    match act with
    | ObjectAct.store slot b => Function.update m slot (some b)
    | ObjectAct.discard slot => Function.update m slot none
    | ObjectAct.look _ => m

/-- The call at which an operation acts on its object: a put renames, a delete
unlinks, a get finds nothing or opens. -/
def objectPoint : Operation settings -> Sigma calls.Ret ->
    Option (ObjectAct settings)
  | Operation.put slot data _ _ _, ⟨Call.rename _ dst, Except.ok _⟩ =>
      if resolve dst = slot.objectLoc d.root then
        some (ObjectAct.store slot data.body)
      else
        none
  | Operation.delete slot, ⟨Call.remove t, _⟩ =>
      if resolve t = slot.objectLoc d.root then some (ObjectAct.discard slot)
      else none
  | Operation.get slot _, ⟨Call.isfile t, false⟩ =>
      if resolve t = slot.objectLoc d.root then some (ObjectAct.look slot)
      else none
  | Operation.get slot _, ⟨Call.openRead t, Except.ok _⟩ =>
      if resolve t = slot.objectLoc d.root then some (ObjectAct.look slot)
      else none
  | _, _ => none

def errandPoint : Errand settings -> Sigma calls.Ret ->
    Option (ObjectAct settings)
  | Errand.request op, e => objectPoint d op e
  | _, _ => none

def pointTells : Sigma calls.Ret -> Option Bool
  | ⟨Call.remove _, r⟩ => some r.isOk
  | ⟨Call.isfile _, there⟩ => some there
  | ⟨Call.openRead _, r⟩ => some r.isOk
  | _ => none

def objectsOf (fs : FileTree) (slot : Slot settings) : Option Bytes :=
  storedObject d slot fs

/-!
## The rules
-/

/-- The calls whose answer decides what an operation answers. -/
def Decides : Call -> Bool
  | Call.remove _ => true
  | Call.isfile _ => true
  | _ => false

def sparingFault : Policy := fun _ c fault =>
  fault = none ∨ Decides c = false

instance (fs : FileTree) (c : Call) (f : Option Errno) :
    Decidable (sparingFault fs c f) := by
  unfold sparingFault
  infer_instance

@[reducible] def atomicGame :
    Game calls FileTree Choice (Errand settings) Exn Report where
  chooser := system sparingFault
  program := Errand.run d
  accepts _ := True
  guard _ _ _ := True
  stops := False

def atomicity : Contract (Errand settings) where
  toStaging := staging d.root
  May c := Decides c = false
  Sweeps := True
  Reads errand p :=
    match errand with
    | Errand.request (Operation.get slot _) => p = slot.objectLoc d.root
    | _ => True
  Writes errand :=
    match errand with
    | Errand.request (Operation.put _ _ _ _ _) => True
    | _ => False
  Stages _ _ _ := True
  Publishes errand _ p b :=
    match errand with
    | Errand.request (Operation.put slot data _ _ _) =>
        (p = slot.objectLoc d.root ∧ b = data.body) ∨ p = slot.sidecarLoc d.root
    | _ => False
  Removes errand _ p :=
    match errand with
    | Errand.request (Operation.delete slot) =>
        p = slot.objectLoc d.root ∨ p = slot.sidecarLoc d.root
    | Errand.request (Operation.cleanupStaleTmp _) => True
    | Errand.request _ => False
    | _ => True
  Makes _ _ _ := True

/-- How often a put has renamed its body into place. -/
def placements (slot : Slot settings) (seen : List Sight) : Nat :=
  seen.count (Sight.placed (slot.objectLoc d.root))

def placedBy (o : Except Exn PutResult) : Nat :=
  match o with
  | Except.ok r => if r.deduped then 0 else 1
  | Except.error _ => 0

def Concluded (op : Operation settings) (o : Except Exn Reply) (s : Focus) :
    Prop :=
  match op with
  | Operation.put slot _ _ _ _ =>
      exists o' : Except Exn PutResult, o = o'.map Reply.put ∧
        placements d slot s.seen = placedBy o'
  | Operation.get slot pulls =>
      exists o' : Except Exn (Option (Bytes × Bool)), o = o'.map Reply.get ∧
        forall got ended, o' = Except.ok (some (got, ended)) -> pulls ≠ 0 ->
          exists b, s.hold = Hold.closed (slot.objectLoc d.root) b got ∧
            got <+: b ∧ (ended = true -> got = b)
  | _ => True

def Requested (Q : Operation settings -> Except Exn Reply -> Prop)
    (errand : Errand settings) (o : Except Exn Report) : Prop :=
  match errand with
  | Errand.request op => exists o', o = o'.map Report.request ∧ Q op o'
  | _ => True

theorem placements_mute {ι : Type} {K : Contract ι} {slot : Slot settings}
    {more : List Sight} (h : Mute K more) : placements d slot more = 0 :=
  List.count_eq_zero_of_not_mem (placed_not_mute h _)

theorem placements_append {slot : Slot settings} (a b : List Sight) :
    placements d slot (a ++ b) = placements d slot a + placements d slot b :=
  List.count_append

theorem placements_tested {slot : Slot settings}
    {ifNoneMatch : Option Text} :
    placements d slot (testedSights slot d.root ifNoneMatch) = 0 := by
  unfold testedSights
  split <;> rfl

theorem request_concludes (op : Operation settings) (v : View) :
    ((atomicity d).machine (Errand.request op) (keeping fun _ => True)).wp
      (op.run d) (Concluded d op)
      { view := v, hold := Hold.idle, seen := [] } := by
  have hsteady := steady_keeping (fun _ => True)
  cases op with
  | put slot data contentType ifNoneMatch metadata =>
      apply wp_map
      apply wp_put d slot rfl hsteady trivial trivial rfl
      · exact
          { writes := trivial
            stages := fun _ _ => trivial
            makes := trivial
            publishes := fun _ => Or.inl ⟨rfl, rfl⟩
            sidecarStages := fun _ _ => trivial
            sidecarMakes := trivial
            sidecarPublishes := fun _ => Or.inr rfl }
      · intro o v1 v' g' more _ _ _ _ _ hmute _
        have hnone : placements d slot
            ([] ++ [Sight.tested (slot.objectLoc d.root) true] ++ more) = 0 := by
          rw [placements_append, placements_mute d hmute]
          rfl
        refine ⟨o.map LocalFsBlobDriver.dedupResult, rfl, hnone.trans ?_⟩
        cases o <;> rfl
      · intro e v1 v' u more _ _ _ _ hmute
        refine ⟨Except.error e, rfl, ?_⟩
        show placements d slot
          ([] ++ testedSights slot d.root ifNoneMatch ++ more) = 0
        rw [placements_append, placements_append, placements_mute d hmute,
          placements_tested]
        rfl
      · intro v1 v2 v' g' more _ _ _ _ hside _
        have hmore : placements d slot more = 0 := by
          rcases hside with ⟨rfl, _⟩ | ⟨hbroken, _⟩
          · apply List.count_eq_zero_of_not_mem
            intro hmem
            have heq := List.mem_singleton.mp hmem
            exact slot.objectLoc_ne_sidecarLoc d.root slot
              (Sight.placed.inj heq)
          · exact placements_mute d hbroken.left
        refine ⟨Except.ok (storedResult d data), rfl, ?_⟩
        show placements d slot ([] ++ testedSights slot d.root ifNoneMatch ++
          [Sight.placed (slot.objectLoc d.root)] ++ more) = 1
        have hplaced : placements d slot
            [Sight.placed (slot.objectLoc d.root)] = 1 := by
          simp [placements]
        rw [placements_append, placements_append, placements_append, hmore,
          placements_tested, hplaced]
        rfl
  | get slot pulls =>
      apply wp_map
      apply wp_fetch d slot rfl hsteady rfl rfl
      · intro v' _ _
        exact ⟨Except.ok none, rfl, fun _ _ h => nomatch h⟩
      · intro b v' _ hzero _
        refine ⟨Except.ok (some ([], false)), rfl, ?_⟩
        intro _ _ _ hpulls
        exact absurd hzero hpulls
      · intro b v1 v' got ended _ _ hpre hend _ _
        refine ⟨Except.ok (some (got, ended)), rfl, ?_⟩
        intro got' ended' hsame _
        cases hsame
        exact ⟨b, rfl, hpre, hend⟩
      · intro n b v1 v' g' more _ _ _ _ _ _
        exact ⟨Except.error (Exn.os n), rfl, fun _ _ h => nomatch h⟩
  | head slot =>
      apply wp_map
      apply wp_head d slot rfl hsteady trivial trivial rfl
      intros
      trivial
  | delete slot =>
      apply wp_map
      apply wp_delete d slot rfl rfl (Or.inl rfl) (fun _ => Or.inr rfl)
      intros
      trivial
  | cleanupStaleTmp olderThanSec =>
      apply wp_map
      apply wp_cleanupStaleTmp d rfl rfl trivial (fun _ _ => trivial)
      intros
      trivial

theorem atomicity_programs (errand : Errand settings) (v : View) :
    ((atomicity d).machine errand (keeping fun _ => True)).wp (errand.run d)
      (fun o s => Requested (fun op o' => Concluded d op o' s) errand o)
      { view := v, hold := Hold.idle, seen := [] } := by
  cases errand with
  | request op =>
      apply wp_map
      apply Machine.wp_mono (request_concludes d op v)
      intro o s hconcluded
      exact ⟨o, rfl, hconcluded⟩
  | startup texts storageDriver diskUsage =>
      apply wp_map
      apply wp_startup d rfl rfl trivial (fun _ _ => trivial) fun _ _ => trivial
      intros
      trivial
  | sweeper turns =>
      apply wp_map
      apply wp_tmpSweeper d rfl rfl trivial fun _ _ => trivial
      intros
      trivial

theorem atomicity_governed :
    Governed (atomicity d) (fun _ => True)
      (fun errand o s => Requested (fun op o' => Concluded d op o' s) errand o)
      sparingFault
      ((atomicGame d).rules :
        Rules calls FileTree (Errand settings) Exn Report) where
  machine := rfl
  admits _ _ _ h := h
  programs errand _ v _ := atomicity_programs d errand v
  keeps _ _ _ _ _ _ _ _ _ _ _ := trivial

/-!
## One call
-/

inductive PointOf (op : Operation settings) :
    Sigma calls.Ret -> ObjectAct settings -> Prop where
  | store (slot : Slot settings) (data : Data) (contentType : Text)
      (ifNoneMatch : Option Text) (metadata : Option Metadata)
      (src dst : Text) :
      op = Operation.put slot data contentType ifNoneMatch metadata ->
      resolve dst = slot.objectLoc d.root ->
      PointOf op ⟨Call.rename src dst, Except.ok ()⟩
        (ObjectAct.store slot data.body)
  | discard (slot : Slot settings) (t : Text) (r : Except Errno Unit) :
      op = Operation.delete slot ->
      resolve t = slot.objectLoc d.root ->
      PointOf op ⟨Call.remove t, r⟩ (ObjectAct.discard slot)
  | absent (slot : Slot settings) (pulls : Nat) (t : Text) :
      op = Operation.get slot pulls ->
      resolve t = slot.objectLoc d.root ->
      PointOf op ⟨Call.isfile t, false⟩ (ObjectAct.look slot)
  | opened (slot : Slot settings) (pulls : Nat) (t : Text) (fd : Nat) :
      op = Operation.get slot pulls ->
      resolve t = slot.objectLoc d.root ->
      PointOf op ⟨Call.openRead t, Except.ok fd⟩ (ObjectAct.look slot)

variable {d}

theorem objectPoint_cases {op : Operation settings} {e : Sigma calls.Ret}
    {x : ObjectAct settings} (h : objectPoint d op e = some x) :
    PointOf d op e x := by
  unfold objectPoint at h
  split at h
  · split at h
    · rename_i hdst
      cases h
      exact PointOf.store _ _ _ _ _ _ _ rfl hdst
    · cases h
  · split at h
    · rename_i ht
      cases h
      exact PointOf.discard _ _ _ rfl ht
    · cases h
  · split at h
    · rename_i ht
      cases h
      exact PointOf.absent _ _ _ rfl ht
    · cases h
  · split at h
    · rename_i ht
      cases h
      exact PointOf.opened _ _ _ _ rfl ht
    · cases h
  · cases h

inductive FileChange {ι : Type} (K : Contract ι) (tag : ι) (seen : List Sight) (v v' : View) :
    Sigma calls.Ret -> Prop where
  | placed (src dst : Text) (b : Bytes) :
      K.Publishes tag seen (resolve dst) b ->
      fileAt v' = Function.update (fileAt v) (resolve dst) (some b) ->
      FileChange K tag seen v v' ⟨Call.rename src dst, Except.ok ()⟩
  | removed (t : Text) :
      K.Removes tag seen (resolve t) ->
      fileAt v' = Function.update (fileAt v) (resolve t) none ->
      FileChange K tag seen v v' ⟨Call.remove t, Except.ok ()⟩
  | same (e : Sigma calls.Ret) :
      (forall src dst, e ≠ ⟨Call.rename src dst, Except.ok ()⟩) ->
      (forall t, ¬ K.Hidden (resolve t) ->
        e ≠ ⟨Call.remove t, Except.ok ()⟩) ->
      fileAt v' = fileAt v ->
      FileChange K tag seen v v' e

theorem step_change {ι : Type} {K : Contract ι} {tag : ι} {seen : List Sight} {v v' : View} {g g' : Hold}
    {c : Call} {r : Call.Ret c} (hcan : K.Can tag seen g c)
    (h : K.Step v g c r v' g') : FileChange K tag seen v v' ⟨c, r⟩ := by
  cases c with
  | makedirs t =>
      rcases h with ⟨_, hwidens, _⟩
      exact FileChange.same _ (fun _ _ he => nomatch he)
        (fun _ _ he => nomatch he) (fileAt_widens hwidens)
  | rename src dst =>
      rcases hcan with ⟨u, b, hg, _, hpublishes⟩
      rcases h with ⟨u', b', hg', _, _, hrest⟩
      rw [hg] at hg'
      cases hg'
      cases r with
      | error e =>
          exact FileChange.same _ (fun _ _ he => nomatch he)
            (fun _ _ he => nomatch he) (by rw [show v' = v from hrest])
      | ok _ =>
          rcases hrest with ⟨_, _, hv'⟩
          apply FileChange.placed src dst b hpublishes
          rw [hv', fileAt_update_file]
  | remove t =>
      rcases h with ⟨hhidden, hvisible⟩
      by_cases hh : K.Hidden (resolve t)
      · apply FileChange.same
        · intro src dst he
          cases he
        · intro t' hvisible' he
          cases he
          exact hvisible' hh
        · rw [(hhidden hh).left]
      · rcases hvisible hh with ⟨_, _, hrest⟩
        cases r with
        | error e =>
            refine FileChange.same _ (fun _ _ he => nomatch he) ?_
              (by rw [show v' = v from hrest])
            intro t' _ he
            cases he
        | ok _ =>
            apply FileChange.removed t (hcan.right.left hh)
            rw [hrest.right, fileAt_update_none]
  | _ =>
      exact FileChange.same _ (fun _ _ he => nomatch he)
        (fun _ _ he => nomatch he) (by rw [show v' = v from h.left])

def onSlots (d : LocalFsBlobDriver) (files : Path -> Option Bytes)
    (slot : Slot settings) : Option Bytes :=
  files (slot.objectLoc d.root)

theorem objectsOf_eq (fs : FileTree) :
    (objectsOf d fs : Slot settings -> Option Bytes) =
      onSlots d (fileAt ((staging d.root).view fs)) := by
  funext slot
  exact fileAt_object.symm

theorem onSlots_object (files : Path -> Option Bytes) (slot : Slot settings)
    (x : Option Bytes) :
    onSlots d (Function.update files (slot.objectLoc d.root) x) =
      Function.update (onSlots d files) slot x := by
  funext slot'
  unfold onSlots
  rcases eq_or_ne slot' slot with rfl | hne
  · rw [Function.update_self, Function.update_self]
  · rw [Function.update_of_ne hne,
      Function.update_of_ne fun h => hne (Slot.objectLoc_inj h)]

theorem onSlots_tmp (files : Path -> Option Bytes) (name : Text)
    (x : Option Bytes) :
    onSlots d (Function.update files (tmpLoc d.root name) x) =
      (onSlots d files : Slot settings -> Option Bytes) := by
  funext slot
  exact Function.update_of_ne (tmpLoc_ne_objectLoc name) _ _

theorem onSlots_sidecar (files : Path -> Option Bytes) (slot : Slot settings)
    (x : Option Bytes) :
    onSlots d (Function.update files (slot.sidecarLoc d.root) x) =
      (onSlots d files : Slot settings -> Option Bytes) := by
  funext slot'
  exact Function.update_of_ne (slot'.objectLoc_ne_sidecarLoc d.root slot) _ _

section Call

variable {errand : Errand settings} {seen : List Sight} {fs fs' : FileTree}
  {g g' : Hold} {c : Call} {r : Call.Ret c} {past : List (Sigma calls.Ret)}

theorem errandPoint_some {e : Sigma calls.Ret} {x : ObjectAct settings}
    (h : errandPoint d errand e = some x) :
    exists op, errand = Errand.request op ∧ objectPoint d op e = some x := by
  cases errand with
  | request op => exact ⟨op, rfl, h⟩
  | startup texts storageDriver diskUsage => cases h
  | sweeper turns => cases h

theorem point_tells
    (hstep : (atomicity d : Contract (Errand settings)).Step
      ((staging d.root).view fs) g c r ((staging d.root).view fs') g')
    {x : ObjectAct settings} (hpoint : errandPoint d errand ⟨c, r⟩ = some x)
    {there : Bool} (htells : pointTells ⟨c, r⟩ = some there) :
    (objectsOf d fs x.slot).isSome = there := by
  have hfile : forall slot : Slot settings, (objectsOf d fs slot).isSome = true <->
      exists b, (staging d.root).view fs (slot.objectLoc d.root) =
        some (Entry.file b) := by
    intro slot
    rw [objectsOf_eq, Option.isSome_iff_exists]
    exact exists_congr fun b => fileAt_eq_some
  have hvisible : forall slot : Slot settings,
      ¬ (staging d.root).Hidden (slot.objectLoc d.root) :=
    fun slot => slot.visible_objectLoc d.root
  rcases errandPoint_some hpoint with ⟨op, _, hop⟩
  generalize he : (⟨c, r⟩ : Sigma calls.Ret) = e at hop htells
  cases objectPoint_cases hop with
  | store slot data _ _ _ src dst _ _ => cases htells
  | discard slot t r' _ ht =>
      cases he
      have hrest := (hstep.right (ht ▸ hvisible slot)).right
      rw [ht] at hrest
      cases r' with
      | ok _ =>
          cases htells
          exact (hfile slot).mpr hrest.right.left
      | error e =>
          cases htells
          rcases hrest.left rfl with hmay | hno
          · cases hmay
          · apply Bool.eq_false_iff.mpr
            intro hthere
            rcases (hfile slot).mp hthere with ⟨b, hb⟩
            exact hno b hb
  | absent slot pulls t _ ht =>
      cases he
      cases htells
      have hanswers := hstep.right.right (ht ▸ hvisible slot)
      rw [ht] at hanswers
      rcases hanswers.right rfl with hno | hmay
      · apply Bool.eq_false_iff.mpr
        intro hthere
        exact hno ((hfile slot).mp hthere)
      · cases hmay
  | opened slot pulls t fd _ ht =>
      cases he
      cases htells
      rcases hstep.right.right with ⟨b, hb, _⟩
      rw [ht] at hb
      exact (hfile slot).mpr ⟨b, hb⟩

theorem registers_placed {src dst : Text} {b : Bytes}
    (hpublishes : (atomicity d).Publishes errand seen (resolve dst) b)
    (files : Path -> Option Bytes) :
    onSlots d (Function.update files (resolve dst) (some b)) =
      registers.move (errandPoint d errand
        ⟨Call.rename src dst, Except.ok ()⟩) (onSlots d files) := by
  cases errand with
  | request op =>
      cases op with
      | put slot data contentType ifNoneMatch metadata =>
          rcases hpublishes with ⟨hdst, rfl⟩ | hdst
          · have hpoint : errandPoint d (Errand.request (Operation.put slot data
                contentType ifNoneMatch metadata))
                ⟨Call.rename src dst, Except.ok ()⟩ =
                some (ObjectAct.store slot data.body) := if_pos hdst
            rw [hpoint, hdst, onSlots_object]
            rfl
          · have hpoint : errandPoint d (Errand.request (Operation.put slot data
                contentType ifNoneMatch metadata))
                ⟨Call.rename src dst, Except.ok ()⟩ = none := by
              apply if_neg
              intro hobject
              exact slot.objectLoc_ne_sidecarLoc d.root slot
                (hobject.symm.trans hdst)
            rw [hpoint, hdst, onSlots_sidecar]
            rfl
      | _ => exact absurd hpublishes id
  | startup texts storageDriver diskUsage => exact absurd hpublishes id
  | sweeper turns => exact absurd hpublishes id

/-- What is removed is the object or the sidecar of a delete, or lies among the
staging files. -/
theorem registers_removed {t : Text}
    (hremoves : (atomicity d).Removes errand seen (resolve t))
    (htidy : TidyCall d.root errand past (Call.remove t))
    (files : Path -> Option Bytes) :
    onSlots d (Function.update files (resolve t) none) =
      registers.move (errandPoint d errand
        ⟨Call.remove t, Except.ok ()⟩) (onSlots d files) := by
  have htmp : SweepsTmp d.root (Call.remove t) ->
      (onSlots d (Function.update files (resolve t) none) :
        Slot settings -> Option Bytes) = onSlots d files := by
    intro hswept
    rcases hswept with ⟨name, hname, ht⟩
    rw [ht, resolve_tmpEntry hname, onSlots_tmp]
  cases errand with
  | request op =>
      cases op with
      | delete slot =>
          rcases hremoves with ht | ht
          · have hpoint : errandPoint d (Errand.request (Operation.delete slot))
                ⟨Call.remove t, Except.ok ()⟩ =
                some (ObjectAct.discard slot) := if_pos ht
            rw [hpoint, ht, onSlots_object]
            rfl
          · have hpoint : errandPoint d (Errand.request (Operation.delete slot))
                ⟨Call.remove t, Except.ok ()⟩ = none := by
              apply if_neg
              intro hobject
              exact slot.objectLoc_ne_sidecarLoc d.root slot
                (hobject.symm.trans ht)
            rw [hpoint, ht, onSlots_sidecar]
            rfl
      | cleanupStaleTmp older => exact htmp htidy
      | _ => exact absurd hremoves id
  | startup texts storageDriver diskUsage => exact htmp htidy
  | sweeper turns => exact htmp htidy

/-- A call moves the objects as its point moves the registers. -/
theorem registers_step (hcan : (atomicity d).Can errand seen g c)
    (hstep : (atomicity d : Contract (Errand settings)).Step
      ((staging d.root).view fs) g c r ((staging d.root).view fs') g')
    (htidy : TidyCall d.root errand past c) :
    objectsOf d fs' =
      registers.move (errandPoint d errand ⟨c, r⟩) (objectsOf d fs) := by
  have htells : forall {x there}, errandPoint d errand ⟨c, r⟩ = some x ->
      pointTells ⟨c, r⟩ = some there ->
      (objectsOf d fs x.slot).isSome = there :=
    fun hpoint => point_tells hstep hpoint
  have hchange := step_change hcan hstep
  have htidied : TidyCall d.root errand past (⟨c, r⟩ : Sigma calls.Ret).1 := htidy
  rw [objectsOf_eq, objectsOf_eq]
  rw [objectsOf_eq] at htells
  generalize (⟨c, r⟩ : Sigma calls.Ret) = e at htells hchange htidied
  cases hchange with
  | placed src dst b hpublishes hfiles =>
      rw [hfiles]
      exact registers_placed hpublishes _
  | removed t hremoves hfiles =>
      rw [hfiles]
      exact registers_removed hremoves htidied _
  | same _ hunplaced hkept hfiles =>
      rw [hfiles]
      cases hpoint : errandPoint d errand e with
      | none => rfl
      | some x =>
          rcases errandPoint_some hpoint with ⟨op, _, hop⟩
          cases objectPoint_cases hop with
          | store slot data _ _ _ src dst _ _ => exact absurd rfl (hunplaced _ _)
          | discard slot t r' _ ht =>
              cases r' with
              | ok _ =>
                  apply absurd rfl (hkept t _)
                  rw [ht]
                  exact slot.visible_objectLoc d.root
              | error n =>
                  have hnone := htells hpoint rfl
                  apply (Function.update_eq_self_iff.mpr _).symm
                  exact (Option.not_isSome_iff_eq_none.mp
                    (Bool.eq_false_iff.mp hnone)).symm
          | absent slot pulls t _ _ => rfl
          | opened slot pulls t fd _ _ => rfl

/-- Only opening a file for reading gives a task a source. -/
theorem source_kept {ι : Type} {K : Contract ι} {v v' : View}
    (h : K.Step v g c r v' g') {x : Path × Bytes} (hg : g'.source = some x)
    (hopens : forall t fd, (⟨c, r⟩ : Sigma calls.Ret) ≠
      ⟨Call.openRead t, Except.ok fd⟩) : g.source = some x := by
  cases c with
  | uuid4 =>
      rw [h.right.left] at hg
      cases hg
  | openWrite t =>
      rcases h with ⟨_, u, _, _, hg'⟩
      rw [hg'] at hg
      cases r <;> cases hg
  | openRead t =>
      cases r with
      | error e =>
          rw [show g' = g from h.right.right] at hg
          exact hg
      | ok fd => exact absurd rfl (hopens t fd)
  | write fd chunk =>
      rcases h with ⟨_, u, q, sent, _, _, hg'⟩
      rw [hg'] at hg
      cases hg
  | close fd =>
      rw [h.right.left] at hg
      cases g with
      | writing u n q sent =>
          cases sent <;> cases hr : r.isOk <;> rw [hr] at hg <;> cases hg
      | _ => cases hr : r.isOk <;> rw [hr] at hg <;> exact hg
  | read fd limit =>
      rcases h with ⟨_, q, body, got, hold, _, hrest⟩
      cases r with
      | error e =>
          rw [show g' = g from hrest] at hg
          exact hg
      | ok chunk =>
          rw [hrest.right] at hg
          rw [hold]
          exact hg
  | rename src dst =>
      rcases h with ⟨u, b', _, hg', _⟩
      rw [hg'] at hg
      cases hg
  | remove t =>
      rcases h with ⟨hhidden, hvisible⟩
      by_cases hh : K.Hidden (resolve t)
      · rw [(hhidden hh).right] at hg
        cases g <;> exact hg
      · rw [(hvisible hh).left] at hg
        exact hg
  | makedirs t =>
      rw [h.left] at hg
      exact hg
  | time => rw [h.right] at hg; exact hg
  | getmtime t => rw [h.right] at hg; exact hg
  | listdir t => rw [h.right] at hg; exact hg
  | walk t => rw [h.right] at hg; exact hg
  | _ => rw [h.right.left] at hg; exact hg

end Call

/-!
## A run
-/

abbrev ErrandTask (settings : Settings) :=
  Task calls (Errand settings) Exn Report

abbrev ErrandPool (settings : Settings) :=
  Pool calls FileTree (Errand settings) Exn Report

def answersTo (d : LocalFsBlobDriver) (fs : FileTree) (P : ErrandPool settings)
    (i : Nat) : List (ObjectAct settings × Option Bytes) :=
  P.part registers (errandPoint d) (objectsOf d fs) i

def SaysSo (e : Sigma calls.Ret) (a : ObjectAct settings × Option Bytes) : Prop :=
  forall there, pointTells e = some there -> a.2.isSome = there

def pointsOf (d : LocalFsBlobDriver) (op : Operation settings)
    (past : List (Sigma calls.Ret)) : List (Sigma calls.Ret) :=
  past.filter fun e => (objectPoint d op e).isSome

structure Atomically (d : LocalFsBlobDriver) (fs : FileTree)
    (P : ErrandPool settings) (G : Nat -> Hold) : Prop where
  linear : P.Linear registers (errandPoint d) (objectsOf d) (objectsOf d fs)
  told : forall (i : Nat) (t : ErrandTask settings) op, P.tasks[i]? = some t ->
    t.tag = Errand.request op ->
    List.Forall₂ SaysSo (pointsOf d op t.past) (answersTo d fs P i)
  sources : forall (i : Nat) (t : ErrandTask settings) slot pulls b,
    P.tasks[i]? = some t -> t.tag = Errand.request (Operation.get slot pulls) ->
    (G i).source = some (slot.objectLoc d.root, b) ->
    (ObjectAct.look slot, some b) ∈ answersTo d fs P i

theorem proper_of_reach {fs : FileTree} (hproper : Proper fs)
    {P : ErrandPool settings} (hreach : (atomicGame d).rules.Reach fs P) :
    Proper P.shared := by
  refine Rules.Reach.invariant (I := fun P => Proper P.shared) hproper
    (fun _ _ _ h _ => h) ?_ (fun _ _ h _ => h) hreach
  intro P i t c k r fs' _ h _ _ _ hstep
  rcases hstep with ⟨ch, _, hexec⟩
  exact h.exec hexec

theorem tidy_of_reach {fs : FileTree} (hproper : Proper fs)
    {P : ErrandPool settings} (hreach : (atomicGame d).rules.Reach fs P) {i : Nat}
    {t : ErrandTask settings} {c : Call}
    {k : Call.Ret c -> Prog calls Exn Report} (ht : P.tasks[i]? = some t)
    (hc : t.code = Prog.call (S := calls) c k) : TidyCall d.root t.tag t.past c := by
  have hdiary := Rules.Reach.diary_reached
    (fun errand _ => errand_tidies errand)
    (fun P c r fs' hreach hstep =>
      listsNames_of_proper (proper_of_reach hproper hreach) hstep)
    hreach ht
  rw [hc] at hdiary
  exact hdiary.left

theorem atomically_of_reach {fs : FileTree} (hsound : fs.Sound)
    (hproper : Proper fs) {P : ErrandPool settings}
    (hreach : (atomicGame d).rules.Reach fs P) :
    exists G, (atomicity d).Custody (fun _ => True)
        (fun errand o s => Requested (fun op o' => Concluded d op o' s) errand o)
        P G ∧
      Atomically d fs P G := by
  apply (atomicity_governed d).invariant_reached hsound trivial ?_ ?_ ?_ ?_ hreach
  · exact
      { linear := Pool.linear_boot fs rfl
        told := fun _ _ _ ht => (Pool.tasks_boot_get ht).elim
        sources := fun _ _ _ _ _ ht => (Pool.tasks_boot_get ht).elim }
  · intro P G tag hcustody hI _
    exact
      { linear := hI.linear.spawn tag (tag.run d)
        told := by
          intro i t op ht htag
          unfold answersTo
          rw [Pool.part_spawn hI.linear.indexed]
          rcases Pool.tasks_spawn_get ht with hold | ⟨rfl, rfl⟩
          · exact hI.told i t op hold htag
          · rw [hI.linear.idle _ (le_refl _)]
            exact List.Forall₂.nil
        sources := by
          intro i t slot pulls b ht htag hsource
          unfold answersTo
          rw [Pool.part_spawn hI.linear.indexed]
          rcases Pool.tasks_spawn_get ht with hold | ⟨rfl, rfl⟩
          · exact hI.sources i t slot pulls b hold htag hsource
          · rw [hcustody.unused _ (le_refl _)] at hsource
            cases hsource }
  · intro P G i t c k r fs' g' hreach hcustody hI ht hc _ hcan hstep _
    have hpart := fun j => hI.linear.part_advance ht ⟨c, r⟩ (k r) fs' j
    exact
      { linear := hI.linear.advance ht
          (registers_step hcan hstep (tidy_of_reach hproper hreach ht hc))
        told := by
          intro j u op hu htag
          unfold answersTo
          rw [hpart]
          rcases Pool.tasks_advance_get hu with ⟨rfl, rfl⟩ | ⟨hne, hold⟩
          · rw [if_pos rfl]
            unfold pointsOf
            rw [List.filter_append]
            apply List.rel_append (hI.told _ t op ht htag)
            have hsame : errandPoint d t.tag ⟨c, r⟩ =
                objectPoint d op ⟨c, r⟩ := by
              rw [show t.tag = Errand.request op from htag]
              rfl
            cases hpoint : objectPoint d op ⟨c, r⟩ with
            | none =>
                rw [List.filter_cons_of_neg (by simp [hpoint]), hsame, hpoint]
                exact List.Forall₂.nil
            | some x =>
                rw [List.filter_cons_of_pos (by simp [hpoint]), hsame, hpoint]
                refine List.Forall₂.cons ?_ List.Forall₂.nil
                intro there htells
                exact point_tells hstep (hsame.trans hpoint) htells
          · rw [if_neg hne, List.append_nil]
            exact hI.told j u op hold htag
        sources := by
          intro j u slot pulls b hu htag hsource
          unfold answersTo
          rw [hpart]
          rcases Pool.tasks_advance_get hu with ⟨rfl, rfl⟩ | ⟨hne, hold⟩
          · rw [Function.update_self] at hsource
            rw [if_pos rfl]
            by_cases hopens : exists p fd, (⟨c, r⟩ : Sigma calls.Ret) =
                ⟨Call.openRead p, Except.ok fd⟩
            · rcases hopens with ⟨p, fd, he⟩
              cases he
              rcases hstep.right.right with ⟨b', hb', rfl⟩
              have hp := congrArg Prod.fst (Option.some.inj hsource)
              have hb := congrArg Prod.snd (Option.some.inj hsource)
              dsimp only at hp hb
              subst hb
              have hpoint : errandPoint d t.tag
                  ⟨Call.openRead p, Except.ok fd⟩ =
                    some (ObjectAct.look slot) := by
                rw [show t.tag = Errand.request (Operation.get slot pulls)
                  from htag]
                exact if_pos hp
              rw [hpoint]
              apply List.mem_append_right
              rw [hp] at hb'
              have hobject := (view_storedObject d slot).mp hb'
              show _ ∈ [(ObjectAct.look slot, objectsOf d P.shared slot)]
              unfold objectsOf
              rw [hobject]
              exact List.mem_singleton_self _
            · apply List.mem_append_left
              apply hI.sources _ t slot pulls b ht htag
              apply source_kept hstep hsource
              intro p fd he
              exact hopens ⟨p, fd, he⟩
          · rw [Function.update_of_ne hne] at hsource
            rw [if_neg hne, List.append_nil]
            exact hI.sources j u slot pulls b hold htag hsource }
  · intro P G _ _ hstops
    exact absurd hstops id

/-!
## The points of a finished operation
-/

abbrev anyDiary : Machine calls (List (Sigma calls.Ret)) :=
  diary (fun _ _ => True) fun _ _ => True

def Recalled (d : LocalFsBlobDriver) (op : Operation settings)
    (o : Except Exn Reply) (past : List (Sigma calls.Ret)) : Prop :=
  match op, o with
  | Operation.delete slot, o =>
      exists r : Except Errno Unit, o = Except.ok (Reply.delete r.isOk) ∧
        pointsOf d op past =
          [⟨Call.remove (slot.objectText d.root), r⟩]
  | Operation.get slot _, Except.ok (Reply.get none) =>
      pointsOf d op past = [⟨Call.isfile (slot.objectText d.root), false⟩]
  | Operation.get slot pulls, Except.ok (Reply.get (some got)) =>
      (pulls = 0 ∧ got = ([], false) ∧ pointsOf d op past = []) ∨
        (pulls ≠ 0 ∧ exists fd : Nat, pointsOf d op past =
          [⟨Call.openRead (slot.objectText d.root), Except.ok fd⟩])
  | _, _ => True

theorem pointsOf_concat {op : Operation settings}
    {past : List (Sigma calls.Ret)} {e : Sigma calls.Ret}
    (h : objectPoint d op e = none) :
    pointsOf d op (past ++ [e]) = pointsOf d op past := by
  unfold pointsOf
  rw [List.filter_append, List.filter_cons_of_neg (by simp [h]),
    List.filter_nil, List.append_nil]

section Past

variable {l : List (Sigma calls.Ret)} {op : Operation settings}
  {points : List (Sigma calls.Ret)}

theorem wp_pull_past {fh : Nat}
    {Q : Except Exn (Option Bytes × LocalFsBlobDriver.Stream) ->
      List (Sigma calls.Ret) -> Prop} (hl : pointsOf d op l = points)
    (h : forall o l', pointsOf d op l' = points ->
      (forall chunk path, o ≠ Except.ok
        (chunk, LocalFsBlobDriver.Stream.fresh path)) -> Q o l') :
    anyDiary.wp (LocalFsBlobDriver.Stream.pull fh) Q l := by
  have hread : forall r, objectPoint d op
      ⟨Call.read fh (some chunkSize), r⟩ = none := by
    intro r
    cases op <;> rfl
  have hclose : forall r, objectPoint d op ⟨Call.close fh, r⟩ = none := by
    intro r
    cases op <;> rfl
  have hend : forall (Q' : Except Exn Unit -> List (Sigma calls.Ret) -> Prop) l,
      pointsOf d op l = points ->
      (forall o l', pointsOf d op l' = points -> Q' o l') ->
      anyDiary.wp (Os.close fh) Q' l := by
    intro Q' l hl hQ
    apply wp_raising
    apply wp_diary trivial
    intro r _
    cases r <;> exact hQ _ _ ((pointsOf_concat (hclose _)).trans hl)
  unfold LocalFsBlobDriver.Stream.pull
  rw [Machine.wp_bind, Machine.wp_onError]
  apply wp_raising
  apply wp_diary trivial
  intro r _
  have hl1 := (pointsOf_concat (hread r)).trans hl
  cases r with
  | error e =>
      apply hend _ _ hl1
      intro o l' hl'
      cases o with
      | ok _ => exact h _ _ hl' (fun _ _ ho => nomatch ho)
      | error e' => exact h _ _ hl' (fun _ _ ho => nomatch ho)
  | ok chunk =>
      show anyDiary.wp (if chunk = [] then _ else _) _ _
      split
      · rw [Machine.wp_bind]
        apply hend _ _ hl1
        intro o l' hl'
        cases o with
        | ok _ => exact h _ _ hl' (fun _ _ ho => nomatch ho)
        | error e' => exact h _ _ hl' (fun _ _ ho => nomatch ho)
      · exact h _ _ hl1 (fun _ _ ho => nomatch ho)

theorem wp_consume_past {pulls : Nat} {stream : LocalFsBlobDriver.Stream}
    {got : Bytes} (hstream : forall path,
      stream ≠ LocalFsBlobDriver.Stream.fresh path)
    (hl : pointsOf d op l = points) :
    anyDiary.wp (stream.consume pulls got)
      (fun _ l' => pointsOf d op l' = points) l := by
  induction pulls generalizing stream got l with
  | zero =>
      cases stream with
      | fresh path => exact absurd rfl (hstream path)
      | finished => exact hl
      | reading fh =>
          show anyDiary.wp (Os.close fh >>= fun _ => _) _ _
          rw [Machine.wp_bind]
          apply wp_raising
          apply wp_diary trivial
          intro r _
          have hclose : objectPoint d op ⟨Call.close fh, r⟩ = none := by
            cases op <;> rfl
          cases r <;> exact (pointsOf_concat hclose).trans hl
  | succ pulls ih =>
      unfold LocalFsBlobDriver.Stream.consume
      rw [Machine.wp_bind]
      have hturn : forall (o : Except Exn
          (Option Bytes × LocalFsBlobDriver.Stream)) l',
          pointsOf d op l' = points ->
          (forall chunk path, o ≠ Except.ok
            (chunk, LocalFsBlobDriver.Stream.fresh path)) ->
          anyDiary.wp (Prog.ofExcept o >>= fun turn =>
            turn.1.elim (pure (got, true)) fun b =>
              turn.2.consume pulls (got ++ b))
            (fun _ l' => pointsOf d op l' = points) l' := by
        intro o l' hl' hturn
        cases o with
        | error e => exact hl'
        | ok turn =>
            rcases turn with ⟨chunk, stream'⟩
            cases chunk with
            | none => exact hl'
            | some b =>
                apply ih _ hl'
                intro path heq
                have hfresh : stream' =
                    LocalFsBlobDriver.Stream.fresh path := heq
                exact hturn (some b) path (by rw [hfresh])
      cases stream with
      | fresh path => exact absurd rfl (hstream path)
      | finished => exact hl
      | reading fh =>
          apply wp_pull_past hl
          intro o l' hl' ho
          have hgo := hturn o l' hl' ho
          cases o with
          | error e => exact hgo
          | ok turn =>
              rcases turn with ⟨chunk, stream'⟩
              cases chunk <;> exact hgo

theorem consume_fresh {path : Text} {pulls : Nat} {got : Bytes} :
    (LocalFsBlobDriver.Stream.fresh path).consume (pulls + 1) got =
      Os.openRead path >>= fun fd =>
        (LocalFsBlobDriver.Stream.reading fd).consume (pulls + 1) got := by
  unfold LocalFsBlobDriver.Stream.consume
  exact bind_assoc _ _ _

theorem wp_fetch_past {slot : Slot settings} {pulls : Nat} :
    anyDiary.wp (d.fetch slot.bucket slot.key pulls)
      (fun o past => Recalled d (Operation.get slot pulls)
        (o.map Reply.get) past) [] := by
  have hloc := slot.resolve_objectText d.root
  unfold LocalFsBlobDriver.fetch LocalFsBlobDriver.get
  rw [slot.objectPath_ok, Machine.wp_bind]
  show anyDiary.wp (Os.isfile _ >>= fun _ => _) _ _
  rw [Machine.wp_bind]
  apply wp_diary trivial
  intro there _
  cases there with
  | false =>
      show pointsOf d (Operation.get slot pulls) [_] = _
      unfold pointsOf objectPoint
      rw [List.filter_cons_of_pos (by simp [hloc])]
      rfl
  | true =>
      have hnone : objectPoint d (Operation.get slot pulls)
          ⟨Call.isfile (slot.objectText d.root), true⟩ = none := rfl
      show anyDiary.wp
        ((LocalFsBlobDriver.Stream.fresh (slot.objectText d.root)).consume
          pulls [] >>= fun r => pure (some r)) _ _
      rw [Machine.wp_bind]
      cases pulls with
      | zero =>
          refine Or.inl ⟨rfl, rfl, ?_⟩
          show pointsOf d _ ([] ++ [_]) = _
          exact pointsOf_concat hnone
      | succ pulls =>
          rw [consume_fresh, Machine.wp_bind]
          apply wp_raising
          apply wp_diary trivial
          intro r _
          cases r with
          | error e => trivial
          | ok fd =>
              have hopened : pointsOf d (Operation.get slot (pulls + 1))
                  ([⟨Call.isfile (slot.objectText d.root), true⟩] ++
                    [⟨Call.openRead (slot.objectText d.root), Except.ok fd⟩]) =
                  [⟨Call.openRead (slot.objectText d.root), Except.ok fd⟩] := by
                unfold pointsOf
                rw [List.filter_append,
                  List.filter_cons_of_neg (by simp [hnone]), List.filter_nil,
                  List.filter_cons_of_pos (by simp [objectPoint, hloc])]
                rfl
              have hreading : forall path,
                  LocalFsBlobDriver.Stream.reading fd ≠
                    LocalFsBlobDriver.Stream.fresh path := by
                intro path hp
                cases hp
              apply Machine.wp_mono (wp_consume_past hreading hopened)
              intro o l' hl'
              cases o with
              | error e => trivial
              | ok got => exact Or.inr ⟨Nat.succ_ne_zero _, fd, hl'⟩

theorem wp_safeUnlink_past {t : Text}
    {Q : Except Exn Bool -> List (Sigma calls.Ret) -> Prop}
    (h : forall r : Except Errno Unit,
      Q (Except.ok r.isOk) (l ++ [⟨Call.remove t, r⟩])) :
    anyDiary.wp (safeUnlink t) Q l := by
  unfold safeUnlink
  rw [Machine.wp_tryCatch, Machine.wp_bind]
  apply wp_raising
  apply wp_diary trivial
  intro r _
  have hr := h r
  cases r <;> exact hr

theorem wp_delete_past {slot : Slot settings} :
    anyDiary.wp (d.delete slot.bucket slot.key)
      (fun o past => Recalled d (Operation.delete slot)
        (o.map Reply.delete) past) [] := by
  have hobject := slot.resolve_objectText d.root
  have hsidecar := slot.resolve_sidecarText d.root
  unfold LocalFsBlobDriver.delete
  rw [slot.objectPath_ok, slot.metaPath_ok]
  show anyDiary.wp (safeUnlink _ >>= fun _ => _) _ _
  rw [Machine.wp_bind]
  apply wp_safeUnlink_past
  intro r
  show anyDiary.wp (safeUnlink _ >>= fun _ => _) _ _
  rw [Machine.wp_bind]
  apply wp_safeUnlink_past
  intro r'
  have hne : resolve (slot.sidecarText d.root) ≠ slot.objectLoc d.root := by
    rw [hsidecar]
    exact (slot.objectLoc_ne_sidecarLoc d.root slot).symm
  refine ⟨r, rfl, ?_⟩
  have hlast : objectPoint d (Operation.delete slot)
      ⟨Call.remove (slot.sidecarText d.root), r'⟩ = none := if_neg hne
  rw [pointsOf_concat hlast]
  unfold pointsOf
  rw [List.nil_append,
    List.filter_cons_of_pos (by simp [objectPoint, hobject])]
  rfl

theorem operation_past (op : Operation settings) :
    anyDiary.wp (op.run d) (Recalled d op) [] := by
  cases op with
  | get slot pulls => exact wp_map wp_fetch_past
  | delete slot => exact wp_map wp_delete_past
  | put slot data contentType ifNoneMatch metadata => exact wp_diary_any _ _
  | head slot => exact wp_diary_any _ _
  | cleanupStaleTmp older => exact wp_diary_any _ _

theorem errand_past (errand : Errand settings) :
    anyDiary.wp (errand.run d)
      (fun o past => Requested (fun op o' => Recalled d op o' past) errand o)
      [] := by
  cases errand with
  | request op =>
      apply wp_map
      apply Machine.wp_mono (operation_past op)
      intro o past hrecalled
      exact ⟨o, rfl, hrecalled⟩
  | startup texts storageDriver diskUsage => exact wp_diary_any _ _
  | sweeper turns => exact wp_diary_any _ _

end Past

theorem put_points {slot : Slot settings} {data : Data} {contentType : Text}
    {ifNoneMatch : Option Text} {metadata : Option Metadata}
    (past : List (Sigma calls.Ret)) :
    past.filterMap (objectPoint d
        (Operation.put slot data contentType ifNoneMatch metadata)) =
      List.replicate (placements d slot (sights past))
        (ObjectAct.store slot data.body) := by
  induction past with
  | nil => rfl
  | cons e rest ih =>
      have hsights : sights (e :: rest) = sight e.1 e.2 ++ sights rest := rfl
      rw [List.filterMap_cons, ih, hsights, placements_append]
      have hquiet : objectPoint d (Operation.put slot data contentType
            ifNoneMatch metadata) e = none ->
          placements d slot (sight e.1 e.2) = 0 := by
        intro hnone
        apply List.count_eq_zero_of_not_mem
        intro hmem
        rcases e with ⟨c, r⟩
        cases c with
        | rename src dst =>
            cases r with
            | error n => simp [sight] at hmem
            | ok _ =>
                have hdst : slot.objectLoc d.root = resolve dst := by
                  simpa [sight] using hmem
                have hpoint := hnone.symm.trans (if_pos hdst.symm)
                cases hpoint
        | _ => first | (simp [sight] at hmem; done) |
            (cases r <;> simp [sight] at hmem)
      cases hpoint : objectPoint d (Operation.put slot data contentType
          ifNoneMatch metadata) e with
      | none =>
          rw [hquiet hpoint, Nat.zero_add]
      | some x =>
          cases objectPoint_cases hpoint with
          | store slot' data' _ _ _ src dst hop hdst =>
              cases hop
              have hone : placements d slot
                  (sight (Call.rename src dst) (Except.ok ())) = 1 := by
                simp [placements, sight, hdst]
              rw [hone, Nat.add_comm, List.replicate_succ]
          | discard slot' t r hop _ => cases hop
          | absent slot' pulls t hop _ => cases hop
          | opened slot' pulls t fd hop _ => cases hop

theorem filterMap_pointsOf (op : Operation settings)
    (past : List (Sigma calls.Ret)) :
    past.filterMap (objectPoint d op) =
      (pointsOf d op past).filterMap (objectPoint d op) := by
  unfold pointsOf
  rw [List.filterMap_filter]
  congr 1
  funext e
  cases objectPoint d op e <;> rfl

/-!
## Linearizability
-/

inductive TookPlace : Operation settings -> Except Exn Reply ->
    List (ObjectAct settings × Option Bytes) -> Prop where
  | stored (slot : Slot settings) (data : Data) (contentType : Text)
      (ifNoneMatch : Option Text) (metadata : Option Metadata) (r : PutResult)
      (before : Option Bytes) :
      r.deduped = false ->
      TookPlace (Operation.put slot data contentType ifNoneMatch metadata)
        (Except.ok (Reply.put r)) [(ObjectAct.store slot data.body, before)]
  | met (slot : Slot settings) (data : Data) (contentType : Text)
      (ifNoneMatch : Option Text) (metadata : Option Metadata) (r : PutResult) :
      r.deduped = true ->
      TookPlace (Operation.put slot data contentType ifNoneMatch metadata)
        (Except.ok (Reply.put r)) []
  | raised (slot : Slot settings) (data : Data) (contentType : Text)
      (ifNoneMatch : Option Text) (metadata : Option Metadata) (e : Exn) :
      TookPlace (Operation.put slot data contentType ifNoneMatch metadata)
        (Except.error e) []
  | deleted (slot : Slot settings) (before : Option Bytes) :
      TookPlace (Operation.delete slot)
        (Except.ok (Reply.delete before.isSome))
        [(ObjectAct.discard slot, before)]
  | absent (slot : Slot settings) (pulls : Nat) :
      TookPlace (Operation.get slot pulls) (Except.ok (Reply.get none))
        [(ObjectAct.look slot, none)]
  | read (slot : Slot settings) (pulls : Nat) (b got : Bytes) (ended : Bool) :
      got <+: b -> (ended = true -> got = b) ->
      TookPlace (Operation.get slot pulls)
        (Except.ok (Reply.get (some (got, ended))))
        [(ObjectAct.look slot, some b)]
  | unread (slot : Slot settings) :
      TookPlace (Operation.get slot 0)
        (Except.ok (Reply.get (some ([], false)))) []
  | broken (slot : Slot settings) (pulls : Nat) (e : Exn)
      (answers : List (ObjectAct settings × Option Bytes)) :
      TookPlace (Operation.get slot pulls) (Except.error e) answers
  | head (slot : Slot settings) (o : Except Exn Reply) :
      TookPlace (Operation.head slot) o []
  | swept (olderThanSec : Rat) (o : Except Exn Reply) :
      TookPlace (Operation.cleanupStaleTmp olderThanSec) o []

theorem map_request_inj {o o' : Except Exn Reply}
    (h : o.map Report.request = o'.map Report.request) : o = o' := by
  cases o <;> cases o' <;> cases h <;> rfl

theorem answers_single {op : Operation settings}
    {past : List (Sigma calls.Ret)} {e : Sigma calls.Ret}
    {x : ObjectAct settings}
    {answers : List (ObjectAct settings × Option Bytes)}
    (hpoints : pointsOf d op past = [e]) (hx : objectPoint d op e = some x)
    (hacts : answers.map Prod.fst = past.filterMap (objectPoint d op))
    (htold : List.Forall₂ SaysSo (pointsOf d op past) answers) :
    exists before, answers = [(x, before)] ∧ SaysSo e (x, before) := by
  rw [filterMap_pointsOf, hpoints, List.filterMap_cons_some hx,
    List.filterMap_nil] at hacts
  rw [hpoints] at htold
  rcases List.map_eq_singleton_iff.mp hacts with ⟨a, rfl, rfl⟩
  cases htold with
  | cons hheard _ => exact ⟨a.2, rfl, hheard⟩

/-- A finished operation took place as the registers answered. -/
theorem Atomically.tookPlace {fs : FileTree} {P : ErrandPool settings}
    {G : Nat -> Hold} (h : Atomically d fs P G) {i : Nat}
    {t : ErrandTask settings} {op : Operation settings} {o : Except Exn Reply}
    (ht : P.tasks[i]? = some t) (htag : t.tag = Errand.request op)
    (hconcluded : Concluded d op o
      ⟨(staging d.root).view P.shared, G i, sights t.past⟩)
    (hrecalled : Recalled d op o t.past) :
    TookPlace op o (answersTo d fs P i) := by
  have hacts := h.linear.points i t ht
  have htold := h.told i t op ht htag
  have hsources := h.sources i t
  rw [htag] at hacts
  change (answersTo d fs P i).map Prod.fst =
    t.past.filterMap (objectPoint d op) at hacts
  generalize answersTo d fs P i = answers at hacts htold hsources
  cases op with
  | put slot data contentType ifNoneMatch metadata =>
      rw [put_points] at hacts
      rcases hconcluded with ⟨o', rfl, hplaced⟩
      change placements d slot (sights t.past) = _ at hplaced
      rw [hplaced] at hacts
      have hnone : placedBy o' = 0 -> answers = [] := by
        intro hzero
        rw [hzero] at hacts
        exact List.map_eq_nil_iff.mp hacts
      cases o' with
      | error e =>
          rw [hnone rfl]
          exact TookPlace.raised _ _ _ _ _ _
      | ok r =>
          cases hdeduped : r.deduped with
          | true =>
              rw [hnone (if_pos hdeduped)]
              exact TookPlace.met _ _ _ _ _ _ hdeduped
          | false =>
              have hone : placedBy (Except.ok r) = 1 :=
                if_neg (by rw [hdeduped]; decide)
              rw [hone] at hacts
              rcases List.map_eq_singleton_iff.mp hacts with
                ⟨⟨act, before⟩, rfl, hact⟩
              rw [show act = _ from hact]
              exact TookPlace.stored _ _ _ _ _ _ _ hdeduped
  | delete slot =>
      rcases hrecalled with ⟨r, rfl, hpoints⟩
      rcases answers_single hpoints
          (if_pos (slot.resolve_objectText d.root)) hacts htold with
        ⟨before, rfl, hheard⟩
      rw [← hheard r.isOk rfl]
      exact TookPlace.deleted slot before
  | get slot pulls =>
      rcases hconcluded with ⟨o', rfl, hheld⟩
      have hloc := slot.resolve_objectText d.root
      cases o' with
      | error e => exact TookPlace.broken _ _ _ _
      | ok found =>
          cases found with
          | none =>
              rcases answers_single hrecalled (if_pos hloc) hacts htold with
                ⟨before, rfl, hheard⟩
              have hnone := Option.not_isSome_iff_eq_none.mp
                (Bool.eq_false_iff.mp (hheard false rfl))
              rw [show before = none from hnone]
              exact TookPlace.absent slot pulls
          | some answer =>
              rcases answer with ⟨got, ended⟩
              rcases hrecalled with ⟨rfl, hgot, hpoints⟩ |
                ⟨hpulls, fd, hpoints⟩
              · cases hgot
                rw [filterMap_pointsOf, hpoints] at hacts
                rw [List.map_eq_nil_iff.mp hacts]
                exact TookPlace.unread slot
              · rcases answers_single hpoints (if_pos hloc) hacts htold with
                  ⟨before, rfl, _⟩
                rcases hheld got ended rfl hpulls with ⟨b, hhold, hpre, hend⟩
                change G i = _ at hhold
                have hmem := hsources slot pulls b ht htag (by rw [hhold]; rfl)
                have hbefore := congrArg Prod.snd (List.mem_singleton.mp hmem)
                rw [← show some b = before from hbefore]
                exact TookPlace.read slot pulls b got ended hpre hend
  | head slot =>
      have hnone : t.past.filterMap (objectPoint d (Operation.head slot)) =
          [] := List.filterMap_eq_nil_iff.mpr fun _ _ => rfl
      rw [hnone] at hacts
      rw [List.map_eq_nil_iff.mp hacts]
      exact TookPlace.head slot o
  | cleanupStaleTmp older =>
      have hnone : t.past.filterMap (objectPoint d
          (Operation.cleanupStaleTmp older : Operation settings)) = [] :=
        List.filterMap_eq_nil_iff.mpr fun _ _ => rfl
      rw [hnone] at hacts
      rw [List.map_eq_nil_iff.mp hacts]
      exact TookPlace.swept older o

/-- A put, a get that meets its object and a get while a delete removes it, and
a process that starts in between. -/
def readWhileDeleted : ErrandPool sampleSettings :=
  (atomicGame sampleDriver).outcome sampleTree
    ([Event.spawn (Errand.request (Operation.put pictureSlot
        (sampleSource [[1, 2], [3]]) (text "image/png") none none))] ++
      callsOf 0 0 16 ++
      [Event.spawn (Errand.request (Operation.get pictureSlot 5))] ++
      callsOf 1 20 2 ++
      [Event.spawn (Errand.startup sampleReprs (text "local-fs") (Except.ok 1))] ++
      callsOf 2 25 7 ++
      [Event.spawn (Errand.request (Operation.delete pictureSlot))] ++
      callsOf 3 40 2 ++ callsOf 1 45 3 ++
      [Event.spawn (Errand.request (Operation.get pictureSlot 5))] ++
      callsOf 4 50 1)

def bodyOf : Except Exn Reply -> Option Bytes
  | Except.ok (Reply.get (some (got, true))) => some got
  | _ => none

def endedRequest {settings : Settings} (t : ErrandTask settings) :
    Option (Operation settings × Except Exn Reply) :=
  match t.tag, t.code.ending with
  | Errand.request op, some (Except.ok (Report.request reply)) =>
      some (op, Except.ok reply)
  | Errand.request op, some (Except.error e) => some (op, Except.error e)
  | _, _ => none

theorem endedRequest_some {settings : Settings} {t : ErrandTask settings}
    {op : Operation settings} {o : Except Exn Reply}
    (h : endedRequest t = some (op, o)) :
    t.tag = Errand.request op ∧
      t.code.ending = some (o.map Report.request) := by
  unfold endedRequest at h
  split at h
  · rename_i htag hending
    cases h
    exact ⟨htag, hending⟩
  · rename_i htag hending
    cases h
    exact ⟨htag, hending⟩
  · cases h

end StorybookStorage
