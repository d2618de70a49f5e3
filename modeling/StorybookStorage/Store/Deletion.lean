import StorybookStorage.Store.History

/-!
# Deleting a slot

`delete` is two unlinks whose errors count as nothing removed.  It is all or
nothing as long as the device does not fail the first of them on an object that
is there: then the object stays, its sidecar may go, and the answer is the one
for a key that was not found.
-/

namespace StorybookStorage

open Python Posix Effects Contract

variable {settings : Settings} (d : LocalFsBlobDriver) (slot : Slot settings)

def ObjectInfo.shown (info : ObjectInfo) : Json × Int × Json × Json :=
  (info.etag, info.bytes, info.contentType, info.metadata)

def SameHead (fs fs' : FileTree) : Prop :=
  forall trace1 o1 fs1 trace2 o2 fs2,
    (system noFault).machine.Runs fs (d.head slot.bucket slot.key) trace1 o1 fs1 ->
    (system noFault).machine.Runs fs' (d.head slot.bucket slot.key) trace2 o2 fs2 ->
    o1.map (Option.map ObjectInfo.shown) = o2.map (Option.map ObjectInfo.shown)

structure AllOrNothing (fs fs' : FileTree) (o : Except Exn Bool) : Prop where
  whole : storedObject d slot fs' = none ∨
    (exists b, storedObject d slot fs = some b ∧
      storedObject d slot fs' = some b) ∧ SameHead d slot fs fs'
  notFound : o = Except.ok false -> storedObject d slot fs' = none

def UnlinkFailed (fs : FileTree) (trace : List (Sigma calls.Ret)) : Prop :=
  storedObject d slot fs ≠ none ∧
    exists e : Errno,
      ⟨Call.remove (slot.objectText d.root), Except.error e⟩ ∈ trace

variable {d slot} {allow : Policy} {fs fs' : FileTree}
  {trace : List (Sigma calls.Ret)} {o : Except Exn Bool}

theorem delete_calls {M : Machine calls FileTree}
    (hrun : M.Runs fs (d.delete slot.bucket slot.key) trace o fs') :
    exists r r' : Except Errno Unit,
      trace = [⟨Call.remove (slot.objectText d.root), r⟩,
        ⟨Call.remove (slot.sidecarText d.root), r'⟩] ∧
        o = Except.ok r.isOk := by
  unfold LocalFsBlobDriver.delete at hrun
  rw [slot.objectPath_ok, slot.metaPath_ok] at hrun
  change M.Runs fs (safeUnlink (slot.objectText d.root) >>= fun existed =>
    safeUnlink (slot.sidecarText d.root) >>= fun _ => pure existed)
    trace o fs' at hrun
  rcases Machine.runs_handle hrun with
    ⟨o1, fs1, trace1, trace2, hobject, hrest, rfl⟩
  rcases safeUnlink_runs hobject with ⟨r, _, rfl, rfl⟩
  rcases Machine.runs_handle hrest with
    ⟨o2, fs2, trace3, trace4, hsidecar, hend, rfl⟩
  rcases safeUnlink_runs hsidecar with ⟨r', _, rfl, rfl⟩
  cases hend
  exact ⟨r, r', rfl, rfl⟩

theorem isOk_eq_false {α β : Type} {r : Except α β} (h : r.isOk = false) :
    exists e, r = Except.error e := by
  cases r with
  | ok b => cases h
  | error e => exact ⟨e, rfl⟩

theorem unlinkFailed_iff {M : Machine calls FileTree}
    (hrun : M.Runs fs (d.delete slot.bucket slot.key) trace o fs') :
    UnlinkFailed d slot fs trace <->
      storedObject d slot fs ≠ none ∧ o = Except.ok false := by
  rcases delete_calls hrun with ⟨r, r', rfl, rfl⟩
  have htexts : slot.objectText d.root ≠ slot.sidecarText d.root := by
    intro heq
    have hloc := congrArg resolve heq
    rw [slot.resolve_objectText, slot.resolve_sidecarText] at hloc
    exact slot.objectLoc_ne_sidecarLoc d.root slot hloc
  apply and_congr_right
  intro _
  constructor
  · intro h
    rcases h with ⟨e, he⟩
    rcases List.mem_cons.mp he with hfirst | hsecond
    · cases hfirst
      rfl
    · have hcall := congrArg Sigma.fst (List.mem_singleton.mp hsecond)
      exact absurd (Call.remove.inj hcall) htexts
  · intro h
    rcases isOk_eq_false (Except.ok.inj h) with ⟨e, rfl⟩
    exact ⟨e, List.mem_cons_self⟩

/-- A delete keeps its promise, whichever calls fail before and during it, up
to a failing unlink of an object that is there. -/
theorem delete_allOrNothing_iff (slot : Slot settings) {fs0 : FileTree}
    {turns : List (MutationTurn settings)} (hsound : fs0.Sound)
    (hturns : Histories d anyFault (fun _ _ => True) fs0 turns fs)
    (hrun : (system anyFault).machine.Runs fs (d.delete slot.bucket slot.key)
      trace o fs') :
    AllOrNothing d slot fs fs' o <-> ¬ UnlinkFailed d slot fs trace := by
  have hsound' : fs.Sound :=
    History.invariant (I := fun _ s => s.Sound) hsound
      (fun _ _ _ _ _ _ hs hturn _ =>
        (Mutation.run_changed solo_anyFault hs hturn).left) hturns
  rw [unlinkFailed_iff hrun]
  rcases delete_runs solo_anyFault hsound' hrun with
    ⟨_, existed, cleaned, v1, rfl, hobject, hsidecar⟩
  rcases hobject.files with ⟨hfiles1, _, _⟩
  rcases hsidecar.files with ⟨hfiles', _, _⟩
  have hafter : storedObject d slot fs' =
      unlinkedIf existed (fileAt ((staging d.root).view fs))
        (slot.objectLoc d.root) (slot.objectLoc d.root) := by
    rw [← fileAt_object, hfiles',
      unlinkedIf_of_ne (slot.objectLoc_ne_sidecarLoc d.root slot), hfiles1]
  cases existed with
  | true =>
      rw [unlinkedIf_true] at hafter
      constructor
      · intro _ hfailed
        cases hfailed.right
      · intro _
        exact ⟨Or.inl hafter, fun _ => hafter⟩
  | false =>
      have hsame : storedObject d slot fs' = storedObject d slot fs := by
        rw [hafter]
        exact fileAt_object
      constructor
      · intro h hfailed
        exact hfailed.left (hsame ▸ h.notFound rfl)
      · intro h
        have hnone : storedObject d slot fs' = none := by
          rw [hsame]
          by_contra hthere
          exact h ⟨hthere, rfl⟩
        exact ⟨Or.inl hnone, fun _ => hnone⟩

/-!
## A failing unlink
-/

def pictureStored : List (MutationTurn sampleSettings) × FileTree :=
  (system anyFault).replayFrom sampleChoice (Mutation.run sampleDriver)
    (fun _ _ => True) sampleTree [samplePut pictureSlot [[1, 2]]]

theorem pictureStored_history :
    Histories sampleDriver anyFault (fun _ _ => True) sampleTree
      pictureStored.1 pictureStored.2 :=
  (system anyFault).replayFrom_history _ _ _ _ _

def sampleDelete (failing : Nat) :
    Option (List (Sigma calls.Ret) × Except Exn Bool × FileTree) :=
  (system anyFault).replay (sampleFault failing)
    (sampleDriver.delete pictureSlot.bucket pictureSlot.key) 0 pictureStored.2

theorem sampleDelete_runs {failing : Nat} {fs : FileTree}
    (h : sampleDelete failing = some (trace, o, fs)) :
    (system anyFault).machine.Runs pictureStored.2
      (sampleDriver.delete pictureSlot.bucket pictureSlot.key) trace o fs :=
  (system anyFault).replay_runs _ h

def deletion (run : List (Sigma calls.Ret) × Except Exn Bool × FileTree) :
    Option Bool × Bool :=
  (run.2.1.toOption, (storedObject sampleDriver pictureSlot run.2.2).isNone)

/-- The sidecar's unlink may fail. -/
theorem delete_allOrNothing_iff_sidecar :
    exists trace o fs, sampleDelete 1 = some (trace, o, fs) ∧
      AllOrNothing sampleDriver pictureSlot pictureStored.2 fs o := by
  have hends : (sampleDelete 1).map deletion = some (some true, true) := by
    decide +kernel
  rcases Option.map_eq_some_iff.mp hends with ⟨⟨trace, o, fs⟩, hrun, heq⟩
  refine ⟨trace, o, fs, hrun, ?_⟩
  have hdelete := sampleDelete_runs hrun
  apply (delete_allOrNothing_iff pictureSlot sampleTree_fresh.sound
    pictureStored_history hdelete).mpr
  rw [unlinkFailed_iff hdelete]
  intro hfailed
  rw [hfailed.right] at heq
  cases heq

/-- The unlink of the object fails: the answer is the one for a missing key,
and the object is there. -/
theorem delete_misreports :
    Histories sampleDriver anyFault (fun _ _ => True) sampleTree
        pictureStored.1 pictureStored.2 ∧
      exists trace o fs,
        (system anyFault).machine.Runs pictureStored.2
          (sampleDriver.delete pictureSlot.bucket pictureSlot.key)
          trace o fs ∧
        ¬ AllOrNothing sampleDriver pictureSlot pictureStored.2 fs o := by
  refine ⟨pictureStored_history, ?_⟩
  have hends : (sampleDelete 0).map deletion = some (some false, false) := by
    decide +kernel
  rcases Option.map_eq_some_iff.mp hends with ⟨⟨trace, o, fs⟩, hrun, heq⟩
  refine ⟨trace, o, fs, sampleDelete_runs hrun, ?_⟩
  intro h
  cases o with
  | error e => cases heq
  | ok existed =>
      cases existed with
      | true => cases heq
      | false =>
          have hthere := congrArg Prod.snd heq
          unfold deletion at hthere
          rw [h.notFound rfl] at hthere
          cases hthere

end StorybookStorage
