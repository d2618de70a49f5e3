import StorybookStorage.Store.History

/-!
# Sidecars left behind

Sidecar writes and sidecar unlinks are best effort.  One call after the other,
`head` describes the stored bytes as long as no put stores its body, fails to
replace the sidecar, and leaves the sidecar of other bytes beside it.
-/

namespace StorybookStorage

open Python Posix Effects Contract

variable {settings : Settings} (d : LocalFsBlobDriver)

def SidecarFailed (slot : Slot settings) (seen : List Sight) : Prop :=
  Sight.placed (slot.objectLoc d.root) ∈ seen ∧
    Sight.placed (slot.sidecarLoc d.root) ∉ seen

/-- A put whose sidecar fails meets no sidecar of other bytes. -/
def Unstale (fs : FileTree) (turn : MutationTurn settings) : Prop :=
  match turn.tag with
  | Mutation.put slot data _ _ _ =>
      SidecarFailed d slot (sights turn.trace) ->
        forall raw, storedSidecar d slot fs = some raw ->
          Describes d raw data.body
  | Mutation.delete _ => True

def Truthful (settings : Settings) (fs : FileTree) : Prop :=
  forall (slot : Slot settings) raw b, storedSidecar d slot fs = some raw ->
    storedObject d slot fs = some b -> Describes d raw b

/-- The calls on sidecars whose failure the driver swallows. -/
def Swallowed (root : Text) : Call -> Prop
  | Call.makedirs p => resolve root ++ [metaDir] <+: resolve p
  | Call.openWrite p => resolve root ++ [metaDir] <+: resolve p
  | Call.rename _ dst => resolve root ++ [metaDir] <+: resolve dst
  | Call.remove p => resolve root ++ [metaDir] <+: resolve p
  | _ => False

def sidecarFaults (root : Text) : Policy :=
  fun _ c fault => fault = none ∨ Swallowed root c

instance (root : Text) (c : Call) : Decidable (Swallowed root c) := by
  unfold Swallowed
  split <;> infer_instance

instance (root : Text) (fs : FileTree) (c : Call) (f : Option Errno) :
    Decidable (sidecarFaults root fs c f) := by
  unfold sidecarFaults
  infer_instance

variable {d}

theorem Fresh.truthful {fs : FileTree} (h : Fresh d.root fs) :
    Truthful d settings fs := by
  intro slot raw b hraw
  rw [h.storedSidecar] at hraw
  cases hraw

/-!
## One turn
-/

def TruthfulFiles (d : LocalFsBlobDriver) (settings : Settings)
    (files : Path -> Option Bytes) : Prop :=
  forall (slot : Slot settings) raw b,
    files (slot.sidecarLoc d.root) = some raw ->
    files (slot.objectLoc d.root) = some b -> Describes d raw b

theorem truthfulFiles_iff {fs : FileTree} :
    TruthfulFiles d settings (fileAt ((staging d.root).view fs)) <->
      Truthful d settings fs := by
  unfold TruthfulFiles Truthful
  simp only [fileAt_object, fileAt_sidecar]

theorem truthful_stored {faults : Prop} {slot : Slot settings} {b : Bytes}
    {v v' : View} {seen : List Sight} (h : Stored d faults slot b v v' seen)
    (htrue : TruthfulFiles d settings (fileAt v))
    (hunstale : SidecarFailed d slot seen ->
      forall raw, fileAt v (slot.sidecarLoc d.root) = some raw ->
        Describes d raw b) :
    TruthfulFiles d settings (fileAt v') := by
  intro slot' raw b' hraw hb'
  rcases eq_or_ne slot' slot with rfl | hne
  · have hacross := (slot'.objectLoc_ne_sidecarLoc d.root slot').symm
    cases h with
    | recorded written hdescribes hfiles =>
        rw [hfiles, Function.update_self] at hraw
        rw [hfiles, Function.update_of_ne hacross.symm,
          Function.update_self] at hb'
        cases hraw
        cases hb'
        exact hdescribes
    | unrecorded hplaced hnot _ hfiles =>
        rw [hfiles, Function.update_of_ne hacross] at hraw
        rw [hfiles, Function.update_self] at hb'
        cases hb'
        exact hunstale ⟨hplaced, hnot⟩ raw hraw
  · rcases h.others hne with ⟨hobject, hsidecar⟩
    rw [hsidecar] at hraw
    rw [hobject] at hb'
    exact htrue slot' raw b' hraw hb'

theorem truthful_turn {faults : Prop} {v v' : View} {seen : List Sight}
    {m : Mutation settings} {o : Except Exn Reply}
    (h : Changed d faults v v' seen m o)
    (htrue : TruthfulFiles d settings (fileAt v))
    (hunstale : forall slot data contentType ifNoneMatch metadata,
      m = Mutation.put slot data contentType ifNoneMatch metadata ->
      SidecarFailed d slot seen ->
      forall raw, fileAt v (slot.sidecarLoc d.root) = some raw ->
        Describes d raw data.body) :
    TruthfulFiles d settings (fileAt v') := by
  cases h with
  | unstored slot data contentType ifNoneMatch metadata o _ hfiles =>
      rw [hfiles]
      exact htrue
  | stored slot data contentType ifNoneMatch metadata hstored =>
      exact truthful_stored hstored htrue (hunstale _ _ _ _ _ rfl)
  | deleted slot existed cleaned hfiles _ _ _ =>
      -- Unlinking only takes files away.
      rw [hfiles]
      intro slot' raw b hraw hb
      exact htrue slot' raw b (unlinkedIf_subset (unlinkedIf_subset hraw))
        (unlinkedIf_subset (unlinkedIf_subset hb))

theorem truthful_history {fs fs' : FileTree}
    {turns : List (MutationTurn settings)} (hsound : fs.Sound)
    (htrue : Truthful d settings fs)
    (h : Histories d anyFault (Unstale d) fs turns fs') :
    fs'.Sound ∧ Truthful d settings fs' := by
  refine History.invariant (I := fun _ s => s.Sound ∧ Truthful d settings s)
    ⟨hsound, htrue⟩ ?_ h
  intro _ s1 tag trace o s2 hbefore hrun hmeets
  rcases hbefore with ⟨hsound1, htrue1⟩
  rcases Mutation.run_changed solo_anyFault hsound1 hrun with
    ⟨hsound2, hchanged⟩
  refine ⟨hsound2, truthfulFiles_iff.mp ?_⟩
  apply truthful_turn hchanged (truthfulFiles_iff.mpr htrue1)
  intro slot data contentType ifNoneMatch metadata heq hfailed raw hraw
  subst heq
  rw [fileAt_sidecar] at hraw
  exact hmeets hfailed raw hraw

/-!
## Every history
-/

/-- After every history without a stale sidecar, `head` describes the bytes that
are stored. -/
theorem head_describes {fs fs' fs'' : FileTree}
    {turns : List (MutationTurn settings)} {slot : Slot settings} {b : Bytes}
    {trace : List (Sigma calls.Ret)} {o : Except Exn (Option ObjectInfo)}
    (hsound : fs.Sound) (htrue : Truthful d settings fs)
    (h : Histories d anyFault (Unstale d) fs turns fs')
    (hb : storedObject d slot fs' = some b)
    (hrun : (system noFault).machine.Runs fs' (d.head slot.bucket slot.key)
      trace o fs'') :
    Reports d b o := by
  rcases truthful_history hsound htrue h with ⟨hsound', htrue'⟩
  rcases head_runs solo_noFault hsound' hrun with ⟨_, _, hheads⟩
  apply hheads.reports (view_storedObject d slot |>.mpr hb)
  intro raw hraw
  exact htrue' slot raw b ((view_storedSidecar d slot).mp hraw) hb

/-- A put whose sidecar fails meets no sidecar at all. -/
def Unmet (d : LocalFsBlobDriver) (fs : FileTree)
    (turn : MutationTurn settings) : Prop :=
  match turn.tag with
  | Mutation.put slot _ _ _ _ =>
      SidecarFailed d slot (sights turn.trace) -> storedSidecar d slot fs = none
  | Mutation.delete _ => True

instance (slot : Slot settings) (seen : List Sight) :
    Decidable (SidecarFailed d slot seen) := by
  unfold SidecarFailed
  infer_instance

instance (fs : FileTree) (turn : MutationTurn settings) :
    Decidable (Unmet d fs turn) := by
  unfold Unmet
  split <;> infer_instance

theorem Unmet.unstale {fs : FileTree} {turn : MutationTurn settings}
    (h : Unmet d fs turn) : Unstale d fs turn := by
  unfold Unmet at h
  unfold Unstale
  split
  · rename_i slot data _ _ _ htag
    rw [htag] at h
    intro hfailed raw hraw
    rw [h hfailed] at hraw
    cases hraw
  · trivial

def firstUnrecorded : List (MutationTurn sampleSettings) × FileTree :=
  (system anyFault).replayFrom (sampleFault 14) (Mutation.run sampleDriver)
    (Unmet sampleDriver) sampleTree [samplePut pictureSlot [[1, 2]]]

def secondUnrecorded : List (MutationTurn sampleSettings) × FileTree :=
  (system (sidecarFaults sampleDriver.root)).replayFrom (sampleFault 29)
    (Mutation.run sampleDriver) (fun _ _ => True) sampleTree
    [samplePut pictureSlot [[1, 2]], samplePut pictureSlot [[3]]]

def sampleHead (fs : FileTree) :
    Option (List (Sigma calls.Ret) × Except Exn (Option ObjectInfo) × FileTree) :=
  (system noFault).replay sampleChoice
    (sampleDriver.head pictureSlot.bucket pictureSlot.key) 0 fs

def reportedBytes : Except Exn (Option ObjectInfo) -> Option Int
  | Except.ok (some info) => some info.bytes
  | _ => none

theorem Reports.bytes {b : Bytes} {o : Except Exn (Option ObjectInfo)}
    (h : Reports d b o) : reportedBytes o = some (b.length : Int) := by
  rcases h with ⟨info, rfl, hbytes, _⟩
  exact congrArg some hbytes

theorem head_describes_firstUnrecorded :
    exists trace o fs, sampleHead firstUnrecorded.2 = some (trace, o, fs) ∧
      Reports sampleDriver [1, 2] o := by
  cases h : sampleHead firstUnrecorded.2 with
  | none => exact absurd h (by decide +kernel)
  | some run =>
      rcases run with ⟨trace, o, fs⟩
      have hstored : storedObject sampleDriver pictureSlot
          firstUnrecorded.2 = some [1, 2] := by decide +kernel
      refine ⟨trace, o, fs, rfl, ?_⟩
      apply head_describes sampleTree_fresh.sound sampleTree_fresh.truthful
        (History.imp (fun _ _ => Unmet.unstale)
          ((system anyFault).replayFrom_history (sampleFault 14)
            (Mutation.run sampleDriver) (Unmet sampleDriver) sampleTree
            [samplePut pictureSlot [[1, 2]]]))
      · exact hstored
      · exact (system noFault).replay_runs sampleChoice h

/-- A put whose sidecar fails leaves `head` describing the bytes that were
replaced. -/
theorem secondUnrecorded_misleads :
    Histories sampleDriver (sidecarFaults sampleDriver.root) (fun _ _ => True)
        sampleTree secondUnrecorded.1 secondUnrecorded.2 ∧
      storedObject sampleDriver pictureSlot secondUnrecorded.2 =
        some [3] ∧
      exists trace o fs, (system noFault).machine.Runs secondUnrecorded.2
        (sampleDriver.head pictureSlot.bucket pictureSlot.key)
        trace o fs ∧ ¬ Reports sampleDriver [3] o := by
  refine ⟨(system _).replayFrom_history _ _ _ _ _, by decide +kernel, ?_⟩
  have hbytes : (sampleHead secondUnrecorded.2).map
      (fun run => reportedBytes run.2.1) = some (some 2) := by decide +kernel
  rcases Option.map_eq_some_iff.mp hbytes with ⟨⟨trace, o, fs⟩, hhead, htwo⟩
  refine ⟨trace, o, fs, (system noFault).replay_runs sampleChoice hhead, ?_⟩
  intro hreports
  rw [hreports.bytes] at htwo
  cases htwo

end StorybookStorage
