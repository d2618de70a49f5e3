import StorybookStorage.Store.History

/-!
# What a reader gets back

Read off from the answers alone, a history leaves in every slot the body of the
last put that returned a fresh result, unless a later delete returned true.
The file tree keeps exactly that, whichever calls fail on the way.
-/

namespace StorybookStorage

open Python Posix Effects Contract

variable {settings : Settings}

def freshResult : Except Exn Reply -> Option PutResult
  | Except.ok (Reply.put r) => if r.deduped then none else some r
  | _ => none

def foundObject : Except Exn Reply -> Bool
  | Except.ok (Reply.delete existed) => existed
  | _ => false

def keptAfter (slot : Slot settings) (kept : Option (Data × PutResult))
    (turn : MutationTurn settings) : Option (Data × PutResult) :=
  match turn.tag with
  | Mutation.put slot' data _ _ _ =>
      if slot' = slot then
        ((freshResult turn.outcome).map fun r => (data, r)).or kept
      else
        kept
  | Mutation.delete slot' =>
      if slot' = slot ∧ foundObject turn.outcome = true then none else kept

def kept (slot : Slot settings) (turns : List (MutationTurn settings)) :
    Option (Data × PutResult) :=
  turns.foldl (keptAfter slot) none

theorem kept_append (slot : Slot settings) (turns : List (MutationTurn settings))
    (turn : MutationTurn settings) :
    kept slot (turns ++ [turn]) = keptAfter slot (kept slot turns) turn :=
  List.foldl_append

section

variable {slot slot' : Slot settings} {data : Data} {contentType : Text}
  {ifNoneMatch : Option Text} {metadata : Option Metadata}
  {trace : List (Sigma calls.Ret)} {o : Except Exn Reply}
  {before : Option (Data × PutResult)}

theorem keptAfter_put_ne (hne : slot' ≠ slot) :
    keptAfter slot before
      { tag := Mutation.put slot' data contentType ifNoneMatch metadata,
        trace := trace, outcome := o } = before := if_neg hne

theorem keptAfter_put_self :
    keptAfter slot before
      { tag := Mutation.put slot data contentType ifNoneMatch metadata,
        trace := trace, outcome := o } =
      ((freshResult o).map fun r => (data, r)).or before := if_pos rfl

theorem keptAfter_delete :
    keptAfter slot before
      { tag := Mutation.delete slot', trace := trace, outcome := o } =
      if slot' = slot ∧ foundObject o = true then none else before := rfl

theorem freshResult_of_deduped
    (h : forall r, o = Except.ok (Reply.put r) -> r.deduped = true) :
    freshResult o = none := by
  unfold freshResult
  split
  · rename_i r
    rw [if_pos (h r rfl)]
  · rfl

end

variable (d : LocalFsBlobDriver)

/-- The file of an object is the one kept, and the result told its size and
hash. -/
def Retained (files : Path -> Option Bytes) (slot : Slot settings)
    (before : Option (Data × PutResult)) : Prop :=
  files (slot.objectLoc d.root) = before.map (fun k => k.1.body) ∧
    forall k, before = some k -> k.2 = storedResult d k.1

variable {d} {v v' : View} {seen : List Sight} {faults : Prop}

theorem retained_delete {slot slot' : Slot settings} {existed cleaned : Bool}
    (hfiles : fileAt v' =
      unlinkedIf cleaned
        (unlinkedIf existed (fileAt v) (slot.objectLoc d.root))
        (slot.sidecarLoc d.root)) :
    fileAt v' (slot'.objectLoc d.root) =
      if slot = slot' ∧ existed = true then none
      else fileAt v (slot'.objectLoc d.root) := by
  rw [hfiles, unlinkedIf_of_ne (slot'.objectLoc_ne_sidecarLoc d.root slot)]
  rcases eq_or_ne slot slot' with rfl | hne
  · cases existed with
    | true => rw [unlinkedIf_true, if_pos ⟨rfl, rfl⟩]
    | false =>
        rw [if_neg (fun h => nomatch h.right)]
        rfl
  · rw [if_neg (fun h => hne h.left)]
    exact unlinkedIf_of_ne fun h => hne (Slot.objectLoc_inj h).symm

theorem retained_turn {m : Mutation settings} {o : Except Exn Reply}
    {trace : List (Sigma calls.Ret)} {slot : Slot settings}
    {before : Option (Data × PutResult)} (h : Changed d faults v v' seen m o)
    (hkept : Retained d (fileAt v) slot before) :
    Retained d (fileAt v') slot
      (keptAfter slot before { tag := m, trace := trace, outcome := o }) := by
  cases h with
  | unstored slot' data _ _ _ _ hdeduped hfiles =>
      rw [hfiles]
      rcases eq_or_ne slot' slot with rfl | hne
      · rw [keptAfter_put_self, freshResult_of_deduped hdeduped]
        exact hkept
      · rw [keptAfter_put_ne hne]
        exact hkept
  | stored slot' data _ _ _ hstored =>
      rcases eq_or_ne slot' slot with rfl | hne
      · rw [keptAfter_put_self]
        refine ⟨hstored.own, ?_⟩
        intro k hk
        cases hk
        rfl
      · rw [keptAfter_put_ne hne]
        unfold Retained
        rw [(hstored.others hne.symm).left]
        exact hkept
  | deleted slot' existed cleaned hfiles _ _ _ =>
      rw [keptAfter_delete]
      unfold Retained
      rw [retained_delete hfiles]
      by_cases hgone : slot' = slot ∧ existed = true
      · rw [if_pos hgone, if_pos (show _ ∧ foundObject _ = true from hgone)]
        refine ⟨rfl, ?_⟩
        intro k hk
        cases hk
      · rw [if_neg hgone, if_neg (show ¬ (_ ∧ foundObject _ = true) from hgone)]
        exact hkept

theorem retained_history {fs fs' : FileTree}
    {turns : List (MutationTurn settings)} (hsound : fs.Sound)
    (hempty : forall slot : Slot settings, storedObject d slot fs = none)
    (h : Histories d anyFault (fun _ _ => True) fs turns fs') :
    fs'.Sound ∧ forall slot : Slot settings,
      Retained d (fileAt ((staging d.root).view fs')) slot (kept slot turns) := by
  refine History.invariant (I := fun turns s => s.Sound ∧
    forall slot : Slot settings,
      Retained d (fileAt ((staging d.root).view s)) slot (kept slot turns))
    ⟨hsound, ?_⟩ ?_ h
  · intro slot
    unfold Retained
    rw [fileAt_object, hempty slot]
    exact ⟨rfl, fun k hk => nomatch hk⟩
  · intro turns s1 m trace o s2 hbefore hrun _
    rcases Mutation.run_changed solo_anyFault hbefore.left hrun with
      ⟨hsound2, hchanged⟩
    refine ⟨hsound2, ?_⟩
    intro slot
    rw [kept_append]
    exact retained_turn hchanged (hbefore.right slot)

/-- What `get` has to serve to a client that pulls so many chunks, and what the
put of these bytes must have answered. -/
structure Serves (d : LocalFsBlobDriver) (pulls : Nat)
    (before : Option (Data × PutResult))
    (o : Except Exn (Option (Bytes × Bool))) : Prop where
  absent : before = none -> o = Except.ok none
  served : forall data r, before = some (data, r) ->
    data.body.length < pulls -> o = Except.ok (some (data.body, true))
  answered : forall data r, before = some (data, r) ->
    r.bytes = data.body.length ∧
      r.etag = Json.str (d.platform.sha256.digest data.body)

/-- After every history, whichever calls failed in it, `get` serves the last
body put and not deleted. -/
theorem fetch_kept (slot : Slot settings) {fs fs' fs'' : FileTree}
    {turns : List (MutationTurn settings)} {pulls : Nat}
    {trace : List (Sigma calls.Ret)}
    {o : Except Exn (Option (Bytes × Bool))} (hsound : fs.Sound)
    (hempty : forall slot : Slot settings, storedObject d slot fs = none)
    (h : Histories d anyFault (fun _ _ => True) fs turns fs')
    (hrun : (system noFault).machine.Runs fs'
      (d.fetch slot.bucket slot.key pulls) trace o fs'') :
    Serves d pulls (kept slot turns) o := by
  rcases retained_history hsound hempty h with ⟨hsound', hkept⟩
  rcases fetch_runs solo_noFault hsound' hrun with ⟨_, _, hfetched⟩
  rcases hkept slot with ⟨hfile, hresult⟩
  rw [fileAt_object] at hfile
  rw [hfile] at hfetched
  constructor
  · intro hk
    rw [hk] at hfetched
    exact hfetched
  · intro data r hk hpulls
    rw [hk] at hfetched
    rcases hfetched with ⟨got, ended, ho, hprefix, hend, hshort⟩
    have hended : ended = true := by
      by_contra hnot
      have hlong := hshort (Bool.eq_false_iff.mpr hnot)
      have hgot : got.length ≤ data.body.length := hprefix.length_le
      omega
    rw [ho, hended, hend hended]
  · intro data r hk
    have hr : r = storedResult d data := hresult _ hk
    rw [hr]
    exact ⟨rfl, rfl⟩

def failedOverwrite : List (MutationTurn sampleSettings) × FileTree :=
  (system anyFault).replayFrom (sampleFault 21) (Mutation.run sampleDriver)
    (fun _ _ => True) sampleTree
    [samplePut pictureSlot [[1], [], [2]], samplePut pictureSlot [[3]]]

def sampleFetch (pulls : Nat) (fs : FileTree) :
    Option (List (Sigma calls.Ret) × Except Exn (Option (Bytes × Bool)) ×
      FileTree) :=
  (system noFault).replay sampleChoice
    (sampleDriver.fetch pictureSlot.bucket pictureSlot.key pulls) 0 fs

theorem sampleFetch_runs {pulls : Nat} {fs fs' : FileTree}
    {trace : List (Sigma calls.Ret)} {o : Except Exn (Option (Bytes × Bool))}
    (h : sampleFetch pulls fs = some (trace, o, fs')) :
    (system noFault).machine.Runs fs
      (sampleDriver.fetch pictureSlot.bucket pictureSlot.key pulls) trace o fs' :=
  (system noFault).replay_runs sampleChoice h

theorem failedOverwrite_history :
    Histories sampleDriver anyFault (fun _ _ => True) sampleTree
      failedOverwrite.1 failedOverwrite.2 :=
  (system anyFault).replayFrom_history _ _ _ _ _

theorem fetch_kept_failedOverwrite :
    exists trace fs, sampleFetch 3 failedOverwrite.2 =
      some (trace, Except.ok (some ([1, 2], true)), fs) := by
  have hkept : (kept pictureSlot failedOverwrite.1).map (fun k => k.1.body) =
      some [1, 2] := by decide +kernel
  have hends : (sampleFetch 3 failedOverwrite.2).isSome = true := by
    decide +kernel
  rcases Option.map_eq_some_iff.mp hkept with ⟨⟨data, r⟩, hk, hbody⟩
  rcases Option.isSome_iff_exists.mp hends with ⟨⟨trace, o, fs⟩, hfetch⟩
  have hserves := fetch_kept pictureSlot sampleTree_fresh.sound
    sampleTree_fresh.storedObject failedOverwrite_history
    (sampleFetch_runs hfetch)
  have hbody' : data.body = [1, 2] := hbody
  have ho := hserves.served data r hk
  rw [hbody'] at ho
  rw [hfetch, ho (by decide)]
  exact ⟨trace, fs, rfl⟩

end StorybookStorage
