import StorybookStorage.Drivers.Failures
import StorybookStorage.Store.HeadExact
import StorybookStorage.Store.History

/-!
# A put that raises

Whatever makes a put raise, and however many of its calls fail on the way, the
objects, the sidecars and what `head` says of them stay as they were, and the
staging file is gone unless removing it failed too.
-/

namespace StorybookStorage

open Python Posix Effects Contract

variable {settings : Settings} (d : LocalFsBlobDriver)

/-- No client can tell two trees apart by what is stored in them. -/
structure Unharmed (settings : Settings) (fs fs' : FileTree) : Prop where
  objects : forall slot : Slot settings,
    storedObject d slot fs' = storedObject d slot fs
  sidecars : forall slot : Slot settings,
    storedSidecar d slot fs' = storedSidecar d slot fs
  heads : forall (slot : Slot settings) trace trace' o o' fs1 fs1',
    (system noFault).machine.Runs fs (d.head slot.bucket slot.key) trace o fs1 ->
    (system noFault).machine.Runs fs' (d.head slot.bucket slot.key) trace' o'
      fs1' ->
    o' = o

def Translates (n : Errno) (e : Exn) : Prop :=
  (n = Errno.ENOSPC -> e = Exn.insufficientStorageError Errno.ENOSPC) ∧
    (n ≠ Errno.ENOSPC -> e = Exn.storageIoError n)

def tmpLoc (root u : Text) : Path := resolve root ++ [tmpDir, u]

structure FailedPut (settings : Settings) (fs : FileTree)
    (trace : List (Sigma calls.Ret)) (e : Exn) (fs' : FileTree) : Prop where
  unharmed : Unharmed d settings fs fs'
  /-- A staging file stays only if removing it failed. -/
  tidy : forall u, ⟨Call.uuid4, u⟩ ∈ trace ->
    fs'.isFile (tmpLoc d.root u) = true ->
    (exists fh, ⟨Call.openWrite (tmpText d.root u), Except.ok fh⟩ ∈ trace) ∧
      exists n, ⟨Call.remove (tmpText d.root u), Except.error n⟩ ∈ trace
  /-- One failing call alone decides the error. -/
  translated : forall n, failures trace = [n] -> Translates n e

variable {d} {fs fs' : FileTree}

/-!
## What is stored
-/

theorem undisturbed_fileInode {p : Path}
    (hvisible : ¬ (staging d.root).Hidden p)
    (h : (staging d.root).Undisturbed fs fs') :
    fileInode fs' p = fileInode fs p := by
  cases hold : fs.node p with
  | none =>
      rw [@fileInode_of_not_file fs _ (by simp [hold])]
      apply fileInode_of_not_file
      intro i hi
      rw [h.old p i hvisible hi] at hold
      cases hold
  | some n =>
      cases n with
      | dir =>
          rw [@fileInode_of_not_file fs _ (by simp [hold])]
          apply fileInode_of_not_file
          intro i hi
          rw [h.old p i hvisible hi] at hold
          cases hold
      | file i =>
          rcases h.kept p i hvisible hold with ⟨hi, hinode⟩
          rw [fileInode_of_file hold, fileInode_of_file hi, hinode]

theorem undisturbed_unharmed (h : (staging d.root).Undisturbed fs fs') :
    Unharmed d settings fs fs' where
  objects := by
    intro slot
    unfold storedObject
    rw [content_eq_map, content_eq_map,
      undisturbed_fileInode (slot.visible_objectLoc d.root) h]
  sidecars := by
    intro slot
    unfold storedSidecar
    rw [content_eq_map, content_eq_map,
      undisturbed_fileInode (slot.visible_sidecarLoc d.root) h]
  heads := by
    intro slot trace trace' o o' fs1 fs1' hrun hrun'
    have hsidecar : storedSidecar d slot fs' = storedSidecar d slot fs := by
      unfold storedSidecar
      rw [content_eq_map, content_eq_map,
        undisturbed_fileInode (slot.visible_sidecarLoc d.root) h]
    rw [(head_exact hrun).left, (head_exact hrun').left, hsidecar,
      undisturbed_fileInode (slot.visible_objectLoc d.root) h]

theorem mute_calm {faults : Prop} {more : List Sight}
    (h : Mute (solo d faults) more) : ¬ (solo d faults).Disturbs more := by
  intro hdisturbs
  rcases hdisturbs with ⟨p, hplaced | ⟨hremoved, hvisible⟩⟩
  · rcases h _ hplaced with ⟨c, hc⟩ | ⟨q, hq, _⟩
    · cases hc
    · cases hq
  · rcases h _ hremoved with ⟨c, hc⟩ | ⟨q, hq, hhidden⟩
    · cases hc
    · cases hq
      exact hvisible hhidden

theorem tested_calm {faults : Prop} {p : Path} {there : Bool}
    {more : List Sight} (h : ¬ (solo d faults).Disturbs more) :
    ¬ (solo d faults).Disturbs (Sight.tested p there :: more) := by
  intro hdisturbs
  rcases hdisturbs with ⟨q, hplaced | ⟨hremoved, hvisible⟩⟩
  · rcases List.mem_cons.mp hplaced with hhead | htail
    · cases hhead
    · exact h ⟨q, Or.inl htail⟩
  · rcases List.mem_cons.mp hremoved with hhead | htail
    · cases hhead
    · exact h ⟨q, Or.inr ⟨htail, hvisible⟩⟩

variable {slot : Slot settings} {data : Data} {contentType : Text}
  {ifNoneMatch : Option Text} {metadata : Option Metadata}

theorem PutEffect.calm {faults : Prop} {v v' : View} {seen : List Sight}
    {e : Exn}
    (h : PutEffect d slot faults data contentType ifNoneMatch metadata v
      (Except.error e) v' seen) : ¬ (solo d faults).Disturbs seen := by
  generalize ho : (Except.error e : Except Exn PutResult) = o at h
  cases h with
  | met info more _ _ _ hmute => exact tested_calm (mute_calm hmute)
  | refused e' v' more _ _ _ hmute =>
      unfold testedSights
      split
      · exact tested_calm (mute_calm hmute)
      · exact mute_calm hmute
  | stored v1 v' more => cases ho

variable {trace : List (Sigma calls.Ret)} {e : Exn}

theorem put_unharmed (hsound : fs.Sound)
    (hrun : (system anyFault).machine.Runs fs
      (d.put slot.bucket slot.key data contentType ifNoneMatch metadata) trace
      (Except.error e) fs') : Unharmed d settings fs fs' := by
  rcases put_runs solo_anyFault hsound hrun with ⟨_, heffect⟩
  exact undisturbed_unharmed
    (undisturbed_alone () solo_anyFault hsound hrun (wp_put_solo _) heffect.calm)

/-!
## What is left in the staging directory
-/

variable {allow : Policy} {u : Text}

theorem drawn_unnamed
    (h : (system allow).machine.Step fs Call.uuid4 u fs') :
    IsToken u ∧ fs'.entries = fs.entries ∧ u ∉ fs.tokens ∧
      fs'.tokens = u :: fs.tokens ∧ fs.Unnamed u := by
  rcases h with ⟨ch, ⟨_, hfresh⟩, hexec⟩
  rcases hfresh rfl with ⟨htoken, hnew, hunnamed⟩
  rcases exec_uuid4 hexec with ⟨rfl, htokens, hentries, _⟩
  exact ⟨htoken, hentries, hnew, htokens, hunnamed⟩

theorem drawn_vacant {p : Path}
    (h : (system allow).machine.Step fs Call.uuid4 u fs')
    (hplace : (staging d.root).Place u p) : fs'.node p = none := by
  rcases drawn_unnamed h with ⟨_, hentries, _, _, hunnamed⟩
  rcases (staging d.root).named hplace with ⟨seg, hseg, hinfix⟩
  by_contra hnode
  have hkey := mem_keys_of_node hnode
  rw [hentries] at hkey
  exact hunnamed p hkey seg hseg hinfix

theorem looks_places {c : Call} {r : Call.Ret c} (h : Looks c) :
    placesFile c r = [] := by
  cases c <;> first | rfl | exact absurd h id

theorem stage_places {M : Machine calls FileTree} {tmp dest : Text}
    {source : Source} {q : Path}
    {o : Except Exn (d.platform.sha256.State × Nat)}
    (hrun : M.Runs fs (d.stage tmp dest source) trace o fs')
    (hq : q ∈ Machine.notes placesFile trace) :
    (q = resolve tmp ∧
        exists fh, ⟨Call.openWrite tmp, Except.ok fh⟩ ∈ trace) ∨
      (q = resolve dest ∧ ⟨Call.rename tmp dest, Except.ok ()⟩ ∈ trace) := by
  rcases List.mem_flatMap.mp hq with ⟨⟨c, r⟩, hmem, hplace⟩
  cases hrun.issues (stage_calls d) ⟨c, r⟩ hmem with
  | opens =>
      cases r with
      | ok fh => exact Or.inl ⟨List.mem_singleton.mp hplace, fh, hmem⟩
      | error n => cases hplace
  | fills c hlooks =>
      rw [looks_places hlooks] at hplace
      cases hplace
  | makes => cases hplace
  | moves =>
      cases r with
      | ok _ => exact Or.inr ⟨List.mem_singleton.mp hplace, hmem⟩
      | error n => cases hplace

theorem tmpLoc_ne_objectLoc (u : Text) :
    slot.objectLoc d.root ≠ tmpLoc d.root u := by
  intro heq
  apply Slot.tmp_not_above_objectLoc slot d.root u
  rw [heq]
  exact List.prefix_rfl

/-!
## Every way to fail
-/

theorem translates_os (n : Errno) :
    Translates n (LocalFsBlobDriver.translateOsError (Exn.os n)) := by
  constructor
  · intro hn
    rw [hn]
    rfl
  · intro hn
    cases n <;> first | rfl | exact absurd rfl hn

theorem Enters.failures {M : Machine calls FileTree} {fs0 : FileTree}
    {before : List (Sigma calls.Ret)}
    (h : Enters d slot M ifNoneMatch fs before fs0) :
    StorybookStorage.failures before = [] := by
  cases h <;> rfl

theorem Enters.failures_of_failed {M : Machine calls FileTree} {fs0 : FileTree}
    {before main : List (Sigma calls.Ret)} {t : Text} {r : Except Errno Unit}
    (h : Enters d slot M ifNoneMatch fs before fs0) :
    StorybookStorage.failures
        (before ++ ⟨Call.uuid4, u⟩ :: (main ++ [⟨Call.remove t, r⟩])) =
      StorybookStorage.failures main := by
  have hbefore := h.failures
  unfold StorybookStorage.failures at hbefore ⊢
  rw [Machine.notes_append, Machine.notes_cons, Machine.notes_append, hbefore]
  exact List.append_nil _

theorem Enters.undrawn {M : Machine calls FileTree} {fs0 : FileTree}
    {before : List (Sigma calls.Ret)}
    (h : Enters d slot M ifNoneMatch fs before fs0) (u : Text) :
    ⟨Call.uuid4, u⟩ ∉ before := by
  cases h with
  | unconditional _ => exact List.not_mem_nil
  | missed fs0 _ _ =>
      intro hu
      cases List.mem_singleton.mp hu

theorem stage_tidy {fs1 fs2 : FileTree} {main : List (Sigma calls.Ret)}
    {source : Source} {o : Except Exn (d.platform.sha256.State × Nat)}
    {r : Except Errno Unit} (htoken : IsToken u)
    (hvacant : fs1.node (tmpLoc d.root u) = none)
    (hstage : (system allow).machine.Runs fs1
      (d.stage (tmpText d.root u) (slot.objectText d.root) source) main o fs2)
    (hremove : (system allow).machine.Step fs2
      (Call.remove (tmpText d.root u)) r fs')
    (hleft : fs'.isFile (tmpLoc d.root u) = true) :
    (exists fh, ⟨Call.openWrite (tmpText d.root u), Except.ok fh⟩ ∈ main) ∧
      exists n, r = Except.error n := by
  have htmp : resolve (tmpText d.root u) = tmpLoc d.root u :=
    resolve_tmpText htoken
  rcases hremove with ⟨ch, _, hexec⟩
  rcases exec_remove hexec with ⟨n, rfl, rfl⟩ | ⟨i, rfl, _, rfl⟩
  · refine ⟨?_, n, rfl⟩
    have hfile : exists i, fs'.node (tmpLoc d.root u) = some (Node.file i) := by
      unfold FileTree.isFile FileTree.content at hleft
      split at hleft
      · rename_i i hi
        exact ⟨i, hi⟩
      · cases hleft
    rcases hfile with ⟨i, hi⟩
    rcases runs_file hstage hi with ⟨j, hj⟩ | hplaced
    · rw [hvacant] at hj
      cases hj
    · rcases stage_places hstage hplaced with ⟨_, hopened⟩ | ⟨heq, _⟩
      · exact hopened
      · rw [slot.resolve_objectText] at heq
        exact absurd heq.symm (tmpLoc_ne_objectLoc u)
  · rw [htmp] at hleft
    unfold FileTree.isFile FileTree.content at hleft
    rw [FileTree.node_unlink_self] at hleft
    cases hleft

theorem Course.raised {o : Except Exn PutResult}
    (h : Course d slot (system allow).machine data contentType ifNoneMatch
      metadata fs trace o fs') (ho : o = Except.error e) :
    (forall w, ⟨Call.uuid4, w⟩ ∈ trace ->
      fs'.isFile (tmpLoc d.root w) = true ->
      (exists fh,
        ⟨Call.openWrite (tmpText d.root w), Except.ok fh⟩ ∈ trace) ∧
        exists n,
          ⟨Call.remove (tmpText d.root w), Except.error n⟩ ∈ trace) ∧
      forall n, failures trace = [n] -> Translates n e := by
  cases h with
  | met fs0 fs' rest info hcond hstep hhead =>
      have hlooks := hhead.issues (head_looks d slot.bucket slot.key)
      constructor
      · intro w hw
        rcases List.mem_cons.mp hw with hfirst | hrest
        · cases hfirst
        · exact absurd (hlooks _ hrest) id
      · intro n hn
        cases info with
        | ok info => cases ho
        | error e' =>
            change failures rest = [n] at hn
            rw [head_failures hhead] at hn
            cases hn
  | failed fs0 fs1 fs2 fs' u before main e0 r henters hdraw hstage hremove =>
      cases ho
      have hcalls := hstage.issues (stage_calls d)
      constructor
      · intro w hw hleft
        have hwu : w = u := by
          rcases List.mem_append.mp hw with hbefore | hrest
          · exact absurd hbefore (henters.undrawn w)
          rcases List.mem_cons.mp hrest with hfirst | hrest
          · cases hfirst
            rfl
          rcases List.mem_append.mp hrest with hmain | hlast
          · cases hcalls _ hmain with
            | fills _ hlooks => exact absurd hlooks id
          · cases List.mem_singleton.mp hlast
        rw [hwu] at hleft ⊢
        have htoken := (drawn_unnamed hdraw).left
        have hvacant : fs1.node (tmpLoc d.root u) = none :=
          drawn_vacant (d := d) hdraw ⟨htoken, Or.inl rfl⟩
        rcases stage_tidy htoken hvacant hstage hremove hleft with
          ⟨⟨fh, hopened⟩, n, rfl⟩
        constructor
        · exists fh
          simp [hopened]
        · exists n
          simp
      · intro n hn
        have hmain : failures main = [n] := by
          rw [← hn, henters.failures_of_failed]
        cases stage_failures hstage with
        | source e1 _ hnone =>
            rw [hnone] at hmain
            cases hmain
        | failed early n' hlast =>
            rw [hlast] at hmain
            cases early with
            | nil =>
                cases hmain
                exact translates_os n
            | cons m more =>
                have hlen := congrArg List.length hmain
                simp at hlen
  | stored fs0 fs1 fs2 fs' u before main side acc => cases ho

/-- A failed put changes nothing. -/
theorem put_failed (hsound : fs.Sound)
    (hrun : (system anyFault).machine.Runs fs
      (d.put slot.bucket slot.key data contentType ifNoneMatch metadata) trace
      (Except.error e) fs') :
    FailedPut d settings fs trace e fs' := by
  rcases (put_course hrun).raised rfl with ⟨htidy, htranslated⟩
  exact
    { unharmed := put_unharmed hsound hrun
      tidy := htidy
      translated := htranslated }

def unrenamed :
    Option (List (Sigma calls.Ret) × Except Exn PutResult × FileTree) :=
  (system anyFault).replay (sampleFault 8)
    (sampleDriver.put pictureSlot.bucket pictureSlot.key
      (sampleSource [[1, 2], [3]]) (text "image/png") none none) 0 sampleTree

def raised {α : Type} : Except Exn α -> Option Exn
  | Except.ok _ => none
  | Except.error e => some e

theorem eq_of_raised {α : Type} {o : Except Exn α} {e : Exn}
    (h : raised o = some e) : o = Except.error e := by
  cases o with
  | error e' => rw [Option.some.inj h]
  | ok a => cases h

theorem put_failed_unrenamed :
    exists trace e fs, unrenamed = some (trace, Except.error e, fs) ∧
      FailedPut sampleDriver sampleSettings sampleTree trace e fs := by
  have hraised : (unrenamed.bind fun run => raised run.2.1).isSome = true := by
    decide +kernel
  cases h : unrenamed with
  | none =>
      rw [h] at hraised
      cases hraised
  | some run =>
      rcases run with ⟨trace, o, fs⟩
      cases o with
      | ok result =>
          rw [h] at hraised
          cases hraised
      | error e =>
          refine ⟨trace, e, fs, rfl, ?_⟩
          exact put_failed sampleTree_fresh.sound
            ((system anyFault).replay_runs (sampleFault 8) h)

end StorybookStorage
