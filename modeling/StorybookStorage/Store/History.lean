import StorybookStorage.Effects.Replay
import StorybookStorage.Store.Sequential

/-!
# Sequential histories

Puts and deletes, each run to its end before the next one starts.  On the files
of the view such a call does one of a few simple things.
-/

namespace StorybookStorage

open Python Posix Effects Contract

inductive Mutation (settings : Settings) where
  | put (slot : Slot settings) (data : Data) (contentType : Text)
      (ifNoneMatch : Option Text) (metadata : Option Metadata)
  | delete (slot : Slot settings)

variable {settings : Settings} (d : LocalFsBlobDriver)

def Mutation.run : Mutation settings -> Io Reply
  | put slot data contentType ifNoneMatch metadata =>
      Reply.put <$>
        d.put slot.bucket slot.key data contentType ifNoneMatch metadata
  | delete slot => Reply.delete <$> d.delete slot.bucket slot.key

abbrev MutationTurn (settings : Settings) :=
  Turn calls (Mutation settings) Exn Reply

abbrev Histories (allow : Policy)
    (meets : FileTree -> MutationTurn settings -> Prop) :=
  History (system allow).machine (Mutation.run d) meets

def samplePut (slot : Slot sampleSettings) (chunks : List Bytes) :
    Mutation sampleSettings :=
  Mutation.put slot (sampleSource chunks) (text "image/png") none none

def answerOf {α : Type} (p : Io α) (fs : FileTree) :
    Option (List (Sigma calls.Ret) × Except Exn α × FileTree) :=
  (system noFault).replay sampleChoice p 40 fs

theorem answerOf_runs {α : Type} {p : Io α} {fs : FileTree}
    {run : List (Sigma calls.Ret) × Except Exn α × FileTree}
    (h : answerOf p fs = some run) :
    (system noFault).machine.Runs fs p run.1 run.2.1 run.2.2 :=
  (system noFault).replay_runs sampleChoice h

instance : DecidableEq (Slot settings) := fun a b =>
  decidable_of_iff (a.bucket = b.bucket ∧ a.key = b.key)
    ⟨fun h => Slot.ext h.left h.right, fun h => h ▸ ⟨rfl, rfl⟩⟩

def fileAt (v : View) (p : Path) : Option Bytes :=
  match v p with
  | some (Entry.file b) => some b
  | _ => none

variable {d} {v v' : View} {slot : Slot settings} {faults : Prop}

theorem fileAt_eq_some {p : Path} {b : Bytes} :
    fileAt v p = some b <-> v p = some (Entry.file b) := by
  unfold fileAt
  split
  · rename_i b' hb
    rw [hb]
    simp
  · rename_i hno
    constructor
    · intro h
      cases h
    · intro h
      exact absurd h (hno b)

theorem fileAt_eq_none {p : Path} :
    fileAt v p = none <-> forall b, v p ≠ some (Entry.file b) := by
  rw [Option.eq_none_iff_forall_ne_some]
  simp only [ne_eq, fileAt_eq_some]

theorem fileAt_object {fs : FileTree} :
    fileAt ((staging d.root).view fs) (slot.objectLoc d.root) =
      storedObject d slot fs := by
  apply Option.ext
  intro b
  rw [fileAt_eq_some, view_storedObject]

theorem fileAt_sidecar {fs : FileTree} :
    fileAt ((staging d.root).view fs) (slot.sidecarLoc d.root) =
      storedSidecar d slot fs := by
  apply Option.ext
  intro b
  rw [fileAt_eq_some, view_storedSidecar]

theorem fileAt_widens {p : Path} (h : Widens v p v') : fileAt v' = fileAt v := by
  funext q
  apply Option.ext
  intro b
  rw [fileAt_eq_some, fileAt_eq_some, widens_file h]

theorem fileAt_update_file {p : Path} {b : Bytes} :
    fileAt (Function.update v p (some (Entry.file b))) =
      Function.update (fileAt v) p (some b) := by
  funext q
  by_cases hq : q = p
  · rw [hq, Function.update_self, fileAt_eq_some, Function.update_self]
  · unfold fileAt
    rw [Function.update_of_ne hq, Function.update_of_ne hq]

theorem fileAt_update_none {p : Path} :
    fileAt (Function.update v p none) = Function.update (fileAt v) p none := by
  funext q
  by_cases hq : q = p
  · rw [hq, Function.update_self]
    unfold fileAt
    rw [Function.update_self]
  · unfold fileAt
    rw [Function.update_of_ne hq, Function.update_of_ne hq]

theorem placed_not_mute {ι : Type} {K : Contract ι} {more : List Sight}
    (h : Mute K more) (p : Path) : Sight.placed p ∉ more := by
  intro hp
  rcases h _ hp with ⟨c, hc⟩ | ⟨q, hq, _⟩
  · cases hc
  · cases hq

/-!
## What a put does to the files
-/

/-- Files after a put that stored its body: with a fresh sidecar, or with
whatever sidecar was there before.  Without faults that was none. -/
inductive Stored (d : LocalFsBlobDriver) (faults : Prop) (slot : Slot settings)
    (b : Bytes) (v v' : View) (seen : List Sight) : Prop where
  | recorded (raw : Bytes) :
      Describes d raw b ->
      fileAt v' =
        Function.update
          (Function.update (fileAt v) (slot.objectLoc d.root) (some b))
          (slot.sidecarLoc d.root) (some raw) ->
      Stored d faults slot b v v' seen
  | unrecorded :
      Sight.placed (slot.objectLoc d.root) ∈ seen ->
      Sight.placed (slot.sidecarLoc d.root) ∉ seen ->
      faults ∨ fileAt v (slot.sidecarLoc d.root) = none ->
      fileAt v' =
        Function.update (fileAt v) (slot.objectLoc d.root) (some b) ->
      Stored d faults slot b v v' seen

variable {data : Data} {contentType : Text} {ifNoneMatch : Option Text}
  {metadata : Option Metadata} {o : Except Exn PutResult} {seen : List Sight}

/-- A sidecar lies in a directory. -/
def Housed (d : LocalFsBlobDriver) (slot : Slot settings) (v : View) : Prop :=
  forall raw, v (slot.sidecarLoc d.root) = some (Entry.file raw) ->
    v (slot.sidecarLoc d.root).dropLast = some Entry.dir

theorem housed_of_sound {fs : FileTree} (h : fs.Sound) :
    Housed d slot ((staging d.root).view fs) := by
  intro raw hraw
  rcases Staging.view_file.mp hraw with ⟨_, i, hi, _⟩
  exact Staging.view_dir.mpr
    (h.parent _ (slot.sidecarLoc_ne_nil d.root) (by rw [hi]; simp))

/-- Nothing but a fault keeps a put from replacing a sidecar. -/
theorem sidecar_absent_of_thwarted {v1 : View} {b : Bytes}
    (hhoused : Housed d slot v)
    (hwidens : Widens v (slot.objectLoc d.root).dropLast v1)
    (h : Thwarted (solo d faults) Eq (slot.sidecarLoc d.root)
      (Function.update v1 (slot.objectLoc d.root) (some (Entry.file b)))) :
    faults ∨ fileAt v (slot.sidecarLoc d.root) = none := by
  rw [or_iff_not_imp_right]
  intro hsome
  rcases Option.ne_none_iff_exists'.mp hsome with ⟨raw, hraw⟩
  have hfile := fileAt_eq_some.mp hraw
  have hnot : forall q, q <+: slot.sidecarLoc d.root ->
      q ≠ slot.objectLoc d.root := by
    intro q hq heq
    subst heq
    exact slot.objectLoc_not_below_meta d.root slot hq
  cases h with
  | device hf => exact solo_faulty.mp hf
  | blocked w hw hno =>
      cases hw
      rw [Function.update_of_ne (hnot _ (List.dropLast_prefix _))] at hno
      rcases hwidens (slot.sidecarLoc d.root).dropLast with hsame | ⟨_, hdir, _⟩
      · rw [hsame] at hno
        exact absurd (hhoused raw hfile) hno
      · exact absurd hdir hno
  | unwritten w1 w2 w3 h1 hwider h3 hwhy =>
      cases h1
      cases h3
      cases hwhy with
      | device hf =>
          rcases hf with hf | hs
          · exact solo_faulty.mp hf
          · exact absurd hs id
      | unstaged u q w4 w5 _ hfree h5 hdir =>
          cases h5
          rw [hfree] at hdir
          cases hdir
      | occupied w4 h4 hdir =>
          cases h4
          have hthere := (widens_file hwidens).mpr hfile
          rw [← Function.update_of_ne (hnot _ List.prefix_rfl)
            (some (Entry.file b)) v1] at hthere
          rw [(widens_file hwider).mpr hthere] at hdir
          cases hdir

theorem PutEffect.files (hhoused : Housed d slot v)
    (h : PutEffect d slot faults data contentType ifNoneMatch metadata v
      o v' seen) :
    ((forall r, o = Except.ok r -> r.deduped = true) ∧ fileAt v' = fileAt v) ∨
      (o = Except.ok (storedResult d data) ∧
        Stored d faults slot data.body v v' seen) := by
  cases h with
  | met info more _ _ _ _ =>
      refine Or.inl ⟨?_, rfl⟩
      intro r hr
      cases info with
      | error e => cases hr
      | ok info =>
          cases hr
          rfl
  | refused e v' more _ _ hwidens _ =>
      refine Or.inl ⟨?_, fileAt_widens hwidens⟩
      intro r hr
      cases hr
  | stored v1 v' more _ _ hwidens _ hside =>
      refine Or.inr ⟨rfl, ?_⟩
      have hobject : fileAt (Function.update v1 (slot.objectLoc d.root)
          (some (Entry.file data.body))) =
            Function.update (fileAt v) (slot.objectLoc d.root)
              (some data.body) := by
        rw [fileAt_update_file, fileAt_widens hwidens]
      rcases hside with ⟨rfl, now, hplaced⟩ | ⟨⟨hmute, _⟩, htried, hwhy⟩
      · rcases placed_eq hplaced with ⟨w, hwidens', _, rfl⟩
        apply Stored.recorded _ (describes_sidecarBytes contentType data.body
          (metadata.getD ∅) now)
        rw [fileAt_update_file, fileAt_widens hwidens', hobject]
      · apply Stored.unrecorded
        · simp
        · intro hplaced
          rcases List.mem_append.mp hplaced with hfront | hback
          · rcases List.mem_append.mp hfront with htested | hobject
            · unfold testedSights at htested
              split at htested <;> simp at htested
            · exact slot.objectLoc_ne_sidecarLoc d.root slot
                (Sight.placed.inj (List.mem_singleton.mp hobject)).symm
          · exact placed_not_mute hmute _ hback
        · exact sidecar_absent_of_thwarted hhoused hwidens hwhy
        · rw [fileAt_widens (tried_eq htried), hobject]

theorem Stored.own {b : Bytes} (h : Stored d faults slot b v v' seen) :
    fileAt v' (slot.objectLoc d.root) = some b := by
  cases h with
  | recorded raw _ hfiles =>
      rw [hfiles, Function.update_of_ne
        (slot.objectLoc_ne_sidecarLoc d.root slot), Function.update_self]
  | unrecorded _ _ _ hfiles => rw [hfiles, Function.update_self]

theorem Stored.others {slot' : Slot settings} {b : Bytes}
    (h : Stored d faults slot b v v' seen) (hne : slot' ≠ slot) :
    fileAt v' (slot'.objectLoc d.root) = fileAt v (slot'.objectLoc d.root) ∧
      fileAt v' (slot'.sidecarLoc d.root) =
        fileAt v (slot'.sidecarLoc d.root) := by
  have hobject : slot'.objectLoc d.root ≠ slot.objectLoc d.root :=
    fun h => hne (Slot.objectLoc_inj h)
  have hsidecar : slot'.sidecarLoc d.root ≠ slot.sidecarLoc d.root :=
    fun h => hne (Slot.sidecarLoc_inj h)
  have hacross := slot'.objectLoc_ne_sidecarLoc d.root slot
  have hback := (slot.objectLoc_ne_sidecarLoc d.root slot').symm
  cases h with
  | recorded raw _ hfiles =>
      rw [hfiles]
      constructor
      · rw [Function.update_of_ne hacross, Function.update_of_ne hobject]
      · rw [Function.update_of_ne hsidecar, Function.update_of_ne hback]
  | unrecorded _ _ _ hfiles =>
      rw [hfiles]
      exact ⟨Function.update_of_ne hobject _ _, Function.update_of_ne hback _ _⟩

def unlinkedIf (gone : Bool) (files : Path -> Option Bytes) (p : Path) :
    Path -> Option Bytes :=
  if gone then Function.update files p none else files

theorem Unlinked.files {p : Path} {gone : Bool}
    (h : Unlinked (solo d faults) Eq v p v' gone) :
    fileAt v' = unlinkedIf gone (fileAt v) p ∧
      (gone = true -> fileAt v p ≠ none) ∧
      (gone = false -> faults ∨ fileAt v p = none) := by
  cases gone with
  | true =>
      rcases h with ⟨⟨b, hb⟩, rfl⟩
      refine ⟨fileAt_update_none, ?_, fun h => nomatch h⟩
      intro _
      rw [fileAt_eq_some.mpr hb]
      simp
  | false =>
      rcases h with ⟨hreason, rfl⟩
      refine ⟨rfl, fun h => (nomatch h), fun _ => ?_⟩
      rw [solo_faulty] at hreason
      exact hreason.imp_right fileAt_eq_none.mpr

/-!
## What a turn does to the files
-/

inductive Changed (d : LocalFsBlobDriver) (faults : Prop) (v v' : View)
    (seen : List Sight) : Mutation settings -> Except Exn Reply -> Prop where
  | unstored (slot : Slot settings) (data : Data) (contentType : Text)
      (ifNoneMatch : Option Text) (metadata : Option Metadata)
      (o : Except Exn Reply) :
      (forall r, o = Except.ok (Reply.put r) -> r.deduped = true) ->
      fileAt v' = fileAt v ->
      Changed d faults v v' seen
        (Mutation.put slot data contentType ifNoneMatch metadata) o
  | stored (slot : Slot settings) (data : Data) (contentType : Text)
      (ifNoneMatch : Option Text) (metadata : Option Metadata) :
      Stored d faults slot data.body v v' seen ->
      Changed d faults v v' seen
        (Mutation.put slot data contentType ifNoneMatch metadata)
        (Except.ok (Reply.put (storedResult d data)))
  | deleted (slot : Slot settings) (existed cleaned : Bool) :
      fileAt v' =
        unlinkedIf cleaned
          (unlinkedIf existed (fileAt v) (slot.objectLoc d.root))
          (slot.sidecarLoc d.root) ->
      (existed = true -> fileAt v (slot.objectLoc d.root) ≠ none) ->
      (existed = false -> faults ∨ fileAt v (slot.objectLoc d.root) = none) ->
      (cleaned = false -> faults ∨ fileAt v (slot.sidecarLoc d.root) = none) ->
      Changed d faults v v' seen (Mutation.delete slot)
        (Except.ok (Reply.delete existed))

theorem unlinkedIf_of_ne {gone : Bool} {files : Path -> Option Bytes}
    {p q : Path} (h : q ≠ p) : unlinkedIf gone files p q = files q := by
  unfold unlinkedIf
  split
  · exact Function.update_of_ne h _ _
  · rfl

theorem unlinkedIf_true {files : Path -> Option Bytes} {p : Path} :
    unlinkedIf true files p p = none := by
  unfold unlinkedIf
  rw [if_pos rfl, Function.update_self]

theorem unlinkedIf_subset {gone : Bool} {files : Path -> Option Bytes}
    {p q : Path} {b : Bytes} (h : unlinkedIf gone files p q = some b) :
    files q = some b := by
  unfold unlinkedIf at h
  split at h
  · rcases eq_or_ne q p with rfl | hne
    · rw [Function.update_self] at h
      cases h
    · rwa [Function.update_of_ne hne] at h
  · exact h

variable {allow : Policy} {fs fs' : FileTree} {trace : List (Sigma calls.Ret)}

theorem Mutation.run_changed {m : Mutation settings} {o : Except Exn Reply}
    (hallow : (solo d faults).Admits allow) (hsound : fs.Sound)
    (hrun : (system allow).machine.Runs fs (m.run d) trace o fs') :
    fs'.Sound ∧ Changed d faults ((staging d.root).view fs)
      ((staging d.root).view fs') (sights trace) m o := by
  cases m with
  | put slot data contentType ifNoneMatch metadata =>
      rcases Machine.runs_map hrun with ⟨o', hput, rfl⟩
      rcases put_runs hallow hsound hput with ⟨hsound', heffect⟩
      refine ⟨hsound', ?_⟩
      rcases heffect.files (housed_of_sound hsound) with ⟨hdeduped, hfiles⟩ | ⟨rfl, hstored⟩
      · apply Changed.unstored _ _ _ _ _ _ _ hfiles
        intro r hr
        cases o' with
        | error e => cases hr
        | ok r' =>
            cases hr
            exact hdeduped r rfl
      · exact Changed.stored _ _ _ _ _ hstored
  | delete slot =>
      rcases Machine.runs_map hrun with ⟨o', hdelete, rfl⟩
      rcases delete_runs hallow hsound hdelete with
        ⟨hsound', existed, cleaned, v1, rfl, hobject, hsidecar⟩
      refine ⟨hsound', ?_⟩
      rcases hobject.files with ⟨hfiles1, hgone, hstays⟩
      rcases hsidecar.files with ⟨hfiles', _, hleft⟩
      apply Changed.deleted slot existed cleaned _ hgone hstays
      · intro hcleaned
        have hne := (slot.objectLoc_ne_sidecarLoc d.root slot).symm
        rw [hfiles1, unlinkedIf_of_ne hne] at hleft
        exact hleft hcleaned
      · rw [hfiles', hfiles1]

end StorybookStorage
