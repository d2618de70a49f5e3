import StorybookStorage.Store.History

/-!
# The store between calls, without faults

What holds of the tree after every fault-free history: staging stays possible,
every file belongs to a slot, and a sidecar lies only beside an object that it
describes.  On such a tree every answer of `put` and `head` is a function of a
few facts about the two places of the slot.
-/

namespace StorybookStorage

open Python Posix Effects Contract

variable {settings : Settings} (d : LocalFsBlobDriver)

structure Kempt (settings : Settings) (fs : FileTree) : Prop where
  sound : fs.Sound
  tmp : fs.node (resolve d.root ++ [tmpDir]) = some Node.dir
  clean : forall u, fs.node (resolve d.root ++ [tmpDir, u]) ≠ some Node.dir
  /-- Every file belongs to a slot. -/
  owned : forall p b, resolve d.root <+: p ->
    fileAt ((staging d.root).view fs) p = some b ->
    exists slot : Slot settings,
      p = slot.objectLoc d.root ∨ p = slot.sidecarLoc d.root
  /-- A sidecar is there only beside an object, and describes it. -/
  described : forall (slot : Slot settings) raw,
    storedSidecar d slot fs = some raw ->
    exists b, storedObject d slot fs = some b ∧ Describes d raw b

variable {d}

theorem Fresh.kempt {fs : FileTree} (h : Fresh d.root fs) :
    Kempt d settings fs where
  sound := h.sound
  tmp := h.tmp
  clean := h.clean
  owned := by
    intro p b hp hfile
    rcases Staging.view_file.mp (fileAt_eq_some.mp hfile) with ⟨_, i, hi, _⟩
    exact absurd hi (h.vacant p i hp)
  described := by
    intro slot raw hraw
    rw [h.storedSidecar] at hraw
    cases hraw

/-!
## Directories
-/

section Directories

variable {slot : Slot settings} {faults : Prop} {v v' : View}
  {data : Data} {contentType : Text} {ifNoneMatch : Option Text}
  {metadata : Option Metadata} {o : Except Exn PutResult} {seen : List Sight}

/-- The same directories, apart from those on the way to a slot's places. -/
structure Furthered (d : LocalFsBlobDriver) (slot : Slot settings)
    (v v' : View) : Prop where
  kept : forall q, v q = some Entry.dir -> v' q = some Entry.dir
  made : forall q, v' q = some Entry.dir -> v q = some Entry.dir ∨
    q <+: slot.objectLoc d.root ∨ q <+: slot.sidecarLoc d.root

theorem Furthered.refl (v : View) : Furthered d slot v v where
  kept := fun _ h => h
  made := fun _ h => Or.inl h

theorem Furthered.trans {v1 : View} (h : Furthered d slot v v1)
    (h' : Furthered d slot v1 v') : Furthered d slot v v' where
  kept := fun q hq => h'.kept q (h.kept q hq)
  made := by
    intro q hq
    rcases h'.made q hq with hq1 | hpre
    · exact h.made q hq1
    · exact Or.inr hpre

theorem furthered_widens {p : Path}
    (hp : p <+: slot.objectLoc d.root ∨ p <+: slot.sidecarLoc d.root)
    (h : Widens v p v') : Furthered d slot v v' where
  kept := by
    intro q hq
    rcases h q with hsame | ⟨_, hdir, _⟩
    · rw [hsame, hq]
    · exact hdir
  made := by
    intro q hq
    rcases h q with hsame | ⟨_, _, hpre⟩
    · exact Or.inl (by rw [← hsame, hq])
    · exact Or.inr (hp.imp hpre.trans hpre.trans)

theorem furthered_update {p : Path} {e : Option Entry}
    (hp : v p ≠ some Entry.dir) (he : e ≠ some Entry.dir) :
    Furthered d slot v (Function.update v p e) where
  kept := by
    intro q hq
    have hne : q ≠ p := by
      intro heq
      subst heq
      exact hp hq
    rw [Function.update_of_ne hne, hq]
  made := by
    intro q hq
    rcases eq_or_ne q p with rfl | hne
    · rw [Function.update_self] at hq
      exact absurd hq he
    · rw [Function.update_of_ne hne] at hq
      exact Or.inl hq

theorem PutEffect.furthered
    (h : PutEffect d slot faults data contentType ifNoneMatch metadata v o v'
      seen) : Furthered d slot v v' := by
  have hobject := Or.inl (b := (slot.objectLoc d.root).dropLast <+:
    slot.sidecarLoc d.root) (List.dropLast_prefix (slot.objectLoc d.root))
  have hsidecar := Or.inr (a := (slot.sidecarLoc d.root).dropLast <+:
    slot.objectLoc d.root) (List.dropLast_prefix (slot.sidecarLoc d.root))
  have hfile : forall b, some (Entry.file b) ≠ some Entry.dir := by
    intro b hb
    cases hb
  cases h with
  | met info more _ _ _ _ => exact Furthered.refl v
  | refused e v' more _ _ hwidens _ => exact furthered_widens hobject hwidens
  | stored v1 v' more _ _ hwidens hnodir hside =>
      refine ((furthered_widens hobject hwidens).trans
        (furthered_update hnodir (hfile data.body))).trans ?_
      rcases hside with ⟨_, now, hplaced⟩ | ⟨_, htried, _⟩
      · rcases placed_eq hplaced with ⟨w, hwider, hplace, rfl⟩
        exact (furthered_widens hsidecar hwider).trans
          (furthered_update hplace (hfile _))
      · exact furthered_widens hsidecar (tried_eq htried)

theorem Unlinked.furthered {p : Path} {gone : Bool}
    (h : Unlinked (solo d faults) Eq v p v' gone) : Furthered d slot v v' := by
  cases gone with
  | true =>
      rcases h with ⟨⟨b, hb⟩, rfl⟩
      apply furthered_update
      · rw [hb]
        simp
      · simp
  | false =>
      rcases h with ⟨_, rfl⟩
      exact Furthered.refl v

end Directories

/-!
## One turn
-/

def Mutation.slot : Mutation settings -> Slot settings
  | Mutation.put slot _ _ _ _ => slot
  | Mutation.delete slot => slot

section Turn

variable {fs fs' : FileTree} {trace : List (Sigma calls.Ret)}
  {m : Mutation settings} {o : Except Exn Reply}

theorem Mutation.run_furthered {faults : Prop} {allow : Policy}
    (hallow : (solo d faults).Admits allow) (hsound : fs.Sound)
    (hrun : (system allow).machine.Runs fs (m.run d) trace o fs') :
    Furthered d m.slot ((staging d.root).view fs)
      ((staging d.root).view fs') := by
  cases m with
  | put slot data contentType ifNoneMatch metadata =>
      rcases Machine.runs_map hrun with ⟨o', hput, _⟩
      exact (put_runs hallow hsound hput).right.furthered
  | delete slot =>
      rcases Machine.runs_map hrun with ⟨o', hdelete, _⟩
      rcases delete_runs hallow hsound hdelete with
        ⟨_, existed, cleaned, v1, _, hobject, hsidecar⟩
      exact hobject.furthered.trans hsidecar.furthered

theorem Stored.file_cases {faults : Prop} {slot : Slot settings} {b : Bytes}
    {v v' : View} {seen : List Sight} {p : Path} {raw : Bytes}
    (h : Stored d faults slot b v v' seen) (hp : fileAt v' p = some raw) :
    p = slot.objectLoc d.root ∨ p = slot.sidecarLoc d.root ∨
      fileAt v p = some raw := by
  rw [or_iff_not_imp_left, or_iff_not_imp_left]
  intro hobject hsidecar
  cases h with
  | recorded written _ hfiles =>
      rw [hfiles, Function.update_of_ne hsidecar,
        Function.update_of_ne hobject] at hp
      exact hp
  | unrecorded _ _ _ hfiles =>
      rw [hfiles, Function.update_of_ne hobject] at hp
      exact hp

theorem Changed.file_cases {faults : Prop} {v v' : View} {seen : List Sight}
    {p : Path} {raw : Bytes} (h : Changed d faults v v' seen m o)
    (hp : fileAt v' p = some raw) :
    p = m.slot.objectLoc d.root ∨ p = m.slot.sidecarLoc d.root ∨
      fileAt v p = some raw := by
  cases h with
  | unstored slot data _ _ _ _ _ hfiles =>
      rw [hfiles] at hp
      exact Or.inr (Or.inr hp)
  | stored slot data _ _ _ hstored => exact hstored.file_cases hp
  | deleted slot existed cleaned hfiles _ _ _ =>
      rw [hfiles] at hp
      exact Or.inr (Or.inr (unlinkedIf_subset (unlinkedIf_subset hp)))

theorem Changed.others {faults : Prop} {v v' : View} {seen : List Sight}
    {slot : Slot settings} (h : Changed d faults v v' seen m o)
    (hne : slot ≠ m.slot) :
    fileAt v' (slot.objectLoc d.root) = fileAt v (slot.objectLoc d.root) ∧
      fileAt v' (slot.sidecarLoc d.root) =
        fileAt v (slot.sidecarLoc d.root) := by
  cases h with
  | unstored slot' data _ _ _ _ _ hfiles =>
      rw [hfiles]
      exact ⟨rfl, rfl⟩
  | stored slot' data _ _ _ hstored => exact hstored.others hne
  | deleted slot' existed cleaned hfiles _ _ _ =>
      have hobject : slot.objectLoc d.root ≠ slot'.objectLoc d.root :=
        fun h => hne (Slot.objectLoc_inj h)
      have hsidecar : slot.sidecarLoc d.root ≠ slot'.sidecarLoc d.root :=
        fun h => hne (Slot.sidecarLoc_inj h)
      rw [hfiles]
      constructor
      · rw [unlinkedIf_of_ne (slot.objectLoc_ne_sidecarLoc d.root slot'),
          unlinkedIf_of_ne hobject]
      · rw [unlinkedIf_of_ne hsidecar,
          unlinkedIf_of_ne (slot'.objectLoc_ne_sidecarLoc d.root slot).symm]

def Described (d : LocalFsBlobDriver) (settings : Settings)
    (files : Path -> Option Bytes) : Prop :=
  forall (slot : Slot settings) raw,
    files (slot.sidecarLoc d.root) = some raw ->
    exists b, files (slot.objectLoc d.root) = some b ∧ Describes d raw b

theorem described_stored {slot : Slot settings} {b : Bytes} {v v' : View}
    {seen : List Sight} (h : Stored d False slot b v v' seen)
    (hbefore : Described d settings (fileAt v)) :
    Described d settings (fileAt v') := by
  intro slot' raw hraw
  rcases eq_or_ne slot' slot with rfl | hne
  · have hown := h.own
    have hacross := (slot'.objectLoc_ne_sidecarLoc d.root slot').symm
    cases h with
    | recorded written hdescribes hfiles =>
        rw [hfiles, Function.update_self] at hraw
        cases hraw
        exact ⟨b, hown, hdescribes⟩
    | unrecorded _ _ hnone hfiles =>
        rw [hfiles, Function.update_of_ne hacross,
          hnone.resolve_left id] at hraw
        cases hraw
  · rcases h.others hne with ⟨hobject, hsidecar⟩
    rw [hsidecar] at hraw
    rw [hobject]
    exact hbefore slot' raw hraw

theorem described_turn {v v' : View} {seen : List Sight}
    (h : Changed d False v v' seen m o)
    (hbefore : Described d settings (fileAt v)) :
    Described d settings (fileAt v') := by
  cases h with
  | unstored slot data _ _ _ _ _ hfiles =>
      rw [hfiles]
      exact hbefore
  | stored slot data _ _ _ hstored => exact described_stored hstored hbefore
  | deleted slot existed cleaned hfiles _ hobject hsidecar =>
      intro slot' raw hraw
      rw [hfiles] at hraw ⊢
      have hacross := slot'.objectLoc_ne_sidecarLoc d.root slot
      rcases hbefore slot' raw (unlinkedIf_subset (unlinkedIf_subset hraw)) with
        ⟨b, hb, hdescribes⟩
      refine ⟨b, ?_, hdescribes⟩
      rw [unlinkedIf_of_ne hacross]
      rcases eq_or_ne slot' slot with rfl | hne
      · -- Without faults the sidecar was unlinked, so there is none to describe.
        cases cleaned with
        | true =>
            rw [unlinkedIf_true] at hraw
            cases hraw
        | false =>
            have hbare := (hsidecar rfl).resolve_left id
            rw [unlinkedIf_subset (unlinkedIf_subset hraw)] at hbare
            cases hbare
      · rw [unlinkedIf_of_ne fun h => hne (Slot.objectLoc_inj h), hb]

theorem Kempt.turn (h : Kempt d settings fs)
    (hrun : (system noFault).machine.Runs fs (m.run d) trace o fs') :
    Kempt d settings fs' := by
  rcases Mutation.run_changed solo_noFault h.sound hrun with
    ⟨hsound, hchanged⟩
  have hdirs := Mutation.run_furthered solo_noFault h.sound hrun
  constructor
  · exact hsound
  · exact Staging.view_dir.mp (hdirs.kept _ (Staging.view_dir.mpr h.tmp))
  · intro u hu
    rcases hdirs.made _ (Staging.view_dir.mpr hu) with hold | hobject | hsidecar
    · exact h.clean u (Staging.view_dir.mp hold)
    · exact m.slot.tmp_not_above_objectLoc d.root u hobject
    · exact m.slot.tmp_not_above_sidecarLoc d.root u hsidecar
  · intro p b hp hb
    rcases hchanged.file_cases hb with hobject | hsidecar | hold
    · exact ⟨m.slot, Or.inl hobject⟩
    · exact ⟨m.slot, Or.inr hsidecar⟩
    · exact h.owned p b hp hold
  · have hbefore : Described d settings (fileAt ((staging d.root).view fs)) := by
      intro slot raw hraw
      rw [fileAt_sidecar] at hraw
      rw [fileAt_object]
      exact h.described slot raw hraw
    intro slot raw hraw
    rw [← fileAt_sidecar] at hraw
    rw [← fileAt_object]
    exact described_turn hchanged hbefore slot raw hraw

theorem Kempt.history {turns : List (MutationTurn settings)}
    (h : Kempt d settings fs)
    (hturns : Histories d noFault (fun _ _ => True) fs turns fs') :
    Kempt d settings fs' :=
  History.invariant (I := fun _ s => Kempt d settings s) h
    (fun _ _ _ _ _ _ hs hrun _ => hs.turn hrun) hturns

end Turn

end StorybookStorage
