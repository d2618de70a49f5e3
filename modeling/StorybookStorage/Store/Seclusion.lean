import StorybookStorage.Store.Refusal

/-!
# Slots that others cannot reach

A put needs the folders of its key, and of its sidecar, for itself.  The slots
whose folders meet its own are its neighbours.  What is stored in a set of slots
that has all neighbours of the slots put in it, and what puts into it answer,
does not depend on anything done outside of it.
-/

namespace StorybookStorage

open Python Posix Effects Contract FileTree

variable {settings : Settings} {d : LocalFsBlobDriver}

/-!
## Neighbours
-/

/-- The key below goes on where the key, or the name of its sidecar, ends. -/
structure Above (slot below : Slot settings) : Prop where
  bucket : slot.bucket = below.bucket
  key : slot.key ++ ['/'] <+: below.key ∨ slot.key ++ text ".json/" <+: below.key

section Above

variable {slot below : Slot settings} {root : Text}

theorem Above.key_prefix (h : Above slot below) : slot.key <+: below.key := by
  rcases h.key with hkey | hkey
  · exact (List.prefix_append _ _).trans hkey
  · exact (List.prefix_append _ _).trans hkey

theorem above_of_objectLoc (h : slot.objectLoc root <+: below.objectLoc root)
    (hne : slot ≠ below) : Above slot below := by
  unfold Slot.objectLoc at h
  rw [List.prefix_append_right_inj, List.cons_prefix_cons, splitOn_prefix_iff] at h
  refine ⟨h.left, Or.inl (h.right.resolve_left ?_)⟩
  intro hkey
  exact hne (Slot.ext h.left hkey)

theorem above_of_sidecarLoc (h : slot.sidecarLoc root <+: below.sidecarLoc root)
    (hne : slot ≠ below) : Above slot below := by
  have hbucket : slot.bucket = below.bucket := by
    unfold Slot.sidecarLoc at h
    rw [List.prefix_append_right_inj, List.cons_prefix_cons,
      List.cons_prefix_cons] at h
    exact h.right.left
  rw [sidecarLoc_prefix_iff hbucket] at h
  exact ⟨hbucket, Or.inr (h.resolve_left hne)⟩

end Above

/-!
## Files on the way
-/

section Way

variable {slot : Slot settings} {fs : FileTree} {q : Path}

theorem Kempt.below_root {p : Path} (hkempt : Kempt d settings fs)
    (hroot : resolve d.root <+: p) (hq : q <+: p) (hfile : fs.isFile q = true) :
    resolve d.root <+: q := by
  rcases isFile_iff.mp hfile with ⟨i, hi⟩
  rcases List.prefix_or_prefix_of_prefix hq hroot with habove | hbelow
  · rw [hkempt.sound.dir_of_prefix hkempt.tmp
      (habove.trans (List.prefix_append _ _))] at hi
    cases hi
  · exact hbelow

theorem Kempt.owner (hkempt : Kempt d settings fs)
    (hroot : resolve d.root <+: q) (hvisible : ¬ (staging d.root).Hidden q)
    (hfile : fs.isFile q = true) :
    exists slot : Slot settings,
      q = slot.objectLoc d.root ∨ q = slot.sidecarLoc d.root := by
  rcases Option.isSome_iff_exists.mp hfile with ⟨b, hb⟩
  exact hkempt.owned q b hroot
    (fileAt_eq_some.mpr ((view_of_content hvisible).mpr hb))

theorem Kempt.object_on_way (hkempt : Kempt d settings fs)
    (hq : q <+: (slot.objectLoc d.root).dropLast) (hfile : fs.isFile q = true) :
    exists above : Slot settings, q = above.objectLoc d.root ∧
      Above above slot := by
  have hloc := hq.trans (List.dropLast_prefix _)
  have hroot := hkempt.below_root (List.prefix_append _ _) hloc hfile
  rcases hkempt.owner hroot (slot.visible_of_prefix_objectLoc hloc) hfile with
    ⟨above, rfl | rfl⟩
  · refine ⟨above, rfl, above_of_objectLoc hloc ?_⟩
    intro heq
    subst heq
    exact Slot.not_prefix_dropLast (above.objectLoc_ne_nil d.root) hq
  · exact absurd hloc (slot.sidecarLoc_not_below_objectLoc d.root above)

variable (d slot) in
def Unlittered (fs : FileTree) : Prop :=
  forall q, q <+: (slot.sidecarLoc d.root).dropLast -> fs.isFile q = true ->
    ¬ (staging d.root).Hidden q

theorem Kempt.sidecar_on_way (hkempt : Kempt d settings fs)
    (hclear : Unlittered d slot fs)
    (hq : q <+: (slot.sidecarLoc d.root).dropLast) (hfile : fs.isFile q = true) :
    exists above : Slot settings, q = above.sidecarLoc d.root ∧
      Above above slot := by
  have hloc := hq.trans (List.dropLast_prefix _)
  have hroot := hkempt.below_root (List.prefix_append _ _) hloc hfile
  rcases hkempt.owner hroot (hclear q hq hfile) hfile with ⟨above, rfl | rfl⟩
  · exact absurd hloc (above.objectLoc_not_below_meta d.root slot)
  · refine ⟨above, rfl, above_of_sidecarLoc hloc ?_⟩
    intro heq
    subst heq
    exact Slot.not_prefix_dropLast (above.sidecarLoc_ne_nil d.root) hq

theorem Kempt.head {fs' : FileTree} {trace : List (Sigma calls.Ret)}
    {o : Except Exn (Option ObjectInfo)} (h : Kempt d settings fs)
    (hrun : (system noFault).machine.Runs fs (d.head slot.bucket slot.key) trace o
      fs') : Kempt d settings fs' := by
  have hsame := (head_exact hrun).right
  have hview : (staging d.root).view fs' = (staging d.root).view fs :=
    (head_runs solo_noFault h.sound hrun).right.left
  constructor
  · exact runs_sound h.sound hrun
  · rw [hsame.node]
    exact h.tmp
  · rw [hsame.node]
    exact h.clean
  · rw [hview]
    exact h.owned
  · intro slot raw hraw
    rw [← fileAt_sidecar, hview, fileAt_sidecar] at hraw
    rw [← fileAt_object, hview, fileAt_object]
    exact h.described slot raw hraw

end Way

/-!
## Two trees
-/

variable (d) in
/-- The same is stored in a set of slots, and the same stands in the way of
those of them that are put. -/
structure Agrees (zone put : Slot settings -> Prop) (fs fs' : FileTree) :
    Prop where
  objects : forall slot, zone slot ->
    storedObject d slot fs' = storedObject d slot fs
  sidecars : forall slot, zone slot ->
    (storedSidecar d slot fs').isSome = (storedSidecar d slot fs).isSome
  objectDirs : forall slot, zone slot -> put slot ->
    (fs'.node (slot.objectLoc d.root) = some Node.dir <->
      fs.node (slot.objectLoc d.root) = some Node.dir)
  sidecarDirs : forall slot, zone slot -> put slot ->
    (fs'.node (slot.sidecarLoc d.root) = some Node.dir <->
      fs.node (slot.sidecarLoc d.root) = some Node.dir)

/-- The neighbours of a slot of the set that is put are in the set. -/
def Enclosed (zone put : Slot settings -> Prop) : Prop :=
  forall slot slot', zone slot -> put slot ->
    Above slot slot' ∨ Above slot' slot -> zone slot'

section Agrees

variable {zone put : Slot settings -> Prop} {slot : Slot settings}
  {fs gs fs' gs' : FileTree}

theorem Agrees.symm (h : Agrees d zone put fs gs) : Agrees d zone put gs fs where
  objects := fun slot hslot => (h.objects slot hslot).symm
  sidecars := fun slot hslot => (h.sidecars slot hslot).symm
  objectDirs := fun slot hslot hput => (h.objectDirs slot hslot hput).symm
  sidecarDirs := fun slot hslot hput => (h.sidecarDirs slot hslot hput).symm

theorem Agrees.trans (h : Agrees d zone put fs gs)
    (h' : Agrees d zone put gs gs') : Agrees d zone put fs gs' where
  objects := fun slot hslot => (h'.objects slot hslot).trans (h.objects slot hslot)
  sidecars := fun slot hslot =>
    (h'.sidecars slot hslot).trans (h.sidecars slot hslot)
  objectDirs := fun slot hslot hput =>
    (h'.objectDirs slot hslot hput).trans (h.objectDirs slot hslot hput)
  sidecarDirs := fun slot hslot hput =>
    (h'.sidecarDirs slot hslot hput).trans (h.sidecarDirs slot hslot hput)

theorem agrees_refl (fs : FileTree) : Agrees d zone put fs fs where
  objects := fun _ _ => rfl
  sidecars := fun _ _ => rfl
  objectDirs := fun _ _ _ => Iff.rfl
  sidecarDirs := fun _ _ _ => Iff.rfl

theorem Agrees.step (h : Agrees d zone put fs gs)
    (hleft : Agrees d zone put fs fs') (hright : Agrees d zone put gs gs') :
    Agrees d zone put fs' gs' :=
  hleft.symm.trans (h.trans hright)

theorem agrees_outside {m : Mutation settings} {trace : List (Sigma calls.Ret)}
    {o : Except Exn Reply} (henclosed : Enclosed zone put) (hsound : fs.Sound)
    (hrun : (system noFault).machine.Runs fs (m.run d) trace o fs')
    (hzone : ¬ zone m.slot) : Agrees d zone put fs fs' := by
  have hchanged := (Mutation.run_changed solo_noFault hsound hrun).right
  have hdirs := Mutation.run_furthered solo_noFault hsound hrun
  have hne : forall slot, zone slot -> slot ≠ m.slot := by
    intro slot hslot heq
    subst heq
    exact hzone hslot
  have hmade : forall q, fs'.node q = some Node.dir ->
      fs.node q = some Node.dir ∨ q <+: m.slot.objectLoc d.root ∨
        q <+: m.slot.sidecarLoc d.root := by
    intro q hq
    exact (hdirs.made q (Staging.view_dir.mpr hq)).imp_left Staging.view_dir.mp
  constructor
  · intro slot hslot
    rw [← fileAt_object, ← fileAt_object]
    exact (hchanged.others (hne slot hslot)).left
  · intro slot hslot
    rw [← fileAt_sidecar, ← fileAt_sidecar,
      (hchanged.others (hne slot hslot)).right]
  · intro slot hslot hput
    refine ⟨?_, runs_dir hrun⟩
    intro hdir
    rcases hmade _ hdir with hold | hway | hway
    · exact hold
    · exact absurd (henclosed slot m.slot hslot hput
        (Or.inl (above_of_objectLoc hway (hne slot hslot)))) hzone
    · exact absurd hway (slot.objectLoc_not_below_meta d.root m.slot)
  · intro slot hslot hput
    refine ⟨?_, runs_dir hrun⟩
    intro hdir
    rcases hmade _ hdir with hold | hway | hway
    · exact hold
    · exact absurd hway (m.slot.sidecarLoc_not_below_objectLoc d.root slot)
    · exact absurd (henclosed slot m.slot hslot hput
        (Or.inl (above_of_sidecarLoc hway (hne slot hslot)))) hzone

theorem Agrees.hindered {data : Data} (h : Agrees d zone put fs gs)
    (henclosed : Enclosed zone put) (hkempt : Kempt d settings fs)
    (hzone : zone slot) (hput : put slot) (hhindered : Hindered d slot fs data) :
    Hindered d slot gs data := by
  cases hhindered with
  | source hraises => exact Hindered.source hraises
  | directory hdir =>
      exact Hindered.directory ((h.objectDirs slot hzone hput).mpr hdir)
  | file q b hq hb =>
      rcases hkempt.object_on_way hq (Option.isSome_iff_exists.mpr ⟨b, hb⟩) with
        ⟨above, rfl, habove⟩
      have hsame := h.objects above
        (henclosed slot above hzone hput (Or.inr habove))
      exact Hindered.file _ b hq (hsame.trans hb)

theorem Agrees.walled (h : Agrees d zone put fs gs)
    (henclosed : Enclosed zone put) (hkempt : Kempt d settings fs)
    (hclear : Unlittered d slot fs) (hzone : zone slot) (hput : put slot)
    (hwalled : Walled d slot fs) : Walled d slot gs := by
  cases hwalled with
  | directory hdir =>
      exact Walled.directory ((h.sidecarDirs slot hzone hput).mpr hdir)
  | file q hq hfile =>
      rcases hkempt.sidecar_on_way hclear hq hfile with ⟨above, rfl, habove⟩
      have hsame := h.sidecars above
        (henclosed slot above hzone hput (Or.inr habove))
      exact Walled.file _ hq (hsame.trans hfile)

theorem Agrees.vacant {condition : Option Text} (h : Agrees d zone put fs gs)
    (hzone : zone slot) (hput : put slot) (hvacant : Vacant d slot fs condition) :
    Vacant d slot gs condition := by
  intro hcond
  have hnone := node_none_iff.mp (hvacant hcond)
  apply node_none_iff.mpr
  constructor
  · intro hdir
    exact hnone.left ((h.objectDirs slot hzone hput).mp hdir)
  · have hsame := congrArg Option.isSome (h.objects slot hzone)
    exact hsame.trans hnone.right

end Agrees

/-!
## The same call on two trees
-/

inductive SameVerdict : Except Exn PutResult -> Except Exn PutResult -> Prop where
  | returned (r : PutResult) : SameVerdict (Except.ok r) (Except.ok r)
  | raised (e : Exn) : SameVerdict (Except.error e) (Except.error e)
  | blocked (n n' : Errno) :
      SameVerdict (Except.error (Exn.storageIoError n))
        (Except.error (Exn.storageIoError n'))

section Answers

variable {slot : Slot settings} {fs : FileTree} {data : Data}
  {ifNoneMatch : Option Text} {o : Except Exn PutResult}

theorem PutAnswer.met (h : PutAnswer d slot fs data ifNoneMatch o)
    (hno : ¬ Vacant d slot fs ifNoneMatch) :
    (fs.node (slot.objectLoc d.root) = some Node.dir ∧
        o = Except.ok (LocalFsBlobDriver.dedupResult none)) ∨
      exists b, storedObject d slot fs = some b ∧
        o = Except.ok
          { etag := Json.str (knownEtag d slot fs b)
            bytes := b.length
            deduped := true } := by
  cases h with
  | directory _ hdir => exact Or.inl ⟨hdir, rfl⟩
  | object b _ hb => exact Or.inr ⟨b, hb, rfl⟩
  | refused e hvacant _ => exact absurd hvacant hno
  | stored hvacant _ => exact absurd hvacant hno

theorem vacant_cases (h : Vacant d slot fs ifNoneMatch)
    (hcond : ifNoneMatch = some (text "*")) :
    fs.node (slot.objectLoc d.root) ≠ some Node.dir ∧
      storedObject d slot fs = none := by
  have hnone := h hcond
  exact ⟨by rw [hnone]; simp, storedObject_of_none hnone⟩

theorem PutAnswer.raises (h : PutAnswer d slot fs data ifNoneMatch o)
    (hvacant : Vacant d slot fs ifNoneMatch) (hhindered : Hindered d slot fs data) :
    exists e, o = Except.error e := by
  cases h with
  | directory hcond hdir =>
      exact absurd hdir (vacant_cases hvacant hcond).left
  | object b hcond hb =>
      rw [(vacant_cases hvacant hcond).right] at hb
      cases hb
  | refused e _ _ => exact ⟨e, rfl⟩
  | stored _ hfree => exact absurd hhindered hfree

end Answers

section Calls

variable {zone put : Slot settings -> Prop} {slot : Slot settings}
  {fs gs fs' gs' : FileTree} {ftrace gtrace : List (Sigma calls.Ret)}

theorem Agrees.knownEtag (h : Agrees d zone put fs gs) (hzone : zone slot)
    (b : Bytes) : knownEtag d slot gs b = knownEtag d slot fs b := by
  unfold StorybookStorage.knownEtag
  rw [← Option.not_isSome, ← Option.not_isSome, h.sidecars slot hzone]

theorem Agrees.head {fo go : Except Exn (Option ObjectInfo)}
    (h : Agrees d zone put fs gs) (hzone : zone slot)
    (hf : HeadAnswer d slot fs fo) (hg : HeadAnswer d slot gs go) :
    (fo = Except.ok none ∧ go = Except.ok none) ∨
      exists finfo ginfo, fo = Except.ok (some finfo) ∧
        go = Except.ok (some ginfo) ∧ ginfo.bytes = finfo.bytes ∧
        ginfo.etag = finfo.etag := by
  have hobject := h.objects slot hzone
  cases hf with
  | absent hnone =>
      cases hg with
      | absent _ => exact Or.inl ⟨rfl, rfl⟩
      | present b info hb _ _ =>
          rw [hobject, hnone] at hb
          cases hb
  | present b info hb hbytes hetag =>
      cases hg with
      | absent hnone =>
          rw [hobject, hb] at hnone
          cases hnone
      | present b' info' hb' hbytes' hetag' =>
          rw [hobject, hb] at hb'
          cases hb'
          refine Or.inr ⟨info, info', rfl, rfl, hbytes'.trans hbytes.symm, ?_⟩
          rw [hetag', hetag, h.knownEtag hzone]

theorem Agrees.put_verdict {data : Data} {contentType : Text}
    {ifNoneMatch : Option Text} {metadata : Option Metadata}
    {fo go : Except Exn PutResult} (h : Agrees d zone put fs gs)
    (henclosed : Enclosed zone put) (hkf : Kempt d settings fs)
    (hkg : Kempt d settings gs) (hzone : zone slot) (hput : put slot)
    (hf : (system noFault).machine.Runs fs
      (d.put slot.bucket slot.key data contentType ifNoneMatch metadata) ftrace fo
      fs')
    (hg : (system noFault).machine.Runs gs
      (d.put slot.bucket slot.key data contentType ifNoneMatch metadata) gtrace go
      gs') : SameVerdict fo go := by
  have hfa := hkf.put_answer hf
  have hga := hkg.put_answer hg
  have hobject := h.objects slot hzone
  have hdirs := h.objectDirs slot hzone hput
  by_cases hvacant : Vacant d slot fs ifNoneMatch
  · have hvacant' := h.vacant hzone hput hvacant
    by_cases hhindered : Hindered d slot fs data
    · have hhindered' := h.hindered henclosed hkf hzone hput hhindered
      rcases hfa.raises hvacant hhindered with ⟨e, rfl⟩
      rcases hga.raises hvacant' hhindered' with ⟨e', rfl⟩
      cases (put_course hf).raises hkf rfl with
      | source e0 hend _ =>
          cases (put_course hg).raises hkg rfl with
          | source e1 hend' _ =>
              rw [hend] at hend'
              cases hend'
              exact SameVerdict.raised _
          | way n hend' =>
              rw [hend] at hend'
              cases hend'
      | way n hend =>
          cases (put_course hg).raises hkg rfl with
          | source e1 hend' _ =>
              rw [hend] at hend'
              cases hend'
          | way n' _ => exact SameVerdict.blocked n n'
    · have hfree' : ¬ Hindered d slot gs data := fun hno =>
        hhindered (h.symm.hindered henclosed hkg hzone hput hno)
      rcases hfa.stores with ⟨_, rfl⟩ | ⟨hno, _⟩
      · rcases hga.stores with ⟨_, rfl⟩ | ⟨hno, _⟩
        · exact SameVerdict.returned _
        · exact absurd ⟨hvacant', hfree'⟩ hno
      · exact absurd ⟨hvacant, hhindered⟩ hno
  · have hno' : ¬ Vacant d slot gs ifNoneMatch := fun hno =>
      hvacant (h.symm.vacant hzone hput hno)
    rcases hfa.met hvacant with ⟨hdir, rfl⟩ | ⟨b, hb, rfl⟩
    · rcases hga.met hno' with ⟨_, rfl⟩ | ⟨b', hb', _⟩
      · exact SameVerdict.returned _
      · rw [hobject, storedObject_of_dir hdir] at hb'
        cases hb'
    · rcases hga.met hno' with ⟨hdir', _⟩ | ⟨b', hb', rfl⟩
      · rw [storedObject_of_dir (hdirs.mp hdir')] at hb
        cases hb
      · rw [hobject, hb] at hb'
        cases hb'
        rw [h.knownEtag hzone]
        exact SameVerdict.returned _

theorem agrees_of_same
    (hfiles : fileAt ((staging d.root).view fs') =
      fileAt ((staging d.root).view fs)) (hdirs : SameDirs fs fs') :
    Agrees d zone put fs fs' where
  objects := by
    intro slot _
    rw [← fileAt_object, hfiles, fileAt_object]
  sidecars := by
    intro slot _
    rw [← fileAt_sidecar, hfiles, fileAt_sidecar]
  objectDirs := fun _ _ _ => hdirs _
  sidecarDirs := fun _ _ _ => hdirs _

theorem head_agrees {o : Except Exn (Option ObjectInfo)}
    (hrun : (system noFault).machine.Runs fs (d.head slot.bucket slot.key) ftrace o
      fs') : Agrees d zone put fs fs' := by
  have hsame := (head_exact hrun).right
  apply agrees_of_same
  · unfold fileAt Staging.view look
    rw [hsame.node, hsame.inodes]
  · intro q
    rw [hsame.node]

theorem deleted_exact {o : Except Exn Bool} (hkempt : Kempt d settings fs)
    (hrun : (system noFault).machine.Runs fs (d.delete slot.bucket slot.key) ftrace
      o fs') :
    o = Except.ok (storedObject d slot fs).isSome ∧
      storedObject d slot fs' = none ∧ storedSidecar d slot fs' = none ∧
      forall other, other ≠ slot ->
        storedObject d other fs' = storedObject d other fs ∧
          storedSidecar d other fs' = storedSidecar d other fs := by
  have hmutation := hrun.map Reply.delete
  have hchanged := (Mutation.run_changed (m := Mutation.delete slot) solo_noFault
    hkempt.sound hmutation).right
  have hothers : forall other, other ≠ slot ->
      storedObject d other fs' = storedObject d other fs ∧
        storedSidecar d other fs' = storedSidecar d other fs := by
    intro other hne
    rw [← fileAt_object, ← fileAt_object, ← fileAt_sidecar, ← fileAt_sidecar]
    exact hchanged.others hne
  have hne := slot.objectLoc_ne_sidecarLoc d.root slot
  generalize ho : o.map Reply.delete = o' at hchanged
  cases hchanged with
  | deleted _ existed cleaned hfiles hgone hstays hleft =>
      have hanswer : o = Except.ok existed := by
        cases o with
        | error e => cases ho
        | ok b =>
            cases ho
            rfl
      rw [fileAt_object] at hgone hstays
      rw [fileAt_sidecar] at hleft
      refine ⟨?_, ?_, ?_, hothers⟩
      · rw [hanswer]
        cases existed with
        | true => rw [Option.isSome_iff_ne_none.mpr (hgone rfl)]
        | false => rw [(hstays rfl).resolve_left id]; rfl
      · rw [← fileAt_object, hfiles, unlinkedIf_of_ne hne]
        cases existed with
        | true => exact unlinkedIf_true
        | false => exact fileAt_object.trans ((hstays rfl).resolve_left id)
      · rw [← fileAt_sidecar, hfiles]
        cases cleaned with
        | true => exact unlinkedIf_true
        | false =>
            refine Eq.trans ?_ ((hleft rfl).resolve_left id)
            rw [← fileAt_sidecar]
            exact unlinkedIf_of_ne hne.symm

section Put

variable {data : Data} {contentType : Text} {ifNoneMatch : Option Text}
  {metadata : Option Metadata}

variable (d) in
structure Landed (slot : Slot settings) (data : Data) (fs fs' : FileTree) :
    Prop where
  own : storedObject d slot fs' = some data.body
  sidecar : (storedSidecar d slot fs').isSome = true <-> ¬ Walled d slot fs
  objects : forall other, other ≠ slot ->
    storedObject d other fs' = storedObject d other fs
  sidecars : forall other, other ≠ slot ->
    storedSidecar d other fs' = storedSidecar d other fs
  dirs : forall q, fs'.node q = some Node.dir <->
    fs.node q = some Node.dir ∨ q <+: (slot.objectLoc d.root).dropLast ∨
      (¬ Walled d slot fs ∧ q <+: (slot.sidecarLoc d.root).dropLast)

theorem Kempt.put_lands {o : Except Exn PutResult} (hkempt : Kempt d settings fs)
    (hrun : (system noFault).machine.Runs fs
      (d.put slot.bucket slot.key data contentType ifNoneMatch metadata) ftrace o
      fs') :
    (exists result, o = Except.ok result ∧ result.deduped = false ∧
        Landed d slot data fs fs') ∨
      ((forall r, o = Except.ok r -> r.deduped = true) ∧
        fileAt ((staging d.root).view fs') = fileAt ((staging d.root).view fs) ∧
        SameDirs fs fs') := by
  rcases put_runs solo_noFault hkempt.sound hrun with ⟨hsound', heffect⟩
  rcases heffect.files (housed_of_sound hkempt.sound) with
    ⟨hdeduped, hfiles⟩ | ⟨rfl, hstored⟩
  · exact Or.inr ⟨hdeduped, hfiles, hkempt.put_sameDirs hrun hdeduped⟩
  · refine Or.inl ⟨_, rfl, rfl, ?_⟩
    have hothers : forall other, other ≠ slot ->
        storedObject d other fs' = storedObject d other fs ∧
          storedSidecar d other fs' = storedSidecar d other fs := by
      intro other hne
      rw [← fileAt_object, ← fileAt_object, ← fileAt_sidecar, ← fileAt_sidecar]
      exact hstored.others hne
    exact
      { own := by
          rw [← fileAt_object]
          exact hstored.own
        sidecar := by
          cases put_recording hkempt.sound hrun rfl with
          | recorded now hfree hraw => simp [hraw, hfree]
          | walled hwalled hnone => simp [hnone, hwalled]
        objects := fun other hne => (hothers other hne).left
        sidecars := fun other hne => (hothers other hne).right
        dirs := fun q => hkempt.put_dirs hrun rfl q }

theorem Landed.agrees (h : Agrees d zone put fs gs)
    (hf : Landed d slot data fs fs') (hg : Landed d slot data gs gs')
    (hwalled : Walled d slot gs <-> Walled d slot fs) :
    Agrees d zone put fs' gs' := by
  constructor
  · intro other hzone
    by_cases hne : other = slot
    · rw [hne, hf.own, hg.own]
    · rw [hf.objects other hne, hg.objects other hne, h.objects other hzone]
  · intro other hzone
    by_cases hne : other = slot
    · rw [hne, Bool.eq_iff_iff, hf.sidecar, hg.sidecar, hwalled]
    · rw [hf.sidecars other hne, hg.sidecars other hne, h.sidecars other hzone]
  · intro other hzone hput
    rw [hf.dirs, hg.dirs, hwalled, h.objectDirs other hzone hput]
  · intro other hzone hput
    rw [hf.dirs, hg.dirs, hwalled, h.sidecarDirs other hzone hput]

theorem Agrees.put_agrees {fo go : Except Exn PutResult} (h : Agrees d zone put fs gs)
    (henclosed : Enclosed zone put) (hkf : Kempt d settings fs)
    (hkg : Kempt d settings gs) (hcf : Unlittered d slot fs)
    (hcg : Unlittered d slot gs) (hzone : zone slot) (hput : put slot)
    (hf : (system noFault).machine.Runs fs
      (d.put slot.bucket slot.key data contentType ifNoneMatch metadata) ftrace fo
      fs')
    (hg : (system noFault).machine.Runs gs
      (d.put slot.bucket slot.key data contentType ifNoneMatch metadata) gtrace go
      gs') :
    SameVerdict fo go ∧ Agrees d zone put fs' gs' := by
  have hverdict := h.put_verdict henclosed hkf hkg hzone hput hf hg
  refine ⟨hverdict, ?_⟩
  rcases hkf.put_lands hf with
    ⟨r, rfl, hfresh, hlands⟩ | ⟨hkeeps, hfiles, hdirs⟩
  · rcases hkg.put_lands hg with
      ⟨r', _, _, hlands'⟩ | ⟨hkeeps', _⟩
    · apply Landed.agrees h hlands hlands'
      constructor
      · exact h.symm.walled henclosed hkg hcg hzone hput
      · exact h.walled henclosed hkf hcf hzone hput
    · cases hverdict with
      | returned r =>
          rw [hkeeps' _ rfl] at hfresh
          cases hfresh
  · rcases hkg.put_lands hg with
      ⟨r', rfl, hfresh, _⟩ | ⟨_, hfiles', hdirs'⟩
    · cases hverdict with
      | returned r =>
          rw [hkeeps _ rfl] at hfresh
          cases hfresh
    · exact h.step (agrees_of_same hfiles hdirs) (agrees_of_same hfiles' hdirs')

end Put

/-- A delete in the set answers the same, and leaves the two trees in
agreement. -/
theorem Agrees.delete_agrees {fo go : Except Exn Bool} (h : Agrees d zone put fs gs)
    (hkf : Kempt d settings fs) (hkg : Kempt d settings gs) (hzone : zone slot)
    (hf : (system noFault).machine.Runs fs (d.delete slot.bucket slot.key) ftrace
      fo fs')
    (hg : (system noFault).machine.Runs gs (d.delete slot.bucket slot.key) gtrace
      go gs') :
    (exists existed, fo = Except.ok existed ∧ go = Except.ok existed) ∧
      Agrees d zone put fs' gs' := by
  rcases deleted_exact hkf hf with ⟨hfo, hfobject, hfsidecar, hfothers⟩
  rcases deleted_exact hkg hg with ⟨hgo, hgobject, hgsidecar, hgothers⟩
  rw [h.objects slot hzone] at hgo
  refine ⟨⟨_, hfo, hgo⟩, ?_⟩
  constructor
  · intro other hother
    by_cases hne : other = slot
    · rw [hne, hfobject, hgobject]
    · rw [(hfothers other hne).left, (hgothers other hne).left,
        h.objects other hother]
  · intro other hother
    by_cases hne : other = slot
    · rw [hne, hfsidecar, hgsidecar]
    · rw [(hfothers other hne).right, (hgothers other hne).right,
        h.sidecars other hother]
  · intro other hother hput
    rw [delete_sameDirs hf, delete_sameDirs hg, h.objectDirs other hother hput]
  · intro other hother hput
    rw [delete_sameDirs hf, delete_sameDirs hg, h.sidecarDirs other hother hput]

end Calls

end StorybookStorage
