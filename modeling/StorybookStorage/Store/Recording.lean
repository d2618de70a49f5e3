import StorybookStorage.Posix.Directories
import StorybookStorage.Store.Litter

/-!
# When a sidecar is written

Without faults a put that stores its body writes the sidecar as well, unless a
directory lies at the sidecar's place or a file on the way to it.
-/

namespace StorybookStorage

open Python Posix Effects Contract FileTree

variable {settings : Settings} (d : LocalFsBlobDriver) (slot : Slot settings)

inductive Walled (fs : FileTree) : Prop where
  | directory :
      fs.node (slot.sidecarLoc d.root) = some Node.dir ->
      Walled fs
  | file (q : Path) :
      q <+: (slot.sidecarLoc d.root).dropLast ->
      fs.isFile q = true ->
      Walled fs

variable {d slot} {fs fs' : FileTree} {trace : List (Sigma calls.Ret)}

/-!
## The course of a sidecar
-/

section Course

variable {fs1 fs2 fs3 fs4 fs5 : FileTree} {now : Rat} {u : Text} {fh : Nat}
  {body : Bytes} {r1 r2 : Except Errno Unit}

theorem time_same (h : (system noFault).machine.Step fs Call.time now fs1) :
    fs1 = fs := quiet_same (by trivial) h

theorem step_file_old {allow : Policy} {c : Call} {r : Call.Ret c} {q : Path}
    (h : (system allow).machine.Step fs c r fs') (hq : fs'.isFile q = true) :
    fs.isFile q = true ∨ q ∈ placesFile c r := by
  rcases h with ⟨ch, _, hexec⟩
  rcases isFile_iff.mp hq with ⟨i, hi⟩
  exact (exec_file hexec hi).imp_left fun hold => isFile_iff.mpr ⟨i, hold⟩

theorem step_file_old_of_nil {allow : Policy} {c : Call} {r : Call.Ret c}
    {q : Path} (h : (system allow).machine.Step fs c r fs')
    (hc : placesFile c r = []) (hq : fs'.isFile q = true) :
    fs.isFile q = true := by
  rcases step_file_old h hq with hold | hplaced
  · exact hold
  · rw [hc] at hplaced
    cases hplaced

theorem makedirs_ok (hfree : ¬ Walled d slot fs) {r : Except Errno Unit}
    (h : (system noFault).machine.Step fs
      (Call.makedirs (dirname (slot.sidecarText d.root))) r fs1) :
    r = Except.ok () := by
  cases r with
  | ok _ => rfl
  | error n =>
      rcases step_unmade h with ⟨q, hq, hfile⟩
      rw [slot.resolve_dirname_sidecarText] at hq
      exact absurd (Walled.file q hq hfile) hfree

structure Prepared (d : LocalFsBlobDriver) (slot : Slot settings) (u : Text)
    (fs : FileTree) : Prop where
  token : IsToken u
  parent : fs.node (slot.sidecarLoc d.root).dropLast = some Node.dir
  vacant : fs.node (resolve (sidecarTmp (slot.sidecarText d.root) u)) = none

theorem prepared (hsound : fs.Sound)
    (hmake : (system noFault).machine.Step fs
      (Call.makedirs (dirname (slot.sidecarText d.root))) (Except.ok ()) fs1)
    (hdraw : (system noFault).machine.Step fs1 Call.uuid4 u fs2) :
    Prepared d slot u fs2 := by
  have htoken := (drawn_unnamed hdraw).left
  refine ⟨htoken, ?_, drawn_vacant hdraw (slot.place_sidecarTmp htoken)⟩
  have hmade := step_made hsound.root hmake
  rw [slot.resolve_dirname_sidecarText] at hmade
  exact step_dir hdraw hmade

theorem Prepared.opens {r : Except Errno Nat} (h : Prepared d slot u fs)
    (hopen : (system noFault).machine.Step fs
      (Call.openWrite (sidecarTmp (slot.sidecarText d.root) u)) r fs1) :
    exists fh, r = Except.ok fh := by
  cases r with
  | ok fh => exact ⟨fh, rfl⟩
  | error n =>
      rcases step_unopened hopen with hdir | hparent
      · rw [h.vacant] at hdir
        cases hdir
      · rcases slot.resolve_sidecarTmp d.root h.token with ⟨name, hname⟩
        rw [hname, List.dropLast_concat] at hparent
        exact absurd h.parent hparent

theorem filled_dir {q : Path}
    (hopen : (system noFault).machine.Step fs
      (Call.openWrite (sidecarTmp (slot.sidecarText d.root) u)) (Except.ok fh)
      fs1)
    (hwrite : (system noFault).machine.Step fs1 (Call.write fh body) r1 fs2)
    (hclose : (system noFault).machine.Step fs2 (Call.close fh) r2 fs3) :
    fs3.node q = some Node.dir <-> fs.node q = some Node.dir := by
  rw [step_dir_iff hclose (by simp), step_dir_iff hwrite (by simp),
    step_dir_iff hopen (by simp)]

/-- With nothing in the way a sidecar is renamed into its place, and until then
there is no other new file than the one that is renamed. -/
theorem SidecarCourse.renames_of_free (hsound : fs.Sound)
    (hfree : ¬ Walled d slot fs)
    (h : SidecarCourse (system noFault).machine (slot.sidecarText d.root) fs trace
      fs') :
    exists fs0 u, IsToken u ∧
      (system noFault).machine.Step fs0
        (Call.rename (sidecarTmp (slot.sidecarText d.root) u)
          (slot.sidecarText d.root)) (Except.ok ()) fs' ∧
      forall q, fs0.isFile q = true -> fs.isFile q = true ∨
        q = resolve (sidecarTmp (slot.sidecarText d.root) u) := by
  cases h with
  | unmade fs1 fs' now n htime hmake =>
      cases time_same htime
      cases makedirs_ok hfree hmake
  | unopened fs1 fs2 fs3 fs' now u n htime hmake hdraw hopen =>
      cases time_same htime
      rcases (prepared hsound hmake hdraw).opens hopen with ⟨fh, hno⟩
      cases hno
  | unwritten fs1 fs2 fs3 fs4 fs5 fs' now u fh body r1 r2 _ _ _ hopen hwrite
      hclose hbroken =>
      cases step_write hwrite (step_opened hopen)
      cases step_close hclose
      rcases hbroken with ⟨n, hno | hno⟩
      · cases hno
      · cases hno
  | written fs1 fs2 fs3 fs4 fs5 fs6 fs' now u fh body r htime hmake hdraw hopen
      hwrite hclose hmove =>
      cases time_same htime
      have hready := prepared hsound hmake hdraw
      have hstaged := step_stays hclose rfl
        (step_stays hwrite rfl (opened_file hopen))
      cases r with
      | ok _ =>
          refine ⟨fs6, u, hready.token, hmove, ?_⟩
          intro q hq
          have hwritten := step_file_old_of_nil hclose rfl hq
          have hopened := step_file_old_of_nil hwrite rfl hwritten
          rcases step_file_old hopen hopened with hdrawn | hplaced
          · have hmade := step_file_old_of_nil hdraw rfl hdrawn
            exact Or.inl (step_file_old_of_nil hmake rfl hmade)
          · exact Or.inr (List.mem_singleton.mp hplaced)
      | error n =>
          have hblocked := step_unrenamed hmove hstaged
          rw [slot.resolve_sidecarText] at hblocked
          rcases hblocked with hdir | hparent
          · rw [filled_dir hopen hwrite hclose, step_dir_iff hdraw (by simp)]
              at hdir
            rcases step_dir_old hmake hdir with hold | ⟨t, ht, hway⟩
            · exact absurd (Walled.directory hold) hfree
            · cases ht
              rw [slot.resolve_dirname_sidecarText] at hway
              exact absurd hway
                (Slot.not_prefix_dropLast (slot.sidecarLoc_ne_nil d.root))
          · rw [ne_eq, filled_dir hopen hwrite hclose] at hparent
            exact absurd hready.parent hparent

theorem SidecarCourse.written_of_free (hsound : fs.Sound)
    (hfree : ¬ Walled d slot fs)
    (h : SidecarCourse (system noFault).machine (slot.sidecarText d.root) fs trace
      fs') : fs'.isFile (slot.sidecarLoc d.root) = true := by
  rcases h.renames_of_free hsound hfree with ⟨fs0, u, _, hmove, _⟩
  have hplaced := (step_renamed hmove).right.right
  rwa [slot.resolve_sidecarText] at hplaced

theorem SidecarCourse.file_old (hsound : fs.Sound) (hfree : ¬ Walled d slot fs)
    (h : SidecarCourse (system noFault).machine (slot.sidecarText d.root) fs trace
      fs') {q : Path} (hq : fs'.isFile q = true) :
    fs.isFile q = true ∨ q = slot.sidecarLoc d.root := by
  rcases h.renames_of_free hsound hfree with ⟨fs0, u, htoken, hmove, hold⟩
  rcases step_file_old hmove hq with hbefore | hplaced
  · rcases hold q hbefore with hfile | rfl
    · exact Or.inl hfile
    · have hgone := renamed_gone hmove (sidecarTmp_ne_sidecarText htoken)
      rw [hq] at hgone
      cases hgone
  · rw [← slot.resolve_sidecarText]
    exact Or.inr (List.mem_singleton.mp hplaced)

end Course

/-!
## A put takes no file away
-/

section Stays

variable {allow : Policy} {data : Data} {contentType : Text}
  {ifNoneMatch : Option Text} {metadata : Option Metadata}
  {o : Except Exn PutResult} {q : Path} {u : Text}

theorem not_place_of_file {fs0 : FileTree}
    (hdraw : (system allow).machine.Step fs0 Call.uuid4 u fs)
    (hq : fs.isFile q = true) : ¬ (staging d.root).Place u q := by
  intro hplace
  rcases isFile_iff.mp hq with ⟨i, hi⟩
  rw [drawn_vacant hdraw hplace] at hi
  cases hi

theorem step_stays_or {c : Call} {r : Call.Ret c}
    (h : (system allow).machine.Step fs c r fs') (hq : fs.isFile q = true) :
    fs'.isFile q = true ∨ q ∈ takesFile c r := by
  rcases h with ⟨ch, _, hexec⟩
  rcases isFile_iff.mp hq with ⟨i, hi⟩
  exact (exec_stays hexec hi).imp_left isFile_iff.mpr

theorem SidecarCourse.stays
    (h : SidecarCourse (system allow).machine (slot.sidecarText d.root) fs trace
      fs') (hq : fs.isFile q = true) : fs'.isFile q = true := by
  cases h with
  | unmade fs1 fs' now n htime hmake =>
      exact step_stays hmake rfl (step_stays htime rfl hq)
  | unopened fs1 fs2 fs3 fs' now u n htime hmake hdraw hopen =>
      exact step_stays hopen rfl (step_stays hdraw rfl
        (step_stays hmake rfl (step_stays htime rfl hq)))
  | unwritten fs1 fs2 fs3 fs4 fs5 fs' now u fh body r1 r2 htime hmake hdraw hopen
      hwrite hclose _ =>
      exact step_stays hclose rfl (step_stays hwrite rfl (step_stays hopen rfl
        (step_stays hdraw rfl (step_stays hmake rfl (step_stays htime rfl hq)))))
  | written fs1 fs2 fs3 fs4 fs5 fs6 fs' now u fh body r htime hmake hdraw hopen
      hwrite hclose hmove =>
      have hdrawn := step_stays hdraw rfl
        (step_stays hmake rfl (step_stays htime rfl hq))
      have hclosed := step_stays hclose rfl
        (step_stays hwrite rfl (step_stays hopen rfl hdrawn))
      rcases step_stays_or hmove hclosed with hkept | htaken
      · exact hkept
      · have hsrc : q = resolve (sidecarTmp (slot.sidecarText d.root) u) := by
          cases r with
          | ok _ => exact List.mem_singleton.mp htaken
          | error n => cases htaken
        refine absurd ?_ (not_place_of_file (d := d) hdraw hdrawn)
        rw [hsrc]
        exact slot.place_sidecarTmp (drawn_unnamed hdraw).left

theorem stage_stays {source : Source}
    {o : Except Exn (d.platform.sha256.State × Nat)} {fs0 : FileTree}
    (hdraw : (system allow).machine.Step fs0 Call.uuid4 u fs)
    (hrun : (system allow).machine.Runs fs
      (d.stage (tmpText d.root u) (slot.objectText d.root) source) trace o fs')
    (hq : fs.isFile q = true) : fs'.isFile q = true := by
  rcases isFile_iff.mp hq with ⟨i, hi⟩
  rcases runs_stays hrun hi with hkept | htaken
  · exact isFile_iff.mpr hkept
  · rcases List.mem_flatMap.mp htaken with ⟨⟨c, r⟩, hmem, hplace⟩
    have hsrc : q = resolve (tmpText d.root u) := by
      cases hrun.issues (stage_calls d) ⟨c, r⟩ hmem with
      | opens => cases hplace
      | fills c hlooks =>
          have hnames := takesFile_names hplace
          rw [looks_names hlooks] at hnames
          cases hnames
      | makes => cases hplace
      | moves =>
          cases r with
          | ok _ => exact List.mem_singleton.mp hplace
          | error n => cases hplace
    refine absurd ?_ (not_place_of_file (d := d) hdraw hq)
    rw [hsrc]
    exact place_tmpText (drawn_unnamed hdraw).left

/-- Whatever fails, a put replaces files, and removes none. -/
theorem Course.stays
    (h : Course d slot (system allow).machine data contentType ifNoneMatch
      metadata fs trace o fs') (hq : fs.isFile q = true) :
    fs'.isFile q = true := by
  cases h with
  | met fs0 fs' rest info _ hstep hhead =>
      have hlooks := hhead.issues (head_looks d slot.bucket slot.key)
      apply (runs_isFile hhead ?_).mpr (step_stays hstep rfl hq)
      intro e he
      rw [looks_names (hlooks e he)]
      exact List.not_mem_nil
  | failed fs0 fs1 fs2 fs' u before main e r henters hdraw hstage hremove =>
      cases henters.same
      have hdrawn := step_stays hdraw rfl hq
      have hstaged := stage_stays hdraw hstage hdrawn
      rcases step_stays_or hremove hstaged with hkept | htaken
      · exact hkept
      · have hsrc : q = resolve (tmpText d.root u) := by
          cases r with
          | ok _ => exact List.mem_singleton.mp htaken
          | error n => cases htaken
        refine absurd ?_ (not_place_of_file (d := d) hdraw hdrawn)
        rw [hsrc]
        exact place_tmpText (drawn_unnamed hdraw).left
  | stored fs0 fs1 fs2 fs' u before main side acc henters hdraw hstage hside =>
      cases henters.same
      have hstaged := stage_stays hdraw hstage (step_stays hdraw rfl hq)
      exact (sidecar_course d slot hside).stays hstaged

end Stays

/-!
## What a put leaves in the way
-/

section Walls

variable {data : Data} {contentType : Text} {ifNoneMatch : Option Text}
  {metadata : Option Metadata} {o : Except Exn PutResult} {u : Text}

theorem on_way_ne {root : Text} {q : Path}
    (hq : q <+: (slot.sidecarLoc root).dropLast) :
    q ≠ slot.objectLoc root ∧ q ≠ slot.sidecarLoc root ∧
      q ≠ resolve root ++ [tmpDir, u] := by
  have hbelow := hq.trans (List.dropLast_prefix _)
  refine ⟨?_, ?_, ?_⟩
  · intro heq
    subst heq
    exact slot.objectLoc_not_below_meta root slot hbelow
  · intro heq
    subst heq
    exact Slot.not_prefix_dropLast (slot.sidecarLoc_ne_nil root) hq
  · intro heq
    subst heq
    exact slot.tmp_not_above_sidecarLoc root u hbelow

theorem Walled.storedSidecar (hsound : fs.Sound) (h : Walled d slot fs) :
    storedSidecar d slot fs = none := by
  have hno : forall i, fs.node (slot.sidecarLoc d.root) ≠ some (Node.file i) := by
    intro i hi
    cases h with
    | directory hdir =>
        rw [hi] at hdir
        cases hdir
    | file q hq hfile =>
        have hparent := hsound.parent _ (slot.sidecarLoc_ne_nil d.root)
          (by rw [hi]; simp)
        rcases isFile_iff.mp hfile with ⟨j, hj⟩
        rw [hsound.dir_of_prefix hparent hq] at hj
        cases hj
  unfold StorybookStorage.storedSidecar content
  split
  · rename_i i hi
    exact absurd hi (hno i)
  · rfl

theorem Walled.put (h : Walled d slot fs)
    (hrun : (system noFault).machine.Runs fs
      (d.put slot.bucket slot.key data contentType ifNoneMatch metadata) trace o
      fs') : Walled d slot fs' := by
  cases h with
  | directory hdir => exact Walled.directory (runs_dir hrun hdir)
  | file q hq hfile => exact Walled.file q hq ((put_course hrun).stays hfile)

theorem stage_walled {fs0 : FileTree} {source : Source}
    {o : Except Exn (d.platform.sha256.State × Nat)}
    (hdraw : (system noFault).machine.Step fs0 Call.uuid4 u fs)
    (hrun : (system noFault).machine.Runs fs
      (d.stage (tmpText d.root u) (slot.objectText d.root) source) trace o fs')
    (h : Walled d slot fs') : Walled d slot fs0 := by
  have hcalls := hrun.issues (stage_calls d)
  cases h with
  | directory hdir =>
      rcases runs_dir_old hrun hdir with hold | ⟨t, r, hmem, hway⟩
      · rw [step_dir_iff hdraw (by simp)] at hold
        exact Walled.directory hold
      · cases hcalls _ hmem with
        | fills _ hlooks => exact absurd hlooks id
        | makes =>
            rw [slot.resolve_dirname_objectText] at hway
            exact absurd (hway.trans (List.dropLast_prefix _))
              (slot.sidecarLoc_not_below_objectLoc d.root slot)
  | file q hq hfile =>
      rcases on_way_ne (u := u) hq with ⟨hobject, _, htmp⟩
      rcases isFile_iff.mp hfile with ⟨i, hi⟩
      rcases runs_file hrun hi with ⟨j, hj⟩ | hplaced
      · apply Walled.file q hq
        exact step_file_old_of_nil hdraw rfl (isFile_iff.mpr ⟨j, hj⟩)
      · have hresolve := @resolve_tmpText d.root u (drawn_unnamed hdraw).left
        rcases stage_places hrun hplaced with ⟨htmp', _⟩ | ⟨hdest, _⟩
        · exact absurd (htmp'.trans hresolve) htmp
        · rw [slot.resolve_objectText] at hdest
          exact absurd hdest hobject

theorem stage_free {fs0 : FileTree} {source : Source}
    {o : Except Exn (d.platform.sha256.State × Nat)} (hsound : fs0.Sound)
    (hfree : ¬ Walled d slot fs0)
    (hdraw : (system noFault).machine.Step fs0 Call.uuid4 u fs)
    (hrun : (system noFault).machine.Runs fs
      (d.stage (tmpText d.root u) (slot.objectText d.root) source) trace o fs') :
    fs'.Sound ∧ ¬ Walled d slot fs' := by
  constructor
  · rcases hdraw with ⟨ch, _, hexec⟩
    exact runs_sound (exec_sound hsound hexec) hrun
  · intro hwalled
    exact hfree (stage_walled hdraw hrun hwalled)

/-- What a stored body comes with: its sidecar, or no sidecar because of a
wall. -/
inductive Recording (d : LocalFsBlobDriver) (slot : Slot settings)
    (data : Data) (contentType : Text) (metadata : Option Metadata)
    (fs fs' : FileTree) : Prop where
  | recorded (now : Rat) :
      ¬ Walled d slot fs ->
      storedSidecar d slot fs' =
        some (sidecarBytes d contentType (d.platform.sha256.digest data.body)
          data.body.length (metadata.getD ∅) now) ->
      Recording d slot data contentType metadata fs fs'
  | walled :
      Walled d slot fs ->
      storedSidecar d slot fs' = none ->
      Recording d slot data contentType metadata fs fs'

theorem dedupResult_deduped {info : Except Exn (Option ObjectInfo)}
    {result : PutResult}
    (h : Except.ok result = info.map LocalFsBlobDriver.dedupResult) :
    result.deduped = true := by
  cases info with
  | error e => cases h
  | ok info =>
      cases h
      rfl

theorem Course.places_sidecar {o : Except Exn PutResult} {result : PutResult}
    (hsound : fs.Sound) (hfree : ¬ Walled d slot fs)
    (h : Course d slot (system noFault).machine data contentType ifNoneMatch
      metadata fs trace o fs') (ho : o = Except.ok result)
    (hfresh : result.deduped = false) :
    fs'.isFile (slot.sidecarLoc d.root) = true := by
  cases h with
  | met fs0 fs' rest info _ _ _ =>
      have hdeduped := dedupResult_deduped ho.symm
      rw [hfresh] at hdeduped
      cases hdeduped
  | failed _ _ _ _ _ _ _ _ _ _ _ _ _ => cases ho
  | stored fs0 fs1 fs2 fs' u before main side acc henters hdraw hstage hside =>
      cases henters.same
      rcases stage_free hsound hfree hdraw hstage with ⟨hsound2, hfree2⟩
      exact (sidecar_course d slot hside).written_of_free hsound2 hfree2

theorem stage_file_old {allow : Policy} {fs0 : FileTree} {source : Source}
    {o : Except Exn (d.platform.sha256.State × Nat)}
    (hdraw : (system allow).machine.Step fs0 Call.uuid4 u fs)
    (hrun : (system allow).machine.Runs fs
      (d.stage (tmpText d.root u) (slot.objectText d.root) source) trace o fs')
    {q : Path} (hq : fs'.isFile q = true) :
    fs0.isFile q = true ∨ q = slot.objectLoc d.root ∨
      exists w, q = resolve d.root ++ [tmpDir, w] := by
  rcases isFile_iff.mp hq with ⟨i, hi⟩
  rcases runs_file hrun hi with ⟨j, hj⟩ | hplaced
  · exact Or.inl (step_file_old_of_nil hdraw rfl (isFile_iff.mpr ⟨j, hj⟩))
  · have hresolve := @resolve_tmpText d.root u (drawn_unnamed hdraw).left
    rcases stage_places hrun hplaced with ⟨htmp, _⟩ | ⟨hdest, _⟩
    · exact Or.inr (Or.inr ⟨u, htmp.trans hresolve⟩)
    · rw [slot.resolve_objectText] at hdest
      exact Or.inr (Or.inl hdest)

/-- Where nothing walls its sidecar, a put makes no file but the two of its
slot. -/
theorem Course.file_old {o : Except Exn PutResult} (hsound : fs.Sound)
    (hfree : ¬ Walled d slot fs)
    (h : Course d slot (system noFault).machine data contentType ifNoneMatch
      metadata fs trace o fs') {q : Path} (hq : fs'.isFile q = true) :
    fs.isFile q = true ∨ q = slot.objectLoc d.root ∨
      q = slot.sidecarLoc d.root ∨ exists w, q = resolve d.root ++ [tmpDir, w] := by
  cases h with
  | met fs0 fs' rest info _ hstep hhead =>
      rcases isFile_iff.mp hq with ⟨i, hi⟩
      have hsame := (head_exact hhead).right
      rw [hsame.node] at hi
      exact Or.inl (step_file_old_of_nil hstep rfl (isFile_iff.mpr ⟨i, hi⟩))
  | failed fs0 fs1 fs2 fs' u before main e r henters hdraw hstage hremove =>
      cases henters.same
      have hbefore := step_file_old_of_nil hremove (by cases r <;> rfl) hq
      rcases stage_file_old hdraw hstage hbefore with hold | hobject | htmp
      · exact Or.inl hold
      · exact Or.inr (Or.inl hobject)
      · exact Or.inr (Or.inr (Or.inr htmp))
  | stored fs0 fs1 fs2 fs' u before main side acc henters hdraw hstage hside =>
      cases henters.same
      rcases stage_free hsound hfree hdraw hstage with ⟨hsound2, hfree2⟩
      rcases (sidecar_course d slot hside).file_old hsound2 hfree2 hq with
        hbefore | hsidecar
      · rcases stage_file_old hdraw hstage hbefore with hold | hobject | htmp
        · exact Or.inl hold
        · exact Or.inr (Or.inl hobject)
        · exact Or.inr (Or.inr (Or.inr htmp))
      · exact Or.inr (Or.inr (Or.inl hsidecar))

theorem storedSidecar_of_isFile
    (h : fs.isFile (slot.sidecarLoc d.root) = true) :
    storedSidecar d slot fs ≠ none := by
  rcases isFile_iff.mp h with ⟨i, hi⟩
  unfold storedSidecar content
  rw [hi]
  simp

theorem thwarted_absent {v v1 v' : View} {b : Bytes} (hhoused : Housed d slot v)
    (hwidens : Widens v (slot.objectLoc d.root).dropLast v1)
    (htried : Tried Eq (Function.update v1 (slot.objectLoc d.root)
      (some (Entry.file b))) (slot.sidecarLoc d.root) v')
    (hwhy : Thwarted (solo d False) Eq (slot.sidecarLoc d.root)
      (Function.update v1 (slot.objectLoc d.root) (some (Entry.file b)))) :
    fileAt v' (slot.sidecarLoc d.root) = none := by
  have hne := (slot.objectLoc_ne_sidecarLoc d.root slot).symm
  rw [fileAt_widens (tried_eq htried), fileAt_update_file,
    Function.update_of_ne hne, fileAt_widens hwidens]
  exact (sidecar_absent_of_thwarted hhoused hwidens hwhy).resolve_left id

/-- Without faults only a wall keeps a sidecar from being written. -/
theorem put_recording {result : PutResult} (hsound : fs.Sound)
    (hrun : (system noFault).machine.Runs fs
      (d.put slot.bucket slot.key data contentType ifNoneMatch metadata) trace
      (Except.ok result) fs') (hfresh : result.deduped = false) :
    Recording d slot data contentType metadata fs fs' := by
  by_cases hwalled : Walled d slot fs
  · exact Recording.walled hwalled
      ((hwalled.put hrun).storedSidecar (runs_sound hsound hrun))
  · have hplaced := storedSidecar_of_isFile
      ((put_course hrun).places_sidecar hsound hwalled rfl hfresh)
    rcases put_runs solo_noFault hsound hrun with ⟨_, heffect⟩
    rw [← fileAt_sidecar] at hplaced
    have hrecorded : forall now,
        fileAt ((staging d.root).view fs') (slot.sidecarLoc d.root) =
          some (sidecarBytes d contentType (d.platform.sha256.digest data.body)
            data.body.length (metadata.getD ∅) now) ->
        Recording d slot data contentType metadata fs fs' := by
      intro now hnow
      exact Recording.recorded now hwalled (fileAt_sidecar.symm.trans hnow)
    generalize (staging d.root).view fs' = v' at heffect hplaced hrecorded
    generalize ho : (Except.ok result : Except Exn PutResult) = o at heffect
    generalize sights trace = seen at heffect
    cases heffect with
    | met info more _ _ _ _ =>
        have hdeduped := dedupResult_deduped ho
        rw [hfresh] at hdeduped
        cases hdeduped
    | refused e v' more _ _ _ _ => cases ho
    | stored v1 v' more _ _ hwidens _ hside =>
        rcases hside with ⟨_, now, hput⟩ | ⟨_, htried, hwhy⟩
        · apply hrecorded now
          rcases placed_eq hput with ⟨w, _, _, hw⟩
          rw [hw, fileAt_eq_some, Function.update_self]
        · exact absurd
            (thwarted_absent (housed_of_sound hsound) hwidens htried hwhy) hplaced

end Walls

end StorybookStorage
