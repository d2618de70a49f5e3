import StorybookStorage.Store.Answers
import StorybookStorage.Store.Coexistence

/-!
# What a fault-free put leaves

Without faults the error of a refused put tells whether its source failed, and
the directories after a put are those before it and the ones on the way to what
it stored.
-/

namespace StorybookStorage

open Python Posix Effects Contract FileTree

/-!
## Staging without faults
-/

section Staging

variable {d : LocalFsBlobDriver} {fh : Nat} {source : Source} {tmp dest : Text}
  {Q : Except Exn (d.platform.sha256.State × Nat) -> FileTree -> Prop}

theorem wp_sure_writeChunks (chunks : List Bytes)
    (acc : d.platform.sha256.State × Nat) {fs : FileTree}
    (hfd : fs.handles fh ≠ none)
    (hok : forall acc fs', fs'.handles fh ≠ none -> SameDirs fs fs' ->
      Q (Except.ok acc) fs') :
    (system noFault).machine.wp (d.writeChunks fh chunks acc) Q fs := by
  induction chunks generalizing acc fs with
  | nil => exact hok acc fs hfd (SameDirs.refl fs)
  | cons chunk rest ih =>
      unfold LocalFsBlobDriver.writeChunks
      rw [Machine.wp_bind]
      apply wp_raising
      refine ⟨trivial, ?_⟩
      intro r fs1 hwrite
      cases step_write hwrite hfd
      apply ih _ (step_written_open hwrite hfd)
      intro acc' fs' hopen hdirs
      exact hok acc' fs' hopen ((step_sameDirs hwrite (by simp)).trans hdirs)

theorem wp_sure_receive {fs : FileTree} (hfd : fs.handles fh ≠ none)
    (hok : source.ending = none -> forall acc fs', SameDirs fs fs' ->
      Q (Except.ok acc) fs')
    (hsource : forall e fs', source.ending = some e -> SameDirs fs fs' ->
      Q (Except.error e) fs') :
    (system noFault).machine.wp (d.receive fh source) Q fs := by
  unfold LocalFsBlobDriver.receive
  rw [Machine.wp_bind]
  apply wp_sure_writeChunks _ _ hfd
  intro acc fs1 hopen1 hdirs1
  cases hend : source.ending with
  | some e => exact hsource e fs1 hend hdirs1
  | none =>
      show (system noFault).machine.wp (Os.flush fh >>= fun _ => _) Q fs1
      rw [Machine.wp_bind]
      apply wp_raising
      refine ⟨trivial, ?_⟩
      intro r fs2 hflush
      cases step_flush hflush hopen1
      have hdirs2 := hdirs1.trans (step_sameDirs hflush (by simp))
      show (system noFault).machine.wp (Os.fsync fh >>= fun _ => _) Q fs2
      rw [Machine.wp_bind]
      apply wp_raising
      refine ⟨trivial, ?_⟩
      intro r fs3 hsync
      cases step_fsync hsync (step_flushed_open hflush hopen1)
      exact hok hend acc fs3 (hdirs2.trans (step_sameDirs hsync (by simp)))

/-- A staging file with a free name is opened, so staging fails with its
source, which makes no directory, or on its way to the object. -/
theorem wp_sure_stage {fs : FileTree} (hvacant : fs.node (resolve tmp) = none)
    (hparent : fs.node (resolve tmp).dropLast = some Node.dir)
    (hok : source.ending = none -> forall acc fs', Q (Except.ok acc) fs')
    (hsource : forall e fs', source.ending = some e -> SameDirs fs fs' ->
      Q (Except.error e) fs')
    (hway : source.ending = none -> forall n fs', n ≠ Errno.ENOSPC ->
      Q (Except.error (Exn.os n)) fs') :
    (system noFault).machine.wp (d.stage tmp dest source) Q fs := by
  unfold LocalFsBlobDriver.stage
  rw [Machine.wp_bind]
  apply wp_raising
  refine ⟨trivial, ?_⟩
  intro r fs1 hopen
  cases r with
  | error n =>
      rcases step_unopened hopen with hdir | hno
      · rw [hvacant] at hdir
        cases hdir
      · exact absurd hparent hno
  | ok fh =>
      have hdirs1 := step_sameDirs hopen (by simp)
      show (system noFault).machine.wp (Prog.tryFinally _ _ >>= fun _ => _) Q fs1
      rw [Machine.wp_bind, Machine.wp_tryFinally]
      apply wp_sure_receive (step_opened hopen)
      · intro hend acc fs2 _
        apply wp_raising
        refine ⟨trivial, ?_⟩
        intro r fs3 hclose
        cases step_close hclose
        show (system noFault).machine.wp (Os.makedirs _ >>= fun _ => _) Q fs3
        rw [Machine.wp_bind]
        apply wp_raising
        refine ⟨trivial, ?_⟩
        intro r fs4 hmake
        cases r with
        | error n => exact hway hend n fs4 (step_unmade_errno hmake)
        | ok _ =>
            show (system noFault).machine.wp (Os.rename _ _ >>= fun _ => _) Q fs4
            rw [Machine.wp_bind]
            apply wp_raising
            refine ⟨trivial, ?_⟩
            intro r fs5 hmove
            cases r with
            | error n => exact hway hend n fs5 (step_unrenamed_errno hmove)
            | ok _ => exact hok hend acc fs5
      · intro e fs2 hend hdirs2
        apply wp_raising
        refine ⟨trivial, ?_⟩
        intro r fs3 hclose
        cases step_close hclose
        have hdirs3 := hdirs2.trans (step_sameDirs hclose (by simp))
        exact hsource e fs3 hend (hdirs1.trans hdirs3)

end Staging

/-!
## A put that raises
-/

section Put

variable {settings : Settings} {d : LocalFsBlobDriver} {slot : Slot settings}
  {fs fs' : FileTree} {trace : List (Sigma calls.Ret)} {data : Data}
  {contentType : Text} {ifNoneMatch : Option Text} {metadata : Option Metadata}

/-- The error of a put is its source's, and then nothing was made, or else
that of a file-system call, and not that the device is full. -/
inductive Raised (fs fs' : FileTree) (data : Data) : Exn -> Prop where
  | source (e : Exn) :
      data.ending = some e ->
      SameDirs fs fs' ->
      Raised fs fs' data (LocalFsBlobDriver.translateOsError e)
  | way (n : Errno) :
      data.ending = none ->
      Raised fs fs' data (Exn.storageIoError n)

theorem Kempt.head_ok {o : Except Exn (Option ObjectInfo)}
    (hkempt : Kempt d settings fs)
    (hrun : (system noFault).machine.Runs fs (d.head slot.bucket slot.key) trace o
      fs') : exists info, o = Except.ok info := by
  have hheads := (head_runs solo_noFault hkempt.sound hrun).right.right
  cases hkempt.head_answer hheads with
  | absent _ => exact ⟨_, rfl⟩
  | present b info _ _ _ => exact ⟨_, rfl⟩

theorem Course.raises {o : Except Exn PutResult} {e : Exn}
    (hkempt : Kempt d settings fs)
    (h : Course d slot (system noFault).machine data contentType ifNoneMatch
      metadata fs trace o fs') (ho : o = Except.error e) :
    Raised fs fs' data e := by
  cases h with
  | met fs0 fs' rest info hcond hstep hhead =>
      cases quiet_same (by trivial) hstep
      rcases hkempt.head_ok hhead with ⟨found, rfl⟩
      cases ho
  | failed fs0 fs1 fs2 fs' u before main e0 r henters hdraw hstage hremove =>
      cases ho
      cases henters.same
      have htoken := (drawn_unnamed hdraw).left
      have hloc : resolve (tmpText d.root u) = resolve d.root ++ [tmpDir, u] :=
        resolve_tmpText htoken
      have hvacant := drawn_vacant (d := d) hdraw (place_tmpText htoken)
      have hparent : fs1.node (resolve (tmpText d.root u)).dropLast =
          some Node.dir := by
        rw [hloc, append_two, List.dropLast_concat]
        exact step_dir hdraw hkempt.tmp
      have hdirs : forall {fs3 : FileTree}, SameDirs fs1 fs3 -> fs3 = fs2 ->
          SameDirs fs fs' := by
        intro _ hsame heq
        subst heq
        exact ((step_sameDirs hdraw (by simp)).trans hsame).trans
          (step_sameDirs hremove (by simp))
      refine Machine.wp_sound (Q := fun o s => forall e, o = Except.error e ->
        s = fs2 -> Raised fs fs' data (LocalFsBlobDriver.translateOsError e))
        (wp_sure_stage hvacant hparent ?_ ?_ ?_) hstage e0 rfl rfl
      · intro _ acc s e he
        cases he
      · intro e s hend hsame e' he hs
        cases he
        rw [asAiter_ending] at hend
        exact Raised.source e hend (hdirs hsame hs)
      · intro hend n s hn e he _
        cases he
        rw [asAiter_ending] at hend
        rw [(translates_os n).right hn]
        exact Raised.way n hend
  | stored fs0 fs1 fs2 fs' u before main side acc => cases ho

/-!
## The directories after a put
-/

theorem old_dir_of_file {p q loc : Path} (hsound : fs.Sound)
    (hsound' : fs'.Sound) (hp : p <+: loc) (hq : q <+: loc)
    (hfile : fs.isFile p = true) (hfile' : fs'.isFile p = true)
    (hdir : fs'.node q = some Node.dir) : fs.node q = some Node.dir := by
  rcases isFile_iff.mp hfile with ⟨i, hi⟩
  rcases isFile_iff.mp hfile' with ⟨j, hj⟩
  rcases List.prefix_or_prefix_of_prefix hp hq with hbelow | habove
  · rw [hsound'.dir_of_prefix hdir hbelow] at hj
    cases hj
  · have hne : q ≠ p := by
      intro heq
      subst heq
      rw [hdir] at hj
      cases hj
    have hparent : fs.node p.dropLast = some Node.dir := by
      apply hsound.parent p
      · intro heq
        subst heq
        exact hne (List.prefix_nil.mp habove)
      · rw [hi]
        simp
    exact hsound.dir_of_prefix hparent (prefix_dropLast habove hne)

theorem Kempt.put_sameDirs {o : Except Exn PutResult} (hkempt : Kempt d settings fs)
    (hrun : (system noFault).machine.Runs fs
      (d.put slot.bucket slot.key data contentType ifNoneMatch metadata) trace o
      fs') (hdeduped : forall r, o = Except.ok r -> r.deduped = true) :
    SameDirs fs fs' := by
  have hcourse := put_course hrun
  have hanswer := hkempt.put_answer hrun
  rcases put_runs solo_noFault hkempt.sound hrun with ⟨hsound', heffect⟩
  intro q
  refine ⟨?_, runs_dir hrun⟩
  rw [← @Staging.view_dir (staging d.root), ← @Staging.view_dir (staging d.root)]
  generalize hv' : (staging d.root).view fs' = v' at heffect
  generalize sights trace = seen at heffect
  cases heffect with
  | met info more _ _ _ _ => exact id
  | refused e v' more _ _ hwidens _ =>
      intro hdir
      rcases hwidens q with hsame | ⟨_, _, hway⟩
      · rwa [hsame] at hdir
      · rw [← hv', Staging.view_dir] at hdir
        rw [Staging.view_dir]
        have hloc := hway.trans (List.dropLast_prefix (slot.objectLoc d.root))
        cases hcourse.raises hkempt rfl with
        | source e0 _ hsame => exact (hsame q).mp hdir
        | way n hend =>
            cases hanswer with
            | refused _ _ hhindered =>
                cases hhindered with
                | source hraises => exact absurd hend hraises
                | directory hobject => exact hkempt.sound.dir_of_prefix hobject hloc
                | file p b hp hb =>
                    have hfile : fs.isFile p = true :=
                      Option.isSome_iff_exists.mpr ⟨b, hb⟩
                    exact old_dir_of_file hkempt.sound hsound'
                      (hp.trans (List.dropLast_prefix _)) hloc hfile
                      (hcourse.stays hfile) hdir
  | stored v1 v' more _ _ _ _ _ => cases hdeduped _ rfl

/-- A put that stores its body makes the way to its object, and the way to its
sidecar unless that is walled. -/
theorem Kempt.put_dirs {result : PutResult} (hkempt : Kempt d settings fs)
    (hrun : (system noFault).machine.Runs fs
      (d.put slot.bucket slot.key data contentType ifNoneMatch metadata) trace
      (Except.ok result) fs') (hfresh : result.deduped = false) (q : Path) :
    fs'.node q = some Node.dir <->
      fs.node q = some Node.dir ∨ q <+: (slot.objectLoc d.root).dropLast ∨
        (¬ Walled d slot fs ∧ q <+: (slot.sidecarLoc d.root).dropLast) := by
  have hcourse := put_course hrun
  rcases put_runs solo_noFault hkempt.sound hrun with ⟨hsound', heffect⟩
  have hparent : forall {p : Path}, p ≠ [] -> fs'.isFile p = true ->
      fs'.node p.dropLast = some Node.dir := by
    intro p hp hfile
    rcases isFile_iff.mp hfile with ⟨i, hi⟩
    exact hsound'.parent p hp (by rw [hi]; simp)
  have hne : forall {p : Path}, fs'.isFile p = true ->
      fs'.node q = some Node.dir -> q ≠ p := by
    intro p hfile hdir heq
    subst heq
    rcases isFile_iff.mp hfile with ⟨i, hi⟩
    rw [hdir] at hi
    cases hi
  have hobject : fs'.isFile (slot.objectLoc d.root) = true := by
    rcases heffect.files (housed_of_sound hkempt.sound) with
      ⟨hdeduped, _⟩ | ⟨_, hstored⟩
    · rw [hdeduped _ rfl] at hfresh
      cases hfresh
    · have hown := hstored.own
      rw [fileAt_object] at hown
      exact Option.isSome_iff_exists.mpr ⟨_, hown⟩
  constructor
  · intro hdir
    rcases dir_beside hkempt.sound hrun hdir with hold | hway | hway
    · exact Or.inl hold
    · exact Or.inr (Or.inl (prefix_dropLast hway (hne hobject hdir)))
    · by_cases hwalled : Walled d slot fs
      · refine Or.inl ?_
        cases hwalled with
        | directory hside => exact hkempt.sound.dir_of_prefix hside hway
        | file p hp hfile =>
            exact old_dir_of_file hkempt.sound hsound'
              (hp.trans (List.dropLast_prefix _)) hway hfile
              (hcourse.stays hfile) hdir
      · have hside := hcourse.places_sidecar hkempt.sound hwalled rfl hfresh
        exact Or.inr (Or.inr ⟨hwalled, prefix_dropLast hway (hne hside hdir)⟩)
  · intro h
    rcases h with hold | hway | ⟨hfree, hway⟩
    · exact runs_dir hrun hold
    · exact hsound'.dir_of_prefix
        (hparent (slot.objectLoc_ne_nil d.root) hobject) hway
    · have hside := hcourse.places_sidecar hkempt.sound hfree rfl hfresh
      exact hsound'.dir_of_prefix
        (hparent (slot.sidecarLoc_ne_nil d.root) hside) hway

end Put

theorem delete_sameDirs {settings : Settings} {d : LocalFsBlobDriver}
    {slot : Slot settings} {fs fs' : FileTree} {trace : List (Sigma calls.Ret)}
    {o : Except Exn Bool} {allow : Policy}
    (hrun : (system allow).machine.Runs fs (d.delete slot.bucket slot.key) trace o
      fs') : SameDirs fs fs' := by
  intro q
  refine ⟨?_, runs_dir hrun⟩
  intro hdir
  rcases runs_dir_old hrun hdir with hold | ⟨t, r, hmem, _⟩
  · exact hold
  · rcases delete_calls hrun with ⟨r1, r2, rfl, _⟩
    rcases List.mem_cons.mp hmem with hfirst | hsecond
    · cases hfirst
    · cases List.mem_singleton.mp hsecond

end StorybookStorage
