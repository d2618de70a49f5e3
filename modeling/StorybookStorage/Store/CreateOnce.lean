import StorybookStorage.Drivers.Records
import StorybookStorage.Store.Fresh

/-!
# Creating an object once

Puts with `if_none_match="*"` on one slot, interleaved call by call on a device
without faults.  The existence test and the rename are two calls, with the whole
upload in between: as long as no test falls into the gap of another put, exactly
one of them stores its body and all others report it.
-/

namespace StorybookStorage

open Python Posix Effects Contract

variable {settings : Settings} (d : LocalFsBlobDriver) (slot : Slot settings)

structure Creation where
  data : Data
  contentType : Text
  metadata : Option Metadata

def Creation.run (c : Creation) : Io PutResult :=
  d.put slot.bucket slot.key c.data c.contentType (some (text "*")) c.metadata

abbrev CreationPool := Pool calls FileTree Creation Exn PutResult

abbrev CreationTask := Task calls Creation Exn PutResult

/-- The existence test found nothing and the rename is still to come. -/
def Pending (t : CreationTask) : Prop :=
  Sight.tested (slot.objectLoc d.root) false ∈ sights t.past ∧
    Sight.placed (slot.objectLoc d.root) ∉ sights t.past ∧
    t.code.ending.isNone = true

instance (t : CreationTask) : Decidable (Pending d slot t) := by
  unfold Pending
  infer_instance

def tests (p : Path) : Call -> Bool
  | Call.pathExists t => decide (resolve t = p)
  | _ => false

/-- No put tests for the object while another one is between its test and its
rename. -/
def Undisturbed (P : CreationPool) (_ : Nat) (e : Sigma calls.Ret) : Prop :=
  tests (slot.objectLoc d.root) e.1 = true ->
    forall t, t ∈ P.tasks -> ¬ Pending d slot t

instance (P : CreationPool) (i : Nat) (e : Sigma calls.Ret) :
    Decidable (Undisturbed d slot P i e) := by
  unfold Undisturbed
  infer_instance

@[reducible] def creationGame
    (guard : CreationPool -> Nat -> Sigma calls.Ret -> Prop) :
    Game calls FileTree Choice Creation Exn PutResult where
  chooser := system noFault
  program := Creation.run d slot
  accepts _ := True
  guard := guard
  stops := False

structure CreatedOnce (P : CreationPool) : Prop where
  /-- At most one put returned `deduped=False`. -/
  once : forall (i j : Nat) (t u : CreationTask) r r',
    P.tasks[i]? = some t -> P.tasks[j]? = some u ->
    t.code.ending = some (Except.ok r) -> u.code.ending = some (Except.ok r') ->
    r.deduped = false -> r'.deduped = false -> i = j
  /-- Nobody replaced what it stored. -/
  kept : forall (i : Nat) (t : CreationTask) r, P.tasks[i]? = some t ->
    t.code.ending = some (Except.ok r) -> r.deduped = false ->
    storedObject d slot P.shared = some t.tag.data.body
  /-- No put raised, unless its own source did. -/
  returned : forall (i : Nat) (t : CreationTask) e, P.tasks[i]? = some t ->
    t.code.ending = some (Except.error e) -> t.tag.data.ending ≠ none

/-!
## Where the store lets a put through
-/

/-- The way to the object is open, and its sidecar is a record if there is one.
`taken` says whether a directory lies at the object's place. -/
structure Open (taken : Prop) (v : View) : Prop where
  tmp : v (resolve d.root ++ [tmpDir]) = some Entry.dir
  clean : forall u, v (resolve d.root ++ [tmpDir, u]) ≠ some Entry.dir
  way : forall q b, q <+: (slot.objectLoc d.root).dropLast ->
    v q ≠ some (Entry.file b)
  place : v (slot.objectLoc d.root) = some Entry.dir <-> taken
  records : Records d slot v

structure Ready (fs : FileTree) : Prop where
  sound : fs.Sound
  tmp : fs.node (resolve d.root ++ [tmpDir]) = some Node.dir
  clean : forall u, fs.node (resolve d.root ++ [tmpDir, u]) ≠ some Node.dir
  way : forall q, q <+: (slot.objectLoc d.root).dropLast -> fs.content q = none
  records : forall raw, storedSidecar d slot fs = some raw ->
    exists record, raw = recordBytes d record

theorem Ready.view {fs : FileTree} (h : Ready d slot fs) :
    Open d slot (fs.node (slot.objectLoc d.root) = some Node.dir)
      ((staging d.root).view fs) where
  tmp := Staging.view_dir.mpr h.tmp
  clean := fun u hu => h.clean u (Staging.view_dir.mp hu)
  way := by
    intro q b hq hb
    have hvisible := slot.visible_of_prefix_objectLoc
      (hq.trans (List.dropLast_prefix _))
    have hcontent := (view_of_content hvisible).mp hb
    rw [h.way q hq] at hcontent
    cases hcontent
  place := Staging.view_dir
  records := fun raw hraw => h.records raw ((view_storedSidecar d slot).mp hraw)

theorem Fresh.ready {fs : FileTree} (h : Fresh d.root fs) :
    Ready d slot fs where
  sound := h.sound
  tmp := h.tmp
  clean := h.clean
  way := by
    intro q hq
    have hnone := h.no_file_below (List.prefix_append _ _)
      (hq.trans (List.dropLast_prefix (slot.objectLoc d.root)))
    unfold FileTree.isFile at hnone
    exact Option.not_isSome_iff_eq_none.mp (Bool.eq_false_iff.mp hnone)
  records := by
    intro raw hraw
    rw [h.storedSidecar slot] at hraw
    cases hraw

/-!
## The contract of a conditional put
-/

def creation : Contract Creation where
  toStaging := staging d.root
  May _ := False
  Sweeps := False
  Reads _ _ := True
  Writes _ := True
  Stages _ _ _ := True
  Publishes c seen p b :=
    (p = slot.objectLoc d.root ∧ Sight.tested p false ∈ seen ∧
        Sight.placed p ∉ seen ∧ b = c.data.body) ∨
      (p = slot.sidecarLoc d.root ∧ exists record, b = recordBytes d record)
  Removes _ _ _ := False
  Makes _ _ p :=
    p = (slot.objectLoc d.root).dropLast ∨ p = (slot.sidecarLoc d.root).dropLast

def Created (c : Creation) (o : Except Exn PutResult) (s : Focus) : Prop :=
  match o with
  | Except.ok r =>
      r.deduped = false -> Sight.placed (slot.objectLoc d.root) ∈ s.seen
  | Except.error _ => c.data.ending ≠ none

variable {d slot}

theorem not_faulty : ¬ (creation d slot).Faulty := by
  intro hmade
  rcases hmade with ⟨c, hc⟩
  exact hc

theorem creation_same {c : Creation} {seen : List Sight} {v v' : View}
    {g g' : Hold} {call : Call} {r : Call.Ret call}
    (hcan : (creation d slot).Can c seen g call)
    (hstep : (creation d slot).Step v g call r v' g') {q : Path}
    (hobject : q ≠ slot.objectLoc d.root ∨
      Sight.placed (slot.objectLoc d.root) ∉ sight call r)
    (hsidecar : q ≠ slot.sidecarLoc d.root)
    (hup : ¬ q <+: (slot.objectLoc d.root).dropLast)
    (hmeta : ¬ q <+: (slot.sidecarLoc d.root).dropLast) : v' q = v q := by
  apply hstep.same hcan
  · intro hplaced
    rcases hstep.placed hcan hplaced with ⟨b, ⟨hq, _⟩ | ⟨hq, _⟩, _⟩
    · rcases hobject with hne | hnot
      · exact hne hq
      · exact hnot (hq ▸ hplaced)
    · exact hsidecar hq
  · intro hvisible hremoved
    exact hcan.removes hvisible hremoved
  · intro p hp
    rcases hp with rfl | rfl
    · exact hup
    · exact hmeta

theorem objectLoc_same {c : Creation} {seen : List Sight} {v v' : View}
    {g g' : Hold} {call : Call} {r : Call.Ret call}
    (hcan : (creation d slot).Can c seen g call)
    (hstep : (creation d slot).Step v g call r v' g')
    (hnot : Sight.placed (slot.objectLoc d.root) ∉ sight call r) :
    v' (slot.objectLoc d.root) = v (slot.objectLoc d.root) := by
  apply creation_same hcan hstep (Or.inr hnot)
  · exact slot.objectLoc_ne_sidecarLoc d.root slot
  · exact Slot.not_prefix_dropLast (slot.objectLoc_ne_nil d.root)
  · intro hpre
    exact slot.objectLoc_not_below_meta d.root slot
      (hpre.trans (List.dropLast_prefix _))

theorem open_step {taken : Prop} {c : Creation} {seen : List Sight}
    {v v' : View} {g g' : Hold} {call : Call} {r : Call.Ret call}
    (h : Open d slot taken v) (hcan : (creation d slot).Can c seen g call)
    (hstep : (creation d slot).Step v g call r v' g') :
    Open d slot taken v' where
  tmp := hstep.dirs h.tmp
  clean := by
    intro u
    rw [creation_same hcan hstep]
    · exact h.clean u
    · apply Or.inl
      intro heq
      exact slot.tmp_not_above_objectLoc d.root u (heq ▸ List.prefix_rfl)
    · intro heq
      exact slot.tmp_not_above_sidecarLoc d.root u (heq ▸ List.prefix_rfl)
    · intro hpre
      exact slot.tmp_not_above_objectLoc d.root u
        (hpre.trans (List.dropLast_prefix _))
    · intro hpre
      exact slot.tmp_not_above_sidecarLoc d.root u
        (hpre.trans (List.dropLast_prefix _))
  way := by
    intro q b hq hb
    rcases hstep.file hcan hb with hold | ⟨heq, _⟩ | ⟨heq, _⟩
    · exact h.way q b hq hold
    · exact Slot.not_prefix_dropLast (slot.objectLoc_ne_nil d.root) (heq ▸ hq)
    · exact slot.sidecarLoc_not_below_objectLoc d.root slot
        ((heq ▸ hq : _ <+: _).trans (List.dropLast_prefix _))
  place := by
    by_cases hplaced : Sight.placed (slot.objectLoc d.root) ∈ sight call r
    · rcases hstep.placed hcan hplaced with ⟨b, _, hnodir, _, hv'⟩
      rw [hv', Function.update_self]
      constructor
      · intro hdir
        cases hdir
      · intro htaken
        exact absurd (h.place.mpr htaken) hnodir
    · rw [objectLoc_same hcan hstep hplaced]
      exact h.place
  records := by
    intro raw hraw
    rcases hstep.file hcan hraw with hold | ⟨heq, _⟩ | ⟨_, hrecord⟩
    · exact h.records raw hold
    · exact absurd heq.symm (slot.objectLoc_ne_sidecarLoc d.root slot)
    · exact hrecord

theorem open_widens {taken : Prop} {v v' : View} (h : Open d slot taken v)
    (hwidens : Widens v (slot.objectLoc d.root).dropLast v') :
    Open d slot taken v' := by
  have hsame : forall q, ¬ q <+: (slot.objectLoc d.root).dropLast ->
      v' q = v q := by
    intro q hq
    rcases hwidens q with hsame | ⟨_, _, hpre⟩
    · exact hsame
    · exact absurd hpre hq
  have hfile : forall q b, v' q = some (Entry.file b) ->
      v q = some (Entry.file b) := by
    intro q b hb
    rcases hwidens q with hsame | ⟨_, hdir, _⟩
    · rw [← hsame]
      exact hb
    · rw [hdir] at hb
      cases hb
  constructor
  · rcases hwidens (resolve d.root ++ [tmpDir]) with hsame | ⟨_, hdir, _⟩
    · rw [hsame]
      exact h.tmp
    · exact hdir
  · intro u
    rw [hsame]
    · exact h.clean u
    · intro hpre
      exact slot.tmp_not_above_objectLoc d.root u
        (hpre.trans (List.dropLast_prefix _))
  · intro q b hq hb
    exact h.way q b hq (hfile q b hb)
  · rw [hsame _ (Slot.not_prefix_dropLast (slot.objectLoc_ne_nil d.root))]
    exact h.place
  · intro raw hraw
    exact h.records raw (hfile _ raw hraw)

theorem creation_programs {taken : Prop} (c : Creation) {v : View}
    (hopen : Open d slot taken v) :
    ((creation d slot).machine c (keeping (Open d slot taken))).wp
      (c.run d slot) (Created d slot c)
      { view := v, hold := Hold.idle, seen := [] } := by
  have hsteady := steady_keeping (Open d slot taken)
  have htested : testedSights slot d.root (some (text "*")) =
      [Sight.tested (slot.objectLoc d.root) false] := if_pos rfl
  apply wp_put d slot rfl hsteady trivial trivial rfl
  · rw [htested]
    exact
      { writes := trivial
        stages := fun _ _ => trivial
        makes := Or.inl rfl
        publishes := fun _ => Or.inl ⟨rfl, by simp, by simp, rfl⟩
        sidecarStages := fun _ _ => trivial
        sidecarMakes := Or.inr rfl
        sidecarPublishes := fun now =>
          Or.inr ⟨rfl, _, sidecarBytes_eq d _ _ _ _ now⟩ }
  · intro o v1 v' g' more _ _ h1 hheads _ _ _
    rcases hheads.ok d (fun w1 w2 hw1 hw2 =>
      (hw2.left (hw1.left (h1.left hopen))).records) with ⟨info, rfl⟩
    intro hfalse
    cases hfalse
  · intro e v1 v' u more hnone h1 hrefused _ _
    have hopen1 := h1.left hopen
    cases hrefused with
    | source e0 he =>
        rw [asAiter_ending] at he
        show c.data.ending ≠ none
        rw [he]
        exact fun h => nomatch h
    | device n hreason =>
        rcases hreason with hf | hs
        · exact absurd hf not_faulty
        · exact absurd hs id
    | unstaged n u' w0 w1 hw0 _ hw1 _ hdir =>
        have hopen' := hw1.left (hw0.left hopen1)
        rcases hdir with hdir | hno
        · exact absurd hdir (hopen'.clean u')
        · exact absurd hopen'.tmp hno
    | blocked n w q b hw hq hb =>
        exact absurd hb ((hw.left hopen1).way q b hq)
    | occupied n w1 w2 w3 hw1 hwidens hw2 hdir =>
        rcases hnone rfl with hfree | hf
        · have hopen' := hw2.left (open_widens (hw1.left hopen1) hwidens)
          rw [hopen.place.mpr (hopen'.place.mp hdir)] at hfree
          cases hfree
        · exact absurd hf not_faulty
  · intro v1 v2 v' g' more _ _ _ _ _ _ _
    simp

theorem creation_governed (taken : Prop)
    {guard : CreationPool -> Nat -> Sigma calls.Ret -> Prop} :
    Governed (creation d slot) (Open d slot taken) (Created d slot) noFault
      (creationGame d slot guard).rules where
  machine := rfl
  admits _ _ _ h := Or.inl h
  programs c _ _ hv := creation_programs c hv
  keeps _ _ _ _ _ _ _ _ hv hcan hstep := open_step hv hcan hstep

/-!
## One winner
-/

/-- What one call means for the object: it puts the body of a pending put in
place, or it leaves the object alone and may have found it missing. -/
theorem creation_cases {c : Creation} {seen : List Sight} {v v' : View}
    {g g' : Hold} {call : Call} {r : Call.Ret call}
    (hcan : (creation d slot).Can c seen g call)
    (hstep : (creation d slot).Step v g call r v' g') :
    (Sight.placed (slot.objectLoc d.root) ∈ sight call r ∧
        Sight.tested (slot.objectLoc d.root) false ∈ seen ∧
        Sight.placed (slot.objectLoc d.root) ∉ seen ∧
        v' (slot.objectLoc d.root) = some (Entry.file c.data.body)) ∨
      (Sight.placed (slot.objectLoc d.root) ∉ sight call r ∧
        v' (slot.objectLoc d.root) = v (slot.objectLoc d.root) ∧
        (Sight.tested (slot.objectLoc d.root) false ∈ sight call r ->
          tests (slot.objectLoc d.root) call = true ∧
            v (slot.objectLoc d.root) = none)) := by
  by_cases hplaced : Sight.placed (slot.objectLoc d.root) ∈ sight call r
  · rcases hstep.placed hcan hplaced with ⟨b, hpub | ⟨heq, _⟩, _, _, hv'⟩
    · rcases hpub with ⟨_, htested, hnot, hb⟩
      refine Or.inl ⟨hplaced, htested, hnot, ?_⟩
      rw [hv', Function.update_self, hb]
    · exact absurd heq (slot.objectLoc_ne_sidecarLoc d.root slot)
  · refine Or.inr ⟨hplaced, objectLoc_same hcan hstep hplaced, ?_⟩
    intro htested
    cases call with
    | pathExists t =>
        have hsame : Sight.tested (slot.objectLoc d.root) false =
            Sight.tested (resolve t) r := List.mem_singleton.mp htested
        rcases Sight.tested.inj hsame with ⟨hloc, hanswer⟩
        constructor
        · simp [tests, hloc]
        · have hvisible := slot.visible_objectLoc d.root
          rw [hloc] at hvisible ⊢
          rcases hstep.right.right hvisible with ⟨_, hfalse⟩
          rcases hfalse hanswer.symm with hno | hf
          · exact not_not.mp hno
          · exact absurd hf id
    | _ => first | (simp [sight] at htested; done) | (cases r <;> simp [sight] at htested)

variable (d slot)

def Winner (t : CreationTask) : Prop :=
  Sight.placed (slot.objectLoc d.root) ∈ sights t.past

/-- At most one put is pending, at most one has stored its body, and never both
at a time. -/
structure Once (P : CreationPool) : Prop where
  vacant : forall (i : Nat) (t : CreationTask), P.tasks[i]? = some t ->
    Pending d slot t ->
    (staging d.root).view P.shared (slot.objectLoc d.root) = none
  alone : forall (i j : Nat) (t u : CreationTask), P.tasks[i]? = some t ->
    P.tasks[j]? = some u -> Pending d slot t -> Pending d slot u -> i = j
  winner : forall (i : Nat) (t : CreationTask), P.tasks[i]? = some t ->
    Winner d slot t ->
    (staging d.root).view P.shared (slot.objectLoc d.root) =
      some (Entry.file t.tag.data.body)
  unique : forall (i j : Nat) (t u : CreationTask), P.tasks[i]? = some t ->
    P.tasks[j]? = some u -> Winner d slot t -> Winner d slot u -> i = j

variable {d slot}

theorem Once.advance {P : CreationPool} (h : Once d slot P) {i : Nat}
    {t : CreationTask} {c : Call} {k : Call.Ret c -> Io PutResult}
    {r : Call.Ret c} {fs' : FileTree} {g g' : Hold}
    (ht : P.tasks[i]? = some t) (hcode : t.code = Prog.call (S := calls) c k)
    (hguard : Undisturbed d slot P i ⟨c, r⟩)
    (hcan : (creation d slot).Can t.tag (sights t.past) g c)
    (hstep : (creation d slot).Step ((staging d.root).view P.shared) g c r
      ((staging d.root).view fs') g') :
    Once d slot (P.advance i t ⟨c, r⟩ (k r) fs') := by
  have hrunning : t.code.ending.isNone = true := by
    rw [hcode]
    rfl
  rcases creation_cases hcan hstep with
    ⟨hplaced, htested, hnot, hview⟩ | ⟨hplaced, hview, hnew⟩
  · have hpending : Pending d slot t := ⟨htested, hnot, hrunning⟩
    have hnone := h.vacant i t ht hpending
    have hothers : forall (j : Nat) (u : CreationTask), j ≠ i ->
        P.tasks[j]? = some u -> ¬ Pending d slot u ∧ ¬ Winner d slot u := by
      intro j u hj hu
      constructor
      · intro hp
        exact hj (h.alone j i u t hu ht hp hpending)
      · intro hw
        rw [h.winner j u hu hw] at hnone
        cases hnone
    have hpast : forall (j : Nat) (u : CreationTask),
        (P.advance i t ⟨c, r⟩ (k r) fs').tasks[j]? = some u ->
        ¬ Pending d slot u ∧ (Winner d slot u -> j = i ∧ u.tag = t.tag) := by
      intro j u hu
      rcases Pool.tasks_advance_get hu with ⟨hj, rfl⟩ | ⟨hj, hold⟩
      · constructor
        · intro hp
          apply hp.right.left
          rw [sights_concat]
          exact List.mem_append_right _ hplaced
        · intro _
          exact ⟨hj, rfl⟩
      · rcases hothers j u hj hold with ⟨hp, hw⟩
        exact ⟨hp, fun hwin => absurd hwin hw⟩
    constructor
    · intro j u hu hp
      exact absurd hp (hpast j u hu).left
    · intro j l u w hu _ hp _
      exact absurd hp (hpast j u hu).left
    · intro j u hu hw
      rw [((hpast j u hu).right hw).right]
      exact hview
    · intro j l u w hu hl hwu hwl
      rw [((hpast j u hu).right hwu).left, ((hpast l w hl).right hwl).left]
  · have hself : forall u : CreationTask,
        u = { tag := t.tag, past := t.past ++ [⟨c, r⟩], code := k r } ->
        (Winner d slot u -> Winner d slot t) ∧
          (Pending d slot u -> Pending d slot t ∨
            (tests (slot.objectLoc d.root) c = true ∧
              (staging d.root).view P.shared (slot.objectLoc d.root) = none)) := by
      intro u heq
      subst heq
      constructor
      · intro hw
        unfold Winner at hw
        rw [sights_concat] at hw
        rcases List.mem_append.mp hw with hold | hadded
        · exact hold
        · exact absurd hadded hplaced
      · intro hmade
        rcases hmade with ⟨htested, hnot, _⟩
        rw [sights_concat] at htested hnot
        rcases List.mem_append.mp htested with hold | hadded
        · exact Or.inl ⟨hold,
            fun hp => hnot (List.mem_append_left _ hp), hrunning⟩
        · exact Or.inr (hnew hadded)
    have hfree : forall (j : Nat) (u : CreationTask), P.tasks[j]? = some u ->
        tests (slot.objectLoc d.root) c = true -> ¬ Pending d slot u := by
      intro j u hu htest
      exact hguard htest u (List.mem_of_getElem? hu)
    constructor
    · intro j u hu hp
      show (staging d.root).view fs' (slot.objectLoc d.root) = none
      rw [hview]
      rcases Pool.tasks_advance_get hu with ⟨_, hnewTask⟩ | ⟨_, hold⟩
      · rcases (hself u hnewTask).right hp with hbefore | ⟨_, hnone⟩
        · exact h.vacant i t ht hbefore
        · exact hnone
      · exact h.vacant j u hold hp
    · intro j l u w hu hl hpu hpl
      rcases Pool.tasks_advance_get hu with ⟨hj, hu'⟩ | ⟨hj, hu'⟩
      · rcases Pool.tasks_advance_get hl with ⟨hl', _⟩ | ⟨_, hw'⟩
        · rw [hj, hl']
        · rcases (hself u hu').right hpu with hbefore | ⟨htest, _⟩
          · rw [hj]
            exact h.alone i l t w ht hw' hbefore hpl
          · exact absurd hpl (hfree l w hw' htest)
      · rcases Pool.tasks_advance_get hl with ⟨hl', hw'⟩ | ⟨_, hw'⟩
        · rcases (hself w hw').right hpl with hbefore | ⟨htest, _⟩
          · rw [hl']
            exact h.alone j i u t hu' ht hpu hbefore
          · exact absurd hpu (hfree j u hu' htest)
        · exact h.alone j l u w hu' hw' hpu hpl
    · intro j u hu hw
      show (staging d.root).view fs' (slot.objectLoc d.root) = _
      rw [hview]
      rcases Pool.tasks_advance_get hu with ⟨_, hu'⟩ | ⟨_, hu'⟩
      · have hbefore := h.winner i t ht ((hself u hu').left hw)
        rw [hu']
        exact hbefore
      · exact h.winner j u hu' hw
    · intro j l u w hu hl hwu hwl
      rcases Pool.tasks_advance_get hu with ⟨hj, hu'⟩ | ⟨hj, hu'⟩
      · rcases Pool.tasks_advance_get hl with ⟨hl', _⟩ | ⟨_, hw'⟩
        · rw [hj, hl']
        · rw [hj]
          exact h.unique i l t w ht hw' ((hself u hu').left hwu) hwl
      · rcases Pool.tasks_advance_get hl with ⟨hl', hw'⟩ | ⟨_, hw'⟩
        · rw [hl']
          exact h.unique j i u t hu' ht hwu ((hself w hw').left hwl)
        · exact h.unique j l u w hu' hw' hwu hwl

/-- While no test falls into the gap of another put, an object is created
once. -/
theorem created_once {fs : FileTree} (hready : Ready d slot fs)
    {P : CreationPool}
    (hreach : (creationGame d slot (Undisturbed d slot)).rules.Reach fs P) :
    CreatedOnce d slot P := by
  have hinv : exists G, (creation d slot).Custody
      (Open d slot (fs.node (slot.objectLoc d.root) = some Node.dir))
      (Created d slot) P G ∧ Once d slot P := by
    apply (creation_governed _).invariant hready.sound hready.view
      ?_ ?_ ?_ ?_ hreach
    · exact
        { vacant := fun _ _ ht => (Pool.tasks_boot_get ht).elim
          alone := fun _ _ _ _ ht => (Pool.tasks_boot_get ht).elim
          winner := fun _ _ ht => (Pool.tasks_boot_get ht).elim
          unique := fun _ _ _ _ ht => (Pool.tasks_boot_get ht).elim }
    · intro P G c _ hI _
      have hnew : forall (i : Nat) (u : CreationTask),
          (P.spawn c (c.run d slot)).tasks[i]? = some u ->
          Pending d slot u ∨ Winner d slot u -> P.tasks[i]? = some u := by
        intro i u hu hsome
        rcases Pool.tasks_spawn_get hu with hold | ⟨_, rfl⟩
        · exact hold
        · rcases hsome with hp | hw
          · exact absurd hp.left List.not_mem_nil
          · exact absurd hw List.not_mem_nil
      constructor
      · intro i t ht hp
        exact hI.vacant i t (hnew i t ht (Or.inl hp)) hp
      · intro i j t u ht hu hpt hpu
        exact hI.alone i j t u (hnew i t ht (Or.inl hpt))
          (hnew j u hu (Or.inl hpu)) hpt hpu
      · intro i t ht hw
        exact hI.winner i t (hnew i t ht (Or.inr hw)) hw
      · intro i j t u ht hu hwt hwu
        exact hI.unique i j t u (hnew i t ht (Or.inr hwt))
          (hnew j u hu (Or.inr hwu)) hwt hwu
    · intro P G i t c k r fs' g' _ hI ht hcode hguard hcan hstep _
      exact hI.advance ht hcode hguard hcan hstep
    · intro P G _ _ hstops
      exact absurd hstops id
  rcases hinv with ⟨G, hcustody, hI⟩
  have hwinner : forall (i : Nat) (t : CreationTask) r, P.tasks[i]? = some t ->
      t.code.ending = some (Except.ok r) -> r.deduped = false ->
      Winner d slot t :=
    fun i t r ht hend hfalse => hcustody.done ht hend hfalse
  constructor
  · intro i j t u r r' ht hu hend hend' hfalse hfalse'
    exact hI.unique i j t u ht hu (hwinner i t r ht hend hfalse)
      (hwinner j u r' hu hend' hfalse')
  · intro i t r ht hend hfalse
    rw [← view_storedObject]
    exact hI.winner i t ht (hwinner i t r ht hend hfalse)
  · intro i t e ht hend
    exact hcustody.done ht hend

/-!
## Two runs
-/

def returnedFlag (P : CreationPool) (i : Nat) : Option Bool :=
  (P.tasks[i]?).bind fun t =>
    t.code.ending.bind fun o => o.toOption.map PutResult.deduped

theorem returnedFlag_some {P : CreationPool} {i : Nat} {b : Bool}
    (h : returnedFlag P i = some b) :
    exists t r, P.tasks[i]? = some t ∧
      t.code.ending = some (Except.ok r) ∧ r.deduped = b := by
  unfold returnedFlag at h
  rcases Option.bind_eq_some_iff.mp h with ⟨t, ht, hend⟩
  rcases Option.bind_eq_some_iff.mp hend with ⟨o, ho, hflag⟩
  cases o with
  | error e => cases hflag
  | ok r => exact ⟨t, r, ht, ho, Option.some.inj hflag⟩

def sampleCreation (chunks : List Bytes) : Creation where
  data := sampleSource chunks
  contentType := text "image/png"
  metadata := none

def creationsInTurn : CreationPool :=
  (creationGame sampleDriver pictureSlot
      (Undisturbed sampleDriver pictureSlot)).outcome sampleTree
    ([Event.spawn (sampleCreation [[1, 2]]),
        Event.spawn (sampleCreation [[3]])] ++
      callsOf 0 0 16 ++ callsOf 1 20 6)

def racingCreations : CreationPool :=
  (creationGame sampleDriver pictureSlot fun _ _ _ => True).outcome
    sampleTree
    ([Event.spawn (sampleCreation [[1, 2]]),
        Event.spawn (sampleCreation [[3]])] ++
      callsOf 0 0 1 ++ callsOf 1 1 1 ++
      callsOf 0 2 15 ++ callsOf 1 20 15)

theorem created_once_inTurn :
    CreatedOnce sampleDriver pictureSlot creationsInTurn ∧
      [0, 1].map (returnedFlag creationsInTurn) = [some false, some true] := by
  constructor
  · exact created_once (sampleTree_fresh.ready sampleDriver _)
      ((creationGame _ _ _).outcome_reach sampleTree _)
  · decide +kernel

/-- Create-once fails for two puts that both find nothing. -/
theorem racingCreations_not_once :
    (creationGame sampleDriver pictureSlot fun _ _ _ => True).rules.Reach
        sampleTree racingCreations ∧
      ¬ CreatedOnce sampleDriver pictureSlot racingCreations := by
  constructor
  · exact (creationGame _ _ _).outcome_reach sampleTree _
  · intro honce
    have hflags : returnedFlag racingCreations 0 = some false ∧
        returnedFlag racingCreations 1 = some false := by decide +kernel
    rcases returnedFlag_some hflags.left with ⟨t, r, ht, hend, hfalse⟩
    rcases returnedFlag_some hflags.right with ⟨u, r', hu, hend', hfalse'⟩
    have hsame := honce.once 0 1 t u r r' ht hu hend hend' hfalse hfalse'
    cases hsame

end StorybookStorage
