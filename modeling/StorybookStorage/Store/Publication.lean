import StorybookStorage.Store.Fresh

/-!
# Objects appear whole

Any number of operations on any slots, interleaved call by call, with any call
failing and the process stopping anywhere: what lies at an object's place, and
what a reader has seen of it, comes from one put of that slot whose stream
ended.
-/

namespace StorybookStorage

open Python Posix Effects Contract

variable {settings : Settings} (d : LocalFsBlobDriver)

/-- A whole body of a put of this slot that was started. -/
def WholeBody (started : List (Operation settings)) (slot : Slot settings)
    (b : Bytes) : Prop :=
  exists data contentType ifNoneMatch metadata,
    Operation.put slot data contentType ifNoneMatch metadata ∈ started ∧
      data.ending = none ∧ b = data.body

/-- Objects are published whole and by their own puts; a get reads its object
and nothing else. -/
def publication : Contract (Operation settings) where
  toStaging := staging d.root
  May _ := True
  Sweeps := True
  Reads op p :=
    match op with
    | Operation.get slot _ => p = slot.objectLoc d.root
    | _ => True
  Writes op :=
    match op with
    | Operation.put _ _ _ _ _ => True
    | _ => False
  Stages _ _ _ := True
  Publishes op _ p b :=
    match op with
    | Operation.put slot data _ _ _ =>
        (p = slot.objectLoc d.root ∧ data.ending = none ∧ b = data.body) ∨
          p = slot.sidecarLoc d.root
    | _ => False
  Removes _ _ _ := True
  Makes _ _ _ := True

def Delivery (op : Operation settings) (o : Except Exn Reply) (s : Focus) :
    Prop :=
  match op, o with
  | Operation.get slot _, Except.ok (Reply.get (some (got, ended))) =>
      (s.hold = Hold.idle ∧ got = [] ∧ ended = false) ∨
        exists b, s.hold = Hold.closed (slot.objectLoc d.root) b got ∧
          (ended = true -> got = b)
  | _, _ => True

/-- Everything may happen: any operations, any schedule, any fault, any
stop. -/
def publicationRules : Rules calls FileTree (Operation settings) Exn Reply where
  machine := (system anyFault).machine
  program := Operation.run d
  accepts _ := True
  guard _ _ _ := True
  stops := True

theorem publication_programs (op : Operation settings) (v : View) :
    ((publication d).machine op (keeping fun _ => True)).wp (op.run d)
      (Delivery d op) { view := v, hold := Hold.idle, seen := [] } := by
  have hsteady := steady_keeping (fun _ => True)
  cases op with
  | put slot data contentType ifNoneMatch metadata =>
      apply wp_map
      apply wp_put d slot rfl hsteady trivial trivial rfl
      · exact
          { writes := trivial
            stages := fun _ _ => trivial
            makes := trivial
            publishes := fun hend => Or.inl ⟨rfl, hend, rfl⟩
            sidecarStages := fun _ _ => trivial
            sidecarMakes := trivial
            sidecarPublishes := fun _ => Or.inr rfl }
      · intros
        trivial
      · intros
        trivial
      · intros
        trivial
  | get slot pulls =>
      apply wp_map
      apply wp_fetch d slot rfl hsteady rfl rfl
      · intros
        trivial
      · intro b v' _ _ _
        exact Or.inl ⟨rfl, rfl, rfl⟩
      · intro b v1 v' got ended _ _ _ hend _ _
        exact Or.inr ⟨b, rfl, hend⟩
      · intros
        trivial
  | head slot =>
      apply wp_map
      apply wp_head d slot rfl hsteady trivial trivial rfl
      intros
      trivial
  | delete slot =>
      apply wp_map
      apply wp_delete d slot rfl rfl trivial (fun _ => trivial)
      intros
      trivial
  | cleanupStaleTmp olderThanSec =>
      apply wp_map
      apply wp_cleanupStaleTmp d rfl rfl trivial (fun _ _ => trivial)
      intros
      trivial

theorem publication_governed :
    Governed (publication d) (fun _ => True) (Delivery d) anyFault
      (publicationRules d : Rules calls FileTree (Operation settings) Exn Reply)
        where
  machine := rfl
  admits _ _ _ _ := Or.inr trivial
  programs op _ v _ := publication_programs d op v
  keeps _ _ _ _ _ _ _ _ _ _ _ := trivial

/-!
## The invariant
-/

/-- The bytes a task has read since it last opened a file. -/
def delivered (past : List (Sigma calls.Ret)) : Option Bytes :=
  past.foldl
    (fun acc e =>
      match e with
      | ⟨Call.openRead _, Except.ok _⟩ => some []
      | ⟨Call.read _ _, Except.ok chunk⟩ => acc.map (· ++ chunk)
      | _ => acc)
    none

/-- Where a get stands: it has not opened its object, or it has and holds what
it has read of it. -/
def Reading (p : Path) (g : Hold) (past : List (Sigma calls.Ret)) : Prop :=
  (g = Hold.idle ∧ delivered past = none) ∨
    exists b got, ((exists fd, g = Hold.reading fd p b got) ∨
      g = Hold.closed p b got) ∧ delivered past = some got

theorem delivered_concat (past : List (Sigma calls.Ret)) (e : Sigma calls.Ret) :
    delivered (past ++ [e]) =
      (match e with
      | ⟨Call.openRead _, Except.ok _⟩ => some []
      | ⟨Call.read _ _, Except.ok chunk⟩ => (delivered past).map (· ++ chunk)
      | _ => delivered past) := by
  unfold delivered
  rw [List.foldl_append]
  rfl

theorem reading_step {slot : Slot settings} {pulls : Nat} {v v' : View}
    {g g' : Hold} {seen : List Sight} {c : Call} {r : Call.Ret c}
    {past : List (Sigma calls.Ret)}
    (h : Reading (slot.objectLoc d.root) g past)
    (hcan : (publication d).Can (Operation.get slot pulls) seen g c)
    (hstep :
      (publication d : Contract (Operation settings)).Step v g c r v' g') :
    Reading (slot.objectLoc d.root) g' (past ++ [⟨c, r⟩]) := by
  have hsame : g' = g -> delivered (past ++ [⟨c, r⟩]) = delivered past ->
      Reading (slot.objectLoc d.root) g' (past ++ [⟨c, r⟩]) := by
    intro hg hd
    unfold Reading
    rw [hg, hd]
    exact h
  have hbare : forall u n p sent, g ≠ Hold.writing u n p sent := by
    intro u n p sent hg
    rcases h with ⟨hidle, _⟩ | ⟨b, got, ⟨fd, hr⟩ | hc, _⟩
    · rw [hidle] at hg; cases hg
    · rw [hr] at hg; cases hg
    · rw [hc] at hg; cases hg
  cases c with
  | uuid4 => exact absurd hcan.left id
  | openWrite t =>
      rcases hcan with ⟨_, u, hg, _⟩
      rcases h with ⟨hidle, _⟩ | ⟨b, got, ⟨fd, hr⟩ | hc, _⟩
      · rw [hidle] at hg; cases hg
      · rw [hr] at hg; cases hg
      · rw [hc] at hg; cases hg
  | write fd chunk =>
      rcases hcan with ⟨u, p, sent, hg⟩
      exact absurd hg (hbare u fd p sent)
  | flush fd =>
      rcases hcan with ⟨u, p, sent, hg⟩
      exact absurd hg (hbare u fd p sent)
  | fsync fd =>
      rcases hcan with ⟨u, p, sent, hg⟩
      exact absurd hg (hbare u fd p sent)
  | rename src dst =>
      rcases hcan with ⟨u, b', hg, _, _⟩
      rcases h with ⟨hidle, _⟩ | ⟨b, got, ⟨fd, hr⟩ | hc, _⟩
      · rw [hidle] at hg; cases hg
      · rw [hr] at hg; cases hg
      · rw [hc] at hg; cases hg
  | openRead t =>
      rcases hcan with ⟨hreads, _, _⟩
      rcases hstep with ⟨_, _, hrest⟩
      cases r with
      | error e => exact hsame hrest (by rw [delivered_concat])
      | ok fd =>
          rcases hrest with ⟨b, _, hg'⟩
          refine Or.inr ⟨b, [], Or.inl ⟨fd, ?_⟩, ?_⟩
          · rw [hg', show resolve t = slot.objectLoc d.root from hreads]
          · rw [delivered_concat]
  | read fd limit =>
      rcases hstep with ⟨_, p, body, got, hg, _, hrest⟩
      cases r with
      | error e => exact hsame hrest (by rw [delivered_concat])
      | ok chunk =>
          rcases hrest with ⟨_, hg'⟩
          rcases h with ⟨hidle, _⟩ | ⟨b, got0, ⟨fd0, hr⟩ | hc, hgot⟩
          · rw [hidle] at hg; cases hg
          · rw [hr] at hg
            cases hg
            refine Or.inr ⟨body, got ++ chunk, Or.inl ⟨fd, hg'⟩, ?_⟩
            rw [delivered_concat, hgot]
            rfl
          · rw [hc] at hg; cases hg
  | close fd =>
      rcases hstep with ⟨_, hg', _⟩
      have hd : delivered (past ++ [⟨Call.close fd, r⟩]) = delivered past := by
        rw [delivered_concat]
      rcases h with ⟨hidle, hnone⟩ | ⟨b, got, ⟨fd0, hr⟩ | hc, hgot⟩
      · rw [hidle] at hcan; cases hcan
      · refine Or.inr ⟨b, got, Or.inr ?_, by rw [hd, hgot]⟩
        rw [hg', hr]
        cases r <;> rfl
      · rw [hc] at hcan; cases hcan
  | remove t =>
      have hd : delivered (past ++ [⟨Call.remove t, r⟩]) = delivered past := by
        rw [delivered_concat]
      have hforsake : g.forsake = g := by
        rcases h with ⟨hidle, _⟩ | ⟨b, got, ⟨fd, hr⟩ | hc, _⟩
        · rw [hidle]; rfl
        · rw [hr]; rfl
        · rw [hc]; rfl
      rcases hstep with ⟨hhidden, hvisible⟩
      by_cases hh : (publication d : Contract (Operation settings)).Hidden (resolve t)
      · exact hsame ((hhidden hh).right.trans hforsake) hd
      · exact hsame (hvisible hh).left hd
  | makedirs t => exact hsame hstep.left (by rw [delivered_concat])
  | time => exact hsame hstep.right (by rw [delivered_concat])
  | getmtime t => exact hsame hstep.right (by rw [delivered_concat])
  | listdir t => exact hsame hstep.right (by rw [delivered_concat])
  | walk t => exact hsame hstep.right (by rw [delivered_concat])
  | pathExists t => exact hsame hstep.right.left (by rw [delivered_concat])
  | isfile t => exact hsame hstep.right.left (by rw [delivered_concat])
  | isdir t => exact hsame hstep.right.left (by rw [delivered_concat])
  | stat t => exact hsame hstep.right.left (by rw [delivered_concat])

structure Accounted (P : Pool calls FileTree (Operation settings) Exn Reply)
    (G : Nat -> Hold) : Prop where
  objects : forall slot b, storedObject d slot P.shared = some b ->
    WholeBody P.started slot b
  sources : forall i (slot : Slot settings) b,
    (G i).source = some (slot.objectLoc d.root, b) ->
    WholeBody P.started slot b
  readers : forall (i : Nat) (t : Task calls (Operation settings) Exn Reply)
    slot pulls, P.tasks[i]? = some t -> t.tag = Operation.get slot pulls ->
    Reading (slot.objectLoc d.root) (G i) t.past
  started : forall (i : Nat) (t : Task calls (Operation settings) Exn Reply),
    P.tasks[i]? = some t -> t.tag ∈ P.started

theorem WholeBody.mono {started started' : List (Operation settings)}
    {slot : Slot settings} {b : Bytes} (h : WholeBody started slot b)
    (hsub : started ⊆ started') : WholeBody started' slot b := by
  rcases h with ⟨data, contentType, ifNoneMatch, metadata, hmem, hrest⟩
  exact ⟨data, contentType, ifNoneMatch, metadata, hsub hmem, hrest⟩

structure NoObjects (settings : Settings) (fs : FileTree) : Prop where
  sound : fs.Sound
  empty : forall slot : Slot settings, storedObject d slot fs = none

theorem Fresh.noObjects {fs : FileTree} (h : Fresh d.root fs) :
    NoObjects d settings fs where
  sound := h.sound
  empty := h.storedObject

theorem accounted_of_reach {fs : FileTree} (hfresh : NoObjects d settings fs)
    {P : Pool calls FileTree (Operation settings) Exn Reply}
    (hreach : (publicationRules d).Reach fs P) :
    exists G, (publication d).Custody (fun _ => True) (Delivery d) P G ∧
      Accounted d P G := by
  apply (publication_governed d).invariant hfresh.sound trivial ?_ ?_ ?_ ?_ hreach
  · exact
      { objects := by
          intro slot b hb
          rw [show storedObject d slot (Pool.boot fs :
            Pool calls FileTree (Operation settings) Exn Reply).shared = none
              from hfresh.empty slot] at hb
          cases hb
        sources := fun _ _ _ h => nomatch h
        readers := fun _ _ _ _ ht => (Pool.tasks_boot_get ht).elim
        started := fun _ _ ht => (Pool.tasks_boot_get ht).elim }
  · intro P G tag hcustody hI _
    have hsub : P.started ⊆ (P.spawn tag (tag.run d)).started := by
      simp [Pool.spawn]
    exact
      { objects := fun slot b hb => (hI.objects slot b hb).mono hsub
        sources := fun i slot b hb => (hI.sources i slot b hb).mono hsub
        readers := by
          intro i t slot pulls ht htag
          rcases Pool.tasks_spawn_get ht with hold | ⟨hi, hnew⟩
          · exact hI.readers i t slot pulls hold htag
          · rw [hi, hcustody.unused _ (Nat.le_refl _), hnew]
            exact Or.inl ⟨rfl, rfl⟩
        started := by
          intro i t ht
          rcases Pool.tasks_spawn_get ht with hold | ⟨_, hnew⟩
          · exact hsub (hI.started i t hold)
          · rw [hnew]
            simp [Pool.spawn] }
  · intro P G i t c k r fs' g' hcustody hI ht _ _ hcan hstep _
    have hview : forall slot b, storedObject d slot fs' = some b ->
        storedObject d slot P.shared = some b ∨ WholeBody P.started slot b := by
      intro slot b hb
      rw [← view_storedObject] at hb ⊢
      rcases hstep.file hcan hb with hold | hpublished
      · exact Or.inl hold
      · apply Or.inr
        have hmem := hI.started i t ht
        cases htag : t.tag with
        | put slot' data contentType ifNoneMatch metadata =>
            rw [htag] at hpublished hmem
            rcases hpublished with ⟨hloc, hend, hbody⟩ | hloc
            · rw [Slot.objectLoc_inj hloc]
              exact ⟨data, contentType, ifNoneMatch, metadata, hmem, hend, hbody⟩
            · exact absurd hloc (slot.objectLoc_ne_sidecarLoc d.root slot')
        | get slot' pulls => rw [htag] at hpublished; exact absurd hpublished id
        | head slot' => rw [htag] at hpublished; exact absurd hpublished id
        | delete slot' => rw [htag] at hpublished; exact absurd hpublished id
        | cleanupStaleTmp n => rw [htag] at hpublished; exact absurd hpublished id
    exact
      { objects := by
          intro slot b hb
          rcases hview slot b hb with hold | hnew
          · exact hI.objects slot b hold
          · exact hnew
        sources := by
          intro j slot b hb
          by_cases hj : j = i
          · rw [hj, Function.update_self] at hb
            rcases hstep.source hb with hold | hseen
            · exact hI.sources i slot b hold
            · exact hI.objects slot b ((view_storedObject d slot).mp hseen)
          · rw [Function.update_of_ne hj] at hb
            exact hI.sources j slot b hb
        readers := by
          intro j u slot pulls hu htag
          rcases Pool.tasks_advance_get hu with ⟨hj, rfl⟩ | ⟨hj, hold⟩
          · rw [hj, Function.update_self]
            have hbefore := hI.readers i t slot pulls ht htag
            rw [show t.tag = Operation.get slot pulls from htag] at hcan
            exact reading_step d hbefore hcan hstep
          · rw [Function.update_of_ne hj]
            exact hI.readers j u slot pulls hold htag
        started := by
          intro j u hu
          rcases Pool.tasks_advance_get hu with ⟨_, rfl⟩ | ⟨_, hold⟩
          · exact hI.started i t ht
          · exact hI.started j u hold }
  · intro P G _ hI _
    exact
      { objects := hI.objects
        sources := fun _ _ _ h => nomatch h
        readers := fun _ _ _ _ ht => (Pool.tasks_stop_get ht).elim
        started := fun _ _ ht => (Pool.tasks_stop_get ht).elim }

@[reducible] def publicationGame :
    Game calls FileTree Choice (Operation settings) Exn Reply where
  chooser := system anyFault
  program := Operation.run d
  accepts _ := True
  guard _ _ _ := True
  stops := True

/-- A reader keeps the object it opened while a second put replaces it, and a
third put is stopped half way. -/
def replacedWhileRead : Pool calls FileTree (Operation sampleSettings) Exn Reply :=
  let slot := pictureSlot
  let put chunks :=
    Operation.put slot (sampleSource chunks) (text "image/png") none none
  (publicationGame sampleDriver).outcome sampleTree
    ([Event.spawn (put [[1, 2], [3]])] ++ callsOf 0 0 16 ++
      [Event.spawn (Operation.get slot 5)] ++ callsOf 1 20 2 ++
      [Event.spawn (put [[9]])] ++ callsOf 2 30 8 ++ callsOf 1 50 3 ++
      [Event.spawn (put [[7, 7], [8]])] ++ callsOf 3 60 3 ++ [Event.stop])

end StorybookStorage
