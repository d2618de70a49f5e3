import StorybookStorage.Posix.Simulation

/-!
# One task in focus

A program is checked against its contract on a small machine: the view, the hold
of the task and what it has seen.  After each of its own steps the view may move
on by a relation `env`: equality when the task runs alone, and keeping
directories and an invariant of the view when other tasks run in between.

Both uses are adequate for the file tree: `adequate_alone` for a program run to
its end, `Custody` for every task of a reachable pool.
-/

namespace Posix

open Effects Python FileTree

structure Focus where
  view : View
  hold : Hold
  seen : List Sight

namespace Contract

variable {ι err α : Type} (K : Contract ι)

def machine (tag : ι) (env : View -> View -> Prop) : Machine calls Focus where
  Can s c := K.Can tag s.seen s.hold c
  Step s c r s' :=
    exists v', K.Step s.view s.hold c r v' s'.hold ∧ env v' s'.view ∧
      s'.seen = s.seen ++ sight c r

def Faulty : Prop := exists c, K.May c

def Admits (allow : Policy) : Prop :=
  forall fs c f, allow fs c f -> f = none ∨ K.May c

variable {K} {allow : Policy} {tag : ι}

/-!
## Alone
-/

/-- What the contract machine shows of a program holds of every run of it on a
sound tree. -/
theorem adequate_alone (tag : ι) (hadmits : K.Admits allow) {fs fs' : FileTree}
    {p : Prog calls err α} {Q : Except err α -> Focus -> Prop}
    {trace : List (Sigma calls.Ret)} {o : Except err α}
    (hsound : fs.Sound)
    (hrun : (system allow).machine.Runs fs p trace o fs')
    (hwp : (K.machine tag Eq).wp p Q
      { view := K.view fs, hold := Hold.idle, seen := [] }) :
    fs'.Sound ∧ exists g, Q o
      { view := K.view fs', hold := g, seen := sights trace } := by
  have hsim := Machine.wp_simulates (N := K.machine tag Eq)
    (R := fun fs past s => s.view = K.view fs ∧ s.seen = sights past ∧
      K.Rep fs (Function.update (fun _ => Hold.idle) 0 s.hold))
    ?_ [] hrun (t := ⟨K.view fs, Hold.idle, []⟩) ?_ hwp
  · rcases hsim with ⟨s, ⟨hview, hseen, hrep⟩, hQ⟩
    refine ⟨hrep.sound, s.hold, ?_⟩
    rw [List.nil_append] at hseen
    rw [← hview, ← hseen]
    exact hQ
  · intro fs1 past s c r fs2 ⟨hview, hseen, hrep⟩ hcan ⟨ch, hlegal, hexec⟩
    have hself : Function.update (fun _ => Hold.idle) 0 s.hold 0 = s.hold :=
      Function.update_self _ _ _
    have hcan' : K.Can tag s.seen
        (Function.update (fun _ => Hold.idle) 0 s.hold 0) c := by
      rw [hself]
      exact hcan
    rcases hrep.step hcan' hlegal (hadmits _ _ _ hlegal.left) hexec with
      ⟨g', hstep, hrep'⟩
    rw [hself] at hstep
    rw [Function.update_idem] at hrep'
    refine ⟨⟨K.view fs2, g', s.seen ++ sight c r⟩, ?_, rfl, ?_, hrep'⟩
    · refine ⟨K.view fs2, ?_, rfl, rfl⟩
      rw [hview]
      exact hstep
    · rw [sights_concat, hseen]
  · refine ⟨rfl, rfl, ?_⟩
    rw [Function.update_eq_self_iff.mpr rfl]
    exact Rep.boot hsound

/-!
## In a pool
-/

/-- The view moves on, keeping an invariant and all directories. -/
def keeping (J : View -> Prop) (v v' : View) : Prop :=
  (J v -> J v') ∧ forall q, v q = some Entry.dir -> v' q = some Entry.dir

/-- What every use of `env` needs of it. -/
structure Steady (env : View -> View -> Prop) : Prop where
  refl : forall v, env v v
  trans : forall {v v1 v'}, env v v1 -> env v1 v' -> env v v'
  dirs : forall {v v' q}, env v v' -> v q = some Entry.dir ->
    v' q = some Entry.dir

theorem steady_eq : Steady Eq where
  refl _ := rfl
  trans h h' := h.trans h'
  dirs h hq := h ▸ hq

theorem steady_keeping (J : View -> Prop) : Steady (keeping J) where
  refl _ := ⟨id, fun _ => id⟩
  trans h h' := ⟨fun hJ => h'.left (h.left hJ),
    fun q hq => h'.right q (h.right q hq)⟩
  dirs h hq := h.right _ hq

theorem Step.dirs {v v' : View} {g g' : Hold} {c : Call} {r : Call.Ret c}
    (h : K.Step v g c r v' g') {q : Path} (hq : v q = some Entry.dir) :
    v' q = some Entry.dir := by
  cases c with
  | makedirs t =>
      rcases h with ⟨_, hwidens, _⟩
      rcases hwidens q with hsame | ⟨hnone, _⟩
      · rw [hsame]
        exact hq
      · rw [hq] at hnone
        cases hnone
  | rename src dst =>
      rcases h with ⟨u, b, _, _, _, hrest⟩
      cases r with
      | error e => rw [show v' = v from hrest]; exact hq
      | ok _ =>
          rcases hrest with ⟨hdst, _, hv'⟩
          rw [hv', Function.update_of_ne]
          · exact hq
          · intro hqd
            rw [hqd] at hq
            exact hdst hq
  | remove t =>
      rcases h with ⟨hhidden, hvisible⟩
      by_cases hh : K.Hidden (resolve t)
      · rw [(hhidden hh).left]
        exact hq
      · rcases hvisible hh with ⟨_, _, hrest⟩
        cases r with
        | error e => rw [show v' = v from hrest]; exact hq
        | ok _ =>
            rcases hrest with ⟨⟨b, hb⟩, hv'⟩
            rw [hv', Function.update_of_ne]
            · exact hq
            · intro hqt
              rw [hqt, hb] at hq
              cases hq
  | _ =>
      rw [show v' = v from h.left]
      exact hq

theorem Step.placed {v v' : View} {g g' : Hold} {c : Call} {r : Call.Ret c}
    {seen : List Sight} (h : K.Step v g c r v' g') (hcan : K.Can tag seen g c)
    {q : Path} (hq : Sight.placed q ∈ sight c r) :
    exists b, K.Publishes tag seen q b ∧ v q ≠ some Entry.dir ∧
      v q.dropLast = some Entry.dir ∧
      v' = Function.update v q (some (Entry.file b)) := by
  cases c with
  | rename src dst =>
      rcases hcan with ⟨u, b, hg, _, hpublishes⟩
      rcases h with ⟨u', b', hg', _, _, hrest⟩
      rw [hg] at hg'
      cases hg'
      cases r with
      | error e => simp [sight] at hq
      | ok _ =>
          have heq : q = resolve dst := by simpa [sight] using hq
          rw [heq]
          exact ⟨b, hpublishes, hrest⟩
  | _ => first | (simp [sight] at hq; done) | (cases r <;> simp [sight] at hq)

theorem Step.removed {v v' : View} {g g' : Hold} {c : Call} {r : Call.Ret c}
    (h : K.Step v g c r v' g') {q : Path} (hvisible : ¬ K.Hidden q)
    (hq : Sight.removed q ∈ sight c r) : v' q = none := by
  cases c with
  | remove t =>
      cases r with
      | error e => simp [sight] at hq
      | ok _ =>
          have heq : q = resolve t := by simpa [sight] using hq
          rw [heq] at hvisible ⊢
          rw [(h.right hvisible).right.right.right, Function.update_self]
  | _ => first | (simp [sight] at hq; done) | (cases r <;> simp [sight] at hq)

theorem Can.removes {c : Call} {r : Call.Ret c} {seen : List Sight}
    {g : Hold} (hcan : K.Can tag seen g c) {q : Path} (hq : ¬ K.Hidden q)
    (h : Sight.removed q ∈ sight c r) : K.Removes tag seen q := by
  cases c with
  | remove t =>
      cases r with
      | error e => simp [sight] at h
      | ok _ =>
          have heq : q = resolve t := by simpa [sight] using h
          rw [heq] at hq ⊢
          exact hcan.right.left hq
  | _ => first | (simp [sight] at h; done) | (cases r <;> simp [sight] at h)

/-- A name changes by being placed, removed, or made a directory. -/
theorem Step.same {v v' : View} {g g' : Hold} {c : Call} {r : Call.Ret c}
    {seen : List Sight} (h : K.Step v g c r v' g') (hcan : K.Can tag seen g c)
    {q : Path} (hplaced : Sight.placed q ∉ sight c r)
    (hremoved : ¬ K.Hidden q -> Sight.removed q ∉ sight c r)
    (hmakes : forall p, K.Makes tag seen p -> ¬ q <+: p) : v' q = v q := by
  cases c with
  | makedirs t =>
      rcases h with ⟨_, hwidens, _⟩
      rcases hwidens q with hsame | ⟨_, _, hpre⟩
      · exact hsame
      · exact absurd hpre (hmakes _ hcan)
  | rename src dst =>
      rcases h with ⟨u, b, _, _, _, hrest⟩
      cases r with
      | error e => rw [show v' = v from hrest]
      | ok _ =>
          rw [hrest.right.right, Function.update_of_ne]
          intro hq
          exact hplaced (by rw [hq]; exact List.mem_cons_self)
  | remove t =>
      rcases h with ⟨hhidden, hvisible⟩
      by_cases hh : K.Hidden (resolve t)
      · rw [(hhidden hh).left]
      · rcases hvisible hh with ⟨_, _, hrest⟩
        cases r with
        | error e => rw [show v' = v from hrest]
        | ok _ =>
            rw [hrest.right, Function.update_of_ne]
            intro hq
            rw [hq] at hremoved
            exact hremoved hh List.mem_cons_self
  | _ => rw [show v' = v from h.left]

theorem Step.file {v v' : View} {g g' : Hold} {c : Call} {r : Call.Ret c}
    {seen : List Sight} (h : K.Step v g c r v' g') (hcan : K.Can tag seen g c)
    {p : Path} {b : Bytes} (hp : v' p = some (Entry.file b)) :
    v p = some (Entry.file b) ∨ K.Publishes tag seen p b := by
  cases c with
  | makedirs t =>
      rcases h with ⟨_, hwidens, _⟩
      rcases hwidens p with hsame | ⟨_, hdir, _⟩
      · exact Or.inl (hsame ▸ hp)
      · rw [hdir] at hp
        cases hp
  | rename src dst =>
      rcases h with ⟨u, b', hg, _, _, hrest⟩
      rcases hcan with ⟨u', b'', hg', _, hpublishes⟩
      rw [hg] at hg'
      cases hg'
      cases r with
      | error e =>
          rw [show v' = v from hrest] at hp
          exact Or.inl hp
      | ok _ =>
          rcases hrest with ⟨_, _, hv'⟩
          by_cases hpd : p = resolve dst
          · rw [hv', hpd, Function.update_self] at hp
            cases hp
            exact Or.inr (hpd ▸ hpublishes)
          · rw [hv', Function.update_of_ne hpd] at hp
            exact Or.inl hp
  | remove t =>
      rcases h with ⟨hhidden, hvisible⟩
      by_cases hh : K.Hidden (resolve t)
      · rw [(hhidden hh).left] at hp
        exact Or.inl hp
      · rcases hvisible hh with ⟨_, _, hrest⟩
        cases r with
        | error e =>
            rw [show v' = v from hrest] at hp
            exact Or.inl hp
        | ok _ =>
            rcases hrest with ⟨_, hv'⟩
            by_cases hpt : p = resolve t
            · rw [hv', hpt, Function.update_self] at hp
              cases hp
            · rw [hv', Function.update_of_ne hpt] at hp
              exact Or.inl hp
  | _ =>
      rw [show v' = v from h.left] at hp
      exact Or.inl hp

theorem Step.made {v v' : View} {g g' : Hold} {c : Call} {r : Call.Ret c}
    {seen : List Sight} (h : K.Step v g c r v' g') (hcan : K.Can tag seen g c)
    {q : Path} (hq : v' q = some Entry.dir) :
    v q = some Entry.dir ∨ exists p, K.Makes tag seen p ∧ q <+: p := by
  by_cases hmakes : exists p, K.Makes tag seen p ∧ q <+: p
  · exact Or.inr hmakes
  · apply Or.inl
    have hnot : forall p, K.Makes tag seen p -> ¬ q <+: p :=
      fun p hp hpre => hmakes ⟨p, hp, hpre⟩
    by_cases hplaced : Sight.placed q ∈ sight c r
    · rcases h.placed hcan hplaced with ⟨b, _, _, _, hv'⟩
      rw [hv', Function.update_self] at hq
      cases hq
    · by_cases hremoved : ¬ K.Hidden q ∧ Sight.removed q ∈ sight c r
      · rw [h.removed hremoved.left hremoved.right] at hq
        cases hq
      · rw [← h.same hcan hplaced
          (fun hv hr => hremoved ⟨hv, hr⟩) hnot]
        exact hq

/-- A token in hand was in hand before, or was drawn by this call. -/
theorem Step.drawn {v v' : View} {g g' : Hold} {c : Call} {r : Call.Ret c}
    (h : K.Step v g c r v' g') {u : Text} (hg : g' = Hold.drawn u) :
    g = Hold.drawn u ∨ (v' = v ∧ forall p, K.Place u p -> v p = none) := by
  cases c with
  | uuid4 =>
      rcases h with ⟨hv, hg', _, hfree⟩
      rw [hg'] at hg
      cases hg
      exact Or.inr ⟨hv, hfree⟩
  | openWrite t =>
      rcases h with ⟨_, w, _, _, hg'⟩
      rw [hg'] at hg
      cases r <;> cases hg
  | openRead t =>
      rcases h with ⟨_, _, hrest⟩
      cases r with
      | error e => exact Or.inl ((show g' = g from hrest) ▸ hg)
      | ok fd =>
          rcases hrest with ⟨b, _, hg'⟩
          rw [hg'] at hg
          cases hg
  | write fd chunk =>
      rcases h with ⟨_, w, p, sent, _, _, hg'⟩
      rw [hg'] at hg
      cases hg
  | close fd =>
      rcases h with ⟨_, hg', _⟩
      rw [hg'] at hg
      apply Or.inl
      cases g with
      | writing w n q sent =>
          cases sent <;> cases hr : r.isOk <;> rw [hr] at hg <;> cases hg
      | reading n q b got => cases hr : r.isOk <;> rw [hr] at hg <;> cases hg
      | _ => cases hr : r.isOk <;> rw [hr] at hg <;> exact hg
  | read fd limit =>
      rcases h with ⟨_, q, body, got, hold, _, hrest⟩
      cases r with
      | error e => exact Or.inl ((show g' = g from hrest) ▸ hg)
      | ok chunk =>
          rw [hrest.right] at hg
          cases hg
  | rename src dst =>
      rcases h with ⟨w, b, _, hg', _⟩
      rw [hg'] at hg
      cases hg
  | remove t =>
      rcases h with ⟨hhidden, hvisible⟩
      apply Or.inl
      by_cases hh : K.Hidden (resolve t)
      · rw [(hhidden hh).right] at hg
        cases g <;> first | exact hg | cases hg
      · exact (hvisible hh).left ▸ hg
  | makedirs t => exact Or.inl (h.left ▸ hg)
  | time => exact Or.inl (h.right ▸ hg)
  | getmtime t => exact Or.inl (h.right ▸ hg)
  | listdir t => exact Or.inl (h.right ▸ hg)
  | walk t => exact Or.inl (h.right ▸ hg)
  | _ => exact Or.inl (h.right.left ▸ hg)

theorem Step.source {v v' : View} {g g' : Hold} {c : Call} {r : Call.Ret c}
    (h : K.Step v g c r v' g') {p : Path} {b : Bytes}
    (hg : g'.source = some (p, b)) :
    g.source = some (p, b) ∨ v p = some (Entry.file b) := by
  cases c with
  | uuid4 =>
      rw [h.right.left] at hg
      cases hg
  | openWrite t =>
      rcases h with ⟨_, u, _, _, hg'⟩
      rw [hg'] at hg
      cases r <;> cases hg
  | openRead t =>
      rcases h with ⟨_, _, hrest⟩
      cases r with
      | error e =>
          rw [show g' = g from hrest] at hg
          exact Or.inl hg
      | ok fd =>
          rcases hrest with ⟨b', hb', hg'⟩
          rw [hg'] at hg
          cases hg
          exact Or.inr hb'
  | write fd chunk =>
      rcases h with ⟨_, u, q, sent, _, _, hg'⟩
      rw [hg'] at hg
      cases hg
  | close fd =>
      rcases h with ⟨_, hg', _⟩
      rw [hg'] at hg
      apply Or.inl
      cases g with
      | writing u n q sent => cases sent <;> cases hr : r.isOk <;> rw [hr] at hg <;> cases hg
      | _ => cases hr : r.isOk <;> rw [hr] at hg <;> exact hg
  | read fd limit =>
      rcases h with ⟨_, q, body, got, hold, _, hrest⟩
      cases r with
      | error e =>
          rw [show g' = g from hrest] at hg
          exact Or.inl hg
      | ok chunk =>
          rw [hrest.right] at hg
          rw [hold]
          exact Or.inl hg
  | rename src dst =>
      rcases h with ⟨u, b', _, hg', _⟩
      rw [hg'] at hg
      cases hg
  | remove t =>
      rcases h with ⟨hhidden, hvisible⟩
      by_cases hh : K.Hidden (resolve t)
      · rw [(hhidden hh).right] at hg
        apply Or.inl
        cases g <;> exact hg
      · rw [(hvisible hh).left] at hg
        exact Or.inl hg
  | makedirs t =>
      rw [h.left] at hg
      exact Or.inl hg
  | time => rw [h.right] at hg; exact Or.inl hg
  | getmtime t => rw [h.right] at hg; exact Or.inl hg
  | listdir t => rw [h.right] at hg; exact Or.inl hg
  | walk t => rw [h.right] at hg; exact Or.inl hg
  | _ => rw [h.right.left] at hg; exact Or.inl hg

structure Custody (K : Contract ι) (J : View -> Prop)
    (Done : ι -> Except err α -> Focus -> Prop)
    (P : Pool calls FileTree ι err α) (G : Nat -> Hold) : Prop where
  rep : K.Rep P.shared G
  good : J (K.view P.shared)
  unused : forall i, P.tasks.length ≤ i -> G i = Hold.idle
  follows : forall (i : Nat) (t : Task calls ι err α), P.tasks[i]? = some t ->
    forall v, keeping J (K.view P.shared) v ->
      (K.machine t.tag (keeping J)).wp t.code (Done t.tag)
        { view := v, hold := G i, seen := sights t.past }

variable {J : View -> Prop} {Done : ι -> Except err α -> Focus -> Prop}
  {P : Pool calls FileTree ι err α} {G : Nat -> Hold}

theorem Custody.spawn (h : Custody K J Done P G) {p : Prog calls err α}
    (hp : forall v, J v ->
      (K.machine tag (keeping J)).wp p (Done tag)
        { view := v, hold := Hold.idle, seen := [] }) :
    Custody K J Done (P.spawn tag p) G where
  rep := h.rep
  good := h.good
  unused := by
    intro i hi
    apply h.unused
    rw [Pool.length_spawn] at hi
    omega
  follows := by
    intro i t ht v hv
    rcases Pool.tasks_spawn_get ht with hold | ⟨hi, hnew⟩
    · exact h.follows i t hold v hv
    · rw [hi, h.unused P.tasks.length (Nat.le_refl _), hnew]
      exact hp v (hv.left h.good)

theorem Custody.stop (h : Custody K J Done P G) :
    Custody K J Done P.stop (fun _ => Hold.idle) where
  rep := h.rep.stop
  good := h.good
  unused _ _ := rfl
  follows := fun _ _ ht => (Pool.tasks_stop_get ht).elim

theorem Custody.advance (h : Custody K J Done P G)
    (hadmits : K.Admits allow) {i : Nat} {t : Task calls ι err α} {c : Call}
    {k : Call.Ret c -> Prog calls err α} {r : Call.Ret c} {fs' : FileTree}
    (ht : P.tasks[i]? = some t) (hc : t.code = Prog.call (S := calls) c k)
    (hstep : (system allow).machine.Step P.shared c r fs')
    (hkeep : forall g', K.Can t.tag (sights t.past) (G i) c ->
      K.Step (K.view P.shared) (G i) c r (K.view fs') g' ->
      J (K.view fs')) :
    exists g', K.Can t.tag (sights t.past) (G i) c ∧
      K.Step (K.view P.shared) (G i) c r (K.view fs') g' ∧
      Custody K J Done (P.advance i t ⟨c, r⟩ (k r) fs')
        (Function.update G i g') := by
  have hlt : i < P.tasks.length := (List.getElem?_eq_some_iff.mp ht).1
  have hwp := h.follows i t ht
  rw [hc] at hwp
  have hnow := (steady_keeping J).refl (K.view P.shared)
  have hcan : K.Can t.tag (sights t.past) (G i) c := (hwp _ hnow).left
  rcases hstep with ⟨ch, hlegal, hexec⟩
  rcases h.rep.step hcan hlegal (hadmits _ _ _ hlegal.left) hexec with
    ⟨g', hstep, hrep⟩
  have hgood := hkeep g' hcan hstep
  refine ⟨g', hcan, hstep, hrep, hgood, ?_, ?_⟩
  · intro j hj
    have hlen : P.tasks.length ≤ j := by
      rwa [Pool.length_advance] at hj
    rw [Function.update_of_ne (by omega)]
    exact h.unused j hlen
  · intro j u hu v hv
    rcases Pool.tasks_advance_get hu with ⟨hj, rfl⟩ | ⟨hj, hold⟩
    · rw [hj, Function.update_self, sights_concat]
      exact (hwp _ hnow).right r ⟨v, g', _⟩ ⟨K.view fs', hstep, hv, rfl⟩
    · rw [Function.update_of_ne hj]
      apply h.follows j u hold v
      exact (steady_keeping J).trans
        ⟨fun _ => hgood, fun q hq => hstep.dirs hq⟩ hv

/-- A task that has finished has kept its promise. -/
theorem Custody.done (h : Custody K J Done P G) {i : Nat}
    {t : Task calls ι err α} {o : Except err α} (ht : P.tasks[i]? = some t)
    (ho : t.code.ending = some o) :
    Done t.tag o
      { view := K.view P.shared, hold := G i, seen := sights t.past } := by
  have hwp := h.follows i t ht _ ((steady_keeping J).refl _)
  cases hcode : t.code with
  | done a =>
      rw [hcode] at hwp ho
      cases ho
      exact hwp
  | raise e =>
      rw [hcode] at hwp ho
      cases ho
      exact hwp
  | call c k =>
      rw [hcode] at ho
      cases ho

end Contract

/-- The rules of a pool whose tasks keep to a contract, whatever the view in
between, as long as they keep an invariant of it. -/
structure Governed {ι err α : Type} (K : Contract ι) (J : View -> Prop)
    (Done : ι -> Except err α -> Focus -> Prop) (allow : Policy)
    (R : Rules calls FileTree ι err α) : Prop where
  machine : R.machine = (system allow).machine
  admits : K.Admits allow
  programs : forall tag, R.accepts tag -> forall v, J v ->
    (K.machine tag (Contract.keeping J)).wp (R.program tag) (Done tag)
      { view := v, hold := Hold.idle, seen := [] }
  keeps : forall tag seen v g c r v' g', J v -> K.Can tag seen g c ->
    K.Step v g c r v' g' -> J v'

namespace Governed

variable {ι err α : Type} {K : Contract ι} {J : View -> Prop}
  {Done : ι -> Except err α -> Focus -> Prop} {allow : Policy}
  {R : Rules calls FileTree ι err α} {fs : FileTree}

/-- Custody is kept on the way to every reachable pool, and with it any further
invariant `I` of the pool and the holds. -/
theorem invariant_reached (h : Governed K J Done allow R)
    {I : Pool calls FileTree ι err α -> (Nat -> Hold) -> Prop}
    (hsound : fs.Sound) (hgood : J (K.view fs))
    (hboot : I (Pool.boot fs) (fun _ => Hold.idle))
    (hspawn : forall P G tag, K.Custody J Done P G -> I P G ->
      R.accepts tag -> I (P.spawn tag (R.program tag)) G)
    (hadvance : forall P G i t c k r fs' g', R.Reach fs P ->
      K.Custody J Done P G -> I P G ->
      P.tasks[i]? = some t -> t.code = Prog.call (S := calls) c k ->
      R.guard P i ⟨c, r⟩ ->
      K.Can t.tag (sights t.past) (G i) c ->
      K.Step (K.view P.shared) (G i) c r (K.view fs') g' ->
      K.Custody J Done (P.advance i t ⟨c, r⟩ (k r) fs')
        (Function.update G i g') ->
      I (P.advance i t ⟨c, r⟩ (k r) fs') (Function.update G i g'))
    (hstop : forall P G, K.Custody J Done P G -> I P G -> R.stops ->
      I P.stop (fun _ => Hold.idle))
    {P : Pool calls FileTree ι err α} (hreach : R.Reach fs P) :
    exists G, K.Custody J Done P G ∧ I P G := by
  refine Rules.Reach.invariant
    (I := fun P => exists G, K.Custody J Done P G ∧ I P G)
    ?_ ?_ ?_ ?_ hreach
  · refine ⟨fun _ => Hold.idle, ⟨Contract.Rep.boot hsound, hgood, ?_, ?_⟩, hboot⟩
    · intro i _
      rfl
    · intro i t ht
      exact (Pool.tasks_boot_get ht).elim
  · intro P tag _ hheld haccepts
    rcases hheld with ⟨G, hcustody, hI⟩
    exact ⟨G, hcustody.spawn (h.programs tag haccepts),
      hspawn P G tag hcustody hI haccepts⟩
  · intro P i t c k r fs' hreach hheld ht hc hguard hstep
    rcases hheld with ⟨G, hcustody, hI⟩
    rw [h.machine] at hstep
    rcases hcustody.advance h.admits ht hc hstep
        (fun g' hcan hs => h.keeps _ _ _ _ _ _ _ _ hcustody.good hcan hs) with
      ⟨g', hcan, hs, hnext⟩
    exact ⟨_, hnext,
      hadvance P G i t c k r fs' g' hreach hcustody hI ht hc hguard hcan hs hnext⟩
  · intro P _ hheld hstops
    rcases hheld with ⟨G, hcustody, hI⟩
    exact ⟨_, hcustody.stop, hstop P G hcustody hI hstops⟩

theorem invariant (h : Governed K J Done allow R)
    {I : Pool calls FileTree ι err α -> (Nat -> Hold) -> Prop}
    (hsound : fs.Sound) (hgood : J (K.view fs))
    (hboot : I (Pool.boot fs) (fun _ => Hold.idle))
    (hspawn : forall P G tag, K.Custody J Done P G -> I P G ->
      R.accepts tag -> I (P.spawn tag (R.program tag)) G)
    (hadvance : forall P G i t c k r fs' g', K.Custody J Done P G -> I P G ->
      P.tasks[i]? = some t -> t.code = Prog.call (S := calls) c k ->
      R.guard P i ⟨c, r⟩ ->
      K.Can t.tag (sights t.past) (G i) c ->
      K.Step (K.view P.shared) (G i) c r (K.view fs') g' ->
      K.Custody J Done (P.advance i t ⟨c, r⟩ (k r) fs')
        (Function.update G i g') ->
      I (P.advance i t ⟨c, r⟩ (k r) fs') (Function.update G i g'))
    (hstop : forall P G, K.Custody J Done P G -> I P G -> R.stops ->
      I P.stop (fun _ => Hold.idle))
    {P : Pool calls FileTree ι err α} (hreach : R.Reach fs P) :
    exists G, K.Custody J Done P G ∧ I P G :=
  h.invariant_reached hsound hgood hboot hspawn
    (fun P G i t c k r fs' g' _ => hadvance P G i t c k r fs' g') hstop hreach

end Governed

end Posix
