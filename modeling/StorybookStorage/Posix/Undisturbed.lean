import StorybookStorage.Posix.Focus

/-!
# Files nobody touched

The view forgets when a file was written last.  A task that puts nothing in
place and removes nothing leaves the visible files as they are, their times
included.
-/

namespace Posix

open Effects Python FileTree

/-- The same visible files, down to the inode. -/
structure Staging.Undisturbed (L : Staging) (fs fs' : FileTree) : Prop where
  kept : forall p i, ¬ L.Hidden p -> fs.node p = some (Node.file i) ->
    fs'.node p = some (Node.file i) ∧ fs'.inodes i = fs.inodes i
  old : forall p i, ¬ L.Hidden p -> fs'.node p = some (Node.file i) ->
    fs.node p = some (Node.file i)

namespace Staging

variable {L : Staging} {fs fs1 fs' : FileTree}

theorem Undisturbed.refl (fs : FileTree) : L.Undisturbed fs fs where
  kept := fun _ _ _ h => ⟨h, rfl⟩
  old := fun _ _ _ h => h

theorem Undisturbed.trans (h : L.Undisturbed fs fs1)
    (h' : L.Undisturbed fs1 fs') : L.Undisturbed fs fs' where
  kept := by
    intro p i hp hi
    rcases h.kept p i hp hi with ⟨hi1, hinode⟩
    rcases h'.kept p i hp hi1 with ⟨hi', hinode'⟩
    exact ⟨hi', hinode'.trans hinode⟩
  old := fun p i hp hi => h.old p i hp (h'.old p i hp hi)

theorem undisturbed_of_fields (hnode : fs'.node = fs.node)
    (hinodes : fs'.inodes = fs.inodes) : L.Undisturbed fs fs' where
  kept := by
    intro p i _ hi
    rw [hnode, hinodes]
    exact ⟨hi, rfl⟩
  old := by
    intro p i _ hi
    rw [← hnode]
    exact hi

theorem undisturbed_setInode {j : Nat} {n : Inode}
    (hhidden : forall p, fs.node p = some (Node.file j) -> L.Hidden p) :
    L.Undisturbed fs (fs.setInode j n) where
  kept := by
    intro p i hp hi
    refine ⟨hi, ?_⟩
    apply Function.update_of_ne
    intro heq
    rw [heq] at hi
    exact hp (hhidden p hi)
  old := fun _ _ _ hi => hi

theorem undisturbed_create {q : Path} {now : Rat} (hsound : fs.Sound)
    (hq : L.Hidden q) : L.Undisturbed fs (fs.create q now) where
  kept := by
    intro p i hp hi
    have hne : p ≠ q := fun h => hp (h ▸ hq)
    refine ⟨?_, ?_⟩
    · rw [node_create_ne fs now hne]
      exact hi
    · apply Function.update_of_ne
      have hbound := hsound.bound p i hi
      omega
  old := by
    intro p i hp hi
    have hne : p ≠ q := fun h => hp (h ▸ hq)
    rwa [node_create_ne fs now hne] at hi

theorem undisturbed_mkdirs {segs : List Text} {limit : Nat} :
    L.Undisturbed fs (fs.mkdirs [] segs limit) where
  kept := by
    intro p i _ hi
    exact ⟨node_mkdirs_of_some hi, by rw [mkdirs_inodes]⟩
  old := by
    intro p i _ hi
    cases hn : fs.node p with
    | some n =>
        have hkept := @node_mkdirs_of_some fs [] p segs limit n hn
        rw [hi] at hkept
        exact hkept.symm
    | none =>
        rcases @node_mkdirs_of_none fs [] p segs limit hn with hnone | ⟨hdir, _⟩
        · rw [hi] at hnone
          cases hnone
        · rw [hi] at hdir
          cases hdir

theorem undisturbed_unlink {q : Path} (hq : L.Hidden q) :
    L.Undisturbed fs (fs.unlink q) where
  kept := by
    intro p i hp hi
    have hne : p ≠ q := fun h => hp (h ▸ hq)
    rw [node_unlink_ne fs hne]
    exact ⟨hi, rfl⟩
  old := by
    intro p i hp hi
    have hne : p ≠ q := fun h => hp (h ▸ hq)
    rwa [node_unlink_ne fs hne] at hi

theorem undisturbed_drain {fd k : Nat} {x : Handle} {now : Rat}
    (h : x.pending = [] ∨
      forall p, fs.node p = some (Node.file x.ino) -> L.Hidden p) :
    L.Undisturbed fs (fs.drain fd x k now) := by
  rcases h with hempty | hhidden
  · refine undisturbed_of_fields (by rfl) ?_
    have hinode : Function.update fs.inodes x.ino (fs.inodes x.ino) =
        fs.inodes := Function.update_eq_self _ _
    simp only [FileTree.drain, FileTree.setHandle, FileTree.setInode, hempty,
      List.take_nil, List.append_nil, if_true, hinode]
  · exact (undisturbed_setInode hhidden).trans (undisturbed_of_fields rfl rfl)

end Staging

/-!
## Where files come from
-/

def placesFile : (c : Call) -> Call.Ret c -> List Path
  | Call.openWrite t, Except.ok _ => [resolve t]
  | Call.rename _ dst, Except.ok _ => [resolve dst]
  | _, _ => []

theorem exec_file {ch : Choice} {fs fs' : FileTree} {c : Call} {r : Call.Ret c}
    {q : Path} {i : Nat} (hexec : exec ch c fs = (r, fs'))
    (hq : fs'.node q = some (Node.file i)) :
    fs.node q = some (Node.file i) ∨ q ∈ placesFile c r := by
  have hquiet : c.Quiet -> fs.node q = some (Node.file i) := by
    intro hc
    rwa [exec_quiet hc hexec] at hq
  cases c with
  | uuid4 =>
      rcases exec_uuid4 hexec with ⟨_, _, hentries, _⟩
      unfold node at hq ⊢
      rw [hentries] at hq
      exact Or.inl hq
  | openWrite t =>
      rcases exec_openWrite hexec with
        ⟨_, _, rfl⟩ | ⟨j, hj, _, rfl⟩ | ⟨_, _, rfl, rfl⟩
      · exact Or.inl hq
      · exact Or.inl hq
      · rcases eq_or_ne q (resolve t) with rfl | hne
        · exact Or.inr List.mem_cons_self
        · rw [node_openHandle, node_create_ne _ _ hne] at hq
          exact Or.inl hq
  | openRead t =>
      rcases exec_openRead hexec with ⟨_, _, rfl⟩ | ⟨j, _, _, rfl⟩
      · exact Or.inl hq
      · exact Or.inl hq
  | write n chunk =>
      rcases exec_write hexec with ⟨_, _, rfl⟩ | ⟨x, _, rfl, _⟩
      · exact Or.inl hq
      · exact Or.inl hq
  | flush n =>
      rcases exec_flush hexec with ⟨_, _, rfl⟩ | ⟨x, k, _, rfl, _⟩
      · exact Or.inl hq
      · exact Or.inl hq
  | close n =>
      rcases exec_close hexec with ⟨_, _, rfl⟩ | ⟨x, k, _, rfl, _⟩
      · exact Or.inl hq
      · exact Or.inl hq
  | read n limit =>
      rcases exec_read hexec with ⟨_, _, rfl⟩ | ⟨x, got, _, _, _, rfl⟩
      · exact Or.inl hq
      · exact Or.inl hq
  | makedirs t =>
      rcases exec_makedirs hexec with ⟨_, _, rfl⟩ | ⟨limit, rfl, _⟩
      · exact Or.inl hq
      · cases hn : fs.node q with
        | some n =>
            have hkept := @node_mkdirs_of_some fs [] q (resolve t) limit n hn
            rw [hq] at hkept
            exact Or.inl hkept.symm
        | none =>
            rcases @node_mkdirs_of_none fs [] q (resolve t) limit hn with
              hnone | ⟨hdir, _⟩
            · rw [hq] at hnone
              cases hnone
            · rw [hq] at hdir
              cases hdir
  | rename src dst =>
      rcases exec_rename hexec with ⟨_, _, rfl⟩ | ⟨j, rfl, _, _, _, rfl⟩
      · exact Or.inl hq
      · rcases eq_or_ne q (resolve dst) with rfl | hne
        · exact Or.inr List.mem_cons_self
        · rw [node_link_ne _ _ hne] at hq
          rcases eq_or_ne q (resolve src) with rfl | hsrc
          · rw [node_unlink_self] at hq
            cases hq
          · rw [node_unlink_ne _ hsrc] at hq
            exact Or.inl hq
  | remove t =>
      rcases exec_remove hexec with ⟨_, _, rfl⟩ | ⟨j, _, _, rfl⟩
      · exact Or.inl hq
      · rcases eq_or_ne q (resolve t) with rfl | hne
        · rw [node_unlink_self] at hq
          cases hq
        · rw [node_unlink_ne _ hne] at hq
          exact Or.inl hq
  | _ => exact Or.inl (hquiet trivial)

/-- A file that is there after a run was there before, or a call of the run
gave it its place. -/
theorem runs_file {allow : Policy} {err α : Type} {p : Prog calls err α}
    {fs fs' : FileTree} {trace : List (Sigma calls.Ret)} {o : Except err α}
    {q : Path} {i : Nat}
    (hrun : (system allow).machine.Runs fs p trace o fs')
    (hq : fs'.node q = some (Node.file i)) :
    (exists j, fs.node q = some (Node.file j)) ∨
      q ∈ Machine.notes placesFile trace := by
  induction hrun with
  | done s a => exact Or.inl ⟨i, hq⟩
  | raise s e => exact Or.inl ⟨i, hq⟩
  | call hstep _ ih =>
      rcases hstep with ⟨ch, _, hexec⟩
      rw [Machine.notes_cons]
      rcases ih hq with ⟨j, hj⟩ | hnoted
      · rcases exec_file hexec hj with hold | hplaced
        · exact Or.inl ⟨j, hold⟩
        · exact Or.inr (List.mem_append_left _ hplaced)
      · exact Or.inr (List.mem_append_right _ hnoted)

/-!
## Where files go
-/

def takesFile : (c : Call) -> Call.Ret c -> List Path
  | Call.rename src _, Except.ok _ => [resolve src]
  | Call.remove t, Except.ok _ => [resolve t]
  | _, _ => []

theorem exec_stays {ch : Choice} {fs fs' : FileTree} {c : Call}
    {r : Call.Ret c} {q : Path} {i : Nat} (hexec : exec ch c fs = (r, fs'))
    (hq : fs.node q = some (Node.file i)) :
    (exists j, fs'.node q = some (Node.file j)) ∨ q ∈ takesFile c r := by
  have hquiet : c.Quiet -> fs'.node q = some (Node.file i) := by
    intro hc
    rwa [exec_quiet hc hexec]
  cases c with
  | uuid4 =>
      rcases exec_uuid4 hexec with ⟨_, _, hentries, _⟩
      refine Or.inl ⟨i, ?_⟩
      unfold node at hq ⊢
      rw [hentries]
      exact hq
  | openWrite t =>
      rcases exec_openWrite hexec with
        ⟨_, _, rfl⟩ | ⟨j, hj, _, rfl⟩ | ⟨hnone, _, rfl, rfl⟩
      · exact Or.inl ⟨i, hq⟩
      · exact Or.inl ⟨i, hq⟩
      · have hne : q ≠ resolve t := by
          intro heq
          rw [heq, hnone] at hq
          cases hq
        refine Or.inl ⟨i, ?_⟩
        rw [node_openHandle, node_create_ne _ _ hne]
        exact hq
  | openRead t =>
      rcases exec_openRead hexec with ⟨_, _, rfl⟩ | ⟨j, _, _, rfl⟩
      · exact Or.inl ⟨i, hq⟩
      · exact Or.inl ⟨i, hq⟩
  | write n chunk =>
      rcases exec_write hexec with ⟨_, _, rfl⟩ | ⟨x, _, rfl, _⟩
      · exact Or.inl ⟨i, hq⟩
      · exact Or.inl ⟨i, hq⟩
  | flush n =>
      rcases exec_flush hexec with ⟨_, _, rfl⟩ | ⟨x, k, _, rfl, _⟩
      · exact Or.inl ⟨i, hq⟩
      · exact Or.inl ⟨i, hq⟩
  | close n =>
      rcases exec_close hexec with ⟨_, _, rfl⟩ | ⟨x, k, _, rfl, _⟩
      · exact Or.inl ⟨i, hq⟩
      · exact Or.inl ⟨i, hq⟩
  | read n limit =>
      rcases exec_read hexec with ⟨_, _, rfl⟩ | ⟨x, got, _, _, _, rfl⟩
      · exact Or.inl ⟨i, hq⟩
      · exact Or.inl ⟨i, hq⟩
  | makedirs t =>
      rcases exec_makedirs hexec with ⟨_, _, rfl⟩ | ⟨limit, rfl, _⟩
      · exact Or.inl ⟨i, hq⟩
      · exact Or.inl ⟨i, node_mkdirs_of_some hq⟩
  | rename src dst =>
      rcases exec_rename hexec with ⟨_, _, rfl⟩ | ⟨j, rfl, _, _, _, rfl⟩
      · exact Or.inl ⟨i, hq⟩
      · rcases eq_or_ne q (resolve dst) with rfl | hne
        · exact Or.inl ⟨j, node_link_self _ _ _⟩
        · rcases eq_or_ne q (resolve src) with rfl | hsrc
          · exact Or.inr List.mem_cons_self
          · refine Or.inl ⟨i, ?_⟩
            rw [node_link_ne _ _ hne, node_unlink_ne _ hsrc]
            exact hq
  | remove t =>
      rcases exec_remove hexec with ⟨_, _, rfl⟩ | ⟨j, rfl, _, rfl⟩
      · exact Or.inl ⟨i, hq⟩
      · rcases eq_or_ne q (resolve t) with rfl | hne
        · exact Or.inr List.mem_cons_self
        · refine Or.inl ⟨i, ?_⟩
          rw [node_unlink_ne _ hne]
          exact hq
  | _ => exact Or.inl ⟨i, hquiet trivial⟩

/-- A file that was there before a run is there after it, or a call of the run
took it away. -/
theorem runs_stays {allow : Policy} {err α : Type} {p : Prog calls err α}
    {fs fs' : FileTree} {trace : List (Sigma calls.Ret)} {o : Except err α}
    {q : Path} {i : Nat}
    (hrun : (system allow).machine.Runs fs p trace o fs')
    (hq : fs.node q = some (Node.file i)) :
    (exists j, fs'.node q = some (Node.file j)) ∨
      q ∈ Machine.notes takesFile trace := by
  induction hrun generalizing i with
  | done s a => exact Or.inl ⟨i, hq⟩
  | raise s e => exact Or.inl ⟨i, hq⟩
  | call hstep _ ih =>
      rcases hstep with ⟨ch, _, hexec⟩
      rw [Machine.notes_cons]
      rcases exec_stays hexec hq with ⟨j, hj⟩ | htaken
      · exact (ih hj).imp_right fun h => List.mem_append_right _ h
      · exact Or.inr (List.mem_append_left _ htaken)

def Call.names : Call -> List Path
  | Call.openWrite t => [resolve t]
  | Call.rename src dst => [resolve src, resolve dst]
  | Call.remove t => [resolve t]
  | _ => []

theorem placesFile_names {c : Call} {r : Call.Ret c} {q : Path}
    (h : q ∈ placesFile c r) : q ∈ c.names := by
  cases c with
  | openWrite t =>
      cases r with
      | ok _ => exact h
      | error _ => cases h
  | rename src dst =>
      cases r with
      | ok _ => exact List.mem_cons_of_mem _ h
      | error _ => cases h
  | _ => cases h

theorem takesFile_names {c : Call} {r : Call.Ret c} {q : Path}
    (h : q ∈ takesFile c r) : q ∈ c.names := by
  cases c with
  | rename src dst =>
      cases r with
      | ok _ => rw [List.mem_singleton.mp h]; exact List.mem_cons_self
      | error _ => cases h
  | remove t =>
      cases r with
      | ok _ => exact h
      | error _ => cases h
  | _ => cases h

theorem exec_placed {ch : Choice} {fs fs' : FileTree} {c : Call}
    {r : Call.Ret c} {q : Path} (hexec : exec ch c fs = (r, fs'))
    (hq : q ∈ placesFile c r) : exists i, fs'.node q = some (Node.file i) := by
  cases c with
  | openWrite t =>
      rcases exec_openWrite hexec with
        ⟨_, rfl, _⟩ | ⟨i, hi, rfl, rfl⟩ | ⟨_, _, rfl, rfl⟩
      · cases hq
      · rw [List.mem_singleton.mp hq]
        exact ⟨i, hi⟩
      · rw [List.mem_singleton.mp hq]
        exact ⟨fs.nextIno, node_create_self fs _ ch.now⟩
  | rename src dst =>
      rcases exec_rename hexec with ⟨_, rfl, _⟩ | ⟨i, rfl, _, _, _, rfl⟩
      · cases hq
      · rw [List.mem_singleton.mp hq]
        exact ⟨i, node_link_self _ _ _⟩
  | _ => cases hq

theorem quiet_takes {c : Call} {r : Call.Ret c} (h : c.Quiet) :
    takesFile c r = [] := by
  cases c <;> first | rfl | exact absurd h id

theorem quiet_places {c : Call} {r : Call.Ret c} (h : c.Quiet) :
    placesFile c r = [] := by
  cases c <;> first | rfl | exact absurd h id

/-- A name no call of a run mentions keeps its file, or stays without one. -/
theorem runs_file_iff {allow : Policy} {err α : Type} {p : Prog calls err α}
    {fs fs' : FileTree} {trace : List (Sigma calls.Ret)} {o : Except err α}
    {q : Path} (hrun : (system allow).machine.Runs fs p trace o fs')
    (hq : forall e, e ∈ trace -> q ∉ e.1.names) (i : Nat) :
    fs'.node q = some (Node.file i) <-> fs.node q = some (Node.file i) := by
  induction hrun with
  | done s a => exact Iff.rfl
  | raise s e => exact Iff.rfl
  | @call s s' t c r k rest o hstep _ ih =>
      rcases hstep with ⟨ch, _, hexec⟩
      have hname : q ∉ c.names := hq ⟨c, r⟩ List.mem_cons_self
      have hback : forall j, s'.node q = some (Node.file j) ->
          s.node q = some (Node.file j) := by
        intro j hj
        rcases exec_file hexec hj with hold | hplaced
        · exact hold
        · exact absurd (placesFile_names hplaced) hname
      rw [ih fun e he => hq e (List.mem_cons_of_mem _ he)]
      refine ⟨hback i, ?_⟩
      intro hi
      rcases exec_stays hexec hi with ⟨j, hj⟩ | htaken
      · have hsame := hback j hj
        rw [hi] at hsame
        cases hsame
        exact hj
      · exact absurd (takesFile_names htaken) hname

theorem runs_isFile {allow : Policy} {err α : Type} {p : Prog calls err α}
    {fs fs' : FileTree} {trace : List (Sigma calls.Ret)} {o : Except err α}
    {q : Path} (hrun : (system allow).machine.Runs fs p trace o fs')
    (hq : forall e, e ∈ trace -> q ∉ e.1.names) :
    fs'.isFile q = true <-> fs.isFile q = true := by
  rw [isFile_iff, isFile_iff]
  exact exists_congr (runs_file_iff hrun hq)

/-!
## Tokens
-/

theorem exec_tokens {ch : Choice} {fs fs' : FileTree} {c : Call}
    {r : Call.Ret c} {u : Text} (hexec : exec ch c fs = (r, fs'))
    (hu : u ∈ fs.tokens) : u ∈ fs'.tokens := by
  have hquiet : c.Quiet -> u ∈ fs'.tokens := by
    intro hc
    rwa [exec_quiet hc hexec]
  cases c with
  | uuid4 =>
      rcases exec_uuid4 hexec with ⟨_, htokens, _⟩
      rw [htokens]
      exact List.mem_cons_of_mem _ hu
  | openWrite t =>
      rcases exec_openWrite hexec with
        ⟨_, _, rfl⟩ | ⟨j, hj, _, rfl⟩ | ⟨hnone, _, rfl, rfl⟩ <;> exact hu
  | openRead t =>
      rcases exec_openRead hexec with ⟨_, _, rfl⟩ | ⟨j, _, _, rfl⟩ <;> exact hu
  | write n chunk =>
      rcases exec_write hexec with ⟨_, _, rfl⟩ | ⟨x, _, rfl, _⟩ <;> exact hu
  | flush n =>
      rcases exec_flush hexec with ⟨_, _, rfl⟩ | ⟨x, k, _, rfl, _⟩ <;> exact hu
  | close n =>
      rcases exec_close hexec with ⟨_, _, rfl⟩ | ⟨x, k, _, rfl, _⟩ <;> exact hu
  | read n limit =>
      rcases exec_read hexec with ⟨_, _, rfl⟩ | ⟨x, got, _, _, _, rfl⟩ <;>
        exact hu
  | makedirs t =>
      rcases exec_makedirs hexec with ⟨_, _, rfl⟩ | ⟨limit, rfl, _⟩
      · exact hu
      · rw [(mkdirs_handles fs [] (resolve t) limit).right.right]
        exact hu
  | rename src dst =>
      rcases exec_rename hexec with ⟨_, _, rfl⟩ | ⟨j, rfl, _, _, _, rfl⟩ <;>
        exact hu
  | remove t =>
      rcases exec_remove hexec with ⟨_, _, rfl⟩ | ⟨j, rfl, _, rfl⟩ <;> exact hu
  | _ => exact hquiet trivial

/-- No token is forgotten. -/
theorem runs_tokens {allow : Policy} {err α : Type} {p : Prog calls err α}
    {fs fs' : FileTree} {trace : List (Sigma calls.Ret)} {o : Except err α}
    {u : Text} (hrun : (system allow).machine.Runs fs p trace o fs')
    (hu : u ∈ fs.tokens) : u ∈ fs'.tokens := by
  induction hrun with
  | done s a => exact hu
  | raise s e => exact hu
  | call hstep _ ih =>
      rcases hstep with ⟨ch, _, hexec⟩
      exact ih (exec_tokens hexec hu)

namespace Contract

variable {ι : Type} {K : Contract ι} {ch : Choice} {fs fs' : FileTree}
  {G : Nat -> Hold} {i : Nat}

theorem pen_hidden (h : K.Rep fs G) {n : Nat} {x : Handle} {p : Path}
    (hpen : (G i).pen = some n) (hx : fs.handles n = some x)
    (hp : fs.node p = some (Node.file x.ino)) : K.Hidden p := by
  rcases (h.owns i).pen_name hpen hx hp with ⟨u, _, hplace⟩
  exact ⟨u, hplace⟩

/-- A call through a descriptor touches the visible files only by reading. -/
theorem drain_hidden (h : K.Rep fs G) {n : Nat} {x : Handle}
    (hfd : (G i).fd = some n) (hx : fs.handles n = some x) :
    x.pending = [] ∨
      forall p, fs.node p = some (Node.file x.ino) -> K.Hidden p := by
  have hown := h.owns i
  cases hg : G i with
  | writing u m p sent =>
      have hpen : (G i).pen = some n := by
        rw [hg] at hfd ⊢
        exact hfd
      exact Or.inr fun q hq => pen_hidden h hpen hx hq
  | reading m p body got =>
      rw [hg] at hfd hown
      cases hfd
      rcases hown with ⟨y, hy, hempty, _⟩
      rw [hx] at hy
      cases hy
      exact Or.inl hempty
  | _ =>
      rw [hg] at hfd
      cases hfd

def Disturbs (K : Contract ι) (seen : List Sight) : Prop :=
  exists p, Sight.placed p ∈ seen ∨ (Sight.removed p ∈ seen ∧ ¬ K.Hidden p)

theorem Rep.undisturbed {tag : ι} {seen : List Sight} {c : Call}
    {r : Call.Ret c} (h : K.Rep fs G) (hcan : K.Can tag seen (G i) c)
    (hexec : exec ch c fs = (r, fs')) (hcalm : ¬ K.Disturbs (sight c r)) :
    K.Undisturbed fs fs' := by
  have hquiet : c.Quiet -> K.Undisturbed fs fs' := by
    intro hc
    rw [exec_quiet hc hexec]
    exact Staging.Undisturbed.refl fs
  cases c with
  | uuid4 =>
      rcases exec_uuid4 hexec with ⟨_, _, hentries, hinodes, _⟩
      apply Staging.undisturbed_of_fields _ hinodes
      funext p
      unfold node
      rw [hentries]
  | openWrite t =>
      rcases hcan with ⟨_, u, hg, hplace⟩
      have hhidden : K.Hidden (resolve t) := ⟨u, hplace⟩
      rcases exec_openWrite hexec with
        ⟨_, _, rfl⟩ | ⟨j, hj, _, rfl⟩ | ⟨_, _, _, rfl⟩
      · exact Staging.Undisturbed.refl _
      · have hown := h.owns i
        rw [hg] at hown
        exact absurd hj (hown.right (resolve t) j hplace)
      · exact (Staging.undisturbed_create h.sound hhidden).trans
          (Staging.undisturbed_of_fields rfl rfl)
  | openRead t =>
      rcases exec_openRead hexec with ⟨_, _, rfl⟩ | ⟨j, _, _, rfl⟩
      · exact Staging.Undisturbed.refl _
      · exact Staging.undisturbed_of_fields rfl rfl
  | write n chunk =>
      rcases hcan with ⟨u, p, sent, hg⟩
      rcases exec_write hexec with ⟨_, _, rfl⟩ | ⟨x, hx, rfl, _⟩
      · exact Staging.Undisturbed.refl _
      · apply Staging.undisturbed_drain
        right
        intro q hq
        exact pen_hidden h (by rw [hg]; rfl) hx hq
  | flush n =>
      rcases hcan with ⟨u, p, sent, hg⟩
      rcases exec_flush hexec with ⟨_, _, rfl⟩ | ⟨x, k, hx, rfl, _⟩
      · exact Staging.Undisturbed.refl _
      · apply Staging.undisturbed_drain
        exact drain_hidden h (by rw [hg]; rfl) hx
  | close n =>
      rcases exec_close hexec with ⟨_, _, rfl⟩ | ⟨x, k, hx, rfl, _⟩
      · exact Staging.Undisturbed.refl _
      · have hdrain := @Staging.undisturbed_drain K.toStaging fs n k x ch.now
          (drain_hidden h hcan hx)
        exact hdrain.trans (Staging.undisturbed_of_fields rfl rfl)
  | read n limit =>
      rcases exec_read hexec with ⟨_, _, rfl⟩ | ⟨x, got, _, _, _, rfl⟩
      · exact Staging.Undisturbed.refl _
      · exact Staging.undisturbed_of_fields rfl rfl
  | makedirs t =>
      rcases exec_makedirs hexec with ⟨_, _, rfl⟩ | ⟨limit, rfl, _⟩
      · exact Staging.Undisturbed.refl _
      · exact Staging.undisturbed_mkdirs
  | rename src dst =>
      rcases exec_rename hexec with ⟨_, _, rfl⟩ | ⟨j, rfl, _⟩
      · exact Staging.Undisturbed.refl _
      · exact absurd ⟨resolve dst, Or.inl List.mem_cons_self⟩ hcalm
  | remove t =>
      rcases exec_remove hexec with ⟨_, _, rfl⟩ | ⟨j, rfl, _, rfl⟩
      · exact Staging.Undisturbed.refl _
      · apply Staging.undisturbed_unlink
        by_contra hvisible
        exact hcalm ⟨resolve t, Or.inr ⟨List.mem_cons_self, hvisible⟩⟩
  | _ => exact hquiet trivial

theorem Disturbs.mono {a b : List Sight} (h : K.Disturbs a) :
    K.Disturbs (a ++ b) := by
  rcases h with ⟨p, hplaced | ⟨hremoved, hvisible⟩⟩
  · exact ⟨p, Or.inl (List.mem_append_left b hplaced)⟩
  · exact ⟨p, Or.inr ⟨List.mem_append_left b hremoved, hvisible⟩⟩

theorem Disturbs.after {a b : List Sight} (h : K.Disturbs b) :
    K.Disturbs (a ++ b) := by
  rcases h with ⟨p, hplaced | ⟨hremoved, hvisible⟩⟩
  · exact ⟨p, Or.inl (List.mem_append_right a hplaced)⟩
  · exact ⟨p, Or.inr ⟨List.mem_append_right a hremoved, hvisible⟩⟩

variable {err α : Type} {allow : Policy}

theorem undisturbed_alone (tag : ι) (hadmits : K.Admits allow)
    {p : Prog calls err α} {Q : Except err α -> Focus -> Prop}
    {trace : List (Sigma calls.Ret)} {o : Except err α}
    (hsound : fs.Sound)
    (hrun : (system allow).machine.Runs fs p trace o fs')
    (hwp : (K.machine tag Eq).wp p Q
      { view := K.view fs, hold := Hold.idle, seen := [] })
    (hcalm : ¬ K.Disturbs (sights trace)) : K.Undisturbed fs fs' := by
  have hsim := Machine.wp_simulates (N := K.machine tag Eq)
    (R := fun fs1 past s => s.view = K.view fs1 ∧
      K.Rep fs1 (Function.update (fun _ => Hold.idle) 0 s.hold) ∧
      (¬ K.Disturbs (sights past) -> K.Undisturbed fs fs1))
    ?_ [] hrun (t := ⟨K.view fs, Hold.idle, []⟩) ?_ hwp
  · rcases hsim with ⟨s, ⟨_, _, hundisturbed⟩, _⟩
    exact hundisturbed hcalm
  · intro fs1 past s c r fs2 ⟨hview, hrep, hsofar⟩ hcan ⟨ch, hlegal, hexec⟩
    have hself : Function.update (fun _ => Hold.idle) 0 s.hold 0 = s.hold :=
      Function.update_self _ _ _
    have hcan' : K.Can tag s.seen
        (Function.update (fun _ => Hold.idle) 0 s.hold 0) c := by
      rw [hself]
      exact hcan
    rcases hrep.step hcan' hlegal (hadmits _ _ _ hlegal.left) hexec with
      ⟨g', hstep, hrep'⟩
    rw [hself] at hstep
    rw [Function.update_idem] at hrep'
    refine ⟨⟨K.view fs2, g', s.seen ++ sight c r⟩, ?_, rfl, hrep', ?_⟩
    · refine ⟨K.view fs2, ?_, rfl, rfl⟩
      rw [hview]
      exact hstep
    · intro hquiet
      rw [sights_concat] at hquiet
      have hbefore := hsofar fun h => hquiet h.mono
      exact hbefore.trans
        (hrep.undisturbed hcan' hexec fun h => hquiet h.after)
  · refine ⟨rfl, ?_, fun _ => Staging.Undisturbed.refl fs⟩
    rw [Function.update_eq_self_iff.mpr rfl]
    exact Rep.boot hsound

end Contract

end Posix
