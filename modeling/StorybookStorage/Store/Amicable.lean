import StorybookStorage.Store.Coexistence

/-!
# Keys that never meet

A set of slots is amicable when no object and no sidecar of the set lies on the
way to another one.  As long as only amicable slots are put, nothing in the tree
is ever in the way of one of them: every file is at a place of the set, and no
directory is.
-/

namespace StorybookStorage

open Python Posix Effects Contract FileTree

variable {settings : Settings} {d : LocalFsBlobDriver}
  {S : Slot settings -> Prop} {slot : Slot settings} {fs fs' : FileTree}

/-- Neither the object nor the sidecar of one key is a directory for another. -/
def Amicable (S : Slot settings -> Prop) : Prop :=
  forall a b : Slot settings, S a -> S b -> a ≠ b -> a.bucket = b.bucket ->
    ¬ a.key ++ ['/'] <+: b.key ∧ ¬ a.key ++ text ".json/" <+: b.key

theorem objectLoc_prefix_iff {root : Text} {a b : Slot settings} :
    a.objectLoc root <+: b.objectLoc root <->
      a.bucket = b.bucket ∧ (a.key = b.key ∨ a.key ++ ['/'] <+: b.key) := by
  unfold Slot.objectLoc
  rw [List.prefix_append_right_inj, List.cons_prefix_cons, splitOn_prefix_iff]

theorem sidecarLoc_prefix_bucket {root : Text} {a b : Slot settings}
    (h : a.sidecarLoc root <+: b.sidecarLoc root) : a.bucket = b.bucket := by
  unfold Slot.sidecarLoc at h
  rw [List.prefix_append_right_inj, List.cons_prefix_cons,
    List.cons_prefix_cons] at h
  exact h.right.left

theorem Amicable.objects (h : Amicable S) {root : Text} {a b : Slot settings}
    (ha : S a) (hb : S b) (hpre : a.objectLoc root <+: b.objectLoc root) :
    a = b := by
  by_contra hne
  rcases objectLoc_prefix_iff.mp hpre with ⟨hbucket, hkey | hunder⟩
  · exact hne (Slot.ext hbucket hkey)
  · exact (h a b ha hb hne hbucket).left hunder

theorem Amicable.sidecars (h : Amicable S) {root : Text} {a b : Slot settings}
    (ha : S a) (hb : S b) (hpre : a.sidecarLoc root <+: b.sidecarLoc root) :
    a = b := by
  have hbucket := sidecarLoc_prefix_bucket hpre
  by_contra hne
  rcases (sidecarLoc_prefix_iff hbucket).mp hpre with hsame | hunder
  · exact hne hsame
  · exact (h a b ha hb hne hbucket).right hunder

/-- A tree with files only where the slots of a set have them, and with no
directory there. -/
structure Roomy (d : LocalFsBlobDriver) (S : Slot settings -> Prop)
    (fs : FileTree) : Prop where
  kempt : Kempt d settings fs
  files : forall q, resolve d.root <+: q -> fs.isFile q = true ->
    (exists slot, S slot ∧
      (q = slot.objectLoc d.root ∨ q = slot.sidecarLoc d.root)) ∨
      exists u, q = resolve d.root ++ [tmpDir, u]
  dirs : forall slot, S slot ->
    fs.node (slot.objectLoc d.root) ≠ some Node.dir ∧
      fs.node (slot.sidecarLoc d.root) ≠ some Node.dir

/-!
## Nothing in the way
-/

theorem Kempt.file_below_root (h : Kempt d settings fs) {p q : Path}
    (hp : resolve d.root <+: p) (hq : q <+: p) (hfile : fs.isFile q = true) :
    resolve d.root <+: q := by
  rcases List.prefix_or_prefix_of_prefix hp hq with hbelow | habove
  · exact hbelow
  · have hdir := h.sound.dir_of_prefix h.tmp
      (habove.trans (List.prefix_append _ [tmpDir]))
    rcases isFile_iff.mp hfile with ⟨i, hi⟩
    rw [hdir] at hi
    cases hi

theorem Roomy.unhindered (h : Roomy d S fs) (hamicable : Amicable S)
    (hslot : S slot) {data : Data} (hend : data.ending = none) :
    ¬ Hindered d slot fs data := by
  intro hhindered
  cases hhindered with
  | source hraises => exact hraises hend
  | directory hdir => exact (h.dirs slot hslot).left hdir
  | file q b hq hb =>
      have hway := hq.trans (List.dropLast_prefix _)
      have hfile : fs.isFile q = true := Option.isSome_iff_exists.mpr ⟨b, hb⟩
      have hroot : resolve d.root <+: q :=
        h.kempt.file_below_root (List.prefix_append _ _) hway hfile
      rcases h.files q hroot hfile with ⟨slot', hslot', rfl | rfl⟩ | ⟨u, rfl⟩
      · cases hamicable.objects hslot' hslot hway
        exact Slot.not_prefix_dropLast (slot.objectLoc_ne_nil d.root) hq
      · exact slot.sidecarLoc_not_below_objectLoc d.root slot' hway
      · exact slot.tmp_not_above_objectLoc d.root u hway

theorem Roomy.unwalled (h : Roomy d S fs) (hamicable : Amicable S)
    (hslot : S slot) : ¬ Walled d slot fs := by
  intro hwalled
  cases hwalled with
  | directory hdir => exact (h.dirs slot hslot).right hdir
  | file q hq hfile =>
      have hway := hq.trans (List.dropLast_prefix _)
      have hroot : resolve d.root <+: q :=
        h.kempt.file_below_root (List.prefix_append _ _) hway hfile
      rcases h.files q hroot hfile with ⟨slot', hslot', rfl | rfl⟩ | ⟨u, rfl⟩
      · exact slot'.objectLoc_not_below_meta d.root slot hway
      · cases hamicable.sidecars hslot' hslot hway
        exact Slot.not_prefix_dropLast (slot.sidecarLoc_ne_nil d.root) hq
      · exact slot.tmp_not_above_sidecarLoc d.root u hway

/-!
## Puts
-/

theorem PutEffect.dirs {faults : Prop} {data : Data} {contentType : Text}
    {ifNoneMatch : Option Text} {metadata : Option Metadata} {v v' : View}
    {o : Except Exn PutResult} {seen : List Sight} {q : Path}
    (h : PutEffect d slot faults data contentType ifNoneMatch metadata v o v'
      seen) (hq : v' q = some Entry.dir) :
    v q = some Entry.dir ∨ q <+: (slot.objectLoc d.root).dropLast ∨
      q <+: (slot.sidecarLoc d.root).dropLast := by
  have hwider : forall {v1 v2 : View} {p : Path}, Widens v1 p v2 ->
      v2 q = some Entry.dir -> v1 q = some Entry.dir ∨ q <+: p := by
    intro v1 v2 p hwidens hdir
    rcases hwidens q with hsame | ⟨_, _, hpre⟩
    · rw [hsame] at hdir
      exact Or.inl hdir
    · exact Or.inr hpre
  have hfile : forall {v1 : View} {p : Path} {b : Bytes},
      Function.update v1 p (some (Entry.file b)) q = some Entry.dir ->
        v1 q = some Entry.dir := by
    intro v1 p b hdir
    rcases eq_or_ne q p with rfl | hne
    · rw [Function.update_self] at hdir
      cases hdir
    · rwa [Function.update_of_ne hne] at hdir
  cases h with
  | met info more _ _ _ _ => exact Or.inl hq
  | refused e v' more _ _ hwidens _ =>
      rcases hwider hwidens hq with hold | hway
      · exact Or.inl hold
      · exact Or.inr (Or.inl hway)
  | stored v1 v' more _ _ hwidens _ hside =>
      have hobject : v1 q = some Entry.dir ∨
          q <+: (slot.sidecarLoc d.root).dropLast := by
        rcases hside with ⟨_, now, hplaced⟩ | ⟨_, htried, _⟩
        · rcases placed_eq hplaced with ⟨w, hwidens', _, rfl⟩
          rcases hwider hwidens' (hfile hq) with hold | hway
          · exact Or.inl (hfile hold)
          · exact Or.inr hway
        · rcases hwider (tried_eq htried) hq with hold | hway
          · exact Or.inl (hfile hold)
          · exact Or.inr hway
      rcases hobject with hold | hway
      · rcases hwider hwidens hold with hbefore | hway
        · exact Or.inl hbefore
        · exact Or.inr (Or.inl hway)
      · exact Or.inr (Or.inr hway)

section Turns

variable {trace : List (Sigma calls.Ret)}

theorem Roomy.put (h : Roomy d S fs) (hamicable : Amicable S) (hslot : S slot)
    {data : Data} {contentType : Text} {ifNoneMatch : Option Text}
    {metadata : Option Metadata} {o : Except Exn PutResult}
    (hrun : (system noFault).machine.Runs fs
      (d.put slot.bucket slot.key data contentType ifNoneMatch metadata) trace o
      fs') : Roomy d S fs' where
  kempt := by
    have hmutation := hrun.map Reply.put
    exact h.kempt.turn (m := Mutation.put slot data contentType ifNoneMatch
      metadata) hmutation
  files := by
    intro q hroot hq
    rcases (put_course hrun).file_old h.kempt.sound
        (h.unwalled hamicable hslot) hq with hold | rfl | rfl | hstaged
    · exact h.files q hroot hold
    · exact Or.inl ⟨slot, hslot, Or.inl rfl⟩
    · exact Or.inl ⟨slot, hslot, Or.inr rfl⟩
    · exact Or.inr hstaged
  dirs := by
    intro slot' hslot'
    have heffect := (put_runs solo_noFault h.kempt.sound hrun).right
    constructor
    · intro hdir
      rcases heffect.dirs (Staging.view_dir.mpr hdir) with
        hold | hobject | hsidecar
      · exact (h.dirs slot' hslot').left (Staging.view_dir.mp hold)
      · cases hamicable.objects hslot' hslot
          (hobject.trans (List.dropLast_prefix _))
        exact Slot.not_prefix_dropLast (slot.objectLoc_ne_nil d.root) hobject
      · exact slot'.objectLoc_not_below_meta d.root slot
          (hsidecar.trans (List.dropLast_prefix _))
    · intro hdir
      rcases heffect.dirs (Staging.view_dir.mpr hdir) with
        hold | hobject | hsidecar
      · exact (h.dirs slot' hslot').right (Staging.view_dir.mp hold)
      · exact slot.sidecarLoc_not_below_objectLoc d.root slot'
          (hobject.trans (List.dropLast_prefix _))
      · cases hamicable.sidecars hslot' hslot
          (hsidecar.trans (List.dropLast_prefix _))
        exact Slot.not_prefix_dropLast (slot.sidecarLoc_ne_nil d.root) hsidecar

/-!
## Deletes and reads
-/

theorem delete_makes_nothing {allow : Policy} {o : Except Exn Bool}
    (hrun : (system allow).machine.Runs fs (d.delete slot.bucket slot.key) trace
      o fs') :
    (forall q, fs'.isFile q = true -> fs.isFile q = true) ∧
      forall q, fs'.node q = some Node.dir -> fs.node q = some Node.dir := by
  rcases delete_calls hrun with ⟨r, r', rfl, _⟩
  constructor
  · intro q hq
    rcases isFile_iff.mp hq with ⟨i, hi⟩
    rcases runs_file hrun hi with hold | hplaced
    · exact isFile_iff.mpr hold
    · cases r <;> cases r' <;> cases hplaced
  · intro q hq
    rcases runs_dir_old hrun hq with hold | ⟨t, e, hmade, _⟩
    · exact hold
    · rcases List.mem_cons.mp hmade with heq | hrest
      · cases heq
      · cases List.mem_singleton.mp hrest

theorem Roomy.delete (h : Roomy d S fs) {o : Except Exn Bool}
    (hrun : (system noFault).machine.Runs fs (d.delete slot.bucket slot.key)
      trace o fs') : Roomy d S fs' where
  kempt := by
    have hmutation := hrun.map Reply.delete
    exact h.kempt.turn (m := Mutation.delete slot) hmutation
  files := by
    intro q hroot hq
    exact h.files q hroot ((delete_makes_nothing hrun).left q hq)
  dirs := by
    intro slot' hslot'
    have hold := (delete_makes_nothing hrun).right
    exact ⟨fun hdir => (h.dirs slot' hslot').left (hold _ hdir),
      fun hdir => (h.dirs slot' hslot').right (hold _ hdir)⟩

theorem Kempt.look (h : Kempt d settings fs) (hsound : fs'.Sound)
    (hview : (staging d.root).view fs' = (staging d.root).view fs) :
    Kempt d settings fs' where
  sound := hsound
  tmp := by
    apply Staging.view_dir.mp
    rw [hview]
    exact Staging.view_dir.mpr h.tmp
  clean := by
    intro u hdir
    have hdir' := Staging.view_dir (L := staging d.root).mpr hdir
    rw [hview] at hdir'
    exact h.clean u (Staging.view_dir.mp hdir')
  owned := by
    rw [hview]
    exact h.owned
  described := by
    intro slot raw hraw
    rw [← fileAt_sidecar, hview, fileAt_sidecar] at hraw
    rw [← fileAt_object, hview, fileAt_object]
    exact h.described slot raw hraw

theorem Roomy.look {α : Type} {p : Io α} {o : Except Exn α} (h : Roomy d S fs)
    (hlooks : p.Issues Looks)
    (hview : (staging d.root).view fs' = (staging d.root).view fs)
    (hrun : (system noFault).machine.Runs fs p trace o fs') :
    Roomy d S fs' where
  kempt := h.kempt.look (runs_sound h.kempt.sound hrun) hview
  files := by
    intro q hroot hq
    apply h.files q hroot
    apply (runs_isFile hrun ?_).mp hq
    intro e he
    rw [looks_names (hrun.issues hlooks e he)]
    exact List.not_mem_nil
  dirs := by
    intro slot hslot
    rcases h.dirs slot hslot with ⟨hobject, hsidecar⟩
    rw [ne_eq, ← Staging.view_dir (L := staging d.root)] at hobject hsidecar ⊢
    rw [ne_eq, ← Staging.view_dir (L := staging d.root), hview]
    exact ⟨hobject, hsidecar⟩

end Turns

/-!
## At the start
-/

/-- The layout has directories below the root and below the sidecars'
directory. -/
theorem layout_place {root place : Text} {buckets : List Text}
    (hbuckets : forall b, b ∈ buckets -> Plain b)
    (h : place ∈ join root tmpDir :: join root metaDir ::
      buckets.flatMap fun b => [join root b, join (join root metaDir) b]) :
    (exists name, resolve place = resolve root ++ [name]) ∨
      exists b, resolve place = resolve root ++ [metaDir, b] := by
  rcases List.mem_cons.mp h with rfl | h
  · exact Or.inl ⟨tmpDir, resolve_join_single Slot.plain_tmpDir⟩
  rcases List.mem_cons.mp h with rfl | h
  · exact Or.inl ⟨metaDir, resolve_join_single Slot.plain_metaDir⟩
  rcases List.mem_flatMap.mp h with ⟨b, hb, hplace⟩
  rcases List.mem_cons.mp hplace with rfl | hplace
  · exact Or.inl ⟨b, resolve_join_single (hbuckets b hb)⟩
  · rw [List.mem_singleton.mp hplace]
    refine Or.inr ⟨b, ?_⟩
    rw [resolve_join_single (hbuckets b hb),
      resolve_join_single Slot.plain_metaDir, List.append_assoc]
    rfl

theorem freshTree_roomy {buckets : List Text}
    (hbuckets : forall b, b ∈ buckets -> Plain b ∧ b ≠ tmpDir) :
    Roomy d S (freshTree d.root buckets) where
  kempt := (freshTree_fresh hbuckets).kempt
  files := by
    intro q hroot hq
    rcases isFile_iff.mp hq with ⟨i, hi⟩
    exact absurd hi ((freshTree_fresh hbuckets).vacant q i hroot)
  dirs := by
    intro slot _
    have hobject : (freshTree d.root buckets).node (slot.objectLoc d.root) =
        none := by
      apply layTree_none
      · intro place hplace hpre
        rcases layout_place (fun b hb => (hbuckets b hb).left) hplace with
          ⟨name, heq⟩ | ⟨b, heq⟩
        · rw [heq] at hpre
          have hlen := hpre.length_le
          simp [Slot.objectLoc] at hlen
        · rw [heq] at hpre
          exact slot.bucket_ne (by decide) (Slot.ne_of_prefix_under hpre)
      · cases hn : bareTree.node (slot.objectLoc d.root) with
        | none => rfl
        | some n =>
            exact absurd (bareTree_node hn).left (slot.objectLoc_ne_nil d.root)
    have hsidecar : (freshTree d.root buckets).node (slot.sidecarLoc d.root) =
        none := by
      apply layTree_none
      · intro place hplace hpre
        have hlen := hpre.length_le
        rcases layout_place (fun b hb => (hbuckets b hb).left) hplace with
          ⟨name, heq⟩ | ⟨b, heq⟩
        · rw [heq] at hlen
          simp [Slot.sidecarLoc] at hlen
        · rw [heq] at hlen
          simp [Slot.sidecarLoc] at hlen
      · cases hn : bareTree.node (slot.sidecarLoc d.root) with
        | none => rfl
        | some n =>
            exact absurd (bareTree_node hn).left (slot.sidecarLoc_ne_nil d.root)
    rw [hobject, hsidecar]
    simp

end StorybookStorage
