import StorybookStorage.Drivers.Layout
import StorybookStorage.Posix.Realpath

/-!
# Paths that stay under the root

`object_path` and `meta_path` on any texts.  Both compare with a base that is
made from the bucket, so they hold what the bucket holds.
-/

namespace StorybookStorage

open Python Posix

/-- What `_assert_within` lets pass: the base itself and, unless that is the
top, what lies below it. -/
def Passes (base candidate : Path) : Prop :=
  candidate = base ∨ (base ≠ [] ∧ base <+: candidate)

theorem assertWithin_passes {base candidate : Text} :
    assertWithin base candidate = Except.ok (realpath candidate) <->
      Passes (resolve base) (resolve candidate) := by
  unfold assertWithin Passes
  by_cases hsame : resolve candidate = resolve base
  · have hreal := realpath_inj.mpr hsame
    dsimp only
    rw [if_neg fun h => h.left hreal]
    exact iff_of_true rfl (Or.inl hsame)
  · have hreal : realpath candidate ≠ realpath base :=
      fun h => hsame (realpath_inj.mp h)
    dsimp only
    by_cases hstarts :
        startsWith (realpath candidate) (realpath base ++ ['/']) = true
    · rw [if_neg (by simp [hstarts])]
      rcases startsWith_realpath.mp hstarts with ⟨hbase, hpre, _⟩
      exact iff_of_true rfl (Or.inr ⟨hbase, hpre⟩)
    · rw [if_pos ⟨hreal, by simpa using hstarts⟩]
      constructor
      · intro h
        cases h
      · intro h
        rcases h with h | ⟨hbase, hpre⟩
        · exact absurd h hsame
        · exact absurd (startsWith_realpath.mpr ⟨hbase, hpre, hsame⟩) hstarts

theorem assertWithin_cases (base candidate : Text) :
    assertWithin base candidate = Except.error Exn.valueError ∨
      assertWithin base candidate = Except.ok (realpath candidate) := by
  unfold assertWithin
  dsimp only
  split
  · exact Or.inl rfl
  · exact Or.inr rfl

/-- A path function raises `ValueError`, or what it returns lies at the root or
below. -/
def Confined (root : Text) (result : Except Exn Text) : Prop :=
  result = Except.error Exn.valueError ∨
    exists p, result = Except.ok p ∧ resolve root <+: resolve p

/-- A base outside the root, and a place that passes its check outside the root
too. -/
def Strays (root base candidate : Text) : Prop :=
  ¬ resolve root <+: resolve base ∧ Passes (resolve base) (resolve candidate) ∧
    ¬ resolve root <+: resolve candidate

theorem confined_iff {root base candidate : Text} :
    Confined root ((assertWithin base candidate).map fun _ => candidate) <->
      ¬ Strays root base candidate := by
  unfold Confined Strays
  rcases assertWithin_cases base candidate with hraise | hpass
  · have hstays : ¬ Passes (resolve base) (resolve candidate) := by
      intro hpasses
      rw [assertWithin_passes.mpr hpasses] at hraise
      cases hraise
    rw [hraise]
    exact iff_of_true (Or.inl rfl) fun h => hstays h.right.left
  · have hpasses := assertWithin_passes.mp hpass
    rw [hpass]
    constructor
    · intro h hstrays
      rcases h with h | ⟨p, hp, hunder⟩
      · cases h
      · cases hp
        exact hstrays.right.right hunder
    · intro h
      refine Or.inr ⟨candidate, rfl, ?_⟩
      by_contra hout
      refine h ⟨?_, hpasses, hout⟩
      intro hbase
      rcases hpasses with hsame | ⟨_, hpre⟩
      · exact hout (hsame ▸ hbase)
      · exact hout (hbase.trans hpre)

theorem objectPath_eq (root bucket key : Text) :
    objectPath root bucket key =
      (assertWithin (join root bucket) (join (join root bucket) key)).map
        fun _ => join (join root bucket) key := by
  unfold objectPath
  dsimp only
  rcases assertWithin_cases (join root bucket) (join (join root bucket) key) with
    h | h <;> rw [h] <;> rfl

theorem metaPath_eq (root bucket key : Text) :
    metaPath root bucket key =
      (assertWithin (join (join root metaDir) bucket)
        (join (join (join root metaDir) bucket) (key ++ text ".json"))).map
        fun _ => join (join (join root metaDir) bucket) (key ++ text ".json") := by
  unfold metaPath
  dsimp only
  rcases assertWithin_cases (join (join root metaDir) bucket)
    (join (join (join root metaDir) bucket) (key ++ text ".json")) with
      h | h <;> rw [h] <;> rfl

def PathsConfined (root bucket key : Text) : Prop :=
  Confined root (objectPath root bucket key) ∧
    Confined root (metaPath root bucket key)

/-!
## Which buckets let a key out
-/

theorem resolve_json_ne_nil (base key : Text) :
    resolve (join base (key ++ text ".json")) ≠ [] := by
  have hsuffix : exists t, join base (key ++ text ".json") = t ++ text ".json" := by
    unfold join
    split
    · exact ⟨key, rfl⟩
    · split
      · exact ⟨base ++ key, by simp⟩
      · exact ⟨base ++ '/' :: key, by simp⟩
  rcases hsuffix with ⟨t, ht⟩
  rcases exists_splitOn_eq_concat t with ⟨init, last, hsplit⟩
  have hlast : '/' ∉ last :=
    not_mem_of_mem_splitOn (t := t) (by rw [hsplit]; simp)
  rw [ht]
  unfold resolve
  rw [splitOn_append_of_not_mem hsplit (by decide), List.foldl_append,
    List.foldl_cons, List.foldl_nil, walk_plain (plain_json hlast)]
  simp

theorem not_strays_of_base {root base candidate : Text}
    (h : resolve root <+: resolve base) : ¬ Strays root base candidate :=
  fun hstrays => hstrays.left h

theorem strays_json {root base name : Text} (hname : '/' ∉ name)
    (hbase : ¬ resolve root <+: resolve base) (htop : resolve base ≠ [])
    (hroot : resolve root ≠ resolve base ++ [name ++ text ".json"]) :
    Strays root base (join base (name ++ text ".json")) := by
  unfold Strays
  rw [resolve_join_single (plain_json hname)]
  refine ⟨hbase, Or.inr ⟨htop, List.prefix_append _ _⟩, ?_⟩
  intro hpre
  rcases List.prefix_concat_iff.mp hpre with hsame | hbelow
  · exact hroot hsame
  · exact hbase hbelow

/-- The two checks hold whatever the key is exactly when the bucket leads
nowhere else: then a single key shows it. -/
theorem pathsConfined_all (root bucket : Text) :
    (forall key, PathsConfined root bucket key) <->
      resolve root <+: resolve (join root bucket) ∧
        (resolve root <+: resolve (join (join root metaDir) bucket) ∨
          resolve (join (join root metaDir) bucket) = []) := by
  constructor
  · intro h
    constructor
    · have hempty := (h []).left
      rw [objectPath_eq, confined_iff] at hempty
      by_contra hbase
      have hsame : resolve (join (join root bucket) []) =
          resolve (join root bucket) := resolve_join nofun
      apply hempty
      unfold Strays Passes
      rw [hsame]
      exact ⟨hbase, Or.inl rfl, hbase⟩
    · have hmeta : forall name, '/' ∉ name ->
          ¬ Strays root (join (join root metaDir) bucket)
            (join (join (join root metaDir) bucket) (name ++ text ".json")) := by
        intro name _
        have hname := (h name).right
        rw [metaPath_eq, confined_iff] at hname
        exact hname
      rw [or_iff_not_imp_right]
      intro htop
      by_contra hbase
      -- The root cannot be the sidecar of two different names.
      have hone : forall name, '/' ∉ name ->
          resolve root = resolve (join (join root metaDir) bucket) ++
            [name ++ text ".json"] := by
        intro name hname
        by_contra hroot
        exact hmeta name hname (strays_json hname hbase htop hroot)
      have hsame := (hone (text "a") (by decide)).symm.trans
        (hone (text "b") (by decide))
      simp [text] at hsame
  · intro h key
    rcases h with ⟨hobject, hmeta⟩
    constructor
    · rw [objectPath_eq, confined_iff]
      exact not_strays_of_base hobject
    · rw [metaPath_eq, confined_iff]
      rcases hmeta with hbase | htop
      · exact not_strays_of_base hbase
      · intro hstrays
        rcases hstrays.right.left with hsame | ⟨hne, _⟩
        · exact resolve_json_ne_nil _ key (hsame.trans htop)
        · exact hne htop

/-- The path functions stay under the root unless the bucket has led out of it
and the key does not lead back. -/
theorem paths_confined_iff (root bucket : Text) :
    (forall key, PathsConfined root bucket key <->
      ¬ Strays root (join root bucket) (join (join root bucket) key) ∧
        ¬ Strays root (join (join root metaDir) bucket)
          (join (join (join root metaDir) bucket) (key ++ text ".json"))) ∧
      ((forall key, PathsConfined root bucket key) <->
        resolve root <+: resolve (join root bucket) ∧
          (resolve root <+: resolve (join (join root metaDir) bucket) ∨
            resolve (join (join root metaDir) bucket) = [])) := by
  refine ⟨?_, pathsConfined_all root bucket⟩
  intro key
  unfold PathsConfined
  rw [objectPath_eq, metaPath_eq, confined_iff, confined_iff]

/-- An absolute bucket leads out of the root, and the check follows it. -/
theorem etc_escapes :
    objectPath (text "/r") (text "/etc") (text "passwd") =
        Except.ok (text "/etc/passwd") ∧
      objectPath (text "/srv/r") (text "..") (text "a.png") =
        Except.ok (text "/srv/r/../a.png") ∧
      ¬ PathsConfined (text "/r") (text "/etc") (text "passwd") ∧
      ¬ PathsConfined (text "/srv/r") (text "..") (text "a.png") := by
  have hetc : objectPath (text "/r") (text "/etc") (text "passwd") =
      Except.ok (text "/etc/passwd") := by decide +kernel
  have hdots : objectPath (text "/srv/r") (text "..") (text "a.png") =
      Except.ok (text "/srv/r/../a.png") := by decide +kernel
  have hout : forall {root bucket key p : Text},
      objectPath root bucket key = Except.ok p ->
      ¬ resolve root <+: resolve p -> ¬ PathsConfined root bucket key := by
    intro root bucket key p hpath hplace hconfined
    rcases hconfined.left with hraise | ⟨q, hq, hunder⟩
    · rw [hpath] at hraise
      cases hraise
    · rw [hpath] at hq
      cases hq
      exact hplace hunder
  exact ⟨hetc, hdots, hout hetc (by decide +kernel),
    hout hdots (by decide +kernel)⟩

/-!
## The layout of accepted keys
-/

inductive FileKind where
  | object
  | sidecar
  | sidecarStaging
  | staging
deriving DecidableEq

variable {settings : Settings}

def FileKind.path (root : Text) (slot : Slot settings) (u : Text) :
    FileKind -> Text
  | object => slot.objectText root
  | sidecar => slot.sidecarText root
  | sidecarStaging => sidecarTmp (slot.sidecarText root) u
  | staging => join (join root tmpDir) u

def Inside (dir place : Path) : Prop := dir <+: place ∧ place ≠ dir

theorem inside_append {dir more : Path} (h : more ≠ []) :
    Inside dir (dir ++ more) :=
  ⟨List.prefix_append dir more, by simpa using h⟩

structure LaidOut (root : Text) (settings : Settings) : Prop where
  objects : forall slot : Slot settings,
    objectPath root slot.bucket slot.key = Except.ok (slot.objectText root) ∧
      Inside (resolve (join root slot.bucket)) (resolve (slot.objectText root))
  sidecars : forall slot : Slot settings,
    metaPath root slot.bucket slot.key = Except.ok (slot.sidecarText root) ∧
      Inside (resolve (join (join root metaDir) slot.bucket))
        (resolve (slot.sidecarText root))
  objects_inj : forall slot slot' : Slot settings,
    resolve (slot.objectText root) = resolve (slot'.objectText root) ->
    slot = slot'
  sidecars_inj : forall slot slot' : Slot settings,
    resolve (slot.sidecarText root) = resolve (slot'.sidecarText root) ->
    slot = slot'
  kinds : forall (a b : FileKind) (slot slot' : Slot settings) (u v : Text),
    a ≠ b -> IsToken u -> IsToken v ->
    resolve (a.path root slot u) ≠ resolve (b.path root slot' v)

theorem FileKind.hidden_iff {root u : Text} (kind : FileKind)
    (slot : Slot settings) (hu : IsToken u) :
    (StorybookStorage.staging root).Hidden (resolve (kind.path root slot u)) <->
      kind = sidecarStaging ∨ kind = FileKind.staging := by
  cases kind with
  | object =>
      have hvisible := slot.visible_objectLoc root
      rw [← slot.resolve_objectText root] at hvisible
      exact iff_of_false hvisible (by decide)
  | sidecar =>
      have hvisible := slot.visible_sidecarLoc root
      rw [← slot.resolve_sidecarText root] at hvisible
      exact iff_of_false hvisible (by decide)
  | sidecarStaging => exact iff_of_true ⟨u, slot.place_sidecarTmp hu⟩ (by decide)
  | staging => exact iff_of_true ⟨u, place_tmp hu⟩ (by decide)

theorem staging_ne_sidecarStaging {root u v : Text} (slot : Slot settings)
    (hu : IsToken u) (hv : IsToken v) :
    resolve (join (join root tmpDir) u) ≠
      resolve (sidecarTmp (slot.sidecarText root) v) := by
  intro h
  rcases slot.resolve_sidecarTmp root hv with ⟨name, hname⟩
  rcases slot.sidecarLoc_dropLast root with ⟨init, hinit⟩
  rw [resolve_tmpText hu, hname] at h
  apply stagingPlace_tmp_meta _ h
  rw [hinit]
  exact ⟨slot.bucket :: init, by simp⟩

/-- Whatever the root, accepted keys have places of their own, and the four
kinds of files never meet. -/
theorem layout_apart (root : Text) (settings : Settings) :
    LaidOut root settings where
  objects := by
    intro slot
    refine ⟨slot.objectPath_ok root, ?_⟩
    rw [slot.resolve_objectText, resolve_join_single slot.bucket_plain]
    have hshape : slot.objectLoc root =
        resolve root ++ [slot.bucket] ++ slot.key.splitOn '/' := by
      simp [Slot.objectLoc]
    rw [hshape]
    exact inside_append (List.splitOn_ne_nil '/' _)
  sidecars := by
    intro slot
    refine ⟨slot.metaPath_ok root, ?_⟩
    rw [slot.resolve_sidecarText, resolve_join_single slot.bucket_plain,
      resolve_join_single Slot.plain_metaDir]
    have hshape : slot.sidecarLoc root =
        resolve root ++ [metaDir] ++ [slot.bucket] ++
          (slot.key ++ text ".json").splitOn '/' := by
      simp [Slot.sidecarLoc]
    rw [hshape]
    exact inside_append (List.splitOn_ne_nil '/' _)
  objects_inj := by
    intro slot slot' h
    rw [slot.resolve_objectText, slot'.resolve_objectText] at h
    exact Slot.objectLoc_inj h
  sidecars_inj := by
    intro slot slot' h
    rw [slot.resolve_sidecarText, slot'.resolve_sidecarText] at h
    exact Slot.sidecarLoc_inj h
  kinds := by
    intro a b slot slot' u v hne hu hv h
    have hboth : (b = FileKind.sidecarStaging ∨ b = FileKind.staging) <->
        (a = FileKind.sidecarStaging ∨ a = FileKind.staging) := by
      rw [← a.hidden_iff slot hu, h, b.hidden_iff slot' hv]
    -- Either both files are staged or neither is.
    cases a <;> cases b <;>
      first | exact hne rfl | exact absurd hboth (by decide) | skip
    · exact slot.objectLoc_ne_sidecarLoc root slot' (by
        rw [← slot.resolve_objectText, ← slot'.resolve_sidecarText]
        exact h)
    · exact slot'.objectLoc_ne_sidecarLoc root slot (by
        rw [← slot'.resolve_objectText, ← slot.resolve_sidecarText]
        exact h.symm)
    · exact staging_ne_sidecarStaging slot hv hu h.symm
    · exact staging_ne_sidecarStaging slot' hu hv h

end StorybookStorage
