import StorybookStorage.Drivers.Layout
import StorybookStorage.Posix.Undisturbed

/-!
# What a walk finds

The keys a listing collects are the images of the files under the bucket whose
path starts with `base`, each file once.
-/

namespace StorybookStorage

open Python Posix Effects FileTree Contract LocalFsBlobDriver

variable {fs : FileTree}

def walkText (top : Text) (p : Path) : Text :=
  (p.drop (resolve top).length).foldl join top

def walkPlaces (fs : FileTree) (top base : Text) : List Path :=
  (fs.entries.keys.filter fun q =>
      fs.isDir q && (resolve top).isPrefixOf q).flatMap fun q =>
    ((fs.children q).filter fs.isFile).filter fun p =>
      startsWith (walkText top p) base

theorem walkText_concat {top : Text} {q : Path} (name : Text)
    (h : resolve top <+: q) :
    walkText top (q ++ [name]) = join (walkText top q) name := by
  unfold walkText
  rw [List.drop_append_of_le_length h.length_le, List.foldl_append]
  rfl

theorem map_names {top : Text} {q : Path} {places : List Path}
    (hq : resolve top <+: q)
    (h : forall p, p ∈ places -> exists name, p = q ++ [name]) :
    (places.filterMap List.getLast?).map (join (walkText top q)) =
      places.map (walkText top) := by
  induction places with
  | nil => rfl
  | cons p rest ih =>
      rcases h p List.mem_cons_self with ⟨name, rfl⟩
      have hrest := ih fun p' hp' => h p' (List.mem_cons_of_mem _ hp')
      rw [List.filterMap_cons_some List.getLast?_concat, List.map_cons,
        List.map_cons, hrest, walkText_concat name hq]

theorem mem_children {p q : Path} :
    p ∈ fs.children q <->
      fs.node p ≠ none ∧ exists name, p = q ++ [name] := by
  unfold FileTree.children
  rw [List.mem_filter]
  constructor
  · intro hlisted
    rcases hlisted with ⟨hkey, hp⟩
    rcases of_decide_eq_true hp with ⟨hne, rfl⟩
    refine ⟨?_, p.getLast hne, (List.dropLast_append_getLast hne).symm⟩
    rw [← AList.mem_keys, ← AList.lookup_isSome] at hkey
    exact Option.isSome_iff_ne_none.mp hkey
  · intro hlisted
    rcases hlisted with ⟨hnode, name, rfl⟩
    exact ⟨mem_keys_of_node hnode, by simp⟩

theorem walkKeys_walkFrom (fs : FileTree) (top base : Text) :
    walkKeys top base (fs.walkFrom top) =
      (walkPlaces fs top base).map
        fun p => relpath (walkText top p) top := by
  have hdir : forall q, resolve top <+: q ->
      (((((fs.children q).filter fs.isFile).filterMap List.getLast?).map
          (join (walkText top q))).filter fun full => startsWith full base).map
          (fun full => relpath full top) =
        (((fs.children q).filter fs.isFile).filter fun p =>
          startsWith (walkText top p) base).map
            fun p => relpath (walkText top p) top := by
    intro q hq
    rw [map_names hq, List.filter_map, List.map_map]
    · rfl
    · intro p hp
      exact (mem_children.mp (List.mem_of_mem_filter hp)).right
  unfold walkKeys walkFrom walkPlaces
  rw [List.flatMap_map, List.map_flatMap]
  apply List.flatMap_congr
  intro q hq
  have hpre := (Bool.and_eq_true_iff.mp (List.mem_filter.mp hq).right).right
  exact hdir q (List.isPrefixOf_iff_prefix.mp hpre)

theorem mem_walkPlaces (hsound : fs.Sound) {top base : Text} {p : Path} :
    p ∈ walkPlaces fs top base <->
      fs.isFile p = true ∧ resolve top <+: p ∧ p ≠ resolve top ∧
        base <+: walkText top p := by
  unfold walkPlaces
  rw [List.mem_flatMap]
  constructor
  · intro hlisted
    rcases hlisted with ⟨q, hq, hp⟩
    rcases List.mem_filter.mp hp with ⟨hfile, hbase⟩
    rcases List.mem_filter.mp hfile with ⟨hchild, hisfile⟩
    rcases mem_children.mp hchild with ⟨_, name, rfl⟩
    have hpre : resolve top <+: q :=
      List.isPrefixOf_iff_prefix.mp
        (Bool.and_eq_true_iff.mp (List.mem_filter.mp hq).right).right
    refine ⟨hisfile, hpre.trans (List.prefix_append q [name]), ?_,
      startsWith_iff.mp hbase⟩
    intro heq
    have hlen := hpre.length_le
    rw [← heq, List.length_append, List.length_singleton] at hlen
    omega
  · intro hlisted
    rcases hlisted with ⟨hisfile, hpre, hne, hbase⟩
    rcases List.eq_nil_or_concat p with rfl | ⟨q, name, hp⟩
    · exact absurd (List.prefix_nil.mp hpre).symm hne
    · rw [List.concat_eq_append] at hp
      rw [hp] at hisfile hpre hne hbase ⊢
      have hq : resolve top <+: q := by
        rcases List.prefix_concat_iff.mp hpre with heq | hq
        · exact absurd heq.symm hne
        · exact hq
      rcases isFile_iff.mp hisfile with ⟨i, hi⟩
      have hthere : fs.node (q ++ [name]) ≠ none := by
        rw [hi]
        simp
      have hparent : fs.node q = some Node.dir := by
        simpa using hsound.parent (q ++ [name]) (by simp) hthere
      refine ⟨q, ?_, ?_⟩
      · rw [List.mem_filter]
        refine ⟨mem_keys_of_node (by rw [hparent]; simp), ?_⟩
        rw [Bool.and_eq_true_iff]
        exact ⟨decide_eq_true hparent, List.isPrefixOf_iff_prefix.mpr hq⟩
      · rw [List.mem_filter, List.mem_filter]
        exact ⟨⟨mem_children.mpr ⟨hthere, name, rfl⟩, hisfile⟩,
          startsWith_iff.mpr hbase⟩

theorem walkPlaces_nodup (fs : FileTree) (top base : Text) :
    (walkPlaces fs top base).Nodup := by
  unfold walkPlaces
  rw [List.nodup_flatMap]
  constructor
  · intro q _
    exact ((fs.entries.nodupKeys.filter _).filter _).filter _
  · have hdirs : (fs.entries.keys.filter fun q =>
        fs.isDir q && (resolve top).isPrefixOf q).Nodup :=
      List.Nodup.filter _ fs.entries.nodupKeys
    apply hdirs.imp
    intro q q' hne p hp hp'
    rcases mem_children.mp (List.mem_of_mem_filter (List.mem_of_mem_filter hp))
      with ⟨_, name, rfl⟩
    rcases mem_children.mp (List.mem_of_mem_filter (List.mem_of_mem_filter hp'))
      with ⟨_, name', heq⟩
    exact hne (List.append_inj_left' heq rfl)

end StorybookStorage
