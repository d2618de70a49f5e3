import StorybookStorage.Posix.Path

/-!
# Real paths

Without symbolic links a real path is the text of a place.  A test for a prefix
of such texts is a test of places when the prefix ends in a slash.
-/

namespace Posix

open Python

theorem plain_of_mem_resolve {t seg : Text} (h : seg ∈ resolve t) :
    Plain seg := by
  have hwalk : forall (segs : List Text) (at_ : Path),
      (forall s, s ∈ segs -> '/' ∉ s) -> (forall s, s ∈ at_ -> Plain s) ->
      forall s, s ∈ segs.foldl walk at_ -> Plain s := by
    intro segs
    induction segs with
    | nil =>
        intro at_ _ hat s hs
        exact hat s hs
    | cons first rest ih =>
        intro at_ hslash hat
        apply ih
        · intro s hs
          exact hslash s (List.mem_cons_of_mem first hs)
        · intro s hs
          unfold walk at hs
          split at hs
          · exact hat s hs
          · rename_i hdot
            split at hs
            · exact hat s (List.dropLast_subset at_ hs)
            · rename_i hdots
              rcases List.mem_append.mp hs with hold | hnew
              · exact hat s hold
              · rw [List.mem_singleton.mp hnew]
                exact ⟨fun hnil => hdot (Or.inl hnil), fun hone => hdot (Or.inr hone),
                  hdots, hslash first List.mem_cons_self⟩
  exact hwalk _ [] (fun s hs => not_mem_of_mem_splitOn hs)
    (fun s hs => nomatch hs) seg h

theorem slashless_of_mem_resolve {t seg : Text} (h : seg ∈ resolve t) :
    '/' ∉ seg :=
  (plain_of_mem_resolve h).right.right.right

theorem resolve_realpath (t : Text) : resolve (realpath t) = resolve t := by
  have hslash := resolve_append_slash [] (['/'].intercalate (resolve t))
  unfold realpath
  rw [List.nil_append] at hslash
  rw [hslash]
  by_cases hnil : resolve t = []
  · rw [hnil]
    rfl
  · rw [List.splitOn_intercalate '/' (fun s hs => slashless_of_mem_resolve hs)
      hnil, foldl_walk_plain fun s hs => plain_of_mem_resolve hs]
    rfl

theorem realpath_inj {a b : Text} :
    realpath a = realpath b <-> resolve a = resolve b := by
  constructor
  · intro h
    rw [← resolve_realpath a, h, resolve_realpath]
  · intro h
    unfold realpath
    rw [h]

theorem intercalate_under {a more : Path} (ha : a ≠ []) (hmore : more ≠ []) :
    ['/'].intercalate (a ++ more) =
      ['/'].intercalate a ++ '/' :: ['/'].intercalate more := by
  induction more using List.reverseRecOn with
  | nil => exact absurd rfl hmore
  | append_singleton front last ih =>
      by_cases hfront : front = []
      · rw [hfront, List.nil_append, intercalate_concat ha,
          List.intercalate_singleton]
        simp
      · rw [← List.append_assoc, intercalate_concat (by simp [ha]), ih hfront,
          intercalate_concat hfront]
        simp

/-- Starting with a path and a slash is lying strictly below it, except that
nothing starts with two slashes. -/
theorem startsWith_realpath {root candidate : Text} :
    startsWith (realpath candidate) (realpath root ++ ['/']) = true <->
      resolve root ≠ [] ∧ resolve root <+: resolve candidate ∧
        resolve candidate ≠ resolve root := by
  rw [startsWith_iff]
  unfold realpath
  rw [List.cons_append, List.prefix_cons_inj]
  constructor
  · intro h
    rcases h with ⟨rest, hrest⟩
    have hcandidate : resolve candidate ≠ [] := by
      intro hnil
      rw [hnil] at hrest
      simp at hrest
    have hsplit := congrArg (List.splitOn '/') hrest
    rw [List.splitOn_intercalate '/' (fun s hs => slashless_of_mem_resolve hs)
      hcandidate, List.append_assoc, List.singleton_append,
      List.splitOn_append_cons_self] at hsplit
    by_cases hroot : resolve root = []
    · rw [hroot] at hsplit
      have hempty : ([] : Text) ∈ resolve candidate := by
        rw [← hsplit]
        simp
      exact absurd rfl (plain_of_mem_resolve hempty).left
    · rw [List.splitOn_intercalate '/' (fun s hs => slashless_of_mem_resolve hs)
        hroot] at hsplit
      refine ⟨hroot, ⟨_, hsplit⟩, ?_⟩
      intro hsame
      rw [hsame] at hsplit
      exact List.splitOn_ne_nil '/' rest (by simp at hsplit)
  · intro h
    rcases h with ⟨hroot, ⟨more, hmore⟩, hne⟩
    have hmore' : more ≠ [] := by
      intro heq
      subst heq
      rw [List.append_nil] at hmore
      exact hne hmore.symm
    rw [← hmore, intercalate_under hroot hmore']
    exact ⟨['/'].intercalate more, by simp⟩

end Posix
