import StorybookStorage.Python.Dict
import StorybookStorage.Validation.PrefixPolicy

/-!
# The longest match

Both cap lookups answer with the longest entry that begins the text, wherever
it stands in the map.
-/

namespace StorybookStorage

open Python

structure Longest (caps : Dict Int) (t pre : Text) (cap : Int) : Prop where
  entry : caps.lookup pre = some cap
  starts : pre <+: t
  longest : forall other, other ∈ caps -> other <+: t ->
    other.length ≤ pre.length

def Unmatched (caps : Dict Int) (t : Text) : Prop :=
  forall pre, pre ∈ caps -> ¬ pre <+: t

inductive ServiceCap (settings : Settings) (key : Text) : Int -> Prop where
  | longest (pre : Text) (cap : Int) :
      Longest settings.prefixSizeCaps key pre cap ->
      ServiceCap settings key cap
  | default :
      Unmatched settings.prefixSizeCaps key ->
      ServiceCap settings key settings.storageMaxObjectBytes

inductive UserCap (platform : Platform) (settings : Settings)
    (contentType : Option Text) : Except ServiceError Int -> Prop where
  | longest (pre : Text) (cap : Int) :
      mediaType platform contentType ≠ [] ->
      Longest settings.userMimeCaps (mediaType platform contentType) pre cap ->
      UserCap platform settings contentType (Except.ok cap)
  | missing :
      mediaType platform contentType = [] ->
      UserCap platform settings contentType (Except.error unsupportedMediaType)
  | unlisted :
      Unmatched settings.userMimeCaps (mediaType platform contentType) ->
      UserCap platform settings contentType (Except.error unsupportedMediaType)

/-!
## The loop over a map
-/

variable {caps caps' : Dict Int} {t pre : Text} {cap : Int}

theorem mem_caps : pre ∈ caps <-> exists cap, (pre, cap) ∈ caps.items := by
  simp only [Dict.mem_items]
  rw [← AList.lookup_isSome, Option.isSome_iff_exists]

theorem ranked_items : Best.Ranked
    (fun found : Text × Int => startsWith t found.1)
    (fun found => found.1.length) caps.items := by
  intro found found' hmem hmem' hstarts hstarts' hlength
  rcases found with ⟨pre, cap⟩
  rcases found' with ⟨pre', cap'⟩
  have hsame : pre = pre' :=
    (List.prefix_of_prefix_length_le (startsWith_iff.mp hstarts)
      (startsWith_iff.mp hstarts') (le_of_eq hlength)).eq_of_length hlength
  rw [← hsame] at hmem' ⊢
  rw [Dict.mem_items] at hmem hmem'
  rw [Option.some.inj (hmem.symm.trans hmem')]

theorem isBest_iff_longest : Best.IsBest
      (fun found : Text × Int => startsWith t found.1)
      (fun found => found.1.length) caps.items (pre, cap) <->
    Longest caps t pre cap := by
  constructor
  · intro h
    refine ⟨Dict.mem_items.mp h.mem, startsWith_iff.mp h.fits, ?_⟩
    intro other hother hstarts
    rcases mem_caps.mp hother with ⟨cap', hcap'⟩
    exact h.greatest (other, cap') hcap' (startsWith_iff.mpr hstarts)
  · intro h
    refine ⟨Dict.mem_items.mpr h.entry, startsWith_iff.mpr h.starts, ?_⟩
    intro found hother hstarts
    rcases found with ⟨other, cap'⟩
    exact h.longest other (mem_caps.mpr ⟨cap', hother⟩)
      (startsWith_iff.mp hstarts)

theorem longestMatch_eq_some :
    longestMatch caps t = some (pre, cap) <-> Longest caps t pre cap := by
  rw [longestMatch_eq_best, ← isBest_iff_longest]
  exact Best.best_eq_some ranked_items

theorem longestMatch_eq_none_iff :
    longestMatch caps t = none <-> Unmatched caps t := by
  rw [longestMatch_eq_none]
  constructor
  · intro h pre hpre
    rcases mem_caps.mp hpre with ⟨cap, hcap⟩
    rcases List.mem_map.mp hcap with ⟨entry, hentry, heq⟩
    cases heq
    exact h entry hentry
  · intro h entry hentry
    have hitem : (entry.1, entry.2) ∈ caps.items :=
      List.mem_map.mpr ⟨entry, hentry, rfl⟩
    exact h entry.1 (mem_caps.mpr ⟨entry.2, hitem⟩)

theorem longestMatch_perm (h : caps'.entries.Perm caps.entries) :
    longestMatch caps' t = longestMatch caps t := by
  rw [longestMatch_eq_best, longestMatch_eq_best]
  apply Best.best_of_same_members ranked_items
  intro found
  exact (h.map _).mem_iff

/-!
## The two lookups
-/

variable {platform : Platform} {settings : Settings}

theorem resolveS2sCap_iff {key : Text} :
    resolveS2sCap settings key = cap <-> ServiceCap settings key cap := by
  unfold resolveS2sCap
  cases hmatch : longestMatch settings.prefixSizeCaps key with
  | none =>
      have hnone := longestMatch_eq_none_iff.mp hmatch
      constructor
      · intro heq
        subst heq
        exact ServiceCap.default hnone
      · intro h
        cases h with
        | longest pre cap hlongest =>
            rw [longestMatch_eq_some.mpr hlongest] at hmatch
            cases hmatch
        | default _ => rfl
  | some found =>
      have hfound := longestMatch_eq_some.mp hmatch
      constructor
      · intro heq
        subst heq
        exact ServiceCap.longest found.1 found.2 hfound
      · intro h
        cases h with
        | longest pre cap hlongest =>
            rw [longestMatch_eq_some.mpr hlongest] at hmatch
            cases hmatch
            rfl
        | default hnone =>
            rw [longestMatch_eq_none_iff.mpr hnone] at hmatch
            cases hmatch

theorem resolveUserCap_iff {contentType : Option Text}
    {r : Except ServiceError Int} :
    resolveUserCap platform settings contentType = r <->
      UserCap platform settings contentType r := by
  unfold resolveUserCap
  dsimp only
  cases hmatch : longestMatch settings.userMimeCaps
      (mediaType platform contentType) with
  | none =>
      have hnone := longestMatch_eq_none_iff.mp hmatch
      constructor
      · intro heq
        subst heq
        exact UserCap.unlisted hnone
      · intro h
        cases h with
        | longest pre cap _ hlongest =>
            rw [longestMatch_eq_some.mpr hlongest] at hmatch
            cases hmatch
        | missing _ => rfl
        | unlisted _ => rfl
  | some found =>
      have hfound := longestMatch_eq_some.mp hmatch
      dsimp only
      constructor
      · intro heq
        subst heq
        split
        · rename_i hempty
          exact UserCap.missing hempty
        · rename_i hpresent
          exact UserCap.longest found.1 found.2 hpresent hfound
      · intro h
        cases h with
        | longest pre cap hpresent hlongest =>
            rw [longestMatch_eq_some.mpr hlongest] at hmatch
            cases hmatch
            exact if_neg hpresent
        | missing hempty => exact if_pos hempty
        | unlisted hnone =>
            rw [longestMatch_eq_none_iff.mpr hnone] at hmatch
            cases hmatch

structure LongestWins (platform : Platform) (settings : Settings) : Prop where
  service : forall key cap,
    resolveS2sCap settings key = cap <-> ServiceCap settings key cap
  user : forall contentType r,
    resolveUserCap platform settings contentType = r <->
      UserCap platform settings contentType r
  serviceOrder : forall (caps : Dict Int) key,
    caps.entries.Perm settings.prefixSizeCaps.entries ->
    resolveS2sCap { settings with prefixSizeCaps := caps } key =
      resolveS2sCap settings key
  userOrder : forall (caps : Dict Int) contentType,
    caps.entries.Perm settings.userMimeCaps.entries ->
    resolveUserCap platform { settings with userMimeCaps := caps } contentType =
      resolveUserCap platform settings contentType

example : longestMatch
    (Dict.ofItems [(text "image/", 100), (text "image/webp", 999)])
    (text "image/webp") = some (text "image/webp", 999) := by
  decide

end StorybookStorage
