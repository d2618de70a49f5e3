import StorybookStorage.Config.Settings
import StorybookStorage.Core.Platform
import StorybookStorage.Order.Best

/-!
# Write policy and size caps

`validation/prefix_policy.py` and `validation/size_caps.py`: where a user may
write, and how many bytes a write may have.
-/

namespace StorybookStorage

open Python

variable (platform : Platform) (settings : Settings)

def checkUserWritable (key : Text) : Except ServiceError Unit :=
  if settings.serviceOnlyPrefixes.any (startsWith key) then
    Except.error prefixNotAllowed
  else
    Except.ok ()

/-- The loop of both cap lookups: the first among the longest entries the text
starts with, with its cap. -/
def longestMatch (caps : Dict Int) (t : Text) : Option (Text × Int) :=
  caps.entries.foldl
    (fun best entry =>
      if startsWith t entry.1 = true ∧
          best.all (fun found => decide (found.1.length < entry.1.length)) = true
      then
        some (entry.1, entry.2)
      else
        best)
    none

/-- The media type of a declared content type: before the parameters, trimmed,
in lower case. -/
def mediaType (contentType : Option Text) : Text :=
  platform.lower (strip (beforeFirst ';' (contentType.getD [])))

def resolveUserCap (contentType : Option Text) : Except ServiceError Int :=
  let ct := mediaType platform contentType
  match longestMatch settings.userMimeCaps ct with
  | none => Except.error unsupportedMediaType
  | some found =>
      if ct = [] then
        Except.error unsupportedMediaType
      else
        Except.ok found.2

def checkUserUpload (key : Text) (contentType : Option Text)
    (size : Option Int) : Except ServiceError Int :=
  match checkUserWritable settings key with
  | Except.error e => Except.error e
  | Except.ok _ =>
      match resolveUserCap platform settings contentType with
      | Except.error e => Except.error e
      | Except.ok cap =>
          if size.any (fun n => decide (cap < n)) = true then
            Except.error payloadTooLarge
          else
            Except.ok cap

def resolveS2sCap (key : Text) : Int :=
  match longestMatch settings.prefixSizeCaps key with
  | some found => found.2
  | none => settings.storageMaxObjectBytes

variable {platform settings}

theorem checkUserWritable_ok {key : Text} :
    checkUserWritable settings key = Except.ok () <->
      forall pre, pre ∈ settings.serviceOnlyPrefixes -> ¬ pre <+: key := by
  unfold checkUserWritable
  split
  · rename_i hany
    rcases List.any_eq_true.mp hany with ⟨pre, hpre, hstarts⟩
    constructor
    · intro h
      cases h
    · intro h
      exact absurd (startsWith_iff.mp hstarts) (h pre hpre)
  · rename_i hnone
    constructor
    · intro _ pre hpre hprefix
      exact hnone (List.any_eq_true.mpr
        ⟨pre, hpre, startsWith_iff.mpr hprefix⟩)
    · intro _
      rfl

/-!
## Cap lookups
-/

/-- The step of the lookup loop. -/
def longerMatch (t : Text) (best : Option (Text × Int))
    (entry : Sigma fun _ : Text => Int) : Option (Text × Int) :=
  if startsWith t entry.1 = true ∧
      best.all (fun found => decide (found.1.length < entry.1.length)) = true
  then
    some (entry.1, entry.2)
  else
    best

theorem longestMatch_eq_best (caps : Dict Int) (t : Text) :
    longestMatch caps t =
      Best.best (fun found : Text × Int => startsWith t found.1)
        (fun found => found.1.length)
        (caps.entries.map fun entry => (entry.1, entry.2)) := by
  have hloop : longestMatch caps t =
      caps.entries.foldl (longerMatch t) none := rfl
  unfold Best.best
  rw [hloop, List.foldl_map]
  rfl

theorem longestMatch_eq_none {caps : Dict Int} {t : Text} :
    longestMatch caps t = none <->
      forall entry, entry ∈ caps.entries -> ¬ entry.1 <+: t := by
  rw [longestMatch_eq_best, Best.best_eq_none, List.forall_mem_map]
  apply forall₂_congr
  intro entry _
  rw [← startsWith_iff, Bool.not_eq_true]

theorem longestMatch_isSome {caps : Dict Int} {t : Text} :
    (longestMatch caps t).isSome = true <->
      exists entry, entry ∈ caps.entries ∧ entry.1 <+: t := by
  rw [Option.isSome_iff_ne_none, ne_eq, longestMatch_eq_none]
  push Not
  exact Iff.rfl

theorem resolveUserCap_isOk {contentType : Option Text} :
    (exists cap, resolveUserCap platform settings contentType = Except.ok cap) <->
      mediaType platform contentType ≠ [] ∧
        exists entry, entry ∈ settings.userMimeCaps.entries ∧
          entry.1 <+: mediaType platform contentType := by
  rw [← longestMatch_isSome]
  unfold resolveUserCap
  dsimp only
  split
  · rename_i hnone
    rw [hnone]
    constructor
    · intro h
      rcases h with ⟨_, heq⟩
      cases heq
    · intro h
      cases h.right
  · rename_i found hfound
    rw [hfound]
    split
    · rename_i hempty
      constructor
      · intro h
        rcases h with ⟨_, heq⟩
        cases heq
      · intro h
        exact absurd hempty h.left
    · rename_i hnonempty
      constructor
      · intro _
        exact ⟨hnonempty, rfl⟩
      · intro _
        exact ⟨_, rfl⟩

theorem checkUserUpload_ok {key : Text} {contentType : Option Text}
    {size : Option Int} {cap : Int} :
    checkUserUpload platform settings key contentType size = Except.ok cap <->
      checkUserWritable settings key = Except.ok () ∧
        resolveUserCap platform settings contentType = Except.ok cap ∧
        forall n, size = some n -> n ≤ cap := by
  unfold checkUserUpload
  split
  · rename_i e he
    rw [he]
    constructor
    · intro h
      cases h
    · intro h
      cases h.left
  · rename_i hwritable
    rw [hwritable]
    split
    · rename_i e he
      rw [he]
      constructor
      · intro h
        cases h
      · intro h
        cases h.right.left
    · rename_i cap' hcap
      rw [hcap]
      split
      · rename_i hlarge
        constructor
        · intro h
          cases h
        · intro h
          cases h.right.left
          cases size with
          | none => cases hlarge
          | some n =>
              exact absurd (of_decide_eq_true hlarge)
                (not_lt.mpr (h.right.right n rfl))
      · rename_i hfits
        constructor
        · intro h
          cases h
          refine ⟨rfl, rfl, ?_⟩
          intro n hn
          by_contra hexceeds
          apply hfits
          rw [hn]
          exact decide_eq_true (not_le.mp hexceeds)
        · intro h
          exact h.right.left

end StorybookStorage
