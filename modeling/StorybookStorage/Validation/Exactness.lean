import StorybookStorage.Config.Environment
import StorybookStorage.Drivers.Layout

/-!
# The grammar as documented

The checks of `key_grammar` overlap, and their expressions alone accept a final
newline.  Together they accept exactly the keys and buckets the module
documents.
-/

namespace StorybookStorage

open Python Posix

namespace KeyGrammar

def DocumentedChar (allowAt : Bool) (c : Char) : Prop :=
  ('A' ≤ c ∧ c ≤ 'Z') ∨ ('a' ≤ c ∧ c ≤ 'z') ∨ ('0' ≤ c ∧ c ≤ '9') ∨
    c = '.' ∨ c = '_' ∨ c = '-' ∨ (allowAt = true ∧ c = '@')

structure DocumentedSegment (allowAt : Bool) (seg : Text) : Prop where
  nonempty : seg ≠ []
  notDot : seg ≠ text "."
  notDots : seg ≠ text ".."
  short : seg.length ≤ 255
  chars : forall c, c ∈ seg -> DocumentedChar allowAt c

/-- A dot followed by at least one character after the last dot. -/
def HasExtension (name : Text) : Prop :=
  exists stem ext, name = stem ++ '.' :: ext ∧ ext ≠ [] ∧ '.' ∉ ext

structure DocumentedKey (allowAt : Bool) (key : Text) : Prop where
  nonempty : 1 ≤ key.length
  short : key.length ≤ 1024
  segments : forall seg, seg ∈ key.splitOn '/' -> DocumentedSegment allowAt seg
  extension :
    HasExtension ((key.splitOn '/').getLast (List.splitOn_ne_nil '/' key))

structure DocumentedBucket (parsed : List Text) (bucket : Text) : Prop where
  long : 3 ≤ bucket.length
  short : bucket.length ≤ 63
  chars : forall c, c ∈ bucket ->
    ('a' ≤ c ∧ c ≤ 'z') ∨ ('0' ≤ c ∧ c ≤ '9') ∨ c = '-'
  configured : bucket ∈ parsed

/-!
## Characters
-/

variable {allowAt : Bool} {key seg name : Text}

theorem isLowerOrDigit_iff {c : Char} : isLowerOrDigit c = true <->
    ('a' ≤ c ∧ c ≤ 'z') ∨ ('0' ≤ c ∧ c ≤ '9') := by
  simp [isLowerOrDigit]

theorem segmentChar_iff {c : Char} :
    segmentChar allowAt c = true <-> DocumentedChar allowAt c := by
  unfold segmentChar DocumentedChar isAlnumAscii
  simp only [Bool.or_eq_true, Bool.and_eq_true, beq_iff_eq, isLowerOrDigit_iff,
    decide_eq_true_eq, or_assoc]

theorem DocumentedChar.plain {c : Char} (h : DocumentedChar allowAt c) :
    0x20 ≤ c.toNat ∧ c ≠ '\\' ∧ c ≠ '%' ∧ c ≠ '/' ∧ c ≠ '\n' := by
  have hbound : forall {a b : Char}, a ≤ c ∧ c ≤ b -> a.toNat ≤ c.toNat ∧
      c.toNat ≤ b.toNat := fun hab => hab
  have hne : forall {x : Char}, c.toNat ≠ x.toNat -> c ≠ x :=
    fun hx hcx => hx (by rw [hcx])
  rcases h with h | h | h | rfl | rfl | rfl | ⟨_, rfl⟩
  · have hc : 65 ≤ c.toNat ∧ c.toNat ≤ 90 := hbound h
    exact ⟨by omega, hne (by simp; omega), hne (by simp; omega),
      hne (by simp; omega), hne (by simp; omega)⟩
  · have hc : 97 ≤ c.toNat ∧ c.toNat ≤ 122 := hbound h
    exact ⟨by omega, hne (by simp; omega), hne (by simp; omega),
      hne (by simp; omega), hne (by simp; omega)⟩
  · have hc : 48 ≤ c.toNat ∧ c.toNat ≤ 57 := hbound h
    exact ⟨by omega, hne (by simp; omega), hne (by simp; omega),
      hne (by simp; omega), hne (by simp; omega)⟩
  · decide
  · decide
  · decide
  · decide

/-!
## Segments
-/

theorem dollarBody_eq {t : Text} (h : t.getLast? ≠ some '\n') :
    dollarBody t = t :=
  if_neg h

theorem segmentMatches_iff (h : '\n' ∉ seg) :
    segmentMatches allowAt seg = true <->
      seg ≠ [] ∧ forall c, c ∈ seg -> DocumentedChar allowAt c := by
  unfold segmentMatches
  rw [dollarBody_eq fun hlast => h (List.mem_of_getLast? hlast)]
  simp [List.all_eq_true, segmentChar_iff]

theorem documentedSegment_iff (h : '\n' ∉ seg) :
    DocumentedSegment allowAt seg <->
      ¬ (seg = [] ∨ seg = text "." ∨ seg = text "..") ∧
        ¬ seg.length > maxSegmentLen ∧ segmentMatches allowAt seg = true := by
  rw [segmentMatches_iff h]
  constructor
  · intro hseg
    refine ⟨?_, not_lt.mpr hseg.short, hseg.nonempty, hseg.chars⟩
    intro hbad
    rcases hbad with hnil | hdot | hdots
    · exact hseg.nonempty hnil
    · exact hseg.notDot hdot
    · exact hseg.notDots hdots
  · intro hseg
    rcases hseg with ⟨hdots, hlen, hne, hchars⟩
    exact
      { nonempty := hne
        notDot := fun hdot => hdots (Or.inr (Or.inl hdot))
        notDots := fun hdot => hdots (Or.inr (Or.inr hdot))
        short := not_lt.mp hlen
        chars := hchars }

theorem validateSegments_iff {segs : List Text}
    (h : forall seg, seg ∈ segs -> '\n' ∉ seg) :
    validateSegments allowAt segs = Except.ok () <->
      forall seg, seg ∈ segs -> DocumentedSegment allowAt seg := by
  induction segs with
  | nil =>
      refine iff_of_true rfl fun seg hseg => ?_
      cases hseg
  | cons first rest ih =>
      have hrest := ih fun seg hseg => h seg (List.mem_cons_of_mem first hseg)
      have hfirst : DocumentedSegment allowAt first <-> _ :=
        documentedSegment_iff (h first List.mem_cons_self)
      unfold validateSegments
      rw [List.forall_mem_cons, hfirst, ← hrest]
      split
      · rename_i hdots
        refine iff_of_false (fun hno => ?_) fun hok => hok.left.left hdots
        cases hno
      · rename_i hdots
        split
        · rename_i hlen
          refine iff_of_false (fun hno => ?_) fun hok => hok.left.right.left hlen
          cases hno
        · rename_i hlen
          split
          · rename_i hmatch
            refine iff_of_false (fun hno => ?_) fun hok => ?_
            · cases hno
            · rw [hok.left.right.right] at hmatch
              cases hmatch
          · rename_i hmatch
            have hmatches : segmentMatches allowAt first = true := by
              simpa using hmatch
            constructor
            · intro hok
              exact ⟨⟨hdots, hlen, hmatches⟩, hok⟩
            · intro hok
              exact hok.right

/-!
## Extensions
-/

theorem afterLast_append {sep : Char} {ext : Text} (stem : Text)
    (h : sep ∉ ext) : afterLast sep (stem ++ sep :: ext) = ext := by
  unfold afterLast
  induction ext using List.reverseRecOn with
  | nil =>
      rw [List.rtakeWhile_concat_neg _ _ _ (by simp)]
  | append_singleton front c ih =>
      have hfront : sep ∉ front := fun hmem => h (List.mem_append_left _ hmem)
      have hc : c ≠ sep := fun hcc => h (by simp [hcc])
      have hshape : stem ++ sep :: (front ++ [c]) =
          (stem ++ sep :: front) ++ [c] := by simp
      rw [hshape, List.rtakeWhile_concat_pos _ _ _ (by simpa using hc), ih hfront]

theorem exists_afterLast {sep : Char} {t : Text} (h : sep ∈ t) :
    exists stem, t = stem ++ sep :: afterLast sep t := by
  induction t using List.reverseRecOn with
  | nil => cases h
  | append_singleton front c ih =>
      unfold afterLast
      by_cases hc : c = sep
      · rw [hc, List.rtakeWhile_concat_neg _ _ _ (by simp)]
        exact ⟨front, rfl⟩
      · have hfront : sep ∈ front := by
          rcases List.mem_append.mp h with hmem | hlast
          · exact hmem
          · exact absurd (List.mem_singleton.mp hlast).symm hc
        rcases ih hfront with ⟨stem, hstem⟩
        refine ⟨stem, ?_⟩
        rw [List.rtakeWhile_concat_pos _ _ _ (by simpa using hc)]
        unfold afterLast at hstem
        rw [← List.cons_append, ← List.append_assoc, ← hstem]

theorem not_mem_afterLast (sep : Char) (t : Text) : sep ∉ afterLast sep t := by
  intro h
  have hne := List.mem_rtakeWhile_imp h
  simp at hne

theorem hasExtension_iff :
    HasExtension name <-> ¬ ('.' ∉ name ∨ afterLast '.' name = []) := by
  constructor
  · intro h
    rcases h with ⟨stem, ext, rfl, hne, hdot⟩
    rw [afterLast_append stem hdot]
    simp [hne]
  · intro h
    rw [not_or, not_not] at h
    rcases exists_afterLast h.left with ⟨stem, hstem⟩
    exact ⟨stem, afterLast '.' name, hstem, h.right, not_mem_afterLast _ _⟩

/-!
## Keys
-/

theorem plain_of_segments
    (h : forall seg, seg ∈ key.splitOn '/' -> DocumentedSegment allowAt seg)
    {c : Char} (hc : c ∈ key) : c = '/' ∨ DocumentedChar allowAt c := by
  rcases exists_mem_splitOn hc with hslash | ⟨seg, hseg, hmem⟩
  · exact Or.inl hslash
  · exact Or.inr ((h seg hseg).chars c hmem)

theorem validateKey_iff : validateKey key allowAt = Except.ok () <->
    DocumentedKey allowAt key := by
  unfold validateKey
  split
  · rename_i hlen
    refine iff_of_false nofun fun hkey => ?_
    rcases hlen with rfl | hlong
    · exact absurd hkey.nonempty (by simp)
    · exact absurd hkey.short (not_le.mpr hlong)
  rename_i hlen
  rw [not_or] at hlen
  split
  · rename_i hslash
    refine iff_of_false nofun fun hkey => ?_
    rcases startsWith_iff.mp hslash with ⟨rest, rfl⟩
    have hempty : ([] : Text) ∈ (['/'] ++ rest).splitOn '/' := by
      rw [List.singleton_append, List.splitOn_cons_eq_if_modifyHead,
        if_pos (by simp)]
      exact List.mem_cons_self
    exact (hkey.segments [] hempty).nonempty rfl
  split
  · rename_i hback
    refine iff_of_false nofun fun hkey => ?_
    rcases plain_of_segments hkey.segments hback with hslash | hchar
    · exact absurd hslash (by decide)
    · exact hchar.plain.right.left rfl
  split
  · rename_i hpercent
    refine iff_of_false nofun fun hkey => ?_
    rcases plain_of_segments hkey.segments hpercent with hslash | hchar
    · exact absurd hslash (by decide)
    · exact hchar.plain.right.right.left rfl
  split
  · rename_i hcontrol
    refine iff_of_false nofun fun hkey => ?_
    rcases List.any_eq_true.mp hcontrol with ⟨c, hc, hlow⟩
    rcases plain_of_segments hkey.segments hc with rfl | hchar
    · exact absurd hlow (by decide)
    · exact absurd hchar.plain.left (not_le.mpr (by simpa using hlow))
  rename_i hcontrol
  have hline : forall seg, seg ∈ key.splitOn '/' -> '\n' ∉ seg := by
    intro seg hseg hmem
    apply hcontrol
    exact List.any_eq_true.mpr
      ⟨'\n', mem_of_mem_splitOn hseg hmem, by decide⟩
  have hsegments : validateSegments allowAt (key.splitOn '/') = Except.ok () <->
      forall seg, seg ∈ key.splitOn '/' -> DocumentedSegment allowAt seg :=
    validateSegments_iff hline
  split
  · rename_i hbad
    refine iff_of_false nofun fun hkey => ?_
    rw [hsegments.mpr hkey.segments] at hbad
    cases hbad
  · rename_i hgood
    dsimp only
    split
    · rename_i hext
      refine iff_of_false nofun fun hkey => ?_
      exact hasExtension_iff.mp hkey.extension hext
    · rename_i hext
      refine iff_of_true rfl ?_
      exact
        { nonempty := List.length_pos_iff.mpr hlen.left
          short := not_lt.mp hlen.right
          segments := hsegments.mp hgood
          extension := hasExtension_iff.mpr hext }

/-!
## Buckets
-/

theorem bucketMatches_iff {bucket : Text} (h : bucket.getLast? ≠ some '\n') :
    bucketMatches bucket = true <->
      (3 ≤ bucket.length ∧ bucket.length ≤ 63) ∧
        forall c, c ∈ bucket ->
          ('a' ≤ c ∧ c ≤ 'z') ∨ ('0' ≤ c ∧ c ≤ '9') ∨ c = '-' := by
  unfold bucketMatches
  rw [dollarBody_eq h]
  simp only [Bool.and_eq_true, decide_eq_true_eq, List.all_eq_true,
    Bool.or_eq_true, isLowerOrDigit_iff, beq_iff_eq, or_assoc]

theorem validateBucket_iff {py : Platform} {texts : Reprs} {settings : Settings}
    {raw bucket : Text} :
    validateBucket (settings.withBuckets py texts raw) bucket = Except.ok () <->
      DocumentedBucket (parseJsonOrCsvList py texts raw) bucket := by
  have hparsed : (settings.withBuckets py texts raw).buckets =
      parseJsonOrCsvList py texts raw := rfl
  unfold validateBucket
  rw [hparsed]
  by_cases hmem : bucket ∈ parseJsonOrCsvList py texts raw
  · rcases parseJsonOrCsvList_stripped py texts hmem with ⟨t, ht⟩
    have hline : bucket.getLast? ≠ some '\n' := by
      rw [ht]
      exact strip_getLast t
    have hmatches := bucketMatches_iff hline
    split
    · rename_i hbad
      refine iff_of_false nofun fun hbucket => ?_
      rw [hmatches.mpr ⟨⟨hbucket.long, hbucket.short⟩, hbucket.chars⟩] at hbad
      cases hbad
    · rename_i hgood
      rw [if_neg (by simp [hmem])]
      rcases hmatches.mp (by simpa using hgood) with ⟨⟨hlong, hshort⟩, hchars⟩
      exact iff_of_true rfl
        { long := hlong
          short := hshort
          chars := hchars
          configured := hmem }
  · refine iff_of_false ?_ fun hbucket => hmem hbucket.configured
    split
    · exact nofun
    · rw [if_pos (by simpa using hmem)]
      exact nofun

/-- The grammar accepts what it documents and refuses the rest with one
code. -/
structure Exact (py : Platform) (texts : Reprs) (settings : Settings) :
    Prop where
  keys : forall key allowAt,
    validateKey key allowAt = Except.ok () <-> DocumentedKey allowAt key
  buckets : forall raw bucket,
    validateBucket (settings.withBuckets py texts raw) bucket = Except.ok () <->
      DocumentedBucket (parseJsonOrCsvList py texts raw) bucket
  keyErrors : forall key allowAt e,
    validateKey key allowAt = Except.error e ->
    e.code = ErrorCode.VALIDATION_ERROR
  bucketErrors : forall raw bucket e,
    validateBucket (settings.withBuckets py texts raw) bucket = Except.error e ->
    e.code = ErrorCode.VALIDATION_ERROR

theorem grammar_exact (py : Platform) (texts : Reprs) (settings : Settings) :
    Exact py texts settings where
  keys := fun _ _ => validateKey_iff
  buckets := fun _ _ => validateBucket_iff
  keyErrors := by
    intro key allowAt e h
    rcases validateKey_error h with ⟨message, rfl⟩
    rfl
  bucketErrors := by
    intro raw bucket e h
    unfold validateBucket at h
    split at h
    · cases h
      rfl
    split at h
    · cases h
      rfl
    · cases h

example : validateKey (text "a.png\n") false ≠ Except.ok () ∧
    segmentMatches false (text "a.png\n") = true := by decide +kernel

end KeyGrammar

end StorybookStorage
