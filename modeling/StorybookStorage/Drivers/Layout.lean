import StorybookStorage.Drivers.LocalFs
import StorybookStorage.Posix.Contract
import StorybookStorage.Validation.KeyGrammar

/-!
# Where a key lives

A `Slot` is a bucket and key the grammar accepts.  Its object and its sidecar
lie at fixed places under the root, different slots at different places, and no
staging file is ever at one of them.
-/

namespace StorybookStorage

open Python Posix Effects

/-- A pair the grammar accepts in the wider of its two modes. -/
@[ext] structure Slot (settings : Settings) where
  bucket : Text
  key : Text
  accepted : KeyGrammar.validate settings bucket key true = Except.ok ()

namespace KeyGrammar

/-!
## What the grammar says about names
-/

theorem validateBucket_ok {settings : Settings} {bucket : Text}
    (h : validateBucket settings bucket = Except.ok ()) :
    bucketMatches bucket = true ∧ bucket ∈ settings.buckets := by
  unfold validateBucket at h
  split at h
  · cases h
  · rename_i hmatch
    split at h
    · cases h
    · rename_i hmem
      exact ⟨by simpa using hmatch, by simpa using hmem⟩

theorem validate_ok {settings : Settings} {bucket key : Text} {allowAt : Bool}
    (h : validate settings bucket key allowAt = Except.ok ()) :
    bucketMatches bucket = true ∧ bucket ∈ settings.buckets ∧
      validateKey key allowAt = Except.ok () := by
  unfold validate at h
  split at h
  · cases h
  · rename_i hbucket
    rcases validateBucket_ok hbucket with ⟨hmatch, hmem⟩
    exact ⟨hmatch, hmem, h⟩

theorem validateKey_ok {key : Text} {allowAt : Bool}
    (h : validateKey key allowAt = Except.ok ()) :
    (forall c, c ∈ key -> 0x20 ≤ c.toNat) ∧
      validateSegments allowAt (key.splitOn '/') = Except.ok () := by
  unfold validateKey at h
  split at h
  · cases h
  split at h
  · cases h
  split at h
  · cases h
  split at h
  · cases h
  split at h
  · cases h
  rename_i hcontrol
  split at h
  · cases h
  rename_i hsegs
  refine ⟨?_, hsegs⟩
  simpa using hcontrol

theorem validateSegments_ok {allowAt : Bool} {segs : List Text}
    (h : validateSegments allowAt segs = Except.ok ()) :
    forall seg, seg ∈ segs ->
      seg ≠ [] ∧ seg ≠ text "." ∧ seg ≠ text ".." ∧
        segmentMatches allowAt seg = true := by
  induction segs with
  | nil =>
      intro seg hseg
      cases hseg
  | cons first rest ih =>
      unfold validateSegments at h
      split at h
      · cases h
      rename_i hdots
      split at h
      · cases h
      split at h
      · cases h
      rename_i hmatch
      intro seg hseg
      rcases List.mem_cons.mp hseg with heq | hmem
      · rw [heq]
        simp only [not_or] at hdots
        exact ⟨hdots.left, hdots.right.left, hdots.right.right,
          by simpa using hmatch⟩
      · exact ih h seg hmem

theorem mem_dollarBody {t : Text} {c : Char} (h : c ∈ t) :
    c ∈ dollarBody t ∨ c = '\n' := by
  unfold dollarBody
  split
  · rename_i hlast
    rcases List.getLast?_eq_some_iff.mp hlast with ⟨front, rfl⟩
    rw [List.dropLast_concat]
    simpa using h
  · exact Or.inl h

theorem bucket_char {bucket : Text} (h : bucketMatches bucket = true) {c : Char}
    (hc : c ∈ bucket) :
    isLowerOrDigit c = true ∨ c = '-' ∨ c = '\n' := by
  unfold bucketMatches at h
  simp only [Bool.and_eq_true, List.all_eq_true, Bool.or_eq_true,
    beq_iff_eq] at h
  rcases mem_dollarBody hc with hbody | hline
  · rcases h.right c hbody with hlower | hdash
    · exact Or.inl hlower
    · exact Or.inr (Or.inl hdash)
  · exact Or.inr (Or.inr hline)

theorem not_mem_bucket {bucket : Text} (h : bucketMatches bucket = true)
    {c : Char} (hlower : isLowerOrDigit c = false) (hdash : c ≠ '-')
    (hline : c ≠ '\n') : c ∉ bucket := by
  intro hc
  rcases bucket_char h hc with hl | hd | hn
  · rw [hlower] at hl
    cases hl
  · exact hdash hd
  · exact hline hn

theorem bucket_length {bucket : Text} (h : bucketMatches bucket = true) :
    3 ≤ bucket.length := by
  unfold bucketMatches at h
  simp only [Bool.and_eq_true, decide_eq_true_eq] at h
  have hbody : (dollarBody bucket).length ≤ bucket.length := by
    unfold dollarBody
    split
    · rw [List.length_dropLast]
      omega
    · exact Nat.le_refl _
  omega

theorem plain_bucket {bucket : Text} (h : bucketMatches bucket = true) :
    Plain bucket := by
  have hlen := bucket_length h
  refine ⟨?_, ?_, ?_, ?_⟩
  · intro hnil
    rw [hnil] at hlen
    simp at hlen
  · intro hdot
    rw [hdot] at hlen
    simp [text] at hlen
  · intro hdots
    rw [hdots] at hlen
    simp [text] at hlen
  · exact not_mem_bucket h (by decide) (by decide) (by decide)

theorem dot_not_mem_bucket {bucket : Text} (h : bucketMatches bucket = true) :
    '.' ∉ bucket :=
  not_mem_bucket h (by decide) (by decide) (by decide)

theorem segment_char {allowAt : Bool} {seg : Text}
    (h : segmentMatches allowAt seg = true) {c : Char} (hc : c ∈ seg) :
    segmentChar allowAt c = true ∨ c = '\n' := by
  unfold segmentMatches at h
  simp only [Bool.and_eq_true, List.all_eq_true] at h
  exact (mem_dollarBody hc).imp_left (h.right c)

theorem key_char {key : Text} {allowAt : Bool}
    (h : validateKey key allowAt = Except.ok ()) {c : Char} (hc : c ∈ key) :
    c = '/' ∨ segmentChar allowAt c = true := by
  rcases validateKey_ok h with ⟨hcontrol, hsegs⟩
  rcases exists_mem_splitOn hc with hslash | ⟨seg, hseg, hmem⟩
  · exact Or.inl hslash
  · rcases validateSegments_ok hsegs seg hseg with ⟨_, _, _, hmatch⟩
    rcases segment_char hmatch hmem with hchar | rfl
    · exact Or.inr hchar
    · exact absurd (hcontrol _ hc) (by decide)

theorem not_mem_key {key : Text} {allowAt : Bool}
    (h : validateKey key allowAt = Except.ok ()) {c : Char} (hslash : c ≠ '/')
    (hchar : segmentChar allowAt c = false) : c ∉ key := by
  intro hc
  rcases key_char h hc with hs | hclass
  · exact hslash hs
  · rw [hchar] at hclass
    cases hclass

theorem segmentMatches_mono {seg : Text} (h : segmentMatches false seg = true) :
    segmentMatches true seg = true := by
  unfold segmentMatches at h ⊢
  simp only [Bool.and_eq_true, List.all_eq_true] at h ⊢
  refine ⟨h.left, ?_⟩
  intro c hc
  have hclass := h.right c hc
  simp only [segmentChar, Bool.false_and, Bool.or_false, Bool.true_and] at hclass ⊢
  simp [hclass]

theorem validateSegments_error {allowAt : Bool} {segs : List Text}
    {e : ServiceError} (h : validateSegments allowAt segs = Except.error e) :
    exists message, e = validationError message := by
  induction segs with
  | nil => cases h
  | cons seg rest ih =>
      unfold validateSegments at h
      split at h
      · cases h
        exact ⟨_, rfl⟩
      split at h
      · cases h
        exact ⟨_, rfl⟩
      split at h
      · cases h
        exact ⟨_, rfl⟩
      · exact ih h

theorem validateKey_error {key : Text} {allowAt : Bool} {e : ServiceError}
    (h : validateKey key allowAt = Except.error e) :
    exists message, e = validationError message := by
  unfold validateKey at h
  split at h
  · cases h
    exact ⟨_, rfl⟩
  split at h
  · cases h
    exact ⟨_, rfl⟩
  split at h
  · cases h
    exact ⟨_, rfl⟩
  split at h
  · cases h
    exact ⟨_, rfl⟩
  split at h
  · cases h
    exact ⟨_, rfl⟩
  split at h
  · rename_i hsegs
    cases h
    exact validateSegments_error hsegs
  · dsimp only at h
    split at h
    · cases h
      exact ⟨_, rfl⟩
    · cases h

theorem validate_error {settings : Settings} {bucket key : Text}
    {allowAt : Bool} {e : ServiceError}
    (h : validate settings bucket key allowAt = Except.error e) :
    exists message, e = validationError message := by
  unfold validate at h
  split at h
  · rename_i hbucket
    cases h
    unfold validateBucket at hbucket
    split at hbucket
    · cases hbucket
      exact ⟨_, rfl⟩
    split at hbucket
    · cases hbucket
      exact ⟨_, rfl⟩
    · cases hbucket
  · exact validateKey_error h

theorem segmentMatches_narrow {seg : Text} (hat : '@' ∉ seg)
    (h : segmentMatches true seg = true) : segmentMatches false seg = true := by
  unfold segmentMatches at h ⊢
  simp only [Bool.and_eq_true, List.all_eq_true] at h ⊢
  refine ⟨h.left, ?_⟩
  intro c hc
  have hne : c ≠ '@' := by
    intro heq
    subst heq
    apply hat
    unfold dollarBody at hc
    split at hc
    · exact List.mem_of_mem_dropLast hc
    · exact hc
  have hclass := h.right c hc
  have hfalse : (c == '@') = false := by simpa using hne
  simp only [segmentChar, hfalse, Bool.and_false, Bool.or_false] at hclass ⊢
  exact hclass

variable {a b : Bool}

theorem validateSegments_of_matches {segs : List Text}
    (hmode : forall seg, seg ∈ segs -> segmentMatches a seg = true ->
      segmentMatches b seg = true)
    (h : validateSegments a segs = Except.ok ()) :
    validateSegments b segs = Except.ok () := by
  induction segs with
  | nil => rfl
  | cons seg rest ih =>
      unfold validateSegments at h ⊢
      split at h
      · cases h
      rename_i hdots
      rw [if_neg hdots]
      split at h
      · cases h
      rename_i hlen
      rw [if_neg hlen]
      split at h
      · cases h
      rename_i hmatch
      have hwide : segmentMatches b seg = true :=
        hmode seg List.mem_cons_self (by simpa using hmatch)
      rw [if_neg (by simp [hwide])]
      exact ih (fun seg' hseg' => hmode seg' (List.mem_cons_of_mem _ hseg')) h

theorem validateKey_of_matches {key : Text}
    (hmode : forall seg, seg ∈ key.splitOn '/' -> segmentMatches a seg = true ->
      segmentMatches b seg = true)
    (h : validateKey key a = Except.ok ()) :
    validateKey key b = Except.ok () := by
  unfold validateKey at h ⊢
  split at h
  · cases h
  rename_i h1
  rw [if_neg h1]
  split at h
  · cases h
  rename_i h2
  rw [if_neg h2]
  split at h
  · cases h
  rename_i h3
  rw [if_neg h3]
  split at h
  · cases h
  rename_i h4
  rw [if_neg h4]
  split at h
  · cases h
  rename_i h5
  rw [if_neg h5]
  split at h
  · cases h
  rename_i h6
  rw [validateSegments_of_matches hmode h6]
  exact h

theorem validateKey_mono {key : Text}
    (h : validateKey key false = Except.ok ()) :
    validateKey key true = Except.ok () :=
  validateKey_of_matches (fun _ _ => segmentMatches_mono) h

theorem validateKey_narrow {key : Text} (hat : '@' ∉ key)
    (h : validateKey key true = Except.ok ()) :
    validateKey key false = Except.ok () := by
  apply validateKey_of_matches _ h
  intro seg hseg
  exact segmentMatches_narrow fun hc => hat (mem_of_mem_splitOn hseg hc)

theorem validate_mono {settings : Settings} {bucket key : Text}
    {allowAt : Bool}
    (h : validate settings bucket key allowAt = Except.ok ()) :
    validate settings bucket key true = Except.ok () := by
  cases allowAt with
  | true => exact h
  | false =>
      unfold validate at h ⊢
      split at h
      · cases h
      · exact validateKey_mono h

/-- The narrower mode rejects exactly the keys with an at sign. -/
theorem validate_narrow_iff {settings : Settings} {bucket key : Text}
    (h : validate settings bucket key true = Except.ok ()) :
    validate settings bucket key false = Except.ok () <-> '@' ∉ key := by
  constructor
  · intro hnarrow
    exact not_mem_key (validate_ok hnarrow).right.right (by decide) (by decide)
  · intro hat
    unfold validate at h ⊢
    split at h
    · cases h
    · exact validateKey_narrow hat h

end KeyGrammar

theorem plain_json {name : Text} (h : '/' ∉ name) :
    Plain (name ++ text ".json") := by
  have hlen : 5 ≤ (name ++ text ".json").length := by simp [text]
  refine ⟨?_, ?_, ?_, ?_⟩
  · intro hnil
    rw [hnil] at hlen
    simp at hlen
  · intro hdot
    rw [hdot] at hlen
    simp [text] at hlen
  · intro hdots
    rw [hdots] at hlen
    simp [text] at hlen
  · intro hslash
    rcases List.mem_append.mp hslash with hname | hsuffix
    · exact h hname
    · exact absurd hsuffix (by decide)

namespace Slot

variable {settings : Settings} (slot : Slot settings)

theorem bucket_plain : Plain slot.bucket :=
  KeyGrammar.plain_bucket (KeyGrammar.validate_ok slot.accepted).left

theorem dot_not_mem_bucket : '.' ∉ slot.bucket :=
  KeyGrammar.dot_not_mem_bucket (KeyGrammar.validate_ok slot.accepted).left

theorem bucket_ne {name : Text} (h : '.' ∈ name) : slot.bucket ≠ name := by
  intro heq
  rw [← heq] at h
  exact slot.dot_not_mem_bucket h

theorem key_plain : forall seg, seg ∈ slot.key.splitOn '/' -> Plain seg := by
  rcases KeyGrammar.validate_ok slot.accepted with ⟨_, _, hkey⟩
  have hsegs :=
    KeyGrammar.validateSegments_ok (KeyGrammar.validateKey_ok hkey).right
  intro seg hseg
  rcases hsegs seg hseg with ⟨hnil, hdot, hdotdot, _⟩
  exact ⟨hnil, hdot, hdotdot, not_mem_of_mem_splitOn hseg⟩

theorem exists_segments :
    exists (init : List Text) (last : Text),
      slot.key.splitOn '/' = init ++ [last] ∧
        (slot.key ++ text ".json").splitOn '/' =
          init ++ [last ++ text ".json"] := by
  rcases exists_splitOn_eq_concat slot.key with ⟨init, last, hsplit⟩
  exact ⟨init, last, hsplit, splitOn_append_of_not_mem hsplit (by decide)⟩

theorem sidecar_plain :
    forall seg, seg ∈ (slot.key ++ text ".json").splitOn '/' -> Plain seg := by
  rcases slot.exists_segments with ⟨init, last, hkey, hjson⟩
  have hplain := slot.key_plain
  rw [hkey] at hplain
  rw [hjson]
  intro seg hseg
  rcases List.mem_append.mp hseg with hinit | hlast
  · exact hplain seg (by simp [hinit])
  · rw [List.mem_singleton.mp hlast]
    exact plain_json (hplain last (by simp)).right.right.right

/-!
## Places
-/

def objectLoc (root : Text) : Path :=
  resolve root ++ slot.bucket :: slot.key.splitOn '/'

def sidecarLoc (root : Text) : Path :=
  resolve root ++ metaDir :: slot.bucket ::
    (slot.key ++ text ".json").splitOn '/'

def objectText (root : Text) : Text :=
  join (join root slot.bucket) slot.key

def sidecarText (root : Text) : Text :=
  join (join (join root metaDir) slot.bucket) (slot.key ++ text ".json")

theorem plain_metaDir : Plain metaDir := by decide

theorem plain_tmpDir : Plain tmpDir := by decide

@[simp] theorem resolve_objectText (root : Text) :
    resolve (slot.objectText root) = slot.objectLoc root := by
  unfold objectText objectLoc
  rw [resolve_join_plain slot.key_plain, resolve_join_single slot.bucket_plain]
  simp

@[simp] theorem resolve_sidecarText (root : Text) :
    resolve (slot.sidecarText root) = slot.sidecarLoc root := by
  unfold sidecarText sidecarLoc
  rw [resolve_join_plain slot.sidecar_plain,
    resolve_join_single slot.bucket_plain, resolve_join_single plain_metaDir]
  simp

theorem assertWithin_of_append {a b : Text} (more : List Text)
    (hb : resolve b = resolve a ++ more)
    (ha : resolve a ≠ []) : assertWithin a b = Except.ok (realpath b) := by
  unfold assertWithin
  rw [if_neg]
  intro hplace
  rcases hplace with ⟨hne, hpre⟩
  have hstart : (realpath a ++ ['/']) <+: realpath b := by
    unfold realpath
    rw [hb]
    cases more with
    | nil =>
        refine absurd ?_ hne
        unfold realpath
        rw [hb, List.append_nil]
    | cons first rest =>
        have hsplit : ['/'].intercalate (resolve a ++ first :: rest) =
            ['/'].intercalate (resolve a) ++ ['/'] ++
              ['/'].intercalate (first :: rest) := by
          clear hb hne hpre
          induction rest using List.reverseRecOn with
          | nil => rw [intercalate_concat ha]; simp [List.intercalate_singleton]
          | append_singleton front last ih =>
              have hmore : resolve a ++ first :: (front ++ [last]) =
                  (resolve a ++ first :: front) ++ [last] := by simp
              have hmore' : first :: (front ++ [last]) =
                  (first :: front) ++ [last] := rfl
              rw [hmore, intercalate_concat (by simp), ih, hmore',
                intercalate_concat (by simp)]
              simp only [List.append_assoc]
        rw [hsplit, List.cons_append, List.prefix_cons_inj]
        exact List.prefix_append _ _
  rw [startsWith_iff.mpr hstart] at hpre
  cases hpre

theorem objectPath_ok (root : Text) :
    objectPath root slot.bucket slot.key =
      Except.ok (slot.objectText root) := by
  have hin : assertWithin (join root slot.bucket) (slot.objectText root) =
      Except.ok (realpath (slot.objectText root)) := by
    apply assertWithin_of_append (slot.key.splitOn '/')
    · exact resolve_join_plain slot.key_plain
    · rw [resolve_join_single slot.bucket_plain]
      simp
  unfold objectText at hin ⊢
  unfold objectPath
  dsimp only
  rw [hin]

theorem metaPath_ok (root : Text) :
    metaPath root slot.bucket slot.key =
      Except.ok (slot.sidecarText root) := by
  have hin : assertWithin (join (join root metaDir) slot.bucket)
      (slot.sidecarText root) =
        Except.ok (realpath (slot.sidecarText root)) := by
    apply assertWithin_of_append
      ((slot.key ++ text ".json").splitOn '/')
    · exact resolve_join_plain slot.sidecar_plain
    · rw [resolve_join_single slot.bucket_plain]
      simp
  unfold sidecarText at hin ⊢
  unfold metaPath
  dsimp only
  rw [hin]

/-!
## Parents
-/

theorem splitOn_join {a b : Text} (hb : b.head? ≠ some '/') :
    exists pre, (join a b).splitOn '/' = pre ++ b.splitOn '/' := by
  unfold join
  rw [if_neg hb]
  split
  · rename_i hempty
    rcases hempty with hnil | hslash
    · subst hnil
      exact ⟨[], rfl⟩
    · rcases List.getLast?_eq_some_iff.mp hslash with ⟨front, rfl⟩
      exact ⟨front.splitOn '/', by
        rw [List.append_assoc, List.singleton_append,
          List.splitOn_append_cons_self]⟩
  · exact ⟨a.splitOn '/', List.splitOn_append_cons_self _ _⟩

theorem resolve_dirname_join {a b : Text}
    (h : forall seg, seg ∈ b.splitOn '/' -> Plain seg) :
    resolve (dirname (join a b)) = (resolve (join a b)).dropLast := by
  rcases splitOn_join (a := a) (head_ne_slash_of_plain h) with ⟨pre, hpre⟩
  rcases exists_splitOn_eq_concat b with ⟨init, last, hsplit⟩
  rw [hsplit, ← List.append_assoc] at hpre
  exact resolve_dirname hpre (h last (by rw [hsplit]; simp))

theorem resolve_dirname_objectText (root : Text) :
    resolve (dirname (slot.objectText root)) =
      (slot.objectLoc root).dropLast := by
  rw [← resolve_objectText]
  exact resolve_dirname_join slot.key_plain

theorem resolve_dirname_sidecarText (root : Text) :
    resolve (dirname (slot.sidecarText root)) =
      (slot.sidecarLoc root).dropLast := by
  rw [← resolve_sidecarText]
  exact resolve_dirname_join slot.sidecar_plain

end Slot

/-!
## Staging names
-/

theorem plain_token {u : Text} (h : IsToken u) : Plain u := by
  rcases h with ⟨hlen, hhex⟩
  refine ⟨?_, ?_, ?_, ?_⟩
  · intro hu
    rw [hu] at hlen
    cases hlen
  · intro hu
    rw [hu] at hlen
    cases hlen
  · intro hu
    rw [hu] at hlen
    cases hlen
  · intro hslash
    have hmem := List.all_eq_true.mp hhex '/' hslash
    exact absurd hmem (by decide)

def tokenName (name u : Text) : Text := name ++ ['.'] ++ u ++ text ".tmp"

/-- Where a token stages files: in the staging directory for objects, next to
the sidecar for sidecars. -/
def stagingPlace (root u : Text) (p : Path) : Prop :=
  IsToken u ∧
    (p = resolve root ++ [tmpDir, u] ∨
      exists q name, (resolve root ++ [metaDir]) <+: q ∧
        p = q ++ [tokenName name u])

theorem append_two (q : Path) (a b : Text) : q ++ [a, b] = (q ++ [a]) ++ [b] := by
  simp

theorem tokenName_inj {name name' u v : Text} (hu : IsToken u) (hv : IsToken v)
    (h : tokenName name u = tokenName name' v) : u = v := by
  unfold tokenName at h
  have htail := List.append_inj_left' h rfl
  exact (List.append_inj' htail (by rw [hu.left, hv.left])).right

theorem stagingPlace_tmp_meta {root u v : Text} {q : Path} {name : Text}
    (hq : (resolve root ++ [metaDir]) <+: q)
    (h : resolve root ++ [tmpDir, u] = q ++ [tokenName name v]) : False := by
  rw [append_two] at h
  have hinit : resolve root ++ [tmpDir] = q :=
    (List.append_inj' h rfl).left
  rw [← hinit] at hq
  have heq := hq.eq_of_length (by simp)
  have hlast := (List.append_inj' heq rfl).right
  exact absurd hlast (by decide)

/-- The staging names of the service under one root. -/
def staging (root : Text) : Staging where
  Place := stagingPlace root
  unique := by
    intro u v p hplace hplace'
    rcases hplace with ⟨hu, hup⟩
    rcases hplace' with ⟨hv, hvp⟩
    rcases hup with hu1 | ⟨q, name, hq, hu2⟩
    · rcases hvp with hv1 | ⟨q', name', hq', hv2⟩
      · rw [hu1] at hv1
        simpa using hv1
      · rw [hu1] at hv2
        exact absurd (stagingPlace_tmp_meta hq' hv2) id
    · rcases hvp with hv1 | ⟨q', name', hq', hv2⟩
      · rw [hv1] at hu2
        exact absurd (stagingPlace_tmp_meta hq hu2) id
      · rw [hu2] at hv2
        have hnames := (List.append_inj' hv2 rfl).right
        exact tokenName_inj hu hv (by simpa using hnames)
  named := by
    intro u p hplace
    rcases hplace with ⟨_, hp⟩
    rcases hp with hp | ⟨q, name, _, hp⟩
    · exact ⟨u, by rw [hp]; simp, List.infix_rfl⟩
    · refine ⟨tokenName name u, by rw [hp]; simp, ?_⟩
      exact ⟨name ++ ['.'], text ".tmp", by simp [tokenName]⟩

theorem resolve_tmpText {root u : Text} (hu : IsToken u) :
    resolve (join (join root tmpDir) u) = resolve root ++ [tmpDir, u] := by
  rw [resolve_join_single (plain_token hu),
    resolve_join_single Slot.plain_tmpDir, append_two]

theorem place_tmp {root u : Text} (hu : IsToken u) :
    (staging root).Place u (resolve (join (join root tmpDir) u)) :=
  ⟨hu, Or.inl (resolve_tmpText hu)⟩

namespace Slot

variable {settings : Settings} (slot : Slot settings)

theorem resolve_sidecarTmp (root : Text) {u : Text} (hu : IsToken u) :
    exists name, resolve (sidecarTmp (slot.sidecarText root) u) =
      (slot.sidecarLoc root).dropLast ++ [tokenName name u] := by
  rcases slot.exists_segments with ⟨init, last, _, hjson⟩
  have hhead := head_ne_slash_of_plain slot.sidecar_plain
  rcases splitOn_join (a := join (join root metaDir) slot.bucket) hhead with
    ⟨pre, hpre⟩
  have hsuffix : '/' ∉ ['.'] ++ u ++ text ".tmp" := by
    intro h
    rcases List.mem_append.mp h with h | h
    · rcases List.mem_append.mp h with h | h
      · exact absurd h (by decide)
      · exact (plain_token hu).right.right.right h
    · exact absurd h (by decide)
  have hsplit : (slot.sidecarText root).splitOn '/' =
      (pre ++ init) ++ [last ++ text ".json"] := by
    rw [List.append_assoc, ← hjson]
    exact hpre
  have hlong := splitOn_append_of_not_mem hsplit hsuffix
  have hplain : Plain (last ++ text ".json" ++ (['.'] ++ u ++ text ".tmp")) := by
    refine ⟨by simp [text], ?_, ?_, ?_⟩
    · intro h
      have hlen := congrArg List.length h
      simp [text] at hlen
      omega
    · intro h
      have hlen := congrArg List.length h
      simp [text] at hlen
      omega
    · intro h
      rcases List.mem_append.mp h with h | h
      · exact (slot.sidecar_plain (last ++ text ".json")
          (by rw [hjson]; simp)).right.right.right h
      · exact hsuffix h
  have hlast : Plain (last ++ text ".json") :=
    slot.sidecar_plain _ (by rw [hjson]; simp)
  refine ⟨last ++ text ".json", ?_⟩
  rw [← slot.resolve_sidecarText root]
  have htext : sidecarTmp (slot.sidecarText root) u =
      slot.sidecarText root ++ (['.'] ++ u ++ text ".tmp") := by
    simp [sidecarTmp]
  rw [htext]
  unfold resolve
  rw [hlong, hsplit]
  simp only [List.foldl_append, List.foldl_cons, List.foldl_nil]
  rw [walk_plain hplain, walk_plain hlast, List.dropLast_concat]
  simp [tokenName]

theorem sidecarLoc_folders (root : Text) :
    exists init, (slot.sidecarLoc root).dropLast =
        resolve root ++ metaDir :: slot.bucket :: init ∧
      forall seg, seg ∈ init -> seg ∈ slot.key.splitOn '/' := by
  rcases slot.exists_segments with ⟨init, last, hkey, hjson⟩
  refine ⟨init, ?_, ?_⟩
  · unfold sidecarLoc
    rw [hjson]
    have hshape : resolve root ++ metaDir :: slot.bucket ::
        (init ++ [last ++ text ".json"]) =
          (resolve root ++ metaDir :: slot.bucket :: init) ++
            [last ++ text ".json"] := by simp
    rw [hshape, List.dropLast_concat]
  · intro seg hseg
    rw [hkey]
    exact List.mem_append_left _ hseg

theorem sidecarLoc_dropLast (root : Text) :
    exists init, (slot.sidecarLoc root).dropLast =
      resolve root ++ metaDir :: slot.bucket :: init := by
  rcases slot.sidecarLoc_folders root with ⟨init, hinit, _⟩
  exact ⟨init, hinit⟩

theorem place_sidecarTmp {root u : Text} (hu : IsToken u) :
    (staging root).Place u
      (resolve (sidecarTmp (slot.sidecarText root) u)) := by
  rcases slot.resolve_sidecarTmp root hu with ⟨name, hname⟩
  rcases slot.sidecarLoc_dropLast root with ⟨init, hinit⟩
  refine ⟨hu, Or.inr ⟨(slot.sidecarLoc root).dropLast, name, ?_, hname⟩⟩
  rw [hinit]
  exact ⟨slot.bucket :: init, by simp⟩

/-!
## Different places
-/

theorem objectLoc_inj {root : Text} {slot slot' : Slot settings}
    (h : slot.objectLoc root = slot'.objectLoc root) : slot = slot' := by
  have htail := List.append_cancel_left h
  rcases List.cons.inj htail with ⟨hbucket, hkey⟩
  exact Slot.ext hbucket (splitOn_injective hkey)

theorem sidecarLoc_inj {root : Text} {slot slot' : Slot settings}
    (h : slot.sidecarLoc root = slot'.sidecarLoc root) : slot = slot' := by
  have htail := List.append_cancel_left h
  rcases List.cons.inj (List.cons.inj htail).right with ⟨hbucket, hkey⟩
  exact Slot.ext hbucket
    (List.append_cancel_right (splitOn_injective hkey))

theorem objectLoc_ne_dotted {root name : Text} {q : Path} (hdot : '.' ∈ name)
    (hq : (resolve root ++ [name]) <+: q) :
    ¬ q <+: slot.objectLoc root := by
  intro hpre
  rcases hq.trans hpre with ⟨rest, hrest⟩
  unfold objectLoc at hrest
  rw [List.append_assoc] at hrest
  have htail := List.append_cancel_left hrest
  rw [List.singleton_append] at htail
  exact slot.bucket_ne hdot (List.cons.inj htail).left.symm

theorem hidden_cases {root : Text} {p : Path} (h : (staging root).Hidden p) :
    exists name, '.' ∈ name ∧ (resolve root ++ [name]) <+: p := by
  rcases h with ⟨u, _, hp | ⟨q, name, hq, hp⟩⟩
  · refine ⟨tmpDir, by decide, ?_⟩
    rw [hp]
    exact ⟨[u], by simp⟩
  · refine ⟨metaDir, by decide, hq.trans ?_⟩
    rw [hp]
    exact List.prefix_append _ _

theorem visible_of_prefix_objectLoc {root : Text} {q : Path}
    (hq : q <+: slot.objectLoc root) : ¬ (staging root).Hidden q := by
  intro hhidden
  rcases hidden_cases hhidden with ⟨name, hdot, hpre⟩
  exact slot.objectLoc_ne_dotted hdot hpre hq

theorem visible_objectLoc (root : Text) :
    ¬ (staging root).Hidden (slot.objectLoc root) :=
  slot.visible_of_prefix_objectLoc List.prefix_rfl

theorem visible_sidecarLoc (root : Text) :
    ¬ (staging root).Hidden (slot.sidecarLoc root) := by
  intro hplace
  rcases hplace with ⟨u, _, hp | ⟨q, name, _, hp⟩⟩
  · unfold sidecarLoc at hp
    have htail := List.append_cancel_left hp
    exact absurd (List.cons.inj htail).left (by decide)
  · rcases slot.exists_segments with ⟨init, last, _, hjson⟩
    unfold sidecarLoc at hp
    rw [hjson] at hp
    have hlast := congrArg List.getLast? hp
    have hshape : resolve root ++ metaDir :: slot.bucket ::
        (init ++ [last ++ text ".json"]) =
          (resolve root ++ metaDir :: slot.bucket :: init) ++
            [last ++ text ".json"] := by simp
    rw [hshape, List.getLast?_concat, List.getLast?_concat] at hlast
    have hnames : last ++ text ".json" = name ++ ['.'] ++ u ++ text ".tmp" :=
      Option.some.inj hlast
    have hend := congrArg List.getLast? hnames
    rw [List.getLast?_append, List.getLast?_append] at hend
    simp [text] at hend

theorem objectLoc_ne_sidecarLoc (root : Text) (slot' : Slot settings) :
    slot.objectLoc root ≠ slot'.sidecarLoc root := by
  intro h
  have hdot : '.' ∈ metaDir := by decide
  have hunder : (resolve root ++ [metaDir]) <+: slot'.sidecarLoc root :=
    ⟨slot'.bucket :: (slot'.key ++ text ".json").splitOn '/', by
      simp [sidecarLoc]⟩
  apply slot.objectLoc_ne_dotted hdot hunder
  rw [h]

theorem ne_of_prefix_under {root a b : Text} {x y : List Text}
    (h : (resolve root ++ a :: x) <+: (resolve root ++ b :: y)) : a = b := by
  rcases h with ⟨rest, hrest⟩
  rw [List.append_assoc] at hrest
  exact (List.cons.inj (List.append_cancel_left hrest)).left

theorem objectLoc_not_below_meta (root : Text) (slot' : Slot settings) :
    ¬ slot.objectLoc root <+: slot'.sidecarLoc root := by
  intro h
  exact slot.bucket_ne (by decide) (ne_of_prefix_under h)

theorem tmp_not_above_objectLoc (root u : Text) :
    ¬ resolve root ++ [tmpDir, u] <+: slot.objectLoc root := by
  intro h
  exact slot.bucket_ne (by decide) (ne_of_prefix_under h).symm

theorem tmp_not_above_sidecarLoc (root u : Text) :
    ¬ resolve root ++ [tmpDir, u] <+: slot.sidecarLoc root := by
  intro h
  exact absurd (ne_of_prefix_under h) (by decide)

theorem sidecarLoc_not_below_objectLoc (root : Text) (slot' : Slot settings) :
    ¬ slot'.sidecarLoc root <+: slot.objectLoc root := by
  intro h
  exact slot.bucket_ne (by decide) (ne_of_prefix_under h).symm

theorem not_prefix_dropLast {p : Path} (hp : p ≠ []) : ¬ p <+: p.dropLast := by
  intro h
  have hlen := h.length_le
  have hpos := List.length_pos_iff.mpr hp
  rw [List.length_dropLast] at hlen
  omega

theorem objectLoc_ne_nil (root : Text) : slot.objectLoc root ≠ [] := by
  simp [objectLoc]

theorem sidecarLoc_ne_nil (root : Text) : slot.sidecarLoc root ≠ [] := by
  simp [sidecarLoc]

end Slot

end StorybookStorage
