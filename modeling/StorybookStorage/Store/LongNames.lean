import StorybookStorage.Posix.NameLimit
import StorybookStorage.Store.Coexistence

/-!
# Names made longer

The grammar limits a segment to what a file system takes for a name.  The
sidecar of a key gets a longer name than the key, and its staging file a longer
one still.
-/

namespace StorybookStorage

open Python Posix Effects FileTree

variable {settings : Settings}

/-- `key.split("/")[-1]`. -/
def lastSegment (key : Text) : Text := (key.splitOn '/').getLastD []

theorem splitOn_lastSegment (key : Text) :
    exists init, key.splitOn '/' = init ++ [lastSegment key] := by
  rcases exists_splitOn_eq_concat key with ⟨init, last, hsplit⟩
  refine ⟨init, ?_⟩
  unfold lastSegment
  rw [hsplit, List.getLastD_concat]

theorem join_append {a b suffix : Text} (hb : b ≠ []) :
    join a (b ++ suffix) = join a b ++ suffix := by
  have hhead : (b ++ suffix).head? = b.head? := by
    cases b with
    | nil => exact absurd rfl hb
    | cons c rest => rfl
  unfold join
  rw [hhead]
  split
  · rfl
  split
  · rw [List.append_assoc]
  · rw [List.append_assoc, List.cons_append]

/-!
## Plain names fit
-/

theorem toNat_le_of_le {c e : Char} (h : c ≤ e) : c.toNat ≤ e.toNat :=
  UInt32.le_iff_toNat_le.mp h

theorem lower_plain {c : Char} (h : isLowerOrDigit c = true) : c.toNat < 128 := by
  unfold isLowerOrDigit at h
  simp only [Bool.or_eq_true, Bool.and_eq_true, decide_eq_true_eq] at h
  rcases h with ⟨_, hz⟩ | ⟨_, hnine⟩
  · exact (toNat_le_of_le hz).trans_lt (by decide)
  · exact (toNat_le_of_le hnine).trans_lt (by decide)

theorem segmentChar_plain {c : Char}
    (h : KeyGrammar.segmentChar true c = true) : c.toNat < 128 := by
  unfold KeyGrammar.segmentChar isAlnumAscii at h
  simp only [Bool.or_eq_true, Bool.and_eq_true, decide_eq_true_eq, beq_iff_eq,
    Bool.true_and] at h
  rcases h with ((((⟨_, hz⟩ | hlower) | rfl) | rfl) | rfl) | rfl
  · exact (toNat_le_of_le hz).trans_lt (by decide)
  · exact lower_plain hlower
  · decide
  · decide
  · decide
  · decide

theorem fits_single {seg : Text} (hslash : '/' ∉ seg)
    (hplain : forall c, c ∈ seg -> c.toNat < 128) (hlen : seg.length ≤ nameMax) :
    Fits seg := by
  intro part hpart
  rw [List.splitOn_eq_singleton hslash] at hpart
  rw [List.mem_singleton.mp hpart, length_encode hplain]
  exact hlen

theorem plain_of_all {t : Text}
    (h : t.all (fun c => decide (c.toNat < 128)) = true) {c : Char}
    (hc : c ∈ t) : c.toNat < 128 :=
  of_decide_eq_true (List.all_eq_true.mp h c hc)

theorem token_plain {u : Text} (hu : IsToken u) {c : Char} (hc : c ∈ u) :
    c.toNat < 128 := by
  have hhex : c ∈ text "0123456789abcdef" :=
    of_decide_eq_true (List.all_eq_true.mp hu.right c hc)
  exact plain_of_all (by decide) hhex

theorem fits_token {u : Text} (hu : IsToken u) : Fits u :=
  fits_single (plain_token hu).right.right.right (fun _ => token_plain hu)
    (by rw [hu.left]; decide)

theorem validateSegments_length {allowAt : Bool} {segs : List Text}
    (h : KeyGrammar.validateSegments allowAt segs = Except.ok ()) :
    forall seg, seg ∈ segs -> seg.length ≤ KeyGrammar.maxSegmentLen := by
  induction segs with
  | nil =>
      intro seg hseg
      cases hseg
  | cons first rest ih =>
      unfold KeyGrammar.validateSegments at h
      split at h
      · cases h
      split at h
      · cases h
      rename_i hlen
      split at h
      · cases h
      intro seg hseg
      rcases List.mem_cons.mp hseg with rfl | hmem
      · exact Nat.le_of_not_gt hlen
      · exact ih h seg hmem

/-!
## The paths of a slot
-/

namespace Slot

variable (slot : Slot settings) {root : Text}

theorem key_char_plain {c : Char} (hc : c ∈ slot.key) : c.toNat < 128 := by
  rcases KeyGrammar.key_char (KeyGrammar.validate_ok slot.accepted).right.right hc
    with rfl | hclass
  · decide
  · exact segmentChar_plain hclass

theorem segment_plain {seg : Text} (hseg : seg ∈ slot.key.splitOn '/') {c : Char}
    (hc : c ∈ seg) : c.toNat < 128 :=
  slot.key_char_plain (mem_of_mem_splitOn hseg hc)

theorem fits_key : Fits slot.key := by
  have haccepted := (KeyGrammar.validate_ok slot.accepted).right.right
  have hlen := validateSegments_length (KeyGrammar.validateKey_ok haccepted).right
  intro seg hseg
  rw [length_encode fun _ => slot.segment_plain hseg]
  exact hlen seg hseg

theorem fits_bucket : Fits slot.bucket := by
  have hmatch := (KeyGrammar.validate_ok slot.accepted).left
  apply fits_single slot.bucket_plain.right.right.right
  · intro c hc
    rcases KeyGrammar.bucket_char hmatch hc with hlower | rfl | rfl
    · exact lower_plain hlower
    · decide
    · decide
  · have hbody : slot.bucket.length ≤ (dollarBody slot.bucket).length + 1 := by
      unfold dollarBody
      split
      · rw [List.length_dropLast]
        omega
      · omega
    unfold KeyGrammar.bucketMatches at hmatch
    simp only [Bool.and_eq_true, decide_eq_true_eq] at hmatch
    unfold nameMax
    omega

variable (hroot : Fits root)

include hroot

theorem fits_objectText : Fits (slot.objectText root) :=
  (hroot.join slot.fits_bucket).join slot.fits_key

theorem fits_sidecar_iff {suffix : Text} (hslash : '/' ∉ suffix)
    (hplain : forall c, c ∈ suffix -> c.toNat < 128) :
    Fits (slot.sidecarText root ++ suffix) <->
      (lastSegment slot.key).length + 5 + suffix.length ≤ nameMax := by
  rcases splitOn_lastSegment slot.key with ⟨init, hinit⟩
  have hhead := head_ne_slash_of_plain slot.key_plain
  have hkey : slot.key ≠ [] := by
    intro hnil
    have hempty : ([] : Text) ∈ slot.key.splitOn '/' := by
      rw [hnil]
      simp
    exact (slot.key_plain [] hempty).left rfl
  have htext : slot.sidecarText root ++ suffix =
      join (join (join root metaDir) slot.bucket) slot.key ++
        (text ".json" ++ suffix) := by
    unfold sidecarText
    rw [join_append hkey, List.append_assoc]
  rcases splitOn_join (a := join (join root metaDir) slot.bucket) hhead with
    ⟨pre, hpre⟩
  rw [hinit, ← List.append_assoc] at hpre
  have hmeta : Fits metaDir := by decide
  have hbase : Fits (join (join (join root metaDir) slot.bucket) slot.key) :=
    ((hroot.join hmeta).join slot.fits_bucket).join slot.fits_key
  have hlast : forall c, c ∈ lastSegment slot.key ++ (text ".json" ++ suffix) ->
      c.toNat < 128 := by
    intro c hc
    rcases List.mem_append.mp hc with hseg | hc
    · exact slot.segment_plain (by rw [hinit]; simp) hseg
    rcases List.mem_append.mp hc with hjson | hsuffix
    · exact plain_of_all (by decide) hjson
    · exact hplain c hsuffix
  have hslash' : '/' ∉ text ".json" ++ suffix := by
    rw [List.mem_append]
    exact not_or.mpr ⟨by decide, hslash⟩
  rw [htext, fits_append_iff hpre hslash' hbase, length_encode hlast,
    List.length_append, List.length_append, Nat.add_assoc]
  rfl

theorem fits_sidecarTmp_iff {u : Text} (hu : IsToken u) :
    Fits (sidecarTmp (slot.sidecarText root) u) <->
      (lastSegment slot.key).length ≤ 213 := by
  have hplain : forall c, c ∈ ['.'] ++ u ++ text ".tmp" -> c.toNat < 128 := by
    intro c hc
    rcases List.mem_append.mp hc with hc | htmp
    · rcases List.mem_append.mp hc with hdot | htoken
      · rw [List.mem_singleton.mp hdot]
        decide
      · exact token_plain hu htoken
    · exact plain_of_all (by decide) htmp
  have hslash : '/' ∉ ['.'] ++ u ++ text ".tmp" := by
    rw [List.mem_append, List.mem_append]
    exact not_or.mpr ⟨not_or.mpr ⟨by decide, (plain_token hu).right.right.right⟩,
      by decide⟩
  have hlen : (['.'] ++ u ++ text ".tmp").length = 37 := by
    rw [List.length_append, List.length_append, hu.left]
    rfl
  have htext : sidecarTmp (slot.sidecarText root) u =
      slot.sidecarText root ++ (['.'] ++ u ++ text ".tmp") := by
    simp [sidecarTmp]
  rw [htext, slot.fits_sidecar_iff hroot hslash hplain, hlen]
  unfold nameMax
  omega

theorem fits_sidecarText (hshort : (lastSegment slot.key).length ≤ 213) :
    Fits (slot.sidecarText root) := by
  rw [← List.append_nil (slot.sidecarText root)]
  apply (slot.fits_sidecar_iff hroot List.not_mem_nil _).mpr
  · unfold nameMax
    simp only [List.length_nil]
    omega
  · intro c hc
    cases hc

end Slot

/-!
## A put below the limit
-/

section Below

variable {d : LocalFsBlobDriver} {slot : Slot settings} {fs fs' : FileTree}
  {trace : List (Sigma calls.Ret)}

theorem fits_onHandles : OnHandles Call.Fits where
  read := fun _ _ _ ht => nomatch ht
  write := fun _ _ _ ht => nomatch ht
  flush := fun _ _ ht => nomatch ht
  fsync := fun _ _ ht => nomatch ht
  close := fun _ _ ht => nomatch ht

theorem fits_of_texts {c : Call} {t : Text} (hc : c.texts = [t]) (ht : Fits t) :
    c.Fits := by
  intro t' ht'
  rw [hc] at ht'
  rw [List.mem_singleton.mp ht']
  exact ht

theorem fits_onPath {t : Text} (ht : Fits t) : OnPath Call.Fits t where
  stat := fits_of_texts rfl ht
  isfile := fits_of_texts rfl ht
  openRead := fits_of_texts rfl ht

theorem fits_rename {src dst : Text} (hsrc : Fits src) (hdst : Fits dst) :
    (Call.rename src dst).Fits := by
  intro t ht
  rcases List.mem_cons.mp ht with rfl | ht
  · exact hsrc
  · rw [List.mem_singleton.mp ht]
    exact hdst

section Root

variable (hroot : Fits d.root)

include hroot

theorem head_fits (hside : Fits (slot.sidecarText d.root)) :
    Prog.Issues (S := calls) Call.Fits (d.head slot.bucket slot.key) := by
  apply head_issues d fits_onHandles
  · intro t ht
    rw [slot.objectPath_ok] at ht
    cases ht
    exact fits_onPath (slot.fits_objectText hroot)
  · intro t ht
    rw [slot.metaPath_ok] at ht
    cases ht
    exact fits_onPath hside

theorem fits_tmpText {u : Text} (hu : IsToken u) : Fits (tmpText d.root u) := by
  have htmp : Fits tmpDir := by decide
  exact (hroot.join htmp).join (fits_token hu)

theorem stage_fits {u : Text} {source : Source} (hu : IsToken u) :
    Prog.Issues (S := calls) Call.Fits
      (d.stage (tmpText d.root u) (slot.objectText d.root) source) := by
  have htmp := fits_tmpText hroot hu
  have hdest := slot.fits_objectText hroot
  exact stage_issues d fits_onHandles (fits_of_texts rfl htmp)
    (fits_of_texts rfl hdest.dirname) (fits_rename htmp hdest)

variable (hshort : (lastSegment slot.key).length ≤ 213)

include hshort

theorem SidecarCourse.fits {allow : Policy}
    (h : SidecarCourse (system allow).machine (slot.sidecarText d.root) fs trace
      fs') : forall e, e ∈ trace -> Call.Fits e.1 := by
  have hside := slot.fits_sidecarText hroot hshort
  have htime : Call.time.Fits := fun _ ht => nomatch ht
  have huuid : Call.uuid4.Fits := fun _ ht => nomatch ht
  have hmake : (Call.makedirs (dirname (slot.sidecarText d.root))).Fits :=
    fits_of_texts rfl hside.dirname
  have htmp : forall {u : Text}, IsToken u ->
      Fits (sidecarTmp (slot.sidecarText d.root) u) :=
    fun hu => (slot.fits_sidecarTmp_iff hroot hu).mpr hshort
  cases h with
  | unmade fs1 fs' now n _ _ =>
      simp only [List.forall_mem_cons]
      exact ⟨htime, hmake, fun _ he => nomatch he⟩
  | unopened fs1 fs2 fs3 fs' now u n _ _ hdraw _ =>
      have hopen := htmp (drawn_unnamed hdraw).left
      simp only [List.forall_mem_cons]
      exact ⟨htime, hmake, huuid, fits_of_texts rfl hopen,
        fun _ he => nomatch he⟩
  | unwritten fs1 fs2 fs3 fs4 fs5 fs' now u fh body r1 r2 _ _ hdraw _ _ _ _ =>
      have hopen := htmp (drawn_unnamed hdraw).left
      simp only [List.forall_mem_cons]
      exact ⟨htime, hmake, huuid, fits_of_texts rfl hopen,
        fits_onHandles.write fh body, fits_onHandles.close fh,
        fun _ he => nomatch he⟩
  | written fs1 fs2 fs3 fs4 fs5 fs6 fs' now u fh body r _ _ hdraw _ _ _ _ =>
      have hopen := htmp (drawn_unnamed hdraw).left
      simp only [List.forall_mem_cons]
      exact ⟨htime, hmake, huuid, fits_of_texts rfl hopen,
        fits_onHandles.write fh body, fits_onHandles.close fh,
        fits_rename hopen hside, fun _ he => nomatch he⟩

variable {data : Data} {contentType : Text} {ifNoneMatch : Option Text}
  {metadata : Option Metadata} {o : Except Exn PutResult}

/-- Every path of a put fits where the name of the staged sidecar does. -/
theorem Course.fits {allow : Policy}
    (h : Course d slot (system allow).machine data contentType ifNoneMatch
      metadata fs trace o fs') : forall e, e ∈ trace -> Call.Fits e.1 := by
  have hobject := slot.fits_objectText hroot
  have htest : (Call.pathExists (slot.objectText d.root)).Fits :=
    fits_of_texts rfl hobject
  have huuid : Call.uuid4.Fits := fun _ ht => nomatch ht
  have henters : forall {before : List (Sigma calls.Ret)} {fs0 : FileTree},
      Enters d slot (system allow).machine ifNoneMatch fs before fs0 ->
      forall e, e ∈ before -> Call.Fits e.1 := by
    intro before fs0 henters e he
    cases henters with
    | unconditional _ => cases he
    | missed fs0 _ _ =>
        rw [List.mem_singleton.mp he]
        exact htest
  cases h with
  | met fs0 fs' rest info _ _ hhead =>
      have hrest := hhead.issues
        (head_fits hroot (slot.fits_sidecarText hroot hshort))
      exact List.forall_mem_cons.mpr ⟨htest, hrest⟩
  | failed fs0 fs1 fs2 fs' u before main e r hbefore hdraw hstage _ =>
      have htoken := (drawn_unnamed hdraw).left
      have hmain := hstage.issues (stage_fits hroot htoken)
      have hremove : (Call.remove (tmpText d.root u)).Fits :=
        fits_of_texts rfl (fits_tmpText hroot htoken)
      simp only [List.forall_mem_append, List.forall_mem_cons]
      exact ⟨henters hbefore, huuid, hmain, hremove, fun _ he => nomatch he⟩
  | stored fs0 fs1 fs2 fs' u before main side acc hbefore hdraw hstage hside =>
      have hmain := hstage.issues (stage_fits hroot (drawn_unnamed hdraw).left)
      have hrest := (sidecar_course d slot hside).fits hroot hshort
      simp only [List.forall_mem_append, List.forall_mem_cons]
      exact ⟨henters hbefore, huuid, hmain, hrest⟩

end Root

end Below

/-!
## An empty store
-/

structure Unused (root : Text) (settings : Settings) (fs : FileTree) : Prop where
  fresh : Fresh root fs
  object : forall slot : Slot settings, fs.node (slot.objectLoc root) = none
  sidecar : forall slot : Slot settings, fs.node (slot.sidecarLoc root) = none

theorem objectLoc_length (slot : Slot settings) (root : Text) :
    (resolve root).length + 2 ≤ (slot.objectLoc root).length := by
  have hsegs := List.length_pos_iff.mpr (List.splitOn_ne_nil '/' slot.key)
  unfold Slot.objectLoc
  rw [List.length_append, List.length_cons]
  omega

theorem sidecarLoc_length (slot : Slot settings) (root : Text) :
    (resolve root).length + 3 ≤ (slot.sidecarLoc root).length := by
  have hsegs := List.length_pos_iff.mpr
    (List.splitOn_ne_nil '/' (slot.key ++ text ".json"))
  unfold Slot.sidecarLoc
  rw [List.length_append, List.length_cons, List.length_cons]
  omega

theorem freshTree_unused {root : Text} {buckets : List Text}
    (hbuckets : forall b, b ∈ buckets -> Plain b ∧ b ≠ tmpDir) :
    Unused root settings (freshTree root buckets) where
  fresh := freshTree_fresh hbuckets
  object := by
    intro slot
    have hlen := objectLoc_length slot root
    have hshort : forall name, Plain name ->
        ¬ slot.objectLoc root <+: resolve (join root name) := by
      intro name hname hpre
      have hle := hpre.length_le
      rw [resolve_join_single hname] at hle
      simp at hle
      omega
    apply layTree_none
    · intro p hp
      rcases List.mem_cons.mp hp with rfl | hp
      · exact hshort _ Slot.plain_tmpDir
      rcases List.mem_cons.mp hp with rfl | hp
      · exact hshort _ Slot.plain_metaDir
      rcases List.mem_flatMap.mp hp with ⟨b, hb, hpb⟩
      rcases List.mem_cons.mp hpb with rfl | hpb
      · exact hshort _ (hbuckets b hb).left
      · rw [List.mem_singleton.mp hpb, resolve_join_single (hbuckets b hb).left,
          resolve_join_single Slot.plain_metaDir, List.append_assoc]
        intro hpre
        exact slot.bucket_ne (by decide) (Slot.ne_of_prefix_under hpre)
    · cases hn : bareTree.node (slot.objectLoc root) with
      | none => rfl
      | some n => exact absurd (bareTree_node hn).left (slot.objectLoc_ne_nil root)
  sidecar := by
    intro slot
    have hlen := sidecarLoc_length slot root
    have hshort : forall {p : Path}, p.length ≤ (resolve root).length + 2 ->
        ¬ slot.sidecarLoc root <+: p := by
      intro p hp hpre
      have hle := hpre.length_le
      omega
    have hsingle : forall {name base : Text}, Plain name ->
        (resolve (join base name)).length = (resolve base).length + 1 := by
      intro name base hname
      rw [resolve_join_single hname, List.length_append, List.length_singleton]
    apply layTree_none
    · intro p hp
      apply hshort
      rcases List.mem_cons.mp hp with rfl | hp
      · rw [hsingle Slot.plain_tmpDir]
        omega
      rcases List.mem_cons.mp hp with rfl | hp
      · rw [hsingle Slot.plain_metaDir]
        omega
      rcases List.mem_flatMap.mp hp with ⟨b, hb, hpb⟩
      rcases List.mem_cons.mp hpb with rfl | hpb
      · rw [hsingle (hbuckets b hb).left]
        omega
      · rw [List.mem_singleton.mp hpb, hsingle (hbuckets b hb).left,
          hsingle Slot.plain_metaDir]
    · cases hn : bareTree.node (slot.sidecarLoc root) with
      | none => rfl
      | some n => exact absurd (bareTree_node hn).left (slot.sidecarLoc_ne_nil root)

section Store

variable {d : LocalFsBlobDriver} {slot : Slot settings} {fs fs1 fs2 : FileTree}
  {data : Data} {contentType : Text} {ifNoneMatch : Option Text}
  {metadata : Option Metadata} {o : Except Exn PutResult}
  {asked : Except Exn (Option ObjectInfo)}
  {trace trace' : List (Sigma calls.Ret)}

theorem Unused.unwalled (h : Unused d.root settings fs) : ¬ Walled d slot fs := by
  intro hwalled
  cases hwalled with
  | directory hdir =>
      rw [h.sidecar slot] at hdir
      cases hdir
  | file q hq hfile =>
      rw [h.fresh.no_file_below (List.prefix_append _ _)
        (hq.trans (List.dropLast_prefix _))] at hfile
      cases hfile

theorem Unused.unhindered (h : Unused d.root settings fs)
    (hbody : data.ending = none) : ¬ Hindered d slot fs data := by
  intro hhindered
  cases hhindered with
  | source hraises => exact hraises hbody
  | directory hdir =>
      rw [h.object slot] at hdir
      cases hdir
  | file q b hq hb =>
      have hnone := h.fresh.no_file_below (List.prefix_append _ _)
        (hq.trans (List.dropLast_prefix (slot.objectLoc d.root)))
      unfold isFile at hnone
      rw [hb] at hnone
      cases hnone

structure Remembered (contentType : Text) (metadata : Option Metadata)
    (o : Except Exn PutResult) (sidecar : Option Bytes)
    (asked : Except Exn (Option ObjectInfo)) : Prop where
  put : exists result, o = Except.ok result
  written : sidecar ≠ none
  told : exists info, asked = Except.ok (some info) ∧
    info.contentType = Json.str contentType ∧
    info.metadata = Json.obj
      ((metadata.getD ∅).entries.map fun kv => (kv.1, Json.str kv.2))

theorem Course.sidecar_staged {allow : Policy}
    (h : Course d slot (system allow).machine data contentType ifNoneMatch
      metadata fs trace o fs1)
    (hbefore : fs.isFile (slot.sidecarLoc d.root) = false)
    (hafter : fs1.isFile (slot.sidecarLoc d.root) = true) :
    exists s s' u fh, IsToken u ∧
      (system allow).machine.Step s
        (Call.openWrite (sidecarTmp (slot.sidecarText d.root) u)) (Except.ok fh)
        s' := by
  have hstill : forall {fs0 fs1 fs2 : FileTree} {u : Text} {source : Source}
      {main : List (Sigma calls.Ret)}
      {o : Except Exn (d.platform.sha256.State × Nat)}, fs0 = fs ->
      (system allow).machine.Step fs0 Call.uuid4 u fs1 ->
      (system allow).machine.Runs fs1
        (d.stage (tmpText d.root u) (slot.objectText d.root) source) main o fs2 ->
      fs2.isFile (slot.sidecarLoc d.root) = false := by
    intro fs0 fs1 fs2 u source main o hsame hdraw hstage
    cases hsame
    rw [Bool.eq_false_iff]
    intro hfile
    rcases stage_file_old hdraw hstage hfile with hold | hobject | ⟨w, htmp⟩
    · rw [hbefore] at hold
      cases hold
    · exact slot.objectLoc_ne_sidecarLoc d.root slot hobject.symm
    · apply slot.tmp_not_above_sidecarLoc d.root w
      rw [htmp]
  cases h with
  | met fs0 fs' rest info _ hstep hhead =>
      have hlooks := hhead.issues (head_looks d slot.bucket slot.key)
      have hkept := (runs_isFile hhead fun e he => by
        rw [looks_names (hlooks e he)]
        exact List.not_mem_nil).mp hafter
      rw [step_file_old_of_nil hstep rfl hkept] at hbefore
      cases hbefore
  | failed fs0 fs1 fs2 fs' u before main e r henters hdraw hstage hremove =>
      have hkept := step_file_old_of_nil hremove (by cases r <;> rfl) hafter
      rw [hstill henters.same hdraw hstage] at hkept
      cases hkept
  | stored fs0 fs1 fs2 fs' u before main side acc henters hdraw hstage hside =>
      have hnone := hstill henters.same hdraw hstage
      cases sidecar_course d slot hside with
      | unmade fs3 fs' now n htime hmake =>
          rw [step_file_old_of_nil htime rfl
            (step_file_old_of_nil hmake rfl hafter)] at hnone
          cases hnone
      | unopened fs3 fs4 fs5 fs' now w n htime hmake hdraw2 hopen =>
          have hmade := step_file_old_of_nil hdraw2 rfl
            (step_file_old_of_nil hopen rfl hafter)
          rw [step_file_old_of_nil htime rfl
            (step_file_old_of_nil hmake rfl hmade)] at hnone
          cases hnone
      | unwritten fs3 fs4 fs5 fs6 fs7 fs' now w fh body r1 r2 _ _ hdraw2 hopen =>
          exact ⟨_, _, w, fh, (drawn_unnamed hdraw2).left, hopen⟩
      | written fs3 fs4 fs5 fs6 fs7 fs8 fs' now w fh body r _ _ hdraw2 hopen =>
          exact ⟨_, _, w, fh, (drawn_unnamed hdraw2).left, hopen⟩

theorem orElse_of_truthy {a b : Json} (h : a.truthy = true) :
    Json.orElse (some a) b = a := by
  unfold Json.orElse
  dsimp only
  rw [if_pos h]

/-- An empty content type is not told: `head` guesses one in its place. -/
theorem toldType_eq_iff :
    toldType d slot contentType = Json.str contentType <->
      contentType ≠ [] := by
  constructor
  · intro htold hempty
    rw [hempty] at htold
    exact d.guessMime_ne_nil slot.key (Json.str.inj htold)
  · intro hgiven
    apply orElse_of_truthy
    unfold Json.truthy
    exact decide_eq_true hgiven

theorem toldMetadata_eq :
    toldMetadata metadata = Json.obj
      ((metadata.getD ∅).entries.map fun kv => (kv.1, Json.str kv.2)) := by
  unfold toldMetadata
  cases hentries : (metadata.getD ∅).entries.map
      fun kv => (kv.1, Json.str kv.2) with
  | nil => rfl
  | cons first rest => exact orElse_of_truthy rfl

variable (hunused : Unused d.root settings fs) (hroot : Fits d.root)
  (hput : (system nameLimit).machine.Runs fs
    (d.put slot.bucket slot.key data contentType ifNoneMatch metadata) trace o
    fs1)

include hunused hroot hput

theorem told_of_short (hbody : data.ending = none)
    (hshort : (lastSegment slot.key).length ≤ 213) :
    (exists result, o = Except.ok result) ∧
      Told d slot fs1 (toldType d slot contentType) (toldMetadata metadata) := by
  have hput' := runs_noFault hput ((put_course hput).fits hroot hshort)
  have hkempt : Kempt d settings fs := hunused.fresh.kempt
  have hturn : (system noFault).machine.Runs fs
      ((Mutation.put slot data contentType ifNoneMatch metadata).run d) trace
      (o.map Reply.put) fs1 := hput'.map Reply.put
  have hstores : Vacant d slot fs ifNoneMatch ∧ ¬ Hindered d slot fs data :=
    ⟨fun _ => hunused.object slot, hunused.unhindered hbody⟩
  rcases (hkempt.put_answer hput').stores with ⟨_, rfl⟩ | ⟨hno, _⟩
  · have hwritten : storedSidecar d slot fs1 ≠ none := by
      cases put_recording hkempt.sound hput' rfl with
      | recorded now _ hraw =>
          rw [hraw]
          simp
      | walled hwalled _ => exact absurd hwalled hunused.unwalled
    exact ⟨⟨_, rfl⟩,
      told_of_put hkempt.sound (hkempt.turn hturn) hput' rfl hwritten⟩
  · exact absurd hstores hno

theorem short_of_written (hwritten : storedSidecar d slot fs1 ≠ none) :
    (lastSegment slot.key).length ≤ 213 := by
  have hbefore : fs.isFile (slot.sidecarLoc d.root) = false :=
    hunused.fresh.no_file_below (List.prefix_append _ _) List.prefix_rfl
  have hafter : fs1.isFile (slot.sidecarLoc d.root) = true :=
    Option.isSome_iff_ne_none.mpr hwritten
  rcases (put_course hput).sidecar_staged hbefore hafter with
    ⟨s, s', u, fh, htoken, hopen⟩
  exact (slot.fits_sidecarTmp_iff hroot htoken).mp (fits_of_opened hopen)

/-- On an empty store whose file system limits names to 255 bytes, a put is
remembered exactly where its content type is not empty and the last segment of
the key has 213 or less. -/
theorem remembered_iff (hbody : data.ending = none)
    (hhead : (system nameLimit).machine.Runs fs1 (d.head slot.bucket slot.key)
      trace' asked fs2) :
    Remembered contentType metadata o (storedSidecar d slot fs1) asked <->
      contentType ≠ [] ∧ (lastSegment slot.key).length ≤ 213 := by
  have hasked : forall hshort : (lastSegment slot.key).length ≤ 213,
      exists info, asked = Except.ok (some info) ∧
        info.contentType = toldType d slot contentType ∧
        info.metadata = toldMetadata metadata := by
    intro hshort
    have hhead' := runs_noFault hhead
      (hhead.issues (head_fits hroot (slot.fits_sidecarText hroot hshort)))
    have htold := (told_of_short hunused hroot hput hbody hshort).right
    exact htold.asked _ _ _ hhead'
  constructor
  · intro h
    have hshort := short_of_written hunused hroot hput h.written
    rcases hasked hshort with ⟨info, hinfo, htype, _⟩
    rcases h.told with ⟨info', hinfo', hgiven, _⟩
    cases hinfo.symm.trans hinfo'
    exact ⟨toldType_eq_iff.mp (htype.symm.trans hgiven), hshort⟩
  · intro h
    rcases h with ⟨hgiven, hshort⟩
    rcases told_of_short hunused hroot hput hbody hshort with ⟨hok, htold⟩
    rcases hasked hshort with ⟨info, hinfo, htype, hmetadata⟩
    exact ⟨hok, htold.stored, info, hinfo,
      htype.trans (toldType_eq_iff.mpr hgiven),
      hmetadata.trans toldMetadata_eq⟩

end Store

/-!
## One segment too long
-/

def longSlot : Slot sampleSettings where
  bucket := text "assets"
  key := List.replicate 210 'a' ++ text ".png"
  accepted := by decide +kernel

theorem sampleTree_unused :
    Unused sampleDriver.root sampleSettings sampleTree :=
  freshTree_unused (by decide)

def refusingChoice (n : Nat) : Choice :=
  if n = 11 then
    { sampleChoice n with fault := some Errno.ENAMETOOLONG }
  else
    sampleChoice n

def limitedPut (slot : Slot sampleSettings) (choose : Nat -> Choice) :=
  (system nameLimit).replay choose
    (sampleDriver.put slot.bucket slot.key (sampleSource [[1]])
      (text "image/png") none none) 0 sampleTree

def limitedHead (slot : Slot sampleSettings) (fs : FileTree) :=
  (system nameLimit).replay sampleChoice
    (sampleDriver.head slot.bucket slot.key) 40 fs

def UnderLimit (slot : Slot sampleSettings)
    (ends : Except Exn PutResult -> Option Bytes ->
      Except Exn (Option ObjectInfo) -> Prop) : Prop :=
  exists trace o fs1 trace' asked fs2,
    (system nameLimit).machine.Runs sampleTree
      (sampleDriver.put slot.bucket slot.key (sampleSource [[1]])
        (text "image/png") none none) trace o fs1 ∧
    (system nameLimit).machine.Runs fs1 (sampleDriver.head slot.bucket slot.key)
      trace' asked fs2 ∧
    ends o (storedSidecar sampleDriver slot fs1) asked

theorem underLimit_of_replay {slot : Slot sampleSettings} {choose : Nat -> Choice}
    {ends : Except Exn PutResult -> Option Bytes ->
      Except Exn (Option ObjectInfo) -> Prop}
    (h : ((limitedPut slot choose).bind fun run =>
      limitedHead slot run.2.2).isSome = true)
    (hends : forall {trace o fs1 trace' asked fs2},
      limitedPut slot choose = some (trace, o, fs1) ->
      limitedHead slot fs1 = some (trace', asked, fs2) ->
      ends o (storedSidecar sampleDriver slot fs1) asked) : UnderLimit slot ends := by
  rcases Option.isSome_iff_exists.mp h with ⟨⟨trace', asked, fs2⟩, hrun⟩
  rcases Option.bind_eq_some_iff.mp hrun with ⟨⟨trace, o, fs1⟩, hput, hhead⟩
  exact ⟨trace, o, fs1, trace', asked, fs2,
    (system nameLimit).replay_runs choose hput,
    (system nameLimit).replay_runs sampleChoice hhead, hends hput hhead⟩

/-- The put succeeds, and nothing of its content type is kept. -/
theorem longSlot_forgotten :
    UnderLimit longSlot fun o sidecar asked =>
      (exists result, o = Except.ok result) ∧ sidecar = none ∧
        ¬ Remembered (text "image/png") none o sidecar asked := by
  have hfacts : ((limitedPut longSlot refusingChoice).map fun run =>
      (returned run.2.1, storedSidecar sampleDriver longSlot run.2.2)) =
        some (true, none) := by decide +kernel
  have hruns : ((limitedPut longSlot refusingChoice).bind fun run =>
      limitedHead longSlot run.2.2).isSome = true := by decide +kernel
  apply underLimit_of_replay hruns
  intro trace o fs1 trace' asked fs2 hput _
  rw [hput] at hfacts
  rcases Prod.mk.inj (Option.some.inj hfacts) with ⟨hok, hnone⟩
  exact ⟨exists_of_returned hok, hnone, fun h => h.written hnone⟩

theorem remembered_iff_picture :
    UnderLimit pictureSlot fun o sidecar asked =>
      Remembered (text "image/png") none o sidecar asked := by
  have hruns : ((limitedPut pictureSlot sampleChoice).bind fun run =>
      limitedHead pictureSlot run.2.2).isSome = true := by decide +kernel
  apply underLimit_of_replay hruns
  intro trace o fs1 trace' asked fs2 hput hhead
  apply (remembered_iff sampleTree_unused (by decide)
    ((system nameLimit).replay_runs sampleChoice hput) rfl
    ((system nameLimit).replay_runs sampleChoice hhead)).mpr
  exact ⟨by decide, by decide⟩

end StorybookStorage
