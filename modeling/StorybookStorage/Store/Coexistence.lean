import StorybookStorage.Store.HeadExact
import StorybookStorage.Store.Independence
import StorybookStorage.Store.Recording

/-!
# Two sidecars side by side

The sidecar of a key ends in a suffix, and a longer key may have a directory of
that very name.  Apart from such pairs, two objects that fit into the store
keep their sidecars next to each other.
-/

namespace StorybookStorage

open Python Posix Effects FileTree

variable {settings : Settings} {d : LocalFsBlobDriver}
  {first second slot : Slot settings} {fs fs' fs0 fs1 fs2 fsB : FileTree}

def Apart (p q : Path) : Prop := ¬ p <+: q ∧ ¬ q <+: p

/-- Neither key goes on where the name of the other's sidecar ends. -/
structure Unshadowed (first second : Slot settings) : Prop where
  left : ¬ first.key ++ text ".json/" <+: second.key
  right : ¬ second.key ++ text ".json/" <+: first.key

structure Told (d : LocalFsBlobDriver) (slot : Slot settings) (fs : FileTree)
    (contentType metadata : Json) : Prop where
  stored : storedSidecar d slot fs ≠ none
  asked : forall trace o fs',
    (system noFault).machine.Runs fs (d.head slot.bucket slot.key) trace o fs' ->
    exists info, o = Except.ok (some info) ∧ info.contentType = contentType ∧
      info.metadata = metadata

/-!
## Where sidecars nest
-/

theorem prefix_append_json {a b : Text} :
    a ++ text ".json" ++ ['/'] <+: b ++ text ".json" <->
      a ++ text ".json/" <+: b := by
  have hslash : a ++ text ".json" ++ ['/'] = a ++ text ".json/" := by
    rw [List.append_assoc]
    rfl
  rw [hslash]
  constructor
  · intro h
    rcases List.prefix_or_prefix_of_prefix h (List.prefix_append b _) with
      hfits | ⟨rest, hrest⟩
    · exact hfits
    · -- The slash would be in the suffix.
      rcases h with ⟨more, hmore⟩
      rw [← hrest, List.append_assoc] at hmore
      have hsuffix := List.append_cancel_left hmore
      cases hlast : rest.getLast? with
      | none =>
          rw [List.getLast?_eq_none_iff.mp hlast, List.append_nil] at hrest
          exact ⟨[], by rw [List.append_nil, hrest]⟩
      | some c =>
          have hc := congrArg List.getLast? hrest
          rw [List.getLast?_append, hlast, List.getLast?_append] at hc
          have hslash : c = '/' := Option.some.inj hc
          have hmem : c ∈ text ".json" := by
            rw [← hsuffix]
            exact List.mem_append_left _ (List.mem_of_getLast? hlast)
          rw [hslash] at hmem
          exact absurd hmem (by decide)
  · intro h
    exact h.trans (List.prefix_append _ _)

theorem sidecarLoc_prefix_iff {root : Text}
    (hbucket : first.bucket = second.bucket) :
    first.sidecarLoc root <+: second.sidecarLoc root <->
      first = second ∨ first.key ++ text ".json/" <+: second.key := by
  unfold Slot.sidecarLoc
  rw [List.prefix_append_right_inj, List.cons_prefix_cons, List.cons_prefix_cons,
    splitOn_prefix_iff, prefix_append_json]
  constructor
  · intro h
    rcases h.right.right with hkey | hnested
    · exact Or.inl (Slot.ext hbucket (List.append_cancel_right hkey))
    · exact Or.inr hnested
  · intro h
    refine ⟨rfl, hbucket, ?_⟩
    rcases h with rfl | hnested
    · exact Or.inl rfl
    · exact Or.inr hnested

theorem ne_of_apart {root : Text}
    (hapart : Apart (first.objectLoc root) (second.objectLoc root)) :
    first ≠ second := by
  intro heq
  subst heq
  exact hapart.left List.prefix_rfl

/-- Exactly the shadowed pairs have sidecars on the way to each other. -/
theorem apart_sidecars_iff {root : Text} (hbucket : first.bucket = second.bucket)
    (hne : first ≠ second) :
    Apart (first.sidecarLoc root) (second.sidecarLoc root) <->
      Unshadowed first second := by
  unfold Apart
  rw [sidecarLoc_prefix_iff hbucket, sidecarLoc_prefix_iff hbucket.symm,
    or_iff_right hne, or_iff_right hne.symm]
  exact ⟨fun h => ⟨h.left, h.right⟩, fun h => ⟨h.left, h.right⟩⟩

theorem prefix_dropLast {p q : Path} (h : p <+: q) (hne : p ≠ q) :
    p <+: q.dropLast := by
  rcases h with ⟨rest, rfl⟩
  have hrest : rest ≠ [] := by
    intro heq
    subst heq
    exact hne (List.append_nil p).symm
  rw [List.dropLast_append_of_ne_nil hrest]
  exact List.prefix_append _ _

theorem not_prefix_of_stored (hsound : fs.Sound) (hne : first ≠ second)
    (hfirst : storedSidecar d first fs ≠ none)
    (hsecond : storedSidecar d second fs ≠ none) :
    ¬ first.sidecarLoc d.root <+: second.sidecarLoc d.root := by
  intro hprefix
  have hfile : fs.isFile (first.sidecarLoc d.root) = true := by
    unfold isFile
    exact Option.isSome_iff_ne_none.mpr hfirst
  have hwalled : Walled d second fs :=
    Walled.file _ (prefix_dropLast hprefix fun h => hne (Slot.sidecarLoc_inj h))
      hfile
  exact hsecond (hwalled.storedSidecar hsound)

/-!
## What head tells
-/

theorem Told.unique {contentType contentType' metadata metadata' : Json}
    (h : Told d slot fs contentType metadata)
    (h' : Told d slot fs contentType' metadata') :
    contentType = contentType' ∧ metadata = metadata' := by
  rcases exists_head d slot fs with ⟨trace, o, fs', hrun⟩
  rcases h.asked trace o fs' hrun with ⟨info, ho, rfl, rfl⟩
  rcases h'.asked trace o fs' hrun with ⟨info', ho', rfl, rfl⟩
  rw [ho] at ho'
  cases ho'
  exact ⟨rfl, rfl⟩

theorem Kempt.told_record {record : SidecarRecord} (hkempt : Kempt d settings fs)
    (hraw : storedSidecar d slot fs = some (recordBytes d record)) :
    Told d slot fs (recordedInfo d slot.key [] record).contentType
      (recordedInfo d slot.key [] record).metadata where
  stored := by
    rw [hraw]
    simp
  asked := by
    intro trace o fs' hrun
    rcases hkempt.described slot _ hraw with ⟨b, hb, _⟩
    unfold storedObject at hb
    rw [content_eq_map] at hb
    rcases Option.map_eq_some_iff.mp hb with ⟨inode, hinode, _⟩
    have ho := (head_exact hrun).left
    rw [hinode, hraw, headOf_record] at ho
    exact ⟨_, ho, rfl, rfl⟩

theorem Told.of_same {contentType metadata : Json}
    (hkempt : Kempt d settings fs) (hkempt' : Kempt d settings fs')
    (hsame : storedSidecar d slot fs' = storedSidecar d slot fs)
    (h : Told d slot fs contentType metadata) :
    Told d slot fs' contentType metadata := by
  rcases Option.ne_none_iff_exists'.mp h.stored with ⟨raw, hraw⟩
  rcases hkempt.described slot raw hraw with ⟨_, _, record, rfl, _⟩
  rcases h.unique (hkempt.told_record hraw) with ⟨rfl, rfl⟩
  exact hkempt'.told_record (hsame.trans hraw)

section Put

variable {data : Data} {contentType : Text} {ifNoneMatch : Option Text}
  {metadata : Option Metadata} {o : Except Exn PutResult}
  {result : PutResult} {trace : List (Sigma calls.Ret)}

def toldType (d : LocalFsBlobDriver) (slot : Slot settings)
    (contentType : Text) : Json :=
  Json.orElse (some (Json.str contentType)) (Json.str (d.guessMime slot.key))

def toldMetadata (metadata : Option Metadata) : Json :=
  Json.orElse
    (some (Json.obj
      ((metadata.getD ∅).entries.map fun kv => (kv.1, Json.str kv.2))))
    (Json.obj [])

theorem told_of_put (hsound : fs.Sound) (hkempt' : Kempt d settings fs')
    (hrun : (system noFault).machine.Runs fs
      (d.put slot.bucket slot.key data contentType ifNoneMatch metadata) trace
      (Except.ok result) fs') (hfresh : result.deduped = false)
    (hstored : storedSidecar d slot fs' ≠ none) :
    Told d slot fs' (toldType d slot contentType) (toldMetadata metadata) := by
  cases put_recording hsound hrun hfresh with
  | recorded now _ hraw =>
      have htold := hkempt'.told_record hraw
      exact htold
  | walled _ hnone => exact absurd hnone hstored

theorem storedSidecar_of_unstored (hsound : fs.Sound)
    (hrun : (system noFault).machine.Runs fs
      (d.put slot.bucket slot.key data contentType ifNoneMatch metadata) trace o
      fs') (hdeduped : forall r, o = Except.ok r -> r.deduped = true)
    (slot' : Slot settings) :
    storedSidecar d slot' fs' = storedSidecar d slot' fs := by
  rcases put_runs solo_noFault hsound hrun with ⟨_, heffect⟩
  rcases heffect.files (housed_of_sound hsound) with ⟨_, hfiles⟩ | ⟨ho, _⟩
  · rw [← fileAt_sidecar, hfiles, fileAt_sidecar]
  · cases hdeduped _ ho

theorem storedSidecar_of_ne (hsound : fs.Sound)
    (hrun : (system noFault).machine.Runs fs
      (d.put slot.bucket slot.key data contentType ifNoneMatch metadata) trace o
      fs') {slot' : Slot settings} (hne : slot' ≠ slot) :
    storedSidecar d slot' fs' = storedSidecar d slot' fs := by
  rcases put_runs solo_noFault hsound hrun with ⟨_, heffect⟩
  rw [← fileAt_sidecar, ← fileAt_sidecar]
  rcases heffect.files (housed_of_sound hsound) with ⟨_, hfiles⟩ | ⟨_, hstored⟩
  · rw [hfiles]
  · exact (hstored.others hne).right

/-- A put stores its body exactly on a free way, and meets or raises
otherwise. -/
theorem PutAnswer.stores (h : PutAnswer d slot fs data ifNoneMatch o) :
    ((Vacant d slot fs ifNoneMatch ∧ ¬ Hindered d slot fs data) ∧
        o = Except.ok (storedResult d data)) ∨
      (¬ (Vacant d slot fs ifNoneMatch ∧ ¬ Hindered d slot fs data) ∧
        forall r, o = Except.ok r -> r.deduped = true) := by
  cases h with
  | directory hcond hdir =>
      refine Or.inr ⟨fun hfree => ?_, ?_⟩
      · rw [hfree.left hcond] at hdir
        cases hdir
      · intro r hr
        cases hr
        rfl
  | object b hcond hb =>
      refine Or.inr ⟨fun hfree => ?_, ?_⟩
      · rw [storedObject_of_none (hfree.left hcond)] at hb
        cases hb
      · intro r hr
        cases hr
        rfl
  | refused e _ hhindered =>
      refine Or.inr ⟨fun hfree => hfree.right hhindered, ?_⟩
      intro r hr
      cases hr
  | stored hvacant hfree => exact Or.inl ⟨⟨hvacant, hfree⟩, rfl⟩

end Put

/-!
## A put beside another slot
-/

section Beside

variable {data : Data} {contentType : Text} {ifNoneMatch : Option Text}
  {metadata : Option Metadata} {o : Except Exn PutResult}
  {trace : List (Sigma calls.Ret)} (hsound : fs.Sound)
  (hfree : ¬ Walled d first fs)
  (hrun : (system noFault).machine.Runs fs
    (d.put first.bucket first.key data contentType ifNoneMatch metadata) trace o
    fs1)

include hsound hrun in
theorem dir_beside {q : Path} (hq : fs1.node q = some Node.dir) :
    fs.node q = some Node.dir ∨ q <+: first.objectLoc d.root ∨
      q <+: first.sidecarLoc d.root := by
  have hfurthered := (put_runs solo_noFault hsound hrun).right.furthered
  rcases hfurthered.made q (Staging.view_dir.mpr hq) with hold | hway
  · exact Or.inl (Staging.view_dir.mp hold)
  · exact Or.inr hway

include hsound hfree hrun in
theorem walled_beside
    (hapart : Apart (first.sidecarLoc d.root) (second.sidecarLoc d.root))
    (h : Walled d second fs1) : Walled d second fs := by
  cases h with
  | directory hdir =>
      rcases dir_beside hsound hrun hdir with hold | hobject | hsidecar
      · exact Walled.directory hold
      · exact absurd hobject
          (first.sidecarLoc_not_below_objectLoc d.root second)
      · exact absurd hsidecar hapart.right
  | file q hq hfile =>
      have hbelow := hq.trans (List.dropLast_prefix _)
      rcases (put_course hrun).file_old hsound hfree hfile with
        hold | rfl | rfl | ⟨w, rfl⟩
      · exact Walled.file q hq hold
      · exact absurd hbelow (first.objectLoc_not_below_meta d.root second)
      · exact absurd hbelow hapart.left
      · exact absurd hbelow (second.tmp_not_above_sidecarLoc d.root w)

include hsound hrun in
theorem object_dir_beside
    (hapart : Apart (first.objectLoc d.root) (second.objectLoc d.root)) :
    fs1.node (second.objectLoc d.root) = some Node.dir <->
      fs.node (second.objectLoc d.root) = some Node.dir := by
  constructor
  · intro hdir
    rcases dir_beside hsound hrun hdir with hold | hobject | hsidecar
    · exact hold
    · exact absurd hobject hapart.right
    · exact absurd hsidecar (second.objectLoc_not_below_meta d.root first)
  · exact runs_dir hrun

section Objects

variable (hapart : Apart (first.objectLoc d.root) (second.objectLoc d.root))

include hsound hfree hrun hapart

theorem file_beside {q : Path} (hq : q <+: second.objectLoc d.root)
    (hfile : fs1.isFile q = true) : fs.isFile q = true := by
  rcases (put_course hrun).file_old hsound hfree hfile with
    hold | rfl | rfl | ⟨w, rfl⟩
  · exact hold
  · exact absurd hq hapart.left
  · exact absurd hq (second.sidecarLoc_not_below_objectLoc d.root first)
  · exact absurd hq (second.tmp_not_above_objectLoc d.root w)

theorem vacant_beside {condition : Option Text} :
    Vacant d second fs1 condition <-> Vacant d second fs condition := by
  have hfile : fs1.isFile (second.objectLoc d.root) =
      fs.isFile (second.objectLoc d.root) := by
    rw [Bool.eq_iff_iff]
    exact ⟨file_beside hsound hfree hrun hapart List.prefix_rfl,
      (put_course hrun).stays⟩
  unfold Vacant
  rw [node_none_iff, node_none_iff, ne_eq, ne_eq, hfile,
    object_dir_beside hsound hrun hapart]

theorem hindered_beside {source : Data} :
    Hindered d second fs1 source <-> Hindered d second fs source := by
  constructor
  · intro h
    cases h with
    | source hraises => exact Hindered.source hraises
    | directory hdir =>
        exact Hindered.directory
          ((object_dir_beside hsound hrun hapart).mp hdir)
    | file q b hq hb =>
        have hold := file_beside hsound hfree hrun hapart
          (hq.trans (List.dropLast_prefix _)) (Option.isSome_iff_exists.mpr ⟨b, hb⟩)
        rcases Option.isSome_iff_exists.mp hold with ⟨b', hb'⟩
        exact Hindered.file q b' hq hb'
  · intro h
    cases h with
    | source hraises => exact Hindered.source hraises
    | directory hdir => exact Hindered.directory (runs_dir hrun hdir)
    | file q b hq hb =>
        have hkept := (put_course hrun).stays
          (q := q) (Option.isSome_iff_exists.mpr ⟨b, hb⟩)
        rcases Option.isSome_iff_exists.mp hkept with ⟨b', hb'⟩
        exact Hindered.file q b' hq hb'

end Objects

end Beside

/-!
## Two puts in turn
-/

/-- A put of one slot, then one of another, on a tree the store may reach.
Each of the two is told where the other was not made. -/
inductive InTurn (d : LocalFsBlobDriver) (first second : Slot settings)
    (contentType metadata contentType' metadata' : Json) : FileTree -> Prop where
  | intro (fs0 fs fs1 fsB fs2 : FileTree) (turns : List (MutationTurn settings))
      (data data' : Data) (type type' : Text)
      (ifNoneMatch ifNoneMatch' : Option Text) (given given' : Option Metadata)
      (trace traceB trace2 : List (Sigma calls.Ret))
      (o oB o2 : Except Exn Reply) :
      Fresh d.root fs0 ->
      Histories d noFault (fun _ _ => True) fs0 turns fs ->
      (system noFault).machine.Runs fs
        ((Mutation.put first data type ifNoneMatch given).run d) trace o fs1 ->
      (system noFault).machine.Runs fs
        ((Mutation.put second data' type' ifNoneMatch' given').run d) traceB oB
        fsB ->
      (system noFault).machine.Runs fs1
        ((Mutation.put second data' type' ifNoneMatch' given').run d) trace2 o2
        fs2 ->
      Told d first fs1 contentType metadata ->
      Told d second fsB contentType' metadata' ->
      InTurn d first second contentType metadata contentType' metadata' fs2

section InTurn

variable {contentType metadata contentType' metadata' : Json}

theorem InTurn.sound
    (h : InTurn d first second contentType metadata contentType' metadata' fs2) :
    fs2.Sound := by
  cases h with
  | intro fs0 fs fs1 fsB fs2 turns _ _ _ _ _ _ _ _ _ _ _ _ _ _ hfresh hturns
      hfirst _ hsecond _ _ =>
      have hkempt : Kempt d settings fs := hfresh.kempt.history hturns
      exact ((hkempt.turn hfirst).turn hsecond).sound

theorem InTurn.told
    (hapart : Apart (first.objectLoc d.root) (second.objectLoc d.root))
    (hsidecars : Apart (first.sidecarLoc d.root) (second.sidecarLoc d.root))
    (h : InTurn d first second contentType metadata contentType' metadata' fs2) :
    Told d first fs2 contentType metadata ∧
      Told d second fs2 contentType' metadata' := by
  cases h with
  | intro fs0 fs fs1 fsB fs2 turns data data' type type' ifNoneMatch ifNoneMatch'
      given given' trace traceB trace2 o oB o2 hfresh hturns hfirst halone hsecond
      htold htold' =>
      have hne := ne_of_apart hapart
      have hkempt := hfresh.kempt.history hturns
      have hkempt1 := hkempt.turn hfirst
      have hkemptB := hkempt.turn halone
      have hkempt2 := hkempt1.turn hsecond
      rcases Machine.runs_map hfirst with ⟨p, hput, _⟩
      rcases Machine.runs_map halone with ⟨pB, hputB, _⟩
      rcases Machine.runs_map hsecond with ⟨p2, hput2, _⟩
      have hfree : ¬ Walled d first fs := fun hwalled =>
        htold.stored ((hwalled.put hput).storedSidecar hkempt1.sound)
      refine ⟨htold.of_same hkempt1 hkempt2
        (storedSidecar_of_ne hkempt1.sound hput2 hne), ?_⟩
      have hway : (Vacant d second fs1 ifNoneMatch' ∧
          ¬ Hindered d second fs1 data') <->
            (Vacant d second fs ifNoneMatch' ∧ ¬ Hindered d second fs data') := by
        rw [vacant_beside hkempt.sound hfree hput hapart,
          hindered_beside hkempt.sound hfree hput hapart]
      rcases (hkempt.put_answer hputB).stores with ⟨hstores, rfl⟩ | ⟨hno, hkeeps⟩
      · rcases (hkempt1.put_answer hput2).stores with ⟨_, rfl⟩ | ⟨hno, _⟩
        · have htoldB := told_of_put hkempt.sound hkemptB hputB rfl htold'.stored
          rcases htold'.unique htoldB with ⟨rfl, rfl⟩
          apply told_of_put hkempt1.sound hkempt2 hput2 rfl
          cases put_recording hkempt1.sound hput2 rfl with
          | recorded now _ hraw =>
              rw [hraw]
              simp
          | walled hwalled _ =>
              have hbefore := walled_beside hkempt.sound hfree hput hsidecars hwalled
              exact absurd ((hbefore.put hputB).storedSidecar hkemptB.sound)
                htold'.stored
        · exact absurd (hway.mpr hstores) hno
      · rcases (hkempt1.put_answer hput2).stores with ⟨hstores, _⟩ | ⟨_, hkeeps2⟩
        · exact absurd (hway.mp hstores) hno
        · apply htold'.of_same hkemptB hkempt2
          rw [storedSidecar_of_unstored hkempt1.sound hput2 hkeeps2,
            storedSidecar_of_unstored hkempt.sound hputB hkeeps,
            storedSidecar_of_ne hkempt.sound hput hne.symm]

end InTurn

/-- Of two objects that fit into a bucket, the sidecars fit exactly where
neither key shadows the other; then, and only then, both are told after the two
puts. -/
theorem coexist_iff (hbucket : first.bucket = second.bucket)
    (hapart : Apart (first.objectLoc d.root) (second.objectLoc d.root)) :
    (Apart (first.sidecarLoc d.root) (second.sidecarLoc d.root) <->
      Unshadowed first second) ∧
    forall contentType metadata contentType' metadata' fs2,
      InTurn d first second contentType metadata contentType' metadata' fs2 ->
      (Told d first fs2 contentType metadata ∧
        Told d second fs2 contentType' metadata' <-> Unshadowed first second) := by
  have hne := ne_of_apart hapart
  have hsidecars : Apart (first.sidecarLoc d.root) (second.sidecarLoc d.root) <->
      Unshadowed first second := apart_sidecars_iff hbucket hne
  refine ⟨hsidecars, ?_⟩
  intro contentType metadata contentType' metadata' fs2 hturn
  constructor
  · intro h
    have hfirst := h.left.stored
    have hsecond := h.right.stored
    exact hsidecars.mp ⟨not_prefix_of_stored hturn.sound hne hfirst hsecond,
      not_prefix_of_stored hturn.sound hne.symm hsecond hfirst⟩
  · intro hunshadowed
    exact hturn.told hapart (hsidecars.mpr hunshadowed)

/-!
## A key that shadows another
-/

def putFrom (slot : Slot sampleSettings) (n : Nat) (fs : FileTree) :
    Option (List (Sigma calls.Ret) × Except Exn Reply × FileTree) :=
  (system noFault).replay sampleChoice ((samplePut slot [[1]]).run sampleDriver) n
    fs

def recordedBy (slot : Slot sampleSettings)
    (run : List (Sigma calls.Ret) × Except Exn Reply × FileTree) : Bool :=
  (match run.2.1 with
    | Except.ok (Reply.put result) => !result.deduped
    | _ => false) &&
    (storedSidecar sampleDriver slot run.2.2).isSome

def putInTurn (first second : Slot sampleSettings) : Option (Bool × Bool) := do
  let run1 ← putFrom first 0 sampleTree
  let runB ← putFrom second 0 sampleTree
  let run2 ← putFrom second 40 run1.2.2
  pure (recordedBy first run1 && recordedBy second runB,
    (storedSidecar sampleDriver second run2.2.2).isSome)

def toldPicture (slot : Slot sampleSettings) (fs : FileTree) : Prop :=
  Told sampleDriver slot fs (Json.str (text "image/png")) (Json.obj [])

theorem told_of_recordedBy {slot : Slot sampleSettings}
    {run : List (Sigma calls.Ret) × Except Exn Reply × FileTree} {n : Nat}
    (hrun : putFrom slot n sampleTree = some run)
    (h : recordedBy slot run = true) : toldPicture slot run.2.2 := by
  have hruns := (system noFault).replay_runs sampleChoice hrun
  have hkempt : Kempt sampleDriver sampleSettings sampleTree :=
    sampleTree_fresh.kempt
  rcases Machine.runs_map hruns with ⟨o, hput, ho⟩
  unfold recordedBy at h
  rw [ho, Bool.and_eq_true] at h
  cases o with
  | error e => cases h.left
  | ok result =>
      have hfresh : (!result.deduped) = true := h.left
      rw [Bool.not_eq_true'] at hfresh
      exact told_of_put hkempt.sound (hkempt.turn hruns) hput hfresh
        (Option.isSome_iff_ne_none.mp h.right)

theorem inTurn_of_puts {first second : Slot sampleSettings} {kept : Bool}
    (h : putInTurn first second = some (true, kept)) :
    exists fs2, InTurn sampleDriver first second
        (Json.str (text "image/png")) (Json.obj [])
        (Json.str (text "image/png")) (Json.obj []) fs2 ∧
      (storedSidecar sampleDriver second fs2).isSome = kept := by
  unfold putInTurn at h
  rcases Option.bind_eq_some_iff.mp h with ⟨run1, h1, h⟩
  rcases Option.bind_eq_some_iff.mp h with ⟨runB, hB, h⟩
  rcases Option.bind_eq_some_iff.mp h with ⟨run2, h2, h⟩
  rcases Prod.mk.inj (Option.some.inj h) with ⟨hrecorded, hkept⟩
  rw [Bool.and_eq_true] at hrecorded
  refine ⟨run2.2.2, ?_, hkept⟩
  exact InTurn.intro sampleTree sampleTree run1.2.2 runB.2.2 run2.2.2 [] _ _ _ _
    _ _ _ _ _ _ _ _ _ _ sampleTree_fresh (History.start _)
    ((system noFault).replay_runs sampleChoice h1)
    ((system noFault).replay_runs sampleChoice hB)
    ((system noFault).replay_runs sampleChoice h2)
    (told_of_recordedBy h1 hrecorded.left)
    (told_of_recordedBy hB hrecorded.right)

/-- The second of two puts in turn is not told, though it is where it is made
alone. -/
def Loses (first second : Slot sampleSettings) : Prop :=
  exists fs2, InTurn sampleDriver first second
      (Json.str (text "image/png")) (Json.obj [])
      (Json.str (text "image/png")) (Json.obj []) fs2 ∧
    ¬ toldPicture second fs2

theorem loses_of_puts {first second : Slot sampleSettings}
    (h : putInTurn first second = some (true, false)) : Loses first second := by
  rcases inTurn_of_puts h with ⟨fs2, hturn, hkept⟩
  refine ⟨fs2, hturn, fun htold => htold.stored ?_⟩
  exact Option.isNone_iff_eq_none.mp (by simpa using hkept)

/-- Two objects that fit, whose sidecars do not, in either order. -/
theorem shadow_loses :
    Apart (folderSlot.objectLoc sampleDriver.root)
      (shadowSlot.objectLoc sampleDriver.root) ∧
    ¬ Apart (folderSlot.sidecarLoc sampleDriver.root)
      (shadowSlot.sidecarLoc sampleDriver.root) ∧
    Loses folderSlot shadowSlot ∧ Loses shadowSlot folderSlot := by
  refine ⟨⟨by decide +kernel, by decide +kernel⟩,
    fun h => h.left (by decide +kernel), loses_of_puts (by decide +kernel),
    loses_of_puts (by decide +kernel)⟩

theorem coexist_iff_pictures :
    exists fs2, InTurn sampleDriver pictureSlot nestedSlot
        (Json.str (text "image/png")) (Json.obj [])
        (Json.str (text "image/png")) (Json.obj []) fs2 ∧
      toldPicture pictureSlot fs2 ∧ toldPicture nestedSlot fs2 := by
  have hputs : putInTurn pictureSlot nestedSlot = some (true, true) := by
    decide +kernel
  rcases inTurn_of_puts hputs with ⟨fs2, hturn, _⟩
  have hunshadowed : Unshadowed pictureSlot nestedSlot :=
    ⟨by decide +kernel, by decide +kernel⟩
  have hapart : Apart (pictureSlot.objectLoc sampleDriver.root)
      (nestedSlot.objectLoc sampleDriver.root) :=
    ⟨by decide +kernel, by decide +kernel⟩
  have hbucket : pictureSlot.bucket = nestedSlot.bucket := rfl
  exact ⟨fs2, hturn,
    ((coexist_iff hbucket hapart).right _ _ _ _ fs2 hturn).mpr hunshadowed⟩

end StorybookStorage
