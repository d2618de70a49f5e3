import StorybookStorage.Store.Answers

/-!
# What a history leaves behind

Two fault-free histories with the same objects in the end.  A next put answers
the same after both, as far as they leave the same directory at its place and,
for an object too large to hash again, the same sidecar or none.
-/

namespace StorybookStorage

open Python Posix Effects Contract

variable {settings : Settings} (d : LocalFsBlobDriver) (slot : Slot settings)

inductive SameOutcome : Except Exn PutResult -> Except Exn PutResult -> Prop where
  | raised (e e' : Exn) : SameOutcome (Except.error e) (Except.error e')
  | returned (r : PutResult) : SameOutcome (Except.ok r) (Except.ok r)

/-- Nothing but the objects tells the two trees apart, as far as this put can
see. -/
structure Unmarked (data : Data) (ifNoneMatch : Option Text)
    (fs1 fs2 : FileTree) : Prop where
  /-- A directory lies at the object's place in both or in neither. -/
  directory : ifNoneMatch = some (text "*") ∨ data.ending = none ->
    (fs1.node (slot.objectLoc d.root) = some Node.dir <->
      fs2.node (slot.objectLoc d.root) = some Node.dir)
  /-- A large object has a sidecar in both or in neither. -/
  sidecar : ifNoneMatch = some (text "*") -> forall b,
    storedObject d slot fs1 = some b -> etagFallbackMaxBytes < b.length ->
    (storedSidecar d slot fs1 = none <-> storedSidecar d slot fs2 = none)

def SameObjects (settings : Settings) (fs1 fs2 : FileTree) : Prop :=
  forall slot : Slot settings, storedObject d slot fs1 = storedObject d slot fs2

variable {d slot} {data : Data} {ifNoneMatch : Option Text}
  {fs fs1 fs2 : FileTree} {o o1 o2 : Except Exn PutResult}

theorem SameOutcome.symm (h : SameOutcome o1 o2) : SameOutcome o2 o1 := by
  cases h with
  | raised e e' => exact SameOutcome.raised e' e
  | returned r => exact SameOutcome.returned r

theorem SameObjects.symm (h : SameObjects d settings fs1 fs2) :
    SameObjects d settings fs2 fs1 := fun slot => (h slot).symm

/-!
## The three states of a place
-/

theorem storedObject_of_dir
    (h : fs.node (slot.objectLoc d.root) = some Node.dir) :
    storedObject d slot fs = none := by
  unfold storedObject FileTree.content
  rw [h]

theorem storedObject_of_none (h : fs.node (slot.objectLoc d.root) = none) :
    storedObject d slot fs = none := by
  unfold storedObject FileTree.content
  rw [h]

theorem node_none_of_empty (hdir : fs.node (slot.objectLoc d.root) ≠ some Node.dir)
    (hobject : storedObject d slot fs = none) :
    fs.node (slot.objectLoc d.root) = none := by
  unfold storedObject FileTree.content at hobject
  cases hn : fs.node (slot.objectLoc d.root) with
  | none => rfl
  | some n =>
      cases n with
      | dir => exact absurd hn hdir
      | file i =>
          rw [hn] at hobject
          cases hobject

theorem Kempt.blocked (h1 : Kempt d settings fs1)
    (hsame : SameObjects d settings fs1 fs2) {q : Path} {b : Bytes}
    (hq : q <+: (slot.objectLoc d.root).dropLast)
    (hb : fs1.content q = some b) : fs2.content q = some b := by
  have hloc := hq.trans (List.dropLast_prefix _)
  have hvisible := slot.visible_of_prefix_objectLoc hloc
  rcases List.prefix_or_prefix_of_prefix hloc (List.prefix_append _ _) with
    habove | hbelow
  · have hdir := h1.sound.dir_of_prefix h1.tmp
      (habove.trans (List.prefix_append _ _))
    unfold FileTree.content at hb
    rw [hdir] at hb
    cases hb
  · have hfile := fileAt_eq_some.mpr ((view_of_content hvisible).mpr hb)
    rcases h1.owned q b hbelow hfile with ⟨slot', rfl | rfl⟩
    · have hobject : storedObject d slot' fs1 = some b := hb
      rw [hsame slot'] at hobject
      exact hobject
    · exact absurd hloc (slot.sidecarLoc_not_below_objectLoc d.root slot')

theorem Kempt.unblocked (h : Kempt d settings fs)
    (hdir : fs.node (slot.objectLoc d.root) = some Node.dir) {q : Path}
    {b : Bytes} (hq : q <+: (slot.objectLoc d.root).dropLast) :
    fs.content q ≠ some b := by
  have hq' := h.sound.dir_of_prefix hdir (hq.trans (List.dropLast_prefix _))
  unfold FileTree.content
  rw [hq']
  simp

/-!
## Reading an answer back
-/

theorem PutAnswer.of_directory (h : PutAnswer d slot fs data ifNoneMatch o)
    (hcond : ifNoneMatch = some (text "*"))
    (hdir : fs.node (slot.objectLoc d.root) = some Node.dir) :
    o = Except.ok (LocalFsBlobDriver.dedupResult none) := by
  cases h with
  | directory _ _ => rfl
  | object b _ hb =>
      rw [storedObject_of_dir hdir] at hb
      cases hb
  | refused e hvacant _ =>
      rw [hvacant hcond] at hdir
      cases hdir
  | stored hvacant _ =>
      rw [hvacant hcond] at hdir
      cases hdir

theorem PutAnswer.of_object (h : PutAnswer d slot fs data ifNoneMatch o)
    (hcond : ifNoneMatch = some (text "*")) {b : Bytes}
    (hb : storedObject d slot fs = some b) :
    o = Except.ok
      { etag := Json.str (knownEtag d slot fs b)
        bytes := b.length
        deduped := true } := by
  cases h with
  | directory _ hdir =>
      rw [storedObject_of_dir hdir] at hb
      cases hb
  | object b' _ hb' =>
      rw [hb] at hb'
      cases hb'
      rfl
  | refused e hvacant _ =>
      rw [storedObject_of_none (hvacant hcond)] at hb
      cases hb
  | stored hvacant _ =>
      rw [storedObject_of_none (hvacant hcond)] at hb
      cases hb

theorem PutAnswer.of_vacant (h : PutAnswer d slot fs data ifNoneMatch o)
    (hvacant : Vacant d slot fs ifNoneMatch) :
    (Hindered d slot fs data ∧ exists e, o = Except.error e) ∨
      (¬ Hindered d slot fs data ∧ o = Except.ok (storedResult d data)) := by
  cases h with
  | directory hcond hdir =>
      rw [hvacant hcond] at hdir
      cases hdir
  | object b hcond hb =>
      rw [storedObject_of_none (hvacant hcond)] at hb
      cases hb
  | refused e _ hhindered => exact Or.inl ⟨hhindered, e, rfl⟩
  | stored _ hfree => exact Or.inr ⟨hfree, rfl⟩

/-!
## Two trees
-/

section Two

variable (h1 : Kempt d settings fs1) (h2 : Kempt d settings fs2)
  (hsame : SameObjects d settings fs1 fs2)

include h1 hsame in
theorem Hindered.across (h : Hindered d slot fs1 data)
    (hdir : data.ending = none ->
      fs1.node (slot.objectLoc d.root) = some Node.dir ->
      fs2.node (slot.objectLoc d.root) = some Node.dir) :
    Hindered d slot fs2 data := by
  cases h with
  | source hraises => exact Hindered.source hraises
  | directory h =>
      cases hend : data.ending with
      | none => exact Hindered.directory (hdir hend h)
      | some e => exact Hindered.source (by rw [hend]; simp)
  | file q b hq hb => exact Hindered.file q b hq (h1.blocked hsame hq hb)

include hsame in
theorem Vacant.across (h : Vacant d slot fs1 ifNoneMatch)
    (hunmarked : Unmarked d slot data ifNoneMatch fs1 fs2) :
    Vacant d slot fs2 ifNoneMatch := by
  intro hcond
  have hnone := h hcond
  apply node_none_of_empty
  · intro hdir
    rw [(hunmarked.directory (Or.inl hcond)).mpr hdir] at hnone
    cases hnone
  · rw [← hsame slot, storedObject_of_none hnone]

include h1 h2 hsame in
theorem same_of_unmarked (ho1 : PutAnswer d slot fs1 data ifNoneMatch o1)
    (ho2 : PutAnswer d slot fs2 data ifNoneMatch o2)
    (hunmarked : Unmarked d slot data ifNoneMatch fs1 fs2) :
    SameOutcome o1 o2 := by
  cases ho1 with
  | directory hcond hdir =>
      rw [ho2.of_directory hcond
        ((hunmarked.directory (Or.inl hcond)).mp hdir)]
      exact SameOutcome.returned _
  | object b hcond hb =>
      have hb2 := hb
      rw [hsame slot] at hb2
      have hetag : knownEtag d slot fs1 b = knownEtag d slot fs2 b := by
        unfold knownEtag
        rcases Nat.lt_or_ge etagFallbackMaxBytes b.length with hbig | hsmall
        · have hbare := hunmarked.sidecar hcond b hb hbig
          simp only [Option.isNone_iff_eq_none, hbare]
        · rw [if_neg (fun h => Nat.not_lt.mpr hsmall h.right),
            if_neg (fun h => Nat.not_lt.mpr hsmall h.right)]
      rw [ho2.of_object hcond hb2, hetag]
      exact SameOutcome.returned _
  | refused e hvacant hhindered =>
      have hacross := hhindered.across h1 hsame
        fun hend => (hunmarked.directory (Or.inr hend)).mp
      rcases ho2.of_vacant (hvacant.across hsame hunmarked) with
        ⟨_, e', rfl⟩ | ⟨hfree, _⟩
      · exact SameOutcome.raised e e'
      · exact absurd hacross hfree
  | stored hvacant hfree =>
      rcases ho2.of_vacant (hvacant.across hsame hunmarked) with
        ⟨hhindered, _⟩ | ⟨_, rfl⟩
      · exact absurd (hhindered.across h2 hsame.symm
          fun hend => (hunmarked.directory (Or.inr hend)).mpr) hfree
      · exact SameOutcome.returned _

theorem SameOutcome.eq {r r' : PutResult}
    (h : SameOutcome (Except.ok r) (Except.ok r')) : r = r' := by
  cases h
  rfl

include h1 h2 hsame in
theorem directory_of_same (ho1 : PutAnswer d slot fs1 data ifNoneMatch o1)
    (ho2 : PutAnswer d slot fs2 data ifNoneMatch o2) (h : SameOutcome o1 o2)
    (hnext : ifNoneMatch = some (text "*") ∨ data.ending = none)
    (hdir : fs1.node (slot.objectLoc d.root) = some Node.dir) :
    fs2.node (slot.objectLoc d.root) = some Node.dir := by
  by_contra hno
  have hempty := storedObject_of_dir hdir
  rw [hsame slot] at hempty
  have hvacant : Vacant d slot fs2 ifNoneMatch :=
    fun _ => node_none_of_empty hno hempty
  by_cases hcond : ifNoneMatch = some (text "*")
  · rw [ho1.of_directory hcond hdir] at h
    rcases ho2.of_vacant hvacant with ⟨_, e, rfl⟩ | ⟨_, rfl⟩
    · cases h
    · exact absurd (congrArg PutResult.deduped h.eq) (by simp [storedResult,
        LocalFsBlobDriver.dedupResult])
  · have hend := hnext.resolve_left hcond
    rcases ho1.of_vacant (fun h => absurd h hcond) with
      ⟨_, e, rfl⟩ | ⟨hfree, _⟩
    · rcases ho2.of_vacant hvacant with ⟨hhindered, _⟩ | ⟨_, rfl⟩
      · cases hhindered with
        | source hraises => exact hraises hend
        | directory hdir2 => exact hno hdir2
        | file q b hq hb =>
            exact h1.unblocked hdir hq (h2.blocked hsame.symm hq hb)
      · cases h
    · exact hfree (Hindered.directory hdir)

include hsame in
/-- Without a sidecar a large object has no etag. -/
theorem sidecar_of_same (ho1 : PutAnswer d slot fs1 data ifNoneMatch o1)
    (ho2 : PutAnswer d slot fs2 data ifNoneMatch o2) (h : SameOutcome o1 o2)
    (hcond : ifNoneMatch = some (text "*")) {b : Bytes}
    (hb : storedObject d slot fs1 = some b)
    (hbig : etagFallbackMaxBytes < b.length)
    (hbare : storedSidecar d slot fs1 = none) :
    storedSidecar d slot fs2 = none := by
  have hb2 := hb
  rw [hsame slot] at hb2
  rw [ho1.of_object hcond hb, ho2.of_object hcond hb2] at h
  have hetag : knownEtag d slot fs1 b = knownEtag d slot fs2 b :=
    Json.str.inj (congrArg PutResult.etag h.eq)
  cases hside : storedSidecar d slot fs2 with
  | none => rfl
  | some raw =>
      rw [knownEtag_of_sidecar hside] at hetag
      unfold knownEtag at hetag
      rw [hbare, if_pos ⟨rfl, hbig⟩] at hetag
      have hlength := d.platform.sha256.length_digest b
      rw [← hetag] at hlength
      cases hlength

include h1 h2 hsame in
theorem unmarked_of_same (ho1 : PutAnswer d slot fs1 data ifNoneMatch o1)
    (ho2 : PutAnswer d slot fs2 data ifNoneMatch o2) (h : SameOutcome o1 o2) :
    Unmarked d slot data ifNoneMatch fs1 fs2 where
  directory := by
    intro hnext
    constructor
    · exact directory_of_same h1 h2 hsame ho1 ho2 h hnext
    · exact directory_of_same h2 h1 hsame.symm ho2 ho1 h.symm hnext
  sidecar := by
    intro hcond b hb hbig
    have hb2 := hb
    rw [hsame slot] at hb2
    constructor
    · exact sidecar_of_same hsame ho1 ho2 h hcond hb hbig
    · exact sidecar_of_same hsame.symm ho2 ho1 h.symm hcond hb2 hbig

end Two

/-!
## Two histories
-/

/-- After two fault-free histories with the same objects in the end, the next
put answers the same exactly if they left the same marks. -/
theorem put_same_iff {gs1 gs2 : FileTree}
    {turns1 turns2 : List (MutationTurn settings)} {contentType : Text}
    {metadata : Option Metadata} {trace1 trace2 : List (Sigma calls.Ret)}
    (hfresh : Fresh d.root fs)
    (hturns1 : Histories d noFault (fun _ _ => True) fs turns1 fs1)
    (hturns2 : Histories d noFault (fun _ _ => True) fs turns2 fs2)
    (hsame : SameObjects d settings fs1 fs2)
    (hrun1 : (system noFault).machine.Runs fs1
      (d.put slot.bucket slot.key data contentType ifNoneMatch metadata)
      trace1 o1 gs1)
    (hrun2 : (system noFault).machine.Runs fs2
      (d.put slot.bucket slot.key data contentType ifNoneMatch metadata)
      trace2 o2 gs2) :
    SameOutcome o1 o2 <-> Unmarked d slot data ifNoneMatch fs1 fs2 := by
  have h1 := hfresh.kempt.history hturns1
  have h2 := hfresh.kempt.history hturns2
  have ho1 := h1.put_answer hrun1
  have ho2 := h2.put_answer hrun2
  constructor
  · exact unmarked_of_same h1 h2 hsame ho1 ho2
  · exact same_of_unmarked h1 h2 hsame ho1 ho2

def leftDirectory : List (MutationTurn sampleSettings) × FileTree :=
  (system noFault).replayFrom sampleChoice (Mutation.run sampleDriver)
    (fun _ _ => True) sampleTree
    [samplePut nestedSlot [[1]], Mutation.delete nestedSlot]

def nextPut (slot : Slot sampleSettings) (fs : FileTree) :
    Option (List (Sigma calls.Ret) × Except Exn PutResult × FileTree) :=
  (system noFault).replay sampleChoice
    (sampleDriver.put slot.bucket slot.key (sampleSource [[2]])
      (text "image/png") none none) 40 fs

theorem nextPut_runs {slot : Slot sampleSettings} {fs gs : FileTree}
    {trace : List (Sigma calls.Ret)} {o : Except Exn PutResult}
    (h : nextPut slot fs = some (trace, o, gs)) :
    (system noFault).machine.Runs fs
      (sampleDriver.put slot.bucket slot.key (sampleSource [[2]])
        (text "image/png") none none) trace o gs :=
  (system noFault).replay_runs sampleChoice h

theorem leftDirectory_history :
    Histories sampleDriver noFault (fun _ _ => True) sampleTree
      leftDirectory.1 leftDirectory.2 :=
  (system noFault).replayFrom_history _ _ _ _ _

theorem content_of_dirs {fs : FileTree}
    (h : forall e, e ∈ fs.entries.entries -> e.2 = Node.dir) (q : Path) :
    fs.content q = none := by
  unfold FileTree.content FileTree.node
  cases hq : fs.entries.lookup q with
  | none => rfl
  | some n =>
      have hn := h _ (AList.mem_lookup_iff.mp hq)
      cases hn
      rfl

theorem leftDirectory_sameObjects :
    SameObjects sampleDriver sampleSettings sampleTree leftDirectory.2 := by
  intro slot
  have hdirs : forall e, e ∈ leftDirectory.2.entries.entries ->
      e.2 = Node.dir := by decide +kernel
  rw [sampleTree_fresh.storedObject]
  exact (content_of_dirs hdirs _).symm

theorem put_same_iff_leftDirectory :
    exists trace1 o1 gs1 trace2 o2 gs2,
      nextPut pictureSlot sampleTree = some (trace1, o1, gs1) ∧
      nextPut pictureSlot leftDirectory.2 = some (trace2, o2, gs2) ∧
      SameOutcome o1 o2 := by
  have hends : (nextPut pictureSlot sampleTree).isSome = true ∧
      (nextPut pictureSlot leftDirectory.2).isSome = true := by decide +kernel
  have hplaces : sampleTree.node (pictureSlot.objectLoc sampleDriver.root) ≠
        some Node.dir ∧
      leftDirectory.2.node (pictureSlot.objectLoc sampleDriver.root) ≠
        some Node.dir := by decide +kernel
  rcases Option.isSome_iff_exists.mp hends.left with
    ⟨⟨trace1, o1, gs1⟩, hput1⟩
  rcases Option.isSome_iff_exists.mp hends.right with
    ⟨⟨trace2, o2, gs2⟩, hput2⟩
  refine ⟨trace1, o1, gs1, trace2, o2, gs2, hput1, hput2, ?_⟩
  apply (put_same_iff sampleTree_fresh (History.start sampleTree)
    leftDirectory_history leftDirectory_sameObjects (nextPut_runs hput1)
    (nextPut_runs hput2)).mpr
  constructor
  · intro _
    constructor
    · intro hdir
      exact absurd hdir hplaces.left
    · intro hdir
      exact absurd hdir hplaces.right
  · intro hcond
    cases hcond

/-- The same objects, the same put: stored after one history, refused after the
other. -/
theorem leftDirectory_refuses :
    Histories sampleDriver noFault (fun _ _ => True) sampleTree
        leftDirectory.1 leftDirectory.2 ∧
      SameObjects sampleDriver sampleSettings sampleTree leftDirectory.2 ∧
      exists trace1 o1 gs1 trace2 o2 gs2,
        (system noFault).machine.Runs sampleTree
          (sampleDriver.put folderSlot.bucket folderSlot.key
            (sampleSource [[2]]) (text "image/png") none none) trace1 o1 gs1 ∧
        (system noFault).machine.Runs leftDirectory.2
          (sampleDriver.put folderSlot.bucket folderSlot.key
            (sampleSource [[2]]) (text "image/png") none none) trace2 o2 gs2 ∧
        ¬ SameOutcome o1 o2 := by
  refine ⟨leftDirectory_history, leftDirectory_sameObjects, ?_⟩
  have hends : (nextPut folderSlot sampleTree).map (fun r => r.2.1.isOk) =
        some true ∧
      (nextPut folderSlot leftDirectory.2).map (fun r => r.2.1.isOk) =
        some false := by decide +kernel
  rcases Option.map_eq_some_iff.mp hends.left with
    ⟨⟨trace1, o1, gs1⟩, hput1, hok⟩
  rcases Option.map_eq_some_iff.mp hends.right with
    ⟨⟨trace2, o2, gs2⟩, hput2, herr⟩
  refine ⟨trace1, o1, gs1, trace2, o2, gs2, nextPut_runs hput1,
    nextPut_runs hput2, ?_⟩
  intro hsame
  cases hsame with
  | raised e e' => cases hok
  | returned r => cases herr

end StorybookStorage
