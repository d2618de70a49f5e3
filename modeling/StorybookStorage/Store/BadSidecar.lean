import StorybookStorage.Store.FailedPut

/-!
# Any bytes for a sidecar

`_read_sidecar` falls back on texts that are no JSON.  What is no text, or JSON
of another shape, is raised from `head`, and from every put that asks first.
-/

namespace StorybookStorage

open Python Posix Effects FileTree

def IntConvertible (py : Platform) : Json -> Prop
  | Json.bool _ => True
  | Json.int _ => True
  | Json.float (PyFloat.finite _) => True
  | Json.str s => py.intOfText s ≠ none
  | _ => False

theorem intOf_ok_iff {py : Platform} {v : Json} :
    (exists n, py.intOf v = Except.ok n) <-> IntConvertible py v := by
  cases v with
  | bool b => exact iff_of_true ⟨_, rfl⟩ trivial
  | int n => exact iff_of_true ⟨_, rfl⟩ trivial
  | float x =>
      cases x with
      | finite q => exact iff_of_true ⟨_, rfl⟩ trivial
      | _ => exact iff_of_false (fun ⟨_, h⟩ => nomatch h) id
  | str s =>
      cases hs : py.intOfText s with
      | none => simp [Platform.intOf, IntConvertible, hs]
      | some n => simp [Platform.intOf, IntConvertible, hs]
  | _ => exact iff_of_false (fun ⟨_, h⟩ => nomatch h) id

/-- The value leaves `head` with an answer: it is falsy, or an object whose
size, where it has one, is a number. -/
def Harmless (py : Platform) (v : Json) : Prop :=
  v.truthy = true -> exists fields, v = Json.obj fields ∧
    forall size, Json.field fields (text "bytes") = some size ->
      IntConvertible py size

def Tolerable (py : Platform) (raw : Bytes) : Prop :=
  exists t, decode raw = some t ∧
    forall v, py.json.loads t = Except.ok v -> Harmless py v

structure Unblocked (asked : Except Exn (Option ObjectInfo))
    (met : Except Exn PutResult) : Prop where
  head : exists info, asked = Except.ok (some info)
  put : exists result, met = Except.ok result ∧ result.deduped = true

variable {settings : Settings} {d : LocalFsBlobDriver} {slot : Slot settings}
  {fs fs1 fs2 : FileTree} {inode : Inode} {raw : Bytes}

/-!
## What head answers
-/

theorem infoOfSidecar_ok_iff {key modified : Text} {st : Stat} {v : Json} :
    (exists info, d.infoOfSidecar key st modified v = Except.ok info) <->
      exists fields, v = Json.obj fields ∧
        forall size, Json.field fields (text "bytes") = some size ->
          IntConvertible d.platform size := by
  cases v with
  | obj fields =>
      have hsize : (exists n, d.platform.intOf
          ((Json.field fields (text "bytes")).getD (Json.int st.size)) =
            Except.ok n) <->
          forall size, Json.field fields (text "bytes") = some size ->
            IntConvertible d.platform size := by
        rw [intOf_ok_iff]
        cases Json.field fields (text "bytes") with
        | none => exact iff_of_true trivial fun _ hno => nomatch hno
        | some size => simp
      constructor
      · intro h
        rcases h with ⟨info, hinfo⟩
        refine ⟨fields, rfl, hsize.mp ?_⟩
        unfold LocalFsBlobDriver.infoOfSidecar at hinfo
        dsimp only at hinfo
        split at hinfo
        · cases hinfo
        · rename_i n hn
          exact ⟨n, hn⟩
      · intro h
        rcases h with ⟨fields', hfields, hconvertible⟩
        cases hfields
        rcases hsize.mpr hconvertible with ⟨n, hn⟩
        unfold LocalFsBlobDriver.infoOfSidecar
        dsimp only
        rw [hn]
        exact ⟨_, rfl⟩
  | _ =>
      refine iff_of_false (fun ⟨_, h⟩ => nomatch h) fun h => ?_
      rcases h with ⟨fields, hfields, _⟩
      cases hfields

theorem infoOf_ok_iff {v : Json} :
    (exists info, infoOf d slot inode ((some v).filter Json.truthy) =
      Except.ok info) <-> Harmless d.platform v := by
  unfold Harmless
  cases hv : v.truthy with
  | false =>
      rw [Option.filter_some_neg (by simp [hv])]
      exact iff_of_true ⟨_, rfl⟩ fun hno => nomatch hno
  | true =>
      rw [Option.filter_some_pos hv]
      unfold infoOf
      dsimp only
      rw [infoOfSidecar_ok_iff]
      exact ⟨fun h _ => h, fun h => h rfl⟩

/-- `head` answers an object with any tolerable sidecar, and raises on every
other one. -/
theorem headOf_ok_iff :
    (exists info, headOf d slot (some inode) (some raw) =
      Except.ok (some info)) <-> Tolerable d.platform raw := by
  have hmap : forall {r : Except Exn ObjectInfo},
      (exists info, r.map some = Except.ok (some info)) <->
        exists info, r = Except.ok info := by
    intro r
    cases r with
    | error e => exact iff_of_false (fun ⟨_, h⟩ => nomatch h) fun ⟨_, h⟩ => nomatch h
    | ok info => exact iff_of_true ⟨info, rfl⟩ ⟨info, rfl⟩
  unfold headOf sidecarValue Tolerable
  dsimp only
  cases hdecode : decode raw with
  | none =>
      have hback : readBack d raw = Except.error Exn.unicodeDecodeError := by
        unfold readBack
        rw [hdecode]
      rw [hback]
      refine iff_of_false (fun ⟨_, h⟩ => nomatch h) fun h => ?_
      rcases h with ⟨t, ht, _⟩
      cases ht
  | some t =>
      cases hloads : d.platform.json.loads t with
      | error e =>
          have hback : readBack d raw = Except.ok none := by
            unfold readBack
            rw [hdecode]
            dsimp only
            rw [hloads]
          rw [hback]
          refine iff_of_true ⟨_, rfl⟩ ⟨t, rfl, fun v hv => ?_⟩
          rw [hloads] at hv
          cases hv
      | ok v =>
          have hback : readBack d raw = Except.ok (some v) := by
            unfold readBack
            rw [hdecode]
            dsimp only
            rw [hloads]
          rw [hback]
          dsimp only
          rw [hmap, infoOf_ok_iff]
          constructor
          · intro h
            refine ⟨t, rfl, fun v' hv' => ?_⟩
            rw [hloads] at hv'
            cases hv'
            exact h
          · intro h
            rcases h with ⟨t', ht', hharmless⟩
            cases ht'
            exact hharmless v hloads

/-!
## A put that meets the object
-/

theorem put_exact {data : Data} {contentType : Text}
    {ifNoneMatch : Option Text} {metadata : Option Metadata}
    {trace : List (Sigma calls.Ret)} {o : Except Exn PutResult}
    (hcond : ifNoneMatch = some (text "*"))
    (hobject : fileInode fs (slot.objectLoc d.root) = some inode)
    (hrun : (system noFault).machine.Runs fs
      (d.put slot.bucket slot.key data contentType ifNoneMatch metadata) trace o
      fs1) :
    o = (headOf d slot (some inode) (storedSidecar d slot fs)).map
      LocalFsBlobDriver.dedupResult := by
  apply Machine.wp_sound (Q := fun o _ =>
    o = (headOf d slot (some inode) (storedSidecar d slot fs)).map
      LocalFsBlobDriver.dedupResult) _ hrun
  unfold LocalFsBlobDriver.put
  rw [slot.objectPath_ok]
  show (system noFault).machine.wp (if ifNoneMatch = some (text "*") then _ else _)
    _ fs
  rw [if_pos hcond]
  show (system noFault).machine.wp
    (Os.pathExists (slot.objectText d.root) >>= fun _ => _) _ fs
  rw [Machine.wp_bind]
  apply wp_exact (c := Call.pathExists (slot.objectText d.root))
  intro ch hfault
  have hthere : (fs.node (slot.objectLoc d.root)).isSome = true := by
    unfold fileInode at hobject
    split at hobject
    · rename_i i hi
      rw [hi]
      rfl
    · cases hobject
  simp only [exec, hfault, slot.resolve_objectText, hthere, Option.isNone_none,
    Bool.true_and]
  show (system noFault).machine.wp (d.head _ _ >>= fun _ => _) _ fs
  rw [Machine.wp_bind]
  apply wp_exact_head
  intro fs' _
  rw [hobject]
  cases headOf d slot (some inode) (storedSidecar d slot fs) <;> rfl

/-- A sidecar never blocks its object exactly as long as it is tolerable. -/
theorem unblocked_iff {data : Data} {contentType : Text}
    {metadata : Option Metadata} {trace trace' : List (Sigma calls.Ret)}
    {asked : Except Exn (Option ObjectInfo)} {met : Except Exn PutResult}
    (hobject : fileInode fs (slot.objectLoc d.root) = some inode)
    (hraw : storedSidecar d slot fs = some raw)
    (hhead : (system noFault).machine.Runs fs (d.head slot.bucket slot.key)
      trace asked fs1)
    (hput : (system noFault).machine.Runs fs
      (d.put slot.bucket slot.key data contentType (some (text "*")) metadata)
      trace' met fs2) :
    Unblocked asked met <-> Tolerable d.platform raw := by
  have hasked : asked = headOf d slot (some inode) (some raw) := by
    rw [(head_exact hhead).left, hobject, hraw]
  have hmet := put_exact rfl hobject hput
  rw [hraw] at hmet
  have htolerable : (exists info, headOf d slot (some inode) (some raw) =
      Except.ok (some info)) <-> Tolerable d.platform raw := headOf_ok_iff
  rw [← htolerable]
  constructor
  · intro h
    rw [← hasked]
    exact h.head
  · intro h
    rcases h with ⟨info, hinfo⟩
    constructor
    · exact ⟨info, hasked.trans hinfo⟩
    · rw [hinfo] at hmet
      exact ⟨_, hmet, rfl⟩

/-!
## A truncated and a broken sidecar
-/

def withSidecar (raw : Bytes) : FileTree :=
  let plant : Io Unit := do
    let _ ← (samplePut pictureSlot [[1]]).run sampleDriver
    let fh ← Os.openWrite (pictureSlot.sidecarText sampleDriver.root)
    Os.write fh raw
    Os.close fh
  match answerOf plant sampleTree with
  | some (_, _, fs) => fs
  | none => sampleTree

def askHead (raw : Bytes) :=
  answerOf (sampleDriver.head pictureSlot.bucket pictureSlot.key)
    (withSidecar raw)

def meetPut (raw : Bytes) :=
  answerOf (sampleDriver.put pictureSlot.bucket pictureSlot.key
    (sampleSource [[2]]) (text "image/png") (some (text "*")) none)
    (withSidecar raw)

/-- The object is there, its sidecar holds these bytes, and this is how both
calls end. -/
def Finds (raw : Bytes)
    (ends : Except Exn (Option ObjectInfo) -> Except Exn PutResult -> Prop) :
    Prop :=
  exists fs fs1 fs2 inode trace trace' asked met,
    fileInode fs (pictureSlot.objectLoc sampleDriver.root) = some inode ∧
    storedSidecar sampleDriver pictureSlot fs = some raw ∧
    (system noFault).machine.Runs fs
      (sampleDriver.head pictureSlot.bucket pictureSlot.key) trace asked fs1 ∧
    (system noFault).machine.Runs fs
      (sampleDriver.put pictureSlot.bucket pictureSlot.key (sampleSource [[2]])
        (text "image/png") (some (text "*")) none) trace' met fs2 ∧
    ends asked met

def Blocked (e : Exn) (asked : Except Exn (Option ObjectInfo))
    (met : Except Exn PutResult) : Prop :=
  asked = Except.error e ∧ met = Except.error e ∧ ¬ Unblocked asked met

theorem finds_blocked {raw : Bytes} {e : Exn}
    (hobject : (fileInode (withSidecar raw)
      (pictureSlot.objectLoc sampleDriver.root)).isSome = true)
    (hraw : storedSidecar sampleDriver pictureSlot (withSidecar raw) = some raw)
    (hhead : (askHead raw).bind (fun run => raised run.2.1) = some e)
    (hput : (meetPut raw).bind (fun run => raised run.2.1) = some e) :
    Finds raw (Blocked e) := by
  rcases Option.isSome_iff_exists.mp hobject with ⟨inode, hinode⟩
  rcases Option.bind_eq_some_iff.mp hhead with ⟨asked, hasked, hask⟩
  rcases Option.bind_eq_some_iff.mp hput with ⟨met, hmet, hmeet⟩
  refine ⟨_, _, _, inode, _, _, _, _, hinode, hraw, answerOf_runs hasked,
    answerOf_runs hmet, eq_of_raised hask, eq_of_raised hmeet, ?_⟩
  intro h
  rcases h.head with ⟨info, hinfo⟩
  rw [eq_of_raised hask] at hinfo
  cases hinfo

/-- No text, a list, and an object with a null for the size. -/
theorem badSidecars_block :
    Finds [0xff] (Blocked Exn.unicodeDecodeError) ∧
    Finds (encode (text "[1]")) (Blocked Exn.attributeError) ∧
    Finds (encode (Json.dumps (Json.obj [(text "bytes", Json.null)])))
      (Blocked Exn.typeError) := by
  refine ⟨finds_blocked ?_ ?_ ?_ ?_, finds_blocked ?_ ?_ ?_ ?_,
    finds_blocked ?_ ?_ ?_ ?_⟩
  all_goals decide +kernel

/-- A sidecar that was cut off before its first byte is no obstacle. -/
theorem unblocked_iff_empty : Finds [] Unblocked := by
  have hobject : (fileInode (withSidecar [])
      (pictureSlot.objectLoc sampleDriver.root)).isSome = true := by
    decide +kernel
  have hraw : storedSidecar sampleDriver pictureSlot (withSidecar []) =
      some [] := by decide +kernel
  have hhead : (askHead []).isSome = true := by decide +kernel
  have hput : (meetPut []).isSome = true := by decide +kernel
  rcases Option.isSome_iff_exists.mp hobject with ⟨inode, hinode⟩
  rcases Option.isSome_iff_exists.mp hhead with ⟨asked, hasked⟩
  rcases Option.isSome_iff_exists.mp hput with ⟨met, hmet⟩
  refine ⟨_, _, _, inode, _, _, _, _, hinode, hraw, answerOf_runs hasked,
    answerOf_runs hmet, ?_⟩
  apply (unblocked_iff hinode hraw (answerOf_runs hasked)
    (answerOf_runs hmet)).mpr
  refine ⟨[], by decide +kernel, fun v hv => ?_⟩
  cases hv

end StorybookStorage
