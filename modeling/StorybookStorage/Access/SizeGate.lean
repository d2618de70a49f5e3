import StorybookStorage.Access.Requests
import StorybookStorage.Access.SignedUrls
import StorybookStorage.Store.Answers
import StorybookStorage.Store.Moments

/-!
# The size gate

A body passes the counter exactly when it is no longer than the cap, however it
is cut into chunks.  What passes is stored whole, what does not is refused and
leaves nothing, and a true declared length is refused exactly where the counter
would refuse the body.
-/

namespace StorybookStorage

open Python Posix Effects

def arriving (chunks : List Bytes) : Source where
  chunks := chunks
  ending := none

def counted (cap : Int) (chunks : List Bytes) : Data :=
  Data.stream (countingStream (arriving chunks) cap)

def Rejects (cap : Int) (chunks : List Bytes) : Prop :=
  (countingStream (arriving chunks) cap).ending =
    some (Exn.service payloadTooLarge)

variable {cap : Int} {chunks : List Bytes}

/-!
## The counter
-/

theorem counted_within (h : (chunks.flatten.length : Int) ≤ cap) :
    counted cap chunks = Data.stream (arriving chunks) := by
  unfold counted countingStream
  rw [countChunks_within (by simpa [arriving] using h)]

theorem counted_beyond (hcap : 0 ≤ cap)
    (h : cap < (chunks.flatten.length : Int)) :
    (counted cap chunks).ending = some (Exn.service payloadTooLarge) ∧
      ((counted cap chunks).body.length : Int) ≤ cap := by
  rcases @countChunks_beyond cap 0 none chunks hcap (by omega) with
    ⟨hending, hlength⟩
  rw [Int.zero_add] at hlength
  exact ⟨hending, hlength⟩

/-- However it is cut, a body is refused exactly when it is too long. -/
theorem rejects_iff (hcap : 0 ≤ cap) :
    Rejects cap chunks <-> cap < (chunks.flatten.length : Int) := by
  constructor
  · intro h
    by_contra hle
    have hwithin := counted_within (Int.not_lt.mp hle)
    have hending := congrArg Data.ending hwithin
    change (countingStream (arriving chunks) cap).ending = none at hending
    unfold Rejects at h
    rw [h] at hending
    cases hending
  · intro h
    exact (counted_beyond hcap h).left

theorem counted_length (hcap : 0 ≤ cap) :
    (counted cap chunks).body.length ≤ cap.toNat := by
  rcases Int.lt_or_le cap (chunks.flatten.length : Int) with hbeyond | hwithin
  · have hlength := (counted_beyond hcap hbeyond).right
    omega
  · rw [counted_within hwithin]
    show chunks.flatten.length ≤ cap.toNat
    omega

/-!
## The put behind it
-/

variable {settings : Settings} {d : LocalFsBlobDriver} {slot : Slot settings}
  {data : Data} {contentType : Text} {ifNoneMatch : Option Text}
  {metadata : Option Metadata} {allow : Policy} {fs fs' : FileTree}
  {trace : List (Sigma calls.Ret)} {o : Except Exn PutResult}

theorem pathExists_true {t : Text}
    (h : (system allow).machine.Step fs (Call.pathExists t) true fs') :
    fs.node (resolve t) ≠ none := by
  rcases h with ⟨ch, _, hexec⟩
  have hanswer := (Prod.mk.inj hexec).left
  intro hnone
  simp [hnone] at hanswer

/-- Where no call fails, only its source can make a put into a free place
raise. -/
theorem unfailed_put (hvacant : Vacant d slot fs ifNoneMatch)
    (hrun : (system allow).machine.Runs fs
      (d.put slot.bucket slot.key data contentType ifNoneMatch metadata) trace o
      fs') (hnone : failures trace = []) :
    (data.ending = none ∧ exists result, o = Except.ok result ∧
        result.deduped = false) ∨
      exists e, data.ending = some e ∧
        o = Except.error (LocalFsBlobDriver.translateOsError e) := by
  cases put_course hrun with
  | met fs0 fs' rest info hcond hthere _ =>
      have hsome := pathExists_true hthere
      rw [slot.resolve_objectText] at hsome
      exact absurd (hvacant hcond) hsome
  | failed fs0 fs1 fs2 fs' u before main e r henters _ hstage _ =>
      right
      have hmain : failures main = [] := by
        rw [← hnone, henters.failures_of_failed]
      cases stage_failures hstage with
      | source e he _ =>
          rw [asAiter_ending] at he
          exact ⟨e, he, rfl⟩
      | failed early n hlast =>
          rw [hmain] at hlast
          simp at hlast
  | stored fs0 fs1 fs2 fs' u before main side acc _ _ hstage _ =>
      left
      cases stage_failures hstage with
      | done _ hend _ =>
          rw [asAiter_ending] at hend
          exact ⟨hend, _, rfl, rfl⟩

theorem unfailed_put_stores (hsound : fs.Sound)
    (hvacant : Vacant d slot fs ifNoneMatch)
    (hrun : (system anyFault).machine.Runs fs
      (d.put slot.bucket slot.key data contentType ifNoneMatch metadata) trace o
      fs') (hnone : failures trace = []) (hend : data.ending = none) :
    o = Except.ok (storedResult d data) ∧
      storedObject d slot fs' = some data.body := by
  rcases unfailed_put hvacant hrun hnone with
    ⟨_, result, rfl, hfresh⟩ | ⟨e, he, _⟩
  · rcases put_runs solo_anyFault hsound hrun with ⟨_, heffect⟩
    rcases heffect.files (housed_of_sound hsound) with
      ⟨hdeduped, _⟩ | ⟨ho, hstored⟩
    · rw [hdeduped result rfl] at hfresh
      cases hfresh
    · refine ⟨ho, ?_⟩
      rw [← fileAt_object]
      exact hstored.own
  · rw [hend] at he
    cases he

/-!
## Both gates
-/

structure SizeGate (app : App) (cap : Int) (chunks : List Bytes) : Prop where
  /-- A body within the cap is stored whole. -/
  stored : forall (slot : Slot app.settings) contentType ifNoneMatch metadata fs
    trace o fs', fs.Sound -> Vacant app.driver slot fs ifNoneMatch ->
    (system anyFault).machine.Runs fs
      (app.driver.put slot.bucket slot.key (counted cap chunks) contentType
        ifNoneMatch metadata) trace o fs' ->
    failures trace = [] -> (chunks.flatten.length : Int) ≤ cap ->
    (exists result, o = Except.ok result ∧ result.deduped = false ∧
        result.bytes = chunks.flatten.length) ∧
      storedObject app.driver slot fs' = some chunks.flatten
  /-- A longer body is refused, and nothing of it is stored. -/
  refused : forall (slot : Slot app.settings) contentType ifNoneMatch metadata fs
    trace o fs', fs.Sound -> Vacant app.driver slot fs ifNoneMatch ->
    (system anyFault).machine.Runs fs
      (app.driver.put slot.bucket slot.key (counted cap chunks) contentType
        ifNoneMatch metadata) trace o fs' ->
    failures trace = [] -> cap < (chunks.flatten.length : Int) ->
    o = Except.error (Exn.service payloadTooLarge) ∧
      Unharmed app.driver app.settings fs fs'
  /-- At no moment is there more than the cap in the staging file. -/
  limited : forall (slot : Slot app.settings) contentType ifNoneMatch metadata fs
    fs', (system anyFault).machine.Passes fs
      (app.driver.put slot.bucket slot.key (counted cap chunks) contentType
        ifNoneMatch metadata) fs' ->
    Limited app.driver.root fs cap.toNat fs'
  /-- The header of `put_object`, when it tells the truth. -/
  declared : forall t, isdigit t = true ->
    app.platform.intOfText t = some (chunks.flatten.length : Int) ->
    (app.declaredLength cap (some t) =
        Except.error (Exn.service payloadTooLarge) <-> Rejects cap chunks)
  /-- The size of `create_upload`, when it tells the truth. -/
  sized : forall key contentType,
    checkUserWritable app.settings key = Except.ok () ->
    resolveUserCap app.platform app.settings contentType = Except.ok cap ->
    (checkUserUpload app.platform app.settings key contentType
        (some (chunks.flatten.length : Int)) =
        Except.error payloadTooLarge <-> Rejects cap chunks)

/-- The gate is exact for every cap, every body and every way to cut it. -/
theorem size_gate (app : App) (hcap : 0 ≤ cap) (chunks : List Bytes) :
    SizeGate app cap chunks where
  stored := by
    intro slot contentType ifNoneMatch metadata fs trace o fs' hsound hvacant
      hrun hnone hwithin
    rw [counted_within hwithin] at hrun
    rcases unfailed_put_stores hsound hvacant hrun hnone rfl with
      ⟨rfl, hstored⟩
    exact ⟨⟨_, rfl, rfl, rfl⟩, hstored⟩
  refused := by
    intro slot contentType ifNoneMatch metadata fs trace o fs' hsound hvacant
      hrun hnone hbeyond
    have hending := (counted_beyond hcap hbeyond).left
    rcases unfailed_put hvacant hrun hnone with ⟨hend, _⟩ | ⟨e, he, rfl⟩
    · rw [hend] at hending
      cases hending
    · rw [hending] at he
      cases he
      exact ⟨rfl, put_unharmed hsound hrun⟩
  limited := by
    intro slot contentType ifNoneMatch metadata fs fs' hpasses
    exact put_limited (counted_length hcap) hpasses
  declared := by
    intro t hdigits hint
    rw [rejects_iff hcap]
    unfold App.declaredLength
    dsimp only
    rw [if_pos hdigits, hint]
    dsimp only
    split
    · rename_i hbeyond
      exact ⟨fun _ => hbeyond, fun _ => rfl⟩
    · rename_i hwithin
      constructor
      · intro h
        cases h
      · intro h
        exact absurd h hwithin
  sized := by
    intro key contentType hwritable htype
    rw [rejects_iff hcap]
    unfold checkUserUpload
    rw [hwritable, htype]
    dsimp only
    split
    · rename_i hbeyond
      exact ⟨fun _ => of_decide_eq_true hbeyond, fun _ => rfl⟩
    · rename_i hwithin
      constructor
      · intro h
        cases h
      · intro h
        exact absurd (decide_eq_true h) hwithin

def gatedPut (chunks : List Bytes) :
    Option (List (Sigma calls.Ret) × Except Exn PutResult × FileTree) :=
  (system anyFault).replay sampleChoice
    (sampleApp.driver.put pictureSlot.bucket pictureSlot.key (counted 3 chunks)
      (text "image/png") none none) 0 sampleTree

theorem gatedPut_runs {chunks : List Bytes}
    (h : gatedPut chunks = some (trace, o, fs)) :
    (system anyFault).machine.Runs sampleTree
      (sampleApp.driver.put pictureSlot.bucket pictureSlot.key
        (counted 3 chunks) (text "image/png") none none) trace o fs :=
  (system anyFault).replay_runs _ h

/-- Three bytes are stored, and the fourth is too much. -/
theorem size_gate_three :
    (exists trace result fs,
        gatedPut [[1, 2], [], [3]] = some (trace, Except.ok result, fs) ∧
        result.bytes = 3 ∧
        storedObject sampleApp.driver pictureSlot fs = some [1, 2, 3]) ∧
      exists trace fs,
        gatedPut [[1, 2], [], [3, 4]] =
          some (trace, Except.error (Exn.service payloadTooLarge), fs) ∧
        Unharmed sampleApp.driver sampleApp.settings sampleTree fs := by
  have hthree : (gatedPut [[1, 2], [], [3]]).map
      (fun run => failures run.1) = some [] := by decide +kernel
  have hfour : (gatedPut [[1, 2], [], [3, 4]]).map
      (fun run => failures run.1) = some [] := by decide +kernel
  rcases Option.map_eq_some_iff.mp hthree with ⟨⟨trace, o, fs⟩, hrun, hnone⟩
  rcases Option.map_eq_some_iff.mp hfour with
    ⟨⟨trace', o', fs'⟩, hrun', hnone'⟩
  have hgate : forall chunks, SizeGate sampleApp 3 chunks :=
    fun chunks => size_gate sampleApp (by omega) chunks
  have hvacant : Vacant sampleApp.driver pictureSlot sampleTree none := nofun
  have hstored := (hgate [[1, 2], [], [3]]).stored pictureSlot _ _ _ _ _ _ _
    sampleTree_fresh.sound hvacant (gatedPut_runs hrun) hnone (by decide)
  have hrefused := (hgate [[1, 2], [], [3, 4]]).refused pictureSlot _ _ _ _ _ _
    _ sampleTree_fresh.sound hvacant (gatedPut_runs hrun') hnone' (by decide)
  rcases hstored with ⟨⟨result, rfl, _, hbytes⟩, hobject⟩
  rcases hrefused with ⟨rfl, hunharmed⟩
  exact ⟨⟨trace, result, fs, hrun, hbytes, hobject⟩, trace', fs', hrun',
    hunharmed⟩

end StorybookStorage
