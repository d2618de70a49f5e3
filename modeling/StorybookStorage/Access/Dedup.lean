import StorybookStorage.Access.Requests
import StorybookStorage.Access.RoundTrip
import StorybookStorage.Store.Independence

/-!
# Dedup and head

A conditional put asks whether anything is at the object's place, `head` whether
a regular file is.  After a fault-free history they disagree exactly where a
directory lies at the place.
-/

namespace StorybookStorage

open Python Posix Effects Contract

def Found (info : Except Exn (Option ObjectInfo)) : Prop :=
  exists found, info = Except.ok (some found)

def Deduped (o : Except Exn PutResult) : Prop :=
  exists result, o = Except.ok result ∧ result.deduped = true

/-- What a client concludes from a conditional put: the flag, and the conflict
that `put_object` makes of it, say that `head` finds an object. -/
structure DedupSound (o : Except Exn PutResult)
    (created : Except Exn Response) (info : Except Exn (Option ObjectInfo)) :
    Prop where
  flag : Deduped o <-> Found info
  conflict : created = Except.error (Exn.service alreadyExists) -> Found info

section Answers

variable {settings : Settings} {d : LocalFsBlobDriver} {slot : Slot settings}
  {fs : FileTree} {data : Data} {o : Except Exn PutResult}
  {info : Except Exn (Option ObjectInfo)}

theorem HeadAnswer.found (h : HeadAnswer d slot fs info) :
    Found info <-> storedObject d slot fs ≠ none := by
  cases h with
  | absent hnone =>
      constructor
      · intro hfound
        rcases hfound with ⟨_, heq⟩
        cases heq
      · intro hsome
        exact absurd hnone hsome
  | present b found hb _ _ =>
      constructor
      · intro _
        rw [hb]
        simp
      · intro _
        exact ⟨found, rfl⟩

theorem PutAnswer.deduped
    (h : PutAnswer d slot fs data (some (text "*")) o) :
    Deduped o <-> fs.node (slot.objectLoc d.root) ≠ none := by
  cases h with
  | directory _ hdir =>
      constructor
      · intro _
        rw [hdir]
        simp
      · intro _
        exact ⟨_, rfl, rfl⟩
  | object b _ hb =>
      constructor
      · intro _ hnone
        rw [storedObject_of_none hnone] at hb
        cases hb
      · intro _
        exact ⟨_, rfl, rfl⟩
  | refused e hvacant _ =>
      constructor
      · intro hdeduped
        rcases hdeduped with ⟨_, heq, _⟩
        cases heq
      · intro hthere
        exact absurd (hvacant rfl) hthere
  | stored hvacant _ =>
      constructor
      · intro hdeduped
        rcases hdeduped with ⟨_, heq, hflag⟩
        cases heq
        cases hflag
      · intro hthere
        exact absurd (hvacant rfl) hthere

theorem thereness_iff :
    (fs.node (slot.objectLoc d.root) ≠ none <->
        storedObject d slot fs ≠ none) <->
      fs.node (slot.objectLoc d.root) ≠ some Node.dir := by
  constructor
  · intro h hdir
    exact h.mp (by rw [hdir]; simp) (storedObject_of_dir hdir)
  · intro hnodir
    constructor
    · intro hthere hnone
      exact hthere (node_none_of_empty hnodir hnone)
    · intro hobject hnone
      exact hobject (storedObject_of_none hnone)

end Answers

/-!
## The conflict of the route
-/

theorem translateOsError_service {e : Exn} {x : ServiceError}
    (h : LocalFsBlobDriver.translateOsError e = Exn.service x) :
    e = Exn.service x := by
  cases e with
  | os n => cases n <;> cases h
  | _ => exact h

theorem Refused.service {ι : Type} {K : Contract ι} {env : View -> View -> Prop}
    {root : Text} {p : Path} {source : Source} {v : View} {x : ServiceError}
    (h : Refused K env root p source v (Exn.service x)) :
    source.ending = some (Exn.service x) := by
  generalize he : Exn.service x = e at h
  cases h with
  | source e' hend =>
      rw [hend, ← he]
      exact congrArg some (translateOsError_service he.symm)
  | device n _ => cases translateOsError_service he.symm
  | unstaged n _ _ _ _ _ _ _ _ => cases translateOsError_service he.symm
  | blocked n _ _ _ _ _ _ => cases translateOsError_service he.symm
  | occupied n _ _ _ _ _ _ _ => cases translateOsError_service he.symm

variable {app : App} {slot : Slot app.settings} {fs fs' : FileTree}
  {trace : List (Sigma calls.Ret)} {headers : AuthHeaders}
  {contentType contentLength : Option Text} {body : Source}
  {created : Except Exn Response}

theorem serviceData_ending (h : body.ending ≠ some (Exn.service alreadyExists)) :
    (app.serviceData slot.key body).ending ≠
      some (Exn.service alreadyExists) := by
  intro hconflict
  rcases @countChunks_ending (resolveS2sCap app.settings slot.key) 0 body.ending
      body.chunks with hown | hlarge
  · exact h (hown.symm.trans hconflict)
  · cases congrArg ServiceError.code
      (Exn.service.inj (Option.some.inj (hlarge.symm.trans hconflict)))

/-- The route reports a conflict only where something is at the place. -/
theorem Kempt.conflict (hkempt : Kempt app.driver app.settings fs)
    (hbody : body.ending ≠ some (Exn.service alreadyExists))
    (hrun : (system noFault).machine.Runs fs
      (app.putObject headers slot.bucket slot.key contentType contentLength
        false body) trace created fs')
    (hconflict : created = Except.error (Exn.service alreadyExists)) :
    fs.node (slot.objectLoc app.driver.root) ≠ none := by
  rcases App.putObject_runs hrun with
    ⟨e, hturned, hother⟩ | ⟨slot', principal, o, hbucket, hkey, hreaches⟩
  · cases hturned.raised.symm.trans hconflict
    exact absurd rfl hother
  · obtain rfl : slot' = slot := Slot.ext hbucket hkey
    have hanswer := hreaches.answer.symm.trans hconflict
    have hput := hkempt.put_answer hreaches.run
    cases o with
    | ok result =>
        apply hput.deduped.mp
        exact ⟨result, rfl, App.putAnswer_deduped hanswer⟩
    | error e =>
        cases hanswer
        exfalso
        have heffect := (put_runs solo_noFault hkempt.sound hreaches.run).right
        generalize (staging app.driver.root).view fs' = after at heffect
        generalize sights trace = seen at heffect
        generalize ho : (Except.error (Exn.service alreadyExists) :
          Except Exn PutResult) = o at heffect
        cases heffect with
        | met info more _ hthere hheads _ =>
            cases hkempt.head_answer hheads with
            | absent _ => cases ho
            | present _ _ _ _ _ => cases ho
        | refused e v' more _ hrefused _ _ =>
            cases ho
            have hend := hrefused.service
            rw [asAiter_ending] at hend
            exact serviceData_ending hbody hend
        | stored v1 v' more _ _ _ _ _ => cases ho

/-!
## After a history
-/

theorem dedup_sound_iff {fs1 gs hs is : FileTree}
    {turns : List (MutationTurn app.settings)} {data : Data}
    {mime : Text} {metadata : Option Metadata}
    {o : Except Exn PutResult} {info : Except Exn (Option ObjectInfo)}
    {trace1 trace2 trace3 : List (Sigma calls.Ret)}
    (hfresh : Fresh app.driver.root fs)
    (hturns : Histories app.driver noFault (fun _ _ => True) fs turns fs1)
    (hput : (system noFault).machine.Runs fs1
      (app.driver.put slot.bucket slot.key data mime (some (text "*"))
        metadata) trace1 o gs)
    (hbody : body.ending ≠ some (Exn.service alreadyExists))
    (hcreate : (system noFault).machine.Runs fs1
      (app.putObject headers slot.bucket slot.key contentType contentLength
        false body) trace2 created hs)
    (hhead : (system noFault).machine.Runs fs1
      (app.driver.head slot.bucket slot.key) trace3 info is) :
    DedupSound o created info <->
      fs1.node (slot.objectLoc app.driver.root) ≠ some Node.dir := by
  have hkempt := hfresh.kempt.history hturns
  have hflag := (hkempt.put_answer hput).deduped
  have hfound := (hkempt.head_answer
    (head_runs solo_noFault hkempt.sound hhead).right.right).found
  have hsame := @thereness_iff _ app.driver slot fs1
  constructor
  · intro h
    apply hsame.mp
    rw [← hflag, ← hfound]
    exact h.flag
  · intro hnodir
    have hthere := hsame.mpr hnodir
    constructor
    · rw [hflag, hfound]
      exact hthere
    · intro hconflict
      exact hfound.mpr
        (hthere.mp (hkempt.conflict hbody hcreate hconflict))

/-!
## Asking three times
-/

def sampleBody : Source where
  chunks := [[2]]
  ending := none

def putOnce (slot : Slot sampleApp.settings) : Io PutResult :=
  sampleApp.driver.put slot.bucket slot.key (sampleSource [[2]])
    (text "image/png") (some (text "*")) none

def createOnce (slot : Slot sampleApp.settings) : Io Response :=
  sampleApp.putObject serviceHeaders slot.bucket slot.key
    (some (text "image/png")) none false sampleBody

def lookUp (slot : Slot sampleApp.settings) : Io (Option ObjectInfo) :=
  sampleApp.driver.head slot.bucket slot.key

theorem sampleApp_driver : sampleApp.driver = sampleDriver := rfl

theorem leftDirectory_served :
    Fresh sampleApp.driver.root sampleTree ∧
      Histories sampleApp.driver noFault
        (fun _ (_ : MutationTurn sampleApp.settings) => True) sampleTree
        leftDirectory.1 leftDirectory.2 := by
  rw [sampleApp_driver]
  exact ⟨sampleTree_fresh, leftDirectory_history⟩

/-- After the history that leaves a directory, the three agree about another
key. -/
theorem dedup_sound_iff_otherKey :
    exists run1 run2 run3,
      answerOf (putOnce pictureSlot) leftDirectory.2 = some run1 ∧
      answerOf (createOnce pictureSlot) leftDirectory.2 = some run2 ∧
      answerOf (lookUp pictureSlot) leftDirectory.2 = some run3 ∧
      DedupSound run1.2.1 run2.2.1 run3.2.1 := by
  have hends :
      (answerOf (putOnce pictureSlot) leftDirectory.2).isSome = true ∧
      (answerOf (createOnce pictureSlot) leftDirectory.2).isSome = true ∧
      (answerOf (lookUp pictureSlot) leftDirectory.2).isSome = true := by
    decide +kernel
  have hplace : leftDirectory.2.node
      (pictureSlot.objectLoc sampleApp.driver.root) ≠ some Node.dir := by
    decide +kernel
  rcases Option.isSome_iff_exists.mp hends.left with ⟨run1, hput⟩
  rcases Option.isSome_iff_exists.mp hends.right.left with ⟨run2, hcreate⟩
  rcases Option.isSome_iff_exists.mp hends.right.right with ⟨run3, hhead⟩
  refine ⟨run1, run2, run3, hput, hcreate, hhead, ?_⟩
  have hbody : sampleBody.ending ≠ some (Exn.service alreadyExists) :=
    fun h => nomatch h
  exact (dedup_sound_iff leftDirectory_served.left leftDirectory_served.right
    (answerOf_runs hput) hbody (answerOf_runs hcreate)
    (answerOf_runs hhead)).mpr hplace

/-- The directory itself is a conflict that nobody can read back. -/
theorem leftDirectory_conflicts :
    Histories sampleApp.driver noFault (fun _ _ => True) sampleTree
        leftDirectory.1 leftDirectory.2 ∧
      exists run1 run2 run3,
        answerOf (putOnce folderSlot) leftDirectory.2 = some run1 ∧
        answerOf (createOnce folderSlot) leftDirectory.2 = some run2 ∧
        answerOf (lookUp folderSlot) leftDirectory.2 = some run3 ∧
        outcomeStatus run2.2.1 = 409 ∧
        run3.2.1.toOption = some none ∧
        ¬ DedupSound run1.2.1 run2.2.1 run3.2.1 := by
  refine ⟨leftDirectory_served.right, ?_⟩
  have hends :
      (answerOf (putOnce folderSlot) leftDirectory.2).map
          (fun r => r.2.1.toOption.map PutResult.deduped) = some (some true) ∧
      (answerOf (createOnce folderSlot) leftDirectory.2).map
          (fun r => outcomeStatus r.2.1) = some 409 ∧
      (answerOf (lookUp folderSlot) leftDirectory.2).map
          (fun r => r.2.1.toOption.map Option.isSome) = some (some false) := by
    decide +kernel
  rcases Option.map_eq_some_iff.mp hends.left with
    ⟨⟨trace1, o, fs1⟩, hput, hdeduped⟩
  rcases Option.map_eq_some_iff.mp hends.right.left with
    ⟨run2, hcreate, hconflict⟩
  rcases Option.map_eq_some_iff.mp hends.right.right with
    ⟨⟨trace3, info, fs3⟩, hhead, habsent⟩
  refine ⟨_, run2, _, hput, hcreate, hhead, hconflict, ?_, ?_⟩
  · cases info with
    | error e => cases habsent
    | ok found =>
        cases found with
        | none => rfl
        | some found => cases habsent
  · intro h
    cases o with
    | error e => cases hdeduped
    | ok result =>
        rcases h.flag.mp ⟨result, rfl, Option.some.inj hdeduped⟩ with
          ⟨found, heq⟩
        cases heq
        cases habsent

end StorybookStorage
