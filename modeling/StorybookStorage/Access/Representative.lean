import StorybookStorage.Access.NonInterference
import StorybookStorage.Routers.Routes
import StorybookStorage.Store.Interchange

/-!
# The service on the in-memory driver

The tests of the routers replace the local driver by the in-memory one.  That is
representative: whatever sequence of requests on amicable keys a service answers
on an empty disk, the routes over the empty in-memory driver may answer so, too.
-/

namespace StorybookStorage

open Python Posix Effects

variable {app : App} {S : Slot app.settings -> Prop} {pulls : Nat}
  {α β : Type} {P : BlobVerb -> Prop}

/-!
## What the routes ask of a driver
-/

/-- A body the client could take back whole, that fails with no `OSError`. -/
structure Fits (pulls : Nat) (source : Source) : Prop where
  short : source.chunks.flatten.length < pulls
  ending : forall n, source.ending ≠ some (Exn.os n)

/-- A put or an upload keeps to the amicable slots. -/
structure Friendly (S : Slot app.settings -> Prop) (pulls : Nat)
    (bucket key : Text) (source : Source) : Prop where
  slots : forall slot : Slot app.settings, slot.bucket = bucket ->
    slot.key = key -> S slot
  fits : Fits pulls source

inductive Polite (app : App) (S : Slot app.settings -> Prop) (pulls : Nat) :
    Request -> Prop where
  | putObject (headers : AuthHeaders) (bucket key : Text)
      (contentType contentLength : Option Text) (upsert : Bool)
      (body : Source) : Friendly S pulls bucket key body ->
      Polite app S pulls
        (Request.putObject headers bucket key contentType contentLength upsert
          body)
  | createUpload (headers : AuthHeaders) (bucket key : Text)
      (file : UploadFile) : Friendly S pulls bucket key file.reads ->
      Polite app S pulls (Request.createUpload headers bucket key file)
  | deleteObject (headers : AuthHeaders) (bucket key : Text) :
      Polite app S pulls (Request.deleteObject headers bucket key)
  | headObject (headers : AuthHeaders) (bucket key : Text) :
      Polite app S pulls (Request.headObject headers bucket key)
  | createSignedUrl (headers : AuthHeaders) (payload : SignRequest) :
      Polite app S pulls (Request.createSignedUrl headers payload)
  | signedGet (bucket key : Text) (exp : Int) (sig : Text) :
      Polite app S pulls (Request.signedGet bucket key exp sig)

theorem length_countChunks_le {cap total : Int} {ending : Option Exn}
    {chunks : List Bytes} :
    (countChunks cap ending chunks total).chunks.flatten.length ≤
      chunks.flatten.length := by
  induction chunks generalizing total with
  | nil => exact le_refl _
  | cons chunk rest ih =>
      unfold countChunks
      split
      · exact Nat.zero_le _
      · rw [List.flatten_cons, List.flatten_cons, List.length_append,
          List.length_append]
        exact Nat.add_le_add_left ih _

theorem Fits.counted {source : Source} (h : Fits pulls source) (cap : Int) :
    (Data.stream (countingStream source cap)).body.length < pulls ∧
      forall n, (Data.stream (countingStream source cap)).ending ≠
        some (Exn.os n) := by
  refine ⟨lt_of_le_of_lt length_countChunks_le h.short, ?_⟩
  intro n hos
  have hending : (Data.stream (countingStream source cap)).ending =
      source.ending ∨
      (Data.stream (countingStream source cap)).ending =
        some (Exn.service payloadTooLarge) := countChunks_ending
  rcases hending with hsame | htoo
  · exact h.ending n (hsame.symm.trans hos)
  · cases htoo.symm.trans hos

theorem Fits.uploadIter {reads : Source} (h : Fits pulls reads) :
    Fits pulls (uploadIter reads) where
  short := by
    have htaken : (reads.chunks.takeWhile
        (fun c => decide (c ≠ []))).flatten.length ≤
          reads.chunks.flatten.length := by
      have hsplit := congrArg (fun l => (List.flatten l).length)
        (List.takeWhile_append_dropWhile (l := reads.chunks)
          (p := fun c => decide (c ≠ [])))
      simp only [List.flatten_append, List.length_append] at hsplit
      omega
    exact lt_of_le_of_lt htaken h.short
  ending := by
    intro n
    unfold StorybookStorage.uploadIter
    dsimp only
    split
    · exact fun h => nomatch h
    · exact h.ending n

theorem issues_checked_bind {r : Except ServiceError β} {f : β -> Blob α}
    (h : forall a, r = Except.ok a -> (f a).Issues P) :
    (Blob.checked r >>= f).Issues P := by
  cases r with
  | ok a => exact h a rfl
  | error e => exact Prog.issues_raise _

variable {headers : AuthHeaders} {bucket key : Text}

theorem putObject_issues {contentType contentLength : Option Text}
    {upsert : Bool} {body : Source} (h : Friendly S pulls bucket key body) :
    (App.Route.putObject app headers bucket key contentType contentLength upsert
      body).Issues (Admissible S pulls) := by
  unfold App.Route.putObject
  apply issues_checked_bind
  intro principal _
  apply issues_checked_bind
  intro _ hgrammar
  dsimp only
  split
  · exact Prog.issues_raise _
  · rename_i htyped
    cases app.declaredLength (resolveS2sCap app.settings key) contentLength with
    | error e => exact Prog.issues_raise _
    | ok _ =>
        rcases h.fits.counted (resolveS2sCap app.settings key) with
          ⟨hshort, hending⟩
        refine issues_ask_bind (Admissible.put ⟨bucket, key, hgrammar⟩ _ _ _ _
          (h.slots _ rfl rfl) htyped hshort hending) ?_
        intro result
        split
        · exact Prog.issues_raise _
        · exact Prog.issues_pure _

theorem createUpload_issues {file : UploadFile}
    (h : Friendly S pulls bucket key file.reads) :
    (App.Route.createUpload app headers bucket key file).Issues
      (Admissible S pulls) := by
  unfold App.Route.createUpload
  apply issues_checked_bind
  intro principal _
  apply issues_checked_bind
  intro _ hgrammar
  apply issues_checked_bind
  intro cap _
  dsimp only
  rcases h.fits.uploadIter.counted cap with ⟨hshort, hending⟩
  refine issues_ask_bind (Admissible.put
    ⟨bucket, key, KeyGrammar.validate_mono hgrammar⟩ _ _ _ _
    (h.slots _ rfl rfl) ?_ hshort hending) fun result => Prog.issues_pure _
  split
  · decide
  · assumption

theorem deleteObject_issues :
    (App.Route.deleteObject app headers bucket key).Issues
      (Admissible S pulls) := by
  unfold App.Route.deleteObject
  apply issues_checked_bind
  intro principal _
  apply issues_checked_bind
  intro _ hgrammar
  have hdelete : (do
      let deleted ← Blob.ask (BlobVerb.delete bucket key)
      pure (RouteAnswer.plain (Response.deleted deleted)) :
        Blob RouteAnswer).Issues (Admissible S pulls) :=
    issues_ask_bind
      (Admissible.delete ⟨bucket, key, KeyGrammar.validate_mono hgrammar⟩)
      fun deleted => Prog.issues_pure _
  split
  · exact issues_checked_bind fun _ _ => hdelete
  · exact hdelete

theorem headObject_issues :
    (App.Route.headObject app headers bucket key).Issues
      (Admissible S pulls) := by
  unfold App.Route.headObject
  apply issues_checked_bind
  intro principal _
  apply issues_checked_bind
  intro _ hgrammar
  refine issues_ask_bind (Admissible.head ⟨bucket, key, hgrammar⟩) ?_
  intro info
  cases info with
  | none => exact Prog.issues_raise _
  | some found => exact Prog.issues_pure _

theorem createSignedUrl_issues {payload : SignRequest} :
    (App.Route.createSignedUrl app headers payload).Issues
      (Admissible S pulls) := by
  unfold App.Route.createSignedUrl
  apply issues_checked_bind
  intro principal _
  apply issues_checked_bind
  intro _ _
  refine issues_ask_bind (Admissible.presignGet _ _ _) ?_
  intro signedUrl
  exact issues_ask_bind Admissible.time fun now => Prog.issues_pure _

theorem signedGet_issues {exp : Int} {sig : Text} :
    (App.Route.signedGet app bucket key exp sig).Issues
      (Admissible S pulls) := by
  unfold App.Route.signedGet
  apply issues_checked_bind
  intro _ hgrammar
  refine issues_ask_bind Admissible.time ?_
  intro now
  cases Signing.verifyAt app.platform app.settings.storageSignSecret bucket key
      exp sig (intOfRat now) with
  | error e => exact Prog.issues_raise _
  | ok valid =>
      cases valid with
      | false => exact Prog.issues_raise _
      | true =>
          show (App.Route.serve app bucket key).Issues _
          unfold App.Route.serve
          split
          · refine issues_ask_bind (Admissible.get
              ⟨bucket, key, KeyGrammar.validate_mono hgrammar⟩) ?_
            intro body
            cases body with
            | none => exact Prog.issues_raise _
            | some bytes => exact Prog.issues_pure _
          · exact Prog.issues_pure _

/-- Polite requests keep to the admissible verbs. -/
theorem Polite.issues {request : Request} (h : Polite app S pulls request) :
    (app.route request).Issues (Admissible S pulls) := by
  cases h with
  | putObject headers bucket key _ _ _ _ hfriendly =>
      exact putObject_issues hfriendly
  | createUpload headers bucket key _ hfriendly =>
      exact createUpload_issues hfriendly
  | deleteObject headers bucket key => exact deleteObject_issues
  | headObject headers bucket key => exact headObject_issues
  | createSignedUrl headers payload => exact createSignedUrl_issues
  | signedGet bucket key exp sig => exact signedGet_issues

/-!
## Whole sequences of requests
-/

abbrev AnswerTurn := Turn calls Request Exn RouteAnswer

abbrev Sessions (app : App) (S : Slot app.settings -> Prop) (pulls : Nat) :=
  History (system noFault).machine (app.deliver pulls)
    (fun _ (turn : AnswerTurn) => Polite app S pulls turn.tag)

abbrev FakeSessions (app : App) :=
  History (FakeBlobDriver.machine app.platform) app.route fun _ _ => True

/-- Every sequence of polite requests to a service on an empty disk gets
answers that the routes over the empty in-memory driver may give, and leaves the
objects the in-memory driver has then. -/
theorem responses_as_fake (hamicable : Amicable S) (buckets : List Text)
    (hbuckets : forall b, b ∈ buckets -> Plain b ∧ b ≠ tmpDir)
    {fs' : FileTree} {turns : List AnswerTurn}
    (h : Sessions app S pulls (freshTree app.driver.root buckets) turns fs') :
    exists turns' f', FakeSessions app (FakeBlobDriver.like app.driver) turns'
        f' ∧
      turns'.map Turn.answered = turns.map Turn.answered ∧
      Shelved app.driver S pulls fs' f' := by
  have hinline : app.deliver pulls = fun request =>
      (app.driver.verbs pulls).inline (app.route request) :=
    funext (deliver_eq_inline app pulls)
  unfold Sessions at h
  rw [hinline] at h
  rcases Jobs.component_history (fun _ _ hpolite => hpolite.issues) h with
    ⟨turns', hcomponent, hsame⟩
  rcases (verbs_simulate hamicable).history (freshTree_shelved hbuckets)
    hcomponent with ⟨f', hfake, hshelved⟩
  exact ⟨turns', f', hfake, hsame, hshelved⟩

def pictureRequests : List Request :=
  [ serviceCreates "a.png",
    serviceCreates "d.x/a.png",
    Request.deleteObject serviceHeaders (text "assets") (text "a.png"),
    serviceCreates "a.png" ]

def pictureTurns : List AnswerTurn × FileTree :=
  (system noFault).replayFrom sampleChoice (sampleApp.deliver 4)
    (fun _ _ => True) sampleTree pictureRequests

theorem pictureRequests_polite {request : Request}
    (h : request ∈ pictureRequests) :
    Polite sampleApp twoPictures 4 request := by
  have hput : Polite sampleApp twoPictures 4 (serviceCreates "a.png") :=
    Polite.putObject _ _ _ _ _ _ _
      { slots := fun slot hbucket hkey => Or.inl (Slot.ext hbucket hkey)
        fits := ⟨by decide, fun n hn => nomatch hn⟩ }
  have hnested : Polite sampleApp twoPictures 4 (serviceCreates "d.x/a.png") :=
    Polite.putObject _ _ _ _ _ _ _
      { slots := fun slot hbucket hkey => Or.inr (Slot.ext hbucket hkey)
        fits := ⟨by decide, fun n hn => nomatch hn⟩ }
  rcases List.mem_cons.mp h with rfl | h
  · exact hput
  rcases List.mem_cons.mp h with rfl | h
  · exact hnested
  rcases List.mem_cons.mp h with rfl | h
  · exact Polite.deleteObject _ _ _
  · rw [List.mem_singleton.mp h]
    exact hput

theorem pictureTurns_tags : pictureTurns.1.map Turn.tag = pictureRequests :=
  (system noFault).replayFrom_tags _ _ _ (by decide +kernel)

theorem pictureTurns_sessions :
    Sessions sampleApp twoPictures 4 sampleTree pictureTurns.1
      pictureTurns.2 := by
  have hreplayed := (system noFault).replayFrom_history sampleChoice
    (sampleApp.deliver 4) (fun _ _ => True) sampleTree pictureRequests
  apply hreplayed.meet
  intro turn hturn _
  apply pictureRequests_polite
  rw [← pictureTurns_tags]
  exact List.mem_map_of_mem hturn

theorem responses_as_fake_picture :
    pictureTurns.1.map Turn.tag = pictureRequests ∧
      exists turns' f', FakeSessions sampleApp
          (FakeBlobDriver.like sampleApp.driver) turns' f' ∧
        turns'.map Turn.answered = pictureTurns.1.map Turn.answered ∧
        Shelved sampleApp.driver twoPictures 4 pictureTurns.2 f' :=
  ⟨pictureTurns_tags, responses_as_fake twoPictures_amicable [text "assets"]
    (by decide) pictureTurns_sessions⟩

end StorybookStorage
