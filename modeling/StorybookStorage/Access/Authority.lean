import StorybookStorage.Access.Requests
import StorybookStorage.Access.SignedUrls
import StorybookStorage.Store.Upkeep

/-!
# Who may write

Nobody without an API key changes a file under a service-only prefix or of a
rendition key, and nobody without an accepted token either changes any file.
-/

namespace StorybookStorage

open Python Posix Effects Contract

/-- The credentials a request carries.  A signed URL has none. -/
def Request.headers : Request -> AuthHeaders
  | Request.putObject headers _ _ _ _ _ _ => headers
  | Request.createUpload headers _ _ _ => headers
  | Request.deleteObject headers _ _ => headers
  | Request.headObject headers _ _ => headers
  | Request.createSignedUrl headers _ => headers
  | Request.signedGet _ _ _ _ => { xApiKey := none, credentials := none }

/-- A request, and how much of a streamed answer the client takes. -/
structure Exchange where
  request : Request
  pulls : Nat

/-- The server sends the chunks of a streamed answer after the handler has
returned. -/
def finish (pulls : Nat) (response : Response) : Io Response :=
  match response with
  | Response.streaming body => do
      let _ ← body.consume pulls []
      pure response
  | _ => pure response

def App.exchange (app : App) (x : Exchange) : Io Response := do
  let response ← app.handle x.request
  finish x.pulls response

def Reserved (settings : Settings) (key : Text) : Prop :=
  '@' ∈ key ∨ exists pre, pre ∈ settings.serviceOnlyPrefixes ∧ pre <+: key

section Kept

variable {settings : Settings} (d : LocalFsBlobDriver)

structure Kept (slot : Slot settings) (fs fs' : FileTree) : Prop where
  object : storedObject d slot fs' = storedObject d slot fs
  sidecar : storedSidecar d slot fs' = storedSidecar d slot fs

variable {d} {slot : Slot settings} {fs fs1 fs' : FileTree}

theorem Kept.refl (slot : Slot settings) (fs : FileTree) : Kept d slot fs fs where
  object := rfl
  sidecar := rfl

theorem Kept.trans (h : Kept d slot fs fs1) (h' : Kept d slot fs1 fs') :
    Kept d slot fs fs' where
  object := h'.object.trans h.object
  sidecar := h'.sidecar.trans h.sidecar

theorem kept_of_view
    (h : (staging d.root).view fs' = (staging d.root).view fs) :
    Kept d slot fs fs' where
  object := by rw [← fileAt_object, ← fileAt_object, h]
  sidecar := by rw [← fileAt_sidecar, ← fileAt_sidecar, h]

theorem Mutation.run_kept {m : Mutation settings} {allow : Policy}
    {faults : Prop} {trace : List (Sigma calls.Ret)} {o : Except Exn Reply}
    (hallow : (solo d faults).Admits allow) (hsound : fs.Sound)
    (hrun : (system allow).machine.Runs fs (m.run d) trace o fs')
    (hne : slot ≠ m.slot) : Kept d slot fs fs' := by
  have hchanged := (Mutation.run_changed hallow hsound hrun).right
  rcases hchanged.others hne with ⟨hobject, hsidecar⟩
  constructor
  · rw [← fileAt_object, hobject, fileAt_object]
  · rw [← fileAt_sidecar, hsidecar, fileAt_sidecar]

end Kept

/-!
## One request
-/

/-- What a request without an API key may have done when its handler
returned. -/
structure Handled (app : App) (headers : AuthHeaders) (fs fs' : FileTree)
    (o : Except Exn Response) : Prop where
  sound : fs'.Sound
  kept : forall slot : Slot app.settings, Kept app.driver slot fs fs' ∨
    CarriesToken app.platform headers ∧ ¬ Reserved app.settings slot.key
  /-- A streamed answer is an object not yet opened. -/
  streams : forall body, o = Except.ok (Response.streaming body) ->
    exists slot : Slot app.settings, body =
      LocalFsBlobDriver.Stream.fresh (slot.objectText app.driver.root)

section Handlers

variable {app : App} {headers : AuthHeaders} {fs fs' : FileTree}
  {trace : List (Sigma calls.Ret)} {o : Except Exn Response}
  {bucket key : Text} {allow : Policy} {faults : Prop}

theorem Turned.handled {e : Exn} (hsound : fs.Sound)
    (h : Turned fs fs' trace o e) : Handled app headers fs fs' o where
  sound := by
    rw [h.same]
    exact hsound
  kept := by
    intro slot
    rw [h.same]
    exact Or.inl (Kept.refl slot fs)
  streams := by
    intro body ho
    rw [h.raised] at ho
    cases ho

theorem not_reserved {slot : Slot app.settings}
    (hnarrow : KeyGrammar.validate app.settings slot.bucket slot.key false =
      Except.ok ())
    (hwritable : checkUserWritable app.settings slot.key = Except.ok ()) :
    ¬ Reserved app.settings slot.key := by
  intro h
  rcases h with hat | ⟨pre, hpre, hprefix⟩
  · exact (KeyGrammar.validate_narrow_iff slot.accepted).mp hnarrow hat
  · exact checkUserWritable_ok.mp hwritable pre hpre hprefix

theorem checkUserUpload_writable {slot : Slot app.settings}
    {contentType : Option Text} {size : Option Int} {cap : Int}
    (h : checkUserUpload app.platform app.settings slot.key contentType size =
      Except.ok cap) :
    checkUserWritable app.settings slot.key = Except.ok () := by
  unfold checkUserUpload at h
  split at h
  · cases h
  · assumption

theorem handled_mutation {m : Mutation app.settings} {o' : Except Exn Reply}
    (hallow : (solo app.driver faults).Admits allow) (hsound : fs.Sound)
    (hrun : (system allow).machine.Runs fs (m.run app.driver) trace o' fs')
    (htoken : CarriesToken app.platform headers)
    (hfree : ¬ Reserved app.settings m.slot.key)
    (hstreams : forall body, o ≠ Except.ok (Response.streaming body)) :
    Handled app headers fs fs' o where
  sound := (Mutation.run_changed hallow hsound hrun).left
  kept := by
    intro slot
    rcases eq_or_ne slot m.slot with rfl | hne
    · exact Or.inr ⟨htoken, hfree⟩
    · exact Or.inl (Mutation.run_kept hallow hsound hrun hne)
  streams := fun body ho => absurd ho (hstreams body)

theorem App.putObject_handled {contentType contentLength : Option Text}
    {upsert : Bool} {body : Source} (hsound : fs.Sound)
    (hkey : ¬ ShowsApiKey app.settings headers)
    (hrun : (system allow).machine.Runs fs
      (app.putObject headers bucket key contentType contentLength upsert body)
      trace o fs') : Handled app headers fs fs' o := by
  rcases App.putObject_runs hrun with
    ⟨e, hturned, _⟩ | ⟨slot, principal, o', _, _, hreaches⟩
  · exact hturned.handled hsound
  · exact absurd (requireApiKey_ok hreaches.authentic) hkey

theorem App.createUpload_handled {file : UploadFile}
    (hallow : (solo app.driver faults).Admits allow) (hsound : fs.Sound)
    (hrun : (system allow).machine.Runs fs
      (app.createUpload headers bucket key file) trace o fs') :
    Handled app headers fs fs' o := by
  rcases App.createUpload_runs hrun with
    ⟨e, hturned⟩ | ⟨slot, principal, cap, o', _, _, hreaches⟩
  · exact hturned.handled hsound
  · have hfree := not_reserved hreaches.narrow
      (checkUserUpload_writable hreaches.allowed)
    have hmutation := hreaches.run.map Reply.put
    apply handled_mutation (m := Mutation.put slot _ _ _ _) hallow hsound
      hmutation (requireUserJwt_ok hreaches.authentic).right hfree
    intro body ho
    rw [hreaches.answer] at ho
    cases o' with
    | error e => cases ho
    | ok result => cases ho

theorem App.deleteObject_handled
    (hallow : (solo app.driver faults).Admits allow) (hsound : fs.Sound)
    (hkey : ¬ ShowsApiKey app.settings headers)
    (hrun : (system allow).machine.Runs fs
      (app.deleteObject headers bucket key) trace o fs') :
    Handled app headers fs fs' o := by
  rcases App.deleteObject_runs hrun with
    ⟨e, hturned⟩ | ⟨slot, principal, o', _, _, hreaches⟩
  · exact hturned.handled hsound
  · rcases (requireApiKeyOrUserJwt_ok hreaches.authentic).resolve_left hkey with
      ⟨huser, htoken⟩
    have hfree := not_reserved (hreaches.narrow huser) (hreaches.writable huser)
    have hmutation := hreaches.run.map Reply.delete
    apply handled_mutation (m := Mutation.delete slot) hallow hsound hmutation
      htoken hfree
    intro body ho
    rw [hreaches.answer] at ho
    cases o' with
    | error e => cases ho
    | ok existed => cases ho

theorem App.headObject_handled
    (hallow : (solo app.driver faults).Admits allow) (hsound : fs.Sound)
    (hrun : (system allow).machine.Runs fs
      (app.headObject headers bucket key) trace o fs') :
    Handled app headers fs fs' o := by
  rcases App.headObject_runs hrun with
    ⟨e, hturned⟩ | ⟨slot, o', _, _, hreaches⟩
  · exact hturned.handled hsound
  · rcases head_runs hallow hsound hreaches.run with ⟨hsound', hview, _⟩
    refine ⟨hsound', fun slot => Or.inl (kept_of_view hview), ?_⟩
    intro body ho
    rw [hreaches.answer] at ho
    cases o' with
    | error e => cases ho
    | ok info =>
        cases info with
        | none => cases ho
        | some found => cases ho

theorem handled_of_quiet {p : Io Response}
    (hallow : (solo app.driver faults).Admits allow) (hsound : fs.Sound)
    (hrun : (system allow).machine.Runs fs p trace o fs')
    (hquiet : forall v, ((solo app.driver faults).machine () Eq).wp p
      (fun o s => s.view = v ∧
        forall body, o = Except.ok (Response.streaming body) ->
          exists slot : Slot app.settings, body =
            LocalFsBlobDriver.Stream.fresh (slot.objectText app.driver.root))
      ⟨v, Hold.idle, []⟩) :
    Handled app headers fs fs' o := by
  rcases adequate_alone () hallow hsound hrun (hquiet _) with
    ⟨hsound', _, hview, hstreams⟩
  exact ⟨hsound', fun slot => Or.inl (kept_of_view hview), hstreams⟩

theorem App.createSignedUrl_handled {payload : SignRequest}
    (hallow : (solo app.driver faults).Admits allow) (hsound : fs.Sound)
    (hrun : (system allow).machine.Runs fs
      (app.createSignedUrl headers payload) trace o fs') :
    Handled app headers fs fs' o := by
  unfold App.createSignedUrl at hrun
  rcases checked_runs hrun with ⟨_, _, hrun⟩ | ⟨e, _, hquiet, hsame, ho⟩
  · rcases checked_runs hrun with ⟨_, _, hrun⟩ | ⟨e, _, hquiet, hsame, ho⟩
    · apply handled_of_quiet hallow hsound hrun
      intro v
      unfold LocalFsBlobDriver.presignGet
      rw [bind_assoc, Machine.wp_bind]
      apply wp_time
      intro now v1 h1
      show ((solo app.driver faults).machine () Eq).wp (Os.time >>= fun _ => _)
        _ _
      rw [Machine.wp_bind]
      apply wp_time
      intro now' v2 h2
      refine ⟨h2.symm.trans h1.symm, ?_⟩
      intro body ho
      cases ho
    · exact Turned.handled hsound ⟨hquiet, hsame, ho⟩
  · exact Turned.handled hsound ⟨hquiet, hsame, ho⟩

theorem wp_serve (slot : Slot app.settings) (v : View) :
    ((solo app.driver faults).machine () Eq).wp
      (app.serve slot.bucket slot.key)
      (fun o s => s.view = v ∧
        forall body, o = Except.ok (Response.streaming body) ->
          exists slot : Slot app.settings, body =
            LocalFsBlobDriver.Stream.fresh (slot.objectText app.driver.root))
      ⟨v, Hold.idle, []⟩ := by
  unfold App.serve
  split
  · unfold LocalFsBlobDriver.get
    rw [slot.objectPath_ok, Machine.wp_bind]
    show ((solo app.driver faults).machine () Eq).wp (Os.isfile _ >>= fun _ => _)
      _ _
    rw [Machine.wp_bind]
    apply wp_isfile
    intro regular v1 h1 _
    cases regular with
    | false => exact ⟨h1.symm, fun body ho => nomatch ho⟩
    | true =>
        refine ⟨h1.symm, ?_⟩
        intro body ho
        cases ho
        exact ⟨slot, rfl⟩
  · exact ⟨rfl, fun body ho => nomatch ho⟩

theorem App.signedGet_handled {exp : Int} {sig : Text}
    (hallow : (solo app.driver faults).Admits allow) (hsound : fs.Sound)
    (hrun : (system allow).machine.Runs fs
      (app.signedGet bucket key exp sig) trace o fs') :
    Handled app headers fs fs' o := by
  unfold App.signedGet at hrun
  rcases checked_runs hrun with ⟨_, hgrammar, hrun⟩ | ⟨e, _, hquiet, hsame, ho⟩
  · apply handled_of_quiet hallow hsound hrun
    intro v
    unfold Signing.verify
    rw [bind_assoc, Machine.wp_bind]
    apply wp_time
    intro now v1 h1
    dsimp only
    rw [Machine.wp_bind, Machine.wp_ofExcept]
    cases Signing.verifyAt app.platform app.settings.storageSignSecret bucket
        key exp sig (intOfRat now) with
    | error e => exact ⟨h1.symm, fun body ho => nomatch ho⟩
    | ok valid =>
        cases valid with
        | false => exact ⟨h1.symm, fun body ho => nomatch ho⟩
        | true =>
            cases h1
            exact wp_serve
              ⟨bucket, key, KeyGrammar.validate_mono hgrammar⟩ v
  · exact Turned.handled hsound ⟨hquiet, hsame, ho⟩

theorem App.handle_handled {request : Request}
    (hallow : (solo app.driver faults).Admits allow) (hsound : fs.Sound)
    (hkey : ¬ ShowsApiKey app.settings request.headers)
    (hrun : (system allow).machine.Runs fs (app.handle request) trace o fs') :
    Handled app request.headers fs fs' o := by
  cases request with
  | putObject headers bucket key contentType contentLength upsert body =>
      exact App.putObject_handled hsound hkey hrun
  | createUpload headers bucket key file =>
      exact App.createUpload_handled hallow hsound hrun
  | deleteObject headers bucket key =>
      exact App.deleteObject_handled hallow hsound hkey hrun
  | headObject headers bucket key =>
      exact App.headObject_handled hallow hsound hrun
  | createSignedUrl headers payload =>
      exact App.createSignedUrl_handled hallow hsound hrun
  | signedGet bucket key exp sig =>
      exact App.signedGet_handled hallow hsound hrun

theorem finish_runs {pulls : Nat} {response : Response}
    (hallow : (solo app.driver faults).Admits allow) (hsound : fs.Sound)
    (hstreams : forall body, response = Response.streaming body ->
      exists slot : Slot app.settings, body =
        LocalFsBlobDriver.Stream.fresh (slot.objectText app.driver.root))
    (hrun : (system allow).machine.Runs fs (finish pulls response) trace o
      fs') :
    fs'.Sound ∧ (staging app.driver.root).view fs' =
      (staging app.driver.root).view fs := by
  cases response with
  | streaming body =>
      rcases hstreams body rfl with ⟨slot, rfl⟩
      have hdone := adequate_alone () hallow hsound hrun
        (Q := fun _ s => s.view = (staging app.driver.root).view fs) ?_
      · rcases hdone with ⟨hsound', _, hview⟩
        exact ⟨hsound', hview⟩
      · unfold finish
        rw [Machine.wp_bind]
        apply wp_consume_fresh app.driver slot rfl steady_eq trivial rfl
        · intro _
          rfl
        · intro b v' got ended _ _ _ _ h'
          exact h'.symm
        · intro n v' g' more _ h' _ _
          exact h'.symm
  | _ =>
      cases hrun
      exact ⟨hsound, rfl⟩

theorem App.exchange_kept {x : Exchange}
    (hallow : (solo app.driver faults).Admits allow) (hsound : fs.Sound)
    (hkey : ¬ ShowsApiKey app.settings x.request.headers)
    (hrun : (system allow).machine.Runs fs (app.exchange x) trace o fs') :
    fs'.Sound ∧ forall slot : Slot app.settings, Kept app.driver slot fs fs' ∨
      CarriesToken app.platform x.request.headers ∧
        ¬ Reserved app.settings slot.key := by
  unfold App.exchange at hrun
  rcases Machine.runs_bind hrun with
    ⟨response, fs1, trace1, trace2, hhandle, hfinish, _⟩ | ⟨e, hhandle, _⟩
  · have hhandled := App.handle_handled hallow hsound hkey hhandle
    have hstreams : forall body, response = Response.streaming body ->
        exists slot : Slot app.settings, body =
          LocalFsBlobDriver.Stream.fresh (slot.objectText app.driver.root) := by
      intro body hbody
      exact hhandled.streams body (congrArg Except.ok hbody)
    rcases finish_runs hallow hhandled.sound hstreams hfinish with
      ⟨hsound', hview⟩
    refine ⟨hsound', ?_⟩
    intro slot
    rcases hhandled.kept slot with hkept | hright
    · exact Or.inl (hkept.trans (kept_of_view hview))
    · exact Or.inr hright
  · have hhandled := App.handle_handled hallow hsound hkey hhandle
    exact ⟨hhandled.sound, hhandled.kept⟩

end Handlers

/-!
## Any sequence of requests
-/

abbrev ExchangeTurn := Turn calls Exchange Exn Response

abbrev KeylessExchanges (app : App) :=
  History (system anyFault).machine app.exchange
    (fun _ (turn : ExchangeTurn) =>
      ¬ ShowsApiKey app.settings turn.tag.request.headers)

theorem write_authority {app : App} {fs fs' : FileTree}
    {turns : List ExchangeTurn} (hsound : fs.Sound)
    (hturns : KeylessExchanges app fs turns fs') :
    (forall slot : Slot app.settings, Reserved app.settings slot.key ->
      Kept app.driver slot fs fs') ∧
    ((forall turn, turn ∈ turns ->
        ¬ CarriesToken app.platform turn.tag.request.headers) ->
      forall slot : Slot app.settings, Kept app.driver slot fs fs') := by
  have hinvariant := History.invariant
    (I := fun turns s => s.Sound ∧
      (forall slot : Slot app.settings, Reserved app.settings slot.key ->
        Kept app.driver slot fs s) ∧
      ((forall turn, turn ∈ turns ->
          ¬ CarriesToken app.platform turn.tag.request.headers) ->
        forall slot : Slot app.settings, Kept app.driver slot fs s))
    ⟨hsound, fun slot _ => Kept.refl slot fs, fun _ slot => Kept.refl slot fs⟩
    ?_ hturns
  · exact hinvariant.right
  · intro turns s1 x trace o s2 hbefore hrun hkey
    rcases hbefore with ⟨hsound1, hreserved, hanonymous⟩
    rcases App.exchange_kept solo_anyFault hsound1 hkey hrun with
      ⟨hsound2, hkept⟩
    refine ⟨hsound2, ?_, ?_⟩
    · intro slot hslot
      rcases hkept slot with hsame | ⟨_, hfree⟩
      · exact (hreserved slot hslot).trans hsame
      · exact absurd hslot hfree
    · intro htokens slot
      have hlast := htokens _ (List.mem_append_right turns List.mem_cons_self)
      have hearlier := hanonymous
        (fun turn hturn => htokens turn (List.mem_append_left _ hturn)) slot
      rcases hkept slot with hsame | ⟨htoken, _⟩
      · exact hearlier.trans hsame
      · exact absurd htoken hlast

instance (settings : Settings) (headers : AuthHeaders) :
    Decidable (ShowsApiKey settings headers) :=
  inferInstanceAs (Decidable (exists entry, entry ∈ settings.apiKeys.entries ∧
    headers.xApiKey = some entry.2))

def userHeaders : AuthHeaders where
  xApiKey := some (text "guessed")
  credentials :=
    some
      { scheme := text "Bearer"
        credentials := text "signed-by-auth" }

def sampleFile : UploadFile where
  contentType := some (text "image/png")
  size := some 1
  reads := { chunks := [[2], []], ending := none }

def storedRendition : List (MutationTurn sampleSettings) × FileTree :=
  (system noFault).replayFrom sampleChoice (Mutation.run sampleDriver)
    (fun _ _ => True) sampleTree [samplePut renditionSlot [[1]]]

theorem storedRendition_sound : storedRendition.2.Sound :=
  (sampleTree_fresh.kempt.history
    ((system noFault).replayFrom_history sampleChoice
      (Mutation.run sampleDriver) (fun _ _ => True) sampleTree
      [samplePut renditionSlot [[1]]])).sound

def keylessExchanges : List ExchangeTurn × FileTree :=
  (system anyFault).replayFrom (fun n => sampleChoice (40 + n))
    sampleApp.exchange
    (fun _ turn => ¬ ShowsApiKey sampleApp.settings turn.tag.request.headers)
    storedRendition.2
    [ { request :=
          Request.createUpload userHeaders pictureSlot.bucket pictureSlot.key
            sampleFile
        pulls := 0 },
      { request :=
          Request.deleteObject userHeaders renditionSlot.bucket
            renditionSlot.key
        pulls := 0 } ]

theorem write_authority_rendition :
    keylessExchanges.1.map (fun turn => outcomeStatus turn.outcome) =
        [201, 400] ∧
      Kept sampleApp.driver renditionSlot storedRendition.2
        keylessExchanges.2 := by
  constructor
  · decide +kernel
  · have hreserved : Reserved sampleApp.settings renditionSlot.key :=
      Or.inl (by decide)
    have hturns : KeylessExchanges sampleApp storedRendition.2
        keylessExchanges.1 keylessExchanges.2 :=
      (system anyFault).replayFrom_history _ _ _ _ _
    exact (write_authority storedRendition_sound hturns).left renditionSlot
      hreserved

end StorybookStorage
