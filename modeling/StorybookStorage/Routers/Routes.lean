import StorybookStorage.Drivers.Protocol
import StorybookStorage.Routers.Handlers

/-!
# The routes over any driver

The handlers reach the driver through its protocol alone.  Here they are
programs over the verbs, and with the local driver's verbs filled in they are
the programs over the file-system calls again.
-/

namespace StorybookStorage

open Python Posix Effects

namespace Blob

def checked {α : Type} : Except ServiceError α -> Blob α
  | Except.ok a => pure a
  | Except.error e => Prog.raise (Exn.service e)

end Blob

inductive RouteAnswer where
  | plain (response : Response)
  | content (bytes : Bytes)

/-- The server sends a streamed answer to a client that pulls so many
chunks. -/
def sendAnswer (pulls : Nat) : Response -> Io RouteAnswer
  | Response.streaming body => do
      let got ← body.consume pulls []
      pure (RouteAnswer.content got.1)
  | other => pure (RouteAnswer.plain other)

namespace App

variable (app : App)

def deliver (pulls : Nat) (request : Request) : Io RouteAnswer :=
  app.handle request >>= sendAnswer pulls

namespace Route

def putObject (headers : AuthHeaders) (bucket key : Text)
    (contentType contentLength : Option Text) (upsert : Bool) (body : Source) :
    Blob RouteAnswer := do
  let principal ← Blob.checked (requireApiKey app.settings headers)
  Blob.checked (KeyGrammar.validate app.settings bucket key true)
  let declaredType := contentType.getD []
  if declaredType = [] then
    Prog.raise
      (Exn.service
        (validationError (text "Content-Type header is required")))
  else
    let cap := resolveS2sCap app.settings key
    Prog.ofExcept (app.declaredLength cap contentLength)
    let result ←
      Blob.ask
        (BlobVerb.put bucket key (Data.stream (countingStream body cap))
          declaredType (if upsert then none else some (text "*"))
          (some (AList.singleton (text "uploader") principal.uploaderTag)))
    if result.deduped = true ∧ upsert = false then
      Prog.raise (Exn.service alreadyExists)
    else
      pure
        (RouteAnswer.plain
          (objectResponse app.settings (if upsert then 200 else 201) bucket key
            result))

def createUpload (headers : AuthHeaders) (bucket key : Text)
    (file : UploadFile) : Blob RouteAnswer := do
  let principal ← Blob.checked (requireUserJwt app.platform headers)
  Blob.checked (KeyGrammar.validate app.settings bucket key false)
  let cap ←
    Blob.checked
      (checkUserUpload app.platform app.settings key file.contentType file.size)
  let declaredType := file.contentType.getD []
  let result ←
    Blob.ask
      (BlobVerb.put bucket key
        (Data.stream (countingStream (uploadIter file.reads) cap))
        (if declaredType = [] then text "application/octet-stream"
          else declaredType)
        none
        (some (AList.singleton (text "uploader") principal.uploaderTag)))
  pure (RouteAnswer.plain (objectResponse app.settings 201 bucket key result))

def deleteObject (headers : AuthHeaders) (bucket key : Text) :
    Blob RouteAnswer := do
  let principal ←
    Blob.checked (requireApiKeyOrUserJwt app.platform app.settings headers)
  Blob.checked
    (KeyGrammar.validate app.settings bucket key
      (decide (principal.kind = PrincipalKind.service)))
  if principal.kind = PrincipalKind.user then
    Blob.checked (checkUserWritable app.settings key)
  let deleted ← Blob.ask (BlobVerb.delete bucket key)
  pure (RouteAnswer.plain (Response.deleted deleted))

def headObject (headers : AuthHeaders) (bucket key : Text) :
    Blob RouteAnswer := do
  let _ ← Blob.checked (requireApiKey app.settings headers)
  Blob.checked (KeyGrammar.validate app.settings bucket key true)
  let info ← Blob.ask (BlobVerb.head bucket key)
  match info with
  | none => Prog.raise (Exn.service notFound)
  | some found =>
      pure (RouteAnswer.plain (Response.head (app.headHeaders found)))

def createSignedUrl (headers : AuthHeaders) (payload : SignRequest) :
    Blob RouteAnswer := do
  let _ ← Blob.checked (requireApiKey app.settings headers)
  Blob.checked
    (KeyGrammar.validate app.settings payload.bucket payload.key true)
  let signedUrl ←
    Blob.ask
      (BlobVerb.presignGet payload.bucket payload.key payload.expiresIn)
  let now ← Blob.ask BlobVerb.time
  pure
    (RouteAnswer.plain
      (Response.signed signedUrl
        (app.platform.isoformat (now + payload.expiresIn))))

def serve (bucket key : Text) : Blob RouteAnswer :=
  if app.settings.storageSignedGetDevStream = true then do
    let body ← Blob.ask (BlobVerb.get bucket key)
    match body with
    | none => Prog.raise (Exn.service notFound)
    | some bytes => pure (RouteAnswer.content bytes)
  else
    pure
      (RouteAnswer.plain (Response.accelRedirect (internalTarget bucket key)))

def signedGet (bucket key : Text) (exp : Int) (sig : Text) :
    Blob RouteAnswer := do
  Blob.checked (KeyGrammar.validate app.settings bucket key false)
  let now ← Blob.ask BlobVerb.time
  let valid ←
    Prog.ofExcept
      (Signing.verifyAt app.platform app.settings.storageSignSecret bucket key
        exp sig (intOfRat now))
  if valid = false then
    Prog.raise (Exn.service forbidden)
  else
    serve app bucket key

end Route

def route : Request -> Blob RouteAnswer
  | Request.putObject headers bucket key contentType contentLength upsert body =>
      Route.putObject app headers bucket key contentType contentLength upsert
        body
  | Request.createUpload headers bucket key file =>
      Route.createUpload app headers bucket key file
  | Request.deleteObject headers bucket key =>
      Route.deleteObject app headers bucket key
  | Request.headObject headers bucket key =>
      Route.headObject app headers bucket key
  | Request.createSignedUrl headers payload =>
      Route.createSignedUrl app headers payload
  | Request.signedGet bucket key exp sig =>
      Route.signedGet app bucket key exp sig

end App

/-!
## On the local driver
-/

section Local

variable {app : App} {pulls : Nat} {α : Type}

theorem inline_ask (d : LocalFsBlobDriver) (verb : BlobVerb) :
    (d.verbs pulls).inline (Blob.ask verb) = d.perform pulls verb :=
  (d.verbs pulls).inline_await verb

theorem inline_checked (d : LocalFsBlobDriver) (r : Except ServiceError α) :
    (d.verbs pulls).inline (Blob.checked r) = checked r := by
  cases r <;> rfl

theorem inline_ask_bind (d : LocalFsBlobDriver) (verb : BlobVerb)
    (f : verb.Val -> Blob α) :
    (d.verbs pulls).inline (Blob.ask verb >>= f) =
      d.perform pulls verb >>= fun a => (d.verbs pulls).inline (f a) := by
  refine ((d.verbs pulls).inline_bind (Blob.ask verb) f).trans ?_
  rw [inline_ask]

theorem inline_checked_bind {β : Type} (d : LocalFsBlobDriver)
    (r : Except ServiceError β) (f : β -> Blob α) :
    (d.verbs pulls).inline (Blob.checked r >>= f) =
      checked r >>= fun a => (d.verbs pulls).inline (f a) := by
  refine ((d.verbs pulls).inline_bind (Blob.checked r) f).trans ?_
  rw [inline_checked]

theorem inline_putObject {headers : AuthHeaders} {bucket key : Text}
    {contentType contentLength : Option Text} {upsert : Bool} {body : Source} :
    (app.driver.verbs pulls).inline
        (App.Route.putObject app headers bucket key contentType contentLength
          upsert body) =
      app.putObject headers bucket key contentType contentLength upsert body >>=
        sendAnswer pulls := by
  unfold App.Route.putObject App.putObject
  rw [inline_checked_bind, bind_assoc]
  apply bind_congr
  intro principal
  rw [inline_checked_bind, bind_assoc]
  apply bind_congr
  intro _
  dsimp only
  split
  · rfl
  · cases app.declaredLength (resolveS2sCap app.settings key) contentLength with
    | error e => rfl
    | ok _ =>
        show (app.driver.verbs pulls).inline (Blob.ask _ >>= _) =
          (app.driver.put _ _ _ _ _ _ >>= _) >>= _
        rw [inline_ask_bind, bind_assoc]
        apply bind_congr
        intro result
        split <;> rfl

theorem inline_createUpload {headers : AuthHeaders} {bucket key : Text}
    {file : UploadFile} :
    (app.driver.verbs pulls).inline
        (App.Route.createUpload app headers bucket key file) =
      app.createUpload headers bucket key file >>= sendAnswer pulls := by
  unfold App.Route.createUpload App.createUpload
  rw [inline_checked_bind, bind_assoc]
  apply bind_congr
  intro principal
  rw [inline_checked_bind, bind_assoc]
  apply bind_congr
  intro _
  rw [inline_checked_bind, bind_assoc]
  apply bind_congr
  intro cap
  dsimp only
  rw [inline_ask_bind, bind_assoc]
  apply bind_congr
  intro result
  rfl

theorem inline_deleteObject {headers : AuthHeaders} {bucket key : Text} :
    (app.driver.verbs pulls).inline
        (App.Route.deleteObject app headers bucket key) =
      app.deleteObject headers bucket key >>= sendAnswer pulls := by
  unfold App.Route.deleteObject App.deleteObject
  rw [inline_checked_bind, bind_assoc]
  apply bind_congr
  intro principal
  rw [inline_checked_bind, bind_assoc]
  apply bind_congr
  intro _
  have hdelete : (app.driver.verbs pulls).inline (do
        let deleted ← Blob.ask (BlobVerb.delete bucket key)
        pure (RouteAnswer.plain (Response.deleted deleted))) =
      (do
        let deleted ← app.driver.delete bucket key
        pure (Response.deleted deleted)) >>= sendAnswer pulls := by
    rw [inline_ask_bind, bind_assoc]
    rfl
  split
  · rw [inline_checked_bind, bind_assoc]
    apply bind_congr
    intro _
    exact hdelete
  · exact hdelete

theorem inline_headObject {headers : AuthHeaders} {bucket key : Text} :
    (app.driver.verbs pulls).inline
        (App.Route.headObject app headers bucket key) =
      app.headObject headers bucket key >>= sendAnswer pulls := by
  unfold App.Route.headObject App.headObject
  rw [inline_checked_bind, bind_assoc]
  apply bind_congr
  intro principal
  rw [inline_checked_bind, bind_assoc]
  apply bind_congr
  intro _
  rw [inline_ask_bind, bind_assoc]
  apply bind_congr
  intro info
  cases info <;> rfl

theorem inline_createSignedUrl {headers : AuthHeaders} {payload : SignRequest} :
    (app.driver.verbs pulls).inline
        (App.Route.createSignedUrl app headers payload) =
      app.createSignedUrl headers payload >>= sendAnswer pulls := by
  unfold App.Route.createSignedUrl App.createSignedUrl
  rw [inline_checked_bind, bind_assoc]
  apply bind_congr
  intro principal
  rw [inline_checked_bind, bind_assoc]
  apply bind_congr
  intro _
  rw [inline_ask_bind, bind_assoc]
  apply bind_congr
  intro signedUrl
  rw [inline_ask_bind, bind_assoc]
  rfl

theorem inline_serve {bucket key : Text} :
    (app.driver.verbs pulls).inline (App.Route.serve app bucket key) =
      app.serve bucket key >>= sendAnswer pulls := by
  unfold App.Route.serve App.serve
  split
  · rw [inline_ask_bind, bind_assoc]
    show (fun got => Option.map Prod.fst got) <$>
        app.driver.fetch bucket key pulls >>= _ = _
    unfold LocalFsBlobDriver.fetch
    rw [bind_map_left, bind_assoc]
    apply bind_congr
    intro stream
    cases stream with
    | none => rfl
    | some body =>
        show (body.consume pulls [] >>= fun got => pure (some got)) >>= _ =
          body.consume pulls [] >>= _
        rw [bind_assoc]
        rfl
  · rfl

theorem inline_signedGet {bucket key : Text} {exp : Int} {sig : Text} :
    (app.driver.verbs pulls).inline
        (App.Route.signedGet app bucket key exp sig) =
      app.signedGet bucket key exp sig >>= sendAnswer pulls := by
  unfold App.Route.signedGet App.signedGet Signing.verify
  rw [inline_checked_bind, bind_assoc]
  apply bind_congr
  intro _
  rw [inline_ask_bind, bind_assoc, bind_assoc]
  apply bind_congr
  intro now
  cases Signing.verifyAt app.platform app.settings.storageSignSecret bucket key
      exp sig (intOfRat now) with
  | error e => rfl
  | ok valid =>
      cases valid with
      | false => rfl
      | true => exact inline_serve

/-- The service is its routes over the local driver. -/
theorem deliver_eq_inline (app : App) (pulls : Nat) (request : Request) :
    app.deliver pulls request =
      (app.driver.verbs pulls).inline (app.route request) := by
  unfold App.deliver
  cases request with
  | putObject headers bucket key contentType contentLength upsert body =>
      exact inline_putObject.symm
  | createUpload headers bucket key file => exact inline_createUpload.symm
  | deleteObject headers bucket key => exact inline_deleteObject.symm
  | headObject headers bucket key => exact inline_headObject.symm
  | createSignedUrl headers payload => exact inline_createSignedUrl.symm
  | signedGet bucket key exp sig => exact inline_signedGet.symm

end Local

end StorybookStorage
