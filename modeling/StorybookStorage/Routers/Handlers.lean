import StorybookStorage.Routers.Common

/-!
# The six routes

The handlers of `routers/storage/` and `routers/files/`, each with the
dependency that authenticates its caller.
-/

namespace StorybookStorage

open Python Posix Effects

/-- `str.isdigit` of a header value, whose characters are Latin-1. -/
def isdigit (t : Text) : Bool :=
  !t.isEmpty &&
    t.all fun c => c.isDigit || c == '\u00b2' || c == '\u00b3' || c == '\u00b9'

structure UploadFile where
  contentType : Option Text
  size : Option Int
  reads : Source

/-- `_upload_iter`: chunks up to the first empty read. -/
def uploadIter (reads : Source) : Source where
  chunks := reads.chunks.takeWhile (fun c => decide (c ≠ []))
  ending := if reads.chunks.contains [] then none else reads.ending

structure SignRequest where
  bucket : Text
  key : Text
  expiresIn : Int
  positive : 0 < expiresIn
  capped : expiresIn ≤ 86400

namespace App

variable (app : App)

def declaredLength (cap : Int) (declared : Option Text) : Except Exn Unit :=
  match declared with
  | none => Except.ok ()
  | some t =>
      if isdigit t then
        match app.platform.intOfText t with
        | none => Except.error Exn.valueError
        | some n =>
            if cap < n then
              Except.error (Exn.service payloadTooLarge)
            else
              Except.ok ()
      else
        Except.ok ()

def putObject (headers : AuthHeaders) (bucket key : Text)
    (contentType contentLength : Option Text) (upsert : Bool) (body : Source) :
    Io Response := do
  let principal ← checked (requireApiKey app.settings headers)
  checked (KeyGrammar.validate app.settings bucket key true)
  let declaredType := contentType.getD []
  if declaredType = [] then
    Prog.raise
      (Exn.service
        (validationError (text "Content-Type header is required")))
  else
    let cap := resolveS2sCap app.settings key
    Prog.ofExcept (app.declaredLength cap contentLength)
    let result ←
      app.driver.put bucket key (Data.stream (countingStream body cap))
        declaredType (if upsert then none else some (text "*"))
        (some (AList.singleton (text "uploader") principal.uploaderTag))
    if result.deduped = true ∧ upsert = false then
      Prog.raise (Exn.service alreadyExists)
    else
      pure
        (objectResponse app.settings (if upsert then 200 else 201) bucket key
          result)

def createUpload (headers : AuthHeaders) (bucket key : Text)
    (file : UploadFile) : Io Response := do
  let principal ← checked (requireUserJwt app.platform headers)
  checked (KeyGrammar.validate app.settings bucket key false)
  let cap ←
    checked
      (checkUserUpload app.platform app.settings key file.contentType file.size)
  let declaredType := file.contentType.getD []
  let result ←
    app.driver.put bucket key
      (Data.stream (countingStream (uploadIter file.reads) cap))
      (if declaredType = [] then text "application/octet-stream"
        else declaredType)
      none
      (some (AList.singleton (text "uploader") principal.uploaderTag))
  pure (objectResponse app.settings 201 bucket key result)

/-- Who is calling decides which keys exist for the caller. -/
def deleteObject (headers : AuthHeaders) (bucket key : Text) : Io Response := do
  let principal ←
    checked (requireApiKeyOrUserJwt app.platform app.settings headers)
  checked
    (KeyGrammar.validate app.settings bucket key
      (decide (principal.kind = PrincipalKind.service)))
  if principal.kind = PrincipalKind.user then
    checked (checkUserWritable app.settings key)
  let deleted ← app.driver.delete bucket key
  pure (Response.deleted deleted)

def headHeaders (info : ObjectInfo) : HeadHeaders where
  contentLength := intRepr info.bytes
  contentType := info.contentType
  etag := if info.etag.truthy then some info.etag else none
  lastModified := app.httpDate info.modifiedAt

def headObject (headers : AuthHeaders) (bucket key : Text) : Io Response := do
  let _ ← checked (requireApiKey app.settings headers)
  checked (KeyGrammar.validate app.settings bucket key true)
  let info ← app.driver.head bucket key
  match info with
  | none => Prog.raise (Exn.service notFound)
  | some found => pure (Response.head (app.headHeaders found))

def createSignedUrl (headers : AuthHeaders) (payload : SignRequest) :
    Io Response := do
  let _ ← checked (requireApiKey app.settings headers)
  checked (KeyGrammar.validate app.settings payload.bucket payload.key true)
  let signedUrl ←
    app.driver.presignGet payload.bucket payload.key payload.expiresIn
  let now ← Os.time
  pure
    (Response.signed signedUrl
      (app.platform.isoformat (now + payload.expiresIn)))

def internalTarget (bucket key : Text) : Text :=
  text "/internal-files/" ++ bucket ++ '/' :: quote key

/-- What `signed_get` answers once the signature is verified. -/
def serve (bucket key : Text) : Io Response :=
  if app.settings.storageSignedGetDevStream = true then do
    let stream ← app.driver.get bucket key
    match stream with
    | none => Prog.raise (Exn.service notFound)
    | some body => pure (Response.streaming body)
  else
    pure (Response.accelRedirect (internalTarget bucket key))

def signedGet (bucket key : Text) (exp : Int) (sig : Text) : Io Response := do
  checked (KeyGrammar.validate app.settings bucket key false)
  let valid ←
    Signing.verify app.platform app.settings.storageSignSecret bucket key exp
      sig
  if valid = false then
    Prog.raise (Exn.service forbidden)
  else
    app.serve bucket key

end App

inductive Request where
  | putObject (headers : AuthHeaders) (bucket key : Text)
      (contentType contentLength : Option Text) (upsert : Bool) (body : Source)
  | createUpload (headers : AuthHeaders) (bucket key : Text) (file : UploadFile)
  | deleteObject (headers : AuthHeaders) (bucket key : Text)
  | headObject (headers : AuthHeaders) (bucket key : Text)
  | createSignedUrl (headers : AuthHeaders) (payload : SignRequest)
  | signedGet (bucket key : Text) (exp : Int) (sig : Text)

def App.handle (app : App) : Request -> Io Response
  | Request.putObject headers bucket key contentType contentLength upsert body =>
      app.putObject headers bucket key contentType contentLength upsert body
  | Request.createUpload headers bucket key file =>
      app.createUpload headers bucket key file
  | Request.deleteObject headers bucket key =>
      app.deleteObject headers bucket key
  | Request.headObject headers bucket key => app.headObject headers bucket key
  | Request.createSignedUrl headers payload =>
      app.createSignedUrl headers payload
  | Request.signedGet bucket key exp sig => app.signedGet bucket key exp sig

end StorybookStorage
