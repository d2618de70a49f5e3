import StorybookStorage.Access.Representative
import StorybookStorage.Access.Requests

/-!
# The service as its clients know it

Clients that come one after the other need to know nothing of a disk.  From the
requests and their answers so far they know what is held where, and from that,
the clock and the next request follows the next answer.
-/

namespace StorybookStorage

open Python Posix Effects

structure Deposit where
  body : Bytes
  contentType : Text
  uploader : Principal

abbrev Ledger := Text × Text -> Option Deposit

def Request.place : Request -> Text × Text
  | Request.putObject _ bucket key _ _ _ _ => (bucket, key)
  | Request.createUpload _ bucket key _ => (bucket, key)
  | Request.deleteObject _ bucket key => (bucket, key)
  | Request.headObject _ bucket key => (bucket, key)
  | Request.createSignedUrl _ payload => (payload.bucket, payload.key)
  | Request.signedGet bucket key _ _ => (bucket, key)

/-- A service error as the outcome of a request. -/
def refusal {α : Type} : Except ServiceError α -> Except Exn α :=
  Except.mapError Exn.service

/-- A body that arrives as a whole. -/
def arrival (source : Source) : Except Exn Unit :=
  source.ending.elim (Except.ok ()) Except.error

namespace App

variable (app : App)

/-- What a request wants kept. -/
def offer : Request -> Option Deposit
  | Request.putObject headers _ _ contentType _ _ body =>
      (requireApiKey app.settings headers).toOption.map fun principal =>
        { body := body.chunks.flatten
          contentType := contentType.getD []
          uploader := principal }
  | Request.createUpload headers _ _ file =>
      (requireUserJwt app.platform headers).toOption.map fun principal =>
        { body := (uploadIter file.reads).chunks.flatten
          contentType := uploadType file
          uploader := principal }
  | _ => none

/-- What an answer changes: a put or an upload that was confirmed is held from
then on, what was deleted is not. -/
def settle (L : Ledger) : Request × Except Exn RouteAnswer -> Ledger
  | (_, Except.error _) => L
  | (Request.deleteObject _ bucket key, Except.ok _) =>
      Function.update L (bucket, key) none
  | (request, Except.ok _) =>
      (app.offer request).elim L fun deposit =>
        Function.update L request.place (some deposit)

def ledger (answered : List (Request × Except Exn RouteAnswer)) : Ledger :=
  answered.foldl app.settle fun _ => none

def receipt (status : Nat) (bucket key : Text) (body : Bytes) : RouteAnswer :=
  RouteAnswer.plain
    (objectResponse app.settings status bucket key
      { etag := Json.str (app.platform.sha256.digest body)
        bytes := body.length
        deduped := false })

/-!
What a client expects, given what is held at the place it asks about and
readings of the clock.
-/

namespace Expected

variable (held : Option Deposit)

def putObject (headers : AuthHeaders) (bucket key : Text)
    (contentType contentLength : Option Text) (upsert : Bool) (body : Source) :
    Except Exn RouteAnswer := do
  let _ ← refusal (requireApiKey app.settings headers)
  refusal (KeyGrammar.validate app.settings bucket key true)
  if contentType.getD [] = [] then
    Except.error
      (Exn.service (validationError (text "Content-Type header is required")))
  else
    app.declaredLength (resolveS2sCap app.settings key) contentLength
    if upsert = false ∧ held.isSome = true then
      Except.error (Exn.service alreadyExists)
    else
      arrival (countingStream body (resolveS2sCap app.settings key))
      pure
        (app.receipt (if upsert then 200 else 201) bucket key
          body.chunks.flatten)

def createUpload (headers : AuthHeaders) (bucket key : Text)
    (file : UploadFile) : Except Exn RouteAnswer := do
  let _ ← refusal (requireUserJwt app.platform headers)
  refusal (KeyGrammar.validate app.settings bucket key false)
  let cap ←
    refusal
      (checkUserUpload app.platform app.settings key file.contentType file.size)
  arrival (countingStream (uploadIter file.reads) cap)
  pure (app.receipt 201 bucket key (uploadIter file.reads).chunks.flatten)

def deleteObject (headers : AuthHeaders) (bucket key : Text) :
    Except Exn RouteAnswer := do
  let principal ←
    refusal (requireApiKeyOrUserJwt app.platform app.settings headers)
  refusal
    (KeyGrammar.validate app.settings bucket key
      (decide (principal.kind = PrincipalKind.service)))
  if principal.kind = PrincipalKind.user then
    refusal (checkUserWritable app.settings key)
  pure (RouteAnswer.plain (Response.deleted held.isSome))

def headObject (headers : AuthHeaders) (bucket key : Text) (now : Rat) :
    Except Exn RouteAnswer := do
  let _ ← refusal (requireApiKey app.settings headers)
  refusal (KeyGrammar.validate app.settings bucket key true)
  held.elim (Except.error (Exn.service notFound)) fun deposit =>
    Except.ok
      (RouteAnswer.plain
        (Response.head
          { contentLength := intRepr deposit.body.length
            contentType := Json.str deposit.contentType
            etag := some (Json.str (app.platform.sha256.digest deposit.body))
            lastModified := app.httpDate (app.platform.isoformat now) }))

def createSignedUrl (headers : AuthHeaders) (payload : SignRequest)
    (now later : Rat) : Except Exn RouteAnswer := do
  let _ ← refusal (requireApiKey app.settings headers)
  refusal (KeyGrammar.validate app.settings payload.bucket payload.key true)
  pure
    (RouteAnswer.plain
      (Response.signed
        ((FakeBlobDriver.like app.driver).presignGet app.platform payload.bucket
          payload.key payload.expiresIn now)
        (app.platform.isoformat (later + payload.expiresIn))))

def signedGet (bucket key : Text) (exp : Int) (sig : Text) (now : Rat) :
    Except Exn RouteAnswer := do
  refusal (KeyGrammar.validate app.settings bucket key false)
  let valid ←
    Signing.verifyAt app.platform app.settings.storageSignSecret bucket key exp
      sig (intOfRat now)
  if valid = false then
    Except.error (Exn.service forbidden)
  else if app.settings.storageSignedGetDevStream = true then
    held.elim (Except.error (Exn.service notFound)) fun deposit =>
      Except.ok (RouteAnswer.content deposit.body)
  else
    Except.ok
      (RouteAnswer.plain (Response.accelRedirect (internalTarget bucket key)))

end Expected

def expected (held : Option Deposit) (now later : Rat) :
    Request -> Except Exn RouteAnswer
  | Request.putObject headers bucket key contentType contentLength upsert body =>
      Expected.putObject app held headers bucket key contentType contentLength
        upsert body
  | Request.createUpload headers bucket key file =>
      Expected.createUpload app headers bucket key file
  | Request.deleteObject headers bucket key =>
      Expected.deleteObject app held headers bucket key
  | Request.headObject headers bucket key =>
      Expected.headObject app held headers bucket key now
  | Request.createSignedUrl headers payload =>
      Expected.createSignedUrl app headers payload now later
  | Request.signedGet bucket key exp sig =>
      Expected.signedGet app held bucket key exp sig now

def Explained (L : Ledger) (exchange : Request × Except Exn RouteAnswer) :
    Prop :=
  exists now later, exchange.2 =
    app.expected (L exchange.1.place) now later exchange.1

def Coherent (answered : List (Request × Except Exn RouteAnswer)) : Prop :=
  forall before exchange after, answered = before ++ exchange :: after ->
    app.Explained (app.ledger before) exchange

end App

variable {app : App} {L : Ledger} {f : FakeBlobDriver}

/-!
## On the in-memory driver
-/

def Deposit.entry (deposit : Deposit) : FakeEntry where
  raw := deposit.body
  contentType := deposit.contentType
  metadata := (uploaderMetadata deposit.uploader).getD ∅

structure Carries (app : App) (f : FakeBlobDriver) (L : Ledger) : Prop where
  signs : f.signSecret = app.driver.signSecret
  based : f.publicBase = app.driver.publicBase
  entries : forall place,
    f.store.lookup place = (L place).map Deposit.entry

theorem Carries.start :
    Carries app (FakeBlobDriver.like app.driver) fun _ => none where
  signs := rfl
  based := rfl
  entries _ := rfl

structure Conforms (app : App) (L : Ledger) (request : Request)
    (o : Except Exn RouteAnswer) (f : FakeBlobDriver) : Prop where
  explained : app.Explained L (request, o)
  carries : Carries app f (app.settle L (request, o))

theorem countChunks_whole {cap total : Int} {ending : Option Exn}
    {chunks : List Bytes}
    (h : (countChunks cap ending chunks total).ending = none) :
    (countChunks cap ending chunks total).chunks = chunks := by
  induction chunks generalizing total with
  | nil => rfl
  | cons chunk rest ih =>
      unfold countChunks at h ⊢
      split at h
      · cases h
      · rename_i hwithin
        rw [if_neg hwithin]
        exact congrArg (List.cons chunk) (ih h)

section Verbs

variable {α : Type} {Q : Except Exn α -> FakeBlobDriver -> Prop}

theorem wp_fake_ask {verb : BlobVerb} {k : verb.Val -> Blob α}
    (h : forall r f', f.Does app.platform verb r f' ->
      (FakeBlobDriver.machine app.platform).wp (Prog.ofExcept r >>= k) Q f') :
    (FakeBlobDriver.machine app.platform).wp (Blob.ask verb >>= k) Q f :=
  ⟨trivial, h⟩

end Verbs

theorem App.settle_error {request : Request} {e : Exn} :
    app.settle L (request, Except.error e) = L := by
  cases request <;> rfl

theorem App.settle_putObject {headers : AuthHeaders} {bucket key : Text}
    {contentType contentLength : Option Text} {upsert : Bool} {body : Source}
    {principal : Principal} {answer : RouteAnswer}
    (hauth : requireApiKey app.settings headers = Except.ok principal) :
    app.settle L (Request.putObject headers bucket key contentType contentLength
      upsert body, Except.ok answer) =
      Function.update L (bucket, key)
        (some
          { body := body.chunks.flatten
            contentType := contentType.getD []
            uploader := principal }) := by
  have hoffer : app.offer (Request.putObject headers bucket key contentType
      contentLength upsert body) = some
        { body := body.chunks.flatten
          contentType := contentType.getD []
          uploader := principal } := by
    show (requireApiKey app.settings headers).toOption.map _ = _
    rw [hauth]
    rfl
  show Option.elim (app.offer _) L _ = _
  rw [hoffer]
  rfl

theorem App.settle_createUpload {headers : AuthHeaders} {bucket key : Text}
    {file : UploadFile} {principal : Principal} {answer : RouteAnswer}
    (hauth : requireUserJwt app.platform headers = Except.ok principal) :
    app.settle L (Request.createUpload headers bucket key file,
      Except.ok answer) =
      Function.update L (bucket, key)
        (some
          { body := (uploadIter file.reads).chunks.flatten
            contentType := uploadType file
            uploader := principal }) := by
  have hoffer : app.offer (Request.createUpload headers bucket key file) = some
        { body := (uploadIter file.reads).chunks.flatten
          contentType := uploadType file
          uploader := principal } := by
    show (requireUserJwt app.platform headers).toOption.map _ = _
    rw [hauth]
    rfl
  show Option.elim (app.offer _) L _ = _
  rw [hoffer]
  rfl

theorem Carries.refused {request : Request} {e : Exn} (now : Rat)
    (h : Carries app f L)
    (hexpected : app.expected (L request.place) now now request =
      Except.error e) : Conforms app L request (Except.error e) f where
  explained := ⟨now, now, hexpected.symm⟩
  carries := by
    rw [App.settle_error]
    exact h

theorem Carries.noted (h : Carries app f L) (call : FakeCall) :
    Carries app (f.noted call) L where
  signs := h.signs
  based := h.based
  entries := h.entries

/-- A check the route and the expectation make alike: a refusal changes nothing,
and what passes is left to the rest of both. -/
theorem Carries.checked {β : Type} {request : Request}
    {r : Except ServiceError β} {k : β -> Blob RouteAnswer}
    {rest : β -> Rat -> Rat -> Except Exn RouteAnswer} (h : Carries app f L)
    (hexpected : forall now later,
      app.expected (L request.place) now later request =
        refusal r >>= fun a => rest a now later)
    (hrest : forall a, r = Except.ok a ->
      (forall now later,
        app.expected (L request.place) now later request = rest a now later) ->
      (FakeBlobDriver.machine app.platform).wp (k a) (Conforms app L request)
        f) :
    (FakeBlobDriver.machine app.platform).wp (Blob.checked r >>= k)
      (Conforms app L request) f := by
  cases r with
  | error e => exact h.refused 0 (hexpected 0 0)
  | ok a => exact hrest a rfl hexpected

theorem digest_truthy (b : Bytes) :
    (Json.str (app.platform.sha256.digest b)).truthy = true := by
  apply decide_eq_true
  intro hempty
  have hlength := app.platform.sha256.length_digest b
  rw [hempty] at hlength
  cases hlength

/-!
## One request
-/

section Requests

variable {headers : AuthHeaders} {bucket key : Text}

theorem put_meets_nothing {data : Data} {contentType : Text}
    {ifNoneMatch : Option Text} {metadata : Option Metadata}
    (hnew : f.met bucket key ifNoneMatch = none) (hwhole : data.ending = none) :
    f.put app.platform bucket key data contentType ifNoneMatch metadata =
      (Except.ok
        { etag := Json.str (app.platform.sha256.digest data.body)
          bytes := data.body.length
          deduped := false },
        { f.noted (FakeCall.put bucket key contentType ifNoneMatch metadata) with
          store := f.store.insert (bucket, key)
            { raw := data.body
              contentType := contentType
              metadata := metadata.getD ∅ } }) := by
  unfold FakeBlobDriver.put
  rw [hnew, hwhole]

theorem put_breaks {data : Data} {contentType : Text}
    {ifNoneMatch : Option Text} {metadata : Option Metadata} {e : Exn}
    (hnew : f.met bucket key ifNoneMatch = none)
    (hbreaks : data.ending = some e) :
    f.put app.platform bucket key data contentType ifNoneMatch metadata =
      (Except.error e,
        f.noted
          (FakeCall.put bucket key contentType ifNoneMatch metadata)) := by
  unfold FakeBlobDriver.put
  rw [hnew, hbreaks]

theorem put_meets {data : Data} {contentType : Text}
    {ifNoneMatch : Option Text} {metadata : Option Metadata}
    {existing : FakeEntry}
    (hmet : f.met bucket key ifNoneMatch = some existing) :
    f.put app.platform bucket key data contentType ifNoneMatch metadata =
      (Except.ok
        { etag := Json.str (app.platform.sha256.digest existing.raw)
          bytes := existing.raw.length
          deduped := true },
        f.noted
          (FakeCall.put bucket key contentType ifNoneMatch metadata)) := by
  unfold FakeBlobDriver.put
  rw [hmet]

theorem Carries.met (h : Carries app f L) (bucket key : Text) (upsert : Bool) :
    f.met bucket key (if upsert then none else some (text "*")) =
      if upsert then none else (L (bucket, key)).map Deposit.entry := by
  unfold FakeBlobDriver.met
  cases upsert with
  | true => exact if_neg (Option.some_ne_none _).symm
  | false => exact (if_pos rfl).trans (h.entries _)

theorem Carries.changed {f' : FakeBlobDriver} {place : Text × Text}
    {held : Option Deposit} (h : Carries app f L)
    (hsigns : f'.signSecret = f.signSecret)
    (hbased : f'.publicBase = f.publicBase)
    (hat : f'.store.lookup place = held.map Deposit.entry)
    (hoff : forall place', place' ≠ place ->
      f'.store.lookup place' = f.store.lookup place') :
    Carries app f' (Function.update L place held) where
  signs := hsigns.trans h.signs
  based := hbased.trans h.based
  entries := by
    intro place'
    rcases eq_or_ne place' place with rfl | hne
    · rw [Function.update_self]
      exact hat
    · rw [Function.update_of_ne hne]
      exact (hoff place' hne).trans (h.entries place')

/-- A body that is put where nothing is met is confirmed and held, or breaks off
and leaves nothing. -/
theorem Carries.put {request : Request} {source : Source} {cap : Int}
    {contentType : Text} {ifNoneMatch : Option Text} {principal : Principal}
    {answer : RouteAnswer} {k : PutResult -> Blob RouteAnswer}
    (h : Carries app f L) (hnew : f.met bucket key ifNoneMatch = none)
    (hconfirms : k
      { etag := Json.str (app.platform.sha256.digest source.chunks.flatten)
        bytes := source.chunks.flatten.length
        deduped := false } = pure answer)
    (hexpected : app.expected (L request.place) 0 0 request =
      (do
        arrival (countingStream source cap)
        pure answer))
    (hsettle : app.settle L (request, Except.ok answer) =
      Function.update L (bucket, key)
        (some
          { body := source.chunks.flatten
            contentType := contentType
            uploader := principal })) :
    (FakeBlobDriver.machine app.platform).wp
      (Blob.ask
        (BlobVerb.put bucket key (Data.stream (countingStream source cap))
          contentType ifNoneMatch (uploaderMetadata principal)) >>= k)
      (Conforms app L request) f := by
  unfold arrival at hexpected
  apply wp_fake_ask
  intro r f' hdoes
  cases hending : (countingStream source cap).ending with
  | some e =>
      rw [hending] at hexpected
      have hbreaks :
          (Data.stream (countingStream source cap)).ending = some e := hending
      cases (put_breaks hnew hbreaks).symm.trans hdoes
      exact (h.noted _).refused 0 hexpected
  | none =>
      rw [hending] at hexpected
      have harrives :
          (Data.stream (countingStream source cap)).ending = none := hending
      cases (put_meets_nothing hnew harrives).symm.trans hdoes
      have hwhole : (Data.stream (countingStream source cap)).body =
          source.chunks.flatten :=
        congrArg List.flatten (countChunks_whole hending)
      rw [hwhole]
      show (FakeBlobDriver.machine app.platform).wp (k _) _ _
      rw [hconfirms]
      refine ⟨⟨0, 0, hexpected.symm⟩, ?_⟩
      rw [hsettle]
      refine h.changed rfl rfl ?_ ?_
      · exact AList.lookup_insert _
      · intro place' hne
        exact AList.lookup_insert_ne hne

theorem putObject_conforms {contentType contentLength : Option Text}
    {upsert : Bool} {body : Source} (h : Carries app f L) :
    (FakeBlobDriver.machine app.platform).wp
      (App.Route.putObject app headers bucket key contentType contentLength
        upsert body)
      (Conforms app L
        (Request.putObject headers bucket key contentType contentLength upsert
          body)) f := by
  have hexpected : forall now later,
      app.expected (L (bucket, key)) now later
        (Request.putObject headers bucket key contentType contentLength upsert
          body) =
      App.Expected.putObject app (L (bucket, key)) headers bucket key
        contentType contentLength upsert body := fun _ _ => rfl
  unfold App.Route.putObject
  unfold App.Expected.putObject at hexpected
  refine h.checked hexpected ?_
  intro principal hauth hexpected
  refine h.checked hexpected ?_
  intro _ hgrammar hexpected
  replace hexpected := hexpected 0 0
  change _ = ite _ _ _ at hexpected
  dsimp only
  split
  · rename_i huntyped
    rw [if_pos huntyped] at hexpected
    exact h.refused 0 hexpected
  rename_i htyped
  rw [if_neg htyped] at hexpected
  cases hdeclared : app.declaredLength (resolveS2sCap app.settings key)
      contentLength with
  | error e =>
      rw [hdeclared] at hexpected
      exact h.refused 0 hexpected
  | ok _ =>
      rw [hdeclared] at hexpected
      change _ = ite _ _ _ at hexpected
      by_cases hclash : upsert = false ∧ (L (bucket, key)).isSome = true
      -- the driver answers that the object is there, and the route refuses
      · rw [if_pos hclash] at hexpected
        rcases hclash with ⟨rfl, hheld⟩
        rcases Option.isSome_iff_exists.mp hheld with ⟨deposit, hdeposit⟩
        have hmet := h.met bucket key false
        rw [hdeposit] at hmet
        apply wp_fake_ask
        intro r f' hdoes
        cases (put_meets hmet).symm.trans hdoes
        exact (h.noted _).refused 0 hexpected
      rw [if_neg hclash] at hexpected
      have hnew : f.met bucket key
          (if upsert then none else some (text "*")) = none := by
        rw [h.met]
        cases upsert with
        | true => rfl
        | false =>
            have hnone := not_and.mp hclash rfl
            rw [Option.not_isSome_iff_eq_none.mp hnone]
            rfl
      exact h.put hnew rfl hexpected (App.settle_putObject hauth)

theorem createUpload_conforms {file : UploadFile} (h : Carries app f L) :
    (FakeBlobDriver.machine app.platform).wp
      (App.Route.createUpload app headers bucket key file)
      (Conforms app L (Request.createUpload headers bucket key file)) f := by
  have hexpected : forall now later,
      app.expected (L (bucket, key)) now later
        (Request.createUpload headers bucket key file) =
      App.Expected.createUpload app headers bucket key file := fun _ _ => rfl
  unfold App.Route.createUpload
  unfold App.Expected.createUpload at hexpected
  refine h.checked hexpected ?_
  intro principal hauth hexpected
  refine h.checked hexpected ?_
  intro _ hgrammar hexpected
  refine h.checked hexpected ?_
  intro cap hcap hexpected
  have hnew : f.met bucket key none = none :=
    if_neg (Option.some_ne_none _).symm
  exact h.put hnew rfl (hexpected 0 0) (App.settle_createUpload hauth)

theorem deleteObject_conforms (h : Carries app f L) :
    (FakeBlobDriver.machine app.platform).wp
      (App.Route.deleteObject app headers bucket key)
      (Conforms app L (Request.deleteObject headers bucket key)) f := by
  have hdelete : (forall now later : Rat,
      app.expected (L (bucket, key)) now later
        (Request.deleteObject headers bucket key) =
        Except.ok (RouteAnswer.plain
          (Response.deleted (L (bucket, key)).isSome))) ->
      (FakeBlobDriver.machine app.platform).wp (do
        let deleted ← Blob.ask (BlobVerb.delete bucket key)
        pure (RouteAnswer.plain (Response.deleted deleted)))
      (Conforms app L (Request.deleteObject headers bucket key)) f := by
    intro hanswer
    apply wp_fake_ask
    intro r f' hdoes
    rcases hdoes with ⟨rfl, rfl⟩
    unfold FakeBlobDriver.delete
    rw [h.entries, Option.isSome_map]
    refine ⟨⟨0, 0, (hanswer 0 0).symm⟩, h.changed rfl rfl ?_ ?_⟩
    · exact AList.lookup_erase _ _
    · intro place' hne
      exact AList.lookup_erase_ne hne
  have hexpected : forall now later,
      app.expected (L (bucket, key)) now later
        (Request.deleteObject headers bucket key) =
      App.Expected.deleteObject app (L (bucket, key)) headers bucket key :=
    fun _ _ => rfl
  unfold App.Route.deleteObject
  unfold App.Expected.deleteObject at hexpected
  refine h.checked hexpected ?_
  intro principal hauth hexpected
  refine h.checked hexpected ?_
  intro _ hgrammar hexpected
  rcases principal with ⟨kind, name⟩
  cases kind with
  | user =>
      refine h.checked (r := checkUserWritable app.settings key) hexpected ?_
      intro _ hwritable hexpected
      exact hdelete hexpected
  | service => exact hdelete hexpected

theorem headObject_conforms (h : Carries app f L) :
    (FakeBlobDriver.machine app.platform).wp
      (App.Route.headObject app headers bucket key)
      (Conforms app L (Request.headObject headers bucket key)) f := by
  have hexpected : forall now later,
      app.expected (L (bucket, key)) now later
        (Request.headObject headers bucket key) =
      App.Expected.headObject app (L (bucket, key)) headers bucket key now :=
    fun _ _ => rfl
  unfold App.Route.headObject
  unfold App.Expected.headObject at hexpected
  refine h.checked hexpected ?_
  intro _ hauth hexpected
  refine h.checked hexpected ?_
  intro _ hgrammar hexpected
  apply wp_fake_ask
  intro r f' hdoes
  rcases hdoes with ⟨⟨now, rfl⟩, rfl⟩
  unfold FakeBlobDriver.head
  rw [h.entries (bucket, key)]
  cases hheld : L (bucket, key) with
  | none =>
      rw [hheld] at hexpected
      exact h.refused now (hexpected now now)
  | some deposit =>
      rw [hheld] at hexpected
      refine ⟨⟨now, now, Eq.trans ?_ (hexpected now now).symm⟩, h⟩
      unfold App.headHeaders
      dsimp only [Option.map_some]
      rw [if_pos (digest_truthy deposit.entry.raw)]
      rfl

theorem createSignedUrl_conforms {payload : SignRequest}
    (h : Carries app f L) :
    (FakeBlobDriver.machine app.platform).wp
      (App.Route.createSignedUrl app headers payload)
      (Conforms app L (Request.createSignedUrl headers payload)) f := by
  have hexpected : forall now later,
      app.expected (L (payload.bucket, payload.key)) now later
        (Request.createSignedUrl headers payload) =
      App.Expected.createSignedUrl app headers payload now later :=
    fun _ _ => rfl
  unfold App.Route.createSignedUrl
  unfold App.Expected.createSignedUrl at hexpected
  refine h.checked hexpected ?_
  intro _ hauth hexpected
  refine h.checked hexpected ?_
  intro _ hgrammar hexpected
  apply wp_fake_ask
  intro r f' hdoes
  rcases hdoes with ⟨⟨now, rfl⟩, rfl⟩
  apply wp_fake_ask
  intro r f' hdoes
  rcases hdoes with ⟨⟨later, rfl⟩, rfl⟩
  refine ⟨⟨now, later, ?_⟩, h⟩
  refine Eq.trans ?_ (hexpected now later).symm
  unfold FakeBlobDriver.presignGet
  rw [h.signs, h.based]
  rfl

theorem signedGet_conforms {exp : Int} {sig : Text} (h : Carries app f L) :
    (FakeBlobDriver.machine app.platform).wp
      (App.Route.signedGet app bucket key exp sig)
      (Conforms app L (Request.signedGet bucket key exp sig)) f := by
  have hexpected : forall now later,
      app.expected (L (bucket, key)) now later
        (Request.signedGet bucket key exp sig) =
      App.Expected.signedGet app (L (bucket, key)) bucket key exp sig now :=
    fun _ _ => rfl
  unfold App.Route.signedGet
  unfold App.Expected.signedGet at hexpected
  refine h.checked hexpected ?_
  intro _ hgrammar hexpected
  apply wp_fake_ask
  intro r f' hdoes
  rcases hdoes with ⟨⟨now, rfl⟩, rfl⟩
  have hnow := hexpected now now
  change _ = (Signing.verifyAt _ _ _ _ _ _ _ >>= _) at hnow
  show (FakeBlobDriver.machine app.platform).wp
    (Prog.ofExcept (Signing.verifyAt _ _ _ _ _ _ _) >>= _) _ f'
  cases hverify : Signing.verifyAt app.platform app.settings.storageSignSecret
      bucket key exp sig (intOfRat now) with
  | error e =>
      rw [hverify] at hnow
      exact h.refused now hnow
  | ok valid =>
      rw [hverify] at hnow
      cases valid with
      | false => exact h.refused now hnow
      | true =>
          change _ = ite _ _ _ at hnow
          show (FakeBlobDriver.machine app.platform).wp
            (App.Route.serve app bucket key) _ f'
          unfold App.Route.serve
          split
          · rename_i hstreams
            rw [if_pos hstreams] at hnow
            apply wp_fake_ask
            intro r f' hdoes
            rcases hdoes with ⟨rfl, rfl⟩
            unfold FakeBlobDriver.get
            rw [h.entries (bucket, key)]
            cases hheld : L (bucket, key) with
            | none =>
                rw [hheld] at hnow
                exact h.refused now hnow
            | some deposit =>
                rw [hheld] at hnow
                exact ⟨⟨now, now, hnow.symm⟩, h⟩
          · rename_i hdirect
            rw [if_neg hdirect] at hnow
            exact ⟨⟨now, now, hnow.symm⟩, h⟩

/-- Every route gives an expected answer. -/
theorem route_conforms {request : Request} (h : Carries app f L) :
    (FakeBlobDriver.machine app.platform).wp (app.route request)
      (Conforms app L request) f := by
  cases request with
  | putObject headers bucket key contentType contentLength upsert body =>
      exact putObject_conforms h
  | createUpload headers bucket key file => exact createUpload_conforms h
  | deleteObject headers bucket key => exact deleteObject_conforms h
  | headObject headers bucket key => exact headObject_conforms h
  | createSignedUrl headers payload => exact createSignedUrl_conforms h
  | signedGet bucket key exp sig => exact signedGet_conforms h

end Requests

/-!
## One request after the other
-/

section Answers

variable {answered : List (Request × Except Exn RouteAnswer)}
  {exchange : Request × Except Exn RouteAnswer}

theorem App.ledger_append :
    app.ledger (answered ++ [exchange]) =
      app.settle (app.ledger answered) exchange := by
  unfold App.ledger
  rw [List.foldl_append]
  rfl

theorem App.Coherent.append (h : app.Coherent answered)
    (hexplained : app.Explained (app.ledger answered) exchange) :
    app.Coherent (answered ++ [exchange]) := by
  intro before exchange' after hsplit
  induction after using List.reverseRecOn with
  | nil =>
      rcases List.append_inj' hsplit rfl with ⟨rfl, hlast⟩
      cases hlast
      exact hexplained
  | append_singleton after last _ =>
      have hfront : answered = before ++ exchange' :: after := by
        have hdropped := congrArg List.dropLast hsplit
        rw [List.dropLast_concat, ← List.cons_append, ← List.append_assoc,
          List.dropLast_concat] at hdropped
        exact hdropped
      exact h before exchange' after hfront

end Answers

/-- The answers of the routes over the empty in-memory driver follow from one
another, and the driver keeps what the answers tell. -/
theorem fake_sessions_coherent {turns : List (Turn _ Request Exn RouteAnswer)}
    {f' : FakeBlobDriver}
    (h : FakeSessions app (FakeBlobDriver.like app.driver) turns f') :
    app.Coherent (turns.map Turn.answered) ∧
      Carries app f' (app.ledger (turns.map Turn.answered)) := by
  apply History.invariant (I := fun turns f =>
    app.Coherent (turns.map Turn.answered) ∧
      Carries app f (app.ledger (turns.map Turn.answered))) _ _ h
  · refine ⟨?_, Carries.start⟩
    intro before exchange after hsplit
    exact absurd hsplit.symm (List.append_ne_nil_of_right_ne_nil _
      (List.cons_ne_nil _ _))
  · intro turns f tag trace o f1 hbefore hrun _
    rcases hbefore with ⟨hcoherent, hcarries⟩
    have hconforms := Machine.wp_sound (route_conforms hcarries) hrun
    rw [List.map_append, List.map_singleton, App.ledger_append]
    exact ⟨hcoherent.append hconforms.explained, hconforms.carries⟩

/-!
## The service on an empty disk
-/

/-- Every slot of the tree holds what the ledger says: the body at the object's
place, the rest in the sidecar, and neither where nothing is held. -/
structure Deposited (app : App) (fs : FileTree) (L : Ledger) : Prop where
  objects : forall slot : Slot app.settings,
    storedObject app.driver slot fs =
      (L (slot.bucket, slot.key)).map Deposit.body
  records : forall (slot : Slot app.settings) deposit,
    L (slot.bucket, slot.key) = some deposit ->
    exists now, storedSidecar app.driver slot fs =
      some (sidecarBytes app.driver deposit.contentType
        (app.platform.sha256.digest deposit.body) deposit.body.length
        ((uploaderMetadata deposit.uploader).getD ∅) now)
  unheld : forall slot : Slot app.settings,
    L (slot.bucket, slot.key) = none ->
    storedSidecar app.driver slot fs = none

variable {S : Slot app.settings -> Prop} {pulls : Nat}

/-- The answers to polite requests follow from one another, and what they tell
is on the disk. -/
theorem sessions_coherent (hamicable : Amicable S) (buckets : List Text)
    (hbuckets : forall b, b ∈ buckets -> Plain b ∧ b ≠ tmpDir)
    {fs' : FileTree} {turns : List AnswerTurn}
    (h : Sessions app S pulls (freshTree app.driver.root buckets) turns fs') :
    app.Coherent (turns.map Turn.answered) ∧
      Deposited app fs' (app.ledger (turns.map Turn.answered)) := by
  have hinline : app.deliver pulls = fun request =>
      (app.driver.verbs pulls).inline (app.route request) :=
    funext (deliver_eq_inline app pulls)
  unfold Sessions at h
  rw [hinline] at h
  rcases Jobs.component_history (fun _ _ hpolite => hpolite.issues) h with
    ⟨turns', hcomponent, hsame⟩
  rcases (verbs_simulate hamicable).history (freshTree_shelved hbuckets)
    hcomponent with ⟨f', hfake, hshelved⟩
  rcases fake_sessions_coherent hfake with ⟨hcoherent, hcarries⟩
  rw [hsame] at hcoherent hcarries
  have hobjects : forall slot : Slot app.settings,
      storedObject app.driver slot fs' =
        (app.ledger (turns.map Turn.answered) (slot.bucket, slot.key)).map
          Deposit.body := by
    intro slot
    rw [hshelved.objects]
    unfold FakeBlobDriver.get
    rw [hcarries.entries, Option.map_map]
    rfl
  refine ⟨hcoherent, hobjects, ?_, ?_⟩
  · intro slot deposit hdeposit
    have hentry := hcarries.entries (slot.bucket, slot.key)
    rw [hdeposit] at hentry
    exact hshelved.records slot _ hentry
  · intro slot hvacant
    cases hraw : storedSidecar app.driver slot fs' with
    | none => rfl
    | some raw =>
        rcases hshelved.roomy.kempt.described slot raw hraw with ⟨b, hb, _⟩
        rw [hobjects, hvacant] at hb
        cases hb

theorem sessions_coherent_picture :
    pictureTurns.1.map Turn.tag = pictureRequests ∧
      sampleApp.Coherent (pictureTurns.1.map Turn.answered) ∧
      Deposited sampleApp pictureTurns.2
        (sampleApp.ledger (pictureTurns.1.map Turn.answered)) :=
  ⟨pictureTurns_tags, sessions_coherent twoPictures_amicable
    [text "assets"] (by decide) pictureTurns_sessions⟩

end StorybookStorage
