import StorybookStorage.Auth.Principal
import StorybookStorage.Drivers.Signing
import StorybookStorage.Validation.PrefixPolicy

/-!
# What the handlers share

The running application, the answers it gives, and the byte counter around an
incoming stream, `routers/storage/common.py`.
-/

namespace StorybookStorage

open Python Posix Effects

/-- The application: its settings, its platform, and the form `format_datetime`
gives to an ISO date, if it can be read. -/
structure App where
  platform : Platform
  settings : Settings
  httpDate : Text -> Option Text

/-- `build_driver`: the local driver on the configured root. -/
def App.driver (app : App) : LocalFsBlobDriver where
  platform := app.platform
  root := app.settings.storageRoot
  signSecret := app.settings.storageSignSecret
  publicBase := rstripChar '/' app.settings.publicBaseUrl

def checked {α : Type} : Except ServiceError α -> Io α
  | Except.ok a => pure a
  | Except.error e => Prog.raise (Exn.service e)

structure ObjectData where
  bucket : Text
  key : Text
  url : Text
  etag : Json
  bytes : Int
  deduped : Bool

/-- The headers of `head_object`; the etag is the value between the quotes. -/
structure HeadHeaders where
  contentLength : Text
  contentType : Json
  etag : Option Json
  lastModified : Option Text

inductive Response where
  | object (status : Nat) (data : ObjectData)
  | deleted (deleted : Bool)
  | head (headers : HeadHeaders)
  | signed (signedUrl expiresAt : Text)
  | accelRedirect (target : Text)
  | streaming (body : LocalFsBlobDriver.Stream)

def Response.status : Response -> Nat
  | Response.object status _ => status
  | _ => 200

def outcomeStatus : Except Exn Response -> Nat
  | Except.ok response => response.status
  | Except.error e => (errorResponse e).httpStatus

def buildPublicUrl (settings : Settings) (bucket key : Text) : Text :=
  settings.publicBaseUrl ++ (text "/files/" ++ bucket ++ '/' :: key)

def objectResponse (settings : Settings) (status : Nat) (bucket key : Text)
    (result : PutResult) : Response :=
  Response.object status
    { bucket := bucket
      key := key
      url := buildPublicUrl settings bucket key
      etag := result.etag
      bytes := result.bytes
      deduped := result.deduped }

/-!
## Counting
-/

/-- The chunks let through from a running total on, and how they end. -/
def countChunks (cap : Int) (ending : Option Exn) : List Bytes -> Int -> Source
  | [], _ => { chunks := [], ending := ending }
  | chunk :: rest, total =>
      if cap < total + chunk.length then
        { chunks := [], ending := some (Exn.service payloadTooLarge) }
      else
        let more := countChunks cap ending rest (total + chunk.length)
        { chunks := chunk :: more.chunks, ending := more.ending }

def countingStream (source : Source) (cap : Int) : Source :=
  countChunks cap source.ending source.chunks 0

section Counting

variable {cap total : Int} {ending : Option Exn} {chunks : List Bytes}

theorem countChunks_within
    (h : total + (chunks.flatten.length : Int) ≤ cap) :
    countChunks cap ending chunks total =
      { chunks := chunks, ending := ending } := by
  induction chunks generalizing total with
  | nil => rfl
  | cons chunk rest ih =>
      rw [List.flatten_cons, List.length_append] at h
      unfold countChunks
      rw [if_neg (by omega), ih (by omega)]

theorem countChunks_beyond (hbefore : total ≤ cap)
    (h : cap < total + (chunks.flatten.length : Int)) :
    (countChunks cap ending chunks total).ending =
        some (Exn.service payloadTooLarge) ∧
      total + ((countChunks cap ending chunks total).chunks.flatten.length : Int) ≤
        cap := by
  induction chunks generalizing total with
  | nil =>
      rw [List.flatten_nil, List.length_nil] at h
      omega
  | cons chunk rest ih =>
      rw [List.flatten_cons, List.length_append] at h
      unfold countChunks
      split
      · refine ⟨rfl, ?_⟩
        rw [List.flatten_nil, List.length_nil]
        omega
      · rcases @ih (total + chunk.length) (by omega) (by omega) with
          ⟨hending, hlength⟩
        refine ⟨hending, ?_⟩
        rw [List.flatten_cons, List.length_append]
        omega

theorem countChunks_ending :
    (countChunks cap ending chunks total).ending = ending ∨
      (countChunks cap ending chunks total).ending =
        some (Exn.service payloadTooLarge) := by
  induction chunks generalizing total with
  | nil => exact Or.inl rfl
  | cons chunk rest ih =>
      unfold countChunks
      split
      · exact Or.inr rfl
      · exact ih

end Counting

end StorybookStorage
