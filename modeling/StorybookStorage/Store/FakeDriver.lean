import StorybookStorage.Drivers.Protocol
import StorybookStorage.Store.Selection

/-!
# The in-memory driver

`tests/fakes/fake_blob_driver.py`, the driver the router tests run on: a
dictionary from buckets and keys to bodies, content types and metadata.  What it
tells about times is the time of the call.
-/

namespace StorybookStorage

open Python Posix Effects

structure FakeEntry where
  raw : Bytes
  contentType : Text
  metadata : Metadata

inductive FakeCall where
  | put (bucket key contentType : Text) (ifNoneMatch : Option Text)
      (metadata : Option Metadata)
  | delete (bucket key : Text)

structure FakeBlobDriver where
  store : AList fun _ : Text × Text => FakeEntry
  signSecret : Text
  publicBase : Text
  calls : List FakeCall

namespace FakeBlobDriver

/-- The empty driver that signs like another one. -/
def like (d : LocalFsBlobDriver) : FakeBlobDriver where
  store := ∅
  signSecret := d.signSecret
  publicBase := d.publicBase
  calls := []

variable (f : FakeBlobDriver) (py : Platform)

def noted (call : FakeCall) : FakeBlobDriver :=
  { f with calls := f.calls ++ [call] }

def met (bucket key : Text) (ifNoneMatch : Option Text) : Option FakeEntry :=
  if ifNoneMatch = some (text "*") then f.store.lookup (bucket, key) else none

def put (bucket key : Text) (data : Data) (contentType : Text)
    (ifNoneMatch : Option Text) (metadata : Option Metadata) :
    Except Exn PutResult × FakeBlobDriver :=
  let f' := f.noted (FakeCall.put bucket key contentType ifNoneMatch metadata)
  match f.met bucket key ifNoneMatch with
  | some existing =>
      (Except.ok
        { etag := Json.str (py.sha256.digest existing.raw)
          bytes := existing.raw.length
          deduped := true }, f')
  | none =>
      match data.ending with
      | some e => (Except.error e, f')
      | none =>
          let entry :=
            { raw := data.body
              contentType := contentType
              metadata := metadata.getD ∅ }
          (Except.ok
            { etag := Json.str (py.sha256.digest data.body)
              bytes := data.body.length
              deduped := false },
            { f' with store := f.store.insert (bucket, key) entry })

def get (bucket key : Text) : Option Bytes :=
  (f.store.lookup (bucket, key)).map FakeEntry.raw

def head (bucket key : Text) (now : Rat) : Option ObjectInfo :=
  (f.store.lookup (bucket, key)).map fun entry =>
    { key := key
      bytes := entry.raw.length
      contentType := Json.str entry.contentType
      etag := Json.str (py.sha256.digest entry.raw)
      modifiedAt := py.isoformat now
      metadata :=
        Json.obj
          (entry.metadata.entries.map fun kv => (kv.1, Json.str kv.2)) }

def delete (bucket key : Text) : Bool × FakeBlobDriver :=
  ((f.store.lookup (bucket, key)).isSome,
    { f.noted (FakeCall.delete bucket key) with
      store := f.store.erase (bucket, key) })

/-- `list` with the infos of its keys, each looked up at a time of its own. -/
def page (bucket pre : Text) (cursor : Option Text) (limit : Int)
    (clock : Text -> Rat) : ListPage :=
  let selected := list f.store.keys bucket pre cursor limit
  { objects := selected.1.filterMap fun key => f.head py bucket key (clock key)
    nextCursor := selected.2 }

def presignGet (bucket key : Text) (ttlSec : Int) (now : Rat) : Text :=
  let exp := intOfRat now + ttlSec
  let sig := Signing.sign py f.signSecret bucket key exp
  f.publicBase ++
    (text "/files-signed/" ++ bucket ++ '/' :: quote key ++
      (text "?exp=" ++ (intRepr exp ++ (text "&sig=" ++ sig))))

def Does : (verb : BlobVerb) -> Except Exn verb.Val -> FakeBlobDriver -> Prop
  | BlobVerb.put bucket key data contentType ifNoneMatch metadata, r, f' =>
      f.put py bucket key data contentType ifNoneMatch metadata = (r, f')
  | BlobVerb.get bucket key, r, f' =>
      r = Except.ok (f.get bucket key) ∧ f' = f
  | BlobVerb.head bucket key, r, f' =>
      (exists now, r = Except.ok (f.head py bucket key now)) ∧ f' = f
  | BlobVerb.delete bucket key, r, f' =>
      r = Except.ok (f.delete bucket key).1 ∧ f' = (f.delete bucket key).2
  | BlobVerb.list bucket pre cursor limit, r, f' =>
      (exists clock, r = Except.ok (f.page py bucket pre cursor limit clock)) ∧
        f' = f
  | BlobVerb.presignGet bucket key ttlSec, r, f' =>
      (exists now, r = Except.ok (f.presignGet py bucket key ttlSec now)) ∧ f' = f
  | BlobVerb.presignPut _ _ _, r, f' =>
      r = Except.error Exn.notImplementedError ∧ f' = f
  | BlobVerb.time, r, f' => (exists now, r = Except.ok now) ∧ f' = f

def machine (py : Platform) :
    Machine { Op := BlobVerb, Ret := fun verb => Except Exn verb.Val }
      FakeBlobDriver where
  Can _ _ := True
  Step f verb r f' := f.Does py verb r f'

end FakeBlobDriver

end StorybookStorage
