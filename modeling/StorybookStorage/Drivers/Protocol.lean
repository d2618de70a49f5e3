import StorybookStorage.Drivers.Signing
import StorybookStorage.Effects.Components

/-!
# The driver protocol

`drivers/base.py`: the verbs a driver offers.  What works through a driver also
reads the clock, so the clock is one verb more.
-/

namespace StorybookStorage

open Python Posix Effects

inductive BlobVerb where
  | put (bucket key : Text) (data : Data) (contentType : Text)
      (ifNoneMatch : Option Text) (metadata : Option Metadata)
  | get (bucket key : Text)
  | head (bucket key : Text)
  | delete (bucket key : Text)
  | list (bucket pre : Text) (cursor : Option Text) (limit : Int)
  | presignGet (bucket key : Text) (ttlSec : Int)
  | presignPut (bucket key : Text) (ttlSec : Int)
  | time

/-- What a verb answers.  The stream of `get` stands for its bytes. -/
abbrev BlobVerb.Val : BlobVerb -> Type
  | put _ _ _ _ _ _ => PutResult
  | get _ _ => Option Bytes
  | head _ _ => Option ObjectInfo
  | delete _ _ => Bool
  | list _ _ _ _ => ListPage
  | presignGet _ _ _ => Text
  | presignPut _ _ _ => Text
  | time => Rat

namespace LocalFsBlobDriver

variable (d : LocalFsBlobDriver) (pulls : Nat)

def presignPut (_d : LocalFsBlobDriver) (_bucket _key : Text) (_ttlSec : Int) :
    Io Text :=
  Prog.raise Exn.notImplementedError

/-- The verbs of the local driver, for clients that pull so many chunks of a
stream. -/
def perform : (verb : BlobVerb) -> Io verb.Val
  | BlobVerb.put bucket key data contentType ifNoneMatch metadata =>
      d.put bucket key data contentType ifNoneMatch metadata
  | BlobVerb.get bucket key =>
      (fun got => got.map Prod.fst) <$> d.fetch bucket key pulls
  | BlobVerb.head bucket key => d.head bucket key
  | BlobVerb.delete bucket key => d.delete bucket key
  | BlobVerb.list bucket pre cursor limit => d.list bucket pre cursor limit
  | BlobVerb.presignGet bucket key ttlSec => d.presignGet bucket key ttlSec
  | BlobVerb.presignPut bucket key ttlSec => d.presignPut bucket key ttlSec
  | BlobVerb.time => Os.time

abbrev verbs : Jobs calls Exn where
  Job := BlobVerb
  Val := BlobVerb.Val
  run := d.perform pulls
  awaited _ := true
  cancelled := Exn.cancelled

end LocalFsBlobDriver

abbrev Blob (α : Type) :=
  Prog { Op := BlobVerb, Ret := fun verb => Except Exn verb.Val } Exn α

namespace Blob

def ask (verb : BlobVerb) : Blob verb.Val := Prog.call verb Prog.ofExcept

end Blob

end StorybookStorage
