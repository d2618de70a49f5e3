import StorybookStorage.Core.Errors
import StorybookStorage.Python.Json

/-!
# What the service takes from outside its source

The standard-library and third-party functions the service calls whose code is
not in the repository.  Each comes with the documented facts the code relies
on, so a platform that breaks its documentation cannot be built.
-/

namespace StorybookStorage

open Python Posix Effects

/-- `hashlib.sha256`: repeated updates are one update with the concatenation,
and the digest is a text of 64 hexadecimal digits. -/
structure Sha256 where
  State : Type
  init : State
  update : State -> Bytes -> State
  hexdigest : State -> Text
  digest : Bytes -> Text
  hexdigest_foldl : forall chunks : List Bytes,
    hexdigest (chunks.foldl update init) = digest chunks.flatten
  length_digest : forall b, (digest b).length = 64

structure JsonCodec where
  dumps : Json -> Text
  loads : Text -> Except Unit Json
  loads_dumps : forall v : Json, v.Storable -> loads (dumps v) = Except.ok v

structure Platform where
  sha256 : Sha256
  json : JsonCodec
  /-- `datetime.fromtimestamp(t, tz=utc).isoformat()`. -/
  isoformat : Rat -> Text
  /-- The type component of `mimetypes.guess_type`. -/
  guessType : Text -> Option Text
  /-- `int` of a text, or nothing where it raises `ValueError`. -/
  intOfText : Text -> Option Int
  /-- `str.lower`. -/
  lower : Text -> Text
  /-- `hmac.new(secret, message, sha256).hexdigest()`. -/
  hmacSha256 : Text -> Bytes -> Text
  /-- The verified claims of a token: nothing where decoding raises, else its
  `sub`. -/
  decodeToken : Text -> Option (Option Text)
  lower_ascii : forall t : Text,
    (t.all fun c => decide (c.toNat < 128 ∧ ¬ ('A' ≤ c ∧ c ≤ 'Z'))) = true ->
      lower t = t
  hmac_hex : forall secret message,
    ((hmacSha256 secret message).all
      fun c => decide (c ∈ text "0123456789abcdef")) = true

def Platform.intOf (py : Platform) : Json -> Except Exn Int
  | Json.null => Except.error Exn.typeError
  | Json.bool b => Except.ok (if b then 1 else 0)
  | Json.int n => Except.ok n
  | Json.float (PyFloat.finite q) => Except.ok (if 0 ≤ q then ⌊q⌋ else ⌈q⌉)
  | Json.float PyFloat.nan => Except.error Exn.valueError
  | Json.float (PyFloat.infinity _) => Except.error Exn.overflowError
  | Json.str s =>
      match py.intOfText s with
      | some n => Except.ok n
      | none => Except.error Exn.valueError
  | Json.arr _ => Except.error Exn.typeError
  | Json.obj _ => Except.error Exn.typeError

/-- The programs of the service: file-system calls and Python exceptions. -/
abbrev Io (α : Type) := Prog calls Exn α

/-- A call that raises `OSError` where it fails. -/
def raising {α : Type} (p : Io (Except Errno α)) : Io α :=
  p >>= fun
    | Except.ok a => pure a
    | Except.error e => Prog.raise (Exn.os e)

namespace Os

def uuid4 : Io Text := Prog.op (S := calls) Call.uuid4

def time : Io Rat := Prog.op (S := calls) Call.time

def pathExists (p : Text) : Io Bool := Prog.op (S := calls) (Call.pathExists p)

def isfile (p : Text) : Io Bool := Prog.op (S := calls) (Call.isfile p)

def isdir (p : Text) : Io Bool := Prog.op (S := calls) (Call.isdir p)

def stat (p : Text) : Io Stat := raising (Prog.op (S := calls) (Call.stat p))

def getmtime (p : Text) : Io Rat :=
  raising (Prog.op (S := calls) (Call.getmtime p))

def listdir (p : Text) : Io (List Text) :=
  raising (Prog.op (S := calls) (Call.listdir p))

def walk (p : Text) : Io (List (Text × List Text)) :=
  Prog.op (S := calls) (Call.walk p)

def openWrite (p : Text) : Io Nat :=
  raising (Prog.op (S := calls) (Call.openWrite p))

def openRead (p : Text) : Io Nat :=
  raising (Prog.op (S := calls) (Call.openRead p))

def write (fd : Nat) (chunk : Bytes) : Io Unit :=
  raising (Prog.op (S := calls) (Call.write fd chunk))

def flush (fd : Nat) : Io Unit := raising (Prog.op (S := calls) (Call.flush fd))

def fsync (fd : Nat) : Io Unit := raising (Prog.op (S := calls) (Call.fsync fd))

def close (fd : Nat) : Io Unit := raising (Prog.op (S := calls) (Call.close fd))

def read (fd : Nat) (limit : Option Nat) : Io Bytes :=
  raising (Prog.op (S := calls) (Call.read fd limit))

def makedirs (p : Text) : Io Unit :=
  raising (Prog.op (S := calls) (Call.makedirs p))

def rename (src dst : Text) : Io Unit :=
  raising (Prog.op (S := calls) (Call.rename src dst))

def remove (p : Text) : Io Unit :=
  raising (Prog.op (S := calls) (Call.remove p))

end Os

end StorybookStorage
