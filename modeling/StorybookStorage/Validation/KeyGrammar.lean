import StorybookStorage.Config.Settings
import StorybookStorage.Core.Errors

/-!
# Key and bucket grammar

`validation/key_grammar.py`.  The checks run in the order of the source and the
first that fails names the rule.
-/

namespace StorybookStorage

open Python Posix

namespace KeyGrammar

def maxKeyLen : Nat := 1024

def maxSegmentLen : Nat := 255

/-- The class of `_SEGMENT_RE`, with the at sign of `_SEGMENT_AT_RE`. -/
def segmentChar (allowAt : Bool) (c : Char) : Bool :=
  isAlnumAscii c || c == '.' || c == '_' || c == '-' || (allowAt && c == '@')

/-- `^[class]+$` at the start of the text. -/
def segmentMatches (allowAt : Bool) (seg : Text) : Bool :=
  let body := dollarBody seg
  !body.isEmpty && body.all (segmentChar allowAt)

/-- `^[a-z0-9-]{3,63}$` at the start of the text. -/
def bucketMatches (bucket : Text) : Bool :=
  let body := dollarBody bucket
  decide (3 ≤ body.length) && decide (body.length ≤ 63) &&
    body.all (fun c => isLowerOrDigit c || c == '-')

def validateBucket (settings : Settings) (bucket : Text) :
    Except ServiceError Unit :=
  if bucketMatches bucket = false then
    Except.error (validationError (text "Invalid bucket name"))
  else if settings.buckets.contains bucket = false then
    Except.error (validationError (text "Unknown bucket"))
  else
    Except.ok ()

def validateSegments (allowAt : Bool) : List Text -> Except ServiceError Unit
  | [] => Except.ok ()
  | seg :: rest =>
      if seg = [] ∨ seg = text "." ∨ seg = text ".." then
        Except.error
          (validationError (text "Empty or dot segment not allowed in key"))
      else if seg.length > maxSegmentLen then
        Except.error (validationError (text "Key segment too long"))
      else if segmentMatches allowAt seg = false then
        Except.error
          (validationError (text "Illegal character in key segment"))
      else
        validateSegments allowAt rest

def validateKey (key : Text) (allowAt : Bool) : Except ServiceError Unit :=
  if key = [] ∨ key.length > maxKeyLen then
    Except.error (validationError (text "Key length out of range"))
  else if startsWith key ['/'] then
    Except.error (validationError (text "Key must not start with '/'"))
  else if '\\' ∈ key then
    Except.error (validationError (text "Backslash not allowed in key"))
  else if '%' ∈ key then
    Except.error
      (validationError (text "Percent-encoding not allowed in key"))
  else if key.any (fun c => decide (c.toNat < 0x20)) then
    Except.error
      (validationError (text "Control characters not allowed in key"))
  else
    match validateSegments allowAt (key.splitOn '/') with
    | Except.error e => Except.error e
    | Except.ok _ =>
        let last := (key.splitOn '/').getLast (List.splitOn_ne_nil '/' key)
        if '.' ∉ last ∨ afterLast '.' last = [] then
          Except.error (validationError (text "Key must have a file extension"))
        else
          Except.ok ()

def validate (settings : Settings) (bucket key : Text) (allowAt : Bool) :
    Except ServiceError Unit :=
  match validateBucket settings bucket with
  | Except.error e => Except.error e
  | Except.ok _ => validateKey key allowAt

end KeyGrammar

end StorybookStorage
