import StorybookStorage.Drivers.Base

/-!
# Disk layout

`drivers/paths.py`: where objects, sidecars and staging files live under the
storage root, the traversal check, and the sweep of stale staging files.
-/

namespace StorybookStorage

open Python Posix Effects

def metaDir : Text := text ".meta"

def tmpDir : Text := text ".tmp"

def assertWithin (root candidate : Text) : Except Exn Text :=
  let rootReal := realpath root
  let candReal := realpath candidate
  if candReal ≠ rootReal ∧ startsWith candReal (rootReal ++ ['/']) = false then
    Except.error Exn.valueError
  else
    Except.ok candReal

def objectPath (root bucket key : Text) : Except Exn Text :=
  let bucketRoot := join root bucket
  let joined := join bucketRoot key
  match assertWithin bucketRoot joined with
  | Except.error e => Except.error e
  | Except.ok _ => Except.ok joined

def metaPath (root bucket key : Text) : Except Exn Text :=
  let metaRoot := join (join root metaDir) bucket
  let joined := join metaRoot (key ++ text ".json")
  match assertWithin metaRoot joined with
  | Except.error e => Except.error e
  | Except.ok _ => Except.ok joined

def newTmpPath (root : Text) : Io Text := do
  let token ← Os.uuid4
  pure (join (join root tmpDir) token)

def makeAll : List Text -> Io Unit
  | [] => pure ()
  | p :: rest => do
      Os.makedirs p
      makeAll rest

def ensureLayout (root : Text) (buckets : List Text) : Io Unit :=
  makeAll
    (join root tmpDir :: join root metaDir ::
      buckets.flatMap fun b => [join root b, join (join root metaDir) b])

/-- One entry of the sweep: whether it was removed. -/
def sweepEntry (p : Text) (cutoff : Rat) : Io Bool :=
  Prog.tryCatch
    (do
      let regular ← Os.isfile p
      if regular then
        let mtime ← Os.getmtime p
        if mtime < cutoff then
          Os.remove p
          pure true
        else
          pure false
      else
        pure false)
    (fun
      | Exn.os _ => pure false
      | e => Prog.raise e)

def sweepNames (tmp : Text) (cutoff : Rat) : List Text -> Nat -> Io Nat
  | [], removed => pure removed
  | name :: rest, removed => do
      let gone ← sweepEntry (join tmp name) cutoff
      sweepNames tmp cutoff rest (if gone then removed + 1 else removed)

def cleanupStaleTmp (root : Text) (olderThanSec : Rat) : Io Nat := do
  let tmp := join root tmpDir
  let there ← Os.isdir tmp
  if there then
    let now ← Os.time
    let names ← Os.listdir tmp
    sweepNames tmp (now - olderThanSec) names 0
  else
    pure 0

end StorybookStorage
