import StorybookStorage.Drivers.Paths
import StorybookStorage.Python.Sequence

/-!
# The local file-system driver

`drivers/local_fs.py`.  Each method is a program over the file-system calls, in
the order the source makes them.
-/

namespace StorybookStorage

open Python Posix Effects

def chunkSize : Nat := 1024 * 1024

def etagFallbackMaxBytes : Nat := 100 * 1024 * 1024

structure LocalFsBlobDriver where
  platform : Platform
  root : Text
  signSecret : Text
  publicBase : Text

/-- `_safe_unlink`: every error counts as nothing removed. -/
def safeUnlink (path : Text) : Io Bool :=
  Prog.tryCatch
    (do
      Os.remove path
      pure true)
    (fun
      | Exn.os _ => pure false
      | e => Prog.raise e)

def safeStat (path : Text) : Io (Option Stat) :=
  Prog.tryCatch
    (do
      let st ← Os.stat path
      let regular ← Os.isfile path
      pure (if regular then some st else none))
    (fun
      | Exn.os _ => pure none
      | e => Prog.raise e)

def missingAsNone : Exn -> Io (Option Text)
  | Exn.os Errno.ENOENT => pure none
  | e => Prog.raise e

/-- `_safe_read_text`: only a missing file reads as nothing. -/
def safeReadText (path : Text) : Io (Option Text) :=
  Prog.tryCatch
    (do
      let fh ← Os.openRead path
      Prog.tryFinally
        (do
          let raw ← Os.read fh none
          match decode raw with
          | some t => pure (some t)
          | none => Prog.raise Exn.unicodeDecodeError)
        (Os.close fh))
    missingAsNone

def sidecarTmp (path token : Text) : Text :=
  path ++ ['.'] ++ token ++ text ".tmp"

def atomicWriteText (path body : Text) : Io Unit := do
  let token ← Os.uuid4
  let fh ← Os.openWrite (sidecarTmp path token)
  Prog.tryFinally (Os.write fh (encode body)) (Os.close fh)
  Os.rename (sidecarTmp path token) path

namespace LocalFsBlobDriver

variable (d : LocalFsBlobDriver)

def guessMime (key : Text) : Text :=
  let mime := (d.platform.guessType key).getD []
  if mime = [] then text "application/octet-stream" else mime

theorem guessMime_ne_nil (key : Text) : d.guessMime key ≠ [] := by
  unfold guessMime
  dsimp only
  split
  · decide
  · assumption

/-!
## Writing
-/

/-- The loop over the chunks: hash, count and write in one pass. -/
def writeChunks (fh : Nat) :
    List Bytes -> d.platform.sha256.State × Nat ->
      Io (d.platform.sha256.State × Nat)
  | [], acc => pure acc
  | chunk :: rest, (hasher, total) => do
      Os.write fh chunk
      writeChunks fh rest
        (d.platform.sha256.update hasher chunk, total + chunk.length)

def receive (fh : Nat) (source : Source) :
    Io (d.platform.sha256.State × Nat) := do
  let acc ← d.writeChunks fh source.chunks (d.platform.sha256.init, 0)
  match source.ending with
  | some e => Prog.raise e
  | none => do
      Os.flush fh
      Os.fsync fh
      pure acc

/-- The body of the `try` block of `put`. -/
def stage (tmp dest : Text) (source : Source) :
    Io (d.platform.sha256.State × Nat) := do
  let fh ← Os.openWrite tmp
  let acc ← Prog.tryFinally (d.receive fh source) (Os.close fh)
  Os.makedirs (dirname dest)
  Os.rename tmp dest
  pure acc

def translateOsError : Exn -> Exn
  | Exn.os Errno.ENOSPC => Exn.insufficientStorageError Errno.ENOSPC
  | Exn.os e => Exn.storageIoError e
  | e => e

def sidecarRecord (contentType etag : Text) (size : Nat) (metadata : Metadata)
    (now : Rat) : SidecarRecord where
  contentType := contentType
  etag := etag
  bytes := size
  uploadedAt := d.platform.isoformat now
  uploader := (metadata.lookup (text "uploader")).getD []
  metadata := metadata

/-- `_write_sidecar`: best effort, `OSError` is swallowed. -/
def writeSidecar (bucket key contentType etag : Text) (size : Nat)
    (metadata : Metadata) : Io Unit := do
  let now ← Os.time
  let record := d.sidecarRecord contentType etag size metadata now
  Prog.tryCatch
    (do
      let mp ← Prog.ofExcept (metaPath d.root bucket key)
      Os.makedirs (dirname mp)
      atomicWriteText mp (d.platform.json.dumps record.toJson))
    (fun
      | Exn.os _ => pure ()
      | e => Prog.raise e)

/-!
## Reading
-/

def readSidecar (bucket key : Text) : Io (Option Json) :=
  Prog.tryCatch
    (do
      let mp ← Prog.ofExcept (metaPath d.root bucket key)
      let raw ← safeReadText mp
      match raw with
      | none => pure none
      | some t =>
          match d.platform.json.loads t with
          | Except.ok v => pure (some v)
          | Except.error _ => Prog.raise Exn.jsonDecodeError)
    (fun
      | Exn.os _ => pure none
      | Exn.jsonDecodeError => pure none
      | e => Prog.raise e)

/-- `_etag_from_file`.  The chunked reading loop runs to the end of the file,
and the hash does not see the chunks. -/
def etagFromFile (path : Text) (size : Nat) : Io Text :=
  if size > etagFallbackMaxBytes then
    pure []
  else
    Prog.tryCatch
      (do
        let fh ← Os.openRead path
        Prog.tryFinally
          (do
            let b ← Os.read fh none
            pure (d.platform.sha256.digest b))
          (Os.close fh))
      (fun
        | Exn.os _ => pure []
        | e => Prog.raise e)

/-- The object info built from a truthy sidecar value.  Only a JSON object has
the `get` method this calls. -/
def infoOfSidecar (key : Text) (st : Stat) (modified : Text) :
    Json -> Except Exn ObjectInfo
  | Json.obj fields =>
      match d.platform.intOf
          ((Json.field fields (text "bytes")).getD (Json.int st.size)) with
      | Except.error e => Except.error e
      | Except.ok n =>
          Except.ok
            { key := key
              bytes := n
              contentType :=
                Json.orElse (Json.field fields (text "content_type"))
                  (Json.str (d.guessMime key))
              etag := (Json.field fields (text "etag")).getD (Json.str [])
              modifiedAt := modified
              metadata :=
                Json.orElse (Json.field fields (text "metadata"))
                  (Json.obj []) }
  | _ => Except.error Exn.attributeError

def head (bucket key : Text) : Io (Option ObjectInfo) := do
  let dest ← Prog.ofExcept (objectPath d.root bucket key)
  let stat ← safeStat dest
  match stat with
  | none => pure none
  | some st => do
      let modified := d.platform.isoformat st.mtime
      let sidecar ← d.readSidecar bucket key
      match sidecar.filter Json.truthy with
      | some v => do
          let info ← Prog.ofExcept (d.infoOfSidecar key st modified v)
          pure (some info)
      | none => do
          let etag ← d.etagFromFile dest st.size
          pure
            (some
              { key := key
                bytes := st.size
                contentType := Json.str (d.guessMime key)
                etag := Json.str etag
                modifiedAt := modified
                metadata := Json.obj [] })

/-- The streaming generator between two chunks. -/
inductive Stream where
  | fresh (path : Text)
  | reading (fh : Nat)
  | finished

/-- `get`: nothing where there is no regular file. -/
def get (bucket key : Text) : Io (Option Stream) := do
  let dest ← Prog.ofExcept (objectPath d.root bucket key)
  let there ← Os.isfile dest
  pure (if there then some (Stream.fresh dest) else none)

/-- One turn of the reading loop; the file is closed at its end and when
reading fails. -/
def Stream.pull (fh : Nat) : Io (Option Bytes × Stream) := do
  let chunk ← Prog.onError (Os.read fh (some chunkSize)) (Os.close fh)
  if chunk = [] then
    Os.close fh
    pure (none, Stream.finished)
  else
    pure (some chunk, Stream.reading fh)

def Stream.next : Stream -> Io (Option Bytes × Stream)
  | Stream.fresh path => do
      let fh ← Os.openRead path
      Stream.pull fh
  | Stream.reading fh => Stream.pull fh
  | Stream.finished => pure (none, Stream.finished)

/-- A client that asks for at most `pulls` chunks and then drops the stream: the
bytes it got, and whether the stream told it that it ended. -/
def Stream.consume : Nat -> Stream -> Bytes -> Io (Bytes × Bool)
  | 0, Stream.reading fh, got => do
      Os.close fh
      pure (got, false)
  | 0, _, got => pure (got, false)
  | pulls + 1, stream, got => do
      let (chunk, stream') ← stream.next
      match chunk with
      | none => pure (got, true)
      | some b => stream'.consume pulls (got ++ b)

/-- `get` with a client that reads the stream. -/
def fetch (bucket key : Text) (pulls : Nat) : Io (Option (Bytes × Bool)) := do
  let found ← d.get bucket key
  match found with
  | none => pure none
  | some stream => do
      let got ← stream.consume pulls []
      pure (some got)

/-!
## The two writing methods
-/

def dedupResult (info : Option ObjectInfo) : PutResult where
  etag := (info.map ObjectInfo.etag).getD (Json.str [])
  bytes := (info.map ObjectInfo.bytes).getD 0
  deduped := true

/-- `put`.  The flag `renamed` of the source is set by the last statement of the
try block, so it is false exactly while an exception propagates. -/
def put (bucket key : Text) (data : Data) (contentType : Text)
    (ifNoneMatch : Option Text) (metadata : Option Metadata) :
    Io PutResult := do
  let dest ← Prog.ofExcept (objectPath d.root bucket key)
  let met ←
    if ifNoneMatch = some (text "*") then Os.pathExists dest else pure false
  if met then
    let info ← d.head bucket key
    pure (dedupResult info)
  else
    let tmp ← newTmpPath d.root
    let (hasher, total) ←
      ((d.stage tmp dest (asAiter data)).tryCatch
        (fun e => Prog.raise (translateOsError e))).onError (safeUnlink tmp)
    let etag := d.platform.sha256.hexdigest hasher
    d.writeSidecar bucket key contentType etag total (metadata.getD ∅)
    pure { etag := Json.str etag, bytes := total, deduped := false }

def delete (bucket key : Text) : Io Bool := do
  let dest ← Prog.ofExcept (objectPath d.root bucket key)
  let existed ← safeUnlink dest
  let mp ← Prog.ofExcept (metaPath d.root bucket key)
  let _ ← safeUnlink mp
  pure existed

/-!
## Listing
-/

/-- The loops over a walk: the files whose path starts with `base`, by their
path from the bucket. -/
def walkKeys (bucketRoot base : Text) (found : List (Text × List Text)) :
    List Text :=
  found.flatMap fun entry =>
    ((entry.2.map fun name => join entry.1 name).filter
        fun full => startsWith full base).map
      fun full => relpath full bucketRoot

/-- `if cursor:` only a cursor with a character skips keys. -/
def beyond (cursor : Option Text) (keys : List Text) : List Text :=
  match cursor with
  | none => keys
  | some c => if c = [] then keys else keys.filter (fun k => decide (c < k))

/-- The loop over the keys of a page. -/
def heads (bucket : Text) : List Text -> Io (List ObjectInfo)
  | [] => pure []
  | k :: rest => do
      let info ← d.head bucket k
      let objects ← heads bucket rest
      pure (info.toList ++ objects)

def list (bucket pre : Text) (cursor : Option Text) (limit : Int) :
    Io ListPage := do
  let bucketRoot := join d.root bucket
  let base := join bucketRoot pre
  let found ← Os.walk bucketRoot
  let allKeys := beyond cursor (sortTexts (walkKeys bucketRoot base found))
  let pageKeys := sliceTo allKeys limit
  let objects ← d.heads bucket pageKeys
  let nextCursor :=
    if limit < allKeys.length then pageKeys.getLast? else none
  pure { objects := objects, nextCursor := nextCursor }

end LocalFsBlobDriver

end StorybookStorage
