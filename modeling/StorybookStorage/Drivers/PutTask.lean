import StorybookStorage.Drivers.LocalFs
import StorybookStorage.Effects.Background

/-!
# A put as a coroutine

`put` of `drivers/local_fs.py` once more, with the places where it waits.  Each
`asyncio.to_thread` hands one job to a worker thread, and a streamed body is
waited for before every chunk and before its end.  Run without a cancellation
the coroutine is the method.
-/

namespace StorybookStorage

open Python Posix Effects

namespace LocalFsBlobDriver

/-- What `put` hands over or does on the spot. -/
inductive Job where
  | newTmpPath
  | utcnow
  | nextChunk
  | pathExists (p : Text)
  | safeStat (p : Text)
  | safeReadText (p : Text)
  | compute (p : Text)
  | openWrite (p : Text)
  | write (fh : Nat) (chunk : Bytes)
  | flush (fh : Nat)
  | fsync (fh : Nat)
  | close (fh : Nat)
  | makedirs (p : Text)
  | rename (src dst : Text)
  | rm (p : Text)
  | atomicWriteText (path body : Text)
deriving DecidableEq

abbrev Job.Val : Job -> Type
  | newTmpPath => Text
  | utcnow => Rat
  | nextChunk => Unit
  | pathExists _ => Bool
  | safeStat _ => Option Stat
  | safeReadText _ => Option Text
  | compute _ => Text
  | openWrite _ => Nat
  | write _ _ => Unit
  | flush _ => Unit
  | fsync _ => Unit
  | close _ => Unit
  | makedirs _ => Unit
  | rename _ _ => Unit
  | rm _ => Bool
  | atomicWriteText _ _ => Unit

/-- The coroutine draws a name and reads the clock itself. -/
def Job.awaited : Job -> Bool
  | newTmpPath => false
  | utcnow => false
  | _ => true

variable (d : LocalFsBlobDriver)

def compute (path : Text) : Io Text := do
  let fh ← Os.openRead path
  Prog.tryFinally
    (do
      let b ← Os.read fh none
      pure (d.platform.sha256.digest b))
    (Os.close fh)

def Job.run : (j : Job) -> Io j.Val
  | newTmpPath => StorybookStorage.newTmpPath d.root
  | utcnow => Os.time
  -- Waiting for the client is no work of the driver.
  | nextChunk => pure ()
  | pathExists p => Os.pathExists p
  | safeStat p => StorybookStorage.safeStat p
  | safeReadText p => StorybookStorage.safeReadText p
  | compute p => d.compute p
  | openWrite p => Os.openWrite p
  | write fh chunk => Os.write fh chunk
  | flush fh => Os.flush fh
  | fsync fh => Os.fsync fh
  | close fh => Os.close fh
  | makedirs p => Os.makedirs p
  | rename src dst => Os.rename src dst
  | rm p => safeUnlink p
  | atomicWriteText path body => StorybookStorage.atomicWriteText path body

abbrev jobs : Jobs calls Exn where
  Job := Job
  Val := Job.Val
  run := Job.run d
  awaited := Job.awaited
  cancelled := Exn.cancelled

/-!
## The coroutines
-/

def readSidecarTask (bucket key : Text) : d.jobs.Task (Option Json) :=
  Prog.tryCatch
    (do
      let mp ← Prog.ofExcept (metaPath d.root bucket key)
      let raw ← d.jobs.await (Job.safeReadText mp)
      match raw with
      | none => pure none
      | some t =>
          match d.platform.json.loads t with
          | Except.ok v => pure (some v)
          | Except.error _ => Prog.raise Exn.jsonDecodeError)
    (fun
      | Exn.os _ => pure none
      | Exn.jsonDecodeError => pure none
      | e => Prog.raise e)

def etagTask (path : Text) (size : Nat) : d.jobs.Task Text :=
  if size > etagFallbackMaxBytes then
    pure []
  else
    Prog.tryCatch (d.jobs.await (Job.compute path))
      (fun
        | Exn.os _ => pure []
        | e => Prog.raise e)

def headTask (bucket key : Text) : d.jobs.Task (Option ObjectInfo) := do
  let dest ← Prog.ofExcept (objectPath d.root bucket key)
  let stat ← d.jobs.await (Job.safeStat dest)
  match stat with
  | none => pure none
  | some st => do
      let modified := d.platform.isoformat st.mtime
      let sidecar ← d.readSidecarTask bucket key
      match sidecar.filter Json.truthy with
      | some v => do
          let info ← Prog.ofExcept (d.infoOfSidecar key st modified v)
          pure (some info)
      | none => do
          let etag ← d.etagTask dest st.size
          pure
            (some
              { key := key
                bytes := st.size
                contentType := Json.str (d.guessMime key)
                etag := Json.str etag
                modifiedAt := modified
                metadata := Json.obj [] })

/-- Only a streamed body is waited for. -/
def waitTask : Data -> d.jobs.Task Unit
  | Data.bytes _ => pure ()
  | Data.stream _ => d.jobs.await Job.nextChunk

def writeChunksTask (wait : d.jobs.Task Unit) (fh : Nat) :
    List Bytes -> d.platform.sha256.State × Nat ->
      d.jobs.Task (d.platform.sha256.State × Nat)
  | [], acc => pure acc
  | chunk :: rest, (hasher, total) => do
      wait
      d.jobs.await (Job.write fh chunk)
      writeChunksTask wait fh rest
        (d.platform.sha256.update hasher chunk, total + chunk.length)

def receiveTask (fh : Nat) (data : Data) :
    d.jobs.Task (d.platform.sha256.State × Nat) := do
  let acc ← d.writeChunksTask (d.waitTask data) fh (asAiter data).chunks
    (d.platform.sha256.init, 0)
  d.waitTask data
  match (asAiter data).ending with
  | some e => Prog.raise e
  | none => do
      d.jobs.await (Job.flush fh)
      d.jobs.await (Job.fsync fh)
      pure acc

def stageTask (tmp dest : Text) (data : Data) :
    d.jobs.Task (d.platform.sha256.State × Nat) := do
  let fh ← d.jobs.await (Job.openWrite tmp)
  let acc ← Prog.tryFinally (d.receiveTask fh data)
    (d.jobs.await (Job.close fh))
  d.jobs.await (Job.makedirs (dirname dest))
  d.jobs.await (Job.rename tmp dest)
  pure acc

def writeSidecarTask (bucket key contentType etag : Text) (size : Nat)
    (metadata : Metadata) : d.jobs.Task Unit := do
  let now ← d.jobs.await Job.utcnow
  let record := d.sidecarRecord contentType etag size metadata now
  Prog.tryCatch
    (do
      let mp ← Prog.ofExcept (metaPath d.root bucket key)
      d.jobs.await (Job.makedirs (dirname mp))
      d.jobs.await
        (Job.atomicWriteText mp (d.platform.json.dumps record.toJson)))
    (fun
      | Exn.os _ => pure ()
      | e => Prog.raise e)

def storeTask (bucket key dest : Text) (data : Data) (contentType : Text)
    (metadata : Option Metadata) : d.jobs.Task PutResult := do
  let tmp ← d.jobs.await Job.newTmpPath
  let (hasher, total) ←
    ((d.stageTask tmp dest data).tryCatch
      (fun e => Prog.raise (translateOsError e))).onError
      (d.jobs.await (Job.rm tmp))
  let etag := d.platform.sha256.hexdigest hasher
  d.writeSidecarTask bucket key contentType etag total (metadata.getD ∅)
  pure { etag := Json.str etag, bytes := total, deduped := false }

def putTask (bucket key : Text) (data : Data) (contentType : Text)
    (ifNoneMatch : Option Text) (metadata : Option Metadata) :
    d.jobs.Task PutResult := do
  let dest ← Prog.ofExcept (objectPath d.root bucket key)
  let met : Bool ←
    if ifNoneMatch = some (text "*") then
      d.jobs.await (Job.pathExists dest)
    else pure false
  if met then
    let info ← d.headTask bucket key
    pure (dedupResult info)
  else
    d.storeTask bucket key dest data contentType metadata

/-!
## Without a cancellation
-/

theorem inline_job (j : Job) : d.jobs.inline (d.jobs.await j) = j.run d :=
  d.jobs.inline_await j

theorem inline_readSidecarTask (bucket key : Text) :
    d.jobs.inline (d.readSidecarTask bucket key) = d.readSidecar bucket key := by
  unfold readSidecarTask readSidecar
  rw [Jobs.inline_tryCatch]
  refine congrArg₂ Prog.tryCatch ?_ (funext fun e => ?_)
  · rw [Jobs.inline_bind, Jobs.inline_ofExcept]
    refine congrArg _ (funext fun mp => ?_)
    rw [Jobs.inline_bind, inline_job]
    refine congrArg _ (funext fun raw => ?_)
    cases raw with
    | none => rfl
    | some t =>
        dsimp only
        cases d.platform.json.loads t <;> rfl
  · cases e <;> rfl

theorem inline_etagTask (path : Text) (size : Nat) :
    d.jobs.inline (d.etagTask path size) = d.etagFromFile path size := by
  unfold etagTask etagFromFile
  split
  · rfl
  · rw [Jobs.inline_tryCatch, inline_job]
    refine congrArg₂ Prog.tryCatch rfl (funext fun e => ?_)
    cases e <;> rfl

theorem inline_headTask (bucket key : Text) :
    d.jobs.inline (d.headTask bucket key) = d.head bucket key := by
  unfold headTask head
  rw [Jobs.inline_bind, Jobs.inline_ofExcept]
  refine congrArg _ (funext fun dest => ?_)
  rw [Jobs.inline_bind, inline_job]
  refine congrArg _ (funext fun stat => ?_)
  cases stat with
  | none => rfl
  | some st =>
      dsimp only
      rw [Jobs.inline_bind, inline_readSidecarTask]
      refine congrArg _ (funext fun sidecar => ?_)
      cases sidecar.filter Json.truthy with
      | some v =>
          dsimp only
          rw [Jobs.inline_bind, Jobs.inline_ofExcept]
          rfl
      | none =>
          dsimp only
          rw [Jobs.inline_bind, inline_etagTask]
          rfl

theorem inline_waitTask (data : Data) :
    d.jobs.inline (d.waitTask data) = pure () := by
  cases data <;> rfl

theorem inline_writeChunksTask {wait : d.jobs.Task Unit}
    (hwait : d.jobs.inline wait = pure ()) (fh : Nat) (chunks : List Bytes)
    (acc : d.platform.sha256.State × Nat) :
    d.jobs.inline (d.writeChunksTask wait fh chunks acc) =
      d.writeChunks fh chunks acc := by
  induction chunks generalizing acc with
  | nil => rfl
  | cons chunk rest ih =>
      unfold writeChunksTask writeChunks
      rw [Jobs.inline_bind, hwait, pure_bind, Jobs.inline_bind, inline_job]
      exact congrArg _ (funext fun _ => ih _)

theorem inline_receiveTask (fh : Nat) (data : Data) :
    d.jobs.inline (d.receiveTask fh data) = d.receive fh (asAiter data) := by
  unfold receiveTask receive
  rw [Jobs.inline_bind, d.inline_writeChunksTask (d.inline_waitTask data)]
  refine congrArg _ (funext fun acc => ?_)
  rw [Jobs.inline_bind, inline_waitTask, pure_bind]
  cases (asAiter data).ending with
  | some e => rfl
  | none =>
      dsimp only
      rw [Jobs.inline_bind, inline_job]
      refine congrArg _ (funext fun _ => ?_)
      rw [Jobs.inline_bind, inline_job]
      rfl

theorem inline_stageTask (tmp dest : Text) (data : Data) :
    d.jobs.inline (d.stageTask tmp dest data) =
      d.stage tmp dest (asAiter data) := by
  unfold stageTask stage
  rw [Jobs.inline_bind, inline_job]
  refine congrArg _ (funext fun fh => ?_)
  rw [Jobs.inline_bind, Jobs.inline_tryFinally, inline_receiveTask, inline_job]
  refine congrArg _ (funext fun acc => ?_)
  rw [Jobs.inline_bind, inline_job]
  refine congrArg _ (funext fun _ => ?_)
  rw [Jobs.inline_bind, inline_job]
  rfl

theorem inline_writeSidecarTask (bucket key contentType etag : Text)
    (size : Nat) (metadata : Metadata) :
    d.jobs.inline
        (d.writeSidecarTask bucket key contentType etag size metadata) =
      d.writeSidecar bucket key contentType etag size metadata := by
  unfold writeSidecarTask writeSidecar
  rw [Jobs.inline_bind, inline_job]
  refine congrArg _ (funext fun now => ?_)
  dsimp only
  rw [Jobs.inline_tryCatch]
  refine congrArg₂ Prog.tryCatch ?_ (funext fun e => ?_)
  · rw [Jobs.inline_bind, Jobs.inline_ofExcept]
    refine congrArg _ (funext fun mp => ?_)
    rw [Jobs.inline_bind, inline_job, inline_job]
    rfl
  · cases e <;> rfl

theorem inline_storeTask (bucket key dest : Text) (data : Data)
    (contentType : Text) (metadata : Option Metadata) :
    d.jobs.inline
        (d.storeTask bucket key dest data contentType metadata) =
      (do
        let tmp ← newTmpPath d.root
        let (hasher, total) ←
          ((d.stage tmp dest (asAiter data)).tryCatch
            (fun e => Prog.raise (translateOsError e))).onError
            (safeUnlink tmp)
        let etag := d.platform.sha256.hexdigest hasher
        d.writeSidecar bucket key contentType etag total (metadata.getD ∅)
        pure
          { etag := Json.str etag, bytes := total, deduped := false } :
        Io PutResult) := by
  unfold storeTask
  rw [Jobs.inline_bind, inline_job]
  refine congrArg _ (funext fun tmp => ?_)
  rw [Jobs.inline_bind, Jobs.inline_onError, Jobs.inline_tryCatch,
    inline_stageTask, inline_job]
  refine congrArg _ (funext fun acc => ?_)
  dsimp only
  rw [Jobs.inline_bind, inline_writeSidecarTask]
  rfl

/-- The coroutine that nobody cancels is `put`. -/
theorem inline_putTask (bucket key : Text) (data : Data) (contentType : Text)
    (ifNoneMatch : Option Text) (metadata : Option Metadata) :
    d.jobs.inline
        (d.putTask bucket key data contentType ifNoneMatch metadata) =
      d.put bucket key data contentType ifNoneMatch metadata := by
  unfold putTask put
  rw [Jobs.inline_bind, Jobs.inline_ofExcept]
  refine congrArg _ (funext fun dest => ?_)
  have hhead : d.jobs.inline
      (do
        let info ← d.headTask bucket key
        pure (dedupResult info)) =
      (do
        let info ← d.head bucket key
        pure (dedupResult info)) := by
    rw [Jobs.inline_bind, inline_headTask]
    rfl
  have hstore := d.inline_storeTask bucket key dest data contentType metadata
  dsimp only
  split
  · rw [Jobs.inline_bind, inline_job]
    refine congrArg _ (funext fun met => ?_)
    cases met with
    | true => exact hhead
    | false => exact hstore
  · exact hstore

end LocalFsBlobDriver

end StorybookStorage
