import StorybookStorage.Drivers.Protocol
import StorybookStorage.Posix.Descriptors
import StorybookStorage.Service.Lifespan

/-!
# No descriptor is lost

Every verb of the driver opens at most one file at a time and closes it on every
way out, also when reading, writing or closing fails, when the client's stream
raises, and when the client drops a stream half read.
-/

namespace StorybookStorage

open Python Posix Effects

variable {α β : Type} {d : LocalFsBlobDriver}

/-- Nothing is open at the end if nothing was open at the start. -/
def Balanced (p : Io α) : Prop :=
  grip.machine.wp p (fun _ held => held = none) none

/-- What was open at the start is closed at the end. -/
def Releases (fh : Nat) (p : Io α) : Prop :=
  grip.machine.wp p (fun _ held => held = none) (some fh)

/-!
## How balanced programs are put together
-/

theorem Balanced.bind {p : Io α} {f : α -> Io β} (hp : Balanced p)
    (hf : forall a, Balanced (f a)) : Balanced (p >>= f) := by
  unfold Balanced
  rw [Machine.wp_bind]
  apply Machine.wp_mono hp
  intro o held hheld
  subst hheld
  cases o with
  | ok a => exact hf a
  | error e => rfl

theorem Balanced.tryCatch {p : Io α} {f : Exn -> Io α} (hp : Balanced p)
    (hf : forall e, Balanced (f e)) : Balanced (p.tryCatch f) := by
  unfold Balanced
  rw [Machine.wp_tryCatch]
  apply Machine.wp_mono hp
  intro o held hheld
  subst hheld
  cases o with
  | ok a => rfl
  | error e => exact hf e

theorem Balanced.onError {p : Io α} {f : Io β} (hp : Balanced p)
    (hf : Balanced f) : Balanced (p.onError f) := by
  unfold Balanced
  rw [Machine.wp_onError]
  apply Machine.wp_mono hp
  intro o held hheld
  subst hheld
  cases o with
  | ok a => rfl
  | error e =>
      apply Machine.wp_mono hf
      intro o held hheld
      cases o <;> exact hheld

theorem Balanced.map {p : Io α} {f : α -> β} (hp : Balanced p) :
    Balanced (f <$> p) :=
  wp_map hp

theorem Balanced.bare {p : Io α} (hp : p.Issues Bare) : Balanced p :=
  Tracker.wp_issues hp (fun _ hc => bare_can hc none)
    fun _ r hc => bare_next hc none r

theorem balanced_ofExcept (r : Except Exn α) : Balanced (Prog.ofExcept r) := by
  cases r <;> rfl

theorem Releases.bind {fh : Nat} {p : Io α} {f : α -> Io β}
    (hp : Releases fh p) (hf : forall a, Balanced (f a)) :
    Releases fh (p >>= f) := by
  unfold Releases
  rw [Machine.wp_bind]
  apply Machine.wp_mono hp
  intro o held hheld
  subst hheld
  cases o with
  | ok a => exact hf a
  | error e => rfl

theorem bare_op {c : Call} (h : Bare c) :
    Prog.Issues (S := calls) Bare (Prog.op (S := calls) c : Io (Call.Ret c)) :=
  issues_call c h

theorem bare_raising {α : Type} {p : Io (Except Errno α)} (hp : p.Issues Bare) :
    (raising p).Issues Bare :=
  issues_raising hp

theorem wp_grip_close {fh : Nat} {Q : Except Exn Unit -> Option Nat -> Prop}
    (h : forall o, Q o none) :
    grip.machine.wp (Os.close fh) Q (some fh) := by
  apply wp_raising
  apply Tracker.wp_op (show grip.Can (some fh) (Call.close fh) from rfl)
  intro r
  cases r <;> exact h _

theorem releases_finally {fh : Nat} {body : Io α} (hbody : body.Issues Bare) :
    Releases fh (Prog.tryFinally body (Os.close fh)) := by
  unfold Releases
  rw [Machine.wp_tryFinally]
  have hkept : grip.machine.wp body (fun _ held => held = some fh) (some fh) :=
    Tracker.wp_issues hbody (fun _ hc => bare_can hc _)
      fun _ r hc => bare_next hc _ r
  apply Machine.wp_mono hkept
  intro o held hheld
  subst hheld
  apply wp_grip_close
  intro o'
  cases o' <;> rfl

/-- The descriptor is open exactly if there is one. -/
def Opening (p : Io Nat) : Prop :=
  grip.machine.wp p (fun o held => held = o.toOption) none

theorem opening_write (t : Text) : Opening (Os.openWrite t) := by
  apply wp_raising
  apply Tracker.wp_op (show grip.Can none (Call.openWrite t) from rfl)
  intro r
  cases r <;> rfl

theorem opening_read (t : Text) : Opening (Os.openRead t) := by
  apply wp_raising
  apply Tracker.wp_op (show grip.Can none (Call.openRead t) from rfl)
  intro r
  cases r <;> rfl

theorem Opening.bind {p : Io Nat} {f : Nat -> Io α} (hp : Opening p)
    (hf : forall fh, Releases fh (f fh)) : Balanced (p >>= f) := by
  unfold Balanced
  rw [Machine.wp_bind]
  apply Machine.wp_mono hp
  intro o held hheld
  subst hheld
  cases o with
  | ok fh => exact hf fh
  | error e => rfl

/-!
## The driver
-/

theorem bare_remove (t : Text) : (Os.remove t).Issues Bare :=
  bare_raising (bare_op trivial)

theorem bare_makedirs (t : Text) : (Os.makedirs t).Issues Bare :=
  bare_raising (bare_op trivial)

theorem bare_rename (src dst : Text) : (Os.rename src dst).Issues Bare :=
  bare_raising (bare_op trivial)

theorem bare_write (fh : Nat) (b : Bytes) : (Os.write fh b).Issues Bare :=
  bare_raising (bare_op trivial)

theorem bare_read (fh : Nat) (limit : Option Nat) : (Os.read fh limit).Issues Bare :=
  bare_raising (bare_op trivial)

theorem safeUnlink_balanced (t : Text) : Balanced (safeUnlink t) := by
  apply Balanced.tryCatch
  · exact Balanced.bare ((bare_remove t).bind fun _ => Prog.issues_pure _)
  · intro e
    cases e <;> rfl

theorem safeStat_balanced (t : Text) : Balanced (safeStat t) := by
  apply Balanced.tryCatch
  · apply Balanced.bare
    apply (bare_raising (bare_op (c := Call.stat t) trivial)).bind
    intro st
    exact (bare_op (c := Call.isfile t) trivial).bind fun _ => Prog.issues_pure _
  · intro e
    cases e <;> rfl

theorem safeReadText_balanced (t : Text) : Balanced (safeReadText t) := by
  apply Balanced.tryCatch
  · apply (opening_read t).bind
    intro fh
    apply releases_finally
    apply (bare_read fh none).bind
    intro raw
    cases decode raw with
    | none => exact Prog.issues_raise _
    | some t => exact Prog.issues_pure _
  · intro e
    cases e with
    | os n => cases n <;> rfl
    | _ => rfl

theorem readSidecar_balanced (bucket key : Text) :
    Balanced (d.readSidecar bucket key) := by
  apply Balanced.tryCatch
  · apply (balanced_ofExcept _).bind
    intro mp
    apply (safeReadText_balanced mp).bind
    intro raw
    cases raw with
    | none => rfl
    | some t =>
        dsimp only
        cases d.platform.json.loads t <;> rfl
  · intro e
    cases e <;> rfl

theorem etagFromFile_balanced (path : Text) (size : Nat) :
    Balanced (d.etagFromFile path size) := by
  unfold LocalFsBlobDriver.etagFromFile
  split
  · rfl
  · apply Balanced.tryCatch
    · apply (opening_read path).bind
      intro fh
      exact releases_finally ((bare_read fh none).bind fun _ =>
        Prog.issues_pure _)
    · intro e
      cases e <;> rfl

theorem head_balanced (bucket key : Text) : Balanced (d.head bucket key) := by
  apply (balanced_ofExcept _).bind
  intro dest
  apply (safeStat_balanced dest).bind
  intro stat
  cases stat with
  | none => rfl
  | some st =>
      apply (readSidecar_balanced bucket key).bind
      intro sidecar
      cases sidecar.filter Json.truthy with
      | some v =>
          apply (balanced_ofExcept _).bind
          intro info
          rfl
      | none =>
          apply (etagFromFile_balanced dest st.size).bind
          intro etag
          rfl

theorem heads_balanced (bucket : Text) (keys : List Text) :
    Balanced (d.heads bucket keys) := by
  induction keys with
  | nil => rfl
  | cons k rest ih =>
      apply (head_balanced bucket k).bind
      intro info
      apply ih.bind
      intro objects
      rfl

theorem list_balanced (bucket pre : Text) (cursor : Option Text) (limit : Int) :
    Balanced (d.list bucket pre cursor limit) := by
  apply (Balanced.bare (bare_op (c := Call.walk _) trivial)).bind
  intro found
  apply (heads_balanced bucket _).bind
  intro objects
  rfl

theorem writeChunks_bare (fh : Nat) (chunks : List Bytes)
    (acc : d.platform.sha256.State × Nat) :
    (d.writeChunks fh chunks acc).Issues Bare := by
  induction chunks generalizing acc with
  | nil => exact Prog.issues_pure _
  | cons chunk rest ih => exact (bare_write fh chunk).bind fun _ => ih _

/-- A source that raises ends the receiving like a failing write does. -/
theorem receive_bare (fh : Nat) (source : Source) :
    (d.receive fh source).Issues Bare := by
  apply (writeChunks_bare fh source.chunks _).bind
  intro acc
  cases source.ending with
  | some e => exact Prog.issues_raise _
  | none =>
      apply (bare_raising (bare_op (c := Call.flush fh) trivial)).bind
      intro _
      apply (bare_raising (bare_op (c := Call.fsync fh) trivial)).bind
      intro _
      exact Prog.issues_pure _

theorem stage_balanced (tmp dest : Text) (source : Source) :
    Balanced (d.stage tmp dest source) := by
  apply (opening_write tmp).bind
  intro fh
  apply (releases_finally (receive_bare fh source)).bind
  intro acc
  apply Balanced.bare
  apply (bare_makedirs _).bind
  intro _
  exact (bare_rename tmp dest).bind fun _ => Prog.issues_pure _

theorem writeSidecar_balanced (bucket key contentType etag : Text) (size : Nat)
    (metadata : Metadata) :
    Balanced (d.writeSidecar bucket key contentType etag size metadata) := by
  apply (Balanced.bare (bare_op (c := Call.time) trivial)).bind
  intro now
  apply Balanced.tryCatch
  · apply (balanced_ofExcept _).bind
    intro mp
    apply (Balanced.bare (bare_makedirs _)).bind
    intro _
    apply (Balanced.bare (bare_op (c := Call.uuid4) trivial)).bind
    intro token
    apply (opening_write _).bind
    intro fh
    apply (releases_finally (bare_write fh _)).bind
    intro _
    exact Balanced.bare (bare_rename _ _)
  · intro e
    cases e <;> rfl

def putAnew (d : LocalFsBlobDriver) (bucket key dest : Text) (data : Data)
    (contentType : Text) (metadata : Option Metadata) : Io PutResult := do
  let tmp ← newTmpPath d.root
  let (hasher, total) ←
    ((d.stage tmp dest (asAiter data)).tryCatch
      (fun e => Prog.raise (LocalFsBlobDriver.translateOsError e))).onError
      (safeUnlink tmp)
  let etag := d.platform.sha256.hexdigest hasher
  d.writeSidecar bucket key contentType etag total (metadata.getD ∅)
  pure { etag := Json.str etag, bytes := total, deduped := false }

theorem putAnew_balanced (bucket key dest : Text) (data : Data)
    (contentType : Text) (metadata : Option Metadata) :
    Balanced (putAnew d bucket key dest data contentType metadata) := by
  have hdraws : Balanced (newTmpPath d.root) :=
    (Balanced.bare (bare_op (c := Call.uuid4) trivial)).bind fun _ => rfl
  apply hdraws.bind
  intro tmp
  have hstages := (stage_balanced (d := d) tmp dest (asAiter data)).tryCatch
    (f := fun e => Prog.raise (LocalFsBlobDriver.translateOsError e))
    fun _ => rfl
  apply (hstages.onError (safeUnlink_balanced tmp)).bind
  intro acc
  apply (writeSidecar_balanced bucket key contentType _ _ _).bind
  intro _
  rfl

theorem put_balanced (bucket key : Text) (data : Data) (contentType : Text)
    (ifNoneMatch : Option Text) (metadata : Option Metadata) :
    Balanced (d.put bucket key data contentType ifNoneMatch metadata) := by
  apply (balanced_ofExcept _).bind
  intro dest
  have hanew : Balanced (putAnew d bucket key dest data contentType metadata) :=
    putAnew_balanced bucket key dest data contentType metadata
  show Balanced (if ifNoneMatch = some (text "*") then _ else _)
  split
  · apply (Balanced.bare (bare_op (c := Call.pathExists dest) trivial)).bind
    intro met
    cases met with
    | false => exact hanew
    | true =>
        apply (head_balanced bucket key).bind
        intro info
        rfl
  · exact hanew

theorem delete_balanced (bucket key : Text) : Balanced (d.delete bucket key) := by
  apply (balanced_ofExcept _).bind
  intro dest
  apply (safeUnlink_balanced dest).bind
  intro existed
  apply (balanced_ofExcept _).bind
  intro mp
  apply (safeUnlink_balanced mp).bind
  intro _
  rfl

def gripOf : LocalFsBlobDriver.Stream -> Option Nat
  | LocalFsBlobDriver.Stream.reading fh => some fh
  | _ => none

/-- A file stays open only for a stream that has more to give. -/
def gripAfter (o : Except Exn (Option Bytes × LocalFsBlobDriver.Stream)) :
    Option Nat :=
  o.toOption.bind fun x => x.1.bind fun _ => gripOf x.2

theorem grip_pull (fh : Nat) :
    grip.machine.wp (LocalFsBlobDriver.Stream.pull fh)
      (fun o held => held = gripAfter o) (some fh) := by
  unfold LocalFsBlobDriver.Stream.pull
  rw [Machine.wp_bind, Machine.wp_onError]
  have hread : grip.machine.wp (Os.read fh (some chunkSize))
      (fun _ held => held = some fh) (some fh) :=
    Tracker.wp_issues (bare_read fh _) (fun _ hc => bare_can hc _)
      fun _ r hc => bare_next hc _ r
  apply Machine.wp_mono hread
  intro o held hheld
  subst hheld
  cases o with
  | error e =>
      apply wp_grip_close
      intro o
      cases o <;> rfl
  | ok chunk =>
      show grip.machine.wp (if chunk = [] then _ else _) _ _
      split
      · rw [Machine.wp_bind]
        apply wp_grip_close
        intro o
        cases o <;> rfl
      · rfl

theorem grip_next (stream : LocalFsBlobDriver.Stream) :
    grip.machine.wp stream.next (fun o held => held = gripAfter o)
      (gripOf stream) := by
  cases stream with
  | fresh path =>
      show grip.machine.wp (Os.openRead path >>= fun fh => _) _ none
      rw [Machine.wp_bind]
      apply Machine.wp_mono (opening_read path)
      intro o held hheld
      subst hheld
      cases o with
      | ok fh => exact grip_pull fh
      | error e => rfl
  | reading fh => exact grip_pull fh
  | finished => rfl

theorem grip_consume (pulls : Nat) (stream : LocalFsBlobDriver.Stream) (got : Bytes) :
    grip.machine.wp (stream.consume pulls got) (fun _ held => held = none)
      (gripOf stream) := by
  induction pulls generalizing stream got with
  | zero =>
      cases stream with
      | reading fh =>
          show grip.machine.wp (Os.close fh >>= fun _ => _) _ (some fh)
          rw [Machine.wp_bind]
          apply wp_grip_close
          intro o
          cases o <;> rfl
      | _ => rfl
  | succ pulls ih =>
      show grip.machine.wp (stream.next >>= fun _ => _) _ _
      rw [Machine.wp_bind]
      apply Machine.wp_mono (grip_next stream)
      intro o held hheld
      subst hheld
      cases o with
      | error e => rfl
      | ok x =>
          rcases x with ⟨chunk, stream'⟩
          cases chunk with
          | none => rfl
          | some b => exact ih stream' (got ++ b)

theorem fetch_balanced (bucket key : Text) (pulls : Nat) :
    Balanced (d.fetch bucket key pulls) := by
  unfold Balanced LocalFsBlobDriver.fetch LocalFsBlobDriver.get
  rw [Machine.wp_bind, Machine.wp_bind]
  cases objectPath d.root bucket key with
  | error e => rfl
  | ok dest =>
      show grip.machine.wp (Os.isfile dest >>= fun _ => _) _ _
      rw [Machine.wp_bind]
      apply Tracker.wp_op (show grip.Can none (Call.isfile dest) from trivial)
      intro there
      cases there with
      | false => rfl
      | true =>
          show grip.machine.wp
            ((LocalFsBlobDriver.Stream.fresh dest).consume pulls [] >>= fun _ => _)
            _ none
          rw [Machine.wp_bind]
          apply Machine.wp_mono
            (grip_consume pulls (LocalFsBlobDriver.Stream.fresh dest) [])
          intro o held hheld
          cases o <;> exact hheld

/-!
## The service
-/

theorem perform_balanced (pulls : Nat) (verb : BlobVerb) :
    Balanced (d.perform pulls verb) := by
  cases verb with
  | put bucket key data contentType ifNoneMatch metadata =>
      exact put_balanced bucket key data contentType ifNoneMatch metadata
  | get bucket key => exact (fetch_balanced bucket key pulls).map
  | head bucket key => exact head_balanced bucket key
  | delete bucket key => exact delete_balanced bucket key
  | list bucket pre cursor limit => exact list_balanced bucket pre cursor limit
  | presignGet bucket key ttlSec =>
      exact (Balanced.bare (bare_op (c := Call.time) trivial)).bind fun _ => rfl
  | presignPut bucket key ttlSec => rfl
  | time => exact Balanced.bare (bare_op (c := Call.time) trivial)

abbrev LocalFsBlobDriver.readings (d : LocalFsBlobDriver) : Jobs calls Exn where
  Job := BlobVerb × Nat
  Val asked := asked.1.Val
  run asked := d.perform asked.2 asked.1
  awaited _ := true
  cancelled := Exn.cancelled

abbrev Reader (α : Type) :=
  Prog { Op := BlobVerb × Nat, Ret := fun asked => Except Exn asked.1.Val } Exn α

theorem client_balanced (p : Reader α) : Balanced (d.readings.inline p) := by
  induction p with
  | done a => rfl
  | raise e => rfl
  | call asked k ih =>
      show grip.machine.wp ((d.perform asked.2 asked.1).handle _) _ none
      rw [Machine.wp_handle]
      apply Machine.wp_mono (perform_balanced asked.2 asked.1)
      intro o held hheld
      subst hheld
      exact ih o

theorem tends_bare {c : Call} (h : Tends c) : Bare c := by
  cases c with
  | openWrite t => exact h
  | openRead t => exact h
  | close fd => exact h
  | _ => trivial

/-- What runs in the processes of the service; clients ask for any verbs, as the
answers go. -/
inductive Chore where
  | client (p : Reader Unit)
  | startup (texts : Reprs) (storageDriver : Text)
      (diskUsage : Except Exn Nat)
  | sweeper (turns : Nat)

def Chore.run (d : LocalFsBlobDriver) (buckets : List Text) : Chore -> Io Unit
  | client p => d.readings.inline p
  | startup texts storageDriver diskUsage =>
      (fun _ => ()) <$>
        StorybookStorage.startup texts d.root buckets storageDriver diskUsage
  | sweeper turns => (fun _ => ()) <$> tmpSweeper d.root turns

theorem chore_balanced (buckets : List Text) (chore : Chore) :
    Balanced (chore.run d buckets) := by
  cases chore with
  | client p => exact client_balanced p
  | startup texts storageDriver diskUsage =>
      exact (Balanced.bare
        (startup_tends.imp fun _ hc => tends_bare hc)).map
  | sweeper turns =>
      exact (Balanced.bare
        (tmpSweeper_tends.imp fun _ hc => tends_bare hc)).map

@[reducible] def handleGame (d : LocalFsBlobDriver) (buckets : List Text) :
    Game calls FileTree Choice Chore Exn Unit where
  chooser := system anyFault
  program := Chore.run d buckets
  accepts _ := True
  guard _ _ _ := True
  stops := False

theorem layTree_handles {fs : FileTree} (places : List Text) :
    (layTree fs places).handles = fs.handles := by
  induction places generalizing fs with
  | nil => rfl
  | cons p rest ih => exact ih.trans (FileTree.mkdirs_handles _ _ _ _).left

def uploadPicture : Chore :=
  Chore.client (Prog.call
    (BlobVerb.put pictureSlot.bucket pictureSlot.key
      (sampleSource [[1, 2], [3]]) (text "image/png") none none, 0)
    fun r => Prog.ofExcept (r.map fun _ => ()))

def failedAndOpen : Pool calls FileTree Chore Exn Unit :=
  (handleGame sampleDriver sampleSettings.buckets).outcome sampleTree
    ([Event.spawn uploadPicture, Event.spawn uploadPicture] ++ callsOf 0 0 3 ++
      [Event.run 0 (sampleFault 3 3)] ++ callsOf 0 4 2 ++ callsOf 1 10 3)

end StorybookStorage
