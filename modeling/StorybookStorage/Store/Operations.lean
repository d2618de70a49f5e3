import StorybookStorage.Drivers.Methods

/-!
# The store

The calls a client can make of the driver, as programs of one type, and the
two files of a slot.
-/

namespace StorybookStorage

open Python Posix Effects

inductive Operation (settings : Settings) where
  | put (slot : Slot settings) (data : Data) (contentType : Text)
      (ifNoneMatch : Option Text) (metadata : Option Metadata)
  | get (slot : Slot settings) (pulls : Nat)
  | head (slot : Slot settings)
  | delete (slot : Slot settings)
  | cleanupStaleTmp (olderThanSec : Rat)

inductive Reply where
  | put (result : PutResult)
  | get (stream : Option (Bytes × Bool))
  | head (info : Option ObjectInfo)
  | delete (existed : Bool)
  | cleanupStaleTmp (removed : Nat)

variable {settings : Settings} (d : LocalFsBlobDriver)

def Operation.run : Operation settings -> Io Reply
  | put slot data contentType ifNoneMatch metadata =>
      Reply.put <$>
        d.put slot.bucket slot.key data contentType ifNoneMatch metadata
  | get slot pulls => Reply.get <$> d.fetch slot.bucket slot.key pulls
  | head slot => Reply.head <$> d.head slot.bucket slot.key
  | delete slot => Reply.delete <$> d.delete slot.bucket slot.key
  | cleanupStaleTmp olderThanSec =>
      Reply.cleanupStaleTmp <$>
        StorybookStorage.cleanupStaleTmp d.root olderThanSec

def storedObject (slot : Slot settings) (fs : FileTree) : Option Bytes :=
  fs.content (slot.objectLoc d.root)

def storedSidecar (slot : Slot settings) (fs : FileTree) : Option Bytes :=
  fs.content (slot.sidecarLoc d.root)

theorem wp_map {σ α β : Type} {M : Machine calls σ} {p : Io α} {f : α -> β}
    {Q : Except Exn β -> σ -> Prop} {s : σ}
    (h : M.wp p (fun o t => Q (o.map f) t) s) : M.wp (f <$> p) Q s := by
  rw [← bind_pure_comp, Machine.wp_bind]
  apply Machine.wp_mono h
  intro o t ho
  cases o <;> exact ho

/-!
## Contents and views
-/

theorem view_of_content {L : Staging} {fs : FileTree} {p : Path} {b : Bytes}
    (hvisible : ¬ L.Hidden p) :
    L.view fs p = some (Entry.file b) <-> fs.content p = some b := by
  rw [Staging.view_file]
  unfold FileTree.content
  constructor
  · intro hfile
    rcases hfile with ⟨_, i, hnode, hdata⟩
    rw [hnode]
    exact congrArg some hdata
  · intro h
    refine ⟨hvisible, ?_⟩
    split at h
    · rename_i i hnode
      exact ⟨i, hnode, Option.some.inj h⟩
    · cases h

theorem view_storedObject (slot : Slot settings) {fs : FileTree} {b : Bytes} :
    (staging d.root).view fs (slot.objectLoc d.root) = some (Entry.file b) <->
      storedObject d slot fs = some b :=
  view_of_content (slot.visible_objectLoc d.root)

theorem view_storedSidecar (slot : Slot settings) {fs : FileTree}
    {b : Bytes} :
    (staging d.root).view fs (slot.sidecarLoc d.root) = some (Entry.file b) <->
      storedSidecar d slot fs = some b :=
  view_of_content (slot.visible_sidecarLoc d.root)

end StorybookStorage
