import StorybookStorage.Drivers.Methods

/-!
# Sidecar records

What `head` makes of a sidecar that `put` wrote.
-/

namespace StorybookStorage

open Python Posix Effects Contract

variable {settings : Settings} (d : LocalFsBlobDriver)

def recordBytes (record : SidecarRecord) : Bytes :=
  encode (d.platform.json.dumps record.toJson)

theorem sidecarBytes_eq (contentType etag : Text) (size : Nat)
    (metadata : Metadata) (now : Rat) :
    sidecarBytes d contentType etag size metadata now =
      recordBytes d (d.sidecarRecord contentType etag size metadata now) := rfl

theorem readBack_recordBytes (record : SidecarRecord) :
    readBack d (recordBytes d record) = Except.ok (some record.toJson) := by
  unfold readBack recordBytes
  rw [decode_encode]
  dsimp only
  rw [d.platform.json.loads_dumps _ record.storable]

theorem recordBytes_injective {a b : SidecarRecord}
    (h : recordBytes d a = recordBytes d b) : a.toJson = b.toJson := by
  have hread := readBack_recordBytes d a
  rw [h, readBack_recordBytes] at hread
  simpa using hread.symm

theorem truthy_record (record : SidecarRecord) :
    record.toJson.truthy = true := rfl

def recordedInfo (key : Text) (modified : Text) (record : SidecarRecord) :
    ObjectInfo where
  key := key
  bytes := record.bytes
  contentType :=
    Json.orElse (some (Json.str record.contentType))
      (Json.str (d.guessMime key))
  etag := Json.str record.etag
  modifiedAt := modified
  metadata :=
    Json.orElse
      (some (Json.obj
        (record.metadata.entries.map fun kv => (kv.1, Json.str kv.2))))
      (Json.obj [])

def Records (slot : Slot settings) (v : View) : Prop :=
  forall raw, v (slot.sidecarLoc d.root) = some (Entry.file raw) ->
    exists record, raw = recordBytes d record

theorem Heads.ok {ι : Type} {K : Contract ι} {env : View -> View -> Prop}
    {v : View} {slot : Slot settings} {o : Except Exn (Option ObjectInfo)}
    (h : Heads d slot K env v o)
    (hrecords : forall v1 v2, env v v1 -> env v1 v2 -> Records d slot v2) :
    exists info, o = Except.ok info := by
  cases h with
  | absent v1 h1 hreason => exact ⟨none, rfl⟩
  | recorded st v1 v2 raw j h1 hthere hsize h2 hraw hback hj =>
      rcases hrecords v1 v2 h1 h2 raw hraw with ⟨record, rfl⟩
      rw [readBack_recordBytes] at hback
      cases hback
      exact ⟨_, rfl⟩
  | unreadable v1 v2 raw e h1 h2 hraw hback =>
      rcases hrecords v1 v2 h1 h2 raw hraw with ⟨record, rfl⟩
      rw [readBack_recordBytes] at hback
      cases hback
  | fallback st v1 v2 v3 etag h1 hthere hsize h2 hno h3 hetag =>
      exact ⟨_, rfl⟩

end StorybookStorage
