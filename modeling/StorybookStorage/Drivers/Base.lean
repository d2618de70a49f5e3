import StorybookStorage.Core.Platform

/-!
# Driver data

The argument and result types of the blob driver, `drivers/base.py`.  Values
read back from a sidecar file keep whatever JSON type they have there.
-/

namespace StorybookStorage

open Python Posix

abbrev Metadata := Dict Text

structure PutResult where
  etag : Json
  bytes : Int
  deduped : Bool

structure ObjectInfo where
  key : Text
  bytes : Int
  contentType : Json
  etag : Json
  modifiedAt : Text
  metadata : Json

structure ListPage where
  objects : List ObjectInfo
  nextCursor : Option Text

/-- A stream of chunks that ends by itself or by raising. -/
structure Source where
  chunks : List Bytes
  ending : Option Exn

inductive Data where
  | bytes (b : Bytes)
  | stream (source : Source)

/-- `_as_aiter`: one code path for both kinds, empty chunks dropped. -/
def asAiter : Data -> Source
  | Data.bytes b => { chunks := if b = [] then [] else [b], ending := none }
  | Data.stream source =>
      { chunks := source.chunks.filter (fun c => decide (c ≠ []))
        ending := source.ending }

def Data.body : Data -> Bytes
  | Data.bytes b => b
  | Data.stream source => source.chunks.flatten

def Data.ending : Data -> Option Exn
  | Data.bytes _ => none
  | Data.stream source => source.ending

theorem flatten_filter_ne_nil (chunks : List Bytes) :
    (chunks.filter (fun c => decide (c ≠ []))).flatten = chunks.flatten := by
  induction chunks with
  | nil => rfl
  | cons c rest ih =>
      rw [List.filter_cons]
      by_cases hc : c = []
      · rw [if_neg (by simpa using hc), ih, List.flatten_cons, hc,
          List.nil_append]
      · rw [if_pos (by simpa using hc), List.flatten_cons, ih,
          List.flatten_cons]

theorem asAiter_flatten (data : Data) :
    (asAiter data).chunks.flatten = data.body := by
  cases data with
  | bytes b =>
      by_cases hb : b = [] <;> simp [asAiter, Data.body, hb]
  | stream source => exact flatten_filter_ne_nil source.chunks

theorem asAiter_ending (data : Data) :
    (asAiter data).ending = data.ending := by
  cases data <;> rfl

structure SidecarRecord where
  contentType : Text
  etag : Text
  bytes : Nat
  uploadedAt : Text
  uploader : Text
  metadata : Metadata

def SidecarRecord.toJson (record : SidecarRecord) : Json :=
  Json.obj
    [(text "content_type", Json.str record.contentType),
      (text "etag", Json.str record.etag),
      (text "bytes", Json.int record.bytes),
      (text "uploaded_at", Json.str record.uploadedAt),
      (text "uploader", Json.str record.uploader),
      (text "metadata",
        Json.obj
          (record.metadata.entries.map fun kv => (kv.1, Json.str kv.2)))]

theorem storableFields_of_str (entries : List (Sigma fun _ : Text => Text)) :
    Json.Storable.StorableFields
      (entries.map fun kv => (kv.1, Json.str kv.2)) := by
  induction entries with
  | nil => trivial
  | cons kv rest ih => exact ⟨trivial, ih⟩

theorem SidecarRecord.storable (record : SidecarRecord) :
    record.toJson.Storable := by
  have hkeys :
      [text "content_type", text "etag", text "bytes", text "uploaded_at",
        text "uploader", text "metadata"].Nodup := by
    decide
  refine ⟨hkeys, trivial, trivial, trivial, trivial, trivial, ?_, trivial⟩
  refine ⟨?_, storableFields_of_str record.metadata.entries⟩
  have hmap : (record.metadata.entries.map
      fun kv => (kv.1, Json.str kv.2)).map Prod.fst =
        record.metadata.entries.keys := by
    simp [List.keys, List.map_map, Function.comp_def]
  rw [hmap]
  exact record.metadata.nodupKeys

end StorybookStorage
