import StorybookStorage.Config.Settings
import StorybookStorage.Core.Platform
import StorybookStorage.Python.Dict

/-!
# Reading the environment

`config/settings.py`: how the cached properties parse the texts of environment
variables.
-/

namespace StorybookStorage

open Python

variable (py : Platform) (texts : Reprs)

/-- The comma-separated reading. -/
def parseCsvList (raw : Text) : List Text :=
  ((raw.splitOn ',').map strip).filter fun s => decide (s ≠ [])

def parseJsonOrCsvList (raw : Text) : List Text :=
  let raw := strip raw
  if raw = [] then []
  else if startsWith raw ['['] then
    match py.json.loads raw with
    | Except.error _ => parseCsvList raw
    | Except.ok parsed =>
        match parsed.iterate with
        | none => parseCsvList raw
        | some items =>
            (items.map fun x => strip (x.toStr texts)).filter
              fun s => decide (s ≠ [])
  else
    parseCsvList raw

/-- The map of texts `_parse_json_map` makes of an object. -/
def stringMap (fields : List (Text × Json)) : Dict Text :=
  Dict.ofItems (fields.map fun field => (field.1, field.2.toStr texts))

def parseJsonMap (raw : Text) : Dict Text :=
  let raw := strip raw
  if raw = [] then ∅
  else
    match py.json.loads raw with
    | Except.error _ => ∅
    | Except.ok (Json.obj fields) => stringMap texts fields
    | Except.ok _ => ∅

/-- The exceptions `_parse_json_int_map` catches; two of them are kinds of
`ValueError`. -/
def intMapCaught : Exn -> Bool
  | Exn.jsonDecodeError => true
  | Exn.unicodeDecodeError => true
  | Exn.valueError => true
  | Exn.typeError => true
  | _ => false

/-- The entries of `_parse_json_int_map`, up to the first value `int`
refuses. -/
def intItems : List (Text × Json) -> Except Exn (List (Text × Int))
  | [] => Except.ok []
  | (k, v) :: rest => do
      let n ← py.intOf v
      let items ← intItems rest
      Except.ok ((k, n) :: items)

def parseJsonIntMap (raw : Text) : Except Exn (Dict Int) :=
  let raw := strip raw
  if raw = [] then Except.ok ∅
  else
    match py.json.loads raw with
    | Except.error _ => Except.ok ∅
    | Except.ok (Json.obj fields) =>
        match intItems py fields with
        | Except.ok items => Except.ok (Dict.ofItems items)
        | Except.error e =>
            if intMapCaught e then Except.ok ∅ else Except.error e
    | Except.ok _ => Except.ok ∅

namespace Settings

variable (settings : Settings)

def withBuckets (raw : Text) : Settings :=
  { settings with buckets := parseJsonOrCsvList py texts raw }

def withUserMimeCaps (raw : Text) : Except Exn Settings :=
  (parseJsonIntMap py raw).map
    fun caps => { settings with userMimeCaps := caps }

def withPrefixSizeCaps (raw : Text) : Except Exn Settings :=
  (parseJsonIntMap py raw).map
    fun caps => { settings with prefixSizeCaps := caps }

def withApiKeys (keys : Dict Text) : Settings :=
  { settings with apiKeys := keys }

end Settings

theorem parseJsonOrCsvList_stripped {raw s : Text}
    (h : s ∈ parseJsonOrCsvList py texts raw) : exists t, s = strip t := by
  have hcsv : forall t : Text, s ∈ parseCsvList t -> exists u, s = strip u := by
    intro t hs
    rcases List.mem_map.mp (List.mem_of_mem_filter hs) with ⟨u, _, rfl⟩
    exact ⟨u, rfl⟩
  unfold parseJsonOrCsvList at h
  dsimp only at h
  split at h
  · cases h
  split at h
  · split at h
    · exact hcsv _ h
    · split at h
      · exact hcsv _ h
      · rcases List.mem_map.mp (List.mem_of_mem_filter h) with ⟨x, _, rfl⟩
        exact ⟨_, rfl⟩
  · exact hcsv _ h

theorem strip_getLast (t : Text) : (strip t).getLast? ≠ some '\n' := by
  intro h
  rcases List.getLast?_eq_some_iff.mp h with ⟨front, hfront⟩
  have hne : strip t ≠ [] := by
    rw [hfront]
    simp
  have hlast := List.rdropWhile_last_not isSpace (t.dropWhile isSpace) hne
  have hget : (strip t).getLast hne = '\n' := by
    apply Option.some.inj
    rw [← h, List.getLast?_eq_some_getLast hne]
  unfold strip at hget
  rw [hget] at hlast
  exact hlast (by decide)

end StorybookStorage
