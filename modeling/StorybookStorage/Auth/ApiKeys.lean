import StorybookStorage.Auth.Principal
import StorybookStorage.Config.Environment
import StorybookStorage.Store.Fresh

/-!
# Configured keys that are no keys

`_parse_json_map` makes a text of every value, so an entry that is null or empty
becomes a key like any other.
-/

namespace StorybookStorage

open Python

def keyHeaders (xApiKey : Option Text) : AuthHeaders where
  xApiKey := xApiKey
  credentials := none

def Granted (result : Except ServiceError Principal) : Prop :=
  exists principal, result = Except.ok principal ∧
    principal.kind = PrincipalKind.service

def voidValue : Json -> Bool
  | Json.null => true
  | Json.str s => s.isEmpty
  | _ => false

def keptFields (fields : List (Text × Json)) : List (Text × Json) :=
  fields.filter fun field => !voidValue field.2

/-!
## Who is let in
-/

section Grants

variable {platform : Platform} {settings : Settings} {header : Option Text}

theorem foldl_match_some {entries : List (Sigma fun _ : Text => Text)}
    {supplied : Text} {start : Option Text}
    (h : (exists name, start = some name) ∨
      exists entry, entry ∈ entries ∧ supplied = entry.2) :
    exists name, entries.foldl
      (fun matched entry =>
        if encode supplied = encode entry.2 then some entry.1 else matched)
      start = some name := by
  induction entries generalizing start with
  | nil =>
      rcases h with hstart | ⟨_, hentry, _⟩
      · exact hstart
      · cases hentry
  | cons first rest ih =>
      apply ih
      dsimp only
      rcases h with ⟨name, hname⟩ | ⟨entry, hentry, hvalue⟩
      · refine Or.inl ?_
        split
        · exact ⟨first.1, rfl⟩
        · exact ⟨name, hname⟩
      · rcases List.mem_cons.mp hentry with rfl | hrest
        · rw [if_pos (by rw [hvalue])]
          exact Or.inl ⟨entry.1, rfl⟩
        · exact Or.inr ⟨entry, hrest, hvalue⟩

theorem matchKeyName_some {supplied : Text} :
    (exists name, matchKeyName settings supplied = some name) <->
      exists entry, entry ∈ settings.apiKeys.entries ∧ supplied = entry.2 := by
  constructor
  · intro h
    rcases h with ⟨name, hname⟩
    rcases foldl_match hname with hno | hentry
    · cases hno
    · exact hentry
  · intro h
    exact foldl_match_some (Or.inr h)

/-- A key is granted exactly to a header that is one of the configured
texts. -/
theorem requireApiKey_granted :
    Granted (requireApiKey settings (keyHeaders header)) <->
      exists entry, entry ∈ settings.apiKeys.entries ∧ header = some entry.2 := by
  constructor
  · intro h
    rcases h with ⟨principal, hok, _⟩
    exact requireApiKey_ok hok
  · intro h
    rcases h with ⟨entry, hentry, hheader⟩
    rcases matchKeyName_some.mpr ⟨entry, hentry, rfl⟩ with ⟨name, hname⟩
    have hne : settings.apiKeys.entries ≠ [] := List.ne_nil_of_mem hentry
    refine ⟨{ kind := PrincipalKind.service, name := name }, ?_, rfl⟩
    unfold requireApiKey
    rw [if_neg hne, hheader]
    dsimp only [keyHeaders]
    rw [hname]

theorem requireApiKeyOrUserJwt_granted :
    Granted (requireApiKeyOrUserJwt platform settings (keyHeaders header)) <->
      exists entry, entry ∈ settings.apiKeys.entries ∧ header = some entry.2 := by
  constructor
  · intro h
    rcases h with ⟨principal, hok, _⟩
    rcases requireApiKeyOrUserJwt_ok hok with hshows | ⟨_, bearer, sub, hno, _⟩
    · exact hshows
    · cases hno
  · intro h
    rcases h with ⟨entry, hentry, hheader⟩
    rcases matchKeyName_some.mpr ⟨entry, hentry, rfl⟩ with ⟨name, hname⟩
    refine ⟨{ kind := PrincipalKind.service, name := name }, ?_, rfl⟩
    have hbind : (keyHeaders header).xApiKey.bind (matchKeyName settings) =
        some name := by
      rw [hheader]
      exact hname
    unfold requireApiKeyOrUserJwt
    rw [hbind]

theorem requireApiKey_refused
    (h : ¬ Granted (requireApiKey settings (keyHeaders header))) :
    requireApiKey settings (keyHeaders header) = Except.error unauthorized := by
  cases hresult : requireApiKey settings (keyHeaders header) with
  | error e => rw [requireApiKey_error hresult]
  | ok principal =>
      refine absurd (requireApiKey_granted.mpr ?_) h
      exact requireApiKey_ok hresult

theorem requireApiKeyOrUserJwt_refused
    (h : ¬ Granted
      (requireApiKeyOrUserJwt platform settings (keyHeaders header))) :
    requireApiKeyOrUserJwt platform settings (keyHeaders header) =
      Except.error unauthorized := by
  cases hresult :
      requireApiKeyOrUserJwt platform settings (keyHeaders header) with
  | error e => rw [requireApiKeyOrUserJwt_error hresult]
  | ok principal =>
      refine absurd (requireApiKeyOrUserJwt_granted.mpr ?_) h
      rcases requireApiKeyOrUserJwt_ok hresult with hshows | ⟨_, _, _, hno, _⟩
      · exact hshows
      · cases hno

end Grants

/-!
## Void entries
-/

variable (py : Platform) (texts : Reprs) (settings : Settings)

structure VoidIgnored (raw : Text) (fields : List (Text × Json))
    (header : Option Text) : Prop where
  apiKey :
    Granted (requireApiKey (settings.withApiKeys (parseJsonMap py texts raw))
      (keyHeaders header)) <->
    Granted (requireApiKey
      (settings.withApiKeys (stringMap texts (keptFields fields)))
      (keyHeaders header))
  apiKeyOrJwt :
    Granted (requireApiKeyOrUserJwt py
      (settings.withApiKeys (parseJsonMap py texts raw)) (keyHeaders header)) <->
    Granted (requireApiKeyOrUserJwt py
      (settings.withApiKeys (stringMap texts (keptFields fields)))
      (keyHeaders header))
  /-- Showing no value that configures a key is refused. -/
  refused :
    (forall field, field ∈ keptFields fields ->
      header ≠ some (field.2.toStr texts)) ->
    requireApiKey (settings.withApiKeys (parseJsonMap py texts raw))
        (keyHeaders header) = Except.error unauthorized ∧
      requireApiKeyOrUserJwt py
        (settings.withApiKeys (parseJsonMap py texts raw)) (keyHeaders header) =
          Except.error unauthorized

def VoidOpens (fields : List (Text × Json)) (header : Option Text) : Prop :=
  ((header = some (text "None") ∧ exists name, (name, Json.null) ∈ fields) ∨
      (header = some [] ∧ exists name, (name, Json.str []) ∈ fields)) ∧
    forall field, field ∈ keptFields fields ->
      header ≠ some (field.2.toStr texts)

variable {py texts settings} {raw : Text} {fields : List (Text × Json)}
  {header : Option Text}

theorem stringMap_entries (h : (fields.map Prod.fst).Nodup) :
    (exists entry, entry ∈ (stringMap texts fields).entries ∧
        header = some entry.2) <->
      exists field, field ∈ fields ∧ header = some (field.2.toStr texts) := by
  unfold stringMap
  rw [Dict.entries_ofItems (by simpa [List.map_map, Function.comp_def] using h)]
  simp

theorem keptFields_nodup (h : (fields.map Prod.fst).Nodup) :
    ((keptFields fields).map Prod.fst).Nodup :=
  h.sublist (List.filter_sublist.map _)

theorem voidValue_cases {v : Json} (h : voidValue v = true) :
    v = Json.null ∨ v = Json.str [] := by
  cases v with
  | null => exact Or.inl rfl
  | str s =>
      have hs : s = [] := by simpa [voidValue] using h
      exact Or.inr (by rw [hs])
  | _ => cases h

theorem parseJsonMap_obj (hraw : strip raw ≠ [])
    (hloads : py.json.loads (strip raw) = Except.ok (Json.obj fields)) :
    parseJsonMap py texts raw = stringMap texts fields := by
  unfold parseJsonMap
  dsimp only
  rw [if_neg hraw, hloads]

/-- A header that some entry has as its text is the text of a kept entry, or
opens the service through a void one. -/
theorem shown_iff :
    (exists field, field ∈ fields ∧ header = some (field.2.toStr texts)) <->
      (exists field, field ∈ keptFields fields ∧
        header = some (field.2.toStr texts)) ∨ VoidOpens texts fields header := by
  constructor
  · intro h
    rcases h with ⟨⟨name, v⟩, hfield, hheader⟩
    rw [or_iff_not_imp_left]
    intro hkept
    refine ⟨?_, fun field hmem hsame => hkept ⟨field, hmem, hsame⟩⟩
    have hvoid : voidValue v = true := by
      by_contra hno
      apply hkept
      refine ⟨(name, v), ?_, hheader⟩
      exact List.mem_filter.mpr ⟨hfield, by simpa using hno⟩
    rcases voidValue_cases hvoid with rfl | rfl
    · exact Or.inl ⟨hheader, name, hfield⟩
    · exact Or.inr ⟨hheader, name, hfield⟩
  · intro h
    rcases h with ⟨field, hfield, hheader⟩ | ⟨hopen, _⟩
    · exact ⟨field, List.mem_of_mem_filter hfield, hheader⟩
    · rcases hopen with ⟨hheader, name, hfield⟩ | ⟨hheader, name, hfield⟩
      · exact ⟨_, hfield, hheader⟩
      · exact ⟨_, hfield, hheader⟩

def unsetFields : List (Text × Json) :=
  [(text "ops", Json.null), (text "ci", Json.str [])]

def unsetSecrets : Text := Json.dumps (Json.obj unsetFields)

theorem unsetSecrets_loads : sampleDriver.platform.json.loads
    (strip unsetSecrets) = Except.ok (Json.obj unsetFields) := by
  have hstrip : strip unsetSecrets = unsetSecrets := by decide +kernel
  have hstorable : (Json.obj unsetFields).Storable :=
    ⟨by decide +kernel, trivial, trivial, trivial⟩
  rw [hstrip]
  exact sampleDriver.platform.json.loads_dumps _ hstorable

end StorybookStorage
