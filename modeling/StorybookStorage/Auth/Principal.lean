import StorybookStorage.Config.Settings
import StorybookStorage.Core.Platform

/-!
# Who is asking

`auth/`: service callers show a configured key, users a bearer token.  Every
failure is the one `UNAUTHORIZED` error.
-/

namespace StorybookStorage

open Python

inductive PrincipalKind where
  | service
  | user
deriving DecidableEq

structure Principal where
  kind : PrincipalKind
  name : Text

def Principal.uploaderTag (principal : Principal) : Text :=
  match principal.kind with
  | PrincipalKind.service => text "svc:" ++ principal.name
  | PrincipalKind.user => text "user:" ++ principal.name

structure HTTPAuthorizationCredentials where
  scheme : Text
  credentials : Text

/-- What the three dependencies read of a request: the `X-API-Key` header and
what the security scheme makes of `Authorization`. -/
structure AuthHeaders where
  xApiKey : Option Text
  credentials : Option HTTPAuthorizationCredentials

variable (platform : Platform) (settings : Settings)

/-- The last name whose value matches; all entries are compared. -/
def matchKeyName (supplied : Text) : Option Text :=
  settings.apiKeys.entries.foldl
    (fun matched entry =>
      if encode supplied = encode entry.2 then some entry.1 else matched)
    none

def requireApiKey (headers : AuthHeaders) : Except ServiceError Principal :=
  if settings.apiKeys.entries = [] then
    Except.error unauthorized
  else
    match headers.xApiKey with
    | none => Except.error unauthorized
    | some supplied =>
        match matchKeyName settings supplied with
        | none => Except.error unauthorized
        | some name =>
            Except.ok { kind := PrincipalKind.service, name := name }

def authenticateToken (token : Text) : Except ServiceError Principal :=
  match platform.decodeToken token with
  | none => Except.error unauthorized
  | some none => Except.error unauthorized
  | some (some sub) =>
      if sub = [] then
        Except.error unauthorized
      else
        Except.ok { kind := PrincipalKind.user, name := sub }

def requireUserJwt (headers : AuthHeaders) : Except ServiceError Principal :=
  match headers.credentials with
  | none => Except.error unauthorized
  | some bearer =>
      if platform.lower bearer.scheme ≠ text "bearer" ∨
          strip bearer.credentials = [] then
        Except.error unauthorized
      else
        authenticateToken platform (strip bearer.credentials)

/-- `require_api_key_or_user_jwt`: a wrong key falls through to the bearer. -/
def requireApiKeyOrUserJwt (headers : AuthHeaders) :
    Except ServiceError Principal :=
  match headers.xApiKey.bind (matchKeyName settings) with
  | some name => Except.ok { kind := PrincipalKind.service, name := name }
  | none => requireUserJwt platform headers

/-!
## What it takes to be accepted
-/

def ShowsApiKey (headers : AuthHeaders) : Prop :=
  exists entry, entry ∈ settings.apiKeys.entries ∧
    headers.xApiKey = some entry.2

def CarriesToken (headers : AuthHeaders) : Prop :=
  exists bearer sub, headers.credentials = some bearer ∧
    platform.decodeToken (strip bearer.credentials) = some (some sub)

variable {platform settings} {headers : AuthHeaders} {principal : Principal}

theorem foldl_match {entries : List (Sigma fun _ : Text => Text)}
    {supplied name : Text} {start : Option Text}
    (h : entries.foldl
      (fun matched entry =>
        if encode supplied = encode entry.2 then some entry.1 else matched)
      start = some name) :
    start = some name ∨ exists entry, entry ∈ entries ∧ supplied = entry.2 := by
  induction entries generalizing start with
  | nil => exact Or.inl h
  | cons first rest ih =>
      rcases ih h with hhere | ⟨entry, hentry, hvalue⟩
      · dsimp only at hhere
        split at hhere
        · rename_i hsame
          exact Or.inr ⟨first, List.mem_cons_self, encode_injective hsame⟩
        · exact Or.inl hhere
      · exact Or.inr ⟨entry, List.mem_cons_of_mem _ hentry, hvalue⟩

theorem showsApiKey_of_match {supplied name : Text}
    (hkey : headers.xApiKey = some supplied)
    (h : matchKeyName settings supplied = some name) :
    ShowsApiKey settings headers := by
  rcases foldl_match h with hno | ⟨entry, hentry, hvalue⟩
  · cases hno
  · exact ⟨entry, hentry, by rw [hkey, hvalue]⟩

theorem requireApiKey_ok (h : requireApiKey settings headers = Except.ok principal) :
    ShowsApiKey settings headers := by
  unfold requireApiKey at h
  split at h
  · cases h
  split at h
  · cases h
  rename_i supplied hkey
  split at h
  · cases h
  rename_i name hname
  exact showsApiKey_of_match hkey hname

theorem authenticateToken_ok {token : Text}
    (h : authenticateToken platform token = Except.ok principal) :
    principal.kind = PrincipalKind.user ∧
      platform.decodeToken token = some (some principal.name) := by
  unfold authenticateToken at h
  split at h
  · cases h
  · cases h
  · rename_i sub hsub
    split at h
    · cases h
    · cases h
      exact ⟨rfl, hsub⟩

theorem requireUserJwt_ok
    (h : requireUserJwt platform headers = Except.ok principal) :
    principal.kind = PrincipalKind.user ∧ CarriesToken platform headers := by
  unfold requireUserJwt at h
  split at h
  · cases h
  rename_i bearer hbearer
  split at h
  · cases h
  rcases authenticateToken_ok h with ⟨hkind, htoken⟩
  exact ⟨hkind, bearer, principal.name, hbearer, htoken⟩

theorem requireApiKeyOrUserJwt_ok
    (h : requireApiKeyOrUserJwt platform settings headers =
      Except.ok principal) :
    ShowsApiKey settings headers ∨
      principal.kind = PrincipalKind.user ∧ CarriesToken platform headers := by
  unfold requireApiKeyOrUserJwt at h
  split at h
  · rename_i name hname
    rcases Option.bind_eq_some_iff.mp hname with ⟨supplied, hkey, hmatch⟩
    exact Or.inl (showsApiKey_of_match hkey hmatch)
  · exact Or.inr (requireUserJwt_ok h)

/-- Every failure of authentication is the same error. -/
theorem requireApiKey_error {e : ServiceError}
    (h : requireApiKey settings headers = Except.error e) :
    e = unauthorized := by
  unfold requireApiKey at h
  split at h
  · cases h
    rfl
  split at h
  · cases h
    rfl
  split at h
  · cases h
    rfl
  · cases h

theorem requireUserJwt_error {e : ServiceError}
    (h : requireUserJwt platform headers = Except.error e) :
    e = unauthorized := by
  unfold requireUserJwt authenticateToken at h
  split at h
  · cases h
    rfl
  split at h
  · cases h
    rfl
  split at h
  · cases h
    rfl
  · cases h
    rfl
  split at h
  · cases h
    rfl
  · cases h

theorem requireApiKeyOrUserJwt_error {e : ServiceError}
    (h : requireApiKeyOrUserJwt platform settings headers = Except.error e) :
    e = unauthorized := by
  unfold requireApiKeyOrUserJwt at h
  split at h
  · cases h
  · exact requireUserJwt_error h

end StorybookStorage
