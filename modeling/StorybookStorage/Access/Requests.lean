import StorybookStorage.Routers.Handlers
import StorybookStorage.Store.History

/-!
# What a request does to the store

Each handler checks its caller and its arguments, makes one call of the driver
and answers from the result.  A request that fails a check leaves the store as
it is.
-/

namespace StorybookStorage

open Python Posix Effects

variable {app : App} {M : Machine calls FileTree} {fs fs' : FileTree}
  {trace : List (Sigma calls.Ret)} {o : Except Exn Response}

theorem checked_runs {α β : Type} {r : Except ServiceError α} {f : α -> Io β}
    {o : Except Exn β} (h : M.Runs fs (checked r >>= f) trace o fs') :
    (exists a, r = Except.ok a ∧ M.Runs fs (f a) trace o fs') ∨
      exists e, r = Except.error e ∧ trace = [] ∧ fs' = fs ∧
        o = Except.error (Exn.service e) := by
  cases r with
  | ok a => exact Or.inl ⟨a, rfl, h⟩
  | error e =>
      cases h
      exact Or.inr ⟨e, rfl, rfl, rfl, rfl⟩

/-- A request that failed a check: nothing happened. -/
structure Turned (fs fs' : FileTree) (trace : List (Sigma calls.Ret))
    (o : Except Exn Response) (e : Exn) : Prop where
  quiet : trace = []
  same : fs' = fs
  raised : o = Except.error e

/-- The body `put_object` hands to the driver. -/
def App.serviceData (app : App) (key : Text) (body : Source) : Data :=
  Data.stream (countingStream body (resolveS2sCap app.settings key))

def uploaderMetadata (principal : Principal) : Option Metadata :=
  some (AList.singleton (text "uploader") principal.uploaderTag)

def App.putAnswer (app : App) (bucket key : Text) (upsert : Bool) :
    Except Exn PutResult -> Except Exn Response
  | Except.error e => Except.error e
  | Except.ok result =>
      if result.deduped = true ∧ upsert = false then
        Except.error (Exn.service alreadyExists)
      else
        Except.ok
          (objectResponse app.settings (if upsert then 200 else 201) bucket key
            result)

theorem App.putAnswer_deduped {bucket key : Text} {upsert : Bool}
    {result : PutResult} {e : Exn}
    (h : app.putAnswer bucket key upsert (Except.ok result) =
      Except.error e) : result.deduped = true := by
  unfold App.putAnswer at h
  dsimp only at h
  split at h
  · rename_i hrefused
    exact hrefused.left
  · cases h

theorem declaredLength_error {cap : Int} {declared : Option Text} {e : Exn}
    (h : app.declaredLength cap declared = Except.error e) :
    e = Exn.valueError ∨ e = Exn.service payloadTooLarge := by
  unfold App.declaredLength at h
  split at h
  · cases h
  split at h
  · split at h
    · cases h
      exact Or.inl rfl
    split at h
    · cases h
      exact Or.inr rfl
    · cases h
  · cases h

structure PutReaches (app : App) (M : Machine calls FileTree)
    (headers : AuthHeaders) (slot : Slot app.settings)
    (contentType contentLength : Option Text) (upsert : Bool) (body : Source)
    (fs fs' : FileTree) (trace : List (Sigma calls.Ret))
    (o : Except Exn Response) (principal : Principal)
    (o' : Except Exn PutResult) : Prop where
  authentic : requireApiKey app.settings headers = Except.ok principal
  typed : contentType.getD [] ≠ []
  declared : app.declaredLength (resolveS2sCap app.settings slot.key)
    contentLength = Except.ok ()
  run : M.Runs fs
    (app.driver.put slot.bucket slot.key (app.serviceData slot.key body)
      (contentType.getD []) (if upsert then none else some (text "*"))
      (uploaderMetadata principal)) trace o' fs'
  answer : o = app.putAnswer slot.bucket slot.key upsert o'

theorem App.putObject_runs {headers : AuthHeaders} {bucket key : Text}
    {contentType contentLength : Option Text} {upsert : Bool} {body : Source}
    (hrun : M.Runs fs
      (app.putObject headers bucket key contentType contentLength upsert body)
      trace o fs') :
    (exists e, Turned fs fs' trace o e ∧ e ≠ Exn.service alreadyExists) ∨
      exists (slot : Slot app.settings) (principal : Principal)
        (o' : Except Exn PutResult), slot.bucket = bucket ∧ slot.key = key ∧
        PutReaches app M headers slot contentType contentLength upsert body fs
          fs' trace o principal o' := by
  unfold App.putObject at hrun
  rcases checked_runs hrun with
    ⟨principal, hauth, hrun⟩ | ⟨e, he, hquiet, hsame, ho⟩
  · rcases checked_runs hrun with ⟨_, hgrammar, hrun⟩ | ⟨e, he, hquiet, hsame, ho⟩
    · dsimp only at hrun
      split at hrun
      · cases hrun
        exact Or.inl ⟨_, ⟨rfl, rfl, rfl⟩, by decide⟩
      · rename_i htyped
        cases hdeclared : app.declaredLength
            (resolveS2sCap app.settings key) contentLength with
        | error e =>
            rw [hdeclared] at hrun
            cases hrun
            refine Or.inl ⟨e, ⟨rfl, rfl, rfl⟩, ?_⟩
            rcases declaredLength_error hdeclared with rfl | rfl
            · decide
            · decide
        | ok _ =>
            rw [hdeclared] at hrun
            change M.Runs fs
              (app.driver.put bucket key (app.serviceData key body)
                (contentType.getD []) (if upsert then none else some (text "*"))
                (uploaderMetadata principal) >>= _) trace o fs' at hrun
            refine Or.inr ⟨⟨bucket, key, hgrammar⟩, principal, ?_⟩
            rcases Machine.runs_bind hrun with
              ⟨result, fs1, trace1, trace2, hput, hend, rfl⟩ | ⟨e, hput, rfl⟩
            · have hanswer : trace2 = [] ∧ fs' = fs1 ∧
                  o = app.putAnswer bucket key upsert (Except.ok result) := by
                unfold App.putAnswer
                dsimp only at hend ⊢
                split at hend
                · rename_i hrefused
                  cases hend
                  rw [if_pos hrefused]
                  exact ⟨rfl, rfl, rfl⟩
                · rename_i hcreated
                  cases hend
                  rw [if_neg hcreated]
                  exact ⟨rfl, rfl, rfl⟩
              rcases hanswer with ⟨rfl, rfl, ho⟩
              rw [List.append_nil]
              exact ⟨Except.ok result, rfl, rfl, hauth, htyped, hdeclared, hput,
                ho⟩
            · exact ⟨Except.error e, rfl, rfl, hauth, htyped, hdeclared, hput,
                rfl⟩
    · rcases KeyGrammar.validate_error he with ⟨message, rfl⟩
      refine Or.inl ⟨_, ⟨hquiet, hsame, ho⟩, ?_⟩
      intro heq
      cases congrArg ServiceError.code (Exn.service.inj heq)
  · rw [requireApiKey_error he] at ho
    exact Or.inl ⟨_, ⟨hquiet, hsame, ho⟩, by decide⟩

/-!
## The other routes that reach the driver
-/

def uploadData (file : UploadFile) (cap : Int) : Data :=
  Data.stream (countingStream (uploadIter file.reads) cap)

def uploadType (file : UploadFile) : Text :=
  if file.contentType.getD [] = [] then text "application/octet-stream"
  else file.contentType.getD []

structure UploadReaches (app : App) (M : Machine calls FileTree)
    (headers : AuthHeaders) (slot : Slot app.settings) (file : UploadFile)
    (fs fs' : FileTree) (trace : List (Sigma calls.Ret))
    (o : Except Exn Response) (principal : Principal) (cap : Int)
    (o' : Except Exn PutResult) : Prop where
  authentic : requireUserJwt app.platform headers = Except.ok principal
  narrow : KeyGrammar.validate app.settings slot.bucket slot.key false =
    Except.ok ()
  allowed : checkUserUpload app.platform app.settings slot.key
    file.contentType file.size = Except.ok cap
  run : M.Runs fs
    (app.driver.put slot.bucket slot.key (uploadData file cap)
      (uploadType file) none (uploaderMetadata principal)) trace o' fs'
  answer : o = o'.map (objectResponse app.settings 201 slot.bucket slot.key)

theorem App.createUpload_runs {headers : AuthHeaders} {bucket key : Text}
    {file : UploadFile}
    (hrun : M.Runs fs (app.createUpload headers bucket key file) trace o fs') :
    (exists e, Turned fs fs' trace o e) ∨
      exists (slot : Slot app.settings) (principal : Principal) (cap : Int)
        (o' : Except Exn PutResult), slot.bucket = bucket ∧ slot.key = key ∧
        UploadReaches app M headers slot file fs fs' trace o principal cap
          o' := by
  unfold App.createUpload at hrun
  rcases checked_runs hrun with
    ⟨principal, hauth, hrun⟩ | ⟨e, _, hquiet, hsame, ho⟩
  · rcases checked_runs hrun with ⟨_, hgrammar, hrun⟩ | ⟨e, _, hquiet, hsame, ho⟩
    · rcases checked_runs hrun with ⟨cap, hcap, hrun⟩ | ⟨e, _, hquiet, hsame, ho⟩
      · refine Or.inr ⟨⟨bucket, key, KeyGrammar.validate_mono hgrammar⟩,
          principal, cap, ?_⟩
        rw [bind_pure_comp] at hrun
        rcases Machine.runs_map hrun with ⟨o', hput, ho⟩
        exact ⟨o', rfl, rfl, hauth, hgrammar, hcap, hput, ho⟩
      · exact Or.inl ⟨_, hquiet, hsame, ho⟩
    · exact Or.inl ⟨_, hquiet, hsame, ho⟩
  · exact Or.inl ⟨_, hquiet, hsame, ho⟩

/-- A request of `delete_object` that reaches the driver.  A user is kept to the
narrow grammar and out of the service-only trees. -/
structure DeleteReaches (app : App) (M : Machine calls FileTree)
    (headers : AuthHeaders) (slot : Slot app.settings) (fs fs' : FileTree)
    (trace : List (Sigma calls.Ret)) (o : Except Exn Response)
    (principal : Principal) (o' : Except Exn Bool) : Prop where
  authentic : requireApiKeyOrUserJwt app.platform app.settings headers =
    Except.ok principal
  narrow : principal.kind = PrincipalKind.user ->
    KeyGrammar.validate app.settings slot.bucket slot.key false = Except.ok ()
  writable : principal.kind = PrincipalKind.user ->
    checkUserWritable app.settings slot.key = Except.ok ()
  run : M.Runs fs (app.driver.delete slot.bucket slot.key) trace o' fs'
  answer : o = o'.map Response.deleted

theorem App.deleteObject_runs {headers : AuthHeaders} {bucket key : Text}
    (hrun : M.Runs fs (app.deleteObject headers bucket key) trace o fs') :
    (exists e, Turned fs fs' trace o e) ∨
      exists (slot : Slot app.settings) (principal : Principal)
        (o' : Except Exn Bool), slot.bucket = bucket ∧ slot.key = key ∧
        DeleteReaches app M headers slot fs fs' trace o principal o' := by
  unfold App.deleteObject at hrun
  rcases checked_runs hrun with
    ⟨principal, hauth, hrun⟩ | ⟨e, _, hquiet, hsame, ho⟩
  · rcases checked_runs hrun with ⟨_, hgrammar, hrun⟩ | ⟨e, _, hquiet, hsame, ho⟩
    · have hslot := KeyGrammar.validate_mono hgrammar
      cases hkind : principal.kind with
      | user =>
          rw [hkind] at hgrammar hrun
          rcases checked_runs hrun with
            ⟨_, hwritable, hrun⟩ | ⟨e, _, hquiet, hsame, ho⟩
          · refine Or.inr ⟨⟨bucket, key, hslot⟩, principal, ?_⟩
            rw [bind_pure_comp] at hrun
            rcases Machine.runs_map hrun with ⟨o', hdelete, ho⟩
            exact ⟨o', rfl, rfl, hauth, fun _ => hgrammar, fun _ => hwritable,
              hdelete, ho⟩
          · exact Or.inl ⟨_, hquiet, hsame, ho⟩
      | service =>
          rw [hkind] at hrun
          change M.Runs fs (app.driver.delete bucket key >>= _) trace o fs' at hrun
          refine Or.inr ⟨⟨bucket, key, hslot⟩, principal, ?_⟩
          have huser : ¬ principal.kind = PrincipalKind.user := by
            rw [hkind]
            decide
          rw [bind_pure_comp] at hrun
          rcases Machine.runs_map hrun with ⟨o', hdelete, ho⟩
          exact ⟨o', rfl, rfl, hauth, fun h => absurd h huser,
            fun h => absurd h huser, hdelete, ho⟩
    · exact Or.inl ⟨_, hquiet, hsame, ho⟩
  · exact Or.inl ⟨_, hquiet, hsame, ho⟩

def App.headAnswer (app : App) :
    Except Exn (Option ObjectInfo) -> Except Exn Response
  | Except.error e => Except.error e
  | Except.ok none => Except.error (Exn.service notFound)
  | Except.ok (some found) => Except.ok (Response.head (app.headHeaders found))

structure HeadReaches (app : App) (M : Machine calls FileTree)
    (headers : AuthHeaders) (slot : Slot app.settings) (fs fs' : FileTree)
    (trace : List (Sigma calls.Ret)) (o : Except Exn Response)
    (o' : Except Exn (Option ObjectInfo)) : Prop where
  authentic : exists principal,
    requireApiKey app.settings headers = Except.ok principal
  run : M.Runs fs (app.driver.head slot.bucket slot.key) trace o' fs'
  answer : o = app.headAnswer o'

theorem App.headObject_runs {headers : AuthHeaders} {bucket key : Text}
    (hrun : M.Runs fs (app.headObject headers bucket key) trace o fs') :
    (exists e, Turned fs fs' trace o e) ∨
      exists (slot : Slot app.settings) (o' : Except Exn (Option ObjectInfo)),
        slot.bucket = bucket ∧ slot.key = key ∧
        HeadReaches app M headers slot fs fs' trace o o' := by
  unfold App.headObject at hrun
  rcases checked_runs hrun with
    ⟨principal, hauth, hrun⟩ | ⟨e, _, hquiet, hsame, ho⟩
  · rcases checked_runs hrun with ⟨_, hgrammar, hrun⟩ | ⟨e, _, hquiet, hsame, ho⟩
    · refine Or.inr ⟨⟨bucket, key, hgrammar⟩, ?_⟩
      rcases Machine.runs_bind hrun with
        ⟨info, fs1, trace1, trace2, hhead, hend, rfl⟩ | ⟨e, hhead, rfl⟩
      · cases info with
        | none =>
            cases hend
            rw [List.append_nil]
            exact ⟨Except.ok none, rfl, rfl, ⟨principal, hauth⟩, hhead, rfl⟩
        | some found =>
            cases hend
            rw [List.append_nil]
            exact ⟨Except.ok (some found), rfl, rfl, ⟨principal, hauth⟩, hhead,
              rfl⟩
      · exact ⟨Except.error e, rfl, rfl, ⟨principal, hauth⟩, hhead, rfl⟩
    · exact Or.inl ⟨_, hquiet, hsame, ho⟩
  · exact Or.inl ⟨_, hquiet, hsame, ho⟩

end StorybookStorage
