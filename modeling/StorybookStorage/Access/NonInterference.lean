import StorybookStorage.Access.Authority
import StorybookStorage.Access.Dedup
import StorybookStorage.Effects.Unwinding
import StorybookStorage.Store.Seclusion
import StorybookStorage.Validation.Exactness

/-!
# What users can do to the service

The same requests of the service, once among those of users and once without
them.  A user is kept off the keys under the service-only prefixes, but not off
the keys whose folders meet theirs.  Where users keep off those too, the service
finds the same under its prefixes.
-/

namespace StorybookStorage

open Python Posix Effects

def Protected (settings : Settings) (key : Text) : Prop :=
  exists pre, pre ∈ settings.serviceOnlyPrefixes ∧ pre <+: key

def Slot.address {settings : Settings} (slot : Slot settings) : Text × Text :=
  (slot.bucket, slot.key)

def Request.address : Request -> Option (Text × Text)
  | Request.putObject _ bucket key _ _ _ _ => some (bucket, key)
  | Request.createUpload _ bucket key _ => some (bucket, key)
  | Request.deleteObject _ bucket key => some (bucket, key)
  | Request.headObject _ bucket key => some (bucket, key)
  | Request.createSignedUrl _ _ => none
  | Request.signedGet _ _ _ _ => none

def Request.putAddress : Request -> Option (Text × Text)
  | Request.putObject _ bucket key _ _ _ _ => some (bucket, key)
  | _ => none

/-- A form upload, or a delete without an API key. -/
def App.byUser (app : App) : Request -> Bool
  | Request.createUpload _ _ _ _ => true
  | Request.deleteObject headers _ _ =>
      !decide (ShowsApiKey app.settings headers)
  | _ => false

/-!
## What is seen of an outcome
-/

structure Observed where
  status : Nat
  etag : Option Json
  bytes : Option Text
  flag : Option Bool

/-- The status, and the etag, the length and the flag where the answer has
one. -/
def observe : Except Exn Response -> Observed
  | Except.ok (Response.object status data) =>
      { status := status
        etag := some data.etag
        bytes := some (intRepr data.bytes)
        flag := some data.deduped }
  | Except.ok (Response.deleted deleted) =>
      { status := 200
        etag := none
        bytes := none
        flag := some deleted }
  | Except.ok (Response.head headers) =>
      { status := 200
        etag := headers.etag
        bytes := some headers.contentLength
        flag := none }
  | o =>
      { status := outcomeStatus o
        etag := none
        bytes := none
        flag := none }

abbrev RequestTurn := Turn calls Request Exn Response

def SameToService (app : App) (turn turn' : RequestTurn) : Prop :=
  forall bucket key, turn.tag.address = some (bucket, key) ->
    Protected app.settings key -> observe turn'.outcome = observe turn.outcome

/-!
## Where users must keep off
-/

/-- The protected slots the service asks for, and all neighbours of those it
puts. -/
inductive Zone (app : App) (served : List Request) : Slot app.settings -> Prop where
  | named (request : Request) (slot : Slot app.settings) :
      request ∈ served ->
      request.address = some slot.address ->
      Protected app.settings slot.key ->
      Zone app served slot
  | beside (request : Request) (slot slot' : Slot app.settings) :
      request ∈ served ->
      request.putAddress = some slot.address ->
      Zone app served slot ->
      Above slot slot' ∨ Above slot' slot ->
      Zone app served slot'

def PutBy (app : App) (served : List Request) (slot : Slot app.settings) : Prop :=
  exists request, request ∈ served ∧ request.putAddress = some slot.address

theorem zone_enclosed (app : App) (served : List Request) :
    Enclosed (Zone app served) (PutBy app served) := by
  intro slot slot' hzone hput hbeside
  rcases hput with ⟨request, hserved, haddress⟩
  exact Zone.beside request slot slot' hserved haddress hzone hbeside

theorem Slot.dot_mem_key {settings : Settings} (slot : Slot settings) :
    '.' ∈ slot.key := by
  have hkey := (KeyGrammar.validate_ok slot.accepted).right.right
  rcases (KeyGrammar.validateKey_iff.mp hkey).extension with
    ⟨stem, ext, hlast, _, _⟩
  have hdot : '.' ∈ (slot.key.splitOn '/').getLast
      (List.splitOn_ne_nil '/' slot.key) := by
    rw [hlast]
    simp
  exact mem_of_mem_splitOn (List.getLast_mem _) hdot

/-- Every key has a dot, so no key ends within a prefix that has none. -/
theorem Zone.protected {app : App} {served : List Request}
    {slot : Slot app.settings}
    (hplain : forall pre, pre ∈ app.settings.serviceOnlyPrefixes -> '.' ∉ pre)
    (h : Zone app served slot) : Protected app.settings slot.key := by
  induction h with
  | named request slot _ _ hprotected => exact hprotected
  | beside request slot slot' _ _ _ hbeside ih =>
      rcases ih with ⟨pre, hpre, hprefix⟩
      rcases hbeside with hbelow | habove
      · exact ⟨pre, hpre, hprefix.trans hbelow.key_prefix⟩
      · rcases List.prefix_or_prefix_of_prefix hprefix habove.key_prefix with
          hlong | hshort
        · exact ⟨pre, hpre, hlong⟩
        · exact absurd (hshort.subset slot'.dot_mem_key) (hplain pre hpre)

/-- A user who writes nothing in the zone that is not protected, and a service
that meets no leftovers on the way to its sidecars there. -/
structure Considerate (app : App) (served : List Request) (fs : FileTree)
    (turn : RequestTurn) : Prop where
  addressed : turn.tag.address ≠ none
  aside : app.byUser turn.tag = true -> forall slot : Slot app.settings,
    turn.tag.address = some slot.address -> Zone app served slot ->
      Protected app.settings slot.key
  clear : forall slot : Slot app.settings,
    turn.tag.putAddress = some slot.address -> Zone app served slot ->
      Unlittered app.driver slot fs

abbrev Served (app : App) (meets : FileTree -> RequestTurn -> Prop) :=
  History (system noFault).machine app.handle meets

/-!
## One request
-/

section Requests

variable {app : App} {served : List Request} {fs gs fs' gs' : FileTree}
  {ftrace gtrace : List (Sigma calls.Ret)} {fo go : Except Exn Response}
  {bucket key : Text} {headers : AuthHeaders}

structure Alongside (app : App) (served : List Request) (fs gs : FileTree) :
    Prop where
  left : Kempt app.driver app.settings fs
  right : Kempt app.driver app.settings gs
  agrees : Agrees app.driver (Zone app served) (PutBy app served) fs gs

theorem Kempt.aside {m : Mutation app.settings} {o : Except Exn Reply}
    (hkempt : Kempt app.driver app.settings fs)
    (hrun : (system noFault).machine.Runs fs (m.run app.driver) ftrace o fs')
    (hzone : ¬ Zone app served m.slot) : Alongside app served fs fs' where
  left := hkempt
  right := hkempt.turn hrun
  agrees := agrees_outside (zone_enclosed app served) hkempt.sound hrun hzone

theorem Alongside.step (h : Alongside app served fs gs)
    (hleft : Alongside app served fs fs') (hright : Alongside app served gs gs') :
    Alongside app served fs' gs' where
  left := hleft.right
  right := hright.right
  agrees := h.agrees.step hleft.agrees hright.agrees

theorem Alongside.advance (h : Alongside app served fs gs)
    (hleft : Alongside app served fs fs') : Alongside app served fs' gs where
  left := hleft.right
  right := h.right
  agrees := hleft.agrees.symm.trans h.agrees

theorem App.createUpload_aside {file : UploadFile}
    (hkempt : Kempt app.driver app.settings fs)
    (haside : forall slot : Slot app.settings, slot.bucket = bucket ->
      slot.key = key -> Zone app served slot -> Protected app.settings slot.key)
    (hrun : (system noFault).machine.Runs fs
      (app.createUpload headers bucket key file) ftrace fo fs') :
    Alongside app served fs fs' := by
  rcases App.createUpload_runs hrun with
    ⟨e, hturned⟩ | ⟨slot, principal, cap, o', hbucket, hkey, hreaches⟩
  · rw [hturned.same]
    exact ⟨hkempt, hkempt, agrees_refl fs⟩
  · have hfree := not_reserved hreaches.narrow
      (checkUserUpload_writable hreaches.allowed)
    have hmutation := hreaches.run.map Reply.put
    apply hkempt.aside (m := Mutation.put slot _ _ _ _) hmutation
    intro hzone
    exact hfree (Or.inr (haside slot hbucket hkey hzone))

theorem App.deleteObject_aside (hkempt : Kempt app.driver app.settings fs)
    (huser : ¬ ShowsApiKey app.settings headers)
    (haside : forall slot : Slot app.settings, slot.bucket = bucket ->
      slot.key = key -> Zone app served slot -> Protected app.settings slot.key)
    (hrun : (system noFault).machine.Runs fs
      (app.deleteObject headers bucket key) ftrace fo fs') :
    Alongside app served fs fs' := by
  rcases App.deleteObject_runs hrun with
    ⟨e, hturned⟩ | ⟨slot, principal, o', hbucket, hkey, hreaches⟩
  · rw [hturned.same]
    exact ⟨hkempt, hkempt, agrees_refl fs⟩
  · have hkind :=
      ((requireApiKeyOrUserJwt_ok hreaches.authentic).resolve_left huser).left
    have hfree := not_reserved (hreaches.narrow hkind) (hreaches.writable hkind)
    have hmutation := hreaches.run.map Reply.delete
    apply hkempt.aside (m := Mutation.delete slot) hmutation
    intro hzone
    exact hfree (Or.inr (haside slot hbucket hkey hzone))

/-- The checks before the first call decide the same way in every tree. -/
theorem both_reach {p : Io Response} {reached reached' : Prop}
    (hf : (system noFault).machine.Runs fs p ftrace fo fs')
    (hg : (system noFault).machine.Runs gs p gtrace go gs')
    (hfends : (exists e, Turned fs fs' ftrace fo e) ∨ reached)
    (hgends : (exists e, Turned gs gs' gtrace go e) ∨ reached') :
    (go = fo ∧ fs' = fs ∧ gs' = gs) ∨ (reached ∧ reached') := by
  rcases hfends with ⟨e, hturned⟩ | hreached
  · exact Or.inl (hf.alike_of_quiet hturned.quiet hg)
  rcases hgends with ⟨e, hturned⟩ | hreached'
  · rcases hg.alike_of_quiet hturned.quiet hf with ⟨ho, hgs, hfs⟩
    exact Or.inl ⟨ho.symm, hfs, hgs⟩
  · exact Or.inr ⟨hreached, hreached'⟩

theorem SameVerdict.observe {slot : Slot app.settings} {upsert : Bool}
    {r r' : Except Exn PutResult} (h : SameVerdict r r') :
    observe (app.putAnswer slot.bucket slot.key upsert r') =
      observe (app.putAnswer slot.bucket slot.key upsert r) := by
  cases h with
  | returned r => rfl
  | raised e => rfl
  | blocked n n' => rfl

theorem App.putObject_alongside {contentType contentLength : Option Text}
    {upsert : Bool} {body : Source} (h : Alongside app served fs gs)
    (hserved : Request.putObject headers bucket key contentType contentLength
      upsert body ∈ served)
    (hcf : forall slot : Slot app.settings, slot.bucket = bucket ->
      slot.key = key -> Zone app served slot -> Unlittered app.driver slot fs)
    (hcg : forall slot : Slot app.settings, slot.bucket = bucket ->
      slot.key = key -> Zone app served slot -> Unlittered app.driver slot gs)
    (hf : (system noFault).machine.Runs fs
      (app.putObject headers bucket key contentType contentLength upsert body)
      ftrace fo fs')
    (hg : (system noFault).machine.Runs gs
      (app.putObject headers bucket key contentType contentLength upsert body)
      gtrace go gs') :
    Alongside app served fs' gs' ∧
      (Protected app.settings key -> observe go = observe fo) := by
  have hfends := (App.putObject_runs hf).imp_left
    (Exists.imp fun _ hturned => hturned.left)
  have hgends := (App.putObject_runs hg).imp_left
    (Exists.imp fun _ hturned => hturned.left)
  rcases both_reach hf hg hfends hgends with ⟨rfl, rfl, rfl⟩ | ⟨hfreach, hgreach⟩
  · exact ⟨h, fun _ => rfl⟩
  rcases hfreach with ⟨slot, principal, r, rfl, rfl, hfreaches⟩
  rcases hgreach with ⟨slot', principal', r', hbucket, hkey, hgreaches⟩
  obtain rfl : slot' = slot := Slot.ext hbucket hkey
  obtain rfl : principal' = principal :=
    Except.ok.inj (hgreaches.authentic.symm.trans hfreaches.authentic)
  have hfmutation := hfreaches.run.map Reply.put
  have hgmutation := hgreaches.run.map Reply.put
  rw [hfreaches.answer, hgreaches.answer]
  by_cases hzone : Zone app served slot'
  · have hput : PutBy app served slot' := ⟨_, hserved, rfl⟩
    rcases h.agrees.put_agrees (zone_enclosed app served) h.left h.right
      (hcf slot' rfl rfl hzone) (hcg slot' rfl rfl hzone) hzone hput
      hfreaches.run hgreaches.run with ⟨hverdict, hagrees⟩
    refine ⟨⟨?_, ?_, hagrees⟩, fun _ => hverdict.observe⟩
    · exact h.left.turn (m := Mutation.put slot' _ _ _ _) hfmutation
    · exact h.right.turn (m := Mutation.put slot' _ _ _ _) hgmutation
  · refine ⟨h.step ?_ ?_, ?_⟩
    · exact h.left.aside (m := Mutation.put slot' _ _ _ _) hfmutation hzone
    · exact h.right.aside (m := Mutation.put slot' _ _ _ _) hgmutation hzone
    · intro hprotected
      exact absurd (Zone.named _ slot' hserved rfl hprotected) hzone

theorem App.deleteObject_alongside (h : Alongside app served fs gs)
    (hserved : Request.deleteObject headers bucket key ∈ served)
    (hf : (system noFault).machine.Runs fs (app.deleteObject headers bucket key)
      ftrace fo fs')
    (hg : (system noFault).machine.Runs gs (app.deleteObject headers bucket key)
      gtrace go gs') :
    Alongside app served fs' gs' ∧
      (Protected app.settings key -> observe go = observe fo) := by
  rcases both_reach hf hg (App.deleteObject_runs hf) (App.deleteObject_runs hg)
    with ⟨rfl, rfl, rfl⟩ | ⟨hfreach, hgreach⟩
  · exact ⟨h, fun _ => rfl⟩
  rcases hfreach with ⟨slot, principal, r, rfl, rfl, hfreaches⟩
  rcases hgreach with ⟨slot', principal', r', hbucket, hkey, hgreaches⟩
  obtain rfl : slot' = slot := Slot.ext hbucket hkey
  have hfmutation := hfreaches.run.map Reply.delete
  have hgmutation := hgreaches.run.map Reply.delete
  rw [hfreaches.answer, hgreaches.answer]
  by_cases hzone : Zone app served slot'
  · rcases h.agrees.delete_agrees h.left h.right hzone hfreaches.run
      hgreaches.run with ⟨⟨existed, rfl, rfl⟩, hagrees⟩
    refine ⟨⟨?_, ?_, hagrees⟩, fun _ => rfl⟩
    · exact h.left.turn (m := Mutation.delete slot') hfmutation
    · exact h.right.turn (m := Mutation.delete slot') hgmutation
  · refine ⟨h.step ?_ ?_, ?_⟩
    · exact h.left.aside (m := Mutation.delete slot') hfmutation hzone
    · exact h.right.aside (m := Mutation.delete slot') hgmutation hzone
    · intro hprotected
      exact absurd (Zone.named _ slot' hserved rfl hprotected) hzone

theorem observe_head {finfo ginfo : ObjectInfo} (hbytes : ginfo.bytes = finfo.bytes)
    (hetag : ginfo.etag = finfo.etag) :
    observe (app.headAnswer (Except.ok (some ginfo))) =
      observe (app.headAnswer (Except.ok (some finfo))) := by
  simp only [App.headAnswer, App.headHeaders, observe, hbytes, hetag]

theorem App.headObject_alongside (h : Alongside app served fs gs)
    (hserved : Request.headObject headers bucket key ∈ served)
    (hf : (system noFault).machine.Runs fs (app.headObject headers bucket key)
      ftrace fo fs')
    (hg : (system noFault).machine.Runs gs (app.headObject headers bucket key)
      gtrace go gs') :
    Alongside app served fs' gs' ∧
      (Protected app.settings key -> observe go = observe fo) := by
  rcases both_reach hf hg (App.headObject_runs hf) (App.headObject_runs hg)
    with ⟨rfl, rfl, rfl⟩ | ⟨hfreach, hgreach⟩
  · exact ⟨h, fun _ => rfl⟩
  rcases hfreach with ⟨slot, r, rfl, rfl, hfreaches⟩
  rcases hgreach with ⟨slot', r', hbucket, hkey, hgreaches⟩
  obtain rfl : slot' = slot := Slot.ext hbucket hkey
  have hfheads := (head_runs solo_noFault h.left.sound hfreaches.run).right.right
  have hgheads := (head_runs solo_noFault h.right.sound hgreaches.run).right.right
  refine ⟨⟨?_, ?_, ?_⟩, ?_⟩
  · exact h.left.head hfreaches.run
  · exact h.right.head hgreaches.run
  · exact h.agrees.step (head_agrees hfreaches.run) (head_agrees hgreaches.run)
  · intro hprotected
    have hzone := Zone.named _ slot' hserved rfl hprotected
    rw [hfreaches.answer, hgreaches.answer]
    rcases h.agrees.head hzone (h.left.head_answer hfheads)
        (h.right.head_answer hgheads) with
      ⟨rfl, rfl⟩ | ⟨finfo, ginfo, rfl, rfl, hbytes, hetag⟩
    · rfl
    · exact observe_head hbytes hetag

end Requests

/-!
## Any sequence of requests
-/

/-- Users that keep off the zone change nothing the service sees there, and
what the service does there comes out the same. -/
theorem unwinding_considerate (app : App) (served : List Request) :
    Unwinding (system noFault).machine app.handle
      (fun fs turn => Considerate app served fs turn ∧
        (app.byUser turn.tag = false -> turn.tag ∈ served))
      (fun request => !app.byUser request) (Alongside app served)
      (SameToService app) where
  hidden := by
    intro fs gs request trace o fs' h huser hrun hmeets
    rw [Bool.not_eq_false'] at huser
    have haside := hmeets.left.aside huser
    cases request with
    | createUpload headers bucket key file =>
        apply h.advance
        apply App.createUpload_aside h.left _ hrun
        intro slot hbucket hkey hzone
        subst hbucket hkey
        exact haside slot rfl hzone
    | deleteObject headers bucket key =>
        apply h.advance
        apply App.deleteObject_aside h.left _ _ hrun
        · simpa [App.byUser] using huser
        · intro slot hbucket hkey hzone
          subst hbucket hkey
          exact haside slot rfl hzone
    | _ => cases huser
  shown := by
    intro fs gs request ftrace gtrace fo go fs' gs' h hservice hf hfmeets hg hgmeets
    rw [Bool.not_eq_true'] at hservice
    have hserved := hfmeets.right hservice
    have hcf := hfmeets.left.clear
    have hcg := hgmeets.left.clear
    cases request with
    | putObject headers bucket key contentType contentLength upsert body =>
        have hboth := App.putObject_alongside h hserved ?_ ?_ hf hg
        · refine ⟨hboth.left, ?_⟩
          intro _ _ haddress
          cases haddress
          exact hboth.right
        · intro slot hbucket hkey hzone
          subst hbucket hkey
          exact hcf slot rfl hzone
        · intro slot hbucket hkey hzone
          subst hbucket hkey
          exact hcg slot rfl hzone
    | createUpload headers bucket key file => cases hservice
    | deleteObject headers bucket key =>
        have hboth := App.deleteObject_alongside h hserved hf hg
        refine ⟨hboth.left, ?_⟩
        intro _ _ haddress
        cases haddress
        exact hboth.right
    | headObject headers bucket key =>
        have hboth := App.headObject_alongside h hserved hf hg
        refine ⟨hboth.left, ?_⟩
        intro _ _ haddress
        cases haddress
        exact hboth.right
    | createSignedUrl headers payload => exact absurd rfl hfmeets.left.addressed
    | signedGet bucket key exp sig => exact absurd rfl hfmeets.left.addressed

/-- Where users keep off the zone, and no leftovers are in the way, every
request of the service on a protected key comes out as it does without them. -/
theorem service_unaffected {app : App} {fs0 fs fs' : FileTree}
    {turns turns' : List RequestTurn} (hfresh : Fresh app.driver.root fs0)
    (hturns : Served app (Considerate app (turns'.map Turn.tag)) fs0 turns fs)
    (hturns' : Served app (Considerate app (turns'.map Turn.tag)) fs0 turns' fs')
    (hservice : turns'.map Turn.tag =
      (turns.map Turn.tag).filter fun request => !app.byUser request) :
    List.Forall₂ (SameToService app)
      (turns.filter fun turn => !app.byUser turn.tag) turns' := by
  have hlisted : forall turn, turn ∈ turns -> app.byUser turn.tag = false ->
      turn.tag ∈ turns'.map Turn.tag := by
    intro turn hturn huser
    rw [hservice]
    exact List.mem_filter.mpr ⟨List.mem_map_of_mem hturn, by rw [huser]; rfl⟩
  have hnoted := hturns.note
    (P := fun request => app.byUser request = false ->
      request ∈ turns'.map Turn.tag) hlisted
  have hnoted' := hturns'.note
    (P := fun request => app.byUser request = false ->
      request ∈ turns'.map Turn.tag) fun _ hturn _ => List.mem_map_of_mem hturn
  have hstart : Alongside app (turns'.map Turn.tag) fs0 fs0 :=
    ⟨hfresh.kempt, hfresh.kempt, agrees_refl fs0⟩
  exact ((unwinding_considerate app _).histories hstart hnoted hnoted'
    hservice).right

/-!
## Two small systems
-/

def uploadOf (key : String) : Request :=
  Request.createUpload userHeaders (text "assets") (text key) sampleFile

def serviceCreates (key : String) : Request :=
  Request.putObject serviceHeaders (text "assets") (text key)
    (some (text "image/png")) none false sampleBody

def systemRequests : List Request :=
  [ Request.headObject serviceHeaders (text "assets") (text "system/x.png"),
    serviceCreates "system/x.png",
    Request.deleteObject serviceHeaders (text "assets") (text "system/x.png") ]

def mixedRequests : List Request :=
  uploadOf "a.png" :: systemRequests ++
    [Request.deleteObject userHeaders (text "assets") (text "a.png")]

def systemSlot : Slot sampleApp.settings := sampleSlot "system/x.png"

/-- Nothing is in the way of the sidecar of the one key that is put. -/
def Unobstructed (fs : FileTree) (turn : RequestTurn) : Prop :=
  turn.tag.address.isSome = true ∧
    (turn.tag.putAddress = none ∨
      turn.tag.putAddress = some systemSlot.address) ∧
    forall q, q ∈ (systemSlot.sidecarLoc sampleApp.driver.root).dropLast.inits ->
      fs.isFile q = false

instance (fs : FileTree) (turn : RequestTurn) : Decidable (Unobstructed fs turn) :=
  inferInstanceAs (Decidable (_ ∧ _ ∧ _))

theorem Unobstructed.considerate {fs : FileTree} {turn : RequestTurn}
    {served : List Request} (h : Unobstructed fs turn) :
    Considerate sampleApp served fs turn where
  addressed := by
    intro hnone
    have hsome := h.left
    rw [hnone] at hsome
    cases hsome
  aside := fun _ _ _ hzone => hzone.protected (by decide)
  clear := by
    intro slot hput _ q hq hfile
    rcases h with ⟨_, hnone | hsome, hclear⟩
    · rw [hnone] at hput
      cases hput
    · rw [hsome] at hput
      rcases Prod.mk.inj (Option.some.inj hput) with ⟨hbucket, hkey⟩
      obtain rfl : systemSlot = slot := Slot.ext hbucket hkey
      rw [hclear q (List.mem_inits _ _ |>.mpr hq)] at hfile
      cases hfile

def replayRequests (app : App) (meets : FileTree -> RequestTurn -> Prop)
    [forall fs turn, Decidable (meets fs turn)] (requests : List Request) :
    List RequestTurn × FileTree :=
  (system noFault).replayFrom sampleChoice app.handle meets sampleTree requests

theorem service_unaffected_picture :
    (replayRequests sampleApp Unobstructed mixedRequests).1.map
        (fun turn => outcomeStatus turn.outcome) = [201, 404, 201, 200, 200] ∧
      List.Forall₂ (SameToService sampleApp)
        ((replayRequests sampleApp Unobstructed mixedRequests).1.filter
          fun turn => !sampleApp.byUser turn.tag)
        (replayRequests sampleApp Unobstructed systemRequests).1 := by
  have hmixed : (replayRequests sampleApp Unobstructed mixedRequests).1.map
      Turn.tag = mixedRequests :=
    (system noFault).replayFrom_tags _ _ _ (by decide +kernel)
  have hsystem : (replayRequests sampleApp Unobstructed systemRequests).1.map
      Turn.tag = systemRequests :=
    (system noFault).replayFrom_tags _ _ _ (by decide +kernel)
  refine ⟨by decide +kernel, ?_⟩
  have hfresh : Fresh sampleApp.driver.root sampleTree := sampleTree_fresh
  apply service_unaffected hfresh
  · exact History.imp (fun _ _ => Unobstructed.considerate)
      ((system noFault).replayFrom_history _ _ _ _ _)
  · exact History.imp (fun _ _ => Unobstructed.considerate)
      ((system noFault).replayFrom_history _ _ _ _ _)
  · rw [hmixed, hsystem]
    rfl

def dottedApp : App where
  platform := sampleApp.platform
  settings := { sampleSettings with serviceOnlyPrefixes := [text "d.x/"] }
  httpDate := sampleApp.httpDate

abbrev Targeted (_ : FileTree) (turn : RequestTurn) : Prop :=
  turn.tag.address.isSome = true

def dottedMixed : List RequestTurn × FileTree :=
  replayRequests dottedApp Targeted
    [uploadOf "d.x", serviceCreates "d.x/a.png"]

def dottedAlone : List RequestTurn × FileTree :=
  replayRequests dottedApp Targeted [serviceCreates "d.x/a.png"]

/-- The object of the user keeps the service from writing. -/
theorem users_interfere :
    (forall pre, pre ∈ dottedApp.settings.serviceOnlyPrefixes ->
        pre ≠ [] ∧ ['/'] <:+ pre) ∧
      Fresh dottedApp.driver.root sampleTree ∧
      Served dottedApp Targeted sampleTree dottedMixed.1 dottedMixed.2 ∧
      Served dottedApp Targeted sampleTree dottedAlone.1 dottedAlone.2 ∧
      dottedAlone.1.map Turn.tag =
        (dottedMixed.1.map Turn.tag).filter (fun request =>
          !dottedApp.byUser request) ∧
      dottedMixed.1.map (fun turn => outcomeStatus turn.outcome) = [201, 500] ∧
      dottedAlone.1.map (fun turn => outcomeStatus turn.outcome) = [201] ∧
      ¬ List.Forall₂ (SameToService dottedApp)
        (dottedMixed.1.filter fun turn => !dottedApp.byUser turn.tag)
        dottedAlone.1 := by
  have hmixed : dottedMixed.1.map Turn.tag =
      [uploadOf "d.x", serviceCreates "d.x/a.png"] :=
    (system noFault).replayFrom_tags _ _ _ (by decide +kernel)
  have halone : dottedAlone.1.map Turn.tag = [serviceCreates "d.x/a.png"] :=
    (system noFault).replayFrom_tags _ _ _ (by decide +kernel)
  refine ⟨by decide, sampleTree_fresh,
    (system noFault).replayFrom_history _ _ _ _ _,
    (system noFault).replayFrom_history _ _ _ _ _, ?_, by decide +kernel,
    by decide +kernel, ?_⟩
  · rw [hmixed, halone]
    rfl
  · intro hsame
    have hpair := hsame.get (i := 0) (by decide +kernel) (by decide +kernel)
      (text "assets") (text "d.x/a.png") (by decide +kernel)
      ⟨text "d.x/", by decide, by decide⟩
    exact absurd (congrArg Observed.status hpair) (by decide +kernel)

end StorybookStorage
