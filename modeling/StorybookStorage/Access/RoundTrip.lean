import StorybookStorage.Access.SignedUrls

/-!
# From minting to fetching

A client that follows a minted URL reaches `signed_get` with the bucket, the
key, the expiry and the signature that went into it.  The two sides differ on
the at sign alone: one signs a rendition key, the other rejects it.
-/

namespace StorybookStorage

open Python Posix Effects

/-- A URL below a base, as standard decoding takes it apart: the path up to the
question mark is percent-decoded and routed, the query values stand as they
are. -/
def Follows (base url bucket key : Text) (exp : Int) (sig : Text) : Prop :=
  exists path, url = base ++
      (path ++ (text "?exp=" ++ (intRepr exp ++ (text "&sig=" ++ sig)))) ∧
    '?' ∉ path ∧
    unquote path = some (text "/files-signed/" ++ (bucket ++ '/' :: key)) ∧
    '/' ∉ bucket

namespace App

variable {app : App} {slot : Slot app.settings} {bucket key sig url : Text}
  {exp : Int}

def mintedUrl (app : App) (slot : Slot app.settings) (exp : Int) : Text :=
  app.driver.publicBase ++
    (text "/files-signed/" ++ slot.bucket ++ '/' :: quote slot.key ++
      (text "?exp=" ++ (intRepr exp ++ (text "&sig=" ++
        Signing.sign app.platform app.settings.storageSignSecret slot.bucket
          slot.key exp))))

theorem slot_bucket_plain (slot : Slot app.settings) {c : Char}
    (hlower : isLowerOrDigit c = false) (hdash : c ≠ '-') (hline : c ≠ '\n') :
    c ∉ slot.bucket :=
  KeyGrammar.not_mem_bucket (KeyGrammar.validate_ok slot.accepted).left hlower
    hdash hline

theorem unquote_path (before : Text) (hbefore : '%' ∉ before)
    (slot : Slot app.settings) :
    unquote (before ++ slot.bucket ++ '/' :: quote slot.key) =
      some (before ++ (slot.bucket ++ '/' :: slot.key)) := by
  have hpercent : '%' ∉ before ++ slot.bucket ++ ['/'] := by
    intro h
    simp only [List.mem_append, List.mem_singleton] at h
    rcases h with (hb | hs) | hslash
    · exact hbefore hb
    · exact slot_bucket_plain slot (by decide) (by decide) (by decide) hs
    · exact absurd hslash (by decide)
  have hquoted := unquote_append_quote hpercent slot.key
  simpa using hquoted

theorem minted_path_plain (slot : Slot app.settings) :
    '?' ∉ text "/files-signed/" ++ slot.bucket ++ '/' :: quote slot.key := by
  intro h
  simp only [List.mem_append, List.mem_cons] at h
  rcases h with (hb | hs) | hrest
  · exact absurd hb (by decide)
  · exact slot_bucket_plain slot (by decide) (by decide) (by decide) hs
  · rcases hrest with hsep | hkey
    · exact absurd hsep (by decide)
    · exact (quote_char hkey).left rfl

/-- Following a minted URL leads to one request only. -/
theorem follows_minted {exp' : Int}
    (h : Follows app.driver.publicBase (app.mintedUrl slot exp) bucket key exp'
      sig) :
    bucket = slot.bucket ∧ key = slot.key ∧ exp' = exp ∧
      sig = Signing.sign app.platform app.settings.storageSignSecret
        slot.bucket slot.key exp := by
  rcases h with ⟨path, hurl, hmark, hpath, hslash⟩
  rcases append_cons_inj (minted_path_plain slot) hmark
    (List.append_cancel_left hurl) with ⟨hpaths, hqueries⟩
  have hvalues : intRepr exp ++ '&' :: (text "sig=" ++ Signing.sign app.platform
      app.settings.storageSignSecret slot.bucket slot.key exp) =
        intRepr exp' ++ '&' :: (text "sig=" ++ sig) :=
    List.append_cancel_left hqueries
  have hamp : forall n : Int, '&' ∉ intRepr n := by
    intro n hn
    rcases intRepr_char hn with hc | hc
    · exact absurd hc (by decide)
    · exact absurd hc (by decide)
  rcases append_cons_inj (hamp exp) (hamp exp') hvalues with ⟨hexp, hsigs⟩
  have hdecoded := unquote_path (text "/files-signed/") (by decide)
    slot
  rw [hpaths, hpath] at hdecoded
  rcases append_cons_inj hslash
    (slot_bucket_plain slot (by decide) (by decide) (by decide))
    (List.append_cancel_left (Option.some.inj hdecoded)) with ⟨hbucket, hkey⟩
  exact ⟨hbucket, hkey, (intRepr_injective hexp).symm,
    (List.append_cancel_left hsigs).symm⟩

/-!
## Minting and redeeming
-/

variable {headers : AuthHeaders} {expiresIn : Int} {hpositive : 0 < expiresIn}
  {hcapped : expiresIn ≤ 86400} {fs fs' fs1 fs1' : FileTree}
  {trace trace1 : List (Sigma calls.Ret)} {o : Except Exn Response}

def signRequest (slot : Slot app.settings) (expiresIn : Int)
    (hpositive : 0 < expiresIn) (hcapped : expiresIn ≤ 86400) : SignRequest where
  bucket := slot.bucket
  key := slot.key
  expiresIn := expiresIn
  positive := hpositive
  capped := hcapped

theorem createSignedUrl_minted {expiresAt : Text}
    (hrun : (system noFault).machine.Runs fs
      (app.createSignedUrl headers (signRequest slot expiresIn hpositive hcapped))
      trace (Except.ok (Response.signed url expiresAt)) fs') :
    exists exp, url = app.mintedUrl slot exp := by
  unfold createSignedUrl at hrun
  rw [show (signRequest slot expiresIn hpositive hcapped).bucket = slot.bucket
    from rfl, show (signRequest slot expiresIn hpositive hcapped).key = slot.key
    from rfl, slot.accepted] at hrun
  cases hauth : requireApiKey app.settings headers with
  | error e =>
      rw [hauth] at hrun
      cases hrun
  | ok principal =>
      rw [hauth] at hrun
      change (system noFault).machine.Runs fs
        (Prog.call (S := calls) Call.time _) trace _ fs' at hrun
      cases hrun with
      | @call _ _ _ _ t _ rest _ hstep hrest =>
          change (system noFault).machine.Runs _
            (Prog.call (S := calls) Call.time _) rest _ fs' at hrest
          cases hrest with
          | call _ hend =>
              cases hend
              exact ⟨intOfRat t + expiresIn, rfl⟩

/-- A redeemed URL: the request succeeds, and in production nginx is sent to
the object that the URL was minted for. -/
structure Redeemed (app : App) (slot : Slot app.settings)
    (o : Except Exn Response) : Prop where
  succeeds : exists response, o = Except.ok response
  target : app.settings.storageSignedGetDevStream = false ->
    exists location, o = Except.ok (Response.accelRedirect location) ∧
      unquote location =
        some (text "/internal-files/" ++ (slot.bucket ++ '/' :: slot.key))

theorem signedGet_rejects
    (hgrammar : KeyGrammar.validate app.settings slot.bucket slot.key false ≠
      Except.ok ())
    (hrun : (system noFault).machine.Runs fs
      (app.signedGet slot.bucket slot.key exp sig) trace o fs') :
    exists e, o = Except.error (Exn.service e) := by
  unfold signedGet at hrun
  cases hbad : KeyGrammar.validate app.settings slot.bucket slot.key false with
  | ok _ => exact absurd hbad hgrammar
  | error e =>
      rw [hbad] at hrun
      cases hrun
      exact ⟨e, rfl⟩

theorem signedGet_clock
    (hgrammar : KeyGrammar.validate app.settings slot.bucket slot.key false =
      Except.ok ())
    (hrun : (system noFault).machine.Runs fs
      (app.signedGet slot.bucket slot.key exp sig) trace o fs') :
    exists now : Rat, ⟨Call.time, now⟩ ∈ trace := by
  unfold signedGet at hrun
  rw [hgrammar] at hrun
  change (system noFault).machine.Runs fs
    (Prog.call (S := calls) Call.time _) trace o fs' at hrun
  cases hrun with
  | call _ _ => exact ⟨_, List.mem_cons_self⟩

/-- A URL minted for a key can be redeemed in time exactly when the key has no
at sign and, in the development mode, there is an object to stream. -/
theorem signedGet_minted_iff (slot : Slot app.settings) {expiresAt : Text}
    (hmint : (system noFault).machine.Runs fs1
      (app.createSignedUrl headers (signRequest slot expiresIn hpositive hcapped))
      trace1 (Except.ok (Response.signed url expiresAt)) fs1')
    (hfollows : Follows app.driver.publicBase url bucket key exp sig)
    (hrun : (system noFault).machine.Runs fs
      (app.signedGet bucket key exp sig) trace o fs')
    (hearly : forall now : Rat, ⟨Call.time, now⟩ ∈ trace -> intOfRat now < exp) :
    app.Redeemed slot o <->
      '@' ∉ slot.key ∧
        (app.settings.storageSignedGetDevStream = true ->
          storedObject app.driver slot fs ≠ none) := by
  rcases createSignedUrl_minted hmint with ⟨minted, rfl⟩
  rcases follows_minted hfollows with ⟨rfl, rfl, rfl, hsig⟩
  rw [← KeyGrammar.validate_narrow_iff slot.accepted]
  by_cases hgrammar : KeyGrammar.validate app.settings slot.bucket slot.key
      false = Except.ok ()
  · rcases signedGet_clock hgrammar hrun with ⟨now, hnow⟩
    have hvalid : app.ValidAt slot.bucket slot.key exp sig now :=
      ⟨hearly now hnow, hsig.symm⟩
    cases signedGet_answer hgrammar hrun hnow with
    | refused hinvalid _ => exact absurd hvalid hinvalid
    | crashed _ hascii =>
        rw [isAscii_of_valid hvalid] at hascii
        cases hascii
    | redirected _ hprod =>
        constructor
        · intro _
          refine ⟨hgrammar, fun hdev => ?_⟩
          rw [hprod] at hdev
          cases hdev
        · intro _
          exact ⟨⟨_, rfl⟩, fun _ => ⟨_, rfl,
            unquote_path (text "/internal-files/") (by decide) slot⟩⟩
    | streamed _ hdev hthere =>
        constructor
        · intro _
          exact ⟨hgrammar, fun _ => hthere⟩
        · intro _
          refine ⟨⟨_, rfl⟩, fun hprod => ?_⟩
          rw [hprod] at hdev
          cases hdev
    | missing _ hdev hnone =>
        constructor
        · intro h
          rcases h.succeeds with ⟨response, hresponse⟩
          cases hresponse
        · intro h
          exact absurd hnone (h.right hdev)
  · rcases signedGet_rejects hgrammar hrun with ⟨e, rfl⟩
    constructor
    · intro h
      rcases h.succeeds with ⟨response, hresponse⟩
      cases hresponse
    · intro h
      exact absurd h.left hgrammar

/-!
## Minting in the small store
-/

variable (app)

theorem createSignedUrl_readsTwice (slot : Slot app.settings) (expiresIn : Int)
    (hpositive : 0 < expiresIn) (hcapped : expiresIn ≤ 86400)
    {principal : Principal}
    (hauth : requireApiKey app.settings headers = Except.ok principal)
    (t1 t2 : Rat) (fs : FileTree) :
    (system noFault).machine.Runs fs
      (app.createSignedUrl headers (signRequest slot expiresIn hpositive hcapped))
      [⟨Call.time, t1⟩, ⟨Call.time, t2⟩]
      (Except.ok
        (Response.signed (app.mintedUrl slot (intOfRat t1 + expiresIn))
          (app.platform.isoformat (t2 + expiresIn)))) fs := by
  unfold createSignedUrl
  rw [show (signRequest slot expiresIn hpositive hcapped).bucket = slot.bucket
    from rfl, show (signRequest slot expiresIn hpositive hcapped).key = slot.key
    from rfl, slot.accepted, hauth]
  exact Machine.Runs.call (time_step fs t1)
    (Machine.Runs.call (time_step fs t2) (Machine.Runs.done fs _))

theorem createSignedUrl_runs (slot : Slot app.settings) (expiresIn : Int)
    (hpositive : 0 < expiresIn) (hcapped : expiresIn ≤ 86400)
    {principal : Principal}
    (hauth : requireApiKey app.settings headers = Except.ok principal)
    (now : Rat) (fs : FileTree) :
    exists trace expiresAt, (system noFault).machine.Runs fs
      (app.createSignedUrl headers (signRequest slot expiresIn hpositive hcapped))
      trace
      (Except.ok
        (Response.signed (app.mintedUrl slot (intOfRat now + expiresIn))
          expiresAt)) fs :=
  ⟨_, _, createSignedUrl_readsTwice app slot expiresIn hpositive hcapped hauth
    now now fs⟩

theorem follows_self (slot : Slot app.settings) (exp : Int) :
    Follows app.driver.publicBase (app.mintedUrl slot exp) slot.bucket slot.key
      exp
      (Signing.sign app.platform app.settings.storageSignSecret slot.bucket
        slot.key exp) := by
  refine ⟨_, rfl, ?_, unquote_path (text "/files-signed/") (by decide)
    slot, slot_bucket_plain slot (by decide) (by decide) (by decide)⟩
  exact minted_path_plain slot

theorem signedGet_redirects (slot : Slot app.settings)
    (hgrammar : KeyGrammar.validate app.settings slot.bucket slot.key false =
      Except.ok ())
    (hprod : app.settings.storageSignedGetDevStream = false) {now : Rat}
    (hvalid : app.ValidAt slot.bucket slot.key exp sig now) (fs : FileTree) :
    exists o, (system noFault).machine.Runs fs
      (app.signedGet slot.bucket slot.key exp sig) [⟨Call.time, now⟩] o fs := by
  unfold signedGet
  rw [hgrammar]
  refine ⟨Except.ok (Response.accelRedirect
    (internalTarget slot.bucket slot.key)),
    Machine.Runs.call (time_step fs now) ?_⟩
  change (system noFault).machine.Runs fs
    (Prog.ofExcept (Signing.verifyAt app.platform
      app.settings.storageSignSecret slot.bucket slot.key exp sig
      (intOfRat now)) >>= _) _ _ _
  rw [Signing.verifyAt_eq_true.mpr hvalid]
  change (system noFault).machine.Runs fs (app.serve slot.bucket slot.key) _ _ _
  unfold serve
  rw [if_neg (by simp [hprod])]
  exact Machine.Runs.done fs _

end App

def serviceHeaders : AuthHeaders where
  xApiKey := some (text "key-1")
  credentials := none

theorem serviceHeaders_accepted :
    exists principal, requireApiKey sampleApp.settings serviceHeaders =
      Except.ok principal := ⟨_, rfl⟩

/-- What a client finds that mints a URL for a minute and follows it at
once. -/
def FollowedAtOnce (slot : Slot sampleApp.settings)
    (ends : Except Exn Response -> Prop) : Prop :=
  exists trace1 expiresAt trace o,
    (system noFault).machine.Runs sampleTree
      (sampleApp.createSignedUrl serviceHeaders
        (App.signRequest slot 60 (by decide) (by decide)))
      trace1
      (Except.ok (Response.signed (sampleApp.mintedUrl slot 60) expiresAt))
      sampleTree ∧
    Follows sampleApp.driver.publicBase (sampleApp.mintedUrl slot 60)
      slot.bucket slot.key 60
      (Signing.sign sampleApp.platform sampleApp.settings.storageSignSecret
        slot.bucket slot.key 60) ∧
    (system noFault).machine.Runs sampleTree
      (sampleApp.signedGet slot.bucket slot.key 60
        (Signing.sign sampleApp.platform sampleApp.settings.storageSignSecret
          slot.bucket slot.key 60)) trace o sampleTree ∧
    (forall now : Rat, ⟨Call.time, now⟩ ∈ trace -> intOfRat now < 60) ∧ ends o

theorem signedGet_minted_iff_picture :
    FollowedAtOnce pictureSlot (sampleApp.Redeemed pictureSlot) := by
  rcases serviceHeaders_accepted with ⟨principal, hauth⟩
  rcases App.createSignedUrl_runs sampleApp pictureSlot 60 (by decide) (by decide) hauth 0
    sampleTree with ⟨trace1, expiresAt, hmint⟩
  have hvalid : sampleApp.ValidAt pictureSlot.bucket pictureSlot.key 60 _ 0 :=
    ⟨by decide, rfl⟩
  rcases App.signedGet_redirects sampleApp pictureSlot pictureSlot_public rfl hvalid
    sampleTree with ⟨o, hrun⟩
  have hearly : forall now : Rat, ⟨Call.time, now⟩ ∈
      ([⟨Call.time, (0 : Rat)⟩] : List (Sigma calls.Ret)) ->
        intOfRat now < 60 := by
    intro now hnow
    cases List.mem_singleton.mp hnow
    decide
  refine ⟨trace1, expiresAt, _, o, hmint, App.follows_self sampleApp _ 60, hrun,
    hearly, ?_⟩
  refine (App.signedGet_minted_iff pictureSlot hmint
    (App.follows_self sampleApp pictureSlot 60) hrun hearly).mpr ⟨by decide, ?_⟩
  intro hdev
  exact absurd hdev Bool.false_ne_true

/-- A URL minted for a rendition key is always refused. -/
theorem signedGet_refusesRendition :
    FollowedAtOnce renditionSlot
      fun o => ¬ sampleApp.Redeemed renditionSlot o := by
  rcases serviceHeaders_accepted with ⟨principal, hauth⟩
  rcases App.createSignedUrl_runs sampleApp renditionSlot 60 (by decide) (by decide) hauth
    0 sampleTree with ⟨trace1, expiresAt, hmint⟩
  refine ⟨trace1, expiresAt, _, _, hmint, App.follows_self sampleApp _ 60,
    Machine.Runs.raise sampleTree _, ?_, ?_⟩
  · intro now hnow
    cases hnow
  · intro h
    rcases h.succeeds with ⟨response, hresponse⟩
    cases hresponse

end StorybookStorage
