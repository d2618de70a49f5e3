import StorybookStorage.Access.RoundTrip

/-!
# When a minted URL ends

`presign_get` adds the lifetime to one reading of the clock, cut to seconds, and
`create_signed_url` adds it to a later one, written with microseconds.
-/

namespace StorybookStorage

open Python Posix Effects

/-!
## The client's instant
-/

/-- The whole microsecond at or before an instant. -/
def microFloor (t : Rat) : Rat := ⌊t * 1000000⌋ / 1000000

theorem microFloor_add_int (t : Rat) (n : Int) :
    microFloor (t + n) = microFloor t + n := by
  have hsplit : (t + n) * 1000000 = t * 1000000 + ((n * 1000000 : Int) : Rat) := by
    push_cast
    ring
  unfold microFloor
  rw [hsplit, Int.floor_add_intCast]
  push_cast
  ring

theorem lt_microFloor_add (t : Rat) {n : Int} (hpositive : 0 < n) :
    t < microFloor (t + n) := by
  have hone : (1 : Rat) ≤ n := by exact_mod_cast hpositive
  have hfloor : t * 1000000 < ⌊t * 1000000⌋ + 1 := Int.lt_floor_add_one _
  have hmicro : t * 1000000 - 1 < ⌊t * 1000000⌋ := by linarith
  have hpart : t - 1 / 1000000 < microFloor t := by
    unfold microFloor
    linarith
  rw [microFloor_add_int]
  linarith

/-- Days since 1970 of a date of the proleptic Gregorian calendar. -/
def daysOfDate (year : Int) (month day : Nat) : Int :=
  let y := if month ≤ 2 then year - 1 else year
  let mp : Int := if month ≤ 2 then month + 9 else month - 3
  let doy := (153 * mp + 2) / 5 + day - 1
  y * 365 + y / 4 - y / 100 + y / 400 + doy - 719468

def digitsAt (s : Text) (start count : Nat) : Nat :=
  Nat.ofDigitChars 10 ((s.drop start).take count) 0

/-- `datetime.fromisoformat(s).timestamp()` of a text that `isoformat` made in
UTC. -/
def instantOfIso (s : Text) : Rat :=
  let days := daysOfDate (digitsAt s 0 4) (digitsAt s 5 2) (digitsAt s 8 2)
  let clock := digitsAt s 11 2 * 3600 + digitsAt s 14 2 * 60 + digitsAt s 17 2
  let part := if (s.drop 19).head? = some '.' then digitsAt s 20 6 else 0
  days * 86400 + clock + part / 1000000

/-!
## Whole seconds
-/

/-- A positive expiry that is a whole second ends where it says. -/
theorem intOfRat_lt_iff {exp : Int} (hpositive : 0 < exp) (t : Rat) :
    intOfRat t < exp <-> t < exp := by
  unfold intOfRat
  split
  · exact Int.floor_lt
  · rename_i hneg
    have hexp : (0 : Rat) < exp := by exact_mod_cast hpositive
    have hceil : ⌈t⌉ ≤ 0 := Int.ceil_le.mpr (by push_cast; linarith)
    constructor
    · intro _
      linarith
    · intro _
      omega

/-- Before 1970 the clock is cut upwards. -/
theorem intOfRat_lt_iff_of_nonpos {exp : Int} (hexp : exp ≤ 0) (t : Rat) :
    intOfRat t < exp <-> t ≤ exp - 1 := by
  have hexp' : (exp : Rat) ≤ 0 := by exact_mod_cast hexp
  unfold intOfRat
  split
  · rename_i hpos
    have hfloor : 0 ≤ ⌊t⌋ := Int.floor_nonneg.mpr hpos
    constructor
    · intro h
      omega
    · intro h
      linarith
  · rw [← Int.le_sub_one_iff, Int.ceil_le]
    push_cast
    rfl

/-- Two ends of the same span of time from an instant on. -/
theorem ends_agree_iff {start stop : Rat} {exp : Int} (hlater : start < stop) :
    (forall t : Rat, start ≤ t -> (intOfRat t < exp <-> t < stop)) <->
      stop = exp ∧ 0 < exp := by
  constructor
  · intro h
    have hpositive : 0 < exp := by
      by_contra hno
      have hwhen := fun t => intOfRat_lt_iff_of_nonpos (not_lt.mp hno) t
      have hstart : start ≤ exp - 1 :=
        (hwhen start).mp ((h start (le_refl start)).mpr hlater)
      have hend : (exp : Rat) - 1 < stop :=
        (h _ hstart).mp ((hwhen _).mpr (le_refl _))
      have hmiddle := (hwhen (((exp : Rat) - 1 + stop) / 2)).mp
        ((h _ (by linarith)).mpr (by linarith))
      linarith
    have hwhen := fun t => intOfRat_lt_iff hpositive t
    refine ⟨?_, hpositive⟩
    rcases lt_trichotomy stop (exp : Rat) with hlt | heq | hgt
    · exact absurd ((h stop hlater.le).mp ((hwhen stop).mpr hlt)) (lt_irrefl _)
    · exact heq
    · rcases le_total start (exp : Rat) with hle | hle
      · exact absurd ((hwhen _).mp ((h _ hle).mpr hgt)) (lt_irrefl _)
      · have hstart := (hwhen _).mp ((h start (le_refl start)).mpr hlater)
        exact absurd hstart (not_lt.mpr hle)
  · intro h t _
    rw [h.left]
    exact intOfRat_lt_iff h.right t

/-!
## Following a URL over time
-/

def Accepts (o : Except Exn Response) : Prop :=
  (exists response, o = Except.ok response) ∨
    o = Except.error (Exn.service notFound)

namespace App

variable {app : App} {slot : Slot app.settings} {exp : Int} {now : Rat}
  {fs fs' : FileTree} {trace : List (Sigma calls.Ret)}
  {o : Except Exn Response}

theorem signedGet_accepts_iff
    (hgrammar : KeyGrammar.validate app.settings slot.bucket slot.key false =
      Except.ok ())
    (hrun : (system noFault).machine.Runs fs
      (app.signedGet slot.bucket slot.key exp
        (Signing.sign app.platform app.settings.storageSignSecret slot.bucket
          slot.key exp)) trace o fs')
    (hnow : ⟨Call.time, now⟩ ∈ trace) : Accepts o <-> intOfRat now < exp := by
  cases signedGet_answer hgrammar hrun hnow with
  | refused hinvalid _ =>
      constructor
      · intro h
        rcases h with ⟨response, hresponse⟩ | hmissing
        · cases hresponse
        · cases hmissing
      · intro hearly
        exact absurd ⟨hearly, rfl⟩ hinvalid
  | crashed _ hascii =>
      rw [Signing.isAscii_sign] at hascii
      cases hascii
  | redirected hvalid _ =>
      exact iff_of_true (Or.inl ⟨_, rfl⟩) hvalid.left
  | streamed hvalid _ _ =>
      exact iff_of_true (Or.inl ⟨_, rfl⟩) hvalid.left
  | missing hvalid _ _ =>
      exact iff_of_true (Or.inr rfl) hvalid.left

theorem serve_runs (app : App) (slot : Slot app.settings) (fs : FileTree) :
    exists trace o, (system noFault).machine.Runs fs
      (app.serve slot.bucket slot.key) trace o fs := by
  unfold serve
  split
  · unfold LocalFsBlobDriver.get
    rw [slot.objectPath_ok]
    have hstep : exists there, (system noFault).machine.Step fs
        (Call.isfile (slot.objectText app.driver.root)) there fs :=
      ⟨_, clockChoice 0, ⟨rfl, fun h => nomatch h⟩, rfl⟩
    rcases hstep with ⟨there, hstep⟩
    cases there with
    | true => exact ⟨_, _, Machine.Runs.call hstep (Machine.Runs.done fs _)⟩
    | false => exact ⟨_, _, Machine.Runs.call hstep (Machine.Runs.raise fs _)⟩
  · exact ⟨_, _, Machine.Runs.done fs _⟩

theorem signedGet_runs (app : App) (slot : Slot app.settings)
    (hgrammar : KeyGrammar.validate app.settings slot.bucket slot.key false =
      Except.ok ()) (exp : Int) (sig : Text) (now : Rat) (fs : FileTree) :
    exists trace o, (system noFault).machine.Runs fs
        (app.signedGet slot.bucket slot.key exp sig) trace o fs ∧
      ⟨Call.time, now⟩ ∈ trace := by
  rcases verifyAt_cases app slot.bucket slot.key exp sig now with
    ⟨hverify, _⟩ | ⟨hverify, _⟩ | ⟨hverify, _⟩
  · rcases serve_runs app slot fs with ⟨rest, o, hserve⟩
    refine ⟨⟨Call.time, now⟩ :: rest, o, ?_, List.mem_cons_self⟩
    unfold signedGet
    rw [hgrammar]
    change (system noFault).machine.Runs fs
      (Prog.call (S := calls) Call.time _) _ _ _
    refine Machine.Runs.call (time_step fs now) ?_
    change (system noFault).machine.Runs fs
      (Prog.ofExcept (Signing.verifyAt app.platform
        app.settings.storageSignSecret slot.bucket slot.key exp sig
        (intOfRat now)) >>= _) _ _ _
    rw [hverify]
    exact hserve
  · exact ⟨_, _, signedGet_stops app slot hgrammar hverify (Or.inr ⟨rfl, rfl⟩) fs,
      List.mem_cons_self⟩
  · exact ⟨_, _, signedGet_stops app slot hgrammar hverify (Or.inl rfl) fs,
      List.mem_cons_self⟩

/-- From one instant on, following the URL succeeds until the other instant
and never again. -/
def EndsAt (app : App) (url : Text) (start stop : Rat) : Prop :=
  forall {bucket key sig : Text} {exp : Int} {now : Rat} {fs fs' : FileTree}
      {trace : List (Sigma calls.Ret)} {o : Except Exn Response},
    Follows app.driver.publicBase url bucket key exp sig ->
    (system noFault).machine.Runs fs (app.signedGet bucket key exp sig) trace o
      fs' ->
    ⟨Call.time, now⟩ ∈ trace ->
    start ≤ now ->
    (Accepts o <-> now < stop)

theorem endsAt_minted_iff
    (hgrammar : KeyGrammar.validate app.settings slot.bucket slot.key false =
      Except.ok ()) {start stop : Rat} :
    app.EndsAt (app.mintedUrl slot exp) start stop <->
      forall t : Rat, start ≤ t -> (intOfRat t < exp <-> t < stop) := by
  constructor
  · intro h t hlater
    rcases signedGet_runs app slot hgrammar exp
      (Signing.sign app.platform app.settings.storageSignSecret slot.bucket
        slot.key exp) t sampleTree with ⟨trace, o, hrun, hnow⟩
    rw [← signedGet_accepts_iff hgrammar hrun hnow]
    exact h (follows_self app slot exp) hrun hnow hlater
  · intro h bucket key sig exp' now fs fs' trace o hfollows hrun hnow hlater
    rcases follows_minted hfollows with ⟨rfl, rfl, rfl, rfl⟩
    rw [signedGet_accepts_iff hgrammar hrun hnow]
    exact h now hlater

variable {headers : AuthHeaders} {expiresIn : Int} {hpositive : 0 < expiresIn}
  {hcapped : expiresIn ≤ 86400} {t1 t2 : Rat} {url expiresAt : Text}

theorem createSignedUrl_readings
    (hrun : (system noFault).machine.Runs fs
      (app.createSignedUrl headers (signRequest slot expiresIn hpositive hcapped))
      [⟨Call.time, t1⟩, ⟨Call.time, t2⟩]
      (Except.ok (Response.signed url expiresAt)) fs') :
    url = app.mintedUrl slot (intOfRat t1 + expiresIn) ∧
      expiresAt = app.platform.isoformat (t2 + expiresIn) := by
  unfold createSignedUrl at hrun
  rw [show (signRequest slot expiresIn hpositive hcapped).bucket = slot.bucket
    from rfl, show (signRequest slot expiresIn hpositive hcapped).key = slot.key
    from rfl, slot.accepted] at hrun
  cases hauth : requireApiKey app.settings headers with
  | error e =>
      rw [hauth] at hrun
      cases hrun
  | ok principal =>
      rw [hauth] at hrun
      change (system noFault).machine.Runs fs
        (Prog.call (S := calls) Call.time _) _ _ fs' at hrun
      cases hrun with
      | call _ hrest =>
          change (system noFault).machine.Runs _
            (Prog.call (S := calls) Call.time _) _ _ fs' at hrest
          cases hrest with
          | call _ hend =>
              cases hend
              exact ⟨rfl, rfl⟩

/-- The end a client is told is the real one exactly when both readings show
the same whole second and the second one nothing more. -/
theorem endsAt_told_iff (slot : Slot app.settings)
    (hgrammar : KeyGrammar.validate app.settings slot.bucket slot.key false =
      Except.ok ())
    (hmint : (system noFault).machine.Runs fs
      (app.createSignedUrl headers (signRequest slot expiresIn hpositive hcapped))
      [⟨Call.time, t1⟩, ⟨Call.time, t2⟩]
      (Except.ok (Response.signed url expiresAt)) fs')
    {instantOf : Text -> Rat}
    (hclient : instantOf (app.platform.isoformat (t2 + expiresIn)) =
      microFloor (t2 + expiresIn)) :
    app.EndsAt url t2 (instantOf expiresAt) <->
      microFloor t2 = intOfRat t1 ∧ 0 < intOfRat t1 + expiresIn := by
  rcases createSignedUrl_readings hmint with ⟨rfl, rfl⟩
  rw [endsAt_minted_iff hgrammar, hclient,
    ends_agree_iff (lt_microFloor_add t2 hpositive), microFloor_add_int]
  push_cast
  rw [add_left_inj]

end App

/-!
## Half a second
-/

theorem endsAt_told_iff_whole :
    exists url expiresAt,
      (system noFault).machine.Runs sampleTree
        (sampleApp.createSignedUrl serviceHeaders
          (@App.signRequest sampleApp pictureSlot 60 (by decide) (by decide)))
        [⟨Call.time, (100 : Rat)⟩, ⟨Call.time, (100 : Rat)⟩]
        (Except.ok (Response.signed url expiresAt)) sampleTree ∧
      sampleApp.EndsAt url 100 (instantOfIso expiresAt) := by
  rcases serviceHeaders_accepted with ⟨principal, hauth⟩
  have hmint := App.createSignedUrl_readsTwice sampleApp pictureSlot 60
    (by decide) (by decide) hauth 100 100 sampleTree
  refine ⟨_, _, hmint, ?_⟩
  apply (App.endsAt_told_iff pictureSlot pictureSlot_public hmint
    (by decide +kernel)).mpr
  exact ⟨by decide +kernel, by decide +kernel⟩

/-- Minted half a second after a whole one, the URL ends half a second
early. -/
theorem halfSecond_endsEarly :
    exists url expiresAt,
      (system noFault).machine.Runs sampleTree
        (sampleApp.createSignedUrl serviceHeaders
          (@App.signRequest sampleApp pictureSlot 60 (by decide) (by decide)))
        [⟨Call.time, (201 / 2 : Rat)⟩, ⟨Call.time, (201 / 2 : Rat)⟩]
        (Except.ok (Response.signed url expiresAt)) sampleTree ∧
      expiresAt = text "1970-01-01T00:02:40.500000+00:00" ∧
      instantOfIso expiresAt = 321 / 2 ∧
      ¬ sampleApp.EndsAt url (201 / 2) (instantOfIso expiresAt) := by
  rcases serviceHeaders_accepted with ⟨principal, hauth⟩
  have hmint := App.createSignedUrl_readsTwice sampleApp pictureSlot 60
    (by decide) (by decide) hauth (201 / 2) (201 / 2) sampleTree
  have hreading : instantOfIso (sampleApp.platform.isoformat
      ((201 / 2 : Rat) + (60 : Int))) = 321 / 2 := by decide +kernel
  refine ⟨_, _, hmint, by decide +kernel, hreading, ?_⟩
  rw [hreading]
  intro h
  have hends := (App.endsAt_minted_iff pictureSlot_public).mp h 160
    (by decide +kernel)
  exact absurd (hends.mpr (by decide +kernel)) (by decide +kernel)

end StorybookStorage
