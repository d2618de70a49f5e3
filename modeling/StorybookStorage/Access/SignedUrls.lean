import StorybookStorage.Routers.Handlers
import StorybookStorage.Store.Fresh

/-!
# Following a signed URL

What `signed_get` answers for every signature, and whether a URL that
`create_signed_url` minted can be followed.
-/

namespace StorybookStorage

open Python Posix Effects

namespace App

variable (app : App)

/-- The signature is the one of the object and the expiry, and in time. -/
def ValidAt (bucket key : Text) (exp : Int) (sig : Text) (now : Rat) : Prop :=
  intOfRat now < exp ∧
    Signing.sign app.platform app.settings.storageSignSecret bucket key exp = sig

inductive SignedAnswer (slot : Slot app.settings) (exp : Int) (sig : Text)
    (fs : FileTree) (now : Rat) : Except Exn Response -> Prop where
  | refused :
      ¬ app.ValidAt slot.bucket slot.key exp sig now ->
      exp ≤ intOfRat now ∨ Signing.isAscii sig = true ->
      SignedAnswer slot exp sig fs now (Except.error (Exn.service forbidden))
  | crashed :
      intOfRat now < exp ->
      Signing.isAscii sig = false ->
      SignedAnswer slot exp sig fs now (Except.error Exn.typeError)
  | redirected :
      app.ValidAt slot.bucket slot.key exp sig now ->
      app.settings.storageSignedGetDevStream = false ->
      SignedAnswer slot exp sig fs now
        (Except.ok
          (Response.accelRedirect (internalTarget slot.bucket slot.key)))
  | streamed :
      app.ValidAt slot.bucket slot.key exp sig now ->
      app.settings.storageSignedGetDevStream = true ->
      storedObject app.driver slot fs ≠ none ->
      SignedAnswer slot exp sig fs now
        (Except.ok
          (Response.streaming
            (LocalFsBlobDriver.Stream.fresh
              (slot.objectText app.driver.root))))
  | missing :
      app.ValidAt slot.bucket slot.key exp sig now ->
      app.settings.storageSignedGetDevStream = true ->
      storedObject app.driver slot fs = none ->
      SignedAnswer slot exp sig fs now (Except.error (Exn.service notFound))

variable {app} {slot : Slot app.settings} {exp : Int} {sig : Text} {now : Rat}
  {fs fs' : FileTree} {trace : List (Sigma calls.Ret)}
  {o : Except Exn Response}

theorem isAscii_of_valid (h : app.ValidAt slot.bucket slot.key exp sig now) :
    Signing.isAscii sig = true := by
  rw [← h.right]
  exact Signing.isAscii_sign _ _ _ _ _

theorem verifyAt_cases (app : App) (bucket key : Text) (exp : Int) (sig : Text)
    (now : Rat) :
    (Signing.verifyAt app.platform app.settings.storageSignSecret bucket key
        exp sig (intOfRat now) = Except.ok true ∧
      app.ValidAt bucket key exp sig now) ∨
    (Signing.verifyAt app.platform app.settings.storageSignSecret bucket key
        exp sig (intOfRat now) = Except.ok false ∧
      ¬ app.ValidAt bucket key exp sig now ∧
        (exp ≤ intOfRat now ∨ Signing.isAscii sig = true)) ∨
    (Signing.verifyAt app.platform app.settings.storageSignSecret bucket key
        exp sig (intOfRat now) = Except.error Exn.typeError ∧
      intOfRat now < exp ∧ Signing.isAscii sig = false) := by
  unfold Signing.verifyAt ValidAt
  by_cases hexpired : exp ≤ intOfRat now
  · rw [if_pos hexpired]
    refine Or.inr (Or.inl ⟨rfl, ?_, Or.inl hexpired⟩)
    intro hvalid
    omega
  · rw [if_neg hexpired, Signing.compareDigest_sign]
    cases hascii : Signing.isAscii sig with
    | false => exact Or.inr (Or.inr ⟨rfl, by omega, rfl⟩)
    | true =>
        rw [if_pos rfl]
        by_cases hsig : Signing.sign app.platform
            app.settings.storageSignSecret bucket key exp = sig
        · rw [decide_eq_true hsig]
          exact Or.inl ⟨rfl, by omega, hsig⟩
        · rw [decide_eq_false hsig]
          exact Or.inr (Or.inl ⟨rfl, fun h => hsig h.right, Or.inr rfl⟩)

theorem get_runs {α : Type} {d : LocalFsBlobDriver}
    {next : Option LocalFsBlobDriver.Stream -> Io α} {o : Except Exn α}
    (hrun : (system noFault).machine.Runs fs
      (d.get slot.bucket slot.key >>= next) trace o fs') :
    exists (there : Bool) (rest : List (Sigma calls.Ret)),
      trace = ⟨Call.isfile (slot.objectText d.root), there⟩ :: rest ∧
      (there = true <-> storedObject d slot fs ≠ none) ∧
      (system noFault).machine.Runs fs
        (next
          (if there then
            some (LocalFsBlobDriver.Stream.fresh (slot.objectText d.root))
          else
            none)) rest o fs' := by
  unfold LocalFsBlobDriver.get at hrun
  rw [slot.objectPath_ok] at hrun
  change (system noFault).machine.Runs fs (Prog.call (S := calls)
    (Call.isfile (slot.objectText d.root)) _) trace o fs' at hrun
  cases hrun with
  | @call _ fs1 _ _ there _ rest _ hstep hrest =>
      rcases hstep with ⟨ch, ⟨hfault, _⟩, hexec⟩
      have hanswer : (ch.fault.isNone &&
          fs.isFile (resolve (slot.objectText d.root)), fs) = (there, fs1) :=
        hexec
      rw [show ch.fault = none from hfault, slot.resolve_objectText] at hanswer
      rcases Prod.mk.inj hanswer with ⟨rfl, rfl⟩
      refine ⟨_, rest, rfl, ?_, hrest⟩
      exact Option.isSome_iff_ne_none

theorem time_not_mem_single {p : Text} {there : Bool} (t : Rat) :
    (⟨Call.time, t⟩ : Sigma calls.Ret) ∉
      ([⟨Call.isfile p, there⟩] : List (Sigma calls.Ret)) := by
  intro h
  cases congrArg Sigma.fst (List.mem_singleton.mp h)

theorem serve_answer
    (hvalid : app.ValidAt slot.bucket slot.key exp sig now)
    (hrun : (system noFault).machine.Runs fs
      (app.serve slot.bucket slot.key) trace o fs') :
    (forall t : Rat, ⟨Call.time, t⟩ ∉ trace) ∧
      app.SignedAnswer slot exp sig fs now o := by
  unfold serve at hrun
  split at hrun
  · rename_i hdev
    rcases get_runs hrun with ⟨there, rest, rfl, hthere, hend⟩
    cases there with
    | true =>
        cases hend
        exact ⟨time_not_mem_single,
          SignedAnswer.streamed hvalid hdev (hthere.mp rfl)⟩
    | false =>
        cases hend
        refine ⟨time_not_mem_single, ?_⟩
        apply SignedAnswer.missing hvalid hdev
        by_contra hsome
        cases hthere.mpr hsome
  · rename_i hprod
    cases hrun
    exact ⟨by simp, SignedAnswer.redirected hvalid (by simpa using hprod)⟩

theorem signedGet_answer
    (hgrammar : KeyGrammar.validate app.settings slot.bucket slot.key false =
      Except.ok ())
    (hrun : (system noFault).machine.Runs fs
      (app.signedGet slot.bucket slot.key exp sig) trace o fs')
    (hnow : ⟨Call.time, now⟩ ∈ trace) :
    app.SignedAnswer slot exp sig fs now o := by
  unfold signedGet at hrun
  rw [hgrammar] at hrun
  change (system noFault).machine.Runs fs
    (Prog.call (S := calls) Call.time _) trace o fs' at hrun
  cases hrun with
  | @call _ fs1 _ _ t _ rest _ hstep hrest =>
      rcases hstep with ⟨ch, _, hexec⟩
      cases hexec
      change (system noFault).machine.Runs fs
        (Prog.ofExcept (Signing.verifyAt app.platform
          app.settings.storageSignSecret slot.bucket slot.key exp sig
          (intOfRat ch.now)) >>= _) rest o fs' at hrest
      have hdone : (forall t : Rat, ⟨Call.time, t⟩ ∉ rest) ∧
          app.SignedAnswer slot exp sig fs ch.now o := by
        rcases verifyAt_cases app slot.bucket slot.key exp sig ch.now with
          ⟨hverify, hvalid⟩ | ⟨hverify, hinvalid, hquiet⟩ |
            ⟨hverify, hlive, hascii⟩
        · rw [hverify] at hrest
          exact serve_answer hvalid hrest
        · rw [hverify] at hrest
          cases hrest
          exact ⟨by simp, SignedAnswer.refused hinvalid hquiet⟩
        · rw [hverify] at hrest
          cases hrest
          exact ⟨by simp, SignedAnswer.crashed hlive hascii⟩
      rcases List.mem_cons.mp hnow with hhere | hlater
      · cases hhere
        exact hdone.right
      · exact absurd hlater (hdone.left now)

/-!
## One answer for every failure
-/

/-- A request succeeds exactly when its signature is valid, and every other
one ends with the same error. -/
structure OneForbidden (valid : Prop) (o : Except Exn Response) : Prop where
  succeeds : (exists response, o = Except.ok response) <-> valid
  refused : ¬ valid -> o = Except.error (Exn.service forbidden) ∧
    outcomeStatus o = 403

/-- Every failure looks the same, except that a signature outside of ASCII
makes the comparison raise, and that the development mode tells a missing
object. -/
theorem signedGet_oneForbidden_iff
    (hgrammar : KeyGrammar.validate app.settings slot.bucket slot.key false =
      Except.ok ())
    (hrun : (system noFault).machine.Runs fs
      (app.signedGet slot.bucket slot.key exp sig) trace o fs')
    (hnow : ⟨Call.time, now⟩ ∈ trace) :
    OneForbidden (app.ValidAt slot.bucket slot.key exp sig now) o <->
      (exp ≤ intOfRat now ∨ Signing.isAscii sig = true) ∧
        ¬ (app.settings.storageSignedGetDevStream = true ∧
          storedObject app.driver slot fs = none ∧
          app.ValidAt slot.bucket slot.key exp sig now) := by
  have hascii : app.ValidAt slot.bucket slot.key exp sig now ->
      Signing.isAscii sig = true := isAscii_of_valid
  cases signedGet_answer hgrammar hrun hnow with
  | refused hinvalid hquiet =>
      constructor
      · intro _
        exact ⟨hquiet, fun h => hinvalid h.right.right⟩
      · intro _
        refine ⟨⟨fun h => ?_, fun h => absurd h hinvalid⟩, fun _ => ⟨rfl, rfl⟩⟩
        rcases h with ⟨response, hresponse⟩
        cases hresponse
  | crashed hlive hnot =>
      have hinvalid : ¬ app.ValidAt slot.bucket slot.key exp sig now := by
        intro hvalid
        rw [hascii hvalid] at hnot
        cases hnot
      constructor
      · intro h
        cases (h.refused hinvalid).left
      · intro h
        rcases h.left with hexpired | hascii'
        · omega
        · rw [hnot] at hascii'
          cases hascii'
  | redirected hvalid hprod =>
      constructor
      · intro _
        refine ⟨Or.inr (hascii hvalid), fun h => ?_⟩
        rw [hprod] at h
        cases h.left
      · intro _
        exact ⟨⟨fun _ => hvalid, fun _ => ⟨_, rfl⟩⟩, fun h => absurd hvalid h⟩
  | streamed hvalid hdev hthere =>
      constructor
      · intro _
        exact ⟨Or.inr (hascii hvalid), fun h => hthere h.right.left⟩
      · intro _
        exact ⟨⟨fun _ => hvalid, fun _ => ⟨_, rfl⟩⟩, fun h => absurd hvalid h⟩
  | missing hvalid hdev hnone =>
      constructor
      · intro h
        rcases h.succeeds.mpr hvalid with ⟨response, hresponse⟩
        cases hresponse
      · intro h
        exact absurd ⟨hdev, hnone, hvalid⟩ h.right

/-!
## Requests that never reach the object
-/

def clockChoice (now : Rat) : Choice where
  fault := none
  amount := 0
  token := []
  now := now

theorem time_step (fs : FileTree) (now : Rat) :
    (system noFault).machine.Step fs Call.time now fs :=
  ⟨clockChoice now, ⟨rfl, fun h => nomatch h⟩, rfl⟩

variable (app)

theorem signedGet_stops (slot : Slot app.settings) {e : Exn} {r : Except Exn Bool}
    (hgrammar : KeyGrammar.validate app.settings slot.bucket slot.key false =
      Except.ok ())
    (hverify : Signing.verifyAt app.platform app.settings.storageSignSecret
      slot.bucket slot.key exp sig (intOfRat now) = r)
    (hends : r = Except.error e ∨
      r = Except.ok false ∧ e = Exn.service forbidden) (fs : FileTree) :
    (system noFault).machine.Runs fs
      (app.signedGet slot.bucket slot.key exp sig) [⟨Call.time, now⟩]
      (Except.error e) fs := by
  unfold signedGet
  rw [hgrammar]
  change (system noFault).machine.Runs fs
    (Prog.call (S := calls) Call.time _) _ _ _
  refine Machine.Runs.call (time_step fs now) ?_
  change (system noFault).machine.Runs fs
    (Prog.ofExcept (Signing.verifyAt app.platform
      app.settings.storageSignSecret slot.bucket slot.key exp sig
      (intOfRat now)) >>= _) _ _ _
  rw [hverify]
  rcases hends with rfl | ⟨rfl, rfl⟩
  · exact Machine.Runs.raise fs e
  · exact Machine.Runs.raise fs (Exn.service forbidden)

end App

def sampleApp : App where
  platform := Platform.reference sampleVerifier
  settings := sampleSettings
  httpDate := fun _ => none

theorem pictureSlot_public :
    KeyGrammar.validate sampleApp.settings pictureSlot.bucket pictureSlot.key
      false = Except.ok () := rfl

/-- An expired request with some signature gets the one refusal. -/
theorem signedGet_oneForbidden_iff_expired :
    exists trace o,
      (system noFault).machine.Runs sampleTree
        (sampleApp.signedGet pictureSlot.bucket pictureSlot.key 0
          (text "deadbeef")) trace o sampleTree ∧
      App.OneForbidden
        (sampleApp.ValidAt pictureSlot.bucket pictureSlot.key 0
          (text "deadbeef") 0) o := by
  have hverify : Signing.verifyAt sampleApp.platform
      sampleApp.settings.storageSignSecret pictureSlot.bucket pictureSlot.key
      0 (text "deadbeef") (intOfRat 0) = Except.ok false := rfl
  have hrun := App.signedGet_stops sampleApp pictureSlot pictureSlot_public hverify
    (Or.inr ⟨rfl, rfl⟩) sampleTree
  refine ⟨_, _, hrun, ?_⟩
  apply (App.signedGet_oneForbidden_iff pictureSlot_public hrun
    List.mem_cons_self).mpr
  refine ⟨Or.inl (by decide), fun h => ?_⟩
  exact absurd h.left Bool.false_ne_true

/-- A signature with one letter outside of ASCII crashes the request. -/
theorem signedGet_crashes :
    exists trace o,
      (system noFault).machine.Runs sampleTree
        (sampleApp.signedGet pictureSlot.bucket pictureSlot.key 100
          ['\u00e9']) trace o sampleTree ∧
      ⟨Call.time, (0 : Rat)⟩ ∈ trace ∧
      outcomeStatus o = 500 ∧
      ¬ App.OneForbidden
        (sampleApp.ValidAt pictureSlot.bucket pictureSlot.key 100
          ['\u00e9'] 0) o := by
  have hverify : Signing.verifyAt sampleApp.platform
      sampleApp.settings.storageSignSecret pictureSlot.bucket pictureSlot.key
      100 ['\u00e9'] (intOfRat 0) = Except.error Exn.typeError := by
    unfold Signing.verifyAt
    rw [if_neg (by decide), Signing.compareDigest_sign, if_neg (by decide)]
  have hrun := App.signedGet_stops sampleApp pictureSlot pictureSlot_public hverify
    (Or.inl rfl) sampleTree
  refine ⟨_, _, hrun, List.mem_cons_self, rfl, ?_⟩
  intro h
  have hinvalid : ¬ sampleApp.ValidAt pictureSlot.bucket pictureSlot.key 100
      ['\u00e9'] 0 := by
    intro hvalid
    exact absurd (App.isAscii_of_valid hvalid) (by decide)
  cases (h.refused hinvalid).left

end StorybookStorage
