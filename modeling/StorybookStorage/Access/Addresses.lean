import StorybookStorage.Access.RoundTrip

/-!
# The URLs of an object

Three builders make a URL of a bucket and a key.  Two quote the key and one
does not; with the characters the grammar admits they all decode to the same
path.
-/

namespace StorybookStorage

open Python Posix Effects

def urlPath (url : Text) : Text :=
  url.takeWhile fun c => decide (c ≠ '?' ∧ c ≠ '#')

theorem urlPath_plain {t : Text} (hmark : '?' ∉ t) (hhash : '#' ∉ t) :
    urlPath t = t := by
  unfold urlPath
  rw [List.takeWhile_eq_self_iff]
  intro c hc
  refine decide_eq_true ⟨?_, ?_⟩
  · intro heq
    subst heq
    exact hmark hc
  · intro heq
    subst heq
    exact hhash hc

theorem urlPath_query {t : Text} (hmark : '?' ∉ t) (hhash : '#' ∉ t)
    (rest : Text) : urlPath (t ++ '?' :: rest) = t := by
  have hplain := urlPath_plain hmark hhash
  unfold urlPath at hplain ⊢
  rw [List.takeWhile_append, hplain, if_pos rfl]
  simp

theorem rstripChar_idem (sep : Char) (t : Text) :
    rstripChar sep (rstripChar sep t) = rstripChar sep t :=
  List.rdropWhile_idempotent _ t

theorem mem_of_mem_rstripChar {sep c : Char} {t : Text}
    (h : c ∈ rstripChar sep t) : c ∈ t :=
  (List.rdropWhile_prefix _ t).subset h

namespace App

variable {app : App}

theorem driver_publicBase (app : App) :
    app.driver.publicBase = app.settings.publicBaseUrl := by
  show rstripChar '/' app.settings.publicBaseUrl = _
  unfold Settings.publicBaseUrl
  exact rstripChar_idem '/' _

theorem not_mem_publicBase {c : Char}
    (h : c ∉ app.settings.storagePublicBaseUrl) :
    c ∉ app.settings.publicBaseUrl :=
  fun hc => h (mem_of_mem_rstripChar hc)

theorem slot_key_plain (slot : Slot app.settings) {c : Char} (hslash : c ≠ '/')
    (hchar : KeyGrammar.segmentChar true c = false) : c ∉ slot.key :=
  KeyGrammar.not_mem_key (KeyGrammar.validate_ok slot.accepted).right.right hslash
    hchar

end App

def placePath {settings : Settings} (location : Text) (slot : Slot settings) :
    Text :=
  '/' :: (location ++ '/' :: (slot.bucket ++ '/' :: slot.key))

section Builders

variable {app : App}

theorem presignGet_minted {slot : Slot app.settings} {ttlSec : Int}
    {M : Machine calls FileTree} {fs fs' : FileTree}
    {trace : List (Sigma calls.Ret)} {url : Text}
    (hrun : M.Runs fs (app.driver.presignGet slot.bucket slot.key ttlSec) trace
      (Except.ok url) fs') : exists exp, url = app.mintedUrl slot exp := by
  change M.Runs fs (Prog.call (S := calls) Call.time _) trace _ fs' at hrun
  cases hrun with
  | @call _ _ _ _ now _ _ _ hstep hrest =>
      cases hrest
      exact ⟨_, rfl⟩

theorem encode_placePath {location : Text} {slot slot' : Slot app.settings}
    (h : encode (placePath location slot) = encode (placePath location slot')) :
    slot = slot' := by
  have htail := (List.cons.inj (encode_injective h)).right
  have hrest := (List.cons.inj (List.append_cancel_left htail)).right
  rcases append_cons_inj
    (App.slot_bucket_plain slot (by decide) (by decide) (by decide))
    (App.slot_bucket_plain slot' (by decide) (by decide) (by decide)) hrest with
      ⟨hbucket, hkey⟩
  exact Slot.ext hbucket hkey

/-- No character of an object's path is escaped or ends the path of a URL. -/
theorem not_mem_placePath {location : Text} (slot : Slot app.settings) {c : Char}
    (hlocation : c ∉ location) (hslash : c ≠ '/')
    (hlower : isLowerOrDigit c = false) (hdash : c ≠ '-') (hline : c ≠ '\n')
    (hchar : KeyGrammar.segmentChar true c = false) :
    c ∉ placePath location slot := by
  unfold placePath
  simp only [List.mem_cons, List.mem_append, not_or]
  exact ⟨hslash, hlocation, hslash, App.slot_bucket_plain slot hlower hdash hline,
    hslash, App.slot_key_plain slot hslash hchar⟩

theorem buildPublicUrl_eq (slot : Slot app.settings) :
    buildPublicUrl app.settings slot.bucket slot.key =
      app.settings.publicBaseUrl ++ placePath (text "files") slot := by
  unfold buildPublicUrl placePath
  simp [text]

def quotedPath {settings : Settings} (location : Text) (slot : Slot settings) :
    Text :=
  '/' :: (location ++ '/' :: (slot.bucket ++ '/' :: quote slot.key))

theorem unquoteBytes_quotedPath {location : Text} (hlocation : '%' ∉ location)
    (slot : Slot app.settings) :
    unquoteBytes (quotedPath location slot) =
      encode (placePath location slot) := by
  have hplain : '%' ∉ '/' :: (location ++ '/' :: (slot.bucket ++ ['/'])) := by
    simp only [List.mem_cons, List.mem_append, not_or]
    exact ⟨by decide, hlocation, by decide,
      App.slot_bucket_plain slot (by decide) (by decide) (by decide), by decide,
      List.not_mem_nil⟩
  have hshape : quotedPath location slot =
      '/' :: (location ++ '/' :: (slot.bucket ++ ['/'])) ++ quote slot.key := by
    simp [quotedPath]
  have hplace : placePath location slot =
      '/' :: (location ++ '/' :: (slot.bucket ++ ['/'])) ++ slot.key := by
    simp [placePath]
  have hquote := unquoteBytes_quote slot.key []
  rw [List.append_nil] at hquote
  rw [hshape, unquoteBytes_append hplain, hquote, hplace, encode_append]
  exact congrArg (_ ++ ·) (List.append_nil _)

theorem not_mem_quotedPath {location : Text} (slot : Slot app.settings)
    {c : Char} (hlocation : c ∉ location) (hslash : c ≠ '/')
    (hlower : isLowerOrDigit c = false) (hdash : c ≠ '-') (hline : c ≠ '\n')
    (hquote : c ∉ quote slot.key) : c ∉ quotedPath location slot := by
  unfold quotedPath
  simp only [List.mem_cons, List.mem_append, not_or]
  exact ⟨hslash, hlocation, hslash, App.slot_bucket_plain slot hlower hdash hline,
    hslash, hquote⟩

theorem mintedUrl_eq (slot : Slot app.settings) (exp : Int) :
    exists query, app.mintedUrl slot exp =
      app.settings.publicBaseUrl ++ quotedPath (text "files-signed") slot ++
        '?' :: query := by
  refine ⟨text "exp=" ++ (intRepr exp ++ (text "&sig=" ++
    Signing.sign app.platform app.settings.storageSignSecret slot.bucket
      slot.key exp)), ?_⟩
  unfold App.mintedUrl quotedPath
  rw [App.driver_publicBase]
  simp [text]

end Builders

/-- Each builder names exactly its object; the base is decoded like the
rest. -/
structure Addressed (app : App) : Prop where
  publicUrl : forall slot : Slot app.settings,
    unquoteBytes
        (urlPath (buildPublicUrl app.settings slot.bucket slot.key)) =
      unquoteBytes app.settings.publicBaseUrl ++
        encode (placePath (text "files") slot)
  signedUrl : forall (slot : Slot app.settings) ttlSec
    (M : Machine calls FileTree) fs trace url fs',
    M.Runs fs (app.driver.presignGet slot.bucket slot.key ttlSec) trace
      (Except.ok url) fs' ->
    unquoteBytes (urlPath url) =
      unquoteBytes app.settings.publicBaseUrl ++
        encode (placePath (text "files-signed") slot)
  internal : forall slot : Slot app.settings,
    unquoteBytes (urlPath (App.internalTarget slot.bucket slot.key)) =
      encode (placePath (text "internal-files") slot)
  publicUrl_inj : forall slot slot' : Slot app.settings,
    buildPublicUrl app.settings slot.bucket slot.key =
      buildPublicUrl app.settings slot'.bucket slot'.key ->
    slot = slot'
  signedUrl_inj : forall (slot slot' : Slot app.settings) ttlSec ttlSec'
    (M : Machine calls FileTree) fs gs trace trace' url fs' gs',
    M.Runs fs (app.driver.presignGet slot.bucket slot.key ttlSec) trace
      (Except.ok url) fs' ->
    M.Runs gs (app.driver.presignGet slot'.bucket slot'.key ttlSec') trace'
      (Except.ok url) gs' ->
    slot = slot'
  internal_inj : forall slot slot' : Slot app.settings,
    App.internalTarget slot.bucket slot.key =
      App.internalTarget slot'.bucket slot'.key ->
    slot = slot'
  /-- A base without a percent sign stands for itself. -/
  base : '%' ∉ app.settings.storagePublicBaseUrl ->
    unquoteBytes app.settings.publicBaseUrl = encode app.settings.publicBaseUrl

section Bases

variable {app : App}

theorem publicUrl_decoded (hmark : '?' ∉ app.settings.storagePublicBaseUrl)
    (hhash : '#' ∉ app.settings.storagePublicBaseUrl)
    (slot : Slot app.settings) :
    unquoteBytes (urlPath (buildPublicUrl app.settings slot.bucket slot.key)) =
      unquoteBytes app.settings.publicBaseUrl ++
        encode (placePath (text "files") slot) := by
  have hplain : forall c : Char, c ∉ text "files" -> c ≠ '/' ->
      isLowerOrDigit c = false -> c ≠ '-' -> c ≠ '\n' ->
      KeyGrammar.segmentChar true c = false ->
      c ∉ placePath (text "files") slot :=
    fun _ => not_mem_placePath slot
  have hpath : urlPath (buildPublicUrl app.settings slot.bucket slot.key) =
      app.settings.publicBaseUrl ++ placePath (text "files") slot := by
    rw [buildPublicUrl_eq]
    apply urlPath_plain
    · rw [List.mem_append, not_or]
      exact ⟨App.not_mem_publicBase hmark, hplain _ (by decide) (by decide)
        (by decide) (by decide) (by decide) (by decide)⟩
    · rw [List.mem_append, not_or]
      exact ⟨App.not_mem_publicBase hhash, hplain _ (by decide) (by decide)
        (by decide) (by decide) (by decide) (by decide)⟩
  rw [hpath]
  refine (unquoteBytes_split (by decide) _ _).trans ?_
  have hpercent := hplain '%' (by decide) (by decide) (by decide) (by decide)
    (by decide) (by decide)
  rw [← unquoteBytes_plain hpercent]
  rfl

theorem mintedUrl_decoded (hmark : '?' ∉ app.settings.storagePublicBaseUrl)
    (hhash : '#' ∉ app.settings.storagePublicBaseUrl)
    (slot : Slot app.settings) (exp : Int) :
    unquoteBytes (urlPath (app.mintedUrl slot exp)) =
      unquoteBytes app.settings.publicBaseUrl ++
        encode (placePath (text "files-signed") slot) := by
  rcases mintedUrl_eq slot exp with ⟨query, hquery⟩
  have hpath : urlPath (app.mintedUrl slot exp) =
      app.settings.publicBaseUrl ++ quotedPath (text "files-signed") slot := by
    rw [hquery]
    apply urlPath_query
    · rw [List.mem_append, not_or]
      exact ⟨App.not_mem_publicBase hmark, not_mem_quotedPath slot (by decide)
        (by decide) (by decide) (by decide) (by decide)
        fun hc => (quote_char hc).left rfl⟩
    · rw [List.mem_append, not_or]
      exact ⟨App.not_mem_publicBase hhash, not_mem_quotedPath slot (by decide)
        (by decide) (by decide) (by decide) (by decide)
        fun hc => (quote_char hc).right.right.right rfl⟩
  rw [hpath]
  refine (unquoteBytes_split (by decide) _ _).trans ?_
  rw [← unquoteBytes_quotedPath (by decide) slot]
  rfl

theorem internalTarget_decoded (slot : Slot app.settings) :
    unquoteBytes (urlPath (App.internalTarget slot.bucket slot.key)) =
      encode (placePath (text "internal-files") slot) := by
  have hshape : App.internalTarget slot.bucket slot.key =
      quotedPath (text "internal-files") slot := by
    simp [App.internalTarget, quotedPath, text]
  rw [hshape, urlPath_plain]
  · exact unquoteBytes_quotedPath (by decide) slot
  · exact not_mem_quotedPath slot (by decide) (by decide) (by decide) (by decide)
      (by decide) fun hc => (quote_char hc).left rfl
  · exact not_mem_quotedPath slot (by decide) (by decide) (by decide) (by decide)
      (by decide) fun hc => (quote_char hc).right.right.right rfl

/-- Below a base without a query and a fragment every URL names its object. -/
theorem urls_addressed (hmark : '?' ∉ app.settings.storagePublicBaseUrl)
    (hhash : '#' ∉ app.settings.storagePublicBaseUrl) : Addressed app where
  publicUrl := publicUrl_decoded hmark hhash
  signedUrl := by
    intro slot ttlSec M fs trace url fs' hrun
    rcases presignGet_minted hrun with ⟨exp, rfl⟩
    exact mintedUrl_decoded hmark hhash slot exp
  internal := internalTarget_decoded
  publicUrl_inj := by
    intro slot slot' h
    have hdecoded := publicUrl_decoded hmark hhash slot
    rw [h, publicUrl_decoded hmark hhash slot'] at hdecoded
    exact (encode_placePath (List.append_cancel_left hdecoded)).symm
  signedUrl_inj := by
    intro slot slot' ttlSec ttlSec' M fs gs trace trace' url fs' gs' hrun hrun'
    rcases presignGet_minted hrun with ⟨exp, rfl⟩
    rcases presignGet_minted hrun' with ⟨exp', hsame⟩
    have hdecoded := mintedUrl_decoded hmark hhash slot exp
    rw [hsame, mintedUrl_decoded hmark hhash slot' exp'] at hdecoded
    exact (encode_placePath (List.append_cancel_left hdecoded)).symm
  internal_inj := by
    intro slot slot' h
    have hdecoded := internalTarget_decoded slot
    rw [h, internalTarget_decoded slot'] at hdecoded
    exact (encode_placePath hdecoded).symm
  base := fun hpercent => unquoteBytes_plain (App.not_mem_publicBase hpercent)

end Bases

theorem urls_addressed_sample : Addressed sampleApp :=
  urls_addressed (by decide) (by decide)

def escapedApp : App where
  platform := sampleApp.platform
  settings :=
    { sampleSettings with
      storagePublicBaseUrl := text "https://files/%41/" }
  httpDate := fun _ => none

def escapedSlot : Slot escapedApp.settings where
  bucket := text "assets"
  key := text "a.png"
  accepted := rfl

/-- Decoding a URL decodes the base too, and the base loses its slash. -/
theorem escapedBase_decoded :
    unquote (urlPath (buildPublicUrl escapedApp.settings escapedSlot.bucket
        escapedSlot.key)) = some (text "https://files/A/files/assets/a.png") ∧
      unquote (urlPath (buildPublicUrl escapedApp.settings escapedSlot.bucket
        escapedSlot.key)) ≠
          some (escapedApp.settings.storagePublicBaseUrl ++
            placePath (text "files") escapedSlot) ∧
      unquote (urlPath (buildPublicUrl escapedApp.settings escapedSlot.bucket
        escapedSlot.key)) ≠
          some (escapedApp.settings.publicBaseUrl ++
            placePath (text "files") escapedSlot) := by
  decide +kernel

end StorybookStorage
