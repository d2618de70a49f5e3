import StorybookStorage.Access.Authority

/-!
# Active content

The policy on user uploads reads the declared media type and compares it with
the entries of a map.  What a page or a vector graphic is served as depends on
the extension of its key, which no check reads.
-/

namespace StorybookStorage

open Python Posix Effects

def activeTypes : List Text :=
  [text "text/html", text "image/svg+xml"]

structure Passive (app : App) (key : Text) (contentType : Option Text) :
    Prop where
  declared : mediaType app.platform contentType ∉ activeTypes
  served : app.driver.guessMime key ∉ activeTypes

/-- An upload that passes every check of `create_upload`, the last of them on
the bytes as they come. -/
structure Accepted (app : App) (headers : AuthHeaders)
    (slot : Slot app.settings) (file : UploadFile) (principal : Principal)
    (cap : Int) : Prop where
  authentic : requireUserJwt app.platform headers = Except.ok principal
  narrow : KeyGrammar.validate app.settings slot.bucket slot.key false =
    Except.ok ()
  allowed : checkUserUpload app.platform app.settings slot.key
    file.contentType file.size = Except.ok cap
  whole : (uploadData file cap).ending = none

/-- Keys of the user grammar outside of the service-only trees. -/
structure OpenToUsers (settings : Settings) (slot : Slot settings) : Prop where
  narrow : KeyGrammar.validate settings slot.bucket slot.key false =
    Except.ok ()
  writable : checkUserWritable settings slot.key = Except.ok ()

/-- Configurations that leave no way in: no entry of the map begins an active
type, and every key with an active extension is closed to users. -/
structure Closed (app : App) : Prop where
  types : forall slot, OpenToUsers app.settings slot -> forall entry t,
    entry ∈ app.settings.userMimeCaps.entries -> t ∈ activeTypes ->
    ¬ entry.1 <+: t
  keys : forall slot, OpenToUsers app.settings slot -> forall contentType cap,
    resolveUserCap app.platform app.settings contentType = Except.ok cap ->
    app.driver.guessMime slot.key ∉ activeTypes

variable {app : App} {headers : AuthHeaders} {slot : Slot app.settings}
  {file : UploadFile} {principal : Principal} {cap : Int}

theorem Accepted.opened (h : Accepted app headers slot file principal cap) :
    OpenToUsers app.settings slot where
  narrow := h.narrow
  writable := (checkUserUpload_ok.mp h.allowed).left

/-- What is left of an accepted request is the work of the driver. -/
theorem Accepted.request (h : Accepted app headers slot file principal cap) :
    app.createUpload headers slot.bucket slot.key file =
      (app.driver.put slot.bucket slot.key (uploadData file cap)
          (uploadType file) none (uploaderMetadata principal) >>= fun result =>
        pure
          (objectResponse app.settings 201 slot.bucket slot.key result)) := by
  unfold App.createUpload
  rw [h.authentic, h.narrow, h.allowed]
  rfl

def emptyFile (contentType : Option Text) : UploadFile where
  contentType := contentType
  size := none
  reads := { chunks := [], ending := none }

theorem accepted_emptyFile {contentType : Option Text}
    (hcaller : requireUserJwt app.platform headers = Except.ok principal)
    (hopen : OpenToUsers app.settings slot)
    (hcap : resolveUserCap app.platform app.settings contentType =
      Except.ok cap) :
    Accepted app headers slot (emptyFile contentType) principal cap where
  authentic := hcaller
  narrow := hopen.narrow
  allowed := checkUserUpload_ok.mpr ⟨hopen.writable, hcap, fun _ hn => nomatch hn⟩
  whole := rfl

theorem mediaType_active {platform : Platform} {t : Text}
    (h : t ∈ activeTypes) : mediaType platform (some t) = t := by
  have hplain : strip (beforeFirst ';' t) = t ∧
      (t.all fun c => decide (c.toNat < 128 ∧ ¬ ('A' ≤ c ∧ c ≤ 'Z'))) =
        true := by
    revert t
    decide
  show platform.lower (strip (beforeFirst ';' t)) = t
  rw [hplain.left]
  exact platform.lower_ascii t hplain.right

theorem active_nonempty {t : Text} (h : t ∈ activeTypes) : t ≠ [] := by
  intro heq
  subst heq
  revert h
  decide

/-- Everything a user can get accepted is passive exactly if the configuration
leaves no way in. -/
theorem uploads_passive_iff
    (hcaller : requireUserJwt app.platform headers = Except.ok principal) :
    (forall (slot : Slot app.settings) (file : UploadFile)
        (uploader : Principal) (cap : Int),
        Accepted app headers slot file uploader cap ->
        Passive app slot.key file.contentType) <->
      Closed app := by
  constructor
  · intro h
    constructor
    · intro slot hopen entry t hentry ht hprefix
      have hmatch : mediaType app.platform (some t) ≠ [] ∧
          exists entry, entry ∈ app.settings.userMimeCaps.entries ∧
            entry.1 <+: mediaType app.platform (some t) := by
        rw [mediaType_active ht]
        exact ⟨active_nonempty ht, entry, hentry, hprefix⟩
      rcases resolveUserCap_isOk.mpr hmatch with ⟨cap, hcap⟩
      apply (h slot _ principal cap
        (accepted_emptyFile hcaller hopen hcap)).declared
      show mediaType app.platform (some t) ∈ activeTypes
      rw [mediaType_active ht]
      exact ht
    · intro slot hopen contentType cap hcap
      exact (h slot _ principal cap
        (accepted_emptyFile hcaller hopen hcap)).served
  · intro h slot file uploader cap haccepted
    have hcap := (checkUserUpload_ok.mp haccepted.allowed).right.left
    constructor
    · intro hactive
      rcases (resolveUserCap_isOk.mp ⟨cap, hcap⟩).right with
        ⟨entry, hentry, hprefix⟩
      exact h.types slot haccepted.opened entry _ hentry hactive hprefix
    · exact h.keys slot haccepted.opened file.contentType cap hcap

/-!
## A page declared as a picture
-/

theorem userHeaders_accepted :
    requireUserJwt sampleApp.platform userHeaders =
      Except.ok { kind := PrincipalKind.user, name := text "user-1" } := rfl

theorem pageSlot_open : OpenToUsers sampleApp.settings pageSlot where
  narrow := rfl
  writable := rfl

theorem pageSlot_active :
    sampleApp.driver.guessMime pageSlot.key ∈ activeTypes := by decide +kernel

/-- The small store takes pictures, so it is not closed. -/
theorem uploads_passive_iff_pictures :
    ¬ forall (slot : Slot sampleApp.settings) (file : UploadFile)
        (uploader : Principal) (cap : Int),
        Accepted sampleApp userHeaders slot file uploader cap ->
        Passive sampleApp slot.key file.contentType := by
  intro hpassive
  have hclosed := (uploads_passive_iff userHeaders_accepted).mp hpassive
  exact hclosed.keys pageSlot pageSlot_open (some (text "image/png")) 100 rfl
    pageSlot_active

/-- No entry of the map begins with an active type, and still a page gets in,
declared as a picture. -/
theorem page_accepted :
    (forall entry, entry ∈ sampleApp.settings.userMimeCaps.entries ->
      forall t, t ∈ activeTypes -> ¬ t <+: entry.1) ∧
    exists run,
      answerOf
          (sampleApp.createUpload userHeaders pageSlot.bucket pageSlot.key
            sampleFile) sampleTree = some run ∧
        outcomeStatus run.2.1 = 201 ∧
        ¬ Passive sampleApp pageSlot.key sampleFile.contentType := by
  constructor
  · decide
  · have hends :
        (answerOf
          (sampleApp.createUpload userHeaders pageSlot.bucket pageSlot.key
            sampleFile) sampleTree).map (fun run => outcomeStatus run.2.1) =
          some 201 := by decide +kernel
    rcases Option.map_eq_some_iff.mp hends with ⟨run, hrun, hstatus⟩
    refine ⟨run, hrun, hstatus, ?_⟩
    intro hpassive
    exact hpassive.served pageSlot_active

end StorybookStorage
