import StorybookStorage.Drivers.Records
import StorybookStorage.Store.Fresh

/-!
# One call after the other

With no other task in between, every method of the driver has a plain meaning
on the view: what it returns and what the view is afterwards.
-/

namespace StorybookStorage

open Python Posix Effects Contract

variable {settings : Settings} (d : LocalFsBlobDriver) (slot : Slot settings)

def solo (faults : Prop) : Contract Unit where
  toStaging := staging d.root
  May _ := faults
  Sweeps := False
  Reads _ _ := True
  Writes _ := True
  Stages _ _ _ := True
  Publishes _ _ _ _ := True
  Removes _ _ _ := True
  Makes _ _ _ := True

variable {d slot} {faults : Prop}

theorem solo_faulty : (solo d faults).Faulty <-> faults := by
  constructor
  · intro hfaulty
    rcases hfaulty with ⟨_, h⟩
    exact h
  · intro h
    exact ⟨Call.time, h⟩

theorem solo_noFault : (solo d False).Admits noFault :=
  fun _ _ _ h => Or.inl h

theorem solo_anyFault : (solo d True).Admits anyFault :=
  fun _ _ _ _ => Or.inr trivial

/-!
## Writes without an environment
-/

theorem tried_eq {v v' : View} {p : Path} (h : Tried Eq v p v') :
    Widens v p.dropLast v' := by
  rcases h with ⟨v1, v2, rfl, hwidens, rfl⟩
  exact hwidens

theorem placed_eq {v v' : View} {p : Path} {b : Bytes}
    (h : Placed Eq v p b v') :
    exists v1, Widens v p.dropLast v1 ∧ v1 p ≠ some Entry.dir ∧
      v' = Function.update v1 p (some (Entry.file b)) := by
  rcases h with ⟨_, v1, _, rfl, hwidens, rfl, hnodir, _, rfl⟩
  exact ⟨v1, hwidens, hnodir, rfl⟩

theorem widens_file {v v' : View} {p q : Path} {b : Bytes}
    (h : Widens v p v') :
    v' q = some (Entry.file b) <-> v q = some (Entry.file b) := by
  rcases h q with hsame | ⟨hnone, hdir, _⟩
  · rw [hsame]
  · rw [hnone, hdir]
    constructor <;> intro h <;> cases h

theorem widens_off {v v' : View} {p q : Path} (h : Widens v p v')
    (hq : ¬ q <+: p) : v' q = v q := by
  rcases h q with hsame | ⟨_, _, hpre⟩
  · exact hsame
  · exact absurd hpre hq

/-!
## The methods
-/

inductive PutEffect (d : LocalFsBlobDriver) (slot : Slot settings) (faults : Prop) (data : Data)
    (contentType : Text) (ifNoneMatch : Option Text)
    (metadata : Option Metadata) (v : View) :
    Except Exn PutResult -> View -> List Sight -> Prop where
  | met (o : Except Exn (Option ObjectInfo)) (more : List Sight) :
      ifNoneMatch = some (text "*") ->
      v (slot.objectLoc d.root) ≠ none ->
      Heads d slot (solo d faults) Eq v o ->
      Mute (solo d faults) more ->
      PutEffect d slot faults data contentType ifNoneMatch metadata v
        (o.map LocalFsBlobDriver.dedupResult) v
        ([Sight.tested (slot.objectLoc d.root) true] ++ more)
  | refused (e : Exn) (v' : View) (more : List Sight) :
      (ifNoneMatch = some (text "*") ->
        v (slot.objectLoc d.root) = none ∨ faults) ->
      Refused (solo d faults) Eq d.root (slot.objectLoc d.root) (asAiter data)
        v e ->
      Widens v (slot.objectLoc d.root).dropLast v' ->
      Mute (solo d faults) more ->
      PutEffect d slot faults data contentType ifNoneMatch metadata v
        (Except.error e) v' (testedSights slot d.root ifNoneMatch ++ more)
  | stored (v1 v' : View) (more : List Sight) :
      (ifNoneMatch = some (text "*") ->
        v (slot.objectLoc d.root) = none ∨ faults) ->
      data.ending = none ->
      Widens v (slot.objectLoc d.root).dropLast v1 ->
      v1 (slot.objectLoc d.root) ≠ some Entry.dir ->
      SidecarStep d slot (solo d faults) Eq
        (Function.update v1 (slot.objectLoc d.root)
          (some (Entry.file data.body)))
        data contentType (metadata.getD ∅) v' more ->
      PutEffect d slot faults data contentType ifNoneMatch metadata v
        (Except.ok (storedResult d data)) v'
        (testedSights slot d.root ifNoneMatch ++
          [Sight.placed (slot.objectLoc d.root)] ++ more)

variable {allow : Policy} {fs fs' : FileTree} {trace : List (Sigma calls.Ret)}

theorem wp_put_solo {data : Data} {contentType : Text}
    {ifNoneMatch : Option Text} {metadata : Option Metadata} (v : View) :
    ((solo d faults).machine () Eq).wp
      (d.put slot.bucket slot.key data contentType ifNoneMatch metadata)
      (fun o s => PutEffect d slot faults data contentType ifNoneMatch metadata
        v o s.view s.seen)
      { view := v, hold := Hold.idle, seen := [] } := by
  apply wp_put d slot rfl steady_eq trivial trivial rfl
  · exact
      { writes := trivial
        stages := fun _ _ => trivial
        makes := trivial
        publishes := fun _ => trivial
        sidecarStages := fun _ _ => trivial
        sidecarMakes := trivial
        sidecarPublishes := fun _ => trivial }
  · intro o v1 v' g' more hcond hthere heq hheads heq' hmute _
    subst heq heq'
    exact PutEffect.met o more hcond hthere hheads hmute
  · intro e v1 v' u more hcond heq hrefused htried hmute
    subst heq
    rw [solo_faulty] at hcond
    exact PutEffect.refused e v' more hcond hrefused (tried_eq htried) hmute
  · intro v1 v2 v' g' more hcond heq hend hplaced hside _
    subst heq
    rw [solo_faulty] at hcond
    rcases placed_eq hplaced with ⟨w, hwidens, hnodir, rfl⟩
    exact PutEffect.stored w v' more hcond hend hwidens hnodir hside

theorem put_runs {data : Data} {contentType : Text}
    {ifNoneMatch : Option Text} {metadata : Option Metadata}
    {o : Except Exn PutResult} (hallow : (solo d faults).Admits allow)
    (hsound : fs.Sound)
    (hrun : (system allow).machine.Runs fs
      (d.put slot.bucket slot.key data contentType ifNoneMatch metadata)
      trace o fs') :
    fs'.Sound ∧ PutEffect d slot faults data contentType ifNoneMatch
      metadata ((staging d.root).view fs) o ((staging d.root).view fs')
      (sights trace) := by
  rcases adequate_alone () hallow hsound hrun (wp_put_solo _) with
    ⟨hsound', _, h⟩
  exact ⟨hsound', h⟩

theorem head_runs {o : Except Exn (Option ObjectInfo)}
    (hallow : (solo d faults).Admits allow) (hsound : fs.Sound)
    (hrun : (system allow).machine.Runs fs (d.head slot.bucket slot.key)
      trace o fs') :
    fs'.Sound ∧ (staging d.root).view fs' = (staging d.root).view fs ∧
      Heads d slot (solo d faults) Eq ((staging d.root).view fs) o := by
  have hdone := adequate_alone () hallow hsound hrun
    (Q := fun o s => s.view = (staging d.root).view fs ∧
      Heads d slot (solo d faults) Eq ((staging d.root).view fs) o) ?_
  · rcases hdone with ⟨hsound', _, h⟩
    exact ⟨hsound', h⟩
  · apply wp_head d slot rfl steady_eq trivial trivial rfl
    intro o v' g' more hheads heq _ _
    subst heq
    exact ⟨rfl, hheads⟩

theorem delete_runs {o : Except Exn Bool}
    (hallow : (solo d faults).Admits allow) (hsound : fs.Sound)
    (hrun : (system allow).machine.Runs fs (d.delete slot.bucket slot.key)
      trace o fs') :
    fs'.Sound ∧ exists existed cleaned v1, o = Except.ok existed ∧
      Unlinked (solo d faults) Eq ((staging d.root).view fs)
        (slot.objectLoc d.root) v1 existed ∧
      Unlinked (solo d faults) Eq v1 (slot.sidecarLoc d.root)
        ((staging d.root).view fs') cleaned := by
  have hdone := adequate_alone () hallow hsound hrun
    (Q := fun o s => exists existed cleaned v1, o = Except.ok existed ∧
      Unlinked (solo d faults) Eq ((staging d.root).view fs)
        (slot.objectLoc d.root) v1 existed ∧
      Unlinked (solo d faults) Eq v1 (slot.sidecarLoc d.root) s.view
        cleaned) ?_
  · rcases hdone with ⟨hsound', _, h⟩
    exact ⟨hsound', h⟩
  · apply wp_delete d slot rfl rfl trivial (fun _ => trivial)
    intro existed cleaned v1 v' h1 h'
    exact ⟨existed, cleaned, v1, rfl, h1, h'⟩

/-- What a client that pulls so many chunks gets of the stored bytes: all of
them, if it goes on to the end. -/
def Fetched (pulls : Nat) :
    Option Bytes -> Except Exn (Option (Bytes × Bool)) -> Prop
  | none, o => o = Except.ok none
  | some b, o => exists got ended, o = Except.ok (some (got, ended)) ∧
      got <+: b ∧ (ended = true -> got = b) ∧
      (ended = false -> pulls ≤ got.length)

/-- A reader alone gets the object as it is. -/
theorem fetch_runs {pulls : Nat} {o : Except Exn (Option (Bytes × Bool))}
    (hallow : (solo d False).Admits allow) (hsound : fs.Sound)
    (hrun : (system allow).machine.Runs fs
      (d.fetch slot.bucket slot.key pulls) trace o fs') :
    fs'.Sound ∧ (staging d.root).view fs' = (staging d.root).view fs ∧
      Fetched pulls (storedObject d slot fs) o := by
  have hdone := adequate_alone () hallow hsound hrun
    (Q := fun o s => s.view = (staging d.root).view fs ∧
      Fetched pulls (storedObject d slot fs) o) ?_
  · rcases hdone with ⟨hsound', _, h⟩
    exact ⟨hsound', h⟩
  · have hstored : forall b,
        (staging d.root).view fs (slot.objectLoc d.root) =
          some (Entry.file b) <-> storedObject d slot fs = some b :=
      fun b => view_storedObject d slot
    have hnofault : ¬ (solo d False).Faulty := fun h => solo_faulty.mp h
    apply wp_fetch d slot rfl steady_eq trivial rfl
    · intro v' hreason heq
      subst heq
      refine ⟨rfl, ?_⟩
      cases hobj : storedObject d slot fs with
      | none => rfl
      | some b =>
          rcases hreason with hf | hno
          · exact absurd hf hnofault
          · exact absurd ((hstored b).mpr hobj) (hno b)
    · intro b v' hb heq heq'
      subst heq heq'
      refine ⟨rfl, ?_⟩
      rw [(hstored b).mp hb]
      exact ⟨[], false, rfl, List.nil_prefix, by simp, by simp⟩
    · intro b v1 v' got ended heq hb hgot hend hshort heq'
      subst heq heq'
      refine ⟨rfl, ?_⟩
      rw [(hstored b).mp hb]
      exact ⟨got, ended, rfl, hgot, hend, hshort⟩
    · intro n b v1 v' g' more hb hreason heq heq' _ _
      subst heq heq'
      rcases hreason with hf | hno
      · exact absurd hf hnofault
      · exact absurd hb (hno b)

/-!
## Without faults
-/

/-- The record in these bytes has the size and the hash of a body. -/
def Describes (d : LocalFsBlobDriver) (raw b : Bytes) : Prop :=
  exists record, raw = recordBytes d record ∧ record.bytes = b.length ∧
    record.etag = d.platform.sha256.digest b

theorem describes_sidecarBytes (contentType : Text) (b : Bytes)
    (metadata : Metadata) (now : Rat) :
    Describes d
      (sidecarBytes d contentType (d.platform.sha256.digest b) b.length metadata
        now) b :=
  ⟨_, sidecarBytes_eq d _ _ _ _ now, rfl, rfl⟩

def Reports (d : LocalFsBlobDriver) (b : Bytes)
    (o : Except Exn (Option ObjectInfo)) : Prop :=
  exists info, o = Except.ok (some info) ∧ info.bytes = b.length ∧
    (info.etag = Json.str (d.platform.sha256.digest b) ∨
      info.etag = Json.str [])

variable {v : View} {o : Except Exn (Option ObjectInfo)}

theorem Heads.reports (h : Heads d slot (solo d False) Eq v o) {b : Bytes}
    (hb : v (slot.objectLoc d.root) = some (Entry.file b))
    (hside : forall raw, v (slot.sidecarLoc d.root) = some (Entry.file raw) ->
      Describes d raw b) : Reports d b o := by
  have hnofault : ¬ (solo d False).Faulty := fun h => solo_faulty.mp h
  cases h with
  | absent v1 h1 hreason =>
      cases h1
      rcases hreason with hf | hno
      · exact absurd hf hnofault
      · exact absurd hb (hno b)
  | recorded st v1 v2 raw j h1 _ _ h2 hraw hback _ =>
      cases h1
      cases h2
      rcases hside raw hraw with ⟨record, rfl, hbytes, hetag⟩
      rw [readBack_recordBytes] at hback
      cases hback
      refine ⟨_, rfl, ?_, Or.inl ?_⟩
      · exact congrArg Int.ofNat hbytes
      · exact congrArg Json.str hetag
  | unreadable v1 v2 raw e h1 h2 hraw hback =>
      cases h1
      cases h2
      rcases hside raw hraw with ⟨record, rfl, _⟩
      rw [readBack_recordBytes] at hback
      cases hback
  | fallback st v1 v2 v3 etag h1 _ hsize h2 _ h3 hetag =>
      cases h1
      cases h2
      cases h3
      refine ⟨_, rfl, ?_, ?_⟩
      · exact congrArg Int.ofNat (hsize b hb)
      · rcases hetag with ⟨_, b', hb', hdigest⟩ | ⟨hempty, _⟩
        · rw [hb] at hb'
          cases hb'
          exact Or.inl (congrArg Json.str hdigest)
        · exact Or.inr (congrArg Json.str hempty)

end StorybookStorage
