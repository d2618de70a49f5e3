import StorybookStorage.Store.Amicable
import StorybookStorage.Store.FakeDriver
import StorybookStorage.Store.Retrieval

/-!
# The local driver keeps what the in-memory driver keeps

On amicable slots, one call after the other and without faults, every verb of
the local driver answers what the in-memory driver answers, for some reading of
the clock.
-/

namespace StorybookStorage

open Python Posix Effects Contract FileTree

variable {settings : Settings} {d : LocalFsBlobDriver}
  {S : Slot settings -> Prop} {slot : Slot settings} {pulls : Nat}
  {fs fs' : FileTree} {f f' : FakeBlobDriver} {trace : List (Sigma calls.Ret)}

/-- The tree holds the entries of the in-memory driver: bodies at the objects'
places, the rest in the sidecars. -/
structure Shelved (d : LocalFsBlobDriver) (S : Slot settings -> Prop)
    (pulls : Nat) (fs : FileTree) (f : FakeBlobDriver) : Prop where
  roomy : Roomy d S fs
  signs : f.signSecret = d.signSecret
  based : f.publicBase = d.publicBase
  objects : forall slot : Slot settings,
    storedObject d slot fs = f.get slot.bucket slot.key
  records : forall (slot : Slot settings) entry,
    f.store.lookup (slot.bucket, slot.key) = some entry ->
    exists now, storedSidecar d slot fs =
      some (sidecarBytes d entry.contentType (d.platform.sha256.digest entry.raw)
        entry.raw.length entry.metadata now)
  entries : forall place entry, f.store.lookup place = some entry ->
    (exists slot : Slot settings, S slot ∧ place = (slot.bucket, slot.key)) ∧
      entry.contentType ≠ [] ∧ entry.raw.length < pulls

theorem Shelved.entry (h : Shelved d S pulls fs f) {b : Bytes}
    (hb : storedObject d slot fs = some b) :
    exists entry, f.store.lookup (slot.bucket, slot.key) = some entry ∧
      entry.raw = b := by
  rw [h.objects] at hb
  exact Option.map_eq_some_iff.mp hb

theorem Shelved.vacant (h : Shelved d S pulls fs f)
    (hnone : storedObject d slot fs = none) :
    f.store.lookup (slot.bucket, slot.key) = none := by
  rw [h.objects] at hnone
  exact Option.map_eq_none_iff.mp hnone

theorem Shelved.same (h : Shelved d S pulls fs f) (hroomy : Roomy d S fs')
    (hfiles : fileAt ((staging d.root).view fs') =
      fileAt ((staging d.root).view fs))
    (hstore : f'.store = f.store) (hsigns : f'.signSecret = f.signSecret)
    (hbased : f'.publicBase = f.publicBase) : Shelved d S pulls fs' f' where
  roomy := hroomy
  signs := hsigns.trans h.signs
  based := hbased.trans h.based
  objects := by
    intro slot
    rw [← fileAt_object, hfiles, fileAt_object, h.objects]
    unfold FakeBlobDriver.get
    rw [hstore]
  records := by
    intro slot entry hentry
    rw [hstore] at hentry
    rw [← fileAt_sidecar, hfiles, fileAt_sidecar]
    exact h.records slot entry hentry
  entries := by
    rw [hstore]
    exact h.entries

/-!
## Put
-/

section Put

variable {data : Data} {contentType : Text} {ifNoneMatch : Option Text}
  {metadata : Option Metadata} {o : Except Exn PutResult}

theorem translateOsError_of_not_os {e : Exn} (h : forall n, e ≠ Exn.os n) :
    LocalFsBlobDriver.translateOsError e = e := by
  cases e with
  | os n => exact absurd rfl (h n)
  | _ => rfl

/-- With room, only its source makes a put fail. -/
theorem Roomy.refused_source (h : Roomy d S fs) (hamicable : Amicable S)
    (hslot : S slot) {e : Exn}
    (hrefused : Refused (solo d False) Eq d.root (slot.objectLoc d.root)
      (asAiter data) ((staging d.root).view fs) e) :
    exists e', data.ending = some e' ∧
      e = LocalFsBlobDriver.translateOsError e' := by
  cases hending : data.ending with
  | none =>
      exact absurd (h.kempt.refused hrefused)
        (h.unhindered hamicable hslot hending)
  | some e' =>
      have hclear : ¬ Hindered d slot fs (Data.bytes []) :=
        h.unhindered hamicable hslot rfl
      cases hrefused with
      | source e1 he1 =>
          rw [asAiter_ending, hending] at he1
          cases he1
          exact ⟨e', rfl, rfl⟩
      | device n hf =>
          rcases hf with hf | hs
          · exact absurd hf solo_steady
          · exact absurd hs id
      | unstaged n u v0 v1 h0 _ h1 _ hdir =>
          cases h0
          cases h1
          rcases hdir with hdir | hno
          · exact absurd (Staging.view_dir.mp hdir) (h.kempt.clean u)
          · exact absurd (Staging.view_dir.mpr h.kempt.tmp) hno
      | blocked n v1 q b h1 hq hb =>
          cases h1
          exact absurd (Hindered.of_view hq hb) hclear
      | occupied n v1 v2 v3 h1 hwidens h3 hdir =>
          cases h1
          cases h3
          rw [widens_off hwidens
            (Slot.not_prefix_dropLast (slot.objectLoc_ne_nil d.root))] at hdir
          exact absurd (Hindered.directory (Staging.view_dir.mp hdir)) hclear

inductive PutCourse (d : LocalFsBlobDriver) (slot : Slot settings) (data : Data)
    (contentType : Text) (ifNoneMatch : Option Text)
    (metadata : Option Metadata) (fs fs' : FileTree) :
    Except Exn PutResult -> Prop where
  | met (b : Bytes) :
      ifNoneMatch = some (text "*") ->
      storedObject d slot fs = some b ->
      fileAt ((staging d.root).view fs') = fileAt ((staging d.root).view fs) ->
      PutCourse d slot data contentType ifNoneMatch metadata fs fs'
        (Except.ok
          { etag := Json.str (knownEtag d slot fs b)
            bytes := b.length
            deduped := true })
  | raised (e : Exn) :
      (ifNoneMatch = some (text "*") -> storedObject d slot fs = none) ->
      data.ending = some e ->
      fileAt ((staging d.root).view fs') = fileAt ((staging d.root).view fs) ->
      PutCourse d slot data contentType ifNoneMatch metadata fs fs'
        (Except.error (LocalFsBlobDriver.translateOsError e))
  | stored (now : Rat) :
      (ifNoneMatch = some (text "*") -> storedObject d slot fs = none) ->
      data.ending = none ->
      storedObject d slot fs' = some data.body ->
      storedSidecar d slot fs' =
        some (sidecarBytes d contentType (d.platform.sha256.digest data.body)
          data.body.length (metadata.getD ∅) now) ->
      (forall slot' : Slot settings, slot' ≠ slot ->
        storedObject d slot' fs' = storedObject d slot' fs ∧
          storedSidecar d slot' fs' = storedSidecar d slot' fs) ->
      PutCourse d slot data contentType ifNoneMatch metadata fs fs'
        (Except.ok (storedResult d data))

theorem Roomy.put_course (h : Roomy d S fs) (hamicable : Amicable S)
    (hslot : S slot)
    (hrun : (system noFault).machine.Runs fs
      (d.put slot.bucket slot.key data contentType ifNoneMatch metadata) trace o
      fs') :
    PutCourse d slot data contentType ifNoneMatch metadata fs fs' o := by
  rcases put_runs solo_noFault h.kempt.sound hrun with ⟨_, heffect⟩
  have hfiles := heffect.files (housed_of_sound h.kempt.sound)
  have hempty : Vacant d slot fs ifNoneMatch ->
      ifNoneMatch = some (text "*") -> storedObject d slot fs = none :=
    fun hvacant hcond => storedObject_of_none (hvacant hcond)
  cases h.kempt.put_answer hrun with
  | directory _ hdir => exact absurd hdir (h.dirs slot hslot).left
  | object b hcond hb =>
      rcases hfiles with ⟨_, hsame⟩ | ⟨ho, _⟩
      · exact PutCourse.met b hcond hb hsame
      · have hflag := congrArg PutResult.deduped (Except.ok.inj ho)
        cases hflag
  | refused e hvacant hhindered =>
      rcases hfiles with ⟨_, hsame⟩ | ⟨ho, _⟩
      · have hraised : exists e', data.ending = some e' ∧
            e = LocalFsBlobDriver.translateOsError e' := by
          generalize ho : (Except.error e : Except Exn PutResult) = o
            at heffect
          generalize hv' : (staging d.root).view fs' = v' at heffect
          generalize sights trace = seen at heffect
          cases heffect with
          | met info more hcond hthere _ _ =>
              exact absurd (Staging.view_none_of_none (hvacant hcond)) hthere
          | refused e' v' more _ hrefused _ _ =>
              cases ho
              exact h.refused_source hamicable hslot hrefused
          | stored v1 v' more _ _ _ _ _ => cases ho
        rcases hraised with ⟨e', hending, rfl⟩
        exact PutCourse.raised e' (hempty hvacant) hending hsame
      · cases ho
  | stored hvacant hfree =>
      have hending : data.ending = none := by
        by_contra hraises
        exact hfree (Hindered.source hraises)
      rcases hfiles with ⟨hdeduped, _⟩ | ⟨_, hstored⟩
      · cases hdeduped _ rfl
      · cases put_recording h.kempt.sound hrun rfl with
        | walled hwalled _ => exact absurd hwalled (h.unwalled hamicable hslot)
        | recorded now _ hraw =>
            apply PutCourse.stored now (hempty hvacant) hending _ hraw
            · intro slot' hne
              rcases hstored.others hne with ⟨hobject, hsidecar⟩
              rw [fileAt_object, fileAt_object] at hobject
              rw [fileAt_sidecar, fileAt_sidecar] at hsidecar
              exact ⟨hobject, hsidecar⟩
            · rw [← fileAt_object]
              exact hstored.own

theorem Shelved.knownEtag (h : Shelved d S pulls fs f) {entry : FakeEntry}
    (hentry : f.store.lookup (slot.bucket, slot.key) = some entry) :
    knownEtag d slot fs entry.raw = d.platform.sha256.digest entry.raw := by
  rcases h.records slot entry hentry with ⟨now, hraw⟩
  exact knownEtag_of_sidecar hraw

theorem slot_place_ne {slot' : Slot settings} (h : slot' ≠ slot) :
    (slot'.bucket, slot'.key) ≠ (slot.bucket, slot.key) := by
  intro heq
  rcases Prod.mk.inj heq with ⟨hbucket, hkey⟩
  exact h (Slot.ext hbucket hkey)

theorem Shelved.insert (h : Shelved d S pulls fs f) (hroomy : Roomy d S fs')
    (hslot : S slot) (entry : FakeEntry) {now : Rat}
    (htype : entry.contentType ≠ []) (hlength : entry.raw.length < pulls)
    (hobject : storedObject d slot fs' = some entry.raw)
    (hsidecar : storedSidecar d slot fs' =
      some (sidecarBytes d entry.contentType
        (d.platform.sha256.digest entry.raw) entry.raw.length entry.metadata
        now))
    (hothers : forall slot' : Slot settings, slot' ≠ slot ->
      storedObject d slot' fs' = storedObject d slot' fs ∧
        storedSidecar d slot' fs' = storedSidecar d slot' fs)
    (calls : List FakeCall) :
    Shelved d S pulls fs'
      { f with
        store := f.store.insert (slot.bucket, slot.key) entry
        calls := calls } where
  roomy := hroomy
  signs := h.signs
  based := h.based
  objects := by
    intro slot'
    unfold FakeBlobDriver.get
    dsimp only
    rcases eq_or_ne slot' slot with rfl | hne
    · rw [AList.lookup_insert, hobject]
      rfl
    · rw [AList.lookup_insert_ne (slot_place_ne hne), (hothers slot' hne).left,
        h.objects]
      rfl
  records := by
    intro slot' entry' hentry
    dsimp only at hentry
    rcases eq_or_ne slot' slot with rfl | hne
    · rw [AList.lookup_insert] at hentry
      cases hentry
      exact ⟨now, hsidecar⟩
    · rw [AList.lookup_insert_ne (slot_place_ne hne)] at hentry
      rw [(hothers slot' hne).right]
      exact h.records slot' entry' hentry
  entries := by
    intro place entry' hentry
    dsimp only at hentry
    by_cases hplace : place = (slot.bucket, slot.key)
    · subst hplace
      rw [AList.lookup_insert] at hentry
      cases hentry
      exact ⟨⟨slot, hslot, rfl⟩, htype, hlength⟩
    · rw [AList.lookup_insert_ne hplace] at hentry
      exact h.entries place entry' hentry

theorem Shelved.put (h : Shelved d S pulls fs f) (hamicable : Amicable S)
    (hslot : S slot) (htype : contentType ≠ [])
    (hsource : forall n, data.ending ≠ some (Exn.os n))
    (hpulls : data.body.length < pulls)
    (hrun : (system noFault).machine.Runs fs
      (d.put slot.bucket slot.key data contentType ifNoneMatch metadata) trace o
      fs') :
    (f.put d.platform slot.bucket slot.key data contentType ifNoneMatch
        metadata).1 = o ∧
      Shelved d S pulls fs'
        (f.put d.platform slot.bucket slot.key data contentType ifNoneMatch
          metadata).2 := by
  have hroomy := h.roomy.put hamicable hslot hrun
  have hfree : (ifNoneMatch = some (text "*") ->
      storedObject d slot fs = none) ->
        f.met slot.bucket slot.key ifNoneMatch = none := by
    intro hempty
    unfold FakeBlobDriver.met
    split
    · rename_i hcond
      exact h.vacant (hempty hcond)
    · rfl
  unfold FakeBlobDriver.put
  cases h.roomy.put_course hamicable hslot hrun with
  | met b hcond hb hsame =>
      rcases h.entry hb with ⟨entry, hentry, rfl⟩
      have hmet : f.met slot.bucket slot.key ifNoneMatch = some entry := by
        unfold FakeBlobDriver.met
        rw [if_pos hcond, hentry]
      rw [hmet, h.knownEtag hentry]
      exact ⟨rfl, h.same hroomy hsame rfl rfl rfl⟩
  | raised e hempty hending hsame =>
      have hraw : LocalFsBlobDriver.translateOsError e = e :=
        translateOsError_of_not_os fun n hos => hsource n (hos ▸ hending)
      rw [hfree hempty, hending, hraw]
      exact ⟨rfl, h.same hroomy hsame rfl rfl rfl⟩
  | stored now hempty hending hobject hsidecar hothers =>
      rw [hfree hempty, hending]
      exact ⟨rfl, h.insert hroomy hslot (FakeEntry.mk data.body
        contentType (metadata.getD ∅)) htype hpulls hobject hsidecar hothers _⟩

end Put

/-!
## Delete
-/

theorem Shelved.delete (h : Shelved d S pulls fs f) {o : Except Exn Bool}
    (hrun : (system noFault).machine.Runs fs (d.delete slot.bucket slot.key)
      trace o fs') :
    Except.ok (f.delete slot.bucket slot.key).1 = o ∧
      Shelved d S pulls fs' (f.delete slot.bucket slot.key).2 := by
  have hmutation := hrun.map Reply.delete
  rcases Mutation.run_changed (m := Mutation.delete slot) solo_noFault
    h.roomy.kempt.sound hmutation with ⟨_, hchanged⟩
  have hanswer : exists existed, o = Except.ok existed ∧
      (existed = true <-> storedObject d slot fs ≠ none) ∧
      fileAt ((staging d.root).view fs') (slot.objectLoc d.root) = none := by
    generalize ho : o.map Reply.delete = o' at hchanged
    cases hchanged with
    | deleted _ existed cleaned hfiles hgone hstays _ =>
        have hok : o = Except.ok existed := by
          cases o with
          | error e => cases ho
          | ok b =>
              cases ho
              rfl
        rw [fileAt_object] at hgone hstays
        refine ⟨existed, hok, ⟨hgone, ?_⟩, ?_⟩
        · intro hthere
          cases existed with
          | true => rfl
          | false =>
              rcases hstays rfl with hfault | hnone
              · exact absurd hfault id
              · exact absurd hnone hthere
        · rw [retained_delete hfiles, fileAt_object]
          cases existed with
          | true => rw [if_pos ⟨rfl, rfl⟩]
          | false =>
              rcases hstays rfl with hfault | hnone
              · exact absurd hfault id
              · rw [if_neg (fun hno => nomatch hno.right), hnone]
  rcases hanswer with ⟨existed, rfl, hexisted, hempty⟩
  rw [fileAt_object] at hempty
  have hothers : forall slot' : Slot settings, slot' ≠ slot ->
      storedObject d slot' fs' = storedObject d slot' fs ∧
        storedSidecar d slot' fs' = storedSidecar d slot' fs := by
    intro slot' hne
    rcases hchanged.others (m := Mutation.delete slot) hne with
      ⟨hobject, hsidecar⟩
    rw [fileAt_object, fileAt_object] at hobject
    rw [fileAt_sidecar, fileAt_sidecar] at hsidecar
    exact ⟨hobject, hsidecar⟩
  constructor
  · congr 1
    rw [Bool.eq_iff_iff, hexisted, h.objects]
    unfold FakeBlobDriver.delete FakeBlobDriver.get
    dsimp only
    rw [ne_eq, Option.map_eq_none_iff, ← ne_eq, Option.isSome_iff_ne_none]
  · exact
      { roomy := h.roomy.delete hrun
        signs := h.signs
        based := h.based
        objects := by
          intro slot'
          unfold FakeBlobDriver.get FakeBlobDriver.delete
          dsimp only
          rcases eq_or_ne slot' slot with rfl | hne
          · rw [AList.lookup_erase, hempty]
            rfl
          · rw [AList.lookup_erase_ne (slot_place_ne hne),
              (hothers slot' hne).left, h.objects]
            rfl
        records := by
          intro slot' entry hentry
          unfold FakeBlobDriver.delete at hentry
          dsimp only at hentry
          rcases eq_or_ne slot' slot with rfl | hne
          · rw [AList.lookup_erase] at hentry
            cases hentry
          · rw [AList.lookup_erase_ne (slot_place_ne hne)] at hentry
            rw [(hothers slot' hne).right]
            exact h.records slot' entry hentry
        entries := by
          intro place entry hentry
          unfold FakeBlobDriver.delete at hentry
          dsimp only at hentry
          by_cases hplace : place = (slot.bucket, slot.key)
          · subst hplace
            rw [AList.lookup_erase] at hentry
            cases hentry
          · rw [AList.lookup_erase_ne hplace] at hentry
            exact h.entries place entry hentry }

/-!
## Reads
-/

theorem Shelved.look {α : Type} {p : Io α} {o : Except Exn α}
    (h : Shelved d S pulls fs f) (hlooks : p.Issues Looks)
    (hview : (staging d.root).view fs' = (staging d.root).view fs)
    (hrun : (system noFault).machine.Runs fs p trace o fs') :
    Shelved d S pulls fs' f :=
  h.same (h.roomy.look hlooks hview hrun) (by rw [hview]) rfl rfl rfl

theorem SameFiles.view (h : SameFiles fs fs') :
    (staging d.root).view fs' = (staging d.root).view fs := by
  funext q
  apply Staging.view_congr
  · rw [h.node]
  · intro i _ _
    rw [h.inodes]

/-- The whole body comes to a client that pulls often enough. -/
theorem Shelved.fetch (h : Shelved d S pulls fs f)
    {o : Except Exn (Option (Bytes × Bool))}
    (hrun : (system noFault).machine.Runs fs
      (d.fetch slot.bucket slot.key pulls) trace o fs') :
    o = Except.ok ((f.get slot.bucket slot.key).map fun b => (b, true)) ∧
      Shelved d S pulls fs' f := by
  rcases fetch_runs solo_noFault h.roomy.kempt.sound hrun with
    ⟨_, hview, hfetched⟩
  refine ⟨?_, h.look (fetch_looks d _ _ _) hview hrun⟩
  rw [h.objects] at hfetched
  cases hentry : f.store.lookup (slot.bucket, slot.key) with
  | none =>
      have hget : f.get slot.bucket slot.key = none := by
        unfold FakeBlobDriver.get
        rw [hentry]
        rfl
      rw [hget] at hfetched ⊢
      exact hfetched
  | some entry =>
      have hget : f.get slot.bucket slot.key = some entry.raw := by
        unfold FakeBlobDriver.get
        rw [hentry]
        rfl
      rw [hget] at hfetched ⊢
      rcases hfetched with ⟨got, ended, rfl, hprefix, hend, hshort⟩
      have hpulls := (h.entries _ _ hentry).right.right
      have hlen := hprefix.length_le
      have hended : ended = true := by
        by_contra hnot
        have hlong := hshort (Bool.eq_false_iff.mpr hnot)
        omega
      rw [hended, hend hended]
      rfl

def changedAt (d : LocalFsBlobDriver) (fs : FileTree) (bucket key : Text) :
    Rat :=
  ((fileInode fs (resolve (join (join d.root bucket) key))).map
    Inode.mtime).getD 0

theorem Shelved.headOf (h : Shelved d S pulls fs f) (slot : Slot settings) :
    headOf d slot (fileInode fs (slot.objectLoc d.root))
        (storedSidecar d slot fs) =
      Except.ok (f.head d.platform slot.bucket slot.key
        (changedAt d fs slot.bucket slot.key)) := by
  have hobject := h.objects slot
  unfold storedObject at hobject
  rw [content_eq_map] at hobject
  unfold FakeBlobDriver.get at hobject
  unfold FakeBlobDriver.head
  cases hentry : f.store.lookup (slot.bucket, slot.key) with
  | none =>
      rw [hentry] at hobject
      rw [Option.map_eq_none_iff.mp hobject]
      rfl
  | some entry =>
      rw [hentry] at hobject
      rcases Option.map_eq_some_iff.mp hobject with ⟨inode, hinode, hdata⟩
      have hmodified : changedAt d fs slot.bucket slot.key = inode.mtime := by
        have hplace : resolve (join (join d.root slot.bucket) slot.key) =
            slot.objectLoc d.root := slot.resolve_objectText d.root
        unfold changedAt
        rw [hplace, hinode]
        rfl
      rcases h.records slot entry hentry with ⟨now, hraw⟩
      have htype := (h.entries _ _ hentry).right.left
      rw [hinode, hraw, sidecarBytes_eq, headOf_record, hmodified]
      have hcontent : Json.orElse (some (Json.str entry.contentType))
          (Json.str (d.guessMime slot.key)) = Json.str entry.contentType := by
        unfold Json.orElse Json.truthy
        simp [htype]
      have hmetadata : forall m : Metadata,
          Json.orElse (some (Json.obj
            (m.entries.map fun kv => (kv.1, Json.str kv.2)))) (Json.obj []) =
          Json.obj (m.entries.map fun kv => (kv.1, Json.str kv.2)) := by
        intro m
        unfold Json.orElse Json.truthy
        cases m.entries.map fun kv => (kv.1, Json.str kv.2) <;> rfl
      unfold recordedInfo LocalFsBlobDriver.sidecarRecord
      dsimp only
      rw [hcontent, hmetadata]
      rfl

theorem Shelved.head (h : Shelved d S pulls fs f)
    {o : Except Exn (Option ObjectInfo)}
    (hrun : (system noFault).machine.Runs fs (d.head slot.bucket slot.key) trace
      o fs') :
    o = Except.ok (f.head d.platform slot.bucket slot.key
        (changedAt d fs slot.bucket slot.key)) ∧
      Shelved d S pulls fs' f := by
  rcases head_exact hrun with ⟨rfl, hsame⟩
  exact ⟨h.headOf slot, h.look (head_looks d _ _) hsame.view hrun⟩

end StorybookStorage
