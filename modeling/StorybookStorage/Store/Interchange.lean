import StorybookStorage.Store.Shelving

/-!
# The local driver in place of the in-memory driver

The router tests run on the in-memory driver, the service on the local one.
For clients that keep to amicable slots and come one after the other, nothing
the in-memory driver cannot answer comes from the local one.
-/

namespace StorybookStorage

open Python Posix Effects Contract FileTree

variable {settings : Settings} {d : LocalFsBlobDriver}
  {S : Slot settings -> Prop} {pulls : Nat} {fs fs' : FileTree}
  {f : FakeBlobDriver} {trace : List (Sigma calls.Ret)}

/-!
## Listing
-/

section List

variable {bucket pre : Text} {cursor : Option Text} {limit : Int}

theorem Kempt.catalogued (h : Kempt d settings fs) :
    Catalogued d settings fs where
  sound := h.sound
  filed :=
    { owned := fun p b hroot hp => h.owned p b hroot (fileAt_eq_some.mpr hp)
      recorded := by
        intro slot raw hraw
        rcases h.described slot raw ((view_storedSidecar d slot).mp hraw) with
          ⟨_, _, record, hrecord, _⟩
        exact ⟨record, hrecord⟩ }

theorem Shelved.inventory (h : Shelved d S pulls fs f) :
    Inventory d settings fs f.store.keys where
  nodup := f.store.nodupKeys
  mem bucket key := by
    rw [← AList.mem_keys, ← AList.lookup_isSome]
    constructor
    · intro hthere
      rcases Option.isSome_iff_exists.mp hthere with ⟨entry, hentry⟩
      rcases (h.entries _ _ hentry).left with ⟨slot, _, hplace⟩
      rcases Prod.mk.inj hplace with ⟨rfl, rfl⟩
      refine ⟨slot, rfl, rfl, ?_⟩
      rw [h.objects]
      unfold FakeBlobDriver.get
      rw [hentry]
      exact Option.some_ne_none _
    · intro hthere
      rcases hthere with ⟨slot, rfl, rfl, hobject⟩
      rcases Option.ne_none_iff_exists'.mp hobject with ⟨b, hb⟩
      rcases h.entry hb with ⟨entry, hentry, _⟩
      rw [hentry]
      rfl

theorem Shelved.keysAt (h : Shelved d S pulls fs f)
    (hbucket : KeyGrammar.validateBucket settings bucket = Except.ok ())
    (hpre : pre.head? ≠ some '/') :
    keysAt d bucket pre fs =
      sortTexts ((f.store.keys.filter fun entry =>
        decide (entry.1 = bucket) && startsWith entry.2 pre).map Prod.snd) := by
  have hcat := h.roomy.kempt.catalogued
  have hplain : Plain bucket :=
    KeyGrammar.plain_bucket (KeyGrammar.validateBucket_ok hbucket).left
  have hlisted := (listed_iff hplain h.inventory).mpr
    fun habsolute => absurd habsolute hpre
  apply (hcat.keysAt_sortedLT hbucket).eq_of_mem_iff
    (sortTexts_sortedLT (nodup_keys h.inventory.nodup))
  intro key
  rw [mem_sortTexts, mem_keys, hcat.mem_keysAt hbucket, hlisted key]

theorem mem_of_mem_beyond {keys : List Text} {key : Text}
    (h : key ∈ LocalFsBlobDriver.beyond cursor keys) : key ∈ keys := by
  unfold LocalFsBlobDriver.beyond at h
  split at h
  · exact h
  · split at h
    · exact h
    · exact List.mem_of_mem_filter h

theorem wp_heads_known {keys : List Text} (info : Text -> Option ObjectInfo)
    (hkeys : forall key, key ∈ keys ->
      exists slot : Slot settings, slot.bucket = bucket ∧ slot.key = key)
    (hinfo : forall slot : Slot settings, slot.bucket = bucket ->
      headOf d slot (fileInode fs (slot.objectLoc d.root))
        (storedSidecar d slot fs) = Except.ok (info slot.key))
    {Q : Except Exn (List ObjectInfo) -> FileTree -> Prop}
    (h : forall fs', SameFiles fs fs' ->
      Q (Except.ok (keys.filterMap info)) fs') :
    (system noFault).machine.wp (d.heads bucket keys) Q fs := by
  induction keys generalizing fs Q with
  | nil => exact h fs ⟨rfl, rfl⟩
  | cons key rest ih =>
      rcases hkeys key List.mem_cons_self with ⟨slot, rfl, rfl⟩
      show (system noFault).machine.wp (d.head slot.bucket slot.key >>= _) Q fs
      rw [Machine.wp_bind]
      apply wp_exact_head
      intro fs1 hsame
      rw [hinfo slot rfl]
      show (system noFault).machine.wp (d.heads slot.bucket rest >>= _) Q fs1
      rw [Machine.wp_bind]
      apply ih
      · intro key hkey
        exact hkeys key (List.mem_cons_of_mem _ hkey)
      · intro slot' hbucket
        unfold storedSidecar
        rw [hsame.fileInode, hsame.content]
        exact hinfo slot' hbucket
      · intro fs' hsame'
        have hq := h fs' (hsame.trans hsame')
        rw [List.filterMap_cons] at hq
        cases hkey : info slot.key with
        | none =>
            rw [hkey] at hq
            exact hq
        | some i =>
            rw [hkey] at hq
            exact hq

theorem Shelved.list (h : Shelved d S pulls fs f)
    (hbucket : KeyGrammar.validateBucket settings bucket = Except.ok ())
    (hpre : pre.head? ≠ some '/') {o : Except Exn ListPage}
    (hrun : (system noFault).machine.Runs fs (d.list bucket pre cursor limit)
      trace o fs') :
    o = Except.ok (f.page d.platform bucket pre cursor limit
        (changedAt d fs bucket)) ∧
      Shelved d S pulls fs' f := by
  have hexact : o = Except.ok (f.page d.platform bucket pre cursor limit
      (changedAt d fs bucket)) ∧ SameFiles fs fs' := by
    refine Machine.wp_sound (Q := fun o fs' =>
      o = Except.ok (f.page d.platform bucket pre cursor limit
        (changedAt d fs bucket)) ∧ SameFiles fs fs') ?_ hrun
    show (system noFault).machine.wp (Os.walk _ >>= fun _ => _) _ fs
    rw [Machine.wp_bind]
    apply wp_exact (c := Call.walk (join d.root bucket))
    intro ch hfault
    have hwalk : exec ch (Call.walk (join d.root bucket)) fs =
        (fs.walkFrom (join d.root bucket), fs) := by
      simp only [exec, hfault]
      rfl
    rw [hwalk]
    show (system noFault).machine.wp
      (d.heads bucket (sliceTo
        (LocalFsBlobDriver.beyond cursor (StorybookStorage.keysAt d bucket pre fs))
        limit) >>= _) _ fs
    rw [Machine.wp_bind]
    have hslots : forall key,
        key ∈ sliceTo (LocalFsBlobDriver.beyond cursor
          (StorybookStorage.keysAt d bucket pre fs)) limit ->
        exists slot : Slot settings, slot.bucket = bucket ∧ slot.key = key := by
      intro key hkey
      have hmem := mem_of_mem_beyond (mem_of_mem_sliceTo hkey)
      rcases (h.roomy.kempt.catalogued.mem_keysAt hbucket).mp hmem with
        ⟨slot, hslot, hsame, _⟩
      exact ⟨slot, hslot, hsame⟩
    apply wp_heads_known (fun key =>
      f.head d.platform bucket key (changedAt d fs bucket key)) hslots
    · intro slot hslot
      subst hslot
      exact h.headOf slot
    · intro fs1 hsame
      have hkeys := h.keysAt hbucket hpre
      refine ⟨?_, hsame⟩
      unfold StorybookStorage.keysAt at hkeys ⊢
      rw [hkeys]
      rfl
  exact ⟨hexact.left, h.look (list_looks cursor limit) hexact.right.view hrun⟩

end List

/-!
## Verb by verb
-/

/-- The verbs the local driver stands in for.  A put keeps to amicable slots,
names a content type, fits the client's patience and does not fail with an
`OSError` of its own; a listing has a relative prefix. -/
inductive Admissible (S : Slot settings -> Prop) (pulls : Nat) :
    BlobVerb -> Prop where
  | put (slot : Slot settings) (data : Data) (contentType : Text)
      (ifNoneMatch : Option Text) (metadata : Option Metadata) :
      S slot -> contentType ≠ [] -> data.body.length < pulls ->
      (forall n, data.ending ≠ some (Exn.os n)) ->
      Admissible S pulls
        (BlobVerb.put slot.bucket slot.key data contentType ifNoneMatch metadata)
  | get (slot : Slot settings) :
      Admissible S pulls (BlobVerb.get slot.bucket slot.key)
  | head (slot : Slot settings) :
      Admissible S pulls (BlobVerb.head slot.bucket slot.key)
  | delete (slot : Slot settings) :
      Admissible S pulls (BlobVerb.delete slot.bucket slot.key)
  | list (bucket pre : Text) (cursor : Option Text) (limit : Int) :
      KeyGrammar.validateBucket settings bucket = Except.ok () ->
      pre.head? ≠ some '/' ->
      Admissible S pulls (BlobVerb.list bucket pre cursor limit)
  | presignGet (bucket key : Text) (ttlSec : Int) :
      Admissible S pulls (BlobVerb.presignGet bucket key ttlSec)
  | presignPut (bucket key : Text) (ttlSec : Int) :
      Admissible S pulls (BlobVerb.presignPut bucket key ttlSec)
  | time : Admissible S pulls BlobVerb.time

theorem time_runs {o : Except Exn Rat}
    (hrun : (system noFault).machine.Runs fs Os.time trace o fs') :
    (exists now, o = Except.ok now) ∧ SameFiles fs fs' := by
  refine Machine.wp_sound (Q := fun o fs' =>
    (exists now, o = Except.ok now) ∧ SameFiles fs fs') ?_ hrun
  apply wp_exact (c := Call.time)
  intro ch _
  exact ⟨⟨_, rfl⟩, ⟨rfl, rfl⟩⟩

theorem presignGet_runs {bucket key : Text} {ttlSec : Int} {o : Except Exn Text}
    (h : Shelved d S pulls fs f)
    (hrun : (system noFault).machine.Runs fs (d.presignGet bucket key ttlSec)
      trace o fs') :
    (exists now, o = Except.ok (f.presignGet d.platform bucket key ttlSec now)) ∧
      SameFiles fs fs' := by
  refine Machine.wp_sound (Q := fun o fs' =>
    (exists now, o =
      Except.ok (f.presignGet d.platform bucket key ttlSec now)) ∧
      SameFiles fs fs') ?_ hrun
  unfold LocalFsBlobDriver.presignGet
  rw [Machine.wp_bind]
  apply wp_exact (c := Call.time)
  intro ch _
  refine ⟨⟨ch.now, ?_⟩, ⟨rfl, rfl⟩⟩
  unfold FakeBlobDriver.presignGet
  rw [h.signs, h.based]
  rfl

theorem presignGet_looks (bucket key : Text) (ttlSec : Int) :
    (d.presignGet bucket key ttlSec).Issues Looks := by
  apply (issues_call Call.time trivial).bind
  intro now
  exact Prog.issues_pure _

/-- The local driver simulates the in-memory driver. -/
theorem verbs_simulate (hamicable : Amicable S) :
    Jobs.Simulates (d.verbs pulls) (system noFault).machine
      (FakeBlobDriver.machine d.platform) (Shelved d S pulls)
      (Admissible S pulls) where
  job := by
    intro verb fs f trace r fs' hverb h hrun
    cases hverb with
    | put slot data contentType ifNoneMatch metadata hslot htype hpulls hsource =>
        rcases h.put hamicable hslot htype hsource hpulls hrun with
          ⟨hanswer, hshelved⟩
        exact ⟨_, Prod.ext hanswer rfl, hshelved⟩
    | get slot =>
        rcases Machine.runs_map hrun with ⟨o, hfetch, rfl⟩
        rcases h.fetch hfetch with ⟨rfl, hshelved⟩
        refine ⟨f, ⟨?_, rfl⟩, hshelved⟩
        cases f.get slot.bucket slot.key <;> rfl
    | head slot =>
        rcases h.head hrun with ⟨hanswer, hshelved⟩
        exact ⟨f, ⟨⟨_, hanswer⟩, rfl⟩, hshelved⟩
    | delete slot =>
        rcases h.delete hrun with ⟨hanswer, hshelved⟩
        exact ⟨_, ⟨hanswer.symm, rfl⟩, hshelved⟩
    | list bucket pre cursor limit hbucket hpre =>
        rcases h.list hbucket hpre hrun with ⟨hanswer, hshelved⟩
        exact ⟨f, ⟨⟨_, hanswer⟩, rfl⟩, hshelved⟩
    | presignGet bucket key ttlSec =>
        rcases presignGet_runs h hrun with ⟨hanswer, hsame⟩
        exact ⟨f, ⟨hanswer, rfl⟩,
          h.look (presignGet_looks bucket key ttlSec) hsame.view hrun⟩
    | presignPut bucket key ttlSec =>
        cases hrun
        exact ⟨f, ⟨rfl, rfl⟩, h⟩
    | time =>
        rcases time_runs hrun with ⟨hanswer, hsame⟩
        exact ⟨f, ⟨hanswer, rfl⟩,
          h.look (issues_call Call.time trivial) hsame.view hrun⟩

/-!
## Clients
-/

section Issues

variable {α : Type} {P : BlobVerb -> Prop}

theorem issues_ask_bind {verb : BlobVerb} {f : verb.Val -> Blob α}
    (hverb : P verb) (h : forall a, (f a).Issues P) :
    (Blob.ask verb >>= f).Issues P := by
  refine ⟨hverb, ?_⟩
  intro r
  cases r with
  | ok a => exact h a
  | error e => exact Prog.issues_raise _

end Issues

theorem freshTree_shelved {buckets : List Text}
    (hbuckets : forall b, b ∈ buckets -> Plain b ∧ b ≠ tmpDir) :
    Shelved d S pulls (freshTree d.root buckets) (FakeBlobDriver.like d) where
  roomy := freshTree_roomy hbuckets
  signs := rfl
  based := rfl
  objects := by
    intro slot
    rw [(freshTree_fresh hbuckets).storedObject]
    rfl
  records := by
    intro slot entry hentry
    cases hentry
  entries := by
    intro place entry hentry
    cases hentry

/-- What clients get from the local driver on an empty disk, verb by verb, they
may get from the empty in-memory driver as well, and then both keep the same.
Only the verbs they did ask for have to be admissible. -/
theorem clients_as_fake {ι α : Type} {client : ι -> Blob α}
    (hamicable : Amicable S) (buckets : List Text)
    (hbuckets : forall b, b ∈ buckets -> Plain b ∧ b ≠ tmpDir)
    {turns : List (Turn (d.verbs pulls).signature ι Exn α)}
    (h : History ((d.verbs pulls).component (system noFault).machine) client
      (Jobs.Within (Admissible S pulls)) (freshTree d.root buckets) turns
      fs') :
    exists f', History (FakeBlobDriver.machine d.platform) client
        (fun _ _ => True) (FakeBlobDriver.like d) turns f' ∧
      Shelved d S pulls fs' f' :=
  (verbs_simulate hamicable).history (freshTree_shelved hbuckets) h

/-!
## A client that copies what it reads
-/

def twoPictures (slot : Slot sampleSettings) : Prop :=
  slot = pictureSlot ∨ slot = nestedSlot

instance (slot : Slot sampleSettings) : Decidable (twoPictures slot) :=
  inferInstanceAs (Decidable (_ ∨ _))

theorem twoPictures_amicable : Amicable twoPictures := by
  intro a b ha hb hne _
  rcases ha with rfl | rfl <;> rcases hb with rfl | rfl
  · exact absurd rfl hne
  · decide
  · decide
  · exact absurd rfl hne

/-- Put a picture, copy it as it was read, list other keys, and delete the
picture. -/
def copyClient (chunks : List Bytes) :
    Blob (Option Bytes × Nat × Bool) := do
  let _ ← Blob.ask
    (BlobVerb.put pictureSlot.bucket pictureSlot.key (sampleSource chunks)
      (text "image/png") none none)
  let got ← Blob.ask (BlobVerb.get pictureSlot.bucket pictureSlot.key)
  let _ ← Blob.ask
    (BlobVerb.put nestedSlot.bucket nestedSlot.key (Data.bytes (got.getD []))
      (text "image/png") none none)
  let copied ← Blob.ask (BlobVerb.get nestedSlot.bucket nestedSlot.key)
  let page ← Blob.ask (BlobVerb.list (text "assets") (text "b") none 5)
  let gone ← Blob.ask (BlobVerb.delete pictureSlot.bucket pictureSlot.key)
  pure (copied, page.objects.length, gone)

def pictureVerb : BlobVerb -> Bool
  | BlobVerb.put bucket key data contentType _ _ =>
      pictured bucket key && decide (contentType ≠ []) &&
        decide (data.body.length < 4) && data.ending.isNone
  | BlobVerb.get bucket key => pictured bucket key
  | BlobVerb.delete bucket key => pictured bucket key
  | BlobVerb.list bucket pre _ _ =>
      decide (bucket = text "assets") && decide (pre.head? ≠ some '/')
  | _ => false
where
  pictured (bucket key : Text) : Bool :=
    decide (bucket = text "assets") &&
      (decide (key = pictureSlot.key) || decide (key = nestedSlot.key))

theorem pictured_slot {bucket key : Text}
    (h : pictureVerb.pictured bucket key = true) :
    exists slot : Slot sampleSettings, twoPictures slot ∧
      slot.bucket = bucket ∧ slot.key = key := by
  unfold pictureVerb.pictured at h
  simp only [Bool.and_eq_true, Bool.or_eq_true, decide_eq_true_eq] at h
  rcases h with ⟨rfl, rfl | rfl⟩
  · exact ⟨pictureSlot, Or.inl rfl, rfl, rfl⟩
  · exact ⟨nestedSlot, Or.inr rfl, rfl, rfl⟩

theorem pictureVerb_admissible {verb : BlobVerb} (h : pictureVerb verb = true) :
    Admissible twoPictures 4 verb := by
  cases verb with
  | put bucket key data contentType ifNoneMatch metadata =>
      simp only [pictureVerb, Bool.and_eq_true, decide_eq_true_eq,
        Option.isNone_iff_eq_none] at h
      rcases h with ⟨⟨⟨hplace, htype⟩, hshort⟩, hend⟩
      rcases pictured_slot hplace with ⟨slot, hslot, rfl, rfl⟩
      refine Admissible.put slot _ _ _ _ hslot htype hshort ?_
      intro n hn
      rw [hend] at hn
      cases hn
  | get bucket key =>
      rcases pictured_slot h with ⟨slot, _, rfl, rfl⟩
      exact Admissible.get slot
  | delete bucket key =>
      rcases pictured_slot h with ⟨slot, _, rfl, rfl⟩
      exact Admissible.delete slot
  | list bucket pre cursor limit =>
      simp only [pictureVerb, Bool.and_eq_true, decide_eq_true_eq] at h
      rcases h with ⟨rfl, hpre⟩
      exact Admissible.list _ _ _ _ (by decide) hpre
  | _ => cases h

/-- Two copies one after the other, with every verb checked; no token is drawn
twice. -/
def copies :
    List (Turn (sampleDriver.verbs 4).signature (List Bytes) Exn
      (Option Bytes × Nat × Bool)) × FileTree :=
  ((system noFault).component (sampleDriver.verbs 4)).replayFrom
    (fun n i => sampleChoice (13 * n + i)) copyClient
    (fun _ turn => (turn.trace.all fun e => pictureVerb e.1) = true) sampleTree
    [[[1], [2, 3]], [[], [4]]]

theorem clients_as_fake_picture :
    copies.1.map (fun turn => turn.outcome.toOption) =
        [some (some [1, 2, 3], 0, true), some (some [4], 0, true)] ∧
      exists f', History (FakeBlobDriver.machine sampleDriver.platform)
          copyClient (fun _ _ => True) (FakeBlobDriver.like sampleDriver)
          copies.1 f' ∧
        Shelved sampleDriver twoPictures 4 copies.2 f' := by
  refine ⟨by decide +kernel, ?_⟩
  have hreplayed := ((system noFault).component
    (sampleDriver.verbs 4)).replayFrom_history
    (fun n i => sampleChoice (13 * n + i)) copyClient
    (fun _ turn => (turn.trace.all fun e => pictureVerb e.1) = true)
    sampleTree [[[1], [2, 3]], [[], [4]]]
  have hhistory := (system noFault).component_history (sampleDriver.verbs 4)
    hreplayed
  apply clients_as_fake twoPictures_amicable [text "assets"] (by decide)
  apply hhistory.imp
  intro _ turn hall e he
  exact pictureVerb_admissible (List.all_eq_true.mp hall e he)

end StorybookStorage
