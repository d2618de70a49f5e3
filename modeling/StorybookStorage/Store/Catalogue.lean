import StorybookStorage.Drivers.Failures
import StorybookStorage.Drivers.Listing
import StorybookStorage.Drivers.Records
import StorybookStorage.Order.Paging
import StorybookStorage.Store.HeadExact
import StorybookStorage.Store.Publication

/-!
# What a listing answers

However operations are interleaved, fail and stop, every file of the view
belongs to a slot and every sidecar is a whole record.  On such a tree `list`
answers one page of the keys it selects.
-/

namespace StorybookStorage

open Python Posix Effects Contract FileTree

variable {settings : Settings} (d : LocalFsBlobDriver)

structure Filed (settings : Settings) (v : View) : Prop where
  owned : forall p b, resolve d.root <+: p -> v p = some (Entry.file b) ->
    exists slot : Slot settings,
      p = slot.objectLoc d.root ∨ p = slot.sidecarLoc d.root
  recorded : forall slot : Slot settings, Records d slot v

structure Catalogued (settings : Settings) (fs : FileTree) : Prop where
  sound : fs.Sound
  filed : Filed d settings ((staging d.root).view fs)

/-!
## Kept by everything
-/

def filing : Contract (Operation settings) where
  toStaging := staging d.root
  May _ := True
  Sweeps := True
  Reads _ _ := True
  Writes _ := True
  Stages _ _ _ := True
  Publishes op _ p b :=
    match op with
    | Operation.put slot _ _ _ _ =>
        p = slot.objectLoc d.root ∨
          (p = slot.sidecarLoc d.root ∧ exists record, b = recordBytes d record)
    | _ => False
  Removes _ _ _ := True
  Makes _ _ _ := True

theorem filing_programs (op : Operation settings) (v : View) :
    ((filing d).machine op (keeping (Filed d settings))).wp (op.run d)
      (fun _ _ => True) { view := v, hold := Hold.idle, seen := [] } := by
  have hsteady := steady_keeping (Filed d settings)
  cases op with
  | put slot data contentType ifNoneMatch metadata =>
      apply wp_map
      apply wp_put d slot rfl hsteady trivial trivial rfl
      · exact
          { writes := trivial
            stages := fun _ _ => trivial
            makes := trivial
            publishes := fun _ => Or.inl rfl
            sidecarStages := fun _ _ => trivial
            sidecarMakes := trivial
            sidecarPublishes := fun now =>
              Or.inr ⟨rfl, _, sidecarBytes_eq d _ _ _ _ now⟩ }
      · intros
        trivial
      · intros
        trivial
      · intros
        trivial
  | get slot pulls =>
      apply wp_map
      apply wp_fetch d slot rfl hsteady trivial rfl
      · intros
        trivial
      · intros
        trivial
      · intros
        trivial
      · intros
        trivial
  | head slot =>
      apply wp_map
      apply wp_head d slot rfl hsteady trivial trivial rfl
      intros
      trivial
  | delete slot =>
      apply wp_map
      apply wp_delete d slot rfl rfl trivial (fun _ => trivial)
      intros
      trivial
  | cleanupStaleTmp olderThanSec =>
      apply wp_map
      apply wp_cleanupStaleTmp d rfl rfl trivial (fun _ _ => trivial)
      intros
      trivial

theorem filed_step {op : Operation settings} {seen : List Sight} {v v' : View}
    {g g' : Hold} {c : Call} {r : Call.Ret c} (h : Filed d settings v)
    (hcan : (filing d).Can op seen g c)
    (hstep : (filing d : Contract (Operation settings)).Step v g c r v' g') :
    Filed d settings v' := by
  have hpublished : forall p b, (filing d).Publishes op seen p b ->
      exists slot : Slot settings, p = slot.objectLoc d.root ∨
        (p = slot.sidecarLoc d.root ∧
          exists record, b = recordBytes d record) := by
    intro p b hp
    cases op with
    | put slot data contentType ifNoneMatch metadata => exact ⟨slot, hp⟩
    | _ => exact absurd hp id
  constructor
  · intro p b hroot hp
    rcases hstep.file hcan hp with hold | hnew
    · exact h.owned p b hroot hold
    · rcases hpublished p b hnew with ⟨slot, hobject | ⟨hsidecar, _⟩⟩
      · exact ⟨slot, Or.inl hobject⟩
      · exact ⟨slot, Or.inr hsidecar⟩
  · intro slot raw hraw
    rcases hstep.file hcan hraw with hold | hnew
    · exact h.recorded slot raw hold
    · rcases hpublished _ raw hnew with ⟨slot', hobject | ⟨_, hrecord⟩⟩
      · exact absurd hobject.symm (slot'.objectLoc_ne_sidecarLoc d.root slot)
      · exact hrecord

theorem filing_governed :
    Governed (filing d) (Filed d settings) (fun _ _ _ => True) anyFault
      (publicationRules d : Rules calls FileTree (Operation settings) Exn Reply)
        where
  machine := rfl
  admits _ _ _ _ := Or.inr trivial
  programs op _ v _ := filing_programs d op v
  keeps _ _ _ _ _ _ _ _ h hcan hstep := filed_step d h hcan hstep

variable {d}

theorem Fresh.catalogued {fs : FileTree} (h : Fresh d.root fs) :
    Catalogued d settings fs where
  sound := h.sound
  filed := by
    constructor
    · intro p b hroot hp
      rcases Staging.view_file.mp hp with ⟨_, i, hi, _⟩
      exact absurd hi (h.vacant p i hroot)
    · intro slot raw hraw
      rw [view_storedSidecar, h.storedSidecar] at hraw
      cases hraw

theorem Catalogued.reach {fs : FileTree} (h : Catalogued d settings fs)
    {P : Pool calls FileTree (Operation settings) Exn Reply}
    (hreach : (publicationRules d).Reach fs P) :
    Catalogued d settings P.shared := by
  rcases (filing_governed d).invariant (I := fun _ _ => True) h.sound h.filed
      trivial (fun _ _ _ _ _ _ => trivial)
      (fun _ _ _ _ _ _ _ _ _ _ _ _ _ _ _ _ _ => trivial)
      (fun _ _ _ _ _ => trivial) hreach with ⟨G, hcustody, _⟩
  exact ⟨hcustody.rep.sound, hcustody.good⟩

/-!
## The keys a listing selects
-/

section Keys

variable (d) (bucket pre : Text)

/-- The prefix filter of `list`. -/
def selects (key : Text) : Bool :=
  startsWith (join (join d.root bucket) key) (join (join d.root bucket) pre)

/-- The sorted keys of the walk. -/
def keysAt (fs : FileTree) : List Text :=
  sortTexts (LocalFsBlobDriver.walkKeys (join d.root bucket)
    (join (join d.root bucket) pre) (fs.walkFrom (join d.root bucket)))

def Listed (settings : Settings) (fs : FileTree) (key : Text) : Prop :=
  exists slot : Slot settings, slot.bucket = bucket ∧ slot.key = key ∧
    selects d bucket pre key = true ∧ (storedObject d slot fs).isSome = true

/-- Away from the separator the filter is a prefix test on keys. -/
theorem selects_iff (hbucket : Plain bucket) (hpre : pre.head? ≠ some '/')
    {key : Text} (hkey : key.head? ≠ some '/') :
    selects d bucket pre key = true <-> pre <+: key := by
  unfold selects
  rw [startsWith_iff, join_open (open_join_plain hbucket) hpre,
    join_open (open_join_plain hbucket) hkey, List.prefix_append_right_inj,
    List.prefix_cons_inj]

end Keys

section Keys

variable {bucket pre : Text} {fs fs' : FileTree}

theorem Catalogued.object (h : Catalogued d settings fs)
    (hbucket : KeyGrammar.validateBucket settings bucket = Except.ok ())
    {p : Path} (hp : resolve (join d.root bucket) <+: p)
    (hfile : fs.isFile p = true) :
    exists slot : Slot settings, slot.bucket = bucket ∧
      p = slot.objectLoc d.root := by
  have hmatch := (KeyGrammar.validateBucket_ok hbucket).left
  have hundotted := KeyGrammar.dot_not_mem_bucket hmatch
  rw [resolve_join_single (KeyGrammar.plain_bucket hmatch)] at hp
  have hvisible : ¬ (staging d.root).Hidden p := by
    intro hhidden
    rcases Slot.hidden_cases hhidden with ⟨name, hdot, hname⟩
    have hsame := Slot.ne_of_prefix_under
      (List.prefix_of_prefix_length_le hname hp (by simp))
    rw [hsame] at hdot
    exact hundotted hdot
  rcases isFile_iff.mp hfile with ⟨i, hi⟩
  rcases h.filed.owned p _ ((List.prefix_append _ _).trans hp)
      (Staging.view_file.mpr ⟨hvisible, i, hi, rfl⟩) with
    ⟨slot, rfl | rfl⟩
  · exact ⟨slot, (Slot.ne_of_prefix_under hp).symm, rfl⟩
  · have hmeta : bucket = metaDir := Slot.ne_of_prefix_under hp
    rw [hmeta] at hundotted
    exact absurd hundotted (by decide)

theorem walkText_objectLoc (slot : Slot settings) :
    walkText (join d.root slot.bucket) (slot.objectLoc d.root) =
      slot.objectText d.root := by
  have hroot : resolve (join d.root slot.bucket) =
      resolve d.root ++ [slot.bucket] := resolve_join_single slot.bucket_plain
  have hdrop : (slot.objectLoc d.root).drop
      (resolve (join d.root slot.bucket)).length = slot.key.splitOn '/' := by
    rw [hroot]
    simp [Slot.objectLoc]
  unfold walkText
  rw [hdrop, foldl_join (open_join_plain slot.bucket_plain)
    (List.splitOn_ne_nil '/' slot.key) slot.key_plain, List.intercalate_splitOn]
  rfl

theorem relpath_objectText (slot : Slot settings) :
    relpath (slot.objectText d.root) (join d.root slot.bucket) = slot.key :=
  relpath_join slot.key_plain

theorem under_bucketRoot (slot : Slot settings) :
    resolve (join d.root slot.bucket) <+: slot.objectLoc d.root ∧
      slot.objectLoc d.root ≠ resolve (join d.root slot.bucket) := by
  rw [resolve_join_single slot.bucket_plain]
  have hshape : slot.objectLoc d.root =
      (resolve d.root ++ [slot.bucket]) ++ slot.key.splitOn '/' := by
    simp [Slot.objectLoc]
  rw [hshape]
  refine ⟨List.prefix_append _ _, ?_⟩
  intro heq
  exact List.splitOn_ne_nil '/' slot.key (List.append_right_eq_self.mp heq)

theorem Catalogued.mem_keysAt (h : Catalogued d settings fs)
    (hbucket : KeyGrammar.validateBucket settings bucket = Except.ok ())
    {key : Text} :
    key ∈ keysAt d bucket pre fs <-> Listed d bucket pre settings fs key := by
  unfold keysAt
  rw [mem_sortTexts, walkKeys_walkFrom, List.mem_map]
  constructor
  · intro hnamed
    rcases hnamed with ⟨p, hp, rfl⟩
    rcases (mem_walkPlaces h.sound).mp hp with ⟨hfile, hunder, _, hbase⟩
    rcases h.object hbucket hunder hfile with ⟨slot, rfl, rfl⟩
    rw [walkText_objectLoc] at hbase ⊢
    rw [relpath_objectText]
    exact ⟨slot, rfl, rfl, startsWith_iff.mpr hbase, hfile⟩
  · intro hnamed
    rcases hnamed with ⟨slot, rfl, rfl, hselects, hfile⟩
    refine ⟨slot.objectLoc d.root, ?_, ?_⟩
    · rw [mem_walkPlaces h.sound, walkText_objectLoc]
      exact ⟨hfile, (under_bucketRoot slot).left, (under_bucketRoot slot).right,
        startsWith_iff.mp hselects⟩
    · rw [walkText_objectLoc, relpath_objectText]

theorem Catalogued.keysAt_sortedLT (h : Catalogued d settings fs)
    (hbucket : KeyGrammar.validateBucket settings bucket = Except.ok ()) :
    (keysAt d bucket pre fs).SortedLT := by
  apply sortTexts_sortedLT
  rw [walkKeys_walkFrom]
  apply List.Nodup.map_on _ (walkPlaces_nodup fs _ _)
  intro p hp q hq heq
  rcases (mem_walkPlaces h.sound).mp hp with ⟨hfile, hunder, _, _⟩
  rcases (mem_walkPlaces h.sound).mp hq with ⟨hfile', hunder', _, _⟩
  rcases h.object hbucket hunder hfile with ⟨slot, rfl, rfl⟩
  rcases h.object hbucket hunder' hfile' with ⟨slot', hsame, rfl⟩
  rw [walkText_objectLoc, relpath_objectText, ← hsame, walkText_objectLoc,
    relpath_objectText] at heq
  rw [Slot.ext hsame heq.symm]

end Keys

/-!
## One page
-/

section Page

variable {bucket pre : Text} {fs fs' : FileTree}

theorem SameFiles.content (h : SameFiles fs fs') (p : Path) :
    fs'.content p = fs.content p := by
  rw [content_eq_map, content_eq_map, h.fileInode]

theorem Listed.same {key : Text} (h : Listed d bucket pre settings fs key)
    (hsame : SameFiles fs fs') : Listed d bucket pre settings fs' key := by
  rcases h with ⟨slot, hbucket, hkey, hselects, hthere⟩
  refine ⟨slot, hbucket, hkey, hselects, ?_⟩
  unfold storedObject at hthere ⊢
  rw [hsame.content]
  exact hthere

def AllRecords (d : LocalFsBlobDriver) (settings : Settings) (fs : FileTree) :
    Prop :=
  forall (slot : Slot settings) raw, storedSidecar d slot fs = some raw ->
    exists record, raw = recordBytes d record

theorem AllRecords.same (h : AllRecords d settings fs)
    (hsame : SameFiles fs fs') : AllRecords d settings fs' := by
  intro slot raw hraw
  unfold storedSidecar at hraw
  rw [hsame.content] at hraw
  exact h slot raw hraw

theorem Catalogued.allRecords (h : Catalogued d settings fs) :
    AllRecords d settings fs := by
  intro slot raw hraw
  exact h.filed.recorded slot raw ((view_storedSidecar d slot).mpr hraw)

theorem Catalogued.same (h : Catalogued d settings fs)
    (hsame : SameFiles fs fs') (hsound : fs'.Sound) :
    Catalogued d settings fs' where
  sound := hsound
  filed := by
    have hview : (staging d.root).view fs' = (staging d.root).view fs := by
      funext q
      apply Staging.view_congr
      · rw [hsame.node]
      · intro i _ _
        rw [hsame.inodes]
    rw [hview]
    exact h.filed

theorem headOf_recorded {slot : Slot settings} {inode : Inode}
    {sidecar : Option Bytes}
    (h : forall raw, sidecar = some raw ->
      exists record, raw = recordBytes d record) :
    exists info, headOf d slot (some inode) sidecar = Except.ok (some info) ∧
      info.key = slot.key := by
  cases sidecar with
  | none => exact ⟨_, rfl, rfl⟩
  | some raw =>
      rcases h raw rfl with ⟨record, rfl⟩
      have hread : sidecarValue d (some (recordBytes d record)) =
          Except.ok (some record.toJson) := readBack_recordBytes d record
      unfold headOf
      rw [hread]
      exact ⟨_, rfl, rfl⟩

theorem wp_heads {keys : List Text}
    (hkeys : forall key, key ∈ keys -> Listed d bucket pre settings fs key)
    (hrecords : AllRecords d settings fs)
    {Q : Except Exn (List ObjectInfo) -> FileTree -> Prop}
    (h : forall objects fs', objects.map ObjectInfo.key = keys ->
      SameFiles fs fs' -> Q (Except.ok objects) fs') :
    (system noFault).machine.wp (d.heads bucket keys) Q fs := by
  induction keys generalizing fs Q with
  | nil => exact h [] fs rfl ⟨rfl, rfl⟩
  | cons key rest ih =>
      rcases hkeys key List.mem_cons_self with ⟨slot, rfl, rfl, _, hthere⟩
      show (system noFault).machine.wp (d.head slot.bucket slot.key >>= _) Q fs
      rw [Machine.wp_bind]
      apply wp_exact_head
      intro fs1 hsame
      unfold storedObject at hthere
      rw [content_eq_map, Option.isSome_map] at hthere
      rcases Option.isSome_iff_exists.mp hthere with ⟨inode, hinode⟩
      rcases @headOf_recorded _ _ slot inode _ (hrecords slot) with
        ⟨info, hinfo, hkey⟩
      rw [hinode, hinfo]
      show (system noFault).machine.wp (d.heads slot.bucket rest >>= _) Q fs1
      rw [Machine.wp_bind]
      apply ih
      · intro key hkey
        exact (hkeys key (List.mem_cons_of_mem _ hkey)).same hsame
      · exact hrecords.same hsame
      · intro objects fs' hobjects hsame'
        apply h
        · rw [Option.toList_some, List.singleton_append, List.map_cons, hkey,
            hobjects]
        · exact hsame.trans hsame'

theorem beyond_eq_after {keys : List Text} (hkeys : [] ∉ keys)
    (cursor : Option Text) :
    LocalFsBlobDriver.beyond cursor keys = Paging.after cursor keys := by
  cases cursor with
  | none => rfl
  | some c =>
      unfold LocalFsBlobDriver.beyond
      dsimp only
      split
      · rename_i hempty
        rw [hempty, Paging.after_eq_self]
        intro k hk
        cases k with
        | nil => exact absurd hk hkeys
        | cons first others => exact List.nil_lt_cons first others
      · apply List.filter_congr
        intro k _
        exact decide_eq_decide.mpr Iff.rfl

theorem Listed.ne_nil {key : Text} (h : Listed d bucket pre settings fs key) :
    key ≠ [] := by
  rcases h with ⟨slot, _, rfl, _, _⟩
  intro hnil
  have hplain := slot.key_plain
  rw [hnil] at hplain
  exact (hplain [] (by simp)).left rfl

theorem Catalogued.list_exact (h : Catalogued d settings fs)
    (hbucket : KeyGrammar.validateBucket settings bucket = Except.ok ())
    {cursor : Option Text} {limit : Nat} {trace : List (Sigma calls.Ret)}
    {o : Except Exn ListPage}
    (hrun : (system noFault).machine.Runs fs (d.list bucket pre cursor limit)
      trace o fs') :
    (exists page, o = Except.ok page ∧
      page.objects.map ObjectInfo.key =
        (Paging.after cursor (keysAt d bucket pre fs)).take limit ∧
      page.nextCursor =
        Paging.next limit (Paging.after cursor (keysAt d bucket pre fs))) ∧
      SameFiles fs fs' := by
  have hlisted : forall key, key ∈ keysAt d bucket pre fs ->
      Listed d bucket pre settings fs key :=
    fun key hkey => (h.mem_keysAt hbucket).mp hkey
  have hbeyond : LocalFsBlobDriver.beyond cursor (keysAt d bucket pre fs) =
      Paging.after cursor (keysAt d bucket pre fs) :=
    beyond_eq_after (fun hnil => (hlisted [] hnil).ne_nil rfl) cursor
  refine Machine.wp_sound (Q := fun o fs' =>
    (exists page, o = Except.ok page ∧
      page.objects.map ObjectInfo.key =
        (Paging.after cursor (keysAt d bucket pre fs)).take limit ∧
      page.nextCursor =
        Paging.next limit (Paging.after cursor (keysAt d bucket pre fs))) ∧
      SameFiles fs fs') ?_ hrun
  show (system noFault).machine.wp (Os.walk _ >>= fun _ => _) _ fs
  rw [Machine.wp_bind]
  apply wp_exact (c := Call.walk (join d.root bucket))
  intro ch hfault
  have hwalk : exec ch (Call.walk (join d.root bucket)) fs =
      (fs.walkFrom (join d.root bucket), fs) := by
    simp only [exec, hfault]
    rfl
  rw [hwalk]
  show (system noFault).machine.wp
    (d.heads bucket (sliceTo
      (LocalFsBlobDriver.beyond cursor (keysAt d bucket pre fs)) limit) >>= _)
    _ fs
  rw [Machine.wp_bind, hbeyond, sliceTo_natCast]
  have hpage : forall key,
      key ∈ (Paging.after cursor (keysAt d bucket pre fs)).take limit ->
        Listed d bucket pre settings fs key :=
    fun key hkey => hlisted key
      ((Paging.after_sublist _ _).mem (List.mem_of_mem_take hkey))
  apply wp_heads hpage h.allRecords
  intro objects fs1 hobjects hsame
  refine ⟨⟨_, rfl, hobjects, ?_⟩, hsame⟩
  show (if (limit : Int) <
      ((LocalFsBlobDriver.beyond cursor (keysAt d bucket pre fs)).length : Int)
    then
      (sliceTo (LocalFsBlobDriver.beyond cursor (keysAt d bucket pre fs))
        limit).getLast?
    else none) = _
  rw [hbeyond, sliceTo_natCast]
  simp only [Nat.cast_lt]
  rfl

end Page

end StorybookStorage
