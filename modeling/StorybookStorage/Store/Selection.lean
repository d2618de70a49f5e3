import StorybookStorage.Store.Traversal

/-!
# Which keys a prefix selects

`list` compares paths, the in-memory driver of the tests compares keys.  Joining
drops the left part when the right one is absolute, so a prefix that starts at
the separator is compared with whole paths.
-/

namespace StorybookStorage

open Python Posix Effects Contract FileTree

/-- The keys and the cursor `FakeBlobDriver.list` answers, where `stored` are
the keys of its dictionary. -/
def FakeBlobDriver.list (stored : List (Text × Text)) (bucket pre : Text)
    (cursor : Option Text) (limit : Int) : List Text × Option Text :=
  let keys := sortTexts ((stored.filter fun entry =>
    decide (entry.1 = bucket) && startsWith entry.2 pre).map Prod.snd)
  let keys := LocalFsBlobDriver.beyond cursor keys
  let page := sliceTo keys limit
  (page, if limit < keys.length then page.getLast? else none)

variable {settings : Settings} {d : LocalFsBlobDriver} {bucket pre : Text}
  {fs : FileTree} {stored : List (Text × Text)} {limit : Nat}

structure Inventory (d : LocalFsBlobDriver) (settings : Settings) (fs : FileTree)
    (stored : List (Text × Text)) : Prop where
  nodup : stored.Nodup
  mem : forall bucket key, (bucket, key) ∈ stored <->
    exists slot : Slot settings, slot.bucket = bucket ∧ slot.key = key ∧
      storedObject d slot fs ≠ none

structure SelectsByKey (stored : List (Text × Text)) (bucket pre : Text)
    (limit : Nat) (page : ListPage) : Prop where
  exactly : forall key, key ∈ page.objects.map ObjectInfo.key <->
    (bucket, key) ∈ stored ∧ startsWith key pre = true
  asFake : (page.objects.map ObjectInfo.key, page.nextCursor) =
    FakeBlobDriver.list stored bucket pre none limit

/-- No object's whole path starts with the prefix. -/
def PathsClear (d : LocalFsBlobDriver) (settings : Settings) (fs : FileTree)
    (bucket pre : Text) : Prop :=
  forall slot : Slot settings, slot.bucket = bucket ->
    storedObject d slot fs ≠ none -> ¬ pre <+: slot.objectText d.root

/-!
## The in-memory driver
-/

theorem nodup_keys (h : stored.Nodup) :
    ((stored.filter fun entry =>
      decide (entry.1 = bucket) && startsWith entry.2 pre).map Prod.snd).Nodup := by
  apply List.Nodup.map_on _ (h.filter _)
  intro a ha b hb hkeys
  have hbuckets : forall entry, entry ∈ stored.filter (fun entry =>
      decide (entry.1 = bucket) && startsWith entry.2 pre) ->
        entry.1 = bucket := by
    intro entry hentry
    have hkept := (List.mem_filter.mp hentry).right
    exact of_decide_eq_true (Bool.and_eq_true_iff.mp hkept).left
  exact Prod.ext ((hbuckets a ha).trans (hbuckets b hb).symm) hkeys

theorem mem_keys {key : Text} :
    key ∈ (stored.filter fun entry =>
        decide (entry.1 = bucket) && startsWith entry.2 pre).map Prod.snd <->
      (bucket, key) ∈ stored ∧ startsWith key pre = true := by
  rw [List.mem_map]
  constructor
  · intro hselected
    rcases hselected with ⟨⟨b, k⟩, hentry, rfl⟩
    rcases List.mem_filter.mp hentry with ⟨hmem, hkept⟩
    rcases Bool.and_eq_true_iff.mp hkept with ⟨hb, hpre⟩
    have hbucket : b = bucket := of_decide_eq_true hb
    rw [hbucket] at hmem
    exact ⟨hmem, hpre⟩
  · intro h
    refine ⟨(bucket, key), List.mem_filter.mpr ⟨h.left, ?_⟩, rfl⟩
    rw [Bool.and_eq_true_iff]
    exact ⟨decide_eq_true rfl, h.right⟩

theorem FakeBlobDriver.list_all (h : stored.length < limit) :
    FakeBlobDriver.list stored bucket pre none limit =
      (sortTexts ((stored.filter fun entry =>
        decide (entry.1 = bucket) && startsWith entry.2 pre).map Prod.snd),
        none) := by
  have hlen : (sortTexts ((stored.filter fun entry =>
      decide (entry.1 = bucket) && startsWith entry.2 pre).map
        Prod.snd)).length ≤ stored.length := by
    unfold sortTexts
    rw [List.length_insertionSort, List.length_map]
    exact List.length_filter_le _ _
  have hbeyond : forall keys : List Text,
      LocalFsBlobDriver.beyond none keys = keys := fun _ => rfl
  unfold FakeBlobDriver.list
  dsimp only
  rw [hbeyond, sliceTo_natCast, List.take_of_length_le (by omega),
    if_neg (by omega)]

/-!
## The driver on files
-/

theorem Catalogued.keysAt_length (h : Catalogued d settings fs)
    (hbucket : KeyGrammar.validateBucket settings bucket = Except.ok ())
    (hstored : Inventory d settings fs stored) :
    (keysAt d bucket pre fs).length ≤ stored.length := by
  have hnodup : ((keysAt d bucket pre fs).map (Prod.mk bucket)).Nodup :=
    (h.keysAt_sortedLT hbucket).nodup.map (Prod.mk_right_injective bucket)
  have hsubset : (keysAt d bucket pre fs).map (Prod.mk bucket) ⊆ stored := by
    intro entry hentry
    rcases List.mem_map.mp hentry with ⟨key, hkey, rfl⟩
    rcases (h.mem_keysAt hbucket).mp hkey with ⟨slot, hslot, rfl, _, hthere⟩
    exact (hstored.mem _ _).mpr
      ⟨slot, hslot, rfl, Option.isSome_iff_ne_none.mp hthere⟩
  have hlength := (hnodup.subperm hsubset).length_le
  rwa [List.length_map] at hlength

theorem absolute_outside (slot : Slot settings) (h : pre.head? = some '/') :
    ¬ pre <+: slot.key := by
  intro hkey
  rcases hkey with ⟨rest, hrest⟩
  apply head_ne_slash_of_plain slot.key_plain
  rw [← hrest]
  cases pre with
  | nil => cases h
  | cons c others => exact h

/-- The walk selects by key exactly when no whole path starts with an absolute
prefix. -/
theorem listed_iff (hbucket : Plain bucket)
    (hstored : Inventory d settings fs stored) :
    (forall key, Listed d bucket pre settings fs key <->
      (bucket, key) ∈ stored ∧ startsWith key pre = true) <->
      (pre.head? = some '/' -> PathsClear d settings fs bucket pre) := by
  by_cases hpre : pre.head? = some '/'
  · have hbase : forall slot : Slot settings, slot.bucket = bucket ->
        (selects d bucket pre slot.key = true <->
          pre <+: slot.objectText d.root) := by
      intro slot heq
      subst heq
      unfold selects
      rw [startsWith_iff, join.eq_def _ pre, if_pos hpre]
      rfl
    constructor
    · intro h _ slot hslot hthere hpath
      have hlisted : Listed d bucket pre settings fs slot.key :=
        ⟨slot, hslot, rfl, (hbase slot hslot).mpr hpath,
          Option.isSome_iff_ne_none.mpr hthere⟩
      have hkey := startsWith_iff.mp ((h slot.key).mp hlisted).right
      exact absolute_outside slot hpre hkey
    · intro h key
      constructor
      · intro hselected
        rcases hselected with ⟨slot, hslot, rfl, hselects, hthere⟩
        exact absurd ((hbase slot hslot).mp hselects)
          (h hpre slot hslot (Option.isSome_iff_ne_none.mp hthere))
      · intro hkey
        rcases (hstored.mem _ _).mp hkey.left with ⟨slot, _, rfl, _⟩
        exact absurd (startsWith_iff.mp hkey.right)
          (absolute_outside slot hpre)
  · refine iff_of_true ?_ fun habsolute => absurd habsolute hpre
    intro key
    constructor
    · intro hselected
      rcases hselected with ⟨slot, hslot, rfl, hselects, hthere⟩
      refine ⟨(hstored.mem _ _).mpr
        ⟨slot, hslot, rfl, Option.isSome_iff_ne_none.mp hthere⟩, ?_⟩
      rw [startsWith_iff]
      exact (selects_iff d bucket pre hbucket hpre
        (head_ne_slash_of_plain slot.key_plain)).mp hselects
    · intro hkey
      rcases (hstored.mem _ _).mp hkey.left with ⟨slot, hslot, rfl, hthere⟩
      refine ⟨slot, hslot, rfl, ?_, Option.isSome_iff_ne_none.mpr hthere⟩
      exact (selects_iff d bucket pre hbucket hpre
        (head_ne_slash_of_plain slot.key_plain)).mpr
          (startsWith_iff.mp hkey.right)

/-- In every state of a store, `list` answers what the in-memory driver answers
exactly when the prefix is relative or leads to no object. -/
theorem list_asFake_iff {fs0 fs' : FileTree}
    {P : Pool calls FileTree (Operation settings) Exn Reply}
    (hfresh : Fresh d.root fs0) (hreach : (publicationRules d).Reach fs0 P)
    (hbucket : KeyGrammar.validateBucket settings bucket = Except.ok ())
    (hstored : Inventory d settings P.shared stored)
    (hlimit : stored.length < limit) {trace : List (Sigma calls.Ret)}
    {o : Except Exn ListPage}
    (hrun : (system noFault).machine.Runs P.shared
      (d.list bucket pre none limit) trace o fs') :
    (exists page, o = Except.ok page ∧
      SelectsByKey stored bucket pre limit page) <->
      (pre.head? = some '/' -> PathsClear d settings P.shared bucket pre) := by
  have hcat : Catalogued d settings P.shared := hfresh.catalogued.reach hreach
  have hplain : Plain bucket :=
    KeyGrammar.plain_bucket (KeyGrammar.validateBucket_ok hbucket).left
  rcases hcat.list_exact hbucket hrun with ⟨⟨page, rfl, hobjects, hnext⟩, _⟩
  have hall : Paging.after none (keysAt d bucket pre P.shared) =
      keysAt d bucket pre P.shared := rfl
  have hshort : (keysAt d bucket pre P.shared).length < limit :=
    lt_of_le_of_lt (hcat.keysAt_length hbucket hstored) hlimit
  have hnone : page.nextCursor = none := by
    rw [hnext, hall]
    exact (Paging.next_eq_none (by omega)).mpr hshort.le
  rw [hall, List.take_of_length_le hshort.le] at hobjects
  rw [← listed_iff hplain hstored]
  constructor
  · intro hselected key
    rcases hselected with ⟨page', hpage, h⟩
    cases hpage
    rw [← hcat.mem_keysAt hbucket, ← hobjects]
    exact h.exactly key
  · intro h
    have hexactly : forall key, key ∈ keysAt d bucket pre P.shared <->
        (bucket, key) ∈ stored ∧ startsWith key pre = true :=
      fun key => (hcat.mem_keysAt hbucket).trans (h key)
    refine ⟨page, rfl, ?_, ?_⟩
    · rw [hobjects]
      exact hexactly
    · rw [hobjects, hnone, FakeBlobDriver.list_all hlimit]
      congr 1
      apply (hcat.keysAt_sortedLT hbucket).eq_of_mem_iff
        (sortTexts_sortedLT (nodup_keys hstored.nodup))
      intro key
      rw [mem_sortTexts, mem_keys]
      exact hexactly key

/-!
## The small store with two objects
-/

theorem inventory_of_files (hnodup : stored.Nodup)
    (hthere : forall entry, entry ∈ stored ->
      exists slot : Slot settings, slot.bucket = entry.1 ∧ slot.key = entry.2 ∧
        storedObject d slot fs ≠ none)
    (hfiles : forall p, p ∈ fs.entries.keys -> fs.isFile p = true ->
      (exists entry, entry ∈ stored ∧
        p = resolve d.root ++ entry.1 :: entry.2.splitOn '/') ∨
      resolve d.root ++ [metaDir] <+: p) :
    Inventory d settings fs stored where
  nodup := hnodup
  mem bucket key := by
    constructor
    · exact hthere (bucket, key)
    · intro hselected
      rcases hselected with ⟨slot, rfl, rfl, hobject⟩
      have hfile : fs.isFile (slot.objectLoc d.root) = true :=
        Option.isSome_iff_ne_none.mpr hobject
      rcases isFile_iff.mp hfile with ⟨i, hi⟩
      have hkey : slot.objectLoc d.root ∈ fs.entries.keys :=
        mem_keys_of_node (by simp [hi])
      rcases hfiles _ hkey hfile with ⟨⟨b, k⟩, hentry, hplace⟩ | hmeta
      · have hparts := List.append_cancel_left hplace
        rcases List.cons.inj hparts with ⟨hbucket, hkeys⟩
        rw [hbucket, splitOn_injective hkeys]
        exact hentry
      · exact absurd (Slot.ne_of_prefix_under hmeta).symm
          (slot.bucket_ne (by decide))

def stockedKeys : List (Text × Text) :=
  [(text "assets", text "a.png"), (text "assets", text "d.x/a.png")]

theorem stocked_inventory :
    Inventory sampleDriver sampleSettings stocked.shared stockedKeys := by
  apply inventory_of_files (by decide +kernel)
  · intro entry hentry
    rcases List.mem_cons.mp hentry with rfl | hrest
    · exact ⟨pictureSlot, rfl, rfl, by decide +kernel⟩
    · cases List.mem_singleton.mp hrest
      exact ⟨nestedSlot, rfl, rfl, by decide +kernel⟩
  · decide +kernel

def samplePage (pre : Text) :
    Option (List (Sigma calls.Ret) × Except Exn ListPage × FileTree) :=
  answerOf (sampleDriver.list (text "assets") pre none (3 : Nat)) stocked.shared

theorem list_asFake_iff_letter :
    exists trace page fs',
      (system noFault).machine.Runs stocked.shared
        (sampleDriver.list (text "assets") (text "d") none (3 : Nat)) trace
        (Except.ok page) fs' ∧
      page.objects.map ObjectInfo.key = [text "d.x/a.png"] ∧
      SelectsByKey stockedKeys (text "assets") (text "d") 3 page := by
  have hanswer : ((samplePage (text "d")).bind fun answer =>
      answer.2.1.toOption.map fun page => page.objects.map ObjectInfo.key) =
        some [text "d.x/a.png"] := by decide +kernel
  rcases Option.bind_eq_some_iff.mp hanswer with ⟨⟨trace, o, fs'⟩, hrun, hpage⟩
  cases o with
  | error e => cases hpage
  | ok page =>
      have hkeys : page.objects.map ObjectInfo.key = [text "d.x/a.png"] :=
        Option.some.inj hpage
      refine ⟨trace, page, fs', answerOf_runs hrun, hkeys, ?_⟩
      rcases (list_asFake_iff sampleTree_fresh
          ((publicationGame sampleDriver).outcome_reach sampleTree _)
          (by decide) stocked_inventory (by decide)
          (answerOf_runs hrun)).mpr (fun h => absurd h (by decide)) with
        ⟨page', hsame, hselects⟩
      cases hsame
      exact hselects

/-- The prefix that is only a separator is a prefix of every path and of no
key. -/
theorem list_rootPrefix :
    exists trace page fs',
      (publicationRules sampleDriver).Reach sampleTree stocked ∧
      (system noFault).machine.Runs stocked.shared
        (sampleDriver.list (text "assets") (text "/") none (3 : Nat)) trace
        (Except.ok page) fs' ∧
      page.objects.map ObjectInfo.key = [text "a.png", text "d.x/a.png"] ∧
      startsWith (text "a.png") (text "/") = false ∧
      ¬ SelectsByKey stockedKeys (text "assets") (text "/") 3 page := by
  have hanswer : ((samplePage (text "/")).bind fun answer =>
      answer.2.1.toOption.map fun page => page.objects.map ObjectInfo.key) =
        some [text "a.png", text "d.x/a.png"] := by decide +kernel
  rcases Option.bind_eq_some_iff.mp hanswer with ⟨⟨trace, o, fs'⟩, hrun, hpage⟩
  cases o with
  | error e => cases hpage
  | ok page =>
      have hkeys : page.objects.map ObjectInfo.key =
          [text "a.png", text "d.x/a.png"] := Option.some.inj hpage
      refine ⟨trace, page, fs',
        (publicationGame sampleDriver).outcome_reach sampleTree _,
        answerOf_runs hrun, hkeys, by decide, ?_⟩
      intro h
      have hfirst := ((h.exactly (text "a.png")).mp
        (hkeys ▸ List.mem_cons_self)).right
      exact absurd hfirst (by decide)

end StorybookStorage
