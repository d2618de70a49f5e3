import Mathlib.Data.Finset.Sort
import StorybookStorage.Store.Catalogue
import StorybookStorage.Store.History

/-!
# Reading a bucket page by page

A client calls `list` again and again, each time with the cursor it got last,
until there is none.  Between two calls anything may happen to the store: any
operations, interleaved call by call, with any call failing and the process
stopping anywhere.
-/

namespace StorybookStorage

open Python Posix Effects

variable {settings : Settings} (d : LocalFsBlobDriver)

structure Visit where
  tree : FileTree
  page : ListPage

def reported (visits : List Visit) : List Text :=
  visits.flatMap fun v => v.page.objects.map ObjectInfo.key

/-- The cursor of the next call, or nothing when the last page had none. -/
def resume (visits : List Visit) : Option (Option Text) :=
  match visits.getLast? with
  | none => some none
  | some v => v.page.nextCursor.map some

inductive Traversal (settings : Settings) (bucket pre : Text) (limit : Nat)
    (fs0 : FileTree) : List Visit -> FileTree -> Prop where
  | start : Traversal settings bucket pre limit fs0 [] fs0
  | between {visits : List Visit} {fs : FileTree}
      {P : Pool calls FileTree (Operation settings) Exn Reply} :
      Traversal settings bucket pre limit fs0 visits fs ->
      (publicationRules d).Reach fs P ->
      Traversal settings bucket pre limit fs0 visits P.shared
  | page {visits : List Visit} {fs fs' : FileTree} {cursor : Option Text}
      {page : ListPage} {trace : List (Sigma calls.Ret)} :
      Traversal settings bucket pre limit fs0 visits fs ->
      resume visits = some cursor ->
      (system noFault).machine.Runs fs (d.list bucket pre cursor limit) trace
        (Except.ok page) fs' ->
      Traversal settings bucket pre limit fs0
        (visits ++ [{ tree := fs, page := page }]) fs'

/-!
## The reader behind the client
-/

def progress (visits : List Visit) : Paging.Progress Text where
  seen := reported visits
  cursor := visits.getLast?.bind fun v => v.page.nextCursor
  ended := (resume visits).isNone

theorem reported_concat (visits : List Visit) (v : Visit) :
    reported (visits ++ [v]) =
      reported visits ++ v.page.objects.map ObjectInfo.key := by
  simp [reported]

theorem resume_concat (visits : List Visit) (v : Visit) :
    resume (visits ++ [v]) = v.page.nextCursor.map some := by
  unfold resume
  rw [List.getLast?_concat]

theorem resume_eq_some {visits : List Visit} {cursor : Option Text}
    (h : resume visits = some cursor) :
    (progress visits).cursor = cursor ∧ (progress visits).ended = false := by
  refine ⟨?_, ?_⟩
  · unfold resume at h
    unfold progress
    dsimp only
    cases hlast : visits.getLast? with
    | none =>
        rw [hlast] at h
        cases h
        rfl
    | some v =>
        rw [hlast] at h
        rcases Option.map_eq_some_iff.mp h with ⟨c, hc, rfl⟩
        exact hc
  · unfold progress
    rw [h]
    rfl

theorem resume_eq_none {visits : List Visit} :
    resume visits = none <-> (progress visits).ended = true := by
  unfold progress
  rw [Option.isNone_iff_eq_none]

variable {d} {bucket pre : Text} {limit : Nat} {fs0 fs : FileTree}
  {visits : List Visit}

/-- Behind every traversal a reader goes through sorted lists of keys. -/
theorem Traversal.reads (hfresh : Fresh d.root fs0)
    (hbucket : KeyGrammar.validateBucket settings bucket = Except.ok ())
    (h : Traversal d settings bucket pre limit fs0 visits fs) :
    Catalogued d settings fs ∧
      (forall v, v ∈ visits -> Catalogued d settings v.tree) ∧
      Paging.Reads limit (visits.map fun v => keysAt d bucket pre v.tree)
        (progress visits) := by
  induction h with
  | start =>
      refine ⟨hfresh.catalogued, ?_, Paging.Reads.start⟩
      intro v hv
      cases hv
  | between _ hreach ih =>
      rcases ih with ⟨hcat, hvisits, hreads⟩
      exact ⟨hcat.reach hreach, hvisits, hreads⟩
  | @page visits fs fs' cursor page trace _ hresume hrun ih =>
      rcases ih with ⟨hcat, hvisits, hreads⟩
      rcases resume_eq_some hresume with ⟨hcursor, hmore⟩
      rcases hcat.list_exact hbucket hrun with
        ⟨⟨page', hpage, hobjects, hnext⟩, hsame⟩
      cases hpage
      refine ⟨hcat.same hsame (runs_sound hcat.sound hrun), ?_, ?_⟩
      · intro v hv
        rcases List.mem_append.mp hv with hold | hnew
        · exact hvisits v hold
        · rw [List.mem_singleton.mp hnew]
          exact hcat
      · have hturn : progress (visits ++ [{ tree := fs, page := page }]) =
            (progress visits).turn limit (keysAt d bucket pre fs) := by
          unfold progress Paging.Progress.turn
          rw [reported_concat, resume_concat, List.getLast?_concat]
          simp only [Option.bind_some, Option.isNone_map]
          rw [hobjects, hnext, ← hcursor]
          rfl
        rw [hturn, List.map_append]
        exact Paging.Reads.turn _ hreads hmore

/-!
## Every call answers
-/

theorem heads_looks (keys : List Text) : (d.heads bucket keys).Issues Looks := by
  induction keys with
  | nil => exact Prog.issues_pure []
  | cons key rest ih =>
      apply (head_looks d bucket key).bind
      intro info
      apply ih.bind
      intro objects
      exact Prog.issues_pure _

theorem list_looks (cursor : Option Text) (n : Int) :
    (d.list bucket pre cursor n).Issues Looks := by
  apply (issues_call (Call.walk (join d.root bucket)) trivial).bind
  intro found
  apply (heads_looks _).bind
  intro objects
  exact Prog.issues_pure _

/-!
## Nothing lost, nothing twice
-/

structure PagedListing (d : LocalFsBlobDriver) (settings : Settings)
    (bucket pre : Text) (limit : Nat) (visits : List Visit) (fs : FileTree) :
    Prop where
  /-- The keys come in order, none twice. -/
  increasing : (reported visits).SortedLT
  /-- Only selected keys that some call found are reported. -/
  genuine : forall key, key ∈ reported visits ->
    exists v, v ∈ visits ∧ Listed d bucket pre settings v.tree key
  /-- A selected key that was there at every call is reported once. -/
  complete : resume visits = none -> forall slot : Slot settings,
    slot.bucket = bucket -> selects d bucket pre slot.key = true ->
    (forall v, v ∈ visits -> storedObject d slot v.tree ≠ none) ->
    (reported visits).count slot.key = 1
  /-- While the selected keys stay the same, the calls are as many as it takes
  and the keys reported are these. -/
  unchanged : forall keys : Finset Text,
    (forall v, v ∈ visits -> forall key,
      key ∈ keys <-> Listed d bucket pre settings v.tree key) ->
    visits.length ≤ max 1 (keys.card ⌈/⌉ limit) ∧
      (resume visits = none <->
        visits.length = max 1 (keys.card ⌈/⌉ limit)) ∧
      (resume visits = none -> (reported visits).toFinset = keys)
  /-- While there is a cursor the next call answers a page. -/
  answers : forall cursor, resume visits = some cursor ->
    (exists trace o fs', (system noFault).machine.Runs fs
      (d.list bucket pre cursor limit) trace o fs') ∧
    forall trace o fs', (system noFault).machine.Runs fs
      (d.list bucket pre cursor limit) trace o fs' ->
      exists page, o = Except.ok page

/-- Paged listing loses nothing and repeats nothing. -/
theorem paged_listing (hfresh : Fresh d.root fs0)
    (hbucket : KeyGrammar.validateBucket settings bucket = Except.ok ())
    (hlimit : 1 ≤ limit)
    (h : Traversal d settings bucket pre limit fs0 visits fs) :
    PagedListing d settings bucket pre limit visits fs := by
  rcases h.reads hfresh hbucket with ⟨hcat, hvisits, hreads⟩
  have hsorted : forall keys,
      keys ∈ visits.map (fun v => keysAt d bucket pre v.tree) ->
        keys.SortedLT := by
    intro keys hkeys
    rcases List.mem_map.mp hkeys with ⟨v, hv, rfl⟩
    exact (hvisits v hv).keysAt_sortedLT hbucket
  have hordered := hreads.ordered hsorted
  constructor
  · exact hordered.increasing
  · intro key hkey
    rcases hreads.found hkey with ⟨keys, hkeys, hfound⟩
    rcases List.mem_map.mp hkeys with ⟨v, hv, rfl⟩
    exact ⟨v, hv, ((hvisits v hv).mem_keysAt hbucket).mp hfound⟩
  · intro hend slot hslot hselects hthere
    have htracked := hreads.tracked hlimit hsorted (k := slot.key) (by
      intro keys hkeys
      rcases List.mem_map.mp hkeys with ⟨v, hv, rfl⟩
      apply ((hvisits v hv).mem_keysAt hbucket).mpr
      exact ⟨slot, hslot, rfl, hselects,
        Option.isSome_iff_ne_none.mpr (hthere v hv)⟩)
    have hseen : slot.key ∈ reported visits :=
      htracked (Or.inl (resume_eq_none.mp hend))
    exact List.count_eq_one_of_mem hordered.increasing.nodup hseen
  · intro keys hkeys
    have hsame : forall found,
        found ∈ visits.map (fun v => keysAt d bucket pre v.tree) ->
          found = keys.sort := by
      intro found hfound
      rcases List.mem_map.mp hfound with ⟨v, hv, rfl⟩
      apply ((hvisits v hv).keysAt_sortedLT hbucket).eq_of_mem_iff
        keys.sortedLT_sort
      intro key
      rw [(hvisits v hv).mem_keysAt hbucket, Finset.mem_sort, hkeys v hv]
    have hhalf := hreads.halfway hlimit keys.sortedLT_sort hsame
    have hcount := hhalf.requests hlimit
    rw [List.length_map, Finset.length_sort] at hcount
    refine ⟨hcount.left, resume_eq_none.trans hcount.right, ?_⟩
    intro hend
    have hall : reported visits = keys.sort :=
      hhalf.all_seen (resume_eq_none.mp hend)
    rw [hall, Finset.sort_toFinset]
  · intro cursor _
    refine ⟨looking_runs (list_looks cursor limit) fs, ?_⟩
    intro trace o fs' hrun
    rcases hcat.list_exact hbucket hrun with ⟨⟨page, hpage, _⟩, _⟩
    exact ⟨page, hpage⟩

/-!
## One traversal
-/

def sampleVisit (visits : List Visit) (fs : FileTree) :
    Option (List Visit × FileTree) :=
  match resume visits with
  | none => none
  | some cursor =>
      match answerOf (sampleDriver.list (text "assets") [] cursor (1 : Nat)) fs with
      | some (_, Except.ok page, fs') =>
          some (visits ++ [{ tree := fs, page := page }], fs')
      | _ => none

theorem sampleVisit_traversal {after : List Visit × FileTree}
    (h : Traversal sampleDriver sampleSettings (text "assets") [] 1 fs0 visits fs)
    (hvisit : sampleVisit visits fs = some after) :
    Traversal sampleDriver sampleSettings (text "assets") [] 1 fs0 after.1
      after.2 := by
  unfold sampleVisit at hvisit
  split at hvisit
  · cases hvisit
  · rename_i cursor hresume
    split at hvisit
    · rename_i trace page fs' hanswer
      cases hvisit
      exact Traversal.page h hresume (answerOf_runs hanswer)
    · cases hvisit

def stocked : Pool calls FileTree (Operation sampleSettings) Exn Reply :=
  let put slot :=
    Operation.put slot (sampleSource [[1]]) (text "image/png") none none
  (publicationGame sampleDriver).outcome sampleTree
    ([Event.spawn (put pictureSlot), Event.spawn (put nestedSlot)] ++
      callsOf 0 0 15 ++ callsOf 1 20 15)

def trimmed (fs : FileTree) :
    Pool calls FileTree (Operation sampleSettings) Exn Reply :=
  (publicationGame sampleDriver).outcome fs
    (Event.spawn (Operation.delete pictureSlot) :: callsOf 0 70 2)

def sampleTraversal : Option (List Visit × FileTree) :=
  (sampleVisit [] stocked.shared).bind fun first =>
    sampleVisit first.1 (trimmed first.2).shared

theorem paged_listing_trimmed :
    exists visits fs,
      reported visits = [text "a.png", text "d.x/a.png"] ∧
      resume visits = none ∧
      PagedListing sampleDriver sampleSettings (text "assets") [] 1 visits
        fs := by
  have hruns : (sampleTraversal.map fun run => (reported run.1, resume run.1)) =
      some ([text "a.png", text "d.x/a.png"], none) := by
    decide +kernel
  rcases Option.map_eq_some_iff.mp hruns with ⟨run, hrun, hpair⟩
  rcases Prod.mk.inj hpair with ⟨hreported, hresume⟩
  rcases Option.bind_eq_some_iff.mp hrun with ⟨first, hfirst, hsecond⟩
  have hstocked : Traversal sampleDriver sampleSettings (text "assets") [] 1
      sampleTree [] stocked.shared :=
    Traversal.between Traversal.start
      ((publicationGame sampleDriver).outcome_reach sampleTree _)
  have htrimmed : Traversal sampleDriver sampleSettings (text "assets") [] 1
      sampleTree first.1 (trimmed first.2).shared :=
    Traversal.between (sampleVisit_traversal hstocked hfirst)
      ((publicationGame sampleDriver).outcome_reach first.2 _)
  refine ⟨run.1, run.2, hreported, hresume, ?_⟩
  exact paged_listing sampleTree_fresh (by decide) (Nat.le_refl 1)
    (sampleVisit_traversal htrimmed hsecond)

end StorybookStorage
