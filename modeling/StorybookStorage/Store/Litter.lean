import StorybookStorage.Store.Deletion
import StorybookStorage.Store.FailedPut

/-!
# What a put leaves lying about

A put stages two files.  The staging file of the object is renamed away or
removed; the one of the sidecar is only renamed, so it stays when anything goes
wrong after it has been opened.
-/

namespace StorybookStorage

open Python Posix Effects Contract

variable {settings : Settings} (d : LocalFsBlobDriver)

/-- A file the turn created is still there under the name it was created
under. -/
def Littered (fs : FileTree) (turn : MutationTurn settings) : Prop :=
  exists t fh, ⟨Call.openWrite t, Except.ok fh⟩ ∈ turn.trace ∧
    fs.isFile (resolve t) = true

/-- The staging file of the sidecar was opened, and then writing it, closing it
or moving it to its place failed. -/
def SidecarAbandoned (slot : Slot settings) (trace : List (Sigma calls.Ret)) :
    Prop :=
  exists u fh n,
    ⟨Call.openWrite (sidecarTmp (slot.sidecarText d.root) u), Except.ok fh⟩ ∈
      trace ∧
    ((exists body, ⟨Call.write fh body, Except.error n⟩ ∈ trace) ∨
      ⟨Call.close fh, Except.error n⟩ ∈ trace ∨
      ⟨Call.rename (sidecarTmp (slot.sidecarText d.root) u)
        (slot.sidecarText d.root), Except.error n⟩ ∈ trace)

variable {d} {slot : Slot settings} {allow : Policy} {fs fs' : FileTree}
  {trace : List (Sigma calls.Ret)} {u : Text}

/-!
## Names
-/

/-- Names of no staging file, or of one whose token is not among these. -/
def Novel (root : Text) (tokens : List Text) (q : Path) : Prop :=
  forall w, (staging root).Place w q -> w ∉ tokens

theorem novel_of_visible {tokens : List Text} {q : Path}
    (h : ¬ (staging d.root).Hidden q) : Novel d.root tokens q := by
  intro w hw
  exact absurd ⟨w, hw⟩ h

theorem novel_of_place {tokens : List Text} {q : Path}
    (hplace : (staging d.root).Place u q) (hu : u ∉ tokens) :
    Novel d.root tokens q := by
  intro w hw
  rw [(staging d.root).unique hw hplace]
  exact hu

theorem Novel.mono {tokens tokens' : List Text} {q : Path}
    (h : Novel d.root tokens' q)
    (hsub : forall w, w ∈ tokens -> w ∈ tokens') : Novel d.root tokens q :=
  fun w hw hmem => h w hw (hsub w hmem)

/-- A run keeps to names it has drawn itself. -/
def Keeps (root : Text) (tokens : List Text) (trace : List (Sigma calls.Ret)) :
    Prop :=
  forall e, e ∈ trace -> forall q, q ∈ e.1.names -> Novel root tokens q

theorem looks_names {c : Call} (h : Looks c) : c.names = [] := by
  cases c <;> first | rfl | exact absurd h id

theorem keeps_of_looks {tokens : List Text}
    (h : forall e, e ∈ trace -> Looks e.1) : Keeps d.root tokens trace := by
  intro e he q hq
  rw [looks_names (h e he)] at hq
  cases hq

theorem Keeps.append {tokens : List Text} {trace1 trace2 : List (Sigma calls.Ret)}
    (h1 : Keeps d.root tokens trace1) (h2 : Keeps d.root tokens trace2) :
    Keeps d.root tokens (trace1 ++ trace2) := by
  intro e he
  rcases List.mem_append.mp he with h | h
  · exact h1 e h
  · exact h2 e h

theorem Keeps.cons {tokens : List Text} {e : Sigma calls.Ret}
    (he : forall q, q ∈ e.1.names -> Novel d.root tokens q)
    (h : Keeps d.root tokens trace) : Keeps d.root tokens (e :: trace) := by
  intro e' he'
  rcases List.mem_cons.mp he' with rfl | hrest
  · exact he
  · exact h e' hrest

theorem keeps_nil {tokens : List Text} : Keeps d.root tokens [] :=
  fun _ he => nomatch he

theorem Keeps.quiet {tokens : List Text} {c : Call} {r : Call.Ret c}
    (hc : c.names = []) (h : Keeps d.root tokens trace) :
    Keeps d.root tokens (⟨c, r⟩ :: trace) := by
  apply h.cons
  intro q hq
  rw [hc] at hq
  cases hq

theorem Keeps.single {tokens : List Text} {c : Call} {r : Call.Ret c} {q : Path}
    (hc : c.names = [q]) (hq : Novel d.root tokens q)
    (h : Keeps d.root tokens trace) : Keeps d.root tokens (⟨c, r⟩ :: trace) := by
  apply h.cons
  intro q' hq'
  rw [hc] at hq'
  rw [List.mem_singleton.mp hq']
  exact hq

/-- A staging file whose token was drawn earlier is out of reach. -/
theorem Keeps.isFile {α : Type} {p : Io α} {o : Except Exn α} {q : Path}
    (hkeeps : Keeps d.root fs.tokens trace)
    (hrun : (system allow).machine.Runs fs p trace o fs')
    (hplace : (staging d.root).Place u q) (hu : u ∈ fs.tokens) :
    fs'.isFile q = true <-> fs.isFile q = true := by
  apply runs_isFile hrun
  intro e he hq
  exact hkeeps e he q hq u hplace hu

/-!
## Which names a put and a delete use
-/

theorem place_tmpText (h : IsToken u) :
    (staging d.root).Place u (resolve (tmpText d.root u)) :=
  place_tmp h

theorem stage_keeps {M : Machine calls FileTree} {source : Source}
    {tokens : List Text} {o : Except Exn (d.platform.sha256.State × Nat)}
    (htoken : IsToken u) (hu : u ∉ tokens)
    (hrun : M.Runs fs
      (d.stage (tmpText d.root u) (slot.objectText d.root) source) trace o
      fs') : Keeps d.root tokens trace := by
  have htmp : Novel d.root tokens (resolve (tmpText d.root u)) :=
    novel_of_place (place_tmpText htoken) hu
  have hobject : Novel d.root tokens (resolve (slot.objectText d.root)) := by
    rw [slot.resolve_objectText]
    exact novel_of_visible (slot.visible_objectLoc d.root)
  intro e he q hq
  have hcall := hrun.issues (stage_calls d) e he
  generalize e.1 = c at hcall hq
  cases hcall with
  | opens =>
      rw [List.mem_singleton.mp hq]
      exact htmp
  | fills _ hlooks =>
      rw [looks_names hlooks] at hq
      cases hq
  | makes => cases hq
  | moves =>
      rcases List.mem_cons.mp hq with rfl | hq
      · exact htmp
      · rw [List.mem_singleton.mp hq]
        exact hobject

theorem quiet_same {c : Call} {r : Call.Ret c} (hc : c.Quiet)
    (h : (system allow).machine.Step fs c r fs') : fs' = fs := by
  rcases h with ⟨ch, _, hexec⟩
  exact exec_quiet hc hexec

theorem step_tokens {c : Call} {r : Call.Ret c}
    (h : (system allow).machine.Step fs c r fs') (hu : u ∈ fs.tokens) :
    u ∈ fs'.tokens := by
  rcases h with ⟨ch, _, hexec⟩
  exact exec_tokens hexec hu

theorem sidecarTmp_novel {fs1 fs2 fs3 : FileTree} {now : Rat}
    (htime : (system allow).machine.Step fs Call.time now fs1)
    (hmake : (system allow).machine.Step fs1
      (Call.makedirs (dirname (slot.sidecarText d.root))) (Except.ok ()) fs2)
    (hdraw : (system allow).machine.Step fs2 Call.uuid4 u fs3) :
    Novel d.root fs.tokens
      (resolve (sidecarTmp (slot.sidecarText d.root) u)) := by
  rcases drawn_unnamed hdraw with ⟨htoken, _, hnew, _⟩
  apply novel_of_place (slot.place_sidecarTmp htoken)
  intro hu
  exact hnew (step_tokens hmake (step_tokens htime hu))

theorem sidecarText_novel {tokens : List Text} :
    Novel d.root tokens (resolve (slot.sidecarText d.root)) := by
  rw [slot.resolve_sidecarText]
  exact novel_of_visible (slot.visible_sidecarLoc d.root)

theorem SidecarCourse.keeps
    (h : SidecarCourse (system allow).machine (slot.sidecarText d.root) fs trace
      fs') : Keeps d.root fs.tokens trace := by
  cases h with
  | unmade fs1 fs' now n _ _ =>
      exact (keeps_nil.quiet (by rfl)).quiet (by rfl)
  | unopened fs1 fs2 fs3 fs' now u n htime hmake hdraw _ =>
      have htmp := sidecarTmp_novel (d := d) htime hmake hdraw
      have hopen := keeps_nil.single (c := Call.openWrite _)
        (r := Except.error n) (by rfl) htmp
      exact ((hopen.quiet (by rfl)).quiet (by rfl)).quiet (by rfl)
  | unwritten fs1 fs2 fs3 fs4 fs5 fs' now u fh body r1 r2 htime hmake hdraw =>
      have htmp := sidecarTmp_novel (d := d) htime hmake hdraw
      have hfill : Keeps d.root fs.tokens
          [⟨Call.write fh body, r1⟩, ⟨Call.close fh, r2⟩] :=
        (keeps_nil.quiet (by rfl)).quiet (by rfl)
      have hopen := hfill.single (c := Call.openWrite _)
        (r := Except.ok fh) (by rfl) htmp
      exact ((hopen.quiet (by rfl)).quiet (by rfl)).quiet (by rfl)
  | written fs1 fs2 fs3 fs4 fs5 fs6 fs' now u fh body r htime hmake hdraw =>
      have htmp := sidecarTmp_novel (d := d) htime hmake hdraw
      have hmove : Keeps d.root fs.tokens
          [⟨Call.rename (sidecarTmp (slot.sidecarText d.root) u)
            (slot.sidecarText d.root), r⟩] := by
        apply keeps_nil.cons
        intro q hq
        rcases List.mem_cons.mp hq with rfl | hq
        · exact htmp
        · rw [List.mem_singleton.mp hq]
          exact sidecarText_novel
      have hfill : Keeps d.root fs.tokens
          [⟨Call.write fh body, Except.ok ()⟩, ⟨Call.close fh, Except.ok ()⟩,
            ⟨Call.rename (sidecarTmp (slot.sidecarText d.root) u)
              (slot.sidecarText d.root), r⟩] :=
        (hmove.quiet (by rfl)).quiet (by rfl)
      have hopen := hfill.single (c := Call.openWrite _)
        (r := Except.ok fh) (by rfl) htmp
      exact ((hopen.quiet (by rfl)).quiet (by rfl)).quiet (by rfl)

variable {data : Data} {contentType : Text} {ifNoneMatch : Option Text}
  {metadata : Option Metadata}

theorem Enters.same {fs0 : FileTree} {before : List (Sigma calls.Ret)}
    (h : Enters d slot (system allow).machine ifNoneMatch fs before fs0) :
    fs0 = fs := by
  cases h with
  | unconditional _ => rfl
  | missed fs0 _ hstep => exact quiet_same (by trivial) hstep

theorem Enters.looks {M : Machine calls FileTree} {fs0 : FileTree}
    {before : List (Sigma calls.Ret)}
    (h : Enters d slot M ifNoneMatch fs before fs0) :
    forall e, e ∈ before -> Looks e.1 := by
  cases h with
  | unconditional _ =>
      intro e he
      cases he
  | missed fs0 _ _ =>
      intro e he
      rw [List.mem_singleton.mp he]
      trivial

theorem Course.keeps {o : Except Exn PutResult}
    (h : Course d slot (system allow).machine data contentType ifNoneMatch
      metadata fs trace o fs') : Keeps d.root fs.tokens trace := by
  cases h with
  | met fs0 fs' rest info _ _ hhead =>
      apply Keeps.quiet (by rfl)
      exact keeps_of_looks (hhead.issues (head_looks d slot.bucket slot.key))
  | failed fs0 fs1 fs2 fs' u before main e r henters hdraw hstage _ =>
      cases henters.same
      rcases drawn_unnamed hdraw with ⟨htoken, _, hnew, _⟩
      apply (keeps_of_looks henters.looks).append
      apply Keeps.quiet (by rfl)
      apply (stage_keeps htoken hnew hstage).append
      exact keeps_nil.single (by rfl)
        (novel_of_place (place_tmpText htoken) hnew)
  | stored fs0 fs1 fs2 fs' u before main side acc henters hdraw hstage hside =>
      cases henters.same
      rcases drawn_unnamed hdraw with ⟨htoken, _, hnew, _⟩
      apply (keeps_of_looks henters.looks).append
      apply Keeps.quiet (by rfl)
      apply (stage_keeps htoken hnew hstage).append
      intro e he q hq
      apply ((sidecar_course d slot hside).keeps e he q hq).mono
      intro w hw
      exact runs_tokens hstage (step_tokens hdraw hw)

theorem delete_keeps {tokens : List Text} {o : Except Exn Bool}
    (hrun : (system allow).machine.Runs fs (d.delete slot.bucket slot.key) trace
      o fs') : Keeps d.root tokens trace := by
  have hobject : Novel d.root tokens (resolve (slot.objectText d.root)) := by
    rw [slot.resolve_objectText]
    exact novel_of_visible (slot.visible_objectLoc d.root)
  rcases delete_calls hrun with ⟨r, r', rfl, _⟩
  apply Keeps.single (by rfl) hobject
  exact keeps_nil.single (by rfl) sidecarText_novel

theorem Mutation.run_keeps {m : Mutation settings} {o : Except Exn Reply}
    (hrun : (system allow).machine.Runs fs (m.run d) trace o fs') :
    Keeps d.root fs.tokens trace := by
  cases m with
  | put slot data contentType ifNoneMatch metadata =>
      rcases Machine.runs_map hrun with ⟨o', hput, _⟩
      exact (put_course hput).keeps
  | delete slot =>
      rcases Machine.runs_map hrun with ⟨o', hdelete, _⟩
      exact delete_keeps hdelete

/-!
## One put
-/

theorem join_suffix (a b : Text) : exists front, join a b = front ++ b := by
  unfold join
  split
  · exact ⟨[], rfl⟩
  · split
    · exact ⟨a, rfl⟩
    · exact ⟨a ++ ['/'], by simp⟩

theorem tmpText_ne_sidecarTmp {path w : Text} (htoken : IsToken u) :
    tmpText d.root u ≠ sidecarTmp path w := by
  intro heq
  rcases join_suffix (join d.root tmpDir) u with ⟨front, hfront⟩
  have hlast := congrArg List.getLast? heq
  unfold tmpText at hlast
  rw [hfront] at hlast
  unfold sidecarTmp at hlast
  rw [List.getLast?_append, List.getLast?_append] at hlast
  cases hu : u.getLast? with
  | none =>
      rw [List.getLast?_eq_none_iff.mp hu] at htoken
      cases htoken.left
  | some c =>
      rw [hu] at hlast
      have hc : c = 'p' := Option.some.inj hlast
      have hhex := List.all_eq_true.mp htoken.right c (List.mem_of_getLast? hu)
      rw [hc] at hhex
      exact absurd hhex (by decide)

theorem renamed_gone {src dst : Text}
    (h : (system allow).machine.Step fs (Call.rename src dst) (Except.ok ()) fs')
    (hne : resolve src ≠ resolve dst) : fs'.isFile (resolve src) = false := by
  rcases h with ⟨ch, _, hexec⟩
  rcases exec_rename hexec with ⟨n, hr, _⟩ | ⟨i, _, _, _, _, rfl⟩
  · cases hr
  · rw [Bool.eq_false_iff]
    intro hfile
    rcases isFile_iff.mp hfile with ⟨j, hj⟩
    rw [FileTree.node_link_ne _ _ hne, FileTree.node_unlink_self] at hj
    cases hj

theorem step_stays {c : Call} {r : Call.Ret c} {q : Path}
    (h : (system allow).machine.Step fs c r fs') (hc : takesFile c r = [])
    (hq : fs.isFile q = true) : fs'.isFile q = true := by
  rcases h with ⟨ch, _, hexec⟩
  rcases isFile_iff.mp hq with ⟨i, hi⟩
  rcases exec_stays hexec hi with hkept | htaken
  · exact isFile_iff.mpr hkept
  · rw [hc] at htaken
    cases htaken

theorem opened_file {t : Text} {fh : Nat}
    (h : (system allow).machine.Step fs (Call.openWrite t) (Except.ok fh) fs') :
    fs'.isFile (resolve t) = true := by
  rcases h with ⟨ch, _, hexec⟩
  rcases exec_openWrite hexec with
    ⟨_, hr, _⟩ | ⟨i, hi, _, rfl⟩ | ⟨_, _, _, rfl⟩
  · cases hr
  · exact isFile_iff.mpr ⟨i, hi⟩
  · exact isFile_iff.mpr ⟨fs.nextIno, FileTree.node_create_self fs _ ch.now⟩

theorem sidecarTmp_ne_sidecarText (htoken : IsToken u) :
    resolve (sidecarTmp (slot.sidecarText d.root) u) ≠
      resolve (slot.sidecarText d.root) := by
  intro heq
  apply slot.visible_sidecarLoc d.root
  rw [← slot.resolve_sidecarText, ← heq]
  exact ⟨u, slot.place_sidecarTmp htoken⟩

def opens : (c : Call) -> Call.Ret c -> List (Text × Nat)
  | Call.openWrite t, Except.ok fh => [(t, fh)]
  | _, _ => []

theorem mem_opens {t : Text} {fh : Nat}
    (h : ⟨Call.openWrite t, Except.ok fh⟩ ∈ trace) :
    (t, fh) ∈ Machine.notes opens trace :=
  List.mem_flatMap.mpr ⟨_, h, List.mem_cons_self⟩

theorem mem_failures {e : Sigma calls.Ret} {n : Errno} (h : e ∈ trace)
    (hn : n ∈ callErrno e.1 e.2) : n ∈ failures trace :=
  List.mem_flatMap.mpr ⟨e, h, hn⟩

theorem littered_iff_of_unopened (h : Machine.notes opens trace = []) :
    (exists t fh, ⟨Call.openWrite t, Except.ok fh⟩ ∈ trace ∧
        fs'.isFile (resolve t) = true) <->
      SidecarAbandoned d slot trace := by
  have hnone : forall t fh, ⟨Call.openWrite t, Except.ok fh⟩ ∉ trace := by
    intro t fh hopen
    have hmem := mem_opens hopen
    rw [h] at hmem
    cases hmem
  constructor
  · intro hlitter
    rcases hlitter with ⟨t, fh, hopen, _⟩
    exact absurd hopen (hnone t fh)
  · intro habandoned
    rcases habandoned with ⟨w, fh, n, hopen, _⟩
    exact absurd hopen (hnone _ fh)

theorem SidecarAbandoned.failed (h : SidecarAbandoned d slot trace) :
    failures trace ≠ [] := by
  intro hnone
  rcases h with ⟨w, fh, n, _, hfailed⟩
  have hmem : n ∈ failures trace := by
    rcases hfailed with ⟨b, hw⟩ | hc | hr
    · exact mem_failures hw List.mem_cons_self
    · exact mem_failures hc List.mem_cons_self
    · exact mem_failures hr List.mem_cons_self
  rw [hnone] at hmem
  cases hmem

/-- Its staging file stays exactly when a sidecar was abandoned. -/
theorem SidecarCourse.littered_iff
    (h : SidecarCourse (system allow).machine (slot.sidecarText d.root) fs trace
      fs') :
    (exists t fh, ⟨Call.openWrite t, Except.ok fh⟩ ∈ trace ∧
        fs'.isFile (resolve t) = true) <->
      SidecarAbandoned d slot trace := by
  cases h with
  | unmade fs1 fs' now n _ _ => exact littered_iff_of_unopened rfl
  | unopened fs1 fs2 fs3 fs' now u n _ _ _ _ => exact littered_iff_of_unopened rfl
  | unwritten fs1 fs2 fs3 fs4 fs5 fs' now u fh body r1 r2 _ _ _ hopen hwrite
      hclose hbroken =>
      constructor
      · intro _
        rcases hbroken with ⟨n, rfl | rfl⟩
        · exact ⟨u, fh, n, by simp, Or.inl ⟨body, by simp⟩⟩
        · exact ⟨u, fh, n, by simp, Or.inr (Or.inl (by simp))⟩
      · intro _
        refine ⟨sidecarTmp (slot.sidecarText d.root) u, fh, by simp, ?_⟩
        exact step_stays hclose rfl (step_stays hwrite rfl (opened_file hopen))
  | written fs1 fs2 fs3 fs4 fs5 fs6 fs' now u fh body r _ _ hdraw hopen hwrite
      hclose hmove =>
      have hstaged := step_stays hclose rfl
        (step_stays hwrite rfl (opened_file hopen))
      cases r with
      | ok _ =>
          have hgone := renamed_gone hmove
            (sidecarTmp_ne_sidecarText (drawn_unnamed hdraw).left)
          constructor
          · intro hlitter
            rcases hlitter with ⟨t, fh', hopened, hfile⟩
            have hmem := mem_opens hopened
            cases List.mem_singleton.mp hmem
            rw [hgone] at hfile
            cases hfile
          · intro habandoned
            exact absurd rfl habandoned.failed
      | error n =>
          constructor
          · intro _
            exact ⟨u, fh, n, by simp, Or.inr (Or.inr (by simp))⟩
          · intro _
            refine ⟨sidecarTmp (slot.sidecarText d.root) u, fh, by simp, ?_⟩
            exact step_stays hmove rfl hstaged

theorem stage_opens {M : Machine calls FileTree} {tmp dest : Text}
    {source : Source} {o : Except Exn (d.platform.sha256.State × Nat)}
    {t : Text} {fh : Nat}
    (hrun : M.Runs fs (d.stage tmp dest source) trace o fs')
    (hopen : ⟨Call.openWrite t, Except.ok fh⟩ ∈ trace) : t = tmp := by
  cases hrun.issues (stage_calls d) _ hopen with
  | opens => rfl
  | fills _ hlooks => exact absurd hlooks id

theorem Course.littered_iff {o : Except Exn PutResult}
    (h : Course d slot (system allow).machine data contentType ifNoneMatch
      metadata fs trace o fs') (ho : exists result, o = Except.ok result) :
    (exists t fh, ⟨Call.openWrite t, Except.ok fh⟩ ∈ trace ∧
        fs'.isFile (resolve t) = true) <->
      SidecarAbandoned d slot trace := by
  cases h with
  | met fs0 fs' rest info _ _ hhead =>
      apply littered_iff_of_unopened
      have hlooks := hhead.issues (head_looks d slot.bucket slot.key)
      rw [List.eq_nil_iff_forall_not_mem]
      intro opened hmem
      rcases opened with ⟨t, fh⟩
      rcases List.mem_flatMap.mp hmem with ⟨⟨c, r⟩, hc, hopened⟩
      rcases List.mem_cons.mp hc with hfirst | hc
      · cases hfirst
        cases hopened
      · have hlook := hlooks _ hc
        cases c with
        | openWrite t' => exact hlook
        | _ => cases hopened
  | failed fs0 fs1 fs2 fs' u before main e r =>
      rcases ho with ⟨result, hr⟩
      cases hr
  | stored fs0 fs1 fs2 fs' u before main side acc henters hdraw hstage hside =>
      have hcourse := sidecar_course d slot hside
      have htoken := (drawn_unnamed hdraw).left
      have hdrawn : u ∈ fs1.tokens := by
        rw [(drawn_unnamed hdraw).right.right.right.left]
        exact List.mem_cons_self
      -- The body has left its staging file, and the sidecar does not touch it.
      have hgone : fs'.isFile (resolve (tmpText d.root u)) = false := by
        rcases stage_done d hstage with ⟨fs3, early, hmove, _⟩
        have hne : resolve (tmpText d.root u) ≠
            resolve (slot.objectText d.root) := by
          rw [slot.resolve_objectText]
          intro heq
          apply slot.visible_objectLoc d.root
          rw [← heq]
          exact ⟨u, place_tmpText htoken⟩
        have hbefore := renamed_gone hmove hne
        rw [Bool.eq_false_iff] at hbefore ⊢
        intro hfile
        exact hbefore ((hcourse.keeps.isFile hside (place_tmpText htoken)
          (runs_tokens hstage hdrawn)).mp hfile)
      have hwhole : failures main = [] := by
        cases stage_failures hstage with
        | done _ _ hnone => exact hnone
      have hmain : forall e n, e ∈ before ++ ⟨Call.uuid4, u⟩ :: (main ++ side) ->
          n ∈ callErrno e.1 e.2 -> e ∈ side := by
        intro e n he hn
        rcases List.mem_append.mp he with hbefore | he
        · have hmem := mem_failures hbefore hn
          rw [henters.failures] at hmem
          cases hmem
        rcases List.mem_cons.mp he with rfl | he
        · cases hn
        rcases List.mem_append.mp he with hmain | hside
        · have hmem := mem_failures hmain hn
          rw [hwhole] at hmem
          cases hmem
        · exact hside
      have hopens : forall t fh, ⟨Call.openWrite t, Except.ok fh⟩ ∈
          before ++ ⟨Call.uuid4, u⟩ :: (main ++ side) ->
          t = tmpText d.root u ∨ ⟨Call.openWrite t, Except.ok fh⟩ ∈ side := by
        intro t fh he
        rcases List.mem_append.mp he with hbefore | he
        · exact absurd (henters.looks _ hbefore) id
        rcases List.mem_cons.mp he with hfirst | he
        · cases hfirst
        rcases List.mem_append.mp he with hmain | hside
        · exact Or.inl (stage_opens hstage hmain)
        · exact Or.inr hside
      have hsub : forall e, e ∈ side ->
          e ∈ before ++ ⟨Call.uuid4, u⟩ :: (main ++ side) := by
        intro e he
        simp [he]
      constructor
      · intro hlitter
        rcases hlitter with ⟨t, fh, hopen, hfile⟩
        rcases hopens t fh hopen with rfl | hopen
        · rw [hgone] at hfile
          cases hfile
        · rcases hcourse.littered_iff.mp ⟨t, fh, hopen, hfile⟩ with
            ⟨w, fh', n, hsidecar, hfailed⟩
          refine ⟨w, fh', n, hsub _ hsidecar, ?_⟩
          rcases hfailed with ⟨b, hw⟩ | hc | hr
          · exact Or.inl ⟨b, hsub _ hw⟩
          · exact Or.inr (Or.inl (hsub _ hc))
          · exact Or.inr (Or.inr (hsub _ hr))
      · intro habandoned
        rcases habandoned with ⟨w, fh, n, hopen, hfailed⟩
        have hsidecar := (hopens _ fh hopen).resolve_left
          fun heq => tmpText_ne_sidecarTmp htoken heq.symm
        have hwithin : SidecarAbandoned d slot side := by
          refine ⟨w, fh, n, hsidecar, ?_⟩
          rcases hfailed with ⟨b, hw⟩ | hc | hr
          · exact Or.inl ⟨b, hmain _ n hw List.mem_cons_self⟩
          · exact Or.inr (Or.inl (hmain _ n hc List.mem_cons_self))
          · exact Or.inr (Or.inr (hmain _ n hr List.mem_cons_self))
        rcases hcourse.littered_iff.mpr hwithin with ⟨t, fh', hopened, hfile⟩
        exact ⟨t, fh', hsub _ hopened, hfile⟩

/-!
## Every history
-/

def Anchored (root : Text) (fs : FileTree) (trace : List (Sigma calls.Ret)) :
    Prop :=
  forall t fh, ⟨Call.openWrite t, Except.ok fh⟩ ∈ trace ->
    exists w, w ∈ fs.tokens ∧ (staging root).Place w (resolve t)

theorem anchored_of_looks (h : forall e, e ∈ trace -> Looks e.1) :
    Anchored d.root fs trace :=
  fun _ _ hopen => absurd (h _ hopen) id

theorem Anchored.append {trace1 trace2 : List (Sigma calls.Ret)}
    (h1 : Anchored d.root fs trace1) (h2 : Anchored d.root fs trace2) :
    Anchored d.root fs (trace1 ++ trace2) := by
  intro t fh hopen
  rcases List.mem_append.mp hopen with h | h
  · exact h1 t fh h
  · exact h2 t fh h

theorem Anchored.skip {c : Call} {r : Call.Ret c} (hc : opens c r = [])
    (h : Anchored d.root fs trace) : Anchored d.root fs (⟨c, r⟩ :: trace) := by
  intro t fh hopen
  rcases List.mem_cons.mp hopen with hfirst | hrest
  · cases hfirst
    cases hc
  · exact h t fh hrest

theorem stage_anchored {fs1 fs2 : FileTree} {source : Source}
    {o : Except Exn (d.platform.sha256.State × Nat)}
    (hdraw : (system allow).machine.Step fs Call.uuid4 u fs1)
    (hstage : (system allow).machine.Runs fs1
      (d.stage (tmpText d.root u) (slot.objectText d.root) source) trace o fs2)
    (hlater : forall w, w ∈ fs2.tokens -> w ∈ fs'.tokens) :
    Anchored d.root fs' trace := by
  intro t fh hopen
  rw [stage_opens hstage hopen]
  rcases drawn_unnamed hdraw with ⟨htoken, _, _, htokens, _⟩
  have hdrawn : u ∈ fs1.tokens := by
    rw [htokens]
    exact List.mem_cons_self
  exact ⟨u, hlater u (runs_tokens hstage hdrawn), place_tmpText htoken⟩

theorem SidecarCourse.anchored
    (h : SidecarCourse (system allow).machine (slot.sidecarText d.root) fs trace
      fs') : Anchored d.root fs' trace := by
  intro t fh hopen
  have hmem := mem_opens hopen
  cases h with
  | unmade fs1 fs' now n _ _ => cases hmem
  | unopened fs1 fs2 fs3 fs' now u n _ _ _ _ => cases hmem
  | unwritten fs1 fs2 fs3 fs4 fs5 fs' now u fh' body r1 r2 _ _ hdraw hopened
      hwrite hclose _ =>
      cases List.mem_singleton.mp hmem
      rcases drawn_unnamed hdraw with ⟨htoken, _, _, htokens, _⟩
      refine ⟨u, ?_, slot.place_sidecarTmp htoken⟩
      apply step_tokens hclose
      apply step_tokens hwrite
      apply step_tokens hopened
      rw [htokens]
      exact List.mem_cons_self
  | written fs1 fs2 fs3 fs4 fs5 fs6 fs' now u fh' body r _ _ hdraw hopened
      hwrite hclose hmove =>
      cases List.mem_singleton.mp hmem
      rcases drawn_unnamed hdraw with ⟨htoken, _, _, htokens, _⟩
      refine ⟨u, ?_, slot.place_sidecarTmp htoken⟩
      apply step_tokens hmove
      apply step_tokens hclose
      apply step_tokens hwrite
      apply step_tokens hopened
      rw [htokens]
      exact List.mem_cons_self

theorem Course.anchored {o : Except Exn PutResult}
    (h : Course d slot (system allow).machine data contentType ifNoneMatch
      metadata fs trace o fs') : Anchored d.root fs' trace := by
  have hempty : Anchored d.root fs' [] := fun _ _ hopen => nomatch hopen
  cases h with
  | met fs0 fs' rest info _ _ hhead =>
      apply Anchored.skip (by rfl)
      exact anchored_of_looks (hhead.issues (head_looks d slot.bucket slot.key))
  | failed fs0 fs1 fs2 fs' u before main e r henters hdraw hstage hremove =>
      apply (anchored_of_looks henters.looks).append
      apply Anchored.skip (by rfl)
      apply (stage_anchored hdraw hstage fun w => step_tokens hremove).append
      exact hempty.skip (by rfl)
  | stored fs0 fs1 fs2 fs' u before main side acc henters hdraw hstage hside =>
      apply (anchored_of_looks henters.looks).append
      apply Anchored.skip (by rfl)
      apply (stage_anchored hdraw hstage fun w => runs_tokens hside).append
      exact (sidecar_course d slot hside).anchored

/-- How the litter of a turn is decided once and for all. -/
structure Disposed (fs : FileTree) (turn : MutationTurn settings) : Prop where
  anchored : Anchored d.root fs turn.trace
  decided : forall slot data contentType ifNoneMatch metadata,
    turn.tag = Mutation.put slot data contentType ifNoneMatch metadata ->
    (exists reply, turn.outcome = Except.ok reply) ->
    (Littered fs turn <-> SidecarAbandoned d slot turn.trace)

theorem Mutation.run_disposed {m : Mutation settings} {o : Except Exn Reply}
    (hrun : (system allow).machine.Runs fs (m.run d) trace o fs') :
    Disposed (d := d) fs' { tag := m, trace := trace, outcome := o } := by
  cases m with
  | put slot data contentType ifNoneMatch metadata =>
      rcases Machine.runs_map hrun with ⟨o', hput, rfl⟩
      have hcourse := put_course hput
      refine ⟨hcourse.anchored, ?_⟩
      intro _ _ _ _ _ htag hreturned
      rcases hreturned with ⟨reply, hreply⟩
      cases htag
      apply hcourse.littered_iff
      cases o' with
      | ok result => exact ⟨result, rfl⟩
      | error e => cases hreply
  | delete slot =>
      rcases Machine.runs_map hrun with ⟨o', hdelete, rfl⟩
      rcases delete_calls hdelete with ⟨r, r', rfl, _⟩
      constructor
      · have hempty : Anchored d.root fs' [] := fun _ _ hopen => nomatch hopen
        exact (hempty.skip (by rfl)).skip (by rfl)
      · intro _ _ _ _ _ htag
        cases htag

theorem Disposed.later {turn : MutationTurn settings} {m : Mutation settings}
    {o : Except Exn Reply} (h : Disposed (d := d) fs turn)
    (hrun : (system allow).machine.Runs fs (m.run d) trace o fs') :
    Disposed (d := d) fs' turn := by
  have hkeeps := m.run_keeps hrun
  constructor
  · intro t fh hopen
    rcases h.anchored t fh hopen with ⟨w, hw, hplace⟩
    exact ⟨w, runs_tokens hrun hw, hplace⟩
  · intro slot data contentType ifNoneMatch metadata htag hok
    rw [← h.decided slot data contentType ifNoneMatch metadata htag hok]
    have hsame : forall t fh,
        ⟨Call.openWrite t, Except.ok fh⟩ ∈ turn.trace ->
        (fs'.isFile (resolve t) = true <-> fs.isFile (resolve t) = true) := by
      intro t fh hopen
      rcases h.anchored t fh hopen with ⟨w, hw, hplace⟩
      exact hkeeps.isFile hrun hplace hw
    constructor
    · intro hleft
      rcases hleft with ⟨t, fh, hopen, hfile⟩
      exact ⟨t, fh, hopen, (hsame t fh hopen).mp hfile⟩
    · intro hleft
      rcases hleft with ⟨t, fh, hopen, hfile⟩
      exact ⟨t, fh, hopen, (hsame t fh hopen).mpr hfile⟩

/-- After every history, and however its calls fail, exactly those puts that
returned have left a file which abandoned their sidecar. -/
theorem littered_iff_abandoned {meets : FileTree -> MutationTurn settings -> Prop}
    {turns : List (MutationTurn settings)} {turn : MutationTurn settings}
    (h : Histories d allow meets fs turns fs') (hturn : turn ∈ turns)
    (htag : turn.tag =
      Mutation.put slot data contentType ifNoneMatch metadata)
    (hok : exists reply, turn.outcome = Except.ok reply) :
    Littered fs' turn <-> SidecarAbandoned d slot turn.trace := by
  have hdisposed : forall turn, turn ∈ turns -> Disposed (d := d) fs' turn := by
    refine History.invariant
      (I := fun turns s => forall turn, turn ∈ turns -> Disposed (d := d) s turn)
      ?_ ?_ h
    · intro turn hturn
      cases hturn
    · intro turns s1 tag trace o s2 hbefore hrun _ turn hturn
      rcases List.mem_append.mp hturn with hold | hnew
      · exact (hbefore turn hold).later hrun
      · rw [List.mem_singleton.mp hnew]
        exact tag.run_disposed hrun
  exact (hdisposed turn hturn).decided slot data contentType ifNoneMatch metadata
    htag hok

/-!
## A directory where a sidecar belongs
-/

def shadowSlot : Slot sampleSettings := sampleSlot "d.x.json/a.png"

def shadowed : List (MutationTurn sampleSettings) × FileTree :=
  (system noFault).replayFrom sampleChoice (Mutation.run sampleDriver)
    (fun _ _ => True) sampleTree [samplePut shadowSlot [[1, 2]]]

def shadowedPut : Mutation sampleSettings := samplePut folderSlot [[3]]

def shadowedTurn :
    Option (List (Sigma calls.Ret) × Except Exn Reply × FileTree) :=
  answerOf (shadowedPut.run sampleDriver) shadowed.2

def returned {α : Type} : Except Exn α -> Bool
  | Except.ok _ => true
  | Except.error _ => false

theorem exists_of_returned {α : Type} {o : Except Exn α}
    (h : returned o = true) : exists a, o = Except.ok a := by
  cases o with
  | ok a => exact ⟨a, rfl⟩
  | error e => cases h

theorem littered_of_opens {turn : MutationTurn settings}
    (h : (Machine.notes opens turn.trace).any
      (fun x => fs.isFile (resolve x.1)) = true) : Littered fs turn := by
  rcases List.any_eq_true.mp h with ⟨⟨t, fh⟩, hmem, hfile⟩
  rcases List.mem_flatMap.mp hmem with ⟨⟨c, r⟩, he, hopen⟩
  cases c with
  | openWrite t' =>
      cases r with
      | ok fh' =>
          cases List.mem_singleton.mp hopen
          exact ⟨t, fh, he, hfile⟩
      | error n => cases hopen
  | _ => cases hopen

theorem shadowedTurn_history
    {run : List (Sigma calls.Ret) × Except Exn Reply × FileTree}
    (h : shadowedTurn = some run) :
    Histories sampleDriver noFault (fun _ _ => True) sampleTree
      (shadowed.1 ++
        [{ tag := shadowedPut, trace := run.1, outcome := run.2.1 }])
      run.2.2 := by
  have hturns : Histories sampleDriver noFault (fun _ _ => True) sampleTree
      shadowed.1 shadowed.2 :=
    (system noFault).replayFrom_history _ _ _ _ _
  exact History.turn hturns (answerOf_runs h) trivial

theorem littered_iff_abandoned_shadowed :
    exists turns fs, exists turn : MutationTurn sampleSettings,
      Histories sampleDriver noFault (fun _ _ => True) sampleTree turns fs ∧
      turn ∈ turns ∧
      (Littered fs turn <->
        SidecarAbandoned sampleDriver folderSlot turn.trace) := by
  have hok : (shadowedTurn.map fun run => returned run.2.1) = some true := by
    decide +kernel
  rcases Option.map_eq_some_iff.mp hok with ⟨run, hrun, hreturned⟩
  refine ⟨_, _, { tag := shadowedPut, trace := run.1, outcome := run.2.1 },
    shadowedTurn_history hrun, by simp, ?_⟩
  apply littered_iff_abandoned (shadowedTurn_history hrun) (by simp) rfl
  exact exists_of_returned hreturned

/-- No call meets a device error, and a put that returned leaves a file. -/
theorem shadowedPut_litters :
    exists turns fs, exists turn : MutationTurn sampleSettings,
      Histories sampleDriver noFault (fun _ _ => True) sampleTree turns fs ∧
      turn ∈ turns ∧ turn.tag = shadowedPut ∧
      (exists reply, turn.outcome = Except.ok reply) ∧ Littered fs turn := by
  have hok : (shadowedTurn.map fun run => (returned run.2.1,
      (Machine.notes opens run.1).any
        fun x => run.2.2.isFile (resolve x.1))) = some (true, true) := by
    decide +kernel
  rcases Option.map_eq_some_iff.mp hok with ⟨run, hrun, hpair⟩
  rcases Prod.mk.inj hpair with ⟨hreturned, hany⟩
  exact ⟨_, _, { tag := shadowedPut, trace := run.1, outcome := run.2.1 },
    shadowedTurn_history hrun, by simp, rfl, exists_of_returned hreturned,
    littered_of_opens hany⟩

end StorybookStorage
