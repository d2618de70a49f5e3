import StorybookStorage.Effects.Diary
import StorybookStorage.Store.Moments

/-!
# Where a put stands

What a task has done so far tells whether it has drawn a token, whether its
staging file is still its own to move or remove, and whether that is over.  No
operation but a sweep touches a staging file of another task.
-/

namespace StorybookStorage

open Python Posix Effects

/-- The life of a staging file, seen by the put that makes it. -/
inductive Phase where
  | idle
  | drawn (u : Text)
  | staging (u : Text)
  | finished (u : Text)
deriving DecidableEq

namespace Phase

def token : Phase -> Option Text
  | idle => none
  | drawn u => some u
  | staging u => some u
  | finished u => some u

def next (root : Text) : Phase -> (c : Call) -> Call.Ret c -> Phase
  | idle, Call.uuid4, u => drawn u
  | drawn u, c, r =>
      if tmpLoc root u ∈ placesFile c r then staging u else drawn u
  | staging u, c, r =>
      if tmpLoc root u ∈ takesFile c r then finished u else staging u
  | phase, _, _ => phase

end Phase

def phaseOf (root : Text) (past : List (Sigma calls.Ret)) : Phase :=
  past.foldl (fun phase e => phase.next root e.1 e.2) Phase.idle

theorem phaseOf_concat (root : Text) (past : List (Sigma calls.Ret)) (c : Call)
    (r : Call.Ret c) :
    phaseOf root (past ++ [⟨c, r⟩]) = (phaseOf root past).next root c r := by
  unfold phaseOf
  rw [List.foldl_append]
  rfl

/-- A call that names no staging place. -/
def Away (root : Text) (c : Call) : Prop :=
  forall q, q ∈ c.names -> forall w, q ≠ tmpLoc root w

inductive PutCall (root : Text) (phase : Phase) : Call -> Prop where
  | away (c : Call) : Away root c -> PutCall root phase c
  | opens (u : Text) :
      phase = Phase.drawn u ->
      PutCall root phase (Call.openWrite (tmpText root u))
  | moves (u dst : Text) :
      phase = Phase.staging u ->
      (forall w, resolve dst ≠ tmpLoc root w) ->
      PutCall root phase (Call.rename (tmpText root u) dst)
  | removes (u : Text) :
      phase.token = some u ->
      PutCall root phase (Call.remove (tmpText root u))

def Answers : (c : Call) -> Call.Ret c -> Prop
  | Call.uuid4, u => IsToken u
  | _, _ => True

abbrev putDiary (root : Text) : Machine calls (List (Sigma calls.Ret)) :=
  diary (fun past c => PutCall root (phaseOf root past) c) Answers

section Steps

variable {root u : Text} {phase : Phase} {c : Call} {r : Call.Ret c}

theorem away_places (h : Away root c) (w : Text) : tmpLoc root w ∉ placesFile c r :=
  fun hw => h _ (placesFile_names hw) w rfl

theorem away_takes (h : Away root c) (w : Text) : tmpLoc root w ∉ takesFile c r :=
  fun hw => h _ (takesFile_names hw) w rfl

theorem next_away (h : Away root c) (hdrawn : phase.token ≠ none) :
    phase.next root c r = phase := by
  cases phase with
  | idle => exact absurd rfl hdrawn
  | drawn u => exact if_neg (away_places h u)
  | staging u => exact if_neg (away_takes h u)
  | finished u => rfl

theorem looks_away (h : Looks c) : Away root c := by
  intro q hq
  rw [looks_names h] at hq
  cases hq

theorem next_looks (h : Looks c) : phase.next root c r = phase := by
  cases phase with
  | idle => cases c <;> first | rfl | exact absurd h id
  | drawn u => exact next_away (looks_away h) nofun
  | staging u => exact next_away (looks_away h) nofun
  | finished u => rfl

theorem next_drawn : (Phase.drawn u).next root c r =
    if tmpLoc root u ∈ placesFile c r then Phase.staging u else Phase.drawn u :=
  rfl

theorem next_staging : (Phase.staging u).next root c r =
    if tmpLoc root u ∈ takesFile c r then Phase.finished u
    else Phase.staging u :=
  rfl

theorem next_token (h : phase.token = some u) :
    (phase.next root c r).token = some u := by
  cases phase with
  | idle => cases h
  | drawn v =>
      rw [next_drawn]
      split <;> exact h
  | staging v =>
      rw [next_staging]
      split <;> exact h
  | finished v => exact h

theorem token_concat {past : List (Sigma calls.Ret)}
    (h : (phaseOf root past).token = some u) :
    (phaseOf root (past ++ [⟨c, r⟩])).token = some u := by
  rw [phaseOf_concat]
  exact next_token h

theorem phase_placed {past : List (Sigma calls.Ret)}
    (h : phaseOf root past = Phase.drawn u) (hplaces : tmpLoc root u ∈ placesFile c r) :
    phaseOf root (past ++ [⟨c, r⟩]) = Phase.staging u := by
  rw [phaseOf_concat, h, next_drawn, if_pos hplaces]

theorem phase_away {past : List (Sigma calls.Ret)}
    (h : phaseOf root past = Phase.staging u) (haway : Away root c) :
    phaseOf root (past ++ [⟨c, r⟩]) = Phase.staging u := by
  rw [phaseOf_concat, h]
  exact next_away haway nofun

end Steps

/-!
## Every operation keeps to its diary
-/

section Diaries

variable {settings : Settings} {d : LocalFsBlobDriver} {slot : Slot settings}
  {α : Type} {l : List (Sigma calls.Ret)} {u : Text}

theorem wp_putDiary_looks {root : Text} {p : Io α} (hp : p.Issues Looks)
    {Q : Except Exn α -> List (Sigma calls.Ret) -> Prop}
    (h : forall o l', phaseOf root l' = phaseOf root l -> Q o l') :
    (putDiary root).wp p Q l := by
  have hkept : (putDiary root).wp p
      (fun _ l' => phaseOf root l' = phaseOf root l) l := by
    apply wp_diary_issues (I := fun l' => phaseOf root l' = phaseOf root l) hp
    · intro l' c _ hlooks
      exact PutCall.away c (looks_away hlooks)
    · intro l' c r hl' hlooks _
      rw [phaseOf_concat, next_looks hlooks, hl']
    · rfl
  exact Machine.wp_mono hkept h

theorem wp_putDiary_away {root : Text} {p : Io α} (hp : p.Issues (Away root))
    (hdrawn : (phaseOf root l).token = some u)
    {Q : Except Exn α -> List (Sigma calls.Ret) -> Prop}
    (h : forall o l', (phaseOf root l').token = some u -> Q o l') :
    (putDiary root).wp p Q l := by
  have hkept : (putDiary root).wp p
      (fun _ l' => (phaseOf root l').token = some u) l := by
    apply wp_diary_issues (I := fun l' => (phaseOf root l').token = some u) hp
    · intro l' c _ haway
      exact PutCall.away c haway
    · intro l' c r hl' _ _
      exact token_concat hl'
    · exact hdrawn
  exact Machine.wp_mono hkept h

theorem away_of_names {root : Text} {c : Call} (h : c.names = []) :
    Away root c := by
  intro q hq
  rw [h] at hq
  cases hq

theorem away_sidecarTmp {v : Text} (hv : IsToken v) :
    Away d.root (Call.openWrite (sidecarTmp (slot.sidecarText d.root) v)) := by
  intro q hq w
  rw [List.mem_singleton.mp hq]
  exact sidecarTmp_ne_tmpLoc hv w

theorem atomicWrite_away {v : Text} (hv : IsToken v) {body : Text} :
    Prog.Issues (S := calls) (Away d.root)
      (do
        let fh ← Os.openWrite (sidecarTmp (slot.sidecarText d.root) v)
        Prog.tryFinally (Os.write fh (encode body)) (Os.close fh)
        Os.rename (sidecarTmp (slot.sidecarText d.root) v)
          (slot.sidecarText d.root) : Io Unit) := by
  have haside : forall c : Call, c.names = [] ->
      Prog.Issues (S := calls) (Away d.root)
        (Prog.op (S := calls) c : Io (Call.Ret c)) :=
    fun c hc => issues_call c (away_of_names hc)
  apply (issues_raising (issues_call _ (away_sidecarTmp hv))).bind
  intro fh
  apply Prog.Issues.bind
  · exact (issues_raising (haside (Call.write fh _) rfl)).tryFinally
      (issues_raising (haside (Call.close fh) rfl))
  · intro _
    apply issues_raising
    apply issues_call (Call.rename _ _)
    intro q hq w
    rcases List.mem_cons.mp hq with rfl | hdst
    · exact sidecarTmp_ne_tmpLoc hv w
    · rw [List.mem_singleton.mp hdst]
      exact sidecarText_ne_tmpLoc w

theorem wp_putDiary_writeSidecar {contentType etag : Text} {size : Nat}
    {metadata : Metadata} (hdrawn : (phaseOf d.root l).token = some u) :
    (putDiary d.root).wp
      (d.writeSidecar slot.bucket slot.key contentType etag size metadata)
      (fun _ _ => True) l := by
  unfold LocalFsBlobDriver.writeSidecar
  rw [slot.metaPath_ok, Machine.wp_bind]
  apply wp_diary (PutCall.away Call.time (away_of_names rfl))
  intro now _
  dsimp only
  rw [Machine.wp_tryCatch]
  show (putDiary d.root).wp (Os.makedirs _ >>= fun _ => _) _ _
  rw [Machine.wp_bind]
  apply wp_raising
  apply wp_diary (PutCall.away (Call.makedirs _) (away_of_names rfl))
  intro made _
  cases made with
  | error e => trivial
  | ok _ =>
      show (putDiary d.root).wp (Os.uuid4 >>= fun _ => _) _ _
      rw [Machine.wp_bind]
      apply wp_diary (PutCall.away Call.uuid4 (away_of_names rfl))
      intro v hv
      apply wp_putDiary_away (atomicWrite_away hv)
        (token_concat (token_concat (token_concat hdrawn)))
      · intro o l' _
        cases o with
        | ok _ => trivial
        | error e => cases e <;> trivial

theorem wp_putDiary_stage {source : Source}
    {Q : Except Exn (d.platform.sha256.State × Nat) ->
      List (Sigma calls.Ret) -> Prop}
    (htoken : IsToken u) (hdrawn : phaseOf d.root l = Phase.drawn u)
    (h : forall o l', (phaseOf d.root l').token = some u -> Q o l') :
    (putDiary d.root).wp
      (d.stage (tmpText d.root u) (slot.objectText d.root) source) Q l := by
  have hplace : resolve (tmpText d.root u) = tmpLoc d.root u :=
    resolve_tmpText htoken
  unfold LocalFsBlobDriver.stage
  rw [Machine.wp_bind]
  apply wp_raising
  apply wp_diary (PutCall.opens u hdrawn)
  intro r _
  have htoken1 : (phaseOf d.root (l ++ [⟨Call.openWrite (tmpText d.root u), r⟩])).token =
      some u := token_concat (by rw [hdrawn]; rfl)
  cases r with
  | error e => exact h _ _ htoken1
  | ok fh =>
      have hstaging : phaseOf d.root
          (l ++ [⟨Call.openWrite (tmpText d.root u), Except.ok fh⟩]) =
            Phase.staging u := by
        apply phase_placed hdrawn
        show tmpLoc d.root u ∈ [resolve (tmpText d.root u)]
        rw [hplace]
        exact List.mem_singleton_self _
      show (putDiary d.root).wp (Prog.tryFinally _ _ >>= fun _ => _) Q _
      rw [Machine.wp_bind]
      have hfills : (Prog.tryFinally (d.receive fh source) (Os.close fh)).Issues
          Looks :=
        (receive_looks d).tryFinally (issues_raising (issues_call _ trivial))
      apply wp_putDiary_looks hfills
      intro o l1 hl1
      rw [hstaging] at hl1
      cases o with
      | error e => exact h _ l1 (by rw [hl1]; rfl)
      | ok acc =>
          show (putDiary d.root).wp (Os.makedirs _ >>= fun _ => _) Q l1
          rw [Machine.wp_bind]
          apply wp_raising
          apply wp_diary (PutCall.away (Call.makedirs _) (away_of_names rfl))
          intro made _
          have hl2 : phaseOf d.root (l1 ++ [⟨Call.makedirs
              (dirname (slot.objectText d.root)), made⟩]) = Phase.staging u :=
            phase_away hl1 (away_of_names rfl)
          cases made with
          | error e => exact h _ _ (by rw [hl2]; rfl)
          | ok _ =>
              show (putDiary d.root).wp (Os.rename _ _ >>= fun _ => _) Q _
              rw [Machine.wp_bind]
              apply wp_raising
              have haside : forall w, resolve (slot.objectText d.root) ≠
                  tmpLoc d.root w := by
                intro w
                rw [slot.resolve_objectText]
                exact tmpLoc_ne_objectLoc w
              apply wp_diary (PutCall.moves u _ hl2 haside)
              intro moved _
              have htoken2 : (phaseOf d.root
                  (l1 ++ [⟨Call.makedirs (dirname (slot.objectText d.root)), Except.ok ()⟩] ++
                    [⟨Call.rename (tmpText d.root u) (slot.objectText d.root), moved⟩])).token =
                      some u := token_concat (by rw [hl2]; rfl)
              cases moved with
              | error e => exact h _ _ htoken2
              | ok _ => exact h _ _ htoken2

theorem wp_putDiary_putBody {data : Data} {contentType : Text}
    {metadata : Option Metadata} (hidle : phaseOf d.root l = Phase.idle) :
    (putDiary d.root).wp (putBody d slot data contentType metadata)
      (fun _ _ => True) l := by
  unfold putBody
  show (putDiary d.root).wp (Os.uuid4 >>= fun _ => _) _ l
  rw [Machine.wp_bind]
  apply wp_diary (PutCall.away Call.uuid4 (away_of_names rfl))
  intro u hu
  have hdrawn : phaseOf d.root (l ++ [⟨Call.uuid4, u⟩]) = Phase.drawn u := by
    rw [phaseOf_concat, hidle]
    rfl
  show (putDiary d.root).wp (Prog.onError _ _ >>= fun _ => _) _ _
  rw [Machine.wp_bind, Machine.wp_onError, Machine.wp_tryCatch]
  apply wp_putDiary_stage hu hdrawn
  intro o l1 hl1
  cases o with
  | ok acc =>
      show (putDiary d.root).wp (d.writeSidecar _ _ _ _ _ _ >>= fun _ => _) _ l1
      rw [Machine.wp_bind]
      apply Machine.wp_mono (wp_putDiary_writeSidecar hl1)
      intro o _ _
      cases o <;> trivial
  | error e =>
      unfold safeUnlink
      show (putDiary d.root).wp (Prog.tryCatch _ _) _ l1
      rw [Machine.wp_tryCatch, Machine.wp_bind]
      apply wp_raising
      apply wp_diary (PutCall.removes u hl1)
      intro r _
      cases r <;> trivial

theorem put_diary {data : Data} {contentType : Text} {ifNoneMatch : Option Text}
    {metadata : Option Metadata} :
    (putDiary d.root).wp
      (d.put slot.bucket slot.key data contentType ifNoneMatch metadata)
      (fun _ _ => True) [] := by
  unfold LocalFsBlobDriver.put
  rw [slot.objectPath_ok]
  show (putDiary d.root).wp (if ifNoneMatch = some (text "*") then _ else _) _ []
  split
  · show (putDiary d.root).wp
      (Os.pathExists (slot.objectText d.root) >>= fun _ => _) _ []
    rw [Machine.wp_bind]
    apply wp_diary (PutCall.away (Call.pathExists _) (away_of_names rfl))
    intro there _
    cases there with
    | false => exact wp_putDiary_putBody rfl
    | true =>
        show (putDiary d.root).wp (d.head _ _ >>= fun _ => _) _ _
        rw [Machine.wp_bind]
        apply wp_putDiary_looks (head_looks d slot.bucket slot.key)
        intro o l' _
        cases o <;> trivial
  · exact wp_putDiary_putBody rfl

end Diaries

end StorybookStorage
