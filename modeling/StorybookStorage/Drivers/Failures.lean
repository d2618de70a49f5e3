import StorybookStorage.Drivers.Methods

/-!
# The calls of a put

A put that met nothing draws a token, stages its body under it and either
removes what it staged or goes on to the sidecar.  Which exception staging ends
with can be told from the failures among its calls alone, on any machine.
-/

namespace StorybookStorage

open Python Posix Effects

/-!
## Failures
-/

def callErrno : (c : Call) -> Call.Ret c -> List Errno
  | Call.openWrite _, Except.error n => [n]
  | Call.write _ _, Except.error n => [n]
  | Call.flush _, Except.error n => [n]
  | Call.fsync _, Except.error n => [n]
  | Call.close _, Except.error n => [n]
  | Call.makedirs _, Except.error n => [n]
  | Call.rename _ _, Except.error n => [n]
  | _, _ => []

abbrev ledger : Machine calls (List Errno) := Machine.noting callErrno

def failures (trace : List (Sigma calls.Ret)) : List Errno :=
  Machine.notes callErrno trace

def answerErrno {α : Type} : Except Errno α -> List Errno
  | Except.ok _ => []
  | Except.error n => [n]

theorem wp_noted {c : Call}
    {Q : Except Exn (Call.Ret c) -> List Errno -> Prop} {l : List Errno}
    (h : forall r, Q (Except.ok r) (l ++ callErrno c r)) :
    ledger.wp (Prog.op (S := calls) c) Q l :=
  (Machine.wp_noting_op (S := calls) c Q l).mpr h

theorem wp_recorded {α : Type} {p : Io (Except Errno α)}
    {Q : Except Exn α -> List Errno -> Prop} {l : List Errno}
    (hcall : forall Q' : Except Exn (Except Errno α) -> List Errno -> Prop,
      (forall r, Q' (Except.ok r) (l ++ answerErrno r)) -> ledger.wp p Q' l)
    (hok : forall a, Q (Except.ok a) l)
    (herr : forall n, Q (Except.error (Exn.os n)) (l ++ [n])) :
    ledger.wp (raising p) Q l := by
  apply wp_raising
  apply hcall
  intro r
  cases r with
  | ok a =>
      show Q (Except.ok a) (l ++ [])
      rw [List.append_nil]
      exact hok a
  | error n => exact herr n

section Calls

variable {l : List Errno}

theorem wp_recorded_openWrite {t : Text}
    {Q : Except Exn Nat -> List Errno -> Prop}
    (hok : forall fh, Q (Except.ok fh) l)
    (herr : forall n, Q (Except.error (Exn.os n)) (l ++ [n])) :
    ledger.wp (Os.openWrite t) Q l := by
  apply wp_recorded _ hok herr
  intro Q' h
  apply wp_noted (c := Call.openWrite t)
  intro r
  cases r <;> exact h _

variable {Q : Except Exn Unit -> List Errno -> Prop}
  (hok : forall u, Q (Except.ok u) l)
  (herr : forall n, Q (Except.error (Exn.os n)) (l ++ [n]))

include hok herr

theorem wp_recorded_write {fh : Nat} {chunk : Bytes} :
    ledger.wp (Os.write fh chunk) Q l := by
  apply wp_recorded _ hok herr
  intro Q' h
  apply wp_noted (c := Call.write fh chunk)
  intro r
  cases r <;> exact h _

theorem wp_recorded_flush {fh : Nat} : ledger.wp (Os.flush fh) Q l := by
  apply wp_recorded _ hok herr
  intro Q' h
  apply wp_noted (c := Call.flush fh)
  intro r
  cases r <;> exact h _

theorem wp_recorded_fsync {fh : Nat} : ledger.wp (Os.fsync fh) Q l := by
  apply wp_recorded _ hok herr
  intro Q' h
  apply wp_noted (c := Call.fsync fh)
  intro r
  cases r <;> exact h _

theorem wp_recorded_close {fh : Nat} : ledger.wp (Os.close fh) Q l := by
  apply wp_recorded _ hok herr
  intro Q' h
  apply wp_noted (c := Call.close fh)
  intro r
  cases r <;> exact h _

theorem wp_recorded_makedirs {t : Text} : ledger.wp (Os.makedirs t) Q l := by
  apply wp_recorded _ hok herr
  intro Q' h
  apply wp_noted (c := Call.makedirs t)
  intro r
  cases r <;> exact h _

theorem wp_recorded_rename {src dst : Text} :
    ledger.wp (Os.rename src dst) Q l := by
  apply wp_recorded _ hok herr
  intro Q' h
  apply wp_noted (c := Call.rename src dst)
  intro r
  cases r <;> exact h _

end Calls

section Staging

variable (d : LocalFsBlobDriver)
  {Q : Except Exn (d.platform.sha256.State × Nat) -> List Errno -> Prop}

theorem wp_recorded_writeChunks {fh : Nat} (chunks : List Bytes)
    (acc : d.platform.sha256.State × Nat) {l : List Errno}
    (hok : forall acc, Q (Except.ok acc) l)
    (herr : forall n, Q (Except.error (Exn.os n)) (l ++ [n])) :
    ledger.wp (d.writeChunks fh chunks acc) Q l := by
  induction chunks generalizing acc with
  | nil => exact hok acc
  | cons chunk rest ih =>
      unfold LocalFsBlobDriver.writeChunks
      rw [Machine.wp_bind]
      apply wp_recorded_write
      · intro _
        exact ih _
      · exact herr

theorem wp_recorded_receive {fh : Nat} {source : Source} {l : List Errno}
    (hok : source.ending = none -> forall acc, Q (Except.ok acc) l)
    (hsource : forall e, source.ending = some e -> Q (Except.error e) l)
    (herr : forall n, Q (Except.error (Exn.os n)) (l ++ [n])) :
    ledger.wp (d.receive fh source) Q l := by
  unfold LocalFsBlobDriver.receive
  rw [Machine.wp_bind]
  apply wp_recorded_writeChunks
  · intro acc
    cases hend : source.ending with
    | some e => exact hsource e hend
    | none =>
        show ledger.wp (Os.flush fh >>= fun _ => _) Q l
        rw [Machine.wp_bind]
        apply wp_recorded_flush
        · intro _
          show ledger.wp (Os.fsync fh >>= fun _ => _) Q l
          rw [Machine.wp_bind]
          apply wp_recorded_fsync
          · intro _
            exact hok hend acc
          · exact herr
        · exact herr
  · exact herr

/-- Staging raises the last failure, or what the source raised if there is
none. -/
theorem wp_recorded_stage {tmp dest : Text} {source : Source} {l : List Errno}
    (hok : source.ending = none -> forall acc, Q (Except.ok acc) l)
    (hsource : forall e, source.ending = some e -> Q (Except.error e) l)
    (herr : forall l' n, Q (Except.error (Exn.os n)) (l ++ l' ++ [n])) :
    ledger.wp (d.stage tmp dest source) Q l := by
  have hlast : forall n, Q (Except.error (Exn.os n)) (l ++ [n]) := by
    intro n
    have h := herr [] n
    rwa [List.append_nil] at h
  unfold LocalFsBlobDriver.stage
  rw [Machine.wp_bind]
  apply wp_recorded_openWrite
  · intro fh
    show ledger.wp (Prog.tryFinally _ _ >>= fun _ => _) Q l
    rw [Machine.wp_bind, Machine.wp_tryFinally]
    apply wp_recorded_receive
    · intro hend acc
      apply wp_recorded_close
      · intro _
        show ledger.wp (Os.makedirs _ >>= fun _ => _) Q l
        rw [Machine.wp_bind]
        apply wp_recorded_makedirs
        · intro _
          show ledger.wp (Os.rename _ _ >>= fun _ => _) Q l
          rw [Machine.wp_bind]
          apply wp_recorded_rename
          · intro _
            exact hok hend acc
          · exact hlast
        · exact hlast
      · exact hlast
    · intro e hend
      apply wp_recorded_close
      · intro _
        exact hsource e hend
      · exact hlast
    · intro n
      apply wp_recorded_close
      · intro _
        exact hlast n
      · intro n'
        exact herr [n] n'
  · exact hlast

variable {d} {M : Machine calls FileTree} {fs fs' : FileTree}
  {trace : List (Sigma calls.Ret)} {tmp dest : Text} {source : Source}

inductive Staged (source : Source) (trace : List (Sigma calls.Ret)) :
    Except Exn (d.platform.sha256.State × Nat) -> Prop where
  | done (acc : d.platform.sha256.State × Nat) :
      source.ending = none ->
      failures trace = [] ->
      Staged source trace (Except.ok acc)
  | source (e : Exn) :
      source.ending = some e ->
      failures trace = [] ->
      Staged source trace (Except.error e)
  | failed (before : List Errno) (n : Errno) :
      failures trace = before ++ [n] ->
      Staged source trace (Except.error (Exn.os n))

theorem stage_failures {o : Except Exn (d.platform.sha256.State × Nat)}
    (hrun : M.Runs fs (d.stage tmp dest source) trace o fs') :
    Staged source trace o := by
  have hnoted := Machine.noted (f := callErrno)
    (Q := fun o l => l = failures trace -> Staged source trace o) ?_ hrun
  · exact hnoted rfl
  · apply wp_recorded_stage
    · intro hend acc hl
      exact Staged.done acc hend hl.symm
    · intro e hend hl
      exact Staged.source e hend hl.symm
    · intro before n hl
      exact Staged.failed before n hl.symm

end Staging

/-!
## Looking at an object
-/

section Looking

variable (d : LocalFsBlobDriver) {l : List Errno}

theorem wp_unrecorded {c : Call}
    {Q : Except Exn (Call.Ret c) -> List Errno -> Prop}
    (hc : forall r, callErrno c r = []) (h : forall r, Q (Except.ok r) l) :
    ledger.wp (Prog.op (S := calls) c) Q l := by
  apply wp_noted
  intro r
  rw [hc, List.append_nil]
  exact h r

theorem wp_recorded_readWhole {α : Type} {t : Text} {f : Bytes -> Io α}
    {r : Bytes -> Except Exn α} (hf : forall b, f b = Prog.ofExcept (r b))
    {Q : Except Exn α -> List Errno -> Prop}
    (hread : forall b, Q (r b) l)
    (herr : forall n l', Q (Except.error (Exn.os n)) l') :
    ledger.wp
      (Os.openRead t >>= fun fh =>
        Prog.tryFinally (Os.read fh none >>= f) (Os.close fh)) Q l := by
  rw [Machine.wp_bind]
  apply wp_raising
  apply wp_unrecorded (c := Call.openRead t) fun _ => rfl
  intro opened
  cases opened with
  | error n => exact herr n l
  | ok fh =>
      show ledger.wp (Prog.tryFinally _ _) Q l
      rw [Machine.wp_tryFinally, Machine.wp_bind]
      apply wp_raising
      apply wp_unrecorded (c := Call.read fh none) fun _ => rfl
      intro got
      cases got with
      | error n =>
          apply wp_recorded_close
          · intro _
            exact herr n l
          · intro n'
            exact herr n' _
      | ok b =>
          show ledger.wp (f b) _ l
          rw [hf, Machine.wp_ofExcept]
          apply wp_recorded_close
          · intro _
            exact hread b
          · intro n
            exact herr n _

theorem wp_recorded_safeStat {t : Text}
    {Q : Except Exn (Option Stat) -> List Errno -> Prop}
    (h : forall st, Q (Except.ok st) l) : ledger.wp (safeStat t) Q l := by
  unfold safeStat
  rw [Machine.wp_tryCatch, Machine.wp_bind]
  apply wp_raising
  apply wp_unrecorded (c := Call.stat t) fun _ => rfl
  intro answer
  cases answer with
  | error n => exact h none
  | ok st =>
      show ledger.wp (Os.isfile t >>= fun _ => _) _ l
      rw [Machine.wp_bind]
      apply wp_unrecorded (c := Call.isfile t) fun _ => rfl
      intro regular
      exact h _

theorem wp_recorded_readSidecar {bucket key : Text}
    {Q : Except Exn (Option Json) -> List Errno -> Prop}
    (hsome : forall v, Q (Except.ok (some v)) l)
    (hnone : forall l', Q (Except.ok none) l')
    (herr : forall e, Q (Except.error e) l) :
    ledger.wp (d.readSidecar bucket key) Q l := by
  unfold LocalFsBlobDriver.readSidecar safeReadText
  rw [Machine.wp_tryCatch, Machine.wp_bind, Machine.wp_ofExcept]
  cases metaPath d.root bucket key with
  | error e =>
      cases e <;> first | exact hnone l | exact herr _
  | ok mp =>
      show ledger.wp (Prog.tryCatch _ _ >>= fun _ => _) _ l
      rw [Machine.wp_bind, Machine.wp_tryCatch]
      apply wp_recorded_readWhole (r := fun raw =>
        (decode raw).elim (Except.error Exn.unicodeDecodeError)
          (fun t => Except.ok (some t)))
      · intro raw
        cases decode raw <;> rfl
      · intro raw
        cases decode raw with
        | none => exact herr _
        | some t =>
            dsimp only [Option.elim]
            cases d.platform.json.loads t with
            | ok v => exact hsome v
            | error e => exact hnone l
      · intro n l'
        cases n <;> exact hnone l'

theorem wp_recorded_head {bucket key : Text}
    {Q : Except Exn (Option ObjectInfo) -> List Errno -> Prop}
    (hok : forall info l', Q (Except.ok info) l')
    (herr : forall e, Q (Except.error e) l) :
    ledger.wp (d.head bucket key) Q l := by
  unfold LocalFsBlobDriver.head
  rw [Machine.wp_bind, Machine.wp_ofExcept]
  cases objectPath d.root bucket key with
  | error e => exact herr e
  | ok dest =>
      show ledger.wp (safeStat dest >>= fun _ => _) _ l
      rw [Machine.wp_bind]
      apply wp_recorded_safeStat
      intro stat
      cases stat with
      | none => exact hok none l
      | some st =>
          have hetag : forall l', ledger.wp
              (d.etagFromFile dest st.size >>= fun etag =>
                pure
                  (some
                    { key := key
                      bytes := st.size
                      contentType := Json.str (d.guessMime key)
                      etag := Json.str etag
                      modifiedAt := d.platform.isoformat st.mtime
                      metadata := Json.obj [] })) Q l' := by
            intro l'
            rw [Machine.wp_bind]
            unfold LocalFsBlobDriver.etagFromFile
            split
            · exact hok _ l'
            · rw [Machine.wp_tryCatch]
              apply wp_recorded_readWhole
                (r := fun b => Except.ok (d.platform.sha256.digest b))
              · intro b
                rfl
              · intro b
                exact hok _ l'
              · intro n l''
                exact hok _ l''
          show ledger.wp (d.readSidecar bucket key >>= fun _ => _) Q l
          rw [Machine.wp_bind]
          apply wp_recorded_readSidecar
          · intro v
            cases hv : (some v).filter Json.truthy with
            | none =>
                dsimp only
                rw [hv]
                exact hetag l
            | some j =>
                dsimp only
                rw [hv]
                show ledger.wp (Prog.ofExcept _ >>= fun _ => _) Q l
                rw [Machine.wp_bind, Machine.wp_ofExcept]
                cases d.infoOfSidecar key st (d.platform.isoformat st.mtime) j with
                | error e => exact herr e
                | ok info => exact hok _ l
          · intro l'
            exact hetag l'
          · intro e
            exact herr e

variable {d} {M : Machine calls FileTree} {fs fs' : FileTree}

theorem head_failures {bucket key : Text} {trace : List (Sigma calls.Ret)}
    {e : Exn}
    (hrun : M.Runs fs (d.head bucket key) trace (Except.error e) fs') :
    failures trace = [] := by
  have hnoted := Machine.noted (f := callErrno)
    (Q := fun o l => (exists e, o = Except.error e) -> l = []) ?_ hrun
  · exact hnoted ⟨e, rfl⟩
  · apply wp_recorded_head
    · intro info l' h
      rcases h with ⟨e, he⟩
      cases he
    · intro e h
      rfl

end Looking

/-!
## The calls each part can make
-/

/-- Calls that neither change a name of the tree nor draw a token. -/
def Looks : Call -> Prop
  | Call.uuid4 => False
  | Call.openWrite _ => False
  | Call.makedirs _ => False
  | Call.rename _ _ => False
  | Call.remove _ => False
  | _ => True

inductive StagingCall (tmp dest : Text) : Call -> Prop where
  | opens : StagingCall tmp dest (Call.openWrite tmp)
  | fills (c : Call) : Looks c -> StagingCall tmp dest c
  | makes : StagingCall tmp dest (Call.makedirs (dirname dest))
  | moves : StagingCall tmp dest (Call.rename tmp dest)

section Issues

variable {α : Type} {P : Call -> Prop}

theorem issues_call (c : Call) (h : P c) :
    Prog.Issues (S := calls) P (Prog.op (S := calls) c : Io (Call.Ret c)) :=
  Prog.issues_op h

theorem issues_raising {p : Io (Except Errno α)}
    (hp : Prog.Issues (S := calls) P p) :
    Prog.Issues (S := calls) P (raising p) := by
  apply hp.bind
  intro r
  cases r with
  | ok a => exact Prog.issues_pure a
  | error n => exact Prog.issues_raise _

theorem issues_checked {β : Type} {r : Except Exn α} {f : α -> Io β}
    (h : forall a, r = Except.ok a -> Prog.Issues (S := calls) P (f a)) :
    Prog.Issues (S := calls) P (Prog.ofExcept r >>= f) := by
  cases r with
  | ok a => exact h a rfl
  | error e => exact Prog.issues_raise e

structure OnHandles (P : Call -> Prop) : Prop where
  read : forall fh limit, P (Call.read fh limit)
  write : forall fh chunk, P (Call.write fh chunk)
  flush : forall fh, P (Call.flush fh)
  fsync : forall fh, P (Call.fsync fh)
  close : forall fh, P (Call.close fh)

structure OnPath (P : Call -> Prop) (t : Text) : Prop where
  stat : P (Call.stat t)
  isfile : P (Call.isfile t)
  openRead : P (Call.openRead t)

theorem looks_onHandles : OnHandles Looks where
  read := fun _ _ => trivial
  write := fun _ _ => trivial
  flush := fun _ => trivial
  fsync := fun _ => trivial
  close := fun _ => trivial

theorem looks_onPath (t : Text) : OnPath Looks t where
  stat := trivial
  isfile := trivial
  openRead := trivial

variable (d : LocalFsBlobDriver)

section Reading

variable {t : Text} (ht : OnPath P t) (hfd : OnHandles P)

include ht

theorem safeStat_issues : Prog.Issues (S := calls) P (safeStat t) := by
  apply Prog.Issues.tryCatch
  · apply (issues_raising (issues_call (Call.stat t) ht.stat)).bind
    intro st
    apply (issues_call (Call.isfile t) ht.isfile).bind
    intro regular
    exact Prog.issues_pure _
  · intro e
    split
    · exact Prog.issues_pure none
    · exact Prog.issues_raise _

include hfd

theorem readWhole_issues {f : Bytes -> Io α}
    (hf : forall b, Prog.Issues (S := calls) P (f b)) :
    Prog.Issues (S := calls) P (Os.openRead t >>= fun fh =>
      Prog.tryFinally (Os.read fh none >>= f) (Os.close fh)) := by
  apply (issues_raising (issues_call (Call.openRead t) ht.openRead)).bind
  intro fh
  apply Prog.Issues.tryFinally
  · exact (issues_raising
      (issues_call (Call.read fh none) (hfd.read fh none))).bind hf
  · exact issues_raising (issues_call (Call.close fh) (hfd.close fh))

theorem safeReadText_issues : Prog.Issues (S := calls) P (safeReadText t) := by
  apply Prog.Issues.tryCatch
  · apply readWhole_issues ht hfd
    intro raw
    split
    · exact Prog.issues_pure _
    · exact Prog.issues_raise _
  · intro e
    unfold missingAsNone
    split
    · exact Prog.issues_pure none
    · exact Prog.issues_raise _

theorem etagFromFile_issues (size : Nat) :
    Prog.Issues (S := calls) P (d.etagFromFile t size) := by
  unfold LocalFsBlobDriver.etagFromFile
  split
  · exact Prog.issues_pure _
  · apply Prog.Issues.tryCatch
    · apply readWhole_issues ht hfd
      intro b
      exact Prog.issues_pure _
    · intro e
      split
      · exact Prog.issues_pure _
      · exact Prog.issues_raise _

end Reading

theorem readSidecar_issues (hfd : OnHandles P) {bucket key : Text}
    (hside : forall t, metaPath d.root bucket key = Except.ok t -> OnPath P t) :
    Prog.Issues (S := calls) P (d.readSidecar bucket key) := by
  apply Prog.Issues.tryCatch
  · apply issues_checked
    intro mp hmp
    apply (safeReadText_issues (hside mp hmp) hfd).bind
    intro raw
    cases raw with
    | none => exact Prog.issues_pure none
    | some t =>
        dsimp only
        split
        · exact Prog.issues_pure _
        · exact Prog.issues_raise _
  · intro e
    split
    · exact Prog.issues_pure none
    · exact Prog.issues_pure none
    · exact Prog.issues_raise _

theorem head_issues (hfd : OnHandles P) {bucket key : Text}
    (hobject : forall t, objectPath d.root bucket key = Except.ok t -> OnPath P t)
    (hside : forall t, metaPath d.root bucket key = Except.ok t -> OnPath P t) :
    Prog.Issues (S := calls) P (d.head bucket key) := by
  apply issues_checked
  intro dest hdest
  apply (safeStat_issues (hobject dest hdest)).bind
  intro stat
  cases stat with
  | none => exact Prog.issues_pure none
  | some st =>
      apply (readSidecar_issues d hfd hside).bind
      intro sidecar
      split
      · apply (Prog.issues_ofExcept _).bind
        intro info
        exact Prog.issues_pure _
      · apply (etagFromFile_issues d (hobject dest hdest) hfd st.size).bind
        intro etag
        exact Prog.issues_pure _

theorem head_looks (bucket key : Text) :
    (d.head bucket key).Issues Looks :=
  head_issues d looks_onHandles (fun t _ => looks_onPath t)
    fun t _ => looks_onPath t

theorem pull_looks (fh : Nat) :
    (LocalFsBlobDriver.Stream.pull fh).Issues Looks := by
  have hcloses : (Os.close fh).Issues Looks :=
    issues_raising (issues_call (Call.close fh) trivial)
  apply Prog.Issues.bind
  · exact (issues_raising
      (issues_call (Call.read fh (some chunkSize)) trivial)).onError hcloses
  · intro chunk
    split
    · exact hcloses.bind fun _ => Prog.issues_pure _
    · exact Prog.issues_pure _

theorem consume_looks (pulls : Nat) (stream : LocalFsBlobDriver.Stream)
    (got : Bytes) : (stream.consume pulls got).Issues Looks := by
  induction pulls generalizing stream got with
  | zero =>
      cases stream with
      | fresh path => exact Prog.issues_pure _
      | reading fh =>
          exact (issues_raising (issues_call (Call.close fh) trivial)).bind
            fun _ => Prog.issues_pure _
      | finished => exact Prog.issues_pure _
  | succ pulls ih =>
      have hnext : stream.next.Issues Looks := by
        cases stream with
        | fresh path =>
            exact (issues_raising
              (issues_call (Call.openRead path) trivial)).bind
                fun fh => pull_looks fh
        | reading fh => exact pull_looks fh
        | finished => exact Prog.issues_pure _
      unfold LocalFsBlobDriver.Stream.consume
      apply hnext.bind
      intro turn
      rcases turn with ⟨chunk, stream'⟩
      cases chunk with
      | none => exact Prog.issues_pure _
      | some b => exact ih stream' _

theorem fetch_looks (bucket key : Text) (pulls : Nat) :
    (d.fetch bucket key pulls).Issues Looks := by
  have hget : (d.get bucket key).Issues Looks := by
    apply (Prog.issues_ofExcept _).bind
    intro dest
    apply (issues_call (Call.isfile dest) trivial).bind
    intro there
    exact Prog.issues_pure _
  apply hget.bind
  intro found
  cases found with
  | none => exact Prog.issues_pure _
  | some stream =>
      exact (consume_looks pulls stream []).bind fun _ => Prog.issues_pure _

theorem writeChunks_issues (hfd : OnHandles P) {fh : Nat} (chunks : List Bytes)
    (acc : d.platform.sha256.State × Nat) :
    Prog.Issues (S := calls) P (d.writeChunks fh chunks acc) := by
  induction chunks generalizing acc with
  | nil => exact Prog.issues_pure acc
  | cons chunk rest ih =>
      apply (issues_raising
        (issues_call (Call.write fh chunk) (hfd.write fh chunk))).bind
      intro _
      exact ih _

theorem receive_issues (hfd : OnHandles P) {fh : Nat} {source : Source} :
    Prog.Issues (S := calls) P (d.receive fh source) := by
  apply (writeChunks_issues d hfd source.chunks _).bind
  intro acc
  cases source.ending with
  | some e => exact Prog.issues_raise e
  | none =>
      apply (issues_raising (issues_call (Call.flush fh) (hfd.flush fh))).bind
      intro _
      apply (issues_raising (issues_call (Call.fsync fh) (hfd.fsync fh))).bind
      intro _
      exact Prog.issues_pure acc

theorem receive_looks {fh : Nat} {source : Source} :
    (d.receive fh source).Issues Looks :=
  receive_issues d looks_onHandles

theorem stage_issues (hfd : OnHandles P) {tmp dest : Text} {source : Source}
    (hopens : P (Call.openWrite tmp)) (hmakes : P (Call.makedirs (dirname dest)))
    (hmoves : P (Call.rename tmp dest)) :
    Prog.Issues (S := calls) P (d.stage tmp dest source) := by
  apply (issues_raising (issues_call (Call.openWrite tmp) hopens)).bind
  intro fh
  have hcloses : Prog.Issues (S := calls) P (Os.close fh) :=
    issues_raising (issues_call (Call.close fh) (hfd.close fh))
  apply ((receive_issues d hfd).tryFinally hcloses).bind
  intro acc
  apply (issues_raising (issues_call (Call.makedirs (dirname dest)) hmakes)).bind
  intro _
  apply (issues_raising (issues_call (Call.rename tmp dest) hmoves)).bind
  intro _
  exact Prog.issues_pure acc

theorem stage_calls {tmp dest : Text} {source : Source} :
    (d.stage tmp dest source).Issues (StagingCall tmp dest) := by
  apply stage_issues d _ StagingCall.opens StagingCall.makes StagingCall.moves
  constructor
  · exact fun _ _ => StagingCall.fills _ trivial
  · exact fun _ _ => StagingCall.fills _ trivial
  · exact fun _ => StagingCall.fills _ trivial
  · exact fun _ => StagingCall.fills _ trivial
  · exact fun _ => StagingCall.fills _ trivial

end Issues

/-!
## The course of a put
-/

section Course

variable {settings : Settings} (d : LocalFsBlobDriver) (slot : Slot settings)

def tmpText (root u : Text) : Text := join (join root tmpDir) u

theorem wp_recorded_atomicWriteText {path body : Text} {l : List Errno}
    {Q : Except Exn Unit -> List Errno -> Prop}
    (hok : forall l', Q (Except.ok ()) l')
    (herr : forall n l', Q (Except.error (Exn.os n)) l') :
    ledger.wp (atomicWriteText path body) Q l := by
  unfold atomicWriteText
  rw [Machine.wp_bind]
  apply wp_noted (c := Call.uuid4)
  intro token
  show ledger.wp (Os.openWrite _ >>= fun _ => _) Q _
  rw [Machine.wp_bind]
  apply wp_recorded_openWrite
  · intro fh
    have hrename : forall l', ledger.wp
        (Os.rename (sidecarTmp path token) path) Q l' := by
      intro l'
      apply wp_recorded_rename
      · intro _
        exact hok _
      · intro n
        exact herr n _
    show ledger.wp (Prog.tryFinally _ _ >>= fun _ => _) Q _
    rw [Machine.wp_bind, Machine.wp_tryFinally]
    apply wp_recorded_write
    · intro _
      apply wp_recorded_close
      · intro _
        exact hrename _
      · intro n
        exact herr n _
    · intro n
      apply wp_recorded_close
      · intro _
        exact herr n _
      · intro n'
        exact herr n' _
  · intro n
    exact herr n _

/-- Whatever fails, writing the sidecar raises nothing. -/
theorem writeSidecar_returns {M : Machine calls FileTree} {fs fs' : FileTree}
    {trace : List (Sigma calls.Ret)} {contentType etag : Text} {size : Nat}
    {metadata : Metadata} {o : Except Exn Unit}
    (hrun : M.Runs fs
      (d.writeSidecar slot.bucket slot.key contentType etag size metadata) trace
      o fs') : o = Except.ok () := by
  apply Machine.noted (f := callErrno) (Q := fun o _ => o = Except.ok ()) _
    hrun
  unfold LocalFsBlobDriver.writeSidecar
  rw [slot.metaPath_ok, Machine.wp_bind]
  apply wp_noted (c := Call.time)
  intro now
  dsimp only
  rw [Machine.wp_tryCatch]
  show ledger.wp (Os.makedirs _ >>= fun _ => _) _ _
  rw [Machine.wp_bind]
  apply wp_recorded_makedirs
  · intro _
    apply wp_recorded_atomicWriteText
    · intro l'
      rfl
    · intro n l'
      rfl
  · intro n
    rfl

/-!
## The course of staging and of a sidecar
-/

theorem stage_done {M : Machine calls FileTree} {fs fs' : FileTree}
    {tmp dest : Text} {source : Source} {trace : List (Sigma calls.Ret)}
    {acc : d.platform.sha256.State × Nat}
    (hrun : M.Runs fs (d.stage tmp dest source) trace (Except.ok acc) fs') :
    exists fs1 early, M.Step fs1 (Call.rename tmp dest) (Except.ok ()) fs' ∧
      trace = early ++ [⟨Call.rename tmp dest, Except.ok ()⟩] := by
  rcases Machine.runs_bind hrun with
    ⟨fh, s1, t1, t2, _, hfill, rfl⟩ | ⟨e, _, ho⟩
  · rcases Machine.runs_bind hfill with
      ⟨acc', s2, t3, t4, _, hmake, rfl⟩ | ⟨e, _, ho⟩
    · rcases Machine.runs_bind hmake with
        ⟨_, s3, t5, t6, _, hmove, rfl⟩ | ⟨e, _, ho⟩
      · change M.Runs s3 (Prog.call (S := calls) (Call.rename tmp dest) _) t6 _
          fs' at hmove
        cases hmove with
        | @call _ s4 _ _ r _ t7 _ hstep hrest =>
            cases r with
            | ok _ =>
                cases hrest
                exact ⟨s3, t1 ++ (t3 ++ t5), hstep, by simp⟩
            | error n => cases hrest
      · cases ho
    · cases ho
  · cases ho

theorem both_ok_or_failed (r1 r2 : Except Errno Unit) :
    (r1 = Except.ok () ∧ r2 = Except.ok ()) ∨
      exists n, r1 = Except.error n ∨ r2 = Except.error n := by
  cases r1 with
  | error n => exact Or.inr ⟨n, Or.inl rfl⟩
  | ok _ =>
      cases r2 with
      | error n => exact Or.inr ⟨n, Or.inr rfl⟩
      | ok _ => exact Or.inl ⟨rfl, rfl⟩

inductive SidecarCourse (M : Machine calls FileTree) (path : Text)
    (fs : FileTree) : List (Sigma calls.Ret) -> FileTree -> Prop where
  | unmade (fs1 fs' : FileTree) (now : Rat) (n : Errno) :
      M.Step fs Call.time now fs1 ->
      M.Step fs1 (Call.makedirs (dirname path)) (Except.error n) fs' ->
      SidecarCourse M path fs
        [⟨Call.time, now⟩, ⟨Call.makedirs (dirname path), Except.error n⟩] fs'
  | unopened (fs1 fs2 fs3 fs' : FileTree) (now : Rat) (u : Text) (n : Errno) :
      M.Step fs Call.time now fs1 ->
      M.Step fs1 (Call.makedirs (dirname path)) (Except.ok ()) fs2 ->
      M.Step fs2 Call.uuid4 u fs3 ->
      M.Step fs3 (Call.openWrite (sidecarTmp path u)) (Except.error n) fs' ->
      SidecarCourse M path fs
        [⟨Call.time, now⟩, ⟨Call.makedirs (dirname path), Except.ok ()⟩,
          ⟨Call.uuid4, u⟩,
          ⟨Call.openWrite (sidecarTmp path u), Except.error n⟩] fs'
  | unwritten (fs1 fs2 fs3 fs4 fs5 fs' : FileTree) (now : Rat) (u : Text)
      (fh : Nat) (body : Bytes) (r1 r2 : Except Errno Unit) :
      M.Step fs Call.time now fs1 ->
      M.Step fs1 (Call.makedirs (dirname path)) (Except.ok ()) fs2 ->
      M.Step fs2 Call.uuid4 u fs3 ->
      M.Step fs3 (Call.openWrite (sidecarTmp path u)) (Except.ok fh) fs4 ->
      M.Step fs4 (Call.write fh body) r1 fs5 ->
      M.Step fs5 (Call.close fh) r2 fs' ->
      (exists n, r1 = Except.error n ∨ r2 = Except.error n) ->
      SidecarCourse M path fs
        [⟨Call.time, now⟩, ⟨Call.makedirs (dirname path), Except.ok ()⟩,
          ⟨Call.uuid4, u⟩,
          ⟨Call.openWrite (sidecarTmp path u), Except.ok fh⟩,
          ⟨Call.write fh body, r1⟩, ⟨Call.close fh, r2⟩] fs'
  | written (fs1 fs2 fs3 fs4 fs5 fs6 fs' : FileTree) (now : Rat) (u : Text)
      (fh : Nat) (body : Bytes) (r : Except Errno Unit) :
      M.Step fs Call.time now fs1 ->
      M.Step fs1 (Call.makedirs (dirname path)) (Except.ok ()) fs2 ->
      M.Step fs2 Call.uuid4 u fs3 ->
      M.Step fs3 (Call.openWrite (sidecarTmp path u)) (Except.ok fh) fs4 ->
      M.Step fs4 (Call.write fh body) (Except.ok ()) fs5 ->
      M.Step fs5 (Call.close fh) (Except.ok ()) fs6 ->
      M.Step fs6 (Call.rename (sidecarTmp path u) path) r fs' ->
      SidecarCourse M path fs
        [⟨Call.time, now⟩, ⟨Call.makedirs (dirname path), Except.ok ()⟩,
          ⟨Call.uuid4, u⟩,
          ⟨Call.openWrite (sidecarTmp path u), Except.ok fh⟩,
          ⟨Call.write fh body, Except.ok ()⟩,
          ⟨Call.close fh, Except.ok ()⟩,
          ⟨Call.rename (sidecarTmp path u) path, r⟩] fs'

theorem sidecar_course {M : Machine calls FileTree} {fs fs' : FileTree}
    {trace : List (Sigma calls.Ret)} {contentType etag : Text} {size : Nat}
    {metadata : Metadata} {o : Except Exn Unit}
    (hrun : M.Runs fs
      (d.writeSidecar slot.bucket slot.key contentType etag size metadata) trace
      o fs') :
    SidecarCourse M (slot.sidecarText d.root) fs trace fs' := by
  unfold LocalFsBlobDriver.writeSidecar at hrun
  rw [slot.metaPath_ok] at hrun
  change M.Runs fs (Prog.call (S := calls) Call.time _) trace o fs' at hrun
  cases hrun with
  | @call _ fs1 _ _ now _ trace _ htime hrest =>
  change M.Runs fs1 (Prog.call (S := calls)
    (Call.makedirs (dirname (slot.sidecarText d.root))) _) trace o fs' at hrest
  cases hrest with
  | @call _ fs2 _ _ made _ trace _ hmake hrest =>
  cases made with
  | error n =>
      cases hrest
      exact SidecarCourse.unmade fs1 fs' now n htime hmake
  | ok _ =>
  change M.Runs fs2 (Prog.call (S := calls) Call.uuid4 _) trace o fs' at hrest
  cases hrest with
  | @call _ fs3 _ _ u _ trace _ hdraw hrest =>
  change M.Runs fs3 (Prog.call (S := calls)
    (Call.openWrite (sidecarTmp (slot.sidecarText d.root) u)) _) trace o fs'
    at hrest
  cases hrest with
  | @call _ fs4 _ _ opened _ trace _ hopen hrest =>
  cases opened with
  | error n =>
      cases hrest
      exact SidecarCourse.unopened fs1 fs2 fs3 fs' now u n htime hmake hdraw
        hopen
  | ok fh =>
  change M.Runs fs4 (Prog.call (S := calls) (Call.write fh _) _) trace o fs'
    at hrest
  cases hrest with
  | @call _ fs5 _ _ r1 _ trace _ hwrite hrest =>
  -- Closing comes next whatever writing answered.
  have hclose : exists r2 fs6 rest,
      M.Step fs5 (Call.close fh) r2 fs6 ∧
        trace = ⟨Call.close fh, r2⟩ :: rest ∧
        ((exists n, r1 = Except.error n ∨ r2 = Except.error n) ->
          rest = [] ∧ fs' = fs6) ∧
        ((r1 = Except.ok () ∧ r2 = Except.ok ()) -> exists r,
          M.Step fs6
            (Call.rename (sidecarTmp (slot.sidecarText d.root) u)
              (slot.sidecarText d.root)) r fs' ∧
          rest = [⟨Call.rename (sidecarTmp (slot.sidecarText d.root) u)
            (slot.sidecarText d.root), r⟩]) := by
    cases r1 with
    | error n =>
        change M.Runs fs5 (Prog.call (S := calls) (Call.close fh) _) trace o fs'
          at hrest
        cases hrest with
        | @call _ fs6 _ _ r2 _ trace _ hclose hend =>
            refine ⟨r2, fs6, trace, hclose, rfl, ?_, ?_⟩
            · intro _
              cases r2 <;> exact (by cases hend; exact ⟨rfl, rfl⟩)
            · intro h
              cases h.left
    | ok _ =>
        change M.Runs fs5 (Prog.call (S := calls) (Call.close fh) _) trace o fs'
          at hrest
        cases hrest with
        | @call _ fs6 _ _ r2 _ trace _ hclose hend =>
            refine ⟨r2, fs6, trace, hclose, rfl, ?_, ?_⟩
            · intro h
              rcases h with ⟨n, h | h⟩
              · cases h
              · cases h
                cases hend
                exact ⟨rfl, rfl⟩
            · intro h
              cases h.right
              change M.Runs fs6 (Prog.call (S := calls)
                (Call.rename (sidecarTmp (slot.sidecarText d.root) u)
                  (slot.sidecarText d.root)) _) trace o fs' at hend
              cases hend with
              | @call _ fs7 _ _ r _ trace _ hmove hend =>
                  cases r <;> exact (by cases hend; exact ⟨_, hmove, rfl⟩)
  rcases hclose with ⟨r2, fs6, rest, hclose, rfl, hfailed, hmoved⟩
  rcases both_ok_or_failed r1 r2 with ⟨rfl, rfl⟩ | hbroken
  · rcases hmoved ⟨rfl, rfl⟩ with ⟨r, hmove, rfl⟩
    exact SidecarCourse.written fs1 fs2 fs3 fs4 fs5 fs6 fs' now u fh _ r htime
      hmake hdraw hopen hwrite hclose hmove
  · rcases hfailed hbroken with ⟨rfl, rfl⟩
    exact SidecarCourse.unwritten fs1 fs2 fs3 fs4 fs5 fs' now u fh _ r1 r2 htime
      hmake hdraw hopen hwrite hclose hbroken

inductive Enters (M : Machine calls FileTree) (ifNoneMatch : Option Text)
    (fs : FileTree) : List (Sigma calls.Ret) -> FileTree -> Prop where
  | unconditional :
      ifNoneMatch ≠ some (text "*") ->
      Enters M ifNoneMatch fs [] fs
  | missed (fs0 : FileTree) :
      ifNoneMatch = some (text "*") ->
      M.Step fs (Call.pathExists (slot.objectText d.root)) false fs0 ->
      Enters M ifNoneMatch fs
        [⟨Call.pathExists (slot.objectText d.root), false⟩] fs0

inductive Course (M : Machine calls FileTree) (data : Data) (contentType : Text)
    (ifNoneMatch : Option Text) (metadata : Option Metadata) (fs : FileTree) :
    List (Sigma calls.Ret) -> Except Exn PutResult -> FileTree -> Prop where
  | met (fs0 fs' : FileTree) (rest : List (Sigma calls.Ret))
      (info : Except Exn (Option ObjectInfo)) :
      ifNoneMatch = some (text "*") ->
      M.Step fs (Call.pathExists (slot.objectText d.root)) true fs0 ->
      M.Runs fs0 (d.head slot.bucket slot.key) rest info fs' ->
      Course M data contentType ifNoneMatch metadata fs
        (⟨Call.pathExists (slot.objectText d.root), true⟩ :: rest)
        (info.map LocalFsBlobDriver.dedupResult) fs'
  | failed (fs0 fs1 fs2 fs' : FileTree) (u : Text)
      (before main : List (Sigma calls.Ret)) (e : Exn)
      (r : Except Errno Unit) :
      Enters d slot M ifNoneMatch fs before fs0 ->
      M.Step fs0 Call.uuid4 u fs1 ->
      M.Runs fs1
        (d.stage (tmpText d.root u) (slot.objectText d.root) (asAiter data))
        main (Except.error e) fs2 ->
      M.Step fs2 (Call.remove (tmpText d.root u)) r fs' ->
      Course M data contentType ifNoneMatch metadata fs
        (before ++ ⟨Call.uuid4, u⟩ ::
          (main ++ [⟨Call.remove (tmpText d.root u), r⟩]))
        (Except.error (LocalFsBlobDriver.translateOsError e)) fs'
  | stored (fs0 fs1 fs2 fs' : FileTree) (u : Text)
      (before main side : List (Sigma calls.Ret))
      (acc : d.platform.sha256.State × Nat) :
      Enters d slot M ifNoneMatch fs before fs0 ->
      M.Step fs0 Call.uuid4 u fs1 ->
      M.Runs fs1
        (d.stage (tmpText d.root u) (slot.objectText d.root) (asAiter data))
        main (Except.ok acc) fs2 ->
      M.Runs fs2
        (d.writeSidecar slot.bucket slot.key contentType
          (d.platform.sha256.hexdigest acc.1) acc.2 (metadata.getD ∅))
        side (Except.ok ()) fs' ->
      Course M data contentType ifNoneMatch metadata fs
        (before ++ ⟨Call.uuid4, u⟩ :: (main ++ side))
        (Except.ok
          { etag := Json.str (d.platform.sha256.hexdigest acc.1)
            bytes := acc.2
            deduped := false })
        fs'

variable {d slot} {M : Machine calls FileTree} {fs fs' : FileTree}
  {trace : List (Sigma calls.Ret)} {data : Data} {contentType : Text}
  {ifNoneMatch : Option Text} {metadata : Option Metadata}
  {o : Except Exn PutResult}

def putBody (d : LocalFsBlobDriver) (slot : Slot settings) (data : Data)
    (contentType : Text) (metadata : Option Metadata) : Io PutResult := do
  let tmp ← newTmpPath d.root
  let (hasher, total) ←
    ((d.stage tmp (slot.objectText d.root) (asAiter data)).tryCatch
      (fun e => Prog.raise (LocalFsBlobDriver.translateOsError e))).onError
      (safeUnlink tmp)
  let etag := d.platform.sha256.hexdigest hasher
  d.writeSidecar slot.bucket slot.key contentType etag total (metadata.getD ∅)
  pure { etag := Json.str etag, bytes := total, deduped := false }

theorem putBody_course {fs0 : FileTree} {before rest : List (Sigma calls.Ret)}
    (henters : Enters d slot M ifNoneMatch fs before fs0)
    (hrun : M.Runs fs0 (putBody d slot data contentType metadata) rest o fs') :
    Course d slot M data contentType ifNoneMatch metadata fs (before ++ rest) o
      fs' := by
  change M.Runs fs0 (Prog.call (S := calls) Call.uuid4 _) rest o fs' at hrun
  cases hrun with
  | @call _ fs1 _ _ u _ rest _ hdraw hrest =>
      change M.Runs fs1
        (Prog.onError (Prog.tryCatch _ _) (safeUnlink (tmpText d.root u)) >>= _)
        rest o fs' at hrest
      rcases Machine.runs_bind hrest with
        ⟨acc, fs2, main, side, hstage, hside, rfl⟩ | ⟨e, hstage, rfl⟩
      · rcases Machine.runs_onError hstage with
          ⟨acc', hcaught, heq⟩ | ⟨e, s1, t1, t2, r, _, _, _, hok, herr⟩
        · cases heq
          rcases Machine.runs_tryCatch hcaught with
            ⟨acc', hbody, heq⟩ | ⟨e, s1, t1, t2, _, hraise, _⟩
          · cases heq
            rcases Machine.runs_bind hside with
              ⟨_, fs3, t1, t2, hwrite, hend, rfl⟩ | ⟨e, hwrite, _⟩
            · cases hend
              rw [List.append_nil]
              exact Course.stored fs0 fs1 fs2 fs' u before main t1 acc henters
                hdraw hbody hwrite
            · cases writeSidecar_returns d slot hwrite
          · cases hraise
        · cases r with
          | ok b => cases hok ⟨b, rfl⟩
          | error e' => cases herr e' rfl
      · rcases Machine.runs_onError hstage with
          ⟨acc', _, heq⟩ | ⟨e', fs2, main, t2, r, hcaught, hunlink, rfl, hok, herr⟩
        · cases heq
        · rcases Machine.runs_tryCatch hcaught with
            ⟨acc', _, heq⟩ | ⟨e0, s1, t1, t3, hbody, hraise, rfl⟩
          · cases heq
          · cases hraise
            rw [List.append_nil]
            rcases safeUnlink_runs hunlink with ⟨answer, hstep, rfl, rfl⟩
            cases hok ⟨_, rfl⟩
            exact Course.failed fs0 fs1 fs2 fs' u before t1 e0 answer henters
              hdraw hbody hstep

theorem put_course
    (hrun : M.Runs fs
      (d.put slot.bucket slot.key data contentType ifNoneMatch metadata) trace o
      fs') :
    Course d slot M data contentType ifNoneMatch metadata fs trace o fs' := by
  unfold LocalFsBlobDriver.put at hrun
  rw [slot.objectPath_ok] at hrun
  change M.Runs fs (if ifNoneMatch = some (text "*") then _ else _) trace o fs'
    at hrun
  split at hrun
  · rename_i hcond
    change M.Runs fs (Prog.call (S := calls)
      (Call.pathExists (slot.objectText d.root)) _) trace o fs' at hrun
    cases hrun with
    | @call _ fs1 _ _ there _ rest _ hstep hrest =>
        cases there with
        | true =>
            change M.Runs fs1 (d.head slot.bucket slot.key >>= _) rest o fs'
              at hrest
            rw [bind_pure_comp] at hrest
            rcases Machine.runs_map hrest with ⟨info, hhead, rfl⟩
            exact Course.met fs1 fs' rest info hcond hstep hhead
        | false =>
            exact putBody_course (Enters.missed fs1 hcond hstep) hrest
  · rename_i hcond
    exact putBody_course (Enters.unconditional hcond) hrun

end Course

end StorybookStorage
