import StorybookStorage.Core.Platform
import StorybookStorage.Posix.Focus

/-!
# Rules for the file-system calls

The weakest precondition of each `Os` call on the contract machine: what may be
assumed after it, for its normal answer and for the exception it raises.
-/

namespace StorybookStorage

open Python Posix Effects

variable {ι α : Type} {K : Contract ι} {tag : ι} {env : View -> View -> Prop}
  {v : View} {g : Hold} {seen : List Sight}

theorem wp_raising {σ : Type} {M : Machine calls σ} {p : Io (Except Errno α)}
    {Q : Except Exn α -> σ -> Prop} {s : σ}
    (h : M.wp p
      (fun o t =>
        match o with
        | Except.ok (Except.ok a) => Q (Except.ok a) t
        | Except.ok (Except.error e) => Q (Except.error (Exn.os e)) t
        | Except.error e => Q (Except.error e) t) s) :
    M.wp (raising p) Q s := by
  unfold raising
  rw [Machine.wp_bind]
  apply Machine.wp_mono h
  intro o t ho
  cases o with
  | error e => exact ho
  | ok r => cases r <;> exact ho

theorem wp_op_of {c : Call} {Q : Except Exn (Call.Ret c) -> Focus -> Prop}
    (hcan : K.Can tag seen g c)
    (h : forall r v1 g' v', K.Step v g c r v1 g' -> env v1 v' ->
      Q (Except.ok r) ⟨v', g', seen ++ sight c r⟩) :
    (K.machine tag env).wp (Prog.op (S := calls) c) Q ⟨v, g, seen⟩ := by
  refine ⟨hcan, ?_⟩
  intro r hstep hboth
  rcases hstep with ⟨v', g', seen'⟩
  rcases hboth with ⟨v1, hstep, henv, hseen⟩
  have hsame : seen' = seen ++ sight c r := hseen
  rw [hsame]
  exact h r v1 g' v' hstep henv

theorem faulty_of_fails {c : Call} {reason : Prop} {r : Except Errno α}
    (h : K.Fails c reason r) (hr : r.isOk = false) : K.Faulty ∨ reason := by
  rcases h hr with hmay | hreason
  · exact Or.inl ⟨c, hmay⟩
  · exact Or.inr hreason

/-!
## Calls that only look
-/

theorem wp_uuid4 {Q : Except Exn Text -> Focus -> Prop}
    (hwrites : K.Writes tag) (hfd : g.fd = none)
    (h : forall u v', IsToken u -> (forall p, K.Place u p -> v p = none) ->
      env v v' -> Q (Except.ok u) ⟨v', Hold.drawn u, seen⟩) :
    (K.machine tag env).wp Os.uuid4 Q ⟨v, g, seen⟩ := by
  apply wp_op_of (c := Call.uuid4) ⟨hwrites, hfd⟩
  intro u v1 g' v' hstep henv
  rcases hstep with ⟨rfl, rfl, htoken, hfree⟩
  show Q (Except.ok u) ⟨v', Hold.drawn u, seen ++ []⟩
  rw [List.append_nil]
  exact h u v' htoken hfree henv

theorem wp_time {Q : Except Exn Rat -> Focus -> Prop}
    (h : forall now v', env v v' -> Q (Except.ok now) ⟨v', g, seen⟩) :
    (K.machine tag env).wp Os.time Q ⟨v, g, seen⟩ := by
  apply wp_op_of (c := Call.time) trivial
  intro now v1 g' v' hstep henv
  rcases hstep with ⟨rfl, rfl⟩
  show Q (Except.ok now) ⟨v', g', seen ++ []⟩
  rw [List.append_nil]
  exact h now v' henv

theorem wp_pathExists {t : Text} {Q : Except Exn Bool -> Focus -> Prop}
    (hvisible : ¬ K.Hidden (resolve t))
    (hyes : forall v', v (resolve t) ≠ none -> env v v' ->
      Q (Except.ok true) ⟨v', g, seen ++ [Sight.tested (resolve t) true]⟩)
    (hno : forall v', v (resolve t) = none ∨ K.Faulty -> env v v' ->
      Q (Except.ok false) ⟨v', g, seen ++ [Sight.tested (resolve t) false]⟩) :
    (K.machine tag env).wp (Os.pathExists t) Q ⟨v, g, seen⟩ := by
  apply wp_op_of (c := Call.pathExists t) trivial
  intro there v1 g' v' hstep henv
  rcases hstep with ⟨rfl, rfl, hanswers⟩
  rcases hanswers hvisible with ⟨htrue, hfalse⟩
  cases there with
  | true => exact hyes v' (htrue rfl) henv
  | false =>
      apply hno v' _ henv
      rcases hfalse rfl with hnone | hmay
      · exact Or.inl (by simpa using hnone)
      · exact Or.inr ⟨_, hmay⟩

theorem wp_isfile {t : Text} {Q : Except Exn Bool -> Focus -> Prop}
    (h : forall regular v', env v v' ->
      (¬ K.Hidden (resolve t) ->
        (regular = true -> exists b, v (resolve t) = some (Entry.file b)) ∧
          (regular = false ->
            K.Faulty ∨ forall b, v (resolve t) ≠ some (Entry.file b))) ->
      Q (Except.ok regular) ⟨v', g, seen⟩) :
    (K.machine tag env).wp (Os.isfile t) Q ⟨v, g, seen⟩ := by
  apply wp_op_of (c := Call.isfile t) trivial
  intro regular v1 g' v' hstep henv
  rcases hstep with ⟨rfl, rfl, hanswers⟩
  show Q (Except.ok regular) ⟨v', g', seen ++ []⟩
  rw [List.append_nil]
  apply h regular v' henv
  intro hvisible
  rcases hanswers hvisible with ⟨htrue, hfalse⟩
  refine ⟨htrue, ?_⟩
  intro hr
  rcases hfalse hr with hno | hmay
  · exact Or.inr (fun b hb => hno ⟨b, hb⟩)
  · exact Or.inl ⟨_, hmay⟩

theorem wp_isdir {t : Text} {Q : Except Exn Bool -> Focus -> Prop}
    (h : forall there v', env v v' -> Q (Except.ok there) ⟨v', g, seen⟩) :
    (K.machine tag env).wp (Os.isdir t) Q ⟨v, g, seen⟩ := by
  apply wp_op_of (c := Call.isdir t) trivial
  intro there v1 g' v' hstep henv
  rcases hstep with ⟨rfl, rfl, _⟩
  show Q (Except.ok there) ⟨v', g', seen ++ []⟩
  rw [List.append_nil]
  exact h there v' henv

theorem wp_stat {t : Text} {Q : Except Exn Stat -> Focus -> Prop}
    (hvisible : ¬ K.Hidden (resolve t))
    (hok : forall st v',
      (forall b, v (resolve t) = some (Entry.file b) -> st.size = b.length) ->
      env v v' -> Q (Except.ok st) ⟨v', g, seen⟩)
    (herr : forall e v', K.Faulty ∨ v (resolve t) = none -> env v v' ->
      Q (Except.error (Exn.os e)) ⟨v', g, seen⟩) :
    (K.machine tag env).wp (Os.stat t) Q ⟨v, g, seen⟩ := by
  apply wp_raising
  apply wp_op_of (c := Call.stat t) trivial
  intro r v1 g' v' hstep henv
  rcases hstep with ⟨rfl, rfl, hrest⟩
  rcases hrest hvisible with ⟨hfails, hsize⟩
  cases r with
  | ok st =>
      have hq := hok st v' (fun b hb => hsize st b rfl hb) henv
      simpa [sight] using hq
  | error e =>
      have hq := herr e v' (faulty_of_fails hfails rfl) henv
      simpa [sight] using hq

theorem wp_getmtime {t : Text} {Q : Except Exn Rat -> Focus -> Prop}
    (hok : forall m v', env v v' -> Q (Except.ok m) ⟨v', g, seen⟩)
    (herr : forall e v', env v v' ->
      Q (Except.error (Exn.os e)) ⟨v', g, seen⟩) :
    (K.machine tag env).wp (Os.getmtime t) Q ⟨v, g, seen⟩ := by
  apply wp_raising
  apply wp_op_of (c := Call.getmtime t) trivial
  intro r v1 g' v' hstep henv
  rcases hstep with ⟨rfl, rfl⟩
  cases r with
  | ok m => simpa [sight] using hok m v' henv
  | error e => simpa [sight] using herr e v' henv

theorem wp_listdir {t : Text} {Q : Except Exn (List Text) -> Focus -> Prop}
    (hok : forall names v', env v v' -> Q (Except.ok names) ⟨v', g, seen⟩)
    (herr : forall e v', env v v' ->
      Q (Except.error (Exn.os e)) ⟨v', g, seen⟩) :
    (K.machine tag env).wp (Os.listdir t) Q ⟨v, g, seen⟩ := by
  apply wp_raising
  apply wp_op_of (c := Call.listdir t) trivial
  intro r v1 g' v' hstep henv
  rcases hstep with ⟨rfl, rfl⟩
  cases r with
  | ok names => simpa [sight] using hok names v' henv
  | error e => simpa [sight] using herr e v' henv

/-!
## Writing
-/

theorem wp_openWrite {t u : Text} {Q : Except Exn Nat -> Focus -> Prop}
    (hstages : K.Stages tag seen (resolve t))
    (hplace : K.Place u (resolve t))
    (hok : forall fd v', env v v' ->
      Q (Except.ok fd) ⟨v', Hold.writing u fd (resolve t) (some []), seen⟩)
    (herr : forall e v',
      K.Faulty ∨ v (resolve t) = some Entry.dir ∨
        v (resolve t).dropLast ≠ some Entry.dir -> env v v' ->
      Q (Except.error (Exn.os e))
        ⟨v', Hold.spent u, seen ++ [Sight.failed (Call.openWrite t)]⟩) :
    (K.machine tag env).wp (Os.openWrite t) Q ⟨v, Hold.drawn u, seen⟩ := by
  apply wp_raising
  apply wp_op_of (c := Call.openWrite t) ⟨hstages, u, rfl, hplace⟩
  intro r v1 g' v' hstep henv
  rcases hstep with ⟨rfl, u', hu, hfails, rfl⟩
  cases hu
  cases r with
  | ok fd => simpa [sight] using hok fd v' henv
  | error e => exact herr e v' (faulty_of_fails hfails rfl) henv

theorem wp_write {fd : Nat} {chunk : Bytes} {u : Text} {p : Path}
    {sent : Option Bytes} {Q : Except Exn Unit -> Focus -> Prop}
    (hok : forall v', env v v' ->
      Q (Except.ok ())
        ⟨v', Hold.writing u fd p (sent.map (· ++ chunk)), seen⟩)
    (herr : forall e v', K.Faulty -> env v v' ->
      Q (Except.error (Exn.os e))
        ⟨v', Hold.writing u fd p none,
          seen ++ [Sight.failed (Call.write fd chunk)]⟩) :
    (K.machine tag env).wp (Os.write fd chunk) Q
      ⟨v, Hold.writing u fd p sent, seen⟩ := by
  apply wp_raising
  apply wp_op_of (c := Call.write fd chunk) ⟨u, p, sent, rfl⟩
  intro r v1 g' v' hstep henv
  rcases hstep with ⟨rfl, u', p', sent', hg, hfails, rfl⟩
  cases hg
  cases r with
  | ok _ => simpa [sight] using hok v' henv
  | error e =>
      exact herr e v' ((faulty_of_fails hfails rfl).resolve_right id) henv

theorem wp_flush {fd : Nat} {u : Text} {p : Path}
    {sent : Option Bytes} {Q : Except Exn Unit -> Focus -> Prop}
    (hok : forall v', env v v' ->
      Q (Except.ok ()) ⟨v', Hold.writing u fd p sent, seen⟩)
    (herr : forall e v', K.Faulty -> env v v' ->
      Q (Except.error (Exn.os e))
        ⟨v', Hold.writing u fd p sent,
          seen ++ [Sight.failed (Call.flush fd)]⟩) :
    (K.machine tag env).wp (Os.flush fd) Q
      ⟨v, Hold.writing u fd p sent, seen⟩ := by
  apply wp_raising
  apply wp_op_of (c := Call.flush fd) ⟨u, p, sent, rfl⟩
  intro r v1 g' v' hstep henv
  rcases hstep with ⟨rfl, rfl, hfails⟩
  cases r with
  | ok _ => simpa [sight] using hok v' henv
  | error e =>
      exact herr e v' ((faulty_of_fails hfails rfl).resolve_right id) henv

theorem wp_fsync {fd : Nat} {u : Text} {p : Path}
    {sent : Option Bytes} {Q : Except Exn Unit -> Focus -> Prop}
    (hok : forall v', env v v' ->
      Q (Except.ok ()) ⟨v', Hold.writing u fd p sent, seen⟩)
    (herr : forall e v', K.Faulty -> env v v' ->
      Q (Except.error (Exn.os e))
        ⟨v', Hold.writing u fd p sent,
          seen ++ [Sight.failed (Call.fsync fd)]⟩) :
    (K.machine tag env).wp (Os.fsync fd) Q
      ⟨v, Hold.writing u fd p sent, seen⟩ := by
  apply wp_raising
  apply wp_op_of (c := Call.fsync fd) ⟨u, p, sent, rfl⟩
  intro r v1 g' v' hstep henv
  rcases hstep with ⟨rfl, rfl, hfails⟩
  cases r with
  | ok _ => simpa [sight] using hok v' henv
  | error e =>
      exact herr e v' ((faulty_of_fails hfails rfl).resolve_right id) henv

theorem wp_close {fd : Nat} {Q : Except Exn Unit -> Focus -> Prop}
    (hfd : g.fd = some fd)
    (hok : forall v', env v v' -> Q (Except.ok ()) ⟨v', g.shut true, seen⟩)
    (herr : forall e v', K.Faulty -> env v v' ->
      Q (Except.error (Exn.os e))
        ⟨v', g.shut false, seen ++ [Sight.failed (Call.close fd)]⟩) :
    (K.machine tag env).wp (Os.close fd) Q ⟨v, g, seen⟩ := by
  apply wp_raising
  apply wp_op_of (c := Call.close fd) hfd
  intro r v1 g' v' hstep henv
  rcases hstep with ⟨rfl, rfl, hfails⟩
  cases r with
  | ok _ =>
      have hq := hok v' henv
      simpa [sight, Except.isOk, Except.toBool] using hq
  | error e =>
      exact herr e v' ((faulty_of_fails hfails rfl).resolve_right id) henv

theorem wp_makedirs {t : Text} {Q : Except Exn Unit -> Focus -> Prop}
    (hmakes : K.Makes tag seen (resolve t))
    (hok : forall v1 v', Contract.Widens v (resolve t) v1 ->
      (forall q, q <+: resolve t -> v1 q = some Entry.dir) -> env v1 v' ->
      Q (Except.ok ()) ⟨v', g, seen⟩)
    (herr : forall e v1 v', Contract.Widens v (resolve t) v1 ->
      (K.Faulty ∨ v (resolve t) ≠ some Entry.dir ∧ exists q, q <+: resolve t ∧
        (K.Hidden q ∨ exists b, v q = some (Entry.file b))) -> env v1 v' ->
      Q (Except.error (Exn.os e))
        ⟨v', g, seen ++ [Sight.failed (Call.makedirs t)]⟩) :
    (K.machine tag env).wp (Os.makedirs t) Q ⟨v, g, seen⟩ := by
  apply wp_raising
  apply wp_op_of (c := Call.makedirs t) hmakes
  intro r v1 g' v' hstep henv
  rcases hstep with ⟨rfl, hwidens, hmade, hfails⟩
  cases r with
  | ok _ =>
      have hq := hok v1 v' hwidens (hmade rfl) henv
      simpa [sight] using hq
  | error e =>
      exact herr e v1 v' hwidens (faulty_of_fails hfails rfl) henv

theorem wp_rename {src dst u : Text} {b : Bytes}
    {Q : Except Exn Unit -> Focus -> Prop}
    (hvisible : ¬ K.Hidden (resolve dst))
    (hpublishes : K.Publishes tag seen (resolve dst) b)
    (hok : forall v', v (resolve dst) ≠ some Entry.dir ->
      v (resolve dst).dropLast = some Entry.dir ->
      env (Function.update v (resolve dst) (some (Entry.file b))) v' ->
      Q (Except.ok ())
        ⟨v', Hold.spent u, seen ++ [Sight.placed (resolve dst)]⟩)
    (herr : forall e v',
      K.Faulty ∨ K.Sweeps ∨ v (resolve dst) = some Entry.dir ∨
        v (resolve dst).dropLast ≠ some Entry.dir -> env v v' ->
      Q (Except.error (Exn.os e))
        ⟨v', Hold.spent u, seen ++ [Sight.failed (Call.rename src dst)]⟩) :
    (K.machine tag env).wp (Os.rename src dst) Q
      ⟨v, Hold.staged u (resolve src) b, seen⟩ := by
  apply wp_raising
  apply wp_op_of (c := Call.rename src dst) ⟨u, b, rfl, hvisible, hpublishes⟩
  intro r v1 g' v' hstep henv
  rcases hstep with ⟨u', b', hg, rfl, hfails, hrest⟩
  cases hg
  cases r with
  | ok _ =>
      rcases hrest with ⟨hdst, hparent, rfl⟩
      exact hok v' hdst hparent henv
  | error e =>
      have hsame : v1 = v := hrest
      rw [hsame] at henv
      exact herr e v' (faulty_of_fails hfails rfl) henv

theorem wp_remove_visible {t : Text} {Q : Except Exn Unit -> Focus -> Prop}
    (hfd : g.fd = none) (hvisible : ¬ K.Hidden (resolve t))
    (hremoves : K.Removes tag seen (resolve t))
    (hok : forall v' b, v (resolve t) = some (Entry.file b) ->
      env (Function.update v (resolve t) none) v' ->
      Q (Except.ok ()) ⟨v', g, seen ++ [Sight.removed (resolve t)]⟩)
    (herr : forall e v',
      (K.Faulty ∨ forall b, v (resolve t) ≠ some (Entry.file b)) ->
      env v v' ->
      Q (Except.error (Exn.os e))
        ⟨v', g, seen ++ [Sight.failed (Call.remove t)]⟩) :
    (K.machine tag env).wp (Os.remove t) Q ⟨v, g, seen⟩ := by
  apply wp_raising
  apply wp_op_of (c := Call.remove t)
    ⟨hfd, fun _ => hremoves, fun hh => absurd hh hvisible⟩
  intro r v1 g' v' hboth henv
  rcases hboth with ⟨_, hstep⟩
  rcases hstep hvisible with ⟨rfl, hfails, hrest⟩
  cases r with
  | ok _ =>
      rcases hrest with ⟨⟨b, hb⟩, rfl⟩
      exact hok v' b hb henv
  | error e =>
      have hsame : v1 = v := hrest
      rw [hsame] at henv
      exact herr e v' (faulty_of_fails hfails rfl) henv

theorem wp_remove_hidden {t : Text} {Q : Except Exn Unit -> Focus -> Prop}
    (hfd : g.fd = none) (hhidden : K.Hidden (resolve t))
    (hown : K.Sweeps ∨ exists u, g.token = some u ∧ K.Place u (resolve t))
    (h : forall r v' seen', env v v' ->
      seen' = seen ++ sight (Call.remove t) r ->
      Q
        (match r with
        | Except.ok _ => Except.ok ()
        | Except.error e => Except.error (Exn.os e))
        ⟨v', g.forsake, seen'⟩) :
    (K.machine tag env).wp (Os.remove t) Q ⟨v, g, seen⟩ := by
  apply wp_raising
  apply wp_op_of (c := Call.remove t)
    ⟨hfd, fun hv => absurd hhidden hv, fun _ => hown⟩
  intro r v1 g' v' hboth henv
  rcases hboth with ⟨hstep, _⟩
  rcases hstep hhidden with ⟨rfl, rfl⟩
  have hq := h r v' _ henv rfl
  cases r <;> exact hq

/-!
## Reading
-/

theorem wp_openRead {t : Text} {Q : Except Exn Nat -> Focus -> Prop}
    (hreads : K.Reads tag (resolve t)) (hfd : g.fd = none) (hvisible : ¬ K.Hidden (resolve t))
    (hok : forall fd b v', v (resolve t) = some (Entry.file b) -> env v v' ->
      Q (Except.ok fd) ⟨v', Hold.reading fd (resolve t) b [], seen⟩)
    (herr : forall e v',
      (K.Faulty ∨ forall b, v (resolve t) ≠ some (Entry.file b)) ->
      env v v' -> Q (Except.error (Exn.os e)) ⟨v', g, seen⟩) :
    (K.machine tag env).wp (Os.openRead t) Q ⟨v, g, seen⟩ := by
  apply wp_raising
  apply wp_op_of (c := Call.openRead t) ⟨hreads, hfd, hvisible⟩
  intro r v1 g' v' hstep henv
  rcases hstep with ⟨rfl, hfails, hrest⟩
  cases r with
  | ok fd =>
      rcases hrest with ⟨b, hb, rfl⟩
      have hq := hok fd b v' hb henv
      simpa [sight] using hq
  | error e =>
      have hsame : g' = g := hrest
      rw [hsame]
      have hq := herr e v' (faulty_of_fails hfails rfl) henv
      simpa [sight] using hq

theorem wp_read {fd : Nat} {limit : Option Nat} {p : Path} {body got : Bytes}
    {Q : Except Exn Bytes -> Focus -> Prop}
    (hok : forall chunk v', chunk = upTo limit (body.drop got.length) ->
      env v v' ->
      Q (Except.ok chunk) ⟨v', Hold.reading fd p body (got ++ chunk), seen⟩)
    (herr : forall e v', K.Faulty -> env v v' ->
      Q (Except.error (Exn.os e)) ⟨v', Hold.reading fd p body got, seen⟩) :
    (K.machine tag env).wp (Os.read fd limit) Q
      ⟨v, Hold.reading fd p body got, seen⟩ := by
  apply wp_raising
  apply wp_op_of (c := Call.read fd limit) ⟨p, body, got, rfl⟩
  intro r v1 g' v' hstep henv
  rcases hstep with ⟨rfl, p', body', got', hg, hfails, hrest⟩
  cases hg
  cases r with
  | ok chunk =>
      rcases hrest with ⟨hchunk, rfl⟩
      have hq := hok chunk v' hchunk henv
      simpa [sight] using hq
  | error e =>
      have hsame : g' = Hold.reading fd p body got := hrest
      rw [hsame]
      have hq := herr e v' ((faulty_of_fails hfails rfl).resolve_right id) henv
      simpa [sight] using hq

end StorybookStorage
