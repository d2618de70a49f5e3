import StorybookStorage.Core.Rules
import StorybookStorage.Drivers.Layout

/-!
# What the driver's methods do to the view

Each method is verified once on the contract machine, for any environment that
keeps directories.  `Placed` and `Tried` are the two things a write can do to a
place: put a whole body there, or only make directories on the way.
-/

namespace StorybookStorage

open Python Posix Effects Contract

variable {ι : Type} {K : Contract ι} {tag : ι} {env : View -> View -> Prop}
  {v : View} {g : Hold} {seen : List Sight}

/-- Sights without consequence: failures and removals of staging files. -/
def Mute (K : Contract ι) (more : List Sight) : Prop :=
  forall x, x ∈ more ->
    (exists c, x = Sight.failed c) ∨ exists p, x = Sight.removed p ∧ K.Hidden p

theorem mute_nil : Mute K [] := by
  intro x hx
  cases hx

theorem mute_failed (c : Call) : Mute K [Sight.failed c] := by
  intro x hx
  exact Or.inl ⟨c, by simpa using hx⟩

theorem Mute.append {a b : List Sight} (ha : Mute K a) (hb : Mute K b) :
    Mute K (a ++ b) := by
  intro x hx
  rcases List.mem_append.mp hx with h | h
  · exact ha x h
  · exact hb x h

/-!
## Unlinking
-/

theorem safeUnlink_runs {M : Machine calls FileTree} {fs fs' : FileTree}
    {t : Text} {trace : List (Sigma calls.Ret)} {o : Except Exn Bool}
    (hrun : M.Runs fs (safeUnlink t) trace o fs') :
    exists r : Except Errno Unit, M.Step fs (Call.remove t) r fs' ∧
      trace = [⟨Call.remove t, r⟩] ∧ o = Except.ok r.isOk := by
  change M.Runs fs (Prog.call (S := calls) (Call.remove t) _) trace o fs' at hrun
  cases hrun with
  | @call _ fs1 _ _ r _ rest _ hstep hrest =>
      refine ⟨r, ?_⟩
      cases r with
      | ok _ =>
          cases hrest
          exact ⟨hstep, rfl, rfl⟩
      | error n =>
          cases hrest
          exact ⟨hstep, rfl, rfl⟩

theorem wp_safeUnlink_own {t : Text} {Q : Except Exn Bool -> Focus -> Prop}
    (hfd : g.fd = none) (hhidden : K.Hidden (resolve t))
    (hown : K.Sweeps ∨ exists u, g.token = some u ∧ K.Place u (resolve t))
    (h : forall b v' more, env v v' -> Mute K more ->
      Q (Except.ok b) ⟨v', g.forsake, seen ++ more⟩) :
    (K.machine tag env).wp (safeUnlink t) Q ⟨v, g, seen⟩ := by
  unfold safeUnlink
  rw [Machine.wp_tryCatch, Machine.wp_bind]
  apply wp_remove_hidden hfd hhidden hown
  intro r v' seen' henv hseen
  subst hseen
  cases r with
  | ok _ =>
      apply h true v' _ henv
      intro x hx
      have hx' : x = Sight.removed (resolve t) := by simpa [sight] using hx
      exact Or.inr ⟨resolve t, hx', hhidden⟩
  | error e =>
      exact h false v' _ henv (mute_failed (Call.remove t))

theorem wp_safeUnlink {t : Text} {Q : Except Exn Bool -> Focus -> Prop}
    (hfd : g.fd = none) (hvisible : ¬ K.Hidden (resolve t))
    (hremoves : K.Removes tag seen (resolve t))
    (hgone : forall v' b, v (resolve t) = some (Entry.file b) ->
      env (Function.update v (resolve t) none) v' ->
      Q (Except.ok true) ⟨v', g, seen ++ [Sight.removed (resolve t)]⟩)
    (hkept : forall v',
      (K.Faulty ∨ forall b, v (resolve t) ≠ some (Entry.file b)) ->
      env v v' ->
      Q (Except.ok false) ⟨v', g, seen ++ [Sight.failed (Call.remove t)]⟩) :
    (K.machine tag env).wp (safeUnlink t) Q ⟨v, g, seen⟩ := by
  unfold safeUnlink
  rw [Machine.wp_tryCatch, Machine.wp_bind]
  apply wp_remove_visible hfd hvisible hremoves
  · intro v' b hb henv
    exact hgone v' b hb henv
  · intro e v' hreason henv
    exact hkept v' hreason henv

/-!
## Staging a body
-/

variable (d : LocalFsBlobDriver)

def digestFrom (acc : d.platform.sha256.State × Nat) (chunks : List Bytes) :
    d.platform.sha256.State × Nat :=
  (chunks.foldl d.platform.sha256.update acc.1, acc.2 + chunks.flatten.length)

theorem wp_writeChunks {fh : Nat} {u : Text} {p : Path}
    {Q : Except Exn (d.platform.sha256.State × Nat) -> Focus -> Prop}
    (henv : Steady env) (chunks : List Bytes)
    (acc : d.platform.sha256.State × Nat) (b : Bytes)
    (hok : forall v', env v v' ->
      Q (Except.ok (digestFrom d acc chunks))
        ⟨v', Hold.writing u fh p (some (b ++ chunks.flatten)), seen⟩)
    (herr : forall e v' c, K.Faulty -> env v v' ->
      Q (Except.error (Exn.os e))
        ⟨v', Hold.writing u fh p none, seen ++ [Sight.failed c]⟩) :
    (K.machine tag env).wp (d.writeChunks fh chunks acc) Q
      ⟨v, Hold.writing u fh p (some b), seen⟩ := by
  induction chunks generalizing acc b v with
  | nil =>
      have hq := hok v (henv.refl v)
      simpa [digestFrom, LocalFsBlobDriver.writeChunks] using hq
  | cons chunk rest ih =>
      rcases acc with ⟨hasher, total⟩
      unfold LocalFsBlobDriver.writeChunks
      rw [Machine.wp_bind]
      apply wp_write
      · intro v1 h1
        apply ih (d.platform.sha256.update hasher chunk, total + chunk.length)
          (b ++ chunk)
        · intro v' h'
          have hq := hok v' (henv.trans h1 h')
          simpa [digestFrom, Nat.add_assoc] using hq
        · intro e v' c hf h'
          exact herr e v' c hf (henv.trans h1 h')
      · intro e v' hf h'
        exact herr e v' _ hf h'

def Interrupted (K : Contract ι) (source : Source) (e : Exn) : Prop :=
  source.ending = some e ∨ (K.Faulty ∧ exists n, e = Exn.os n)

theorem wp_receive {fh : Nat} {u : Text} {p : Path} {source : Source}
    {Q : Except Exn (d.platform.sha256.State × Nat) -> Focus -> Prop}
    (henv : Steady env)
    (hok : forall v', source.ending = none -> env v v' ->
      Q (Except.ok
          (digestFrom d (d.platform.sha256.init, 0) source.chunks))
        ⟨v', Hold.writing u fh p (some source.chunks.flatten), seen⟩)
    (herr : forall e v' sent more, Interrupted K source e -> env v v' ->
      Mute K more ->
      Q (Except.error e) ⟨v', Hold.writing u fh p sent, seen ++ more⟩) :
    (K.machine tag env).wp (d.receive fh source) Q
      ⟨v, Hold.writing u fh p (some []), seen⟩ := by
  unfold LocalFsBlobDriver.receive
  rw [Machine.wp_bind]
  apply wp_writeChunks d henv
  · intro v1 h1
    cases hend : source.ending with
    | some e =>
        have hq := herr e v1 (some source.chunks.flatten) [] (Or.inl hend) h1
          mute_nil
        rw [List.append_nil] at hq
        exact hq
    | none =>
        show (K.machine tag env).wp (Os.flush fh >>= fun _ => _) Q _
        rw [Machine.wp_bind]
        apply wp_flush
        · intro v2 h2
          show (K.machine tag env).wp (Os.fsync fh >>= fun _ => _) Q _
          rw [Machine.wp_bind]
          apply wp_fsync
          · intro v' h3
            exact hok v' hend (henv.trans h1 (henv.trans h2 h3))
          · intro e v' hf h3
            exact herr _ v' _ _ (Or.inr ⟨hf, e, rfl⟩)
              (henv.trans h1 (henv.trans h2 h3)) (mute_failed _)
        · intro e v' hf h2
          exact herr _ v' _ _ (Or.inr ⟨hf, e, rfl⟩) (henv.trans h1 h2)
            (mute_failed _)
  · intro e v' c hf h'
    exact herr _ v' _ _ (Or.inr ⟨hf, e, rfl⟩) h' (mute_failed c)

theorem wp_upload {tmp u : Text} {source : Source}
    {Q : Except Exn (d.platform.sha256.State × Nat) -> Focus -> Prop}
    (henv : Steady env) (hstages : K.Stages tag seen (resolve tmp))
    (hplace : K.Place u (resolve tmp))
    (hok : forall v', source.ending = none -> env v v' ->
      Q (Except.ok
          (digestFrom d (d.platform.sha256.init, 0) source.chunks))
        ⟨v', Hold.staged u (resolve tmp) source.chunks.flatten, seen⟩)
    (herr : forall e v' g' more,
      (Interrupted K source e ∨ ((exists n, e = Exn.os n) ∧
        (v (resolve tmp) = some Entry.dir ∨
          v (resolve tmp).dropLast ≠ some Entry.dir))) ->
      env v v' -> Mute K more -> g'.fd = none -> g'.token = some u ->
      Q (Except.error e) ⟨v', g', seen ++ more⟩) :
    (K.machine tag env).wp
      (Os.openWrite tmp >>= fun fh =>
        Prog.tryFinally (d.receive fh source) (Os.close fh)) Q
      ⟨v, Hold.drawn u, seen⟩ := by
  rw [Machine.wp_bind]
  apply wp_openWrite hstages hplace
  · intro fh v1 h1
    show (K.machine tag env).wp (Prog.tryFinally _ _) Q _
    rw [Machine.wp_tryFinally]
    apply wp_receive d henv
    · intro v2 hend h2
      have h12 := henv.trans h1 h2
      apply wp_close (rfl)
      · intro v' h3
        exact hok v' hend (henv.trans h12 h3)
      · intro e v' hf h3
        exact herr _ v' _ _ (Or.inl (Or.inr ⟨hf, e, rfl⟩))
          (henv.trans h12 h3) (mute_failed _) rfl rfl
    · intro e v2 sent more hwhy h2 hmute
      have h12 := henv.trans h1 h2
      apply wp_close (rfl)
      · intro v' h3
        refine herr e v' _ more (Or.inl hwhy) (henv.trans h12 h3) hmute ?_ ?_
        · cases sent <;> rfl
        · cases sent <;> rfl
      · intro n v' hf h3
        rw [List.append_assoc]
        refine herr _ v' _ _ (Or.inl (Or.inr ⟨hf, n, rfl⟩))
          (henv.trans h12 h3) (hmute.append (mute_failed _)) ?_ ?_
        · cases sent <;> rfl
        · cases sent <;> rfl
  · intro e v' hreason h'
    rcases hreason with hf | hdir
    · exact herr _ v' _ _ (Or.inl (Or.inr ⟨hf, e, rfl⟩)) h' (mute_failed _)
        rfl rfl
    · exact herr _ v' _ _ (Or.inr ⟨⟨e, rfl⟩, hdir⟩) h' (mute_failed _) rfl rfl

/-!
## Putting a body in place
-/

/-- The body went to the place, with directories made on the way. -/
def Placed (env : View -> View -> Prop) (v : View) (p : Path) (b : Bytes)
    (v' : View) : Prop :=
  exists v1 v2 v3, env v v1 ∧ Widens v1 p.dropLast v2 ∧ env v2 v3 ∧
    v3 p ≠ some Entry.dir ∧ v3 p.dropLast = some Entry.dir ∧
    env (Function.update v3 p (some (Entry.file b))) v'

/-- Nothing but directories on the way to the place was made. -/
def Tried (env : View -> View -> Prop) (v : View) (p : Path)
    (v' : View) : Prop :=
  exists v1 v2, env v v1 ∧ Widens v1 p.dropLast v2 ∧ env v2 v'

theorem widens_refl (v : View) (p : Path) : Widens v p v :=
  fun _ => Or.inl rfl

theorem tried_of_env (henv : Steady env) {v' : View} (p : Path)
    (h : env v v') : Tried env v p v' :=
  ⟨v, v, henv.refl v, widens_refl v p.dropLast, h⟩

theorem Tried.then (henv : Steady env) {v1 v' : View} {p : Path}
    (h : Tried env v p v1) (h' : env v1 v') : Tried env v p v' := by
  rcases h with ⟨w1, w2, h1, h2, h3⟩
  exact ⟨w1, w2, h1, h2, henv.trans h3 h'⟩

theorem Tried.after (henv : Steady env) {v1 v' : View} {p : Path}
    (h : env v v1) (h' : Tried env v1 p v') : Tried env v p v' := by
  rcases h' with ⟨w1, w2, h1, h2, h3⟩
  exact ⟨w1, w2, henv.trans h h1, h2, h3⟩

theorem Placed.after (henv : Steady env) {v1 v' : View} {p : Path} {b : Bytes}
    (h : env v v1) (h' : Placed env v1 p b v') : Placed env v p b v' := by
  rcases h' with ⟨w1, w2, w3, h1, hrest⟩
  exact ⟨w1, w2, w3, henv.trans h h1, hrest⟩

inductive Refused (K : Contract ι) (env : View -> View -> Prop) (root : Text)
    (p : Path) (source : Source) (v : View) : Exn -> Prop where
  | source (e : Exn) :
      source.ending = some e ->
      Refused K env root p source v (LocalFsBlobDriver.translateOsError e)
  | device (n : Errno) :
      K.Faulty ∨ K.Sweeps ->
      Refused K env root p source v
        (LocalFsBlobDriver.translateOsError (Exn.os n))
  | unstaged (n : Errno) (u : Text) (v0 v1 : View) :
      env v v0 ->
      (forall q, K.Place u q -> v0 q = none) ->
      env v0 v1 ->
      IsToken u ->
      v1 (resolve root ++ [tmpDir, u]) = some Entry.dir ∨
        v1 (resolve root ++ [tmpDir]) ≠ some Entry.dir ->
      Refused K env root p source v
        (LocalFsBlobDriver.translateOsError (Exn.os n))
  | blocked (n : Errno) (v1 : View) (q : Path) (b : Bytes) :
      env v v1 ->
      q <+: p.dropLast ->
      v1 q = some (Entry.file b) ->
      Refused K env root p source v
        (LocalFsBlobDriver.translateOsError (Exn.os n))
  | occupied (n : Errno) (v1 v2 v3 : View) :
      env v v1 ->
      Widens v1 p.dropLast v2 ->
      env v2 v3 ->
      v3 p = some Entry.dir ->
      Refused K env root p source v
        (LocalFsBlobDriver.translateOsError (Exn.os n))

variable {settings : Settings}

theorem wp_storing (slot : Slot settings) {u : Text} {source : Source}
    {v0 : View}
    {Q : Except Exn (d.platform.sha256.State × Nat) -> Focus -> Prop}
    (hK : K.toStaging = staging d.root) (henv : Steady env) (hu : IsToken u)
    (hdrawn : env v0 v) (hfree : forall q, K.Place u q -> v0 q = none)
    (hstages : K.Stages tag seen (resolve d.root ++ [tmpDir, u]))
    (hmakes : K.Makes tag seen (slot.objectLoc d.root).dropLast)
    (hpublishes : source.ending = none ->
      K.Publishes tag seen (slot.objectLoc d.root) source.chunks.flatten)
    (hok : forall v', source.ending = none ->
      Placed env v (slot.objectLoc d.root) source.chunks.flatten v' ->
      Q (Except.ok
          (digestFrom d (d.platform.sha256.init, 0) source.chunks))
        ⟨v', Hold.spent u, seen ++ [Sight.placed (slot.objectLoc d.root)]⟩)
    (herr : forall e v' more,
      Refused K env d.root (slot.objectLoc d.root) source v0 e ->
      Tried env v (slot.objectLoc d.root) v' -> Mute K more ->
      Q (Except.error e) ⟨v', Hold.spent u, seen ++ more⟩) :
    (K.machine tag env).wp
      (((d.stage (join (join d.root tmpDir) u) (slot.objectText d.root)
            source).tryCatch
          (fun e => Prog.raise (LocalFsBlobDriver.translateOsError e))).onError
        (safeUnlink (join (join d.root tmpDir) u))) Q
      ⟨v, Hold.drawn u, seen⟩ := by
  have htmp : resolve (join (join d.root tmpDir) u) =
      resolve d.root ++ [tmpDir, u] := resolve_tmpText hu
  have hplace : K.Place u (resolve (join (join d.root tmpDir) u)) := by
    rw [hK]
    exact place_tmp hu
  have hhidden : K.Hidden (resolve (join (join d.root tmpDir) u)) :=
    ⟨u, hplace⟩
  have hfinish : forall e v1 g' more, Refused K env d.root
      (slot.objectLoc d.root) source v0
        (LocalFsBlobDriver.translateOsError e) ->
      Tried env v (slot.objectLoc d.root) v1 -> Mute K more ->
      g'.fd = none -> g'.token = some u ->
      (K.machine tag env).wp (safeUnlink (join (join d.root tmpDir) u))
        (fun o' t' => (exists b, o' = Except.ok b) ∧
          Q (Except.error (LocalFsBlobDriver.translateOsError e)) t')
        ⟨v1, g', seen ++ more⟩ := by
    intro e v1 g' more hwhy htried hmute hfd htoken
    apply wp_safeUnlink_own hfd hhidden (Or.inr ⟨u, htoken, hplace⟩)
    intro b v' more' h' hmute'
    rw [Hold.forsake_of_token hfd htoken, List.append_assoc]
    exact ⟨⟨b, rfl⟩,
      herr _ v' _ hwhy (htried.then henv h') (hmute.append hmute')⟩
  rw [Machine.wp_onError, Machine.wp_tryCatch]
  unfold LocalFsBlobDriver.stage
  rw [← bind_assoc, Machine.wp_bind]
  rw [← htmp] at hstages
  apply wp_upload d henv hstages hplace
  · intro v1 hend h1
    show (K.machine tag env).wp (Os.makedirs _ >>= fun _ => _) _ _
    rw [Machine.wp_bind]
    have hdir := slot.resolve_dirname_objectText d.root
    apply wp_makedirs (by rw [hdir]; exact hmakes)
    · intro w1 v2 hwidens hmade h2
      show (K.machine tag env).wp (Os.rename _ _ >>= fun _ => _) _ _
      rw [Machine.wp_bind]
      have hloc := slot.resolve_objectText d.root
      rw [hdir] at hwidens hmade
      have hparent : v2 (slot.objectLoc d.root).dropLast = some Entry.dir :=
        henv.dirs h2 (hmade _ List.prefix_rfl)
      apply wp_rename
      · rw [hloc, hK]
        exact slot.visible_objectLoc d.root
      · rw [hloc]
        exact hpublishes hend
      · intro v' hnodir hdirs h3
        rw [hloc] at hnodir hdirs h3 ⊢
        exact hok v' hend ⟨v1, w1, v2, h1, hwidens, h2, hnodir, hdirs, h3⟩
      · intro e v3 hreason h3
        rw [hloc] at hreason
        show (K.machine tag env).wp (Prog.raise _) _ _
        rw [Machine.wp_raise]
        refine Machine.wp_mono (hfinish (Exn.os e) v3 (Hold.spent u) _ ?_ ?_
          (mute_failed _) rfl rfl) ?_
        · rcases hreason with hf | hs | hoccupied | hno
          · exact Refused.device e (Or.inl hf)
          · exact Refused.device e (Or.inr hs)
          · exact Refused.occupied e v1 w1 v2 (henv.trans hdrawn h1) hwidens h2
              hoccupied
          · exact absurd hparent hno
        · exact ⟨v1, w1, h1, hwidens, henv.trans h2 h3⟩
        · intro o t hread
          rcases hread with ⟨⟨b, rfl⟩, hq⟩
          exact hq
    · intro e w1 v2 hwidens hreason h2
      rw [hdir] at hwidens hreason
      show (K.machine tag env).wp (Prog.raise _) _ _
      rw [Machine.wp_raise]
      refine Machine.wp_mono (hfinish (Exn.os e) v2
        (Hold.staged u _ source.chunks.flatten) _ ?_ ?_ (mute_failed _) rfl
          rfl) ?_
      · rcases hreason with hf | ⟨_, q, hq, hh | ⟨b, hb⟩⟩
        · exact Refused.device e (Or.inl hf)
        · rw [hK] at hh
          exact absurd hh (slot.visible_of_prefix_objectLoc
            (hq.trans (List.dropLast_prefix _)))
        · exact Refused.blocked e v1 q b (henv.trans hdrawn h1) hq hb
      · exact ⟨v1, w1, h1, hwidens, h2⟩
      · intro o t hread
        rcases hread with ⟨⟨b, rfl⟩, hq⟩
        exact hq
  · intro e v1 g' more hwhy h1 hmute hfd htoken
    show (K.machine tag env).wp (Prog.raise _) _ _
    rw [Machine.wp_raise]
    refine Machine.wp_mono (hfinish e v1 g' more ?_
      (tried_of_env henv _ h1) hmute hfd htoken) ?_
    · rcases hwhy with (hend | ⟨hf, n, rfl⟩) | ⟨⟨n, rfl⟩, hdir⟩
      · exact Refused.source e hend
      · exact Refused.device n (Or.inl hf)
      · rw [htmp, append_two, List.dropLast_concat, ← append_two] at hdir
        exact Refused.unstaged n u v0 v (henv.refl v0) hfree hdrawn hu hdir
    · intro o t hread
      rcases hread with ⟨⟨b, rfl⟩, hq⟩
      exact hq

/-!
## Sidecars
-/

/-- A first failure, with more sights without consequence. -/
def Broken (K : Contract ι) (more : List Sight) : Prop :=
  Mute K more ∧ exists c rest, more = Sight.failed c :: rest ∧
    forall t, c ≠ Call.remove t

theorem broken_failed {c : Call} (h : forall t, c ≠ Call.remove t) :
    Broken K [Sight.failed c] :=
  ⟨mute_failed c, c, [], rfl, h⟩

inductive Unwritten (K : Contract ι) (env : View -> View -> Prop) (p : Path)
    (v : View) : Prop where
  | device :
      K.Faulty ∨ K.Sweeps ->
      Unwritten K env p v
  | unstaged (u : Text) (q : Path) (v0 v1 : View) :
      K.Place u q ->
      v0 q = none ->
      env v0 v1 ->
      v1 q = some Entry.dir ->
      Unwritten K env p v
  | occupied (v1 : View) :
      env v v1 ->
      v1 p = some Entry.dir ->
      Unwritten K env p v

inductive Thwarted (K : Contract ι) (env : View -> View -> Prop) (p : Path)
    (v : View) : Prop where
  | device :
      K.Faulty ->
      Thwarted K env p v
  | blocked (v1 : View) :
      env v v1 ->
      v1 p.dropLast ≠ some Entry.dir ->
      Thwarted K env p v
  | unwritten (v1 v2 v3 : View) :
      env v v1 ->
      Widens v1 p.dropLast v2 ->
      env v2 v3 ->
      Unwritten K env p v3 ->
      Thwarted K env p v

theorem wp_atomicWriteText {path body : Text}
    {Q : Except Exn Unit -> Focus -> Prop} (henv : Steady env)
    (hfd : g.fd = none) (hwrites : K.Writes tag)
    (hstages : forall u, IsToken u ->
      K.Stages tag seen (resolve (sidecarTmp path u)))
    (hplace : forall u, IsToken u -> K.Place u (resolve (sidecarTmp path u)))
    (hbeside : forall u, IsToken u ->
      (resolve (sidecarTmp path u)).dropLast = (resolve path).dropLast)
    (hparent : v (resolve path).dropLast = some Entry.dir)
    (hvisible : ¬ K.Hidden (resolve path))
    (hpublishes : K.Publishes tag seen (resolve path) (encode body))
    (hok : forall v1 v' u, env v v1 -> v1 (resolve path) ≠ some Entry.dir ->
      v1 (resolve path).dropLast = some Entry.dir ->
      env (Function.update v1 (resolve path)
        (some (Entry.file (encode body)))) v' ->
      Q (Except.ok ())
        ⟨v', Hold.spent u, seen ++ [Sight.placed (resolve path)]⟩)
    (herr : forall n v' g' more, env v v' -> Broken K more ->
      Unwritten K env (resolve path) v -> g'.fd = none ->
      Q (Except.error (Exn.os n)) ⟨v', g', seen ++ more⟩) :
    (K.machine tag env).wp (atomicWriteText path body) Q ⟨v, g, seen⟩ := by
  unfold atomicWriteText
  rw [Machine.wp_bind]
  apply wp_uuid4 hwrites hfd
  intro u v1 hu hfree h1
  show (K.machine tag env).wp (Os.openWrite _ >>= fun _ => _) _ _
  rw [Machine.wp_bind]
  apply wp_openWrite (hstages u hu) (hplace u hu)
  · intro fh v2 h2
    have h12 := henv.trans h1 h2
    show (K.machine tag env).wp (Prog.tryFinally _ _ >>= fun _ => _) _ _
    rw [Machine.wp_bind, Machine.wp_tryFinally]
    apply wp_write
    · intro v3 h3
      have h13 := henv.trans h12 h3
      apply wp_close (rfl)
      · intro v4 h4
        have h14 := henv.trans h13 h4
        apply wp_rename hvisible hpublishes
        · intro v' hnodir hdir h'
          exact hok v4 v' u h14 hnodir hdir h'
        · intro n v' hreason h'
          refine herr n v' _ _ (henv.trans h14 h')
            (broken_failed (fun _ h => nomatch h)) ?_ rfl
          rcases hreason with hf | hs | hoccupied | hno
          · exact Unwritten.device (Or.inl hf)
          · exact Unwritten.device (Or.inr hs)
          · exact Unwritten.occupied v4 h14 hoccupied
          · exact absurd (henv.dirs h14 hparent) hno
      · intro n v' hf h4
        exact herr n v' _ _ (henv.trans h13 h4)
          (broken_failed (fun _ h => nomatch h)) (Unwritten.device (Or.inl hf))
          rfl
    · intro n v3 hf h3
      have h13 := henv.trans h12 h3
      apply wp_close (rfl)
      · intro v' h4
        exact herr n v' _ _ (henv.trans h13 h4)
          (broken_failed (fun _ h => nomatch h)) (Unwritten.device (Or.inl hf))
          rfl
      · intro n' v' _ h4
        rw [List.append_assoc]
        refine herr n' v' _ _ (henv.trans h13 h4)
          ⟨?_, _, _, rfl, fun _ h => nomatch h⟩ (Unwritten.device (Or.inl hf))
          rfl
        exact (mute_failed _).append (mute_failed _)
  · intro n v' hreason h'
    refine herr n v' _ _ (henv.trans h1 h')
      (broken_failed (fun _ h => nomatch h)) ?_ rfl
    rcases hreason with hf | hdir | hno
    · exact Unwritten.device (Or.inl hf)
    · exact Unwritten.unstaged u _ v v1 (hplace u hu) (hfree _ (hplace u hu))
        h1 hdir
    · rw [hbeside u hu] at hno
      exact absurd (henv.dirs h1 hparent) hno

def sidecarBytes (contentType etag : Text) (size : Nat) (metadata : Metadata)
    (now : Rat) : Bytes :=
  encode (d.platform.json.dumps
    (d.sidecarRecord contentType etag size metadata now).toJson)

theorem wp_writeSidecar (slot : Slot settings) {contentType etag : Text}
    {size : Nat} {metadata : Metadata} {Q : Except Exn Unit -> Focus -> Prop}
    (hK : K.toStaging = staging d.root) (henv : Steady env)
    (hfd : g.fd = none) (hwrites : K.Writes tag)
    (hmakes : K.Makes tag seen (slot.sidecarLoc d.root).dropLast)
    (hstages : forall u, IsToken u ->
      K.Stages tag seen (resolve (sidecarTmp (slot.sidecarText d.root) u)))
    (hpublishes : forall now, K.Publishes tag seen (slot.sidecarLoc d.root)
      (sidecarBytes d contentType etag size metadata now))
    (hdone : forall now v' u,
      Placed env v (slot.sidecarLoc d.root)
        (sidecarBytes d contentType etag size metadata now) v' ->
      Q (Except.ok ())
        ⟨v', Hold.spent u, seen ++ [Sight.placed (slot.sidecarLoc d.root)]⟩)
    (hfail : forall v' g' more, Tried env v (slot.sidecarLoc d.root) v' ->
      Broken K more -> Thwarted K env (slot.sidecarLoc d.root) v ->
      g'.fd = none -> Q (Except.ok ()) ⟨v', g', seen ++ more⟩) :
    (K.machine tag env).wp
      (d.writeSidecar slot.bucket slot.key contentType etag size metadata) Q
      ⟨v, g, seen⟩ := by
  have hloc := slot.resolve_sidecarText d.root
  have hdir := slot.resolve_dirname_sidecarText d.root
  unfold LocalFsBlobDriver.writeSidecar
  rw [Machine.wp_bind]
  apply wp_time
  intro now v1 h1
  show (K.machine tag env).wp (Prog.tryCatch _ _) Q _
  rw [Machine.wp_tryCatch, slot.metaPath_ok]
  show (K.machine tag env).wp (Os.makedirs _ >>= fun _ => _) _ _
  rw [Machine.wp_bind]
  apply wp_makedirs (by rw [hdir]; exact hmakes)
  · intro w1 v2 hwidens hmade h2
    rw [hdir] at hwidens hmade
    have hparent : v2 (slot.sidecarLoc d.root).dropLast = some Entry.dir :=
      henv.dirs h2 (hmade _ List.prefix_rfl)
    apply wp_atomicWriteText henv hfd hwrites hstages
    · intro u hu
      rw [hK]
      exact slot.place_sidecarTmp hu
    · intro u hu
      rcases slot.resolve_sidecarTmp d.root hu with ⟨name, hname⟩
      rw [hname, List.dropLast_concat, hloc]
    · rw [hloc]
      exact hparent
    · rw [hloc, hK]
      exact slot.visible_sidecarLoc d.root
    · rw [hloc]
      exact hpublishes now
    · intro v3 v' u h3 hnodir hdirs h'
      rw [hloc] at hnodir hdirs h' ⊢
      exact hdone now v' u
        ⟨v1, w1, v3, h1, hwidens, henv.trans h2 h3, hnodir, hdirs, h'⟩
    · intro n v' g' more h' hbroken hwhy hg'
      rw [hloc] at hwhy
      exact hfail v' g' more ⟨v1, w1, h1, hwidens, henv.trans h2 h'⟩ hbroken
        (Thwarted.unwritten v1 w1 v2 h1 hwidens h2 hwhy) hg'
  · intro n w1 v' hwidens hreason h'
    rw [hdir] at hwidens hreason
    refine hfail v' g _ ⟨v1, w1, h1, hwidens, h'⟩
      (broken_failed (fun _ h => nomatch h)) ?_ hfd
    rcases hreason with hf | ⟨hno, _⟩
    · exact Thwarted.device hf
    · exact Thwarted.blocked v1 h1 hno

/-!
## Reading
-/

theorem wp_safeStat {t : Text} {Q : Except Exn (Option Stat) -> Focus -> Prop}
    (henv : Steady env) (hvisible : ¬ K.Hidden (resolve t))
    (hsome : forall st v1 v', env v v1 ->
      (exists b, v1 (resolve t) = some (Entry.file b)) ->
      (forall b, v (resolve t) = some (Entry.file b) -> st.size = b.length) ->
      env v1 v' -> Q (Except.ok (some st)) ⟨v', g, seen⟩)
    (hnone : forall v1 v', env v v1 ->
      (K.Faulty ∨ forall b, v1 (resolve t) ≠ some (Entry.file b)) ->
      env v1 v' -> Q (Except.ok none) ⟨v', g, seen⟩) :
    (K.machine tag env).wp (safeStat t) Q ⟨v, g, seen⟩ := by
  unfold safeStat
  rw [Machine.wp_tryCatch, Machine.wp_bind]
  apply wp_stat hvisible
  · intro st v1 hsize h1
    show (K.machine tag env).wp (Os.isfile t >>= fun _ => _) _ _
    rw [Machine.wp_bind]
    apply wp_isfile
    intro regular v' h' hanswer
    rcases hanswer hvisible with ⟨htrue, hfalse⟩
    cases regular with
    | true => exact hsome st v1 v' h1 (htrue rfl) hsize h'
    | false => exact hnone v1 v' h1 (hfalse rfl) h'
  · intro e v' hreason h'
    refine hnone v v' (henv.refl v) ?_ h'
    rcases hreason with hf | hno
    · exact Or.inl hf
    · apply Or.inr
      intro b hb
      rw [hno] at hb
      cases hb

/-- What the bytes of a sidecar are read as. -/
def readBack (raw : Bytes) : Except Exn (Option Json) :=
  match decode raw with
  | none => Except.error Exn.unicodeDecodeError
  | some t =>
      match d.platform.json.loads t with
      | Except.ok v => Except.ok (some v)
      | Except.error _ => Except.ok none

theorem wp_safeReadText {path : Text}
    {Q : Except Exn (Option Text) -> Focus -> Prop} (henv : Steady env)
    (hreads : K.Reads tag (resolve path)) (hfd : g.fd = none)
    (hvisible : ¬ K.Hidden (resolve path))
    (htext : forall raw t v' g', v (resolve path) = some (Entry.file raw) ->
      decode raw = some t -> env v v' -> g'.fd = none ->
      Q (Except.ok (some t)) ⟨v', g', seen⟩)
    (hbytes : forall raw v' g', v (resolve path) = some (Entry.file raw) ->
      decode raw = none -> env v v' -> g'.fd = none ->
      Q (Except.error Exn.unicodeDecodeError) ⟨v', g', seen⟩)
    (hfail : forall o v' g' more,
      (K.Faulty ∨ forall b, v (resolve path) ≠ some (Entry.file b)) ->
      (o = Except.ok none ∨ exists n, o = Except.error (Exn.os n)) ->
      env v v' -> Mute K more -> g'.fd = none ->
      Q o ⟨v', g', seen ++ more⟩) :
    (K.machine tag env).wp (safeReadText path) Q ⟨v, g, seen⟩ := by
  have hraise : forall n v' g' more,
      (K.Faulty ∨ forall b, v (resolve path) ≠ some (Entry.file b)) ->
      env v v' -> Mute K more -> g'.fd = none ->
      (K.machine tag env).wp (missingAsNone (Exn.os n)) Q
        ⟨v', g', seen ++ more⟩ := by
    intro n v' g' more hreason h' hmute hg'
    cases n with
    | ENOENT => exact hfail _ v' g' more hreason (Or.inl rfl) h' hmute hg'
    | _ => exact hfail _ v' g' more hreason (Or.inr ⟨_, rfl⟩) h' hmute hg'
  unfold safeReadText
  rw [Machine.wp_tryCatch, Machine.wp_bind]
  apply wp_openRead hreads hfd hvisible
  · intro fh raw v1 hraw h1
    show (K.machine tag env).wp (Prog.tryFinally _ _) _ _
    rw [Machine.wp_tryFinally, Machine.wp_bind]
    apply wp_read
    · intro chunk v2 hchunk h2
      have h12 := henv.trans h1 h2
      have hall : chunk = raw := hchunk
      subst hall
      dsimp only
      cases hdecode : decode chunk with
      | none =>
          show (K.machine tag env).wp (Os.close fh) _ _
          apply wp_close (rfl)
          · intro v' h'
            exact hbytes chunk v' _ hraw hdecode (henv.trans h12 h') rfl
          · intro n v' hf h'
            exact hraise n v' _ _ (Or.inl hf) (henv.trans h12 h')
              (mute_failed _) rfl
      | some t =>
          show (K.machine tag env).wp (Os.close fh) _ _
          apply wp_close (rfl)
          · intro v' h'
            exact htext chunk t v' _ hraw hdecode (henv.trans h12 h') rfl
          · intro n v' hf h'
            exact hraise n v' _ _ (Or.inl hf) (henv.trans h12 h')
              (mute_failed _) rfl
    · intro n v2 hf h2
      have h12 := henv.trans h1 h2
      show (K.machine tag env).wp (Os.close fh) _ _
      apply wp_close (rfl)
      · intro v' h'
        have hq := hraise n v' (Hold.closed (resolve path) raw []) []
          (Or.inl hf) (henv.trans h12 h') mute_nil rfl
        rw [List.append_nil] at hq
        exact hq
      · intro n' v' _ h'
        exact hraise n' v' _ _ (Or.inl hf) (henv.trans h12 h')
          (mute_failed _) rfl
  · intro n v' hreason h'
    have hq := hraise n v' g [] hreason h' mute_nil hfd
    rw [List.append_nil] at hq
    exact hq

theorem wp_readSidecar (slot : Slot settings)
    {Q : Except Exn (Option Json) -> Focus -> Prop}
    (hK : K.toStaging = staging d.root) (henv : Steady env)
    (hreads : K.Reads tag (slot.sidecarLoc d.root)) (hfd : g.fd = none)
    (hread : forall raw v' g', v (slot.sidecarLoc d.root) =
        some (Entry.file raw) -> env v v' -> g'.fd = none ->
      Q (readBack d raw) ⟨v', g', seen⟩)
    (hnone : forall v' g' more,
      (K.Faulty ∨ forall b, v (slot.sidecarLoc d.root) ≠ some (Entry.file b)) ->
      env v v' -> Mute K more -> g'.fd = none ->
      Q (Except.ok none) ⟨v', g', seen ++ more⟩) :
    (K.machine tag env).wp (d.readSidecar slot.bucket slot.key) Q
      ⟨v, g, seen⟩ := by
  have hloc := slot.resolve_sidecarText d.root
  have hvisible : ¬ K.Hidden (resolve (slot.sidecarText d.root)) := by
    rw [hloc, hK]
    exact slot.visible_sidecarLoc d.root
  rw [← hloc] at hreads hread hnone
  unfold LocalFsBlobDriver.readSidecar
  rw [Machine.wp_tryCatch, slot.metaPath_ok]
  show (K.machine tag env).wp (safeReadText _ >>= fun _ => _) _ _
  rw [Machine.wp_bind]
  apply wp_safeReadText henv hreads hfd hvisible
  · intro raw t v' g' hraw hdecode h' hg'
    have hq := hread raw v' g' hraw h' hg'
    simp only [readBack, hdecode] at hq
    dsimp only
    cases hloads : d.platform.json.loads t with
    | ok j =>
        rw [hloads] at hq
        exact hq
    | error e =>
        rw [hloads] at hq
        exact hq
  · intro raw v' g' hraw hdecode h' hg'
    have hq := hread raw v' g' hraw h' hg'
    simp only [readBack, hdecode] at hq
    exact hq
  · intro o v' g' more hreason ho h' hmute hg'
    have hq := hnone v' g' more hreason h' hmute hg'
    rcases ho with rfl | ⟨n, rfl⟩
    · exact hq
    · exact hq

theorem wp_etagFromFile {t : Text} {size : Nat}
    {Q : Except Exn Text -> Focus -> Prop}
    (henv : Steady env) (hreads : K.Reads tag (resolve t))
    (hfd : g.fd = none) (hvisible : ¬ K.Hidden (resolve t))
    (hsmall : forall b v' g', size ≤ etagFallbackMaxBytes ->
      v (resolve t) = some (Entry.file b) -> env v v' -> g'.fd = none ->
      Q (Except.ok (d.platform.sha256.digest b)) ⟨v', g', seen⟩)
    (hempty : forall v' g' more,
      (etagFallbackMaxBytes < size ∨ K.Faulty ∨
        forall b, v (resolve t) ≠ some (Entry.file b)) ->
      env v v' -> Mute K more -> g'.fd = none ->
      Q (Except.ok []) ⟨v', g', seen ++ more⟩) :
    (K.machine tag env).wp (d.etagFromFile t size) Q ⟨v, g, seen⟩ := by
  unfold LocalFsBlobDriver.etagFromFile
  split
  · rename_i hbig
    have hq := hempty v g [] (Or.inl hbig) (henv.refl v) mute_nil hfd
    rw [List.append_nil] at hq
    exact hq
  · rename_i hsize
    rw [Machine.wp_tryCatch, Machine.wp_bind]
    apply wp_openRead hreads hfd hvisible
    · intro fh b v1 hb h1
      show (K.machine tag env).wp (Prog.tryFinally _ _) _ _
      rw [Machine.wp_tryFinally, Machine.wp_bind]
      apply wp_read
      · intro chunk v2 hchunk h2
        have h12 := henv.trans h1 h2
        have hall : chunk = b := hchunk
        subst hall
        apply wp_close (rfl)
        · intro v' h'
          exact hsmall chunk v' _ (Nat.le_of_not_gt hsize) hb
            (henv.trans h12 h') rfl
        · intro n v' hf h'
          exact hempty v' _ _ (Or.inr (Or.inl hf)) (henv.trans h12 h')
            (mute_failed _) rfl
      · intro n v2 hf h2
        have h12 := henv.trans h1 h2
        apply wp_close (rfl)
        · intro v' h'
          have hq := hempty v' (Hold.closed (resolve t) b []) []
            (Or.inr (Or.inl hf)) (henv.trans h12 h') mute_nil rfl
          rw [List.append_nil] at hq
          exact hq
        · intro n' v' _ h'
          exact hempty v' _ _ (Or.inr (Or.inl hf)) (henv.trans h12 h')
            (mute_failed _) rfl
    · intro n v' hreason h'
      have hq := hempty v' g [] (Or.inr hreason) h' mute_nil hfd
      rw [List.append_nil] at hq
      exact hq

end StorybookStorage
