import StorybookStorage.Drivers.Specs

/-!
# The driver's methods

Rules for `head`, `get`, `put`, `delete` and the sweep of stale staging files,
assembled from the rules of their parts.
-/

namespace StorybookStorage

open Python Posix Effects Contract

variable {ι : Type} {K : Contract ι} {tag : ι} {env : View -> View -> Prop}
  {v : View} {g : Hold} {seen : List Sight} {settings : Settings}
  (d : LocalFsBlobDriver) (slot : Slot settings)

/-!
## Head
-/

def fallbackInfo (key : Text) (size : Nat) (modified etag : Text) :
    ObjectInfo where
  key := key
  bytes := size
  contentType := Json.str (d.guessMime key)
  etag := Json.str etag
  modifiedAt := modified
  metadata := Json.obj []

/-- Where the etag of an object without a sidecar comes from. -/
def Recomputed (K : Contract ι) (v : View) (p : Path) (size : Nat)
    (etag : Text) : Prop :=
  (size ≤ etagFallbackMaxBytes ∧ exists b, v p = some (Entry.file b) ∧
      etag = d.platform.sha256.digest b) ∨
    (etag = [] ∧ (etagFallbackMaxBytes < size ∨ K.Faulty ∨
      forall b, v p ≠ some (Entry.file b)))

inductive Heads (K : Contract ι) (env : View -> View -> Prop) (v : View) :
    Except Exn (Option ObjectInfo) -> Prop where
  | absent (v1 : View) :
      env v v1 ->
      (K.Faulty ∨
        forall b, v1 (slot.objectLoc d.root) ≠ some (Entry.file b)) ->
      Heads K env v (Except.ok none)
  | recorded (st : Stat) (v1 v2 : View) (raw : Bytes) (j : Json) :
      env v v1 ->
      (exists b, v1 (slot.objectLoc d.root) = some (Entry.file b)) ->
      (forall b, v (slot.objectLoc d.root) = some (Entry.file b) ->
        st.size = b.length) ->
      env v1 v2 ->
      v2 (slot.sidecarLoc d.root) = some (Entry.file raw) ->
      readBack d raw = Except.ok (some j) ->
      j.truthy = true ->
      Heads K env v
        ((d.infoOfSidecar slot.key st (d.platform.isoformat st.mtime) j).map
          some)
  | unreadable (v1 v2 : View) (raw : Bytes) (e : Exn) :
      env v v1 ->
      env v1 v2 ->
      v2 (slot.sidecarLoc d.root) = some (Entry.file raw) ->
      readBack d raw = Except.error e ->
      Heads K env v (Except.error e)
  | fallback (st : Stat) (v1 v2 v3 : View) (etag : Text) :
      env v v1 ->
      (exists b, v1 (slot.objectLoc d.root) = some (Entry.file b)) ->
      (forall b, v (slot.objectLoc d.root) = some (Entry.file b) ->
        st.size = b.length) ->
      env v1 v2 ->
      (K.Faulty ∨ forall raw j,
        v2 (slot.sidecarLoc d.root) = some (Entry.file raw) ->
        readBack d raw = Except.ok (some j) -> j.truthy = false) ->
      env v2 v3 ->
      Recomputed d K v3 (slot.objectLoc d.root) st.size etag ->
      Heads K env v
        (Except.ok (some
          (fallbackInfo d slot.key st.size (d.platform.isoformat st.mtime)
            etag)))

theorem wp_head {Q : Except Exn (Option ObjectInfo) -> Focus -> Prop}
    (hK : K.toStaging = staging d.root) (henv : Steady env)
    (hobject : K.Reads tag (slot.objectLoc d.root))
    (hsidecar : K.Reads tag (slot.sidecarLoc d.root)) (hfd : g.fd = none)
    (h : forall o v' g' more, Heads d slot K env v o -> env v v' ->
      Mute K more -> g'.fd = none -> Q o ⟨v', g', seen ++ more⟩) :
    (K.machine tag env).wp (d.head slot.bucket slot.key) Q ⟨v, g, seen⟩ := by
  have hloc := slot.resolve_objectText d.root
  have hvisible : ¬ K.Hidden (resolve (slot.objectText d.root)) := by
    rw [hloc, hK]
    exact slot.visible_objectLoc d.root
  rw [← hloc] at hobject
  unfold LocalFsBlobDriver.head
  rw [slot.objectPath_ok]
  show (K.machine tag env).wp (safeStat _ >>= fun _ => _) Q _
  rw [Machine.wp_bind]
  apply wp_safeStat henv hvisible
  · intro st v1 v2 h1 hthere hsize h2
    rw [hloc] at hthere hsize
    show (K.machine tag env).wp (d.readSidecar slot.bucket slot.key >>= fun _ => _)
      Q _
    rw [Machine.wp_bind]
    have hfall : forall v3 g' more w, env w v3 -> env v1 w ->
        (K.Faulty ∨ forall raw j,
          w (slot.sidecarLoc d.root) = some (Entry.file raw) ->
          readBack d raw = Except.ok (some j) -> j.truthy = false) ->
        Mute K more -> g'.fd = none ->
        (K.machine tag env).wp
          (d.etagFromFile (slot.objectText d.root) st.size >>= fun etag =>
            pure (some (fallbackInfo d slot.key st.size
              (d.platform.isoformat st.mtime) etag))) Q
          ⟨v3, g', seen ++ more⟩ := by
      intro v3 g' more w hw3 h1w hno hmute hg'
      rw [Machine.wp_bind]
      apply wp_etagFromFile d henv hobject hg' hvisible
      · intro b v' g2 hsmall hb h' hg2
        rw [hloc] at hb
        exact h _ v' g2 more
          (Heads.fallback st v1 w v3 _ h1 hthere hsize h1w hno hw3
            (Or.inl ⟨hsmall, b, hb, rfl⟩))
          (henv.trans h1 (henv.trans h1w (henv.trans hw3 h'))) hmute hg2
      · intro v' g2 more' hreason h' hmute' hg2
        rw [hloc] at hreason
        rw [List.append_assoc]
        exact h _ v' g2 _
          (Heads.fallback st v1 w v3 _ h1 hthere hsize h1w hno hw3
            (Or.inr ⟨rfl, hreason⟩))
          (henv.trans h1 (henv.trans h1w (henv.trans hw3 h')))
          (hmute.append hmute') hg2
    apply wp_readSidecar d slot hK henv hsidecar hfd
    · intro raw v3 g' hraw h3 hg'
      cases hback : readBack d raw with
      | error e =>
          have hq := h (Except.error e) v3 g' []
            (Heads.unreadable v1 v2 raw e h1 h2 hraw hback)
            (henv.trans h1 (henv.trans h2 h3)) mute_nil hg'
          rw [List.append_nil] at hq
          exact hq
      | ok side =>
          have hno : (forall j, side = some j -> j.truthy = false) ->
              (K.machine tag env).wp
                (d.etagFromFile (slot.objectText d.root) st.size >>=
                  fun etag => pure (some (fallbackInfo d slot.key st.size
                    (d.platform.isoformat st.mtime) etag))) Q
                ⟨v3, g', seen⟩ := by
            intro hfalsy
            have hq := hfall v3 g' [] v2 h3 h2 (Or.inr ?_) mute_nil hg'
            · rw [List.append_nil] at hq
              exact hq
            · intro raw' j hraw' hback'
              rw [hraw] at hraw'
              cases hraw'
              rw [hback] at hback'
              exact hfalsy j (by simpa using hback')
          cases side with
          | none => exact hno (fun j hj => nomatch hj)
          | some j =>
              by_cases hj : j.truthy = true
              · dsimp only
                rw [Option.filter_some_pos hj]
                have hq := h _ v3 g' []
                  (Heads.recorded st v1 v2 raw j h1 hthere hsize h2 hraw hback
                    hj)
                  (henv.trans h1 (henv.trans h2 h3)) mute_nil hg'
                rw [List.append_nil] at hq
                show (K.machine tag env).wp (Prog.ofExcept _ >>= fun _ => _) Q _
                cases hinfo : d.infoOfSidecar slot.key st
                    (d.platform.isoformat st.mtime) j with
                | ok info =>
                    rw [hinfo] at hq
                    exact hq
                | error e =>
                    rw [hinfo] at hq
                    exact hq
              · dsimp only
                rw [Option.filter_some_neg (by simpa using hj)]
                apply hno
                intro j' hj'
                cases hj'
                simpa using hj
    · intro v3 g' more hreason h3 hmute hg'
      refine hfall v3 g' more v2 h3 h2 ?_ hmute hg'
      rcases hreason with hf | hnone
      · exact Or.inl hf
      · exact Or.inr (fun raw j hraw => absurd hraw (hnone raw))
  · intro v1 v' h1 hreason h'
    rw [hloc] at hreason
    have hq := h (Except.ok none) v' g [] (Heads.absent v1 h1 hreason)
      (henv.trans h1 h') mute_nil hfd
    rw [List.append_nil] at hq
    exact hq

/-!
## Streams
-/

theorem prefix_append_take {body got : Bytes} (h : got <+: body) (n : Nat) :
    got ++ (body.drop got.length).take n <+: body := by
  rcases h with ⟨rest, hrest⟩
  have hdrop : body.drop got.length = rest := by
    rw [← hrest, List.drop_left]
  rw [hdrop, ← hrest]
  exact (List.prefix_append_right_inj got).mpr (List.take_prefix n rest)

theorem eq_of_take_nil {body got : Bytes} {n : Nat} (h : got <+: body)
    (hn : 0 < n) (hnil : (body.drop got.length).take n = []) : got = body := by
  rcases h with ⟨rest, hrest⟩
  have hdrop : body.drop got.length = rest := by
    rw [← hrest, List.drop_left]
  rw [hdrop] at hnil
  rcases List.take_eq_nil_iff.mp hnil with h0 | h0
  · omega
  · rw [← hrest, h0, List.append_nil]

theorem wp_consume {fh : Nat} {p : Path} {body : Bytes} (pulls : Nat)
    (got : Bytes) {Q : Except Exn (Bytes × Bool) -> Focus -> Prop}
    (henv : Steady env) (hgot : got <+: body)
    (hok : forall got' ended v', got' <+: body ->
      (ended = true -> got' = body) ->
      (ended = false -> got.length + pulls ≤ got'.length) -> env v v' ->
      Q (Except.ok (got', ended)) ⟨v', Hold.closed p body got', seen⟩)
    (herr : forall n v' got' more, K.Faulty -> env v v' -> Mute K more ->
      Q (Except.error (Exn.os n))
        ⟨v', Hold.closed p body got', seen ++ more⟩) :
    (K.machine tag env).wp
      ((LocalFsBlobDriver.Stream.reading fh).consume pulls got) Q
      ⟨v, Hold.reading fh p body got, seen⟩ := by
  induction pulls generalizing v got with
  | zero =>
      show (K.machine tag env).wp (Os.close fh >>= fun _ => _) Q _
      rw [Machine.wp_bind]
      apply wp_close (rfl)
      · intro v' h'
        exact hok got false v' hgot (fun h => nomatch h) (fun _ => Nat.le_refl _)
          h'
      · intro n v' hf h'
        exact herr n v' got _ hf h' (mute_failed _)
  | succ pulls ih =>
      show (K.machine tag env).wp
        (LocalFsBlobDriver.Stream.pull fh >>= fun _ => _) Q _
      rw [Machine.wp_bind]
      unfold LocalFsBlobDriver.Stream.pull
      rw [Machine.wp_bind, Machine.wp_onError]
      apply wp_read
      · intro chunk v1 hchunk h1
        have htake : chunk = (body.drop got.length).take chunkSize := hchunk
        show (K.machine tag env).wp (if chunk = [] then _ else _) _ _
        split
        · rename_i hnil
          have hall : got = body := by
            rw [htake] at hnil
            exact eq_of_take_nil hgot (by decide) hnil
          rw [Machine.wp_bind]
          apply wp_close (rfl)
          · intro v' h'
            have hq := hok (got ++ chunk) true v'
            rw [hnil, List.append_nil] at hq ⊢
            exact hq hgot (fun _ => hall) (fun h => nomatch h)
              (henv.trans h1 h')
          · intro n v' hf h'
            exact herr n v' _ _ hf (henv.trans h1 h') (mute_failed _)
        · rename_i hmore
          have hlen : 1 ≤ chunk.length := List.length_pos_iff.mpr hmore
          apply ih (got ++ chunk)
          · rw [htake]
            exact prefix_append_take hgot chunkSize
          · intro got' ended v' hgot' hend hshort h'
            apply hok got' ended v' hgot' hend _ (henv.trans h1 h')
            intro hfalse
            have hs := hshort hfalse
            rw [List.length_append] at hs
            omega
          · intro n v' got' more hf h' hmute
            exact herr n v' got' more hf (henv.trans h1 h') hmute
      · intro n v1 hf h1
        apply wp_close (rfl)
        · intro v' h'
          have hq := herr n v' got [] hf (henv.trans h1 h') mute_nil
          rw [List.append_nil] at hq
          exact hq
        · intro n' v' _ h'
          exact herr n' v' got _ hf (henv.trans h1 h') (mute_failed _)

theorem wp_consume_fresh {pulls : Nat} {seen : List Sight}
    {Q : Except Exn (Bytes × Bool) -> Focus -> Prop}
    (hK : K.toStaging = staging d.root) (henv : Steady env)
    (hreads : K.Reads tag (slot.objectLoc d.root)) (hfd : g.fd = none)
    (hunopened : pulls = 0 -> Q (Except.ok ([], false)) ⟨v, g, seen⟩)
    (hopened : forall b v' got ended,
      v (slot.objectLoc d.root) = some (Entry.file b) ->
      got <+: b -> (ended = true -> got = b) ->
      (ended = false -> pulls ≤ got.length) -> env v v' ->
      Q (Except.ok (got, ended))
        ⟨v', Hold.closed (slot.objectLoc d.root) b got, seen⟩)
    (hbroken : forall n v' g' more,
      (K.Faulty ∨ forall b,
        v (slot.objectLoc d.root) ≠ some (Entry.file b)) ->
      env v v' -> Mute K more ->
      (g' = g ∨ exists b got,
        g' = Hold.closed (slot.objectLoc d.root) b got) ->
      Q (Except.error (Exn.os n)) ⟨v', g', seen ++ more⟩) :
    (K.machine tag env).wp
      ((LocalFsBlobDriver.Stream.fresh (slot.objectText d.root)).consume pulls
        []) Q ⟨v, g, seen⟩ := by
  have hloc := slot.resolve_objectText d.root
  have hvisible : ¬ K.Hidden (resolve (slot.objectText d.root)) := by
    rw [hloc, hK]
    exact slot.visible_objectLoc d.root
  cases pulls with
  | zero => exact hunopened rfl
  | succ pulls =>
      show (K.machine tag env).wp
        ((Os.openRead (slot.objectText d.root) >>= fun fh =>
          LocalFsBlobDriver.Stream.pull fh) >>= fun _ => _) _ _
      rw [bind_assoc, Machine.wp_bind]
      rw [← hloc] at hreads
      apply wp_openRead hreads hfd hvisible
      · intro fh b v2 hb h2
        rw [hloc] at hb
        rw [hloc]
        apply wp_consume (pulls + 1) [] henv List.nil_prefix
        · intro got ended v' hgot hend hshort h'
          apply hopened b v' got ended hb hgot hend _ (henv.trans h2 h')
          intro hfalse
          have hs := hshort hfalse
          simpa using hs
        · intro n v' got more hf h' hmute
          exact hbroken n v' _ more (Or.inl hf) (henv.trans h2 h') hmute
            (Or.inr ⟨b, got, rfl⟩)
      · intro n v2 hreason h2
        rw [hloc] at hreason
        have hq := hbroken n v2 g [] hreason h2 mute_nil (Or.inl rfl)
        rw [List.append_nil] at hq
        exact hq

theorem wp_fetch {pulls : Nat} {seen : List Sight}
    {Q : Except Exn (Option (Bytes × Bool)) -> Focus -> Prop}
    (hK : K.toStaging = staging d.root) (henv : Steady env)
    (hreads : K.Reads tag (slot.objectLoc d.root)) (hfd : g.fd = none)
    (habsent : forall v',
      (K.Faulty ∨ forall b,
        v (slot.objectLoc d.root) ≠ some (Entry.file b)) ->
      env v v' -> Q (Except.ok none) ⟨v', g, seen⟩)
    (hunopened : forall b v',
      v (slot.objectLoc d.root) = some (Entry.file b) -> pulls = 0 -> env v v' ->
      Q (Except.ok (some ([], false))) ⟨v', g, seen⟩)
    (hopened : forall b v1 v' got ended,
      env v v1 -> v1 (slot.objectLoc d.root) = some (Entry.file b) ->
      got <+: b -> (ended = true -> got = b) ->
      (ended = false -> pulls ≤ got.length) -> env v1 v' ->
      Q (Except.ok (some (got, ended)))
        ⟨v', Hold.closed (slot.objectLoc d.root) b got, seen⟩)
    (hbroken : forall n b v1 v' g' more,
      v (slot.objectLoc d.root) = some (Entry.file b) ->
      (K.Faulty ∨ forall b,
        v1 (slot.objectLoc d.root) ≠ some (Entry.file b)) ->
      env v v1 -> env v1 v' -> Mute K more ->
      (g' = g ∨ exists b got,
        g' = Hold.closed (slot.objectLoc d.root) b got) ->
      Q (Except.error (Exn.os n)) ⟨v', g', seen ++ more⟩) :
    (K.machine tag env).wp (d.fetch slot.bucket slot.key pulls) Q
      ⟨v, g, seen⟩ := by
  have hloc := slot.resolve_objectText d.root
  have hvisible : ¬ K.Hidden (resolve (slot.objectText d.root)) := by
    rw [hloc, hK]
    exact slot.visible_objectLoc d.root
  unfold LocalFsBlobDriver.fetch LocalFsBlobDriver.get
  rw [slot.objectPath_ok, Machine.wp_bind]
  show (K.machine tag env).wp (Os.isfile _ >>= fun _ => _) _ _
  rw [Machine.wp_bind]
  apply wp_isfile
  intro regular v1 h1 hanswer
  rw [hloc] at hanswer
  rw [hloc] at hvisible
  rcases hanswer hvisible with ⟨htrue, hfalse⟩
  cases regular with
  | false => exact habsent v1 (hfalse rfl) h1
  | true =>
      rcases htrue rfl with ⟨b0, hb0⟩
      show (K.machine tag env).wp
        ((LocalFsBlobDriver.Stream.fresh (slot.objectText d.root)).consume
          pulls [] >>= fun r => pure (some r)) Q _
      rw [Machine.wp_bind]
      apply wp_consume_fresh d slot hK henv hreads hfd
      · intro hzero
        exact hunopened b0 v1 hb0 hzero h1
      · intro b v' got ended hb hgot hend hshort h'
        exact hopened b v1 v' got ended h1 hb hgot hend hshort h'
      · intro n v' g' more hreason h' hmute hg'
        exact hbroken n b0 v1 v' g' more hb0 hreason h1 h' hmute hg'

/-!
## Deleting
-/

def Unlinked (K : Contract ι) (env : View -> View -> Prop) (v : View) (p : Path)
    (v' : View) : Bool -> Prop
  | true => (exists b, v p = some (Entry.file b)) ∧
      env (Function.update v p none) v'
  | false => (K.Faulty ∨ forall b, v p ≠ some (Entry.file b)) ∧ env v v'

def unlinkSight (t : Text) (gone : Bool) : Sight :=
  if gone then Sight.removed (resolve t) else Sight.failed (Call.remove t)

theorem wp_delete {Q : Except Exn Bool -> Focus -> Prop}
    (hK : K.toStaging = staging d.root) (hfd : g.fd = none)
    (hobject : K.Removes tag seen (slot.objectLoc d.root))
    (hsidecar : forall existed, K.Removes tag
      (seen ++ [unlinkSight (slot.objectText d.root) existed])
      (slot.sidecarLoc d.root))
    (h : forall existed cleaned v1 v',
      Unlinked K env v (slot.objectLoc d.root) v1 existed ->
      Unlinked K env v1 (slot.sidecarLoc d.root) v' cleaned ->
      Q (Except.ok existed)
        ⟨v', g, seen ++ [unlinkSight (slot.objectText d.root) existed] ++
          [unlinkSight (slot.sidecarText d.root) cleaned]⟩) :
    (K.machine tag env).wp (d.delete slot.bucket slot.key) Q ⟨v, g, seen⟩ := by
  have hobj := slot.resolve_objectText d.root
  have hside := slot.resolve_sidecarText d.root
  have hclean : forall existed v1,
      Unlinked K env v (slot.objectLoc d.root) v1 existed ->
      (K.machine tag env).wp
        (safeUnlink (slot.sidecarText d.root) >>= fun _ => pure existed) Q
        ⟨v1, g, seen ++ [unlinkSight (slot.objectText d.root) existed]⟩ := by
    intro existed v1 h1
    rw [Machine.wp_bind]
    apply wp_safeUnlink hfd
    · rw [hside, hK]
      exact slot.visible_sidecarLoc d.root
    · rw [hside]
      exact hsidecar existed
    · intro v' b hb h'
      rw [hside] at hb h'
      exact h existed true v1 v' h1 ⟨⟨b, hb⟩, h'⟩
    · intro v' hreason h'
      rw [hside] at hreason
      exact h existed false v1 v' h1 ⟨hreason, h'⟩
  unfold LocalFsBlobDriver.delete
  rw [slot.objectPath_ok, slot.metaPath_ok]
  show (K.machine tag env).wp (safeUnlink _ >>= fun _ => _) Q _
  rw [Machine.wp_bind]
  apply wp_safeUnlink hfd
  · rw [hobj, hK]
    exact slot.visible_objectLoc d.root
  · rw [hobj]
    exact hobject
  · intro v1 b hb h1
    rw [hobj] at hb h1
    exact hclean true v1 ⟨⟨b, hb⟩, h1⟩
  · intro v1 hreason h1
    rw [hobj] at hreason
    exact hclean false v1 ⟨hreason, h1⟩

/-!
## Putting
-/

/-- What a task must be allowed to do to put a body at a slot, once its
existence test has been answered. -/
structure MayPut (K : Contract ι) (tag : ι) (data : Data) (contentType : Text)
    (metadata : Metadata) (seen : List Sight) : Prop where
  writes : K.Writes tag
  stages : forall u, IsToken u ->
    K.Stages tag seen (resolve d.root ++ [tmpDir, u])
  makes : K.Makes tag seen (slot.objectLoc d.root).dropLast
  publishes : data.ending = none ->
    K.Publishes tag seen (slot.objectLoc d.root) data.body
  sidecarStages : forall u, IsToken u ->
    K.Stages tag (seen ++ [Sight.placed (slot.objectLoc d.root)])
      (resolve (sidecarTmp (slot.sidecarText d.root) u))
  sidecarMakes : K.Makes tag (seen ++ [Sight.placed (slot.objectLoc d.root)])
    (slot.sidecarLoc d.root).dropLast
  sidecarPublishes : forall now,
    K.Publishes tag (seen ++ [Sight.placed (slot.objectLoc d.root)])
      (slot.sidecarLoc d.root)
      (sidecarBytes d contentType (d.platform.sha256.digest data.body)
        data.body.length metadata now)

def storedResult (data : Data) : PutResult where
  etag := Json.str (d.platform.sha256.digest data.body)
  bytes := data.body.length
  deduped := false

theorem digestFrom_asAiter (data : Data) :
    d.platform.sha256.hexdigest
        (digestFrom d (d.platform.sha256.init, 0) (asAiter data).chunks).1 =
      d.platform.sha256.digest data.body ∧
    (digestFrom d (d.platform.sha256.init, 0) (asAiter data).chunks).2 =
      data.body.length := by
  constructor
  · show d.platform.sha256.hexdigest (List.foldl _ _ _) = _
    rw [d.platform.sha256.hexdigest_foldl, asAiter_flatten]
  · show 0 + (asAiter data).chunks.flatten.length = _
    rw [asAiter_flatten, Nat.zero_add]

def SidecarStep (K : Contract ι) (env : View -> View -> Prop) (v : View)
    (data : Data) (contentType : Text) (metadata : Metadata) (v' : View)
    (more : List Sight) : Prop :=
  (more = [Sight.placed (slot.sidecarLoc d.root)] ∧ exists now,
      Placed env v (slot.sidecarLoc d.root)
        (sidecarBytes d contentType (d.platform.sha256.digest data.body)
          data.body.length metadata now) v') ∨
    (Broken K more ∧ Tried env v (slot.sidecarLoc d.root) v' ∧
      Thwarted K env (slot.sidecarLoc d.root) v)

theorem wp_stored {data : Data} {contentType : Text} {metadata : Metadata}
    {Q : Except Exn PutResult -> Focus -> Prop}
    (hK : K.toStaging = staging d.root) (henv : Steady env)
    (hfd : g.fd = none)
    (hmay : MayPut d slot K tag data contentType metadata seen)
    (hrefused : forall e v' u more,
      Refused K env d.root (slot.objectLoc d.root) (asAiter data) v e ->
      Tried env v (slot.objectLoc d.root) v' -> Mute K more ->
      Q (Except.error e) ⟨v', Hold.spent u, seen ++ more⟩)
    (hstored : forall v1 v' g' more, data.ending = none ->
      Placed env v (slot.objectLoc d.root) data.body v1 ->
      SidecarStep d slot K env v1 data contentType metadata v' more ->
      g'.fd = none ->
      Q (Except.ok (storedResult d data))
        ⟨v', g', seen ++ [Sight.placed (slot.objectLoc d.root)] ++ more⟩) :
    (K.machine tag env).wp
      (newTmpPath d.root >>= fun tmp =>
        (((d.stage tmp (slot.objectText d.root) (asAiter data)).tryCatch
          (fun e => Prog.raise (LocalFsBlobDriver.translateOsError e))).onError
            (safeUnlink tmp)) >>= fun acc =>
        d.writeSidecar slot.bucket slot.key contentType
          (d.platform.sha256.hexdigest acc.1) acc.2 metadata >>= fun _ =>
        pure
          { etag := Json.str (d.platform.sha256.hexdigest acc.1)
            bytes := acc.2
            deduped := false }) Q ⟨v, g, seen⟩ := by
  rcases digestFrom_asAiter d data with ⟨hetag, hsize⟩
  rw [Machine.wp_bind]
  unfold newTmpPath
  rw [Machine.wp_bind]
  apply wp_uuid4 hmay.writes hfd
  intro u v1 hu hfree h1
  show (K.machine tag env).wp (Prog.onError _ _ >>= fun _ => _) Q _
  rw [Machine.wp_bind]
  apply wp_storing d slot hK henv hu h1 hfree (hmay.stages u hu) hmay.makes
  · intro hend
    rw [asAiter_flatten]
    rw [asAiter_ending] at hend
    exact hmay.publishes hend
  · intro v2 hend hplaced
    rw [asAiter_ending] at hend
    rw [asAiter_flatten] at hplaced
    show (K.machine tag env).wp (d.writeSidecar _ _ _ _ _ _ >>= fun _ => _) Q _
    rw [Machine.wp_bind, hetag, hsize]
    apply wp_writeSidecar d slot hK henv rfl hmay.writes hmay.sidecarMakes
      hmay.sidecarStages hmay.sidecarPublishes
    · intro now v' w hsidecar
      exact hstored v2 v' _ _ hend (hplaced.after henv h1)
        (Or.inl ⟨rfl, now, hsidecar⟩) rfl
    · intro v' g' more htried hbroken hwhy hg'
      exact hstored v2 v' g' more hend (hplaced.after henv h1)
        (Or.inr ⟨hbroken, htried, hwhy⟩) hg'
  · intro e v' more hwhy htried hmute
    exact hrefused e v' u more hwhy (htried.after henv h1) hmute

def testedSights (root : Text) (ifNoneMatch : Option Text) : List Sight :=
  if ifNoneMatch = some (text "*") then
    [Sight.tested (slot.objectLoc root) false]
  else
    []

theorem wp_put {data : Data} {contentType : Text} {ifNoneMatch : Option Text}
    {metadata : Option Metadata} {Q : Except Exn PutResult -> Focus -> Prop}
    (hK : K.toStaging = staging d.root) (henv : Steady env)
    (hobject : K.Reads tag (slot.objectLoc d.root))
    (hsidecar : K.Reads tag (slot.sidecarLoc d.root)) (hfd : g.fd = none)
    (hmay : MayPut d slot K tag data contentType (metadata.getD ∅)
      (seen ++ testedSights slot d.root ifNoneMatch))
    (hdedup : forall o v1 v' g' more, ifNoneMatch = some (text "*") ->
      v (slot.objectLoc d.root) ≠ none -> env v v1 ->
      Heads d slot K env v1 o -> env v1 v' -> Mute K more -> g'.fd = none ->
      Q (o.map LocalFsBlobDriver.dedupResult)
        ⟨v', g', seen ++ [Sight.tested (slot.objectLoc d.root) true] ++ more⟩)
    (hrefused : forall e v1 v' u more,
      (ifNoneMatch = some (text "*") ->
        v (slot.objectLoc d.root) = none ∨ K.Faulty) ->
      env v v1 ->
      Refused K env d.root (slot.objectLoc d.root) (asAiter data) v1 e ->
      Tried env v1 (slot.objectLoc d.root) v' -> Mute K more ->
      Q (Except.error e)
        ⟨v', Hold.spent u,
          seen ++ testedSights slot d.root ifNoneMatch ++ more⟩)
    (hstored : forall v1 v2 v' g' more,
      (ifNoneMatch = some (text "*") ->
        v (slot.objectLoc d.root) = none ∨ K.Faulty) ->
      env v v1 -> data.ending = none ->
      Placed env v1 (slot.objectLoc d.root) data.body v2 ->
      SidecarStep d slot K env v2 data contentType (metadata.getD ∅) v' more ->
      g'.fd = none ->
      Q (Except.ok (storedResult d data))
        ⟨v', g',
          seen ++ testedSights slot d.root ifNoneMatch ++
            [Sight.placed (slot.objectLoc d.root)] ++ more⟩) :
    (K.machine tag env).wp
      (d.put slot.bucket slot.key data contentType ifNoneMatch metadata) Q
      ⟨v, g, seen⟩ := by
  have hloc := slot.resolve_objectText d.root
  unfold LocalFsBlobDriver.put
  rw [slot.objectPath_ok]
  by_cases hcond : ifNoneMatch = some (text "*")
  · have hsights : testedSights slot d.root ifNoneMatch =
        [Sight.tested (slot.objectLoc d.root) false] := if_pos hcond
    rw [hsights] at hmay hrefused hstored
    show (K.machine tag env).wp
      (if ifNoneMatch = some (text "*") then _ else _) Q _
    rw [if_pos hcond]
    show (K.machine tag env).wp (Os.pathExists _ >>= fun _ => _) Q _
    rw [Machine.wp_bind]
    apply wp_pathExists
    · rw [hloc, hK]
      exact slot.visible_objectLoc d.root
    · intro v1 hthere h1
      rw [hloc] at hthere
      rw [hloc]
      show (K.machine tag env).wp (d.head slot.bucket slot.key >>= fun _ => _) Q _
      rw [Machine.wp_bind]
      apply wp_head d slot hK henv hobject hsidecar hfd
      intro o v' g' more hheads h' hmute hg'
      have hq := hdedup o v1 v' g' more hcond hthere h1 hheads h' hmute hg'
      cases o <;> exact hq
    · intro v1 hnone h1
      rw [hloc] at hnone
      rw [hloc]
      apply wp_stored d slot hK henv hfd hmay
      · intro e v' u more hwhy htried hmute
        exact hrefused e v1 v' u more (fun _ => hnone) h1 hwhy htried hmute
      · intro v2 v' g' more hend hplaced hsidecar hg'
        exact hstored v1 v2 v' g' more (fun _ => hnone) h1 hend hplaced hsidecar
          hg'
  · have hsights : testedSights slot d.root ifNoneMatch = [] := if_neg hcond
    rw [hsights, List.append_nil] at hmay hrefused hstored
    show (K.machine tag env).wp
      (if ifNoneMatch = some (text "*") then _ else _) Q _
    rw [if_neg hcond]
    apply wp_stored d slot hK henv hfd hmay
    · intro e v' u more hwhy htried hmute
      exact hrefused e v v' u more (fun h => absurd h hcond) (henv.refl v) hwhy
        htried hmute
    · intro v2 v' g' more hend hplaced hsidecar hg'
      exact hstored v v2 v' g' more (fun h => absurd h hcond) (henv.refl v) hend
        hplaced hsidecar hg'

/-!
## Sweeping
-/

theorem wp_cleanupStaleTmp {olderThanSec : Rat}
    {Q : Except Exn Nat -> Focus -> Prop} (hfd : g.fd = none)
    (htoken : g.token = none) (hsweeps : K.Sweeps)
    (hremoves : forall seen p, K.Removes tag seen p)
    (h : forall o v' seen', Q o ⟨v', g, seen'⟩) :
    (K.machine tag env).wp (cleanupStaleTmp d.root olderThanSec) Q
      ⟨v, g, seen⟩ := by
  have hforsake : g.forsake = g := by
    cases g <;> first | rfl | cases htoken
  have hsweep : forall tmp cutoff names removed v seen,
      (K.machine tag env).wp (sweepNames tmp cutoff names removed) Q
        ⟨v, g, seen⟩ := by
    intro tmp cutoff names
    induction names with
    | nil =>
        intro removed v seen
        exact h _ _ _
    | cons name rest ih =>
        intro removed v seen
        show (K.machine tag env).wp (sweepEntry _ _ >>= fun _ => _) Q _
        rw [Machine.wp_bind]
        unfold sweepEntry
        rw [Machine.wp_tryCatch, Machine.wp_bind]
        apply wp_isfile
        intro regular v1 _ _
        cases regular with
        | false => exact ih _ _ _
        | true =>
            show (K.machine tag env).wp (Os.getmtime _ >>= fun _ => _) _ _
            rw [Machine.wp_bind]
            apply wp_getmtime
            · intro mtime v2 _
              show (K.machine tag env).wp (if mtime < cutoff then _ else _) _ _
              split
              · rw [Machine.wp_bind]
                by_cases hhidden : K.Hidden (resolve (join tmp name))
                · apply wp_remove_hidden hfd hhidden (Or.inl hsweeps)
                  intro r v3 seen' _ _
                  rw [hforsake]
                  cases r with
                  | ok _ => exact ih _ _ _
                  | error e => exact ih _ _ _
                · apply wp_remove_visible hfd hhidden (hremoves _ _)
                  · intro v3 b _ _
                    exact ih _ _ _
                  · intro e v3 _ _
                    exact ih _ _ _
              · exact ih _ _ _
            · intro e v2 _
              exact ih _ _ _
  unfold cleanupStaleTmp
  rw [Machine.wp_bind]
  apply wp_isdir
  intro there v1 _
  cases there with
  | false => exact h _ _ _
  | true =>
      show (K.machine tag env).wp (Os.time >>= fun _ => _) _ _
      rw [Machine.wp_bind]
      apply wp_time
      intro now v2 _
      show (K.machine tag env).wp (Os.listdir _ >>= fun _ => _) _ _
      rw [Machine.wp_bind]
      apply wp_listdir
      · intro names v3 _
        exact hsweep _ _ _ _ _ _
      · intro e v3 _
        exact h _ _ _

end StorybookStorage
