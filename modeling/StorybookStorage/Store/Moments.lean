import StorybookStorage.Store.Litter

/-!
# The staging directory at every moment

While a put runs, whatever fails, the only file that is new in the staging
directory is its own, and that file never has more bytes than its source has
yielded.
-/

namespace StorybookStorage

open Python Posix Effects FileTree

variable {settings : Settings} {d : LocalFsBlobDriver} {allow : Policy}
  {fs0 fs fs' : FileTree} {u : Text} {n : Nat}

/-- No new file in the staging directory holds more than so many bytes. -/
def Limited (root : Text) (fs0 : FileTree) (n : Nat) (fs : FileTree) : Prop :=
  forall w b, fs0.isFile (tmpLoc root w) = false ->
    fs.content (tmpLoc root w) = some b -> b.length ≤ n

def Alone (root : Text) (fs0 : FileTree) (u : Text) (fs : FileTree) : Prop :=
  forall w, w ≠ u -> fs0.isFile (tmpLoc root w) = false ->
    fs.isFile (tmpLoc root w) = false

def Unstaged (root : Text) (fs0 fs : FileTree) : Prop :=
  forall w, fs0.isFile (tmpLoc root w) = false ->
    fs.isFile (tmpLoc root w) = false

/-- The staging file of a token, if there is one, is this short. -/
structure Holding (root : Text) (fs0 : FileTree) (u : Text) (n : Nat)
    (fs : FileTree) : Prop where
  alone : Alone root fs0 u fs
  short : forall b, fs.content (tmpLoc root u) = some b -> b.length ≤ n

/-- The staging file is open, and its bytes with those still buffered are this
few. -/
structure Filling (root : Text) (fs0 : FileTree) (u : Text) (fd n : Nat)
    (fs : FileTree) : Prop where
  alone : Alone root fs0 u fs
  handle : exists x, fs.handles fd = some x ∧
    fs.node (tmpLoc root u) = some (Node.file x.ino) ∧
    (fs.inodes x.ino).data.length + x.pending.length ≤ n

theorem tmpLoc_inj {root v w : Text} (h : tmpLoc root v = tmpLoc root w) :
    v = w := by
  have htail := List.append_cancel_left h
  simpa using htail

theorem content_none_of_not_file {q : Path} (h : fs.isFile q = false) :
    fs.content q = none := by
  unfold FileTree.isFile at h
  simpa using h

theorem Unstaged.holding (h : Unstaged d.root fs0 fs)
    (hu : fs0.isFile (tmpLoc d.root u) = false) :
    Holding d.root fs0 u n fs where
  alone := fun w _ hw => h w hw
  short := by
    intro b hb
    rw [content_none_of_not_file (h u hu)] at hb
    cases hb

theorem Holding.limited (h : Holding d.root fs0 u n fs) :
    Limited d.root fs0 n fs := by
  intro w b hw hb
  rcases eq_or_ne w u with rfl | hne
  · exact h.short b hb
  · rw [content_none_of_not_file (h.alone w hne hw)] at hb
    cases hb

theorem Unstaged.limited (h : Unstaged d.root fs0 fs) :
    Limited d.root fs0 n fs := by
  intro w b hw hb
  rw [content_none_of_not_file (h w hw)] at hb
  cases hb

theorem Holding.mono {m : Nat} (h : Holding d.root fs0 u n fs) (hle : n ≤ m) :
    Holding d.root fs0 u m fs where
  alone := h.alone
  short := fun b hb => Nat.le_trans (h.short b hb) hle

theorem Filling.holding {fd : Nat} (h : Filling d.root fs0 u fd n fs) :
    Holding d.root fs0 u n fs where
  alone := h.alone
  short := by
    intro b hb
    rcases h.handle with ⟨x, _, hnode, hlen⟩
    unfold FileTree.content at hb
    rw [hnode] at hb
    cases hb
    omega

/-!
## One call
-/

theorem step_not_file {c : Call} {r : Call.Ret c} {q : Path}
    (h : (system allow).machine.Step fs c r fs') (hq : q ∉ placesFile c r)
    (hold : fs.isFile q = false) : fs'.isFile q = false := by
  rcases h with ⟨ch, _, hexec⟩
  rw [Bool.eq_false_iff] at hold ⊢
  intro hfile
  rcases isFile_iff.mp hfile with ⟨i, hi⟩
  rcases exec_file hexec hi with hbefore | hplaced
  · exact hold (isFile_iff.mpr ⟨i, hbefore⟩)
  · exact hq hplaced

theorem Unstaged.step {c : Call} {r : Call.Ret c}
    (h : Unstaged d.root fs0 fs)
    (hstep : (system allow).machine.Step fs c r fs')
    (hnames : forall q, q ∈ c.names -> forall w, q ≠ tmpLoc d.root w) :
    Unstaged d.root fs0 fs' := by
  intro w hw
  apply step_not_file hstep _ (h w hw)
  intro hplaced
  exact hnames _ (placesFile_names hplaced) w rfl

theorem Alone.step {c : Call} {r : Call.Ret c} (h : Alone d.root fs0 u fs)
    (hstep : (system allow).machine.Step fs c r fs')
    (hplaces : forall q, q ∈ placesFile c r ->
      forall w, w ≠ u -> q ≠ tmpLoc d.root w) :
    Alone d.root fs0 u fs' := by
  intro w hne hw
  apply step_not_file hstep _ (h w hne hw)
  intro hplaced
  exact hplaces _ hplaced w hne rfl

theorem Alone.congr (h : Alone d.root fs0 u fs)
    (hnode : forall q, fs'.node q = fs.node q) : Alone d.root fs0 u fs' := by
  intro w hne hw
  have hold := h w hne hw
  rw [Bool.eq_false_iff] at hold ⊢
  intro hfile
  rcases isFile_iff.mp hfile with ⟨i, hi⟩
  rw [hnode] at hi
  exact hold (isFile_iff.mpr ⟨i, hi⟩)

theorem Filling.drain {fd k : Nat} {x : Handle} {chunk : Bytes} {now : Rat}
    (h : Filling d.root fs0 u fd n fs) (hx : fs.handles fd = some x) :
    Filling d.root fs0 u fd (n + chunk.length)
      (fs.drain fd
        { ino := x.ino, pos := x.pos, pending := x.pending ++ chunk } k now) where
  alone := h.alone.congr fun _ => rfl
  handle := by
    rcases h.handle with ⟨y, hy, hnode, hlen⟩
    rw [hx] at hy
    cases hy
    refine ⟨_, Function.update_self _ _ _, hnode, ?_⟩
    have hino : ((fs.drain fd
        { ino := x.ino, pos := x.pos, pending := x.pending ++ chunk } k
        now).inodes x.ino).data =
          (fs.inodes x.ino).data ++ (x.pending ++ chunk).take k := by
      simp [FileTree.drain, FileTree.setInode, FileTree.setHandle]
    dsimp only
    rw [hino, List.length_append, List.length_take, List.length_drop,
      List.length_append]
    omega

theorem Filling.write {fd : Nat} {chunk : Bytes} {r : Except Errno Unit}
    (h : Filling d.root fs0 u fd n fs)
    (hstep : (system allow).machine.Step fs (Call.write fd chunk) r fs') :
    Filling d.root fs0 u fd (n + chunk.length) fs' := by
  rcases hstep with ⟨ch, _, hexec⟩
  rcases exec_write hexec with ⟨hnone, _⟩ | ⟨x, hx, rfl, _⟩
  · rcases h.handle with ⟨y, hy, _⟩
    rw [hnone] at hy
    cases hy
  · exact h.drain hx

theorem Filling.flush {fd : Nat} {r : Except Errno Unit}
    (h : Filling d.root fs0 u fd n fs)
    (hstep : (system allow).machine.Step fs (Call.flush fd) r fs') :
    Filling d.root fs0 u fd n fs' := by
  rcases hstep with ⟨ch, _, hexec⟩
  rcases exec_flush hexec with ⟨hnone, _⟩ | ⟨x, k, hx, rfl, _⟩
  · rcases h.handle with ⟨y, hy, _⟩
    rw [hnone] at hy
    cases hy
  · have hdrained := @Filling.drain _ _ _ _ _ _ k _ [] ch.now h hx
    rwa [List.append_nil] at hdrained

theorem Filling.close {fd : Nat} {r : Except Errno Unit}
    (h : Filling d.root fs0 u fd n fs)
    (hstep : (system allow).machine.Step fs (Call.close fd) r fs') :
    Holding d.root fs0 u n fs' := by
  rcases hstep with ⟨ch, _, hexec⟩
  rcases exec_close hexec with ⟨hnone, _⟩ | ⟨x, k, hx, rfl, _⟩
  · rcases h.handle with ⟨y, hy, _⟩
    rw [hnone] at hy
    cases hy
  · have hdrained := @Filling.drain _ _ _ _ _ _ k _ [] ch.now h hx
    rw [List.append_nil] at hdrained
    have hholding := hdrained.holding
    exact
      { alone := hholding.alone.congr fun _ => rfl
        short := hholding.short }

theorem Unstaged.openWrite {r : Except Errno Nat} (htoken : IsToken u)
    (hu : fs0.isFile (tmpLoc d.root u) = false)
    (h : Unstaged d.root fs0 fs)
    (hstep : (system allow).machine.Step fs
      (Call.openWrite (tmpText d.root u)) r fs') :
    (forall fd, r = Except.ok fd -> Filling d.root fs0 u fd 0 fs') ∧
      Holding d.root fs0 u 0 fs' := by
  have htmp : resolve (tmpText d.root u) = tmpLoc d.root u :=
    resolve_tmpText htoken
  have halone : Alone d.root fs0 u fs' := by
    apply Alone.step (fun w _ hw => h w hw) hstep
    intro q hq w hne heq
    have hplace := placesFile_names hq
    rw [List.mem_singleton.mp hplace, htmp] at heq
    exact hne (tmpLoc_inj heq).symm
  rcases hstep with ⟨ch, _, hexec⟩
  rcases exec_openWrite hexec with
    ⟨e, rfl, rfl⟩ | ⟨i, hi, _⟩ | ⟨_, _, rfl, rfl⟩
  · constructor
    · intro fd hfd
      cases hfd
    · exact h.holding hu
  · have hfree := h u hu
    rw [htmp] at hi
    rw [isFile_iff.mpr ⟨i, hi⟩] at hfree
    cases hfree
  · have hfilling : Filling d.root fs0 u fs.nextFd 0
        ((fs.create (resolve (tmpText d.root u)) ch.now).openHandle
          { ino := fs.nextIno, pos := 0, pending := [] }) := by
      refine ⟨halone, _, Function.update_self _ _ _, ?_, ?_⟩
      · rw [← htmp]
        exact node_create_self fs _ ch.now
      · simp [FileTree.create, FileTree.openHandle]
    constructor
    · intro fd hfd
      cases hfd
      exact hfilling
    · exact hfilling.holding

theorem Holding.makedirs {t : Text} {r : Except Errno Unit}
    (h : Holding d.root fs0 u n fs)
    (hstep : (system allow).machine.Step fs (Call.makedirs t) r fs') :
    Holding d.root fs0 u n fs' where
  alone := by
    apply h.alone.step hstep
    intro q hq
    cases hq
  short := by
    intro b hb
    apply h.short b
    rcases hstep with ⟨ch, _, hexec⟩
    unfold FileTree.content at hb ⊢
    split at hb
    · rename_i i hi
      have hplace := exec_file (c := Call.makedirs t) (r := r) hexec hi
      rcases hplace with hbefore | hplaced
      · rw [hbefore]
        rcases exec_makedirs hexec with ⟨_, _, rfl⟩ | ⟨limit, rfl, _⟩
        · exact hb
        · rwa [mkdirs_inodes] at hb
      · cases hplaced
    · cases hb

theorem Holding.rename {slot : Slot settings} {r : Except Errno Unit}
    (htoken : IsToken u) (h : Holding d.root fs0 u n fs)
    (hstep : (system allow).machine.Step fs
      (Call.rename (tmpText d.root u) (slot.objectText d.root)) r fs') :
    (r = Except.ok () -> Unstaged d.root fs0 fs') ∧
      (forall e, r = Except.error e -> Holding d.root fs0 u n fs') := by
  have htmp : resolve (tmpText d.root u) = tmpLoc d.root u :=
    resolve_tmpText htoken
  have hdest : forall w,
      resolve (slot.objectText d.root) ≠ tmpLoc d.root w := by
    intro w
    rw [slot.resolve_objectText]
    exact tmpLoc_ne_objectLoc w
  constructor
  · intro hr
    cases hr
    intro w hw
    rcases eq_or_ne w u with rfl | hne
    · rw [← htmp]
      apply renamed_gone hstep
      rw [htmp]
      exact (hdest w).symm
    · apply step_not_file hstep _ (h.alone w hne hw)
      intro hplaced
      exact hdest w (List.mem_singleton.mp hplaced).symm
  · intro e hr
    cases hr
    rcases hstep with ⟨ch, _, hexec⟩
    rcases exec_rename hexec with ⟨_, _, rfl⟩ | ⟨i, hr, _⟩
    · exact h
    · cases hr

theorem Holding.remove {r : Except Errno Unit} (htoken : IsToken u)
    (h : Holding d.root fs0 u n fs)
    (hstep : (system allow).machine.Step fs
      (Call.remove (tmpText d.root u)) r fs') :
    Holding d.root fs0 u n fs' where
  alone := by
    apply h.alone.step hstep
    intro q hq
    cases hq
  short := by
    intro b hb
    have htmp : resolve (tmpText d.root u) = tmpLoc d.root u :=
      resolve_tmpText htoken
    rcases hstep with ⟨ch, _, hexec⟩
    rcases exec_remove hexec with ⟨_, _, rfl⟩ | ⟨i, _, _, rfl⟩
    · exact h.short b hb
    · rw [htmp] at hb
      unfold FileTree.content at hb
      rw [node_unlink_self] at hb
      cases hb

/-!
## A whole put
-/

section Watch

variable (d) (fs0) (n)

abbrev watched (allow : Policy) : Machine calls FileTree :=
  (system allow).machine.guarded (Limited d.root fs0 n)

variable {d} {fs0} {n}

theorem wp_watched {c : Call} {Q : Except Exn (Call.Ret c) -> FileTree -> Prop}
    (hlimited : Limited d.root fs0 n fs)
    (h : forall r fs', (system allow).machine.Step fs c r fs' ->
      Q (Except.ok r) fs') :
    (watched d fs0 n allow).wp (Prog.op (S := calls) c) Q fs :=
  ⟨⟨trivial, hlimited⟩, h⟩

variable {data : Data} {source : Source} {fd m : Nat}

theorem wp_watched_writeChunks
    {Q : Except Exn (d.platform.sha256.State × Nat) -> FileTree -> Prop}
    (chunks : List Bytes) (acc : d.platform.sha256.State × Nat)
    (hm : m + chunks.flatten.length ≤ n)
    (hfill : Filling d.root fs0 u fd m fs)
    (hend : forall o fs', Filling d.root fs0 u fd n fs' -> Q o fs') :
    (watched d fs0 n allow).wp (d.writeChunks fd chunks acc) Q fs := by
  induction chunks generalizing acc m fs with
  | nil =>
      apply hend
      exact
        { alone := hfill.alone
          handle := by
            rcases hfill.handle with ⟨x, hx, hnode, hlen⟩
            exact ⟨x, hx, hnode, by omega⟩ }
  | cons chunk rest ih =>
      rw [List.flatten_cons, List.length_append] at hm
      unfold LocalFsBlobDriver.writeChunks
      rw [Machine.wp_bind]
      apply wp_raising
      apply wp_watched (c := Call.write fd chunk)
        (hfill.holding.mono (by omega)).limited
      intro r fs' hstep
      have hmore := hfill.write hstep
      cases r with
      | ok _ => exact ih _ (by omega) hmore
      | error e =>
          apply hend
          exact
            { alone := hmore.alone
              handle := by
                rcases hmore.handle with ⟨x, hx, hnode, hlen⟩
                exact ⟨x, hx, hnode, by omega⟩ }

theorem wp_watched_receive
    {Q : Except Exn (d.platform.sha256.State × Nat) -> FileTree -> Prop}
    (hn : source.chunks.flatten.length ≤ n)
    (hfill : Filling d.root fs0 u fd 0 fs)
    (hend : forall o fs', Filling d.root fs0 u fd n fs' -> Q o fs') :
    (watched d fs0 n allow).wp (d.receive fd source) Q fs := by
  unfold LocalFsBlobDriver.receive
  rw [Machine.wp_bind]
  apply wp_watched_writeChunks source.chunks _ (by omega) hfill
  intro o fs1 hfill1
  cases o with
  | error e => exact hend _ fs1 hfill1
  | ok acc =>
      dsimp only
      cases source.ending with
      | some e => exact hend _ fs1 hfill1
      | none =>
          show (watched d fs0 n allow).wp (Os.flush fd >>= fun _ => _) Q fs1
          rw [Machine.wp_bind]
          apply wp_raising
          apply wp_watched (c := Call.flush fd) hfill1.holding.limited
          intro r fs2 hstep
          have hfill2 := hfill1.flush hstep
          cases r with
          | error e => exact hend _ fs2 hfill2
          | ok _ =>
              show (watched d fs0 n allow).wp (Os.fsync fd >>= fun _ => _) Q fs2
              rw [Machine.wp_bind]
              apply wp_raising
              apply wp_watched (c := Call.fsync fd) hfill2.holding.limited
              intro r fs3 hstep3
              cases quiet_same (by trivial) hstep3
              cases r with
              | error e => exact hend _ fs2 hfill2
              | ok _ => exact hend _ fs2 hfill2

theorem wp_watched_stage {slot : Slot settings}
    {Q : Except Exn (d.platform.sha256.State × Nat) -> FileTree -> Prop}
    (htoken : IsToken u) (hu : fs0.isFile (tmpLoc d.root u) = false)
    (hn : source.chunks.flatten.length ≤ n) (h : Unstaged d.root fs0 fs)
    (hok : forall acc fs', Unstaged d.root fs0 fs' -> Q (Except.ok acc) fs')
    (herr : forall e fs', Holding d.root fs0 u n fs' ->
      Q (Except.error e) fs') :
    (watched d fs0 n allow).wp
      (d.stage (tmpText d.root u) (slot.objectText d.root) source) Q fs := by
  unfold LocalFsBlobDriver.stage
  rw [Machine.wp_bind]
  apply wp_raising
  apply wp_watched (c := Call.openWrite (tmpText d.root u)) h.limited
  intro r fs1 hopen
  rcases h.openWrite htoken hu hopen with ⟨hfill, hhold⟩
  cases r with
  | error e => exact herr _ fs1 (hhold.mono (Nat.zero_le n))
  | ok fd =>
      show (watched d fs0 n allow).wp (Prog.tryFinally _ _ >>= fun _ => _) Q fs1
      rw [Machine.wp_bind, Machine.wp_tryFinally]
      apply wp_watched_receive hn (hfill fd rfl)
      intro o fs2 hfill2
      apply wp_raising
      apply wp_watched (c := Call.close fd) hfill2.holding.limited
      intro closed fs3 hclose
      have hhold3 := hfill2.close hclose
      cases closed with
      | error e => exact herr _ fs3 hhold3
      | ok _ =>
          cases o with
          | error e => exact herr _ fs3 hhold3
          | ok acc =>
              show (watched d fs0 n allow).wp (Os.makedirs _ >>= fun _ => _) Q fs3
              rw [Machine.wp_bind]
              apply wp_raising
              apply wp_watched (c := Call.makedirs _) hhold3.limited
              intro made fs4 hmake
              have hhold4 := hhold3.makedirs hmake
              cases made with
              | error e => exact herr _ fs4 hhold4
              | ok _ =>
                  show (watched d fs0 n allow).wp
                    (Os.rename _ _ >>= fun _ => _) Q fs4
                  rw [Machine.wp_bind]
                  apply wp_raising
                  apply wp_watched
                    (c := Call.rename (tmpText d.root u) (slot.objectText d.root))
                    hhold4.limited
                  intro moved fs5 hmove
                  rcases hhold4.rename htoken hmove with ⟨hgone, hkept⟩
                  cases moved with
                  | error e => exact herr _ fs5 (hkept e rfl)
                  | ok _ => exact hok acc fs5 (hgone rfl)

theorem sidecarText_ne_tmpLoc {slot : Slot settings} (w : Text) :
    resolve (slot.sidecarText d.root) ≠ tmpLoc d.root w := by
  rw [slot.resolve_sidecarText]
  intro heq
  apply Slot.tmp_not_above_sidecarLoc slot d.root w
  rw [heq]
  exact List.prefix_rfl

theorem sidecarTmp_ne_tmpLoc {slot : Slot settings} (htoken : IsToken u)
    (w : Text) :
    resolve (sidecarTmp (slot.sidecarText d.root) u) ≠ tmpLoc d.root w := by
  rcases slot.resolve_sidecarTmp d.root htoken with ⟨name, hname⟩
  rcases slot.sidecarLoc_dropLast d.root with ⟨init, hinit⟩
  rw [hname, hinit]
  intro heq
  have hpre : resolve d.root ++ tmpDir :: [w] <+:
      resolve d.root ++ metaDir :: (slot.bucket :: init ++ [tokenName name u]) := by
    rw [show resolve d.root ++ tmpDir :: [w] = tmpLoc d.root w from rfl, ← heq]
    simp
  exact absurd (Slot.ne_of_prefix_under hpre) (by decide)

theorem wp_watched_writeSidecar {slot : Slot settings} {contentType etag : Text}
    {size : Nat} {metadata : Metadata}
    {Q : Except Exn Unit -> FileTree -> Prop} (h : Unstaged d.root fs0 fs)
    (hend : forall o fs', Unstaged d.root fs0 fs' -> Q o fs') :
    (watched d fs0 n allow).wp
      (d.writeSidecar slot.bucket slot.key contentType etag size metadata) Q
      fs := by
  have hnone : forall q : Path, q ∈ ([] : List Path) ->
      forall w, q ≠ tmpLoc d.root w := fun _ hq => nomatch hq
  unfold LocalFsBlobDriver.writeSidecar
  rw [slot.metaPath_ok, Machine.wp_bind]
  apply wp_watched (c := Call.time) h.limited
  intro now fs1 htime
  cases quiet_same (by trivial) htime
  dsimp only
  rw [Machine.wp_tryCatch]
  show (watched d fs0 n allow).wp (Os.makedirs _ >>= fun _ => _) _ fs
  rw [Machine.wp_bind]
  apply wp_raising
  apply wp_watched (c := Call.makedirs _) h.limited
  intro made fs2 hmake
  have h2 := h.step hmake hnone
  cases made with
  | error e => exact hend _ fs2 h2
  | ok _ =>
      show (watched d fs0 n allow).wp (Os.uuid4 >>= fun _ => _) _ fs2
      rw [Machine.wp_bind]
      apply wp_watched (c := Call.uuid4) h2.limited
      intro token fs3 hdraw
      have h3 := h2.step hdraw hnone
      have htoken := (drawn_unnamed hdraw).left
      have htmp : forall w, resolve (sidecarTmp (slot.sidecarText d.root) token) ≠
          tmpLoc d.root w := sidecarTmp_ne_tmpLoc htoken
      show (watched d fs0 n allow).wp (Os.openWrite _ >>= fun _ => _) _ fs3
      rw [Machine.wp_bind]
      apply wp_raising
      apply wp_watched
        (c := Call.openWrite (sidecarTmp (slot.sidecarText d.root) token))
        h3.limited
      intro opened fs4 hopen
      have h4 := h3.step hopen (by
        intro q hq w
        rw [List.mem_singleton.mp hq]
        exact htmp w)
      cases opened with
      | error e => exact hend _ fs4 h4
      | ok fh =>
          show (watched d fs0 n allow).wp (Prog.tryFinally _ _ >>= fun _ => _) _
            fs4
          rw [Machine.wp_bind, Machine.wp_tryFinally]
          apply wp_raising
          apply wp_watched (c := Call.write fh _) h4.limited
          intro written fs5 hwrite
          have h5 := h4.step hwrite hnone
          cases written with
          | error e =>
              apply wp_raising
              apply wp_watched (c := Call.close fh) h5.limited
              intro closed fs6 hclose
              have h6 := h5.step hclose hnone
              cases closed <;> exact hend _ fs6 h6
          | ok _ =>
              apply wp_raising
              apply wp_watched (c := Call.close fh) h5.limited
              intro closed fs6 hclose
              have h6 := h5.step hclose hnone
              cases closed with
              | error e => exact hend _ fs6 h6
              | ok _ =>
                  apply wp_raising
                  apply wp_watched
                    (c := Call.rename (sidecarTmp (slot.sidecarText d.root) token)
                      (slot.sidecarText d.root)) h6.limited
                  intro moved fs7 hmove
                  have h7 := h6.step hmove (by
                    intro q hq w
                    rcases List.mem_cons.mp hq with rfl | hq
                    · exact htmp w
                    · rw [List.mem_singleton.mp hq]
                      exact sidecarText_ne_tmpLoc w)
                  cases moved <;> exact hend _ fs7 h7

theorem unstaged_refl : Unstaged d.root fs0 fs0 := fun _ hw => hw

theorem wp_watched_put {slot : Slot settings} {contentType : Text}
    {ifNoneMatch : Option Text} {metadata : Option Metadata}
    (hn : data.body.length ≤ n) :
    (watched d fs0 n allow).wp
      (d.put slot.bucket slot.key data contentType ifNoneMatch metadata)
      (fun _ fs' => Limited d.root fs0 n fs') fs0 := by
  have hnone : forall q : Path, q ∈ ([] : List Path) ->
      forall w, q ≠ tmpLoc d.root w := fun _ hq => nomatch hq
  have hbody : (watched d fs0 n allow).wp (putBody d slot data contentType metadata)
      (fun _ fs' => Limited d.root fs0 n fs') fs0 := by
    unfold putBody
    show (watched d fs0 n allow).wp (Os.uuid4 >>= fun _ => _) _ fs0
    rw [Machine.wp_bind]
    apply wp_watched (c := Call.uuid4) unstaged_refl.limited
    intro u fs1 hdraw
    have h1 : Unstaged d.root fs0 fs1 := unstaged_refl.step hdraw hnone
    have htoken := (drawn_unnamed hdraw).left
    have hvacant : fs1.node (tmpLoc d.root u) = none :=
      drawn_vacant (d := d) hdraw ⟨htoken, Or.inl rfl⟩
    have hu : fs0.isFile (tmpLoc d.root u) = false := by
      rw [Bool.eq_false_iff]
      intro hfile
      rcases isFile_iff.mp hfile with ⟨i, hi⟩
      unfold FileTree.node at hi hvacant
      rw [(drawn_unnamed hdraw).right.left, hi] at hvacant
      cases hvacant
    show (watched d fs0 n allow).wp (Prog.onError _ _ >>= fun _ => _) _ fs1
    rw [Machine.wp_bind, Machine.wp_onError, Machine.wp_tryCatch]
    apply wp_watched_stage htoken hu _ h1
    · intro acc fs2 h2
      show (watched d fs0 n allow).wp (d.writeSidecar _ _ _ _ _ _ >>= fun _ => _)
        _ fs2
      rw [Machine.wp_bind]
      apply wp_watched_writeSidecar h2
      intro o fs3 h3
      cases o <;> exact h3.limited
    · intro e fs2 h2
      unfold safeUnlink
      show (watched d fs0 n allow).wp (Prog.tryCatch _ _) _ fs2
      rw [Machine.wp_tryCatch, Machine.wp_bind]
      apply wp_raising
      apply wp_watched (c := Call.remove (tmpText d.root u)) h2.limited
      intro r fs3 hremove
      have h3 := h2.remove htoken hremove
      cases r <;> exact h3.limited
    · rwa [asAiter_flatten]
  have hhead : (watched d fs0 n allow).wp (d.head slot.bucket slot.key)
      (fun _ fs' => Unstaged d.root fs0 fs') fs0 := by
    apply Machine.wp_guarded_issues (head_looks d slot.bucket slot.key)
      unstaged_refl (fun _ h => h.limited) (fun _ _ => trivial)
    intro fs c r fs' hlooks h hstep
    apply h.step hstep
    intro q hq
    rw [looks_names hlooks] at hq
    cases hq
  unfold LocalFsBlobDriver.put
  rw [slot.objectPath_ok]
  show (watched d fs0 n allow).wp (if ifNoneMatch = some (text "*") then _ else _)
    _ fs0
  split
  · show (watched d fs0 n allow).wp
      (Os.pathExists (slot.objectText d.root) >>= fun _ => _) _ fs0
    rw [Machine.wp_bind]
    apply wp_watched (c := Call.pathExists (slot.objectText d.root))
      unstaged_refl.limited
    intro there fs1 htest
    cases quiet_same (by trivial) htest
    cases there with
    | false => exact hbody
    | true =>
        show (watched d fs0 n allow).wp (d.head _ _ >>= fun _ => _) _ fs0
        rw [Machine.wp_bind]
        apply Machine.wp_mono hhead
        intro o fs2 h2
        cases o <;> exact h2.limited
  · exact hbody

/-- At no moment of a put does its staging file hold more bytes than the body
has, whatever fails. -/
theorem put_limited {slot : Slot settings} {contentType : Text}
    {ifNoneMatch : Option Text} {metadata : Option Metadata}
    (hn : data.body.length ≤ n)
    (hpasses : (system allow).machine.Passes fs0
      (d.put slot.bucket slot.key data contentType ifNoneMatch metadata) fs) :
    Limited d.root fs0 n fs :=
  Machine.passes_of_wp (wp_watched_put hn) (fun _ _ h => h) hpasses

end Watch

end StorybookStorage
