import StorybookStorage.Posix.Contract

/-!
# The file tree keeps to the contract

`Rep` ties a file tree to the holds of any number of tasks: every hold is backed
by the tree, and no two tasks share a token, a descriptor or a file that one of
them writes.  When a task makes a call its contract allows, the tree does to the
view what `Contract.Step` says and the tie is kept, whoever the other tasks are.
-/

namespace Posix

open Effects Python FileTree

/-!
## Reading the view
-/

namespace Staging

variable {L : Staging} {fs fs' : FileTree} {p q : Path}

theorem view_dir : L.view fs q = some Entry.dir <-> fs.node q = some Node.dir := by
  unfold view look
  cases fs.node q with
  | none => simp
  | some n =>
      cases n with
      | dir => simp
      | file i => by_cases hq : L.Hidden q <;> simp [hq]

theorem view_file {b : Bytes} :
    L.view fs q = some (Entry.file b) <->
      ¬ L.Hidden q ∧ exists i, fs.node q = some (Node.file i) ∧
        (fs.inodes i).data = b := by
  unfold view look
  cases fs.node q with
  | none => simp
  | some n =>
      cases n with
      | dir => simp
      | file i => by_cases hq : L.Hidden q <;> simp [hq]

theorem view_none_of_none (h : fs.node q = none) : L.view fs q = none := by
  unfold view look
  rw [h]

theorem node_none_of_view (hq : ¬ L.Hidden q) (h : L.view fs q = none) :
    fs.node q = none := by
  cases hnode : fs.node q with
  | none => rfl
  | some n =>
      cases n with
      | dir => rw [view_dir.mpr hnode] at h; cases h
      | file i => rw [view_file.mpr ⟨hq, i, hnode, rfl⟩] at h; cases h

/-- Views agree at a name whose node is the same, unless a visible file there
was rewritten. -/
theorem view_congr (hnode : fs'.node q = fs.node q)
    (hdata : forall i, ¬ L.Hidden q -> fs.node q = some (Node.file i) ->
      (fs'.inodes i).data = (fs.inodes i).data) :
    L.view fs' q = L.view fs q := by
  unfold view look
  rw [hnode]
  cases hn : fs.node q with
  | none => rfl
  | some n =>
      cases n with
      | dir => rfl
      | file i =>
          by_cases hq : L.Hidden q
          · simp [hq]
          · simp [hq, hdata i hq hn]

end Staging

namespace Contract

variable {ι : Type} (K : Contract ι)

/-!
## Backing a hold
-/

def Owns (fs : FileTree) : Hold -> Prop
  | Hold.idle => True
  | Hold.drawn u =>
      u ∈ fs.tokens ∧
        forall p i, K.Place u p -> fs.node p ≠ some (Node.file i)
  | Hold.writing u fd p sent =>
      u ∈ fs.tokens ∧ K.Place u p ∧
        exists x, fs.handles fd = some x ∧
          (forall b, sent = some b ->
            (fs.inodes x.ino).data ++ x.pending = b) ∧
          (forall q, fs.node q = some (Node.file x.ino) -> q = p) ∧
          (forall j, fs.node p = some (Node.file j) -> j = x.ino) ∧
          (fs.node p = some (Node.file x.ino) ∨ K.Sweeps)
  | Hold.staged u p b =>
      u ∈ fs.tokens ∧ K.Place u p ∧
        (forall j, fs.node p = some (Node.file j) ->
          (fs.inodes j).data = b) ∧
        ((exists j, fs.node p = some (Node.file j)) ∨ K.Sweeps)
  | Hold.spent u => u ∈ fs.tokens
  | Hold.reading fd _ body got =>
      exists x, fs.handles fd = some x ∧ x.pending = [] ∧
        (fs.inodes x.ino).data = body ∧ x.pos = got.length ∧ got <+: body
  | Hold.closed _ body got => got <+: body

structure Rep (fs : FileTree) (G : Nat -> Hold) : Prop where
  sound : fs.Sound
  owns : forall i, K.Owns fs (G i)
  token : forall i j u, (G i).token = some u -> (G j).token = some u -> i = j
  fd : forall i j n, (G i).fd = some n -> (G j).fd = some n -> i = j
  ink : forall i j n m x y, (G i).pen = some n -> (G j).fd = some m ->
    fs.handles n = some x -> fs.handles m = some y -> x.ino = y.ino -> i = j

/-- What a call of another task leaves alone. -/
structure Spares (fs fs' : FileTree) (g : Hold) : Prop where
  tokens : forall u, u ∈ fs.tokens -> u ∈ fs'.tokens
  handle : forall n, g.fd = some n -> fs'.handles n = fs.handles n
  ink : forall n x, g.fd = some n -> fs.handles n = some x ->
    (fs'.inodes x.ino).data = (fs.inodes x.ino).data
  gone : forall u p j, g.token = some u -> K.Place u p ->
    fs'.node p = some (Node.file j) -> fs.node p = some (Node.file j)
  kept : forall u p j, g.token = some u -> K.Place u p ->
    fs.node p = some (Node.file j) ->
    fs'.node p = some (Node.file j) ∨ K.Sweeps
  data : forall u p j, g.token = some u -> K.Place u p ->
    fs.node p = some (Node.file j) ->
    (fs'.inodes j).data = (fs.inodes j).data
  names : forall n x q, g.pen = some n -> fs.handles n = some x ->
    fs'.node q = some (Node.file x.ino) -> fs.node q = some (Node.file x.ino)

variable {K} {fs fs' : FileTree} {g : Hold}

theorem Owns.token_mem (h : K.Owns fs g) {u : Text} (hu : g.token = some u) :
    u ∈ fs.tokens := by
  cases g with
  | drawn v => cases hu; exact h.left
  | writing v n p sent => cases hu; exact h.left
  | staged v p b => cases hu; exact h.left
  | spent v => cases hu; exact h
  | _ => cases hu

theorem Owns.handle (h : K.Owns fs g) {n : Nat} (hn : g.fd = some n) :
    exists x, fs.handles n = some x := by
  cases g with
  | writing v m p sent =>
      cases hn
      rcases h with ⟨_, _, x, hx, _⟩
      exact ⟨x, hx⟩
  | reading m p body got =>
      cases hn
      rcases h with ⟨x, hx, _⟩
      exact ⟨x, hx⟩
  | _ => cases hn

theorem Owns.pen_name (h : K.Owns fs g) {n : Nat} {x : Handle} {q : Path}
    (hn : g.pen = some n) (hx : fs.handles n = some x)
    (hq : fs.node q = some (Node.file x.ino)) :
    exists u, g.token = some u ∧ K.Place u q := by
  cases g with
  | writing v m p sent =>
      cases hn
      rcases h with ⟨_, hplace, y, hy, _, hname, _⟩
      rw [hx] at hy
      cases hy
      rw [hname q hq]
      exact ⟨v, rfl, hplace⟩
  | _ => cases hn

theorem Owns.spared (h : K.Owns fs g) (hs : K.Spares fs fs' g) :
    K.Owns fs' g := by
  cases g with
  | idle => trivial
  | drawn u =>
      refine ⟨hs.tokens u h.left, ?_⟩
      intro p i hplace hnode
      exact h.right p i hplace (hs.gone u p i rfl hplace hnode)
  | writing u n p sent =>
      rcases h with ⟨htoken, hplace, x, hx, hsent, hname, honly, hthere⟩
      refine ⟨hs.tokens u htoken, hplace, x, ?_, ?_, ?_, ?_, ?_⟩
      · rw [hs.handle n rfl]
        exact hx
      · intro b hb
        rw [hs.ink n x rfl hx]
        exact hsent b hb
      · intro q hq
        exact hname q (hs.names n x q rfl hx hq)
      · intro j hj
        exact honly j (hs.gone u p j rfl hplace hj)
      · rcases hthere with hnode | hsweeps
        · exact hs.kept u p x.ino rfl hplace hnode
        · exact Or.inr hsweeps
  | staged u p b =>
      rcases h with ⟨htoken, hplace, hdata, hthere⟩
      refine ⟨hs.tokens u htoken, hplace, ?_, ?_⟩
      · intro j hj
        have hold := hs.gone u p j rfl hplace hj
        rw [hs.data u p j rfl hplace hold]
        exact hdata j hold
      · rcases hthere with ⟨j, hj⟩ | hsweeps
        · rcases hs.kept u p j rfl hplace hj with hnode | hsweeps
          · exact Or.inl ⟨j, hnode⟩
          · exact Or.inr hsweeps
        · exact Or.inr hsweeps
  | spent u => exact hs.tokens u h
  | reading n p body got =>
      rcases h with ⟨x, hx, hempty, hbody, hpos, hgot⟩
      refine ⟨x, ?_, hempty, ?_, hpos, hgot⟩
      · rw [hs.handle n rfl]
        exact hx
      · rw [hs.ink n x rfl hx]
        exact hbody
  | closed p body got => exact h

inductive Provenance (K : Contract ι) (fs : FileTree) (g g' : Hold) (n : Nat)
    (x : Handle) : Prop where
  | old (y : Handle) :
      g.fd = some n -> g.pen = g'.pen -> fs.handles n = some y ->
      y.ino = x.ino -> Provenance K fs g g' n x
  | fresh : fs.handles n = none -> fs.nextIno ≤ x.ino -> Provenance K fs g g' n x
  | opened (q : Path) :
      fs.handles n = none -> g'.pen = none -> ¬ K.Hidden q ->
      fs.node q = some (Node.file x.ino) -> Provenance K fs g g' n x

variable {G : Nat -> Hold}

theorem Rep.update (h : K.Rep fs G) (i : Nat) {g' : Hold}
    (hsound : fs'.Sound)
    (hspare : forall j, j ≠ i -> K.Spares fs fs' (G j))
    (hown : K.Owns fs' g')
    (htoken : forall u, g'.token = some u ->
      (G i).token = some u ∨ u ∉ fs.tokens)
    (hfd : forall n x, g'.fd = some n -> fs'.handles n = some x ->
      Provenance K fs (G i) g' n x) :
    K.Rep fs' (Function.update G i g') := by
  have hself : Function.update G i g' i = g' := Function.update_self i g' G
  have hother : forall j, j ≠ i -> Function.update G i g' j = G j :=
    fun j hj => Function.update_of_ne hj g' G
  have hhandle : forall j n, j ≠ i -> (G j).fd = some n ->
      fs'.handles n = fs.handles n :=
    fun j n hj hn => (hspare j hj).handle n hn
  have hfresh : forall j n, j ≠ i -> g'.fd = some n -> (G j).fd = some n ->
      False := by
    intro j n hj hn hjn
    rcases (h.owns j).handle hjn with ⟨y, hy⟩
    have hx : fs'.handles n = some y := by
      rw [hhandle j n hj hjn]
      exact hy
    cases hfd n y hn hx with
    | old z hold _ _ _ => exact hj (h.fd j i n hjn hold)
    | fresh hnone _ => rw [hy] at hnone; cases hnone
    | opened q hnone _ _ _ => rw [hy] at hnone; cases hnone
  have hdistinct : forall j n m x y, j ≠ i -> g'.fd = some n ->
      (G j).fd = some m -> fs'.handles n = some x -> fs.handles m = some y ->
      x.ino = y.ino -> g'.pen = some n ∨ (G j).pen = some m -> False := by
    intro j n m x y hj hn hm hx hy hino hpen
    cases hfd n x hn hx with
    | old z hold hpens hz hzino =>
        rcases hpen with hpi | hpj
        · exact hj (h.ink i j n m z y (by rw [hpens]; exact hpi) hm hz hy
            (by rw [hzino, hino])).symm
        · exact hj (h.ink j i m n y z hpj hold hy hz (by rw [hzino, hino]))
    | fresh _ hbig =>
        have hbound := (h.sound.handle m y hy).left
        omega
    | opened q _ hno hq hnode =>
        rcases hpen with hpi | hpj
        · rw [hno] at hpi
          cases hpi
        · rw [hino] at hnode
          rcases (h.owns j).pen_name hpj hy hnode with ⟨u, _, hplace⟩
          exact hq ⟨u, hplace⟩
  exact
    { sound := hsound
      owns := by
        intro j
        by_cases hj : j = i
        · rw [hj, hself]
          exact hown
        · rw [hother j hj]
          exact (h.owns j).spared (hspare j hj)
      token := by
        intro j k u hju hku
        by_cases hj : j = i
        · by_cases hk : k = i
          · rw [hj, hk]
          · rw [hj, hself] at hju
            rw [hother k hk] at hku
            rcases htoken u hju with hold | hnew
            · exact absurd (h.token i k u hold hku) (fun hik => hk hik.symm)
            · exact absurd ((h.owns k).token_mem hku) hnew
        · rw [hother j hj] at hju
          by_cases hk : k = i
          · rw [hk, hself] at hku
            rcases htoken u hku with hold | hnew
            · exact absurd (h.token j i u hju hold) hj
            · exact absurd ((h.owns j).token_mem hju) hnew
          · rw [hother k hk] at hku
            exact h.token j k u hju hku
      fd := by
        intro j k n hjn hkn
        by_cases hj : j = i
        · by_cases hk : k = i
          · rw [hj, hk]
          · rw [hj, hself] at hjn
            rw [hother k hk] at hkn
            exact absurd hkn (fun hk' => hfresh k n hk hjn hk')
        · rw [hother j hj] at hjn
          by_cases hk : k = i
          · rw [hk, hself] at hkn
            exact absurd hjn (fun hj' => hfresh j n hj hkn hj')
          · rw [hother k hk] at hkn
            exact h.fd j k n hjn hkn
      ink := by
        intro j k n m x y hjn hkm hx hy hino
        by_cases hj : j = i
        · by_cases hk : k = i
          · rw [hj, hk]
          · rw [hj, hself] at hjn
            rw [hother k hk] at hkm
            rw [hhandle k m hk hkm] at hy
            exact absurd (hdistinct k n m x y hk (Hold.fd_of_pen hjn) hkm hx
              hy hino (Or.inl hjn)) id
        · rw [hother j hj] at hjn
          rw [hhandle j n hj (Hold.fd_of_pen hjn)] at hx
          by_cases hk : k = i
          · rw [hk, hself] at hkm
            exact absurd (hdistinct j m n y x hj hkm (Hold.fd_of_pen hjn) hy
              hx hino.symm (Or.inr hjn)) id
          · rw [hother k hk] at hkm
            rw [hhandle k m hk hkm] at hy
            exact h.ink j k n m x y hjn hkm hx hy hino }

theorem Rep.stop (h : K.Rep fs G) : K.Rep fs (fun _ => Hold.idle) where
  sound := h.sound
  owns _ := trivial
  token _ _ _ hi _ := nomatch hi
  fd _ _ _ hi _ := nomatch hi
  ink _ _ _ _ _ _ hi _ _ _ _ := nomatch hi

theorem Rep.boot (h : fs.Sound) : K.Rep fs (fun _ => Hold.idle) where
  sound := h
  owns _ := trivial
  token _ _ _ hi _ := nomatch hi
  fd _ _ _ hi _ := nomatch hi
  ink _ _ _ _ _ _ hi _ _ _ _ := nomatch hi

end Contract

end Posix
