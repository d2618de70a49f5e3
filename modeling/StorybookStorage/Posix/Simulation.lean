import StorybookStorage.Posix.Custody

/-!
# One call of one task

For every call the contract allows: the view changes as `Contract.Step` says and
`Rep` is kept.
-/

namespace Posix

open Effects Python FileTree

namespace Contract

variable {ι : Type} {K : Contract ι} {fs fs' : FileTree} {G : Nat -> Hold}
  {ch : Choice} {i : Nat}

def Advances (K : Contract ι) (fs : FileTree) (G : Nat -> Hold) (i : Nat)
    (c : Call) (r : Call.Ret c) (fs' : FileTree) : Prop :=
  exists g', K.Step (K.view fs) (G i) c r (K.view fs') g' ∧
    K.Rep fs' (Function.update G i g')

theorem fails_of {α : Type} {c : Call} {reason : Prop} {r : Except Errno α}
    (hmay : ch.fault = none ∨ K.May c)
    (h : forall e, ch.fault = none -> r = Except.error e -> reason) :
    K.Fails c reason r := by
  intro hr
  rcases hmay with hf | hm
  · cases r with
    | ok a => cases hr
    | error e => exact Or.inr (h e hf rfl)
  · exact Or.inl hm

theorem answers_of {c : Call} {claim : Prop} {b : Bool}
    (hmay : ch.fault = none ∨ K.May c) (htrue : b = true -> claim)
    (hfalse : ch.fault = none -> b = false -> ¬ claim) :
    K.Answers c claim b := by
  refine ⟨htrue, ?_⟩
  intro hb
  rcases hmay with hf | hm
  · exact Or.inl (hfalse hf hb)
  · exact Or.inr hm

/-!
## Steps that leave the tree alone
-/

theorem spares_refl (K : Contract ι) (fs : FileTree) (g : Hold) : K.Spares fs fs g where
  tokens _ hu := hu
  handle _ _ := rfl
  ink _ _ _ _ := rfl
  gone _ _ _ _ _ h := h
  kept _ _ _ _ _ h := Or.inl h
  data _ _ _ _ _ _ := rfl
  names _ _ _ _ _ h := h

theorem Rep.quiet (h : K.Rep fs G) : K.Rep fs (Function.update G i (G i)) := by
  rw [Function.update_eq_self]
  exact h

theorem Rep.rehold (h : K.Rep fs G) {g' : Hold} (hown : K.Owns fs g')
    (htoken : forall u, g'.token = some u -> (G i).token = some u)
    (hfd : forall n, g'.fd = some n ->
      (G i).fd = some n ∧ (G i).pen = g'.pen) :
    K.Rep fs (Function.update G i g') := by
  apply h.update i h.sound (fun j _ => spares_refl K _ (G j)) hown
  · intro u hu
    exact Or.inl (htoken u hu)
  · intro n x hn hx
    rcases hfd n hn with ⟨hold, hpen⟩
    exact Provenance.old x hold hpen hx rfl

theorem handles_nextFd (h : fs.Sound) : fs.handles fs.nextFd = none := by
  cases hx : fs.handles fs.nextFd with
  | none => rfl
  | some x => exact absurd (h.handle _ x hx).right (Nat.lt_irrefl _)

theorem fd_ne_nextFd {g : Hold} (h : fs.Sound) (hown : K.Owns fs g) {n : Nat}
    (hn : g.fd = some n) : n ≠ fs.nextFd := by
  rcases hown.handle hn with ⟨x, hx⟩
  exact Nat.ne_of_lt (h.handle n x hx).right

/-!
## Drawing a token
-/

theorem mem_keys_of_node {p : Path} (h : fs.node p ≠ none) :
    p ∈ fs.entries.keys := by
  rw [← AList.mem_keys, ← AList.lookup_isSome]
  exact Option.isSome_iff_ne_none.mpr h

theorem exec_drawn {u : Text} (h : K.Rep fs G)
    (hlegal : IsToken ch.token ∧ ch.token ∉ fs.tokens ∧ fs.Unnamed ch.token)
    (hexec : exec ch Call.uuid4 fs = (u, fs')) :
    K.Advances fs G i Call.uuid4 u fs' := by
  cases hexec
  have hempty : forall p, K.Place ch.token p -> fs.node p = none := by
    intro p hplace
    by_contra hnode
    rcases K.named hplace with ⟨seg, hseg, hinfix⟩
    exact hlegal.right.right p (mem_keys_of_node hnode) seg hseg hinfix
  refine ⟨Hold.drawn ch.token, ⟨?_, rfl, hlegal.left, ?_⟩, ?_⟩
  · rfl
  · intro p hplace
    exact Staging.view_none_of_none (hempty p hplace)
  · apply h.update i
    · exact sound_of_fields_eq h.sound rfl rfl rfl rfl
    · intro j _
      exact
        { spares_refl K fs (G j) with
          tokens := fun v hv => List.mem_cons_of_mem _ hv }
    · refine ⟨List.mem_cons_self, ?_⟩
      intro p k hplace hnode
      have hnone : fs.node p = some (Node.file k) := hnode
      rw [hempty p hplace] at hnone
      cases hnone
    · intro v hv
      cases hv
      exact Or.inr hlegal.right.left
    · intro n x hn
      cases hn

/-!
## Opening
-/

theorem view_create {p : Path} {now : Rat} {x : Handle} (h : fs.Sound)
    (hp : K.Hidden p) (hnone : fs.node p = none) :
    K.view ((fs.create p now).openHandle x) = K.view fs := by
  funext q
  by_cases hq : q = p
  · rw [hq, Staging.view_none_of_none hnone]
    unfold Staging.view look
    simp [hp]
  · apply Staging.view_congr
    · exact node_create_ne fs now hq
    · intro j _ hj
      have hlt := h.bound q j hj
      show (Function.update fs.inodes fs.nextIno _ j).data = _
      rw [Function.update_of_ne (Nat.ne_of_lt hlt)]

theorem exec_opened_write {t u : Text} {r : Except Errno Nat}
    (h : K.Rep fs G) (hg : G i = Hold.drawn u) (hplace : K.Place u (resolve t))
    (hmay : ch.fault = none ∨ K.May (Call.openWrite t))
    (hexec : exec ch (Call.openWrite t) fs = (r, fs')) :
    K.Advances fs G i (Call.openWrite t) r fs' := by
  have hown := h.owns i
  rw [hg] at hown
  have hreason : K.Fails (Call.openWrite t)
      (K.view fs (resolve t) = some Entry.dir ∨
        K.view fs (resolve t).dropLast ≠ some Entry.dir) r := by
    apply fails_of hmay
    intro e hf hr
    rw [hr] at hexec
    rw [Staging.view_dir, Ne, Staging.view_dir]
    exact openWrite_error hf hexec
  rcases exec_openWrite hexec with
    ⟨e, hr, hfs⟩ | ⟨j, hnode, _, _⟩ | ⟨hnone, hparent, hr, hfs⟩
  · subst hr hfs
    refine ⟨Hold.spent u, ⟨rfl, u, hg, hreason, rfl⟩, ?_⟩
    have hspent : K.Owns fs' (Hold.spent u) := hown.left
    apply h.rehold hspent
    · intro v hv
      rw [hg]
      exact hv
    · intro n hn
      cases hn
  · exact absurd hnode (hown.right _ j hplace)
  · subst hr hfs
    have hhidden : K.Hidden (resolve t) := ⟨u, hplace⟩
    refine ⟨Hold.writing u fs.nextFd (resolve t) (some []),
      ⟨view_create h.sound hhidden hnone, u, hg, hreason, rfl⟩, ?_⟩
    have hfile : forall q j,
        (fs.create (resolve t) ch.now).node q = some (Node.file j) ->
        (q = resolve t ∧ j = fs.nextIno) ∨
          (q ≠ resolve t ∧ fs.node q = some (Node.file j)) := by
      intro q j hq
      by_cases hqt : q = resolve t
      · rw [hqt, node_create_self] at hq
        cases hq
        exact Or.inl ⟨hqt, rfl⟩
      · rw [node_create_ne _ _ hqt] at hq
        exact Or.inr ⟨hqt, hq⟩
    have hdata : forall j, j < fs.nextIno ->
        (Function.update fs.inodes fs.nextIno
          { data := [], mtime := ch.now } j).data = (fs.inodes j).data := by
      intro j hj
      rw [Function.update_of_ne (Nat.ne_of_lt hj)]
    apply h.update i
    · exact (h.sound.create _ hparent hnone).openHandle (Nat.lt_succ_self _)
    · intro j hj
      have hplaces : forall v q, (G j).token = some v -> K.Place v q ->
          q ≠ resolve t := by
        intro v q hv hq hqt
        rw [hqt] at hq
        have hvu := K.unique hq hplace
        rw [hvu] at hv
        exact hj (h.token j i u hv (by rw [hg]; rfl))
      exact
        { tokens := fun v hv => hv
          handle := by
            intro n hn
            exact Function.update_of_ne
              (fd_ne_nextFd h.sound (h.owns j) hn) _ _
          ink := fun n x _ hx => hdata _ (h.sound.handle n x hx).left
          gone := by
            intro v q k hv hq hnode
            rcases hfile q k hnode with ⟨hqt, _⟩ | ⟨_, hold⟩
            · exact absurd hqt (hplaces v q hv hq)
            · exact hold
          kept := by
            intro v q k hv hq hnode
            apply Or.inl
            show (fs.create (resolve t) ch.now).node q = _
            rw [node_create_ne _ _ (hplaces v q hv hq)]
            exact hnode
          data := fun v q k _ _ hnode => hdata k (h.sound.bound q k hnode)
          names := by
            intro n x q hn hx hnode
            rcases hfile q x.ino hnode with ⟨_, hino⟩ | ⟨_, hold⟩
            · have hlt := (h.sound.handle n x hx).left
              omega
            · exact hold }
    · refine ⟨hown.left, hplace,
        { ino := fs.nextIno, pos := 0, pending := [] }, ?_, ?_, ?_, ?_, ?_⟩
      · exact Function.update_self _ _ _
      · intro b hb
        cases hb
        show (Function.update fs.inodes fs.nextIno _ fs.nextIno).data ++ [] = []
        rw [Function.update_self]
        rfl
      · intro q hq
        rcases hfile q _ hq with ⟨hqt, _⟩ | ⟨_, hold⟩
        · exact hqt
        · exact absurd (h.sound.bound q _ hold) (Nat.lt_irrefl _)
      · intro j hj
        rcases hfile _ j hj with ⟨_, hino⟩ | ⟨hne, _⟩
        · exact hino
        · exact absurd rfl hne
      · exact Or.inl (node_create_self fs (resolve t) ch.now)
    · intro v hv
      rw [hg]
      exact Or.inl hv
    · intro n x hn hx
      cases hn
      have hxy : some x = some { ino := fs.nextIno, pos := 0, pending := [] } := by
        rw [← hx]
        exact Function.update_self _ _ _
      cases hxy
      exact Provenance.fresh (handles_nextFd h.sound) (Nat.le_refl _)

theorem exec_opened_read {t : Text} {r : Except Errno Nat}
    (h : K.Rep fs G) (hvisible : ¬ K.Hidden (resolve t))
    (hmay : ch.fault = none ∨ K.May (Call.openRead t))
    (hexec : exec ch (Call.openRead t) fs = (r, fs')) :
    K.Advances fs G i (Call.openRead t) r fs' := by
  have hreason : K.Fails (Call.openRead t)
      (forall b, K.view fs (resolve t) ≠ some (Entry.file b)) r := by
    apply fails_of hmay
    intro e hf hr b hb
    rw [hr] at hexec
    rcases (Staging.view_file.mp hb).right with ⟨j, hj, _⟩
    exact openRead_error hf hexec j hj
  rcases exec_openRead hexec with ⟨e, hr, hfs⟩ | ⟨j, hnode, hr, hfs⟩
  · subst hr hfs
    exact ⟨G i, ⟨rfl, hreason, rfl⟩, h.quiet⟩
  · subst hr hfs
    refine ⟨Hold.reading fs.nextFd (resolve t) (fs.inodes j).data [],
      ⟨rfl, hreason, (fs.inodes j).data,
        Staging.view_file.mpr ⟨hvisible, j, hnode, rfl⟩, rfl⟩, ?_⟩
    apply h.update i
    · exact h.sound.openHandle (h.sound.bound _ _ hnode)
    · intro k _
      exact
        { spares_refl K fs (G k) with
          handle := by
            intro n hn
            exact Function.update_of_ne
              (fd_ne_nextFd h.sound (h.owns k) hn) _ _ }
    · exact ⟨{ ino := j, pos := 0, pending := [] }, Function.update_self _ _ _,
        rfl, rfl, rfl, List.nil_prefix⟩
    · intro u hu
      cases hu
    · intro n x hn hx
      cases hn
      have hxy : some x = some { ino := j, pos := 0, pending := [] } := by
        rw [← hx]
        exact Function.update_self _ _ _
      cases hxy
      exact Provenance.opened (resolve t) (handles_nextFd h.sound) rfl hvisible
        hnode

/-!
## Through an open descriptor
-/

theorem view_drain {n : Nat} {x y : Handle} (k : Nat) (now : Rat)
    (h : K.Rep fs G) (hpen : (G i).pen = some n)
    (hx : fs.handles n = some x) (hino : y.ino = x.ino) :
    K.view (fs.drain n y k now) = K.view fs := by
  funext q
  refine Staging.view_congr (by rfl) ?_
  intro j hq hj
  show (Function.update fs.inodes y.ino _ j).data = _
  rw [Function.update_of_ne]
  intro hjy
  rw [hjy, hino] at hj
  rcases (h.owns i).pen_name hpen hx hj with ⟨u, _, hplace⟩
  exact hq ⟨u, hplace⟩

theorem spares_drain {n : Nat} {x y : Handle} (k : Nat) (now : Rat)
    (h : K.Rep fs G) (hpen : (G i).pen = some n)
    (hx : fs.handles n = some x) (hino : y.ino = x.ino) {j : Nat}
    (hj : j ≠ i) : K.Spares fs (fs.drain n y k now) (G j) := by
  have hinode : forall l, l ≠ x.ino ->
      ((fs.drain n y k now).inodes l).data = (fs.inodes l).data := by
    intro l hl
    show (Function.update fs.inodes y.ino _ l).data = _
    rw [Function.update_of_ne (by rw [hino]; exact hl)]
  exact
    { spares_refl K fs (G j) with
      handle := by
        intro m hm
        show Function.update fs.handles n _ m = fs.handles m
        rw [Function.update_of_ne]
        intro hmn
        rw [hmn] at hm
        exact hj (h.fd j i n hm (Hold.fd_of_pen hpen))
      ink := by
        intro m z hm hz
        apply hinode
        intro hzx
        exact hj (h.ink i j n m x z hpen hm hx hz hzx.symm).symm
      data := by
        intro u p l hu hplace hl
        apply hinode
        intro hlx
        rw [hlx] at hl
        rcases (h.owns i).pen_name hpen hx hl with ⟨v, hv, hplace'⟩
        rw [K.unique hplace hplace'] at hu
        exact hj (h.token j i v hu hv) }

theorem Rep.drained {n : Nat} {x y : Handle} {u : Text} {p : Path}
    {sent sent' : Option Bytes} (k : Nat) (now : Rat) (h : K.Rep fs G)
    (hg : G i = Hold.writing u n p sent) (hx : fs.handles n = some x)
    (hino : y.ino = x.ino)
    (hsent' : forall b, sent' = some b ->
      (fs.inodes x.ino).data ++ y.pending = b) :
    K.Rep (fs.drain n y k now)
      (Function.update G i (Hold.writing u n p sent')) := by
  have hown := h.owns i
  rw [hg] at hown
  rcases hown with ⟨htoken, hplace, z, hz, _, hname, honly, hthere⟩
  rw [hx] at hz
  cases hz
  have hpen : (G i).pen = some n := by
    rw [hg]
    rfl
  have hbound : y.ino < fs.nextIno ∧ n < fs.nextFd := by
    rw [hino]
    exact h.sound.handle n x hx
  have hself : (fs.drain n y k now).handles n =
      some { ino := y.ino, pos := y.pos, pending := y.pending.drop k } :=
    Function.update_self _ _ _
  apply h.update i
  · exact h.sound.drain hbound k now
  · intro j hj
    exact spares_drain k now h hpen hx hino hj
  · rw [← hino] at hname honly hthere
    refine ⟨htoken, hplace, _, hself, ?_, hname, honly, hthere⟩
    intro b hb
    show (Function.update fs.inodes y.ino _ y.ino).data ++ _ = _
    rw [Function.update_self, List.append_assoc, List.take_append_drop, hino]
    exact hsent' b hb
  · intro v hv
    rw [hg]
    exact Or.inl hv
  · intro m z hm hz
    cases hm
    rw [hself] at hz
    cases hz
    refine Provenance.old x ?_ ?_ hx hino.symm
    · rw [hg]
      rfl
    · rw [hg]
      rfl

theorem exec_wrote {n : Nat} {chunk : Bytes} {r : Except Errno Unit} {u : Text}
    {p : Path} {sent : Option Bytes} (h : K.Rep fs G)
    (hg : G i = Hold.writing u n p sent)
    (hmay : ch.fault = none ∨ K.May (Call.write n chunk))
    (hexec : exec ch (Call.write n chunk) fs = (r, fs')) :
    K.Advances fs G i (Call.write n chunk) r fs' := by
  have hown := h.owns i
  rw [hg] at hown
  rcases hown with ⟨_, _, x, hx, hsent, _⟩
  have hpen : (G i).pen = some n := by
    rw [hg]
    rfl
  rcases exec_write hexec with ⟨hnone, _, _⟩ | ⟨y, hy, hfs, hok⟩
  · rw [hx] at hnone
    cases hnone
  rw [hx] at hy
  cases hy
  have hreason : K.Fails (Call.write n chunk) False r := by
    apply fails_of hmay
    intro e hf hr
    rw [hok hf] at hr
    cases hr
  subst hfs
  refine ⟨_, ⟨view_drain _ _ h hpen hx rfl, u, p, sent, hg, hreason, rfl⟩, ?_⟩
  apply h.drained (y := ⟨x.ino, x.pos, x.pending ++ chunk⟩) _ _ hg hx rfl
  intro b hb
  cases r with
  | error e => cases hb
  | ok _ =>
      cases sent with
      | none => cases hb
      | some b0 =>
          cases hb
          show _ ++ (x.pending ++ chunk) = b0 ++ chunk
          rw [← List.append_assoc, hsent b0 rfl]

theorem exec_flushed {n : Nat} {r : Except Errno Unit} {u : Text}
    {p : Path} {sent : Option Bytes} (h : K.Rep fs G)
    (hg : G i = Hold.writing u n p sent)
    (hmay : ch.fault = none ∨ K.May (Call.flush n))
    (hexec : exec ch (Call.flush n) fs = (r, fs')) :
    K.Advances fs G i (Call.flush n) r fs' := by
  have hown := h.owns i
  rw [hg] at hown
  rcases hown with ⟨_, _, x, hx, hsent, _⟩
  have hpen : (G i).pen = some n := by
    rw [hg]
    rfl
  rcases exec_flush hexec with ⟨hnone, _, _⟩ | ⟨y, k, hy, hfs, _, hok⟩
  · rw [hx] at hnone
    cases hnone
  rw [hx] at hy
  cases hy
  have hreason : K.Fails (Call.flush n) False r := by
    apply fails_of hmay
    intro e hf hr
    rw [hok hf] at hr
    cases hr
  subst hfs
  refine ⟨G i, ⟨view_drain _ _ h hpen hx rfl, rfl, hreason⟩, ?_⟩
  have hrep := h.drained k ch.now hg hx rfl hsent
  rw [← hg] at hrep
  exact hrep

theorem exec_synced {n : Nat} {r : Except Errno Unit} {u : Text}
    {p : Path} {sent : Option Bytes} (h : K.Rep fs G)
    (hg : G i = Hold.writing u n p sent)
    (hmay : ch.fault = none ∨ K.May (Call.fsync n))
    (hexec : exec ch (Call.fsync n) fs = (r, fs')) :
    K.Advances fs G i (Call.fsync n) r fs' := by
  have hown := h.owns i
  rw [hg] at hown
  rcases hown with ⟨_, _, x, hx, _⟩
  have hreason : K.Fails (Call.fsync n) False r := by
    apply fails_of hmay
    intro e hf hr
    rw [hr] at hexec
    rw [fsync_error hf hexec] at hx
    cases hx
  cases hexec
  exact ⟨G i, ⟨rfl, rfl, hreason⟩, h.quiet⟩

theorem Rep.shut {n : Nat} {g' : Hold} (h : K.Rep fs G)
    (hfd : (G i).fd = some n) (hnofd : g'.fd = none)
    (htoken : g'.token = none ∨ g'.token = (G i).token)
    (hown : K.Owns (fs.setHandle n none) g') :
    K.Rep (fs.setHandle n none) (Function.update G i g') := by
  apply h.update i
  · apply h.sound.setHandle
    intro y hy
    cases hy
  · intro j hj
    exact
      { spares_refl K fs (G j) with
        handle := by
          intro m hm
          show Function.update fs.handles n none m = fs.handles m
          rw [Function.update_of_ne]
          intro hmn
          rw [hmn] at hm
          exact hj (h.fd j i n hm hfd) }
  · exact hown
  · intro u hu
    rcases htoken with hnone | hsame
    · rw [hnone] at hu
      cases hu
    · rw [hsame] at hu
      exact Or.inl hu
  · intro m x hm
    rw [hnofd] at hm
    cases hm

theorem drain_empty {n : Nat} {x : Handle} (k : Nat) (now : Rat)
    (hempty : x.pending = []) :
    (fs.drain n x k now).setHandle n none = fs.setHandle n none := by
  have hinode : Function.update fs.inodes x.ino (fs.inodes x.ino) = fs.inodes :=
    Function.update_eq_self _ _
  simp only [FileTree.drain, FileTree.setHandle, FileTree.setInode, hempty,
    List.take_nil, List.append_nil, if_true, Function.update_idem, hinode]

theorem exec_closed {n : Nat} {r : Except Errno Unit} (h : K.Rep fs G)
    (hfd : (G i).fd = some n)
    (hmay : ch.fault = none ∨ K.May (Call.close n))
    (hexec : exec ch (Call.close n) fs = (r, fs')) :
    K.Advances fs G i (Call.close n) r fs' := by
  rcases (h.owns i).handle hfd with ⟨x, hx⟩
  rcases exec_close hexec with ⟨hnone, _, _⟩ | ⟨y, k, hy, hfs, hall, hok⟩
  · rw [hx] at hnone
    cases hnone
  rw [hx] at hy
  cases hy
  have hreason : K.Fails (Call.close n) False r := by
    apply fails_of hmay
    intro e hf hr
    rw [hok hf] at hr
    cases hr
  subst hfs
  have hown := h.owns i
  cases hg : G i with
  | writing u m p sent =>
      rw [hg] at hfd hown
      cases hfd
      have hpen : (G i).pen = some n := by
        rw [hg]
        rfl
      rcases hown with ⟨_, _, z, hz, hsent, _⟩
      rw [hx] at hz
      cases hz
      have hrep := h.drained k ch.now hg hx rfl hsent
      refine ⟨(G i).shut r.isOk, ⟨view_drain k ch.now h hpen hx rfl, rfl,
        hreason⟩, ?_⟩
      have hself : Function.update G i (Hold.writing u n p sent) i =
          Hold.writing u n p sent := Function.update_self _ _ _
      have hown' := hrep.owns i
      rw [hself] at hown'
      rcases hown' with ⟨htoken, hplace, z, hz, hsent', _, honly, hthere⟩
      have hzx : z = { ino := x.ino, pos := x.pos, pending := x.pending.drop k } := by
        have hset : some z =
            some { ino := x.ino, pos := x.pos, pending := x.pending.drop k } := by
          rw [← hz]
          exact Function.update_self _ _ _
        exact Option.some.inj hset
      have hshut : K.Owns ((fs.drain n x k ch.now).setHandle n none)
          ((G i).shut r.isOk) := by
        rw [hg]
        cases r with
        | error e =>
            cases sent <;> exact htoken
        | ok _ =>
            cases sent with
            | none => exact htoken
            | some b =>
                refine ⟨htoken, hplace, ?_, ?_⟩
                · intro j hj
                  rw [honly j hj]
                  have hdata := hsent' b rfl
                  have hpending : z.pending = [] := by
                    rw [hzx, hall rfl]
                    exact List.drop_length
                  rw [hpending, List.append_nil] at hdata
                  exact hdata
                · rcases hthere with hnode | hsweeps
                  · exact Or.inl ⟨z.ino, hnode⟩
                  · exact Or.inr hsweeps
      have hnofd : ((G i).shut r.isOk).fd = none := by
        rw [hg]
        cases r <;> cases sent <;> rfl
      have htoken' : ((G i).shut r.isOk).token = (G i).token := by
        rw [hg]
        cases r <;> cases sent <;> rfl
      have hfinal := hrep.shut (n := n) (i := i) (by rw [hself]; rfl) hnofd
        (Or.inr (by rw [htoken', hself, hg])) hshut
      rw [Function.update_idem] at hfinal
      exact hfinal
  | reading m p body got =>
      rw [hg] at hfd hown
      cases hfd
      rcases hown with ⟨z, hz, hempty, _, _, hgot⟩
      rw [hx] at hz
      cases hz
      rw [drain_empty k ch.now hempty]
      refine ⟨Hold.closed p body got, ⟨rfl, ?_, hreason⟩, ?_⟩
      · rw [hg]
        cases r <;> rfl
      · exact h.shut (by rw [hg]; rfl) rfl (Or.inl rfl) hgot
  | idle => rw [hg] at hfd; cases hfd
  | drawn u => rw [hg] at hfd; cases hfd
  | staged u p b => rw [hg] at hfd; cases hfd
  | spent u => rw [hg] at hfd; cases hfd
  | closed p body got => rw [hg] at hfd; cases hfd

theorem exec_got {n : Nat} {limit : Option Nat} {r : Except Errno Bytes}
    {p : Path} {body got : Bytes} (h : K.Rep fs G)
    (hg : G i = Hold.reading n p body got)
    (hmay : ch.fault = none ∨ K.May (Call.read n limit))
    (hexec : exec ch (Call.read n limit) fs = (r, fs')) :
    K.Advances fs G i (Call.read n limit) r fs' := by
  have hown := h.owns i
  rw [hg] at hown
  rcases hown with ⟨x, hx, hempty, hbody, hpos, hgot⟩
  have hreason : K.Fails (Call.read n limit) False r := by
    apply fails_of hmay
    intro e hf hr
    rw [hr] at hexec
    rw [read_error hf hexec] at hx
    cases hx
  rcases exec_read hexec with ⟨e, hr, hfs⟩ | ⟨y, chunk, hy, hr, hchunk, hfs⟩
  · subst hr hfs
    exact ⟨G i, ⟨rfl, p, body, got, hg, hreason, rfl⟩, h.quiet⟩
  · rw [hx] at hy
    cases hy
    rw [hbody, hpos] at hchunk
    subst hr hfs
    refine ⟨Hold.reading n p body (got ++ chunk),
      ⟨rfl, p, body, got, hg, hreason, hchunk, rfl⟩, ?_⟩
    have hmore : got ++ chunk <+: body := by
      rcases hgot with ⟨rest, hrest⟩
      have hdrop : body.drop got.length = rest := by
        rw [← hrest, List.drop_left]
      have hpre : chunk <+: rest := by
        rw [hchunk, hdrop]
        cases limit with
        | none => exact List.prefix_rfl
        | some k => exact List.take_prefix k rest
      rw [← hrest]
      exact (List.prefix_append_right_inj got).mpr hpre
    have hself : (fs.setHandle n (some
        { ino := x.ino, pos := x.pos + chunk.length, pending := x.pending })).handles n =
        some { ino := x.ino, pos := x.pos + chunk.length, pending := x.pending } :=
      Function.update_self _ _ _
    have hnfd : (G i).fd = some n := by
      rw [hg]
      rfl
    apply h.update i
    · apply h.sound.setHandle
      intro z hz
      rw [← Option.some.inj hz]
      exact h.sound.handle n x hx
    · intro j hj
      exact
        { spares_refl K fs (G j) with
          handle := by
            intro m hm
            apply Function.update_of_ne
            intro hmn
            rw [hmn] at hm
            exact hj (h.fd j i n hm hnfd) }
    · refine ⟨_, hself, hempty, hbody, ?_, hmore⟩
      rw [hpos, List.length_append]
    · intro u hu
      cases hu
    · intro m z hm hz
      cases hm
      rw [hself] at hz
      cases hz
      refine Provenance.old x hnfd ?_ hx rfl
      rw [hg]
      rfl

/-!
## Changing names
-/

theorem exec_made {t : Text} {r : Except Errno Unit} (h : K.Rep fs G)
    (hmay : ch.fault = none ∨ K.May (Call.makedirs t))
    (hexec : exec ch (Call.makedirs t) fs = (r, fs')) :
    K.Advances fs G i (Call.makedirs t) r fs' := by
  have hreason : K.Fails (Call.makedirs t)
      (K.view fs (resolve t) ≠ some Entry.dir ∧ exists q, q <+: resolve t ∧
        (K.Hidden q ∨ exists b, K.view fs q = some (Entry.file b))) r := by
    apply fails_of hmay
    intro e hf hr
    rw [hr] at hexec
    rcases makedirs_error hf hexec with ⟨q, j, hq, hj⟩
    constructor
    · intro hdir
      have hqdir := h.sound.dir_of_prefix (Staging.view_dir.mp hdir) hq
      rw [hj] at hqdir
      cases hqdir
    · by_cases hhidden : K.Hidden q
      · exact ⟨q, hq, Or.inl hhidden⟩
      · exact ⟨q, hq, Or.inr ⟨_, Staging.view_file.mpr ⟨hhidden, j, hj, rfl⟩⟩⟩
  rcases exec_makedirs hexec with ⟨e, hr, hfs⟩ | ⟨limit, hfs, hway, hok⟩
  · subst hr hfs
    refine ⟨G i, ⟨rfl, fun q => Or.inl rfl, ?_, hreason⟩, h.quiet⟩
    intro hr
    cases hr
  have hinodes : fs'.inodes = fs.inodes := by
    rw [hfs, mkdirs_inodes]
  have hsome : forall q m, fs.node q = some m -> fs'.node q = some m := by
    intro q m hq
    rw [hfs]
    exact node_mkdirs_of_some hq
  have hnone : forall q, fs.node q = none -> fs'.node q = none ∨
      (fs'.node q = some Node.dir ∧ q <+: resolve t) := by
    intro q hq
    rw [hfs]
    exact node_mkdirs_of_none hq
  have hfile : forall q j, fs'.node q = some (Node.file j) ->
      fs.node q = some (Node.file j) := by
    intro q j hq
    cases hnode : fs.node q with
    | some m =>
        rw [hsome q m hnode] at hq
        exact hq
    | none =>
        rcases hnone q hnode with hno | ⟨hdir, _⟩
        · rw [hno] at hq
          cases hq
        · rw [hdir] at hq
          cases hq
  have hspare : forall j, K.Spares fs fs' (G j) := by
    intro j
    rcases mkdirs_handles fs [] (resolve t) limit with ⟨hhandles, _, htokens⟩
    rw [← hfs] at hhandles htokens
    exact
      { tokens := fun u hu => by rw [htokens]; exact hu
        handle := fun n _ => by rw [hhandles]
        ink := fun n x _ _ => by rw [hinodes]
        gone := fun u p k _ _ hk => hfile p k hk
        kept := fun u p k _ _ hk => Or.inl (hsome p _ hk)
        data := fun u p k _ _ _ => by rw [hinodes]
        names := fun n x q _ _ hq => hfile q _ hq }
  refine ⟨G i, ⟨rfl, ?_, ?_, hreason⟩, ?_⟩
  · intro q
    cases hnode : fs.node q with
    | some m =>
        apply Or.inl
        apply Staging.view_congr
        · rw [hsome q m hnode, hnode]
        · intro j _ _
          rw [hinodes]
    | none =>
        rcases hnone q hnode with hno | ⟨hdir, hpre⟩
        · apply Or.inl
          rw [Staging.view_none_of_none hno, Staging.view_none_of_none hnode]
        · exact Or.inr
            ⟨Staging.view_none_of_none hnode, Staging.view_dir.mpr hdir, hpre⟩
  · intro hr q hq
    rw [Staging.view_dir, hfs]
    have hroom : (resolve t).length ≤ limit := by
      cases r with
      | error e => cases hr
      | ok a => exact Nat.le_of_eq (hok rfl).symm
    exact node_mkdirs_made h.sound.root
      (fun q' j _ hq' => hway q' j hq') hroom q List.nil_prefix hq
  · apply h.update i
    · rw [hfs]
      exact h.sound.mkdirs h.sound.root (fun q' j _ hq' => hway q' j hq')
    · intro j _
      exact hspare j
    · exact (h.owns i).spared (hspare i)
    · intro u hu
      exact Or.inl hu
    · intro n x hn hx
      rw [(hspare i).handle n hn] at hx
      exact Provenance.old x hn rfl hx rfl

theorem spares_unlink {p : Path} {j : Nat}
    (hp : (forall u, (G j).token = some u -> ¬ K.Place u p) ∨ K.Sweeps) :
    K.Spares fs (fs.unlink p) (G j) := by
  have hback : forall q k, (fs.unlink p).node q = some (Node.file k) ->
      fs.node q = some (Node.file k) := by
    intro q k hq
    by_cases hqp : q = p
    · rw [hqp, node_unlink_self] at hq
      cases hq
    · rw [node_unlink_ne _ hqp] at hq
      exact hq
  exact
    { spares_refl K fs (G j) with
      gone := fun u q k _ _ hk => hback q k hk
      kept := by
        intro u q k hu hplace hk
        by_cases hqp : q = p
        · rcases hp with hother | hsweeps
          · rw [hqp] at hplace
            exact absurd hplace (hother u hu)
          · exact Or.inr hsweeps
        · rw [node_unlink_ne _ hqp]
          exact Or.inl hk
      names := fun n x q _ _ hq => hback q _ hq }

theorem exec_renamed {src dst u : Text} {b : Bytes} {r : Except Errno Unit}
    (h : K.Rep fs G) (hg : G i = Hold.staged u (resolve src) b)
    (hvisible : ¬ K.Hidden (resolve dst))
    (hmay : ch.fault = none ∨ K.May (Call.rename src dst))
    (hexec : exec ch (Call.rename src dst) fs = (r, fs')) :
    K.Advances fs G i (Call.rename src dst) r fs' := by
  have hown := h.owns i
  rw [hg] at hown
  rcases hown with ⟨htoken, hplace, hdata, hthere⟩
  have hreason : K.Fails (Call.rename src dst)
      (K.Sweeps ∨ K.view fs (resolve dst) = some Entry.dir ∨
        K.view fs (resolve dst).dropLast ≠ some Entry.dir) r := by
    apply fails_of hmay
    intro e hf hr
    rcases hthere with ⟨j, hj⟩ | hsweeps
    · rw [hr] at hexec
      rw [Staging.view_dir, Ne, Staging.view_dir]
      exact Or.inr (rename_error hf hj hexec)
    · exact Or.inl hsweeps
  rcases exec_rename hexec with
    ⟨e, hr, hfs⟩ | ⟨j, hr, hsrc, hdst, hparent, hfs⟩
  · subst hr hfs
    have hspent : K.Owns fs' (Hold.spent u) := htoken
    refine ⟨Hold.spent u, ⟨u, b, hg, rfl, hreason, rfl⟩, ?_⟩
    apply h.rehold hspent
    · intro v hv
      rw [hg]
      exact hv
    · intro n hn
      cases hn
  · have hne : resolve dst ≠ resolve src := by
      intro heq
      rw [heq] at hvisible
      exact hvisible ⟨u, hplace⟩
    have hfile : forall q, q ≠ resolve dst -> q ≠ resolve src ->
        fs'.node q = fs.node q := by
      intro q hq hq'
      rw [hfs, node_link_ne _ _ hq, node_unlink_ne _ hq']
    have hgone : fs'.node (resolve src) = none := by
      rw [hfs, node_link_ne _ _ (Ne.symm hne), node_unlink_self]
    have hput : fs'.node (resolve dst) = some (Node.file j) := by
      rw [hfs, node_link_self]
    have hinodes : fs'.inodes = fs.inodes := by
      rw [hfs]
      rfl
    subst hr
    refine ⟨Hold.spent u, ⟨u, b, hg, rfl, hreason, ?_, ?_, ?_⟩, ?_⟩
    · rw [Ne, Staging.view_dir]
      exact hdst
    · rw [Staging.view_dir]
      exact hparent
    · funext q
      by_cases hq : q = resolve dst
      · rw [hq, Function.update_self, Staging.view_file]
        refine ⟨hvisible, j, hput, ?_⟩
        rw [hinodes]
        exact hdata j hsrc
      · rw [Function.update_of_ne hq]
        by_cases hq' : q = resolve src
        · rw [hq', Staging.view_none_of_none hgone]
          have hhidden : K.Hidden (resolve src) := ⟨u, hplace⟩
          unfold Staging.view look
          simp [hsrc, hhidden]
        · apply Staging.view_congr (hfile q hq hq')
          intro k _ _
          rw [hinodes]
    · apply h.update i
      · rw [hfs]
        exact h.sound.move hsrc hdst hparent
      · intro k hk
        have hplaces : forall v q, (G k).token = some v -> K.Place v q ->
            q ≠ resolve dst ∧ q ≠ resolve src := by
          intro v q hv hq
          constructor
          · intro hqd
            rw [hqd] at hq
            exact hvisible ⟨v, hq⟩
          · intro hqs
            rw [hqs] at hq
            rw [K.unique hq hplace] at hv
            exact hk (h.token k i u hv (by rw [hg]; rfl))
        exact
          { tokens := fun v hv => by rw [hfs]; exact hv
            handle := fun n _ => by rw [hfs]; rfl
            ink := fun n x _ _ => by rw [hinodes]
            gone := by
              intro v q l hv hq hl
              rw [hfile q (hplaces v q hv hq).left (hplaces v q hv hq).right] at hl
              exact hl
            kept := by
              intro v q l hv hq hl
              rw [hfile q (hplaces v q hv hq).left (hplaces v q hv hq).right]
              exact Or.inl hl
            data := fun v q l _ _ _ => by rw [hinodes]
            names := by
              intro n x q hn hx hq
              by_cases hqd : q = resolve dst
              · rw [hqd, hput] at hq
                cases hq
                rcases (h.owns k).pen_name hn hx hsrc with ⟨v, hv, hv'⟩
                exact absurd rfl (hplaces v _ hv hv').right
              · by_cases hqs : q = resolve src
                · rw [hqs, hgone] at hq
                  cases hq
                · rw [hfile q hqd hqs] at hq
                  exact hq }
      · show u ∈ fs'.tokens
        rw [hfs]
        exact htoken
      · intro v hv
        rw [hg]
        exact Or.inl hv
      · intro n x hn
        cases hn

theorem exec_removed {t : Text} {r : Except Errno Unit} (h : K.Rep fs G)
    (hfd : (G i).fd = none)
    (hown : K.Hidden (resolve t) ->
      K.Sweeps ∨ exists u, (G i).token = some u ∧ K.Place u (resolve t))
    (hmay : ch.fault = none ∨ K.May (Call.remove t))
    (hexec : exec ch (Call.remove t) fs = (r, fs')) :
    K.Advances fs G i (Call.remove t) r fs' := by
  have hforsake : forall fs1 : FileTree,
      (forall u, u ∈ fs.tokens -> u ∈ fs1.tokens) ->
      K.Owns fs1 (G i).forsake := by
    intro fs1 htokens
    have hold := h.owns i
    cases hg : G i with
    | idle => trivial
    | drawn u => rw [hg] at hold; exact htokens u hold.left
    | writing u n p sent => rw [hg] at hfd; cases hfd
    | staged u p b => rw [hg] at hold; exact htokens u hold.left
    | spent u => rw [hg] at hold; exact htokens u hold
    | reading n p body got => rw [hg] at hfd; cases hfd
    | closed p body got => rw [hg] at hold; exact hold
  have htoken : forall u, (G i).forsake.token = some u ->
      (G i).token = some u := by
    intro u hu
    cases hg : G i <;> rw [hg] at hu <;> exact hu
  have hnofd : (G i).forsake.fd = none := by
    cases hg : G i <;> rw [hg] at hfd <;> first | rfl | exact hfd
  by_cases hhidden : K.Hidden (resolve t)
  · refine ⟨(G i).forsake, ⟨fun _ => ⟨?_, rfl⟩, fun hv => absurd hhidden hv⟩, ?_⟩
    · rcases exec_remove hexec with ⟨_, _, hfs⟩ | ⟨j, _, hnode, hfs⟩
      · rw [hfs]
      · rw [hfs]
        funext q
        by_cases hq : q = resolve t
        · rw [hq, Staging.view_none_of_none (node_unlink_self _ _)]
          unfold Staging.view look
          simp [hnode, hhidden]
        · exact Staging.view_congr (node_unlink_ne _ hq) (fun k _ _ => rfl)
    · rcases exec_remove hexec with ⟨_, _, hfs⟩ | ⟨j, _, hnode, hfs⟩
      · rw [hfs]
        apply h.rehold (hforsake fs (fun u hu => hu)) htoken
        intro n hn
        rw [hnofd] at hn
        cases hn
      · rw [hfs]
        apply h.update i
        · apply h.sound.unlink
          rw [hnode]
          simp
        · intro k hk
          apply spares_unlink
          rcases hown hhidden with hsweeps | ⟨u, hu, hplace⟩
          · exact Or.inr hsweeps
          · apply Or.inl
            intro v hv hplace'
            rw [K.unique hplace' hplace] at hv
            exact hk (h.token k i u hv hu)
        · exact hforsake _ (fun u hu => hu)
        · intro u hu
          exact Or.inl (htoken u hu)
        · intro n x hn
          rw [hnofd] at hn
          cases hn
  · have hreason : K.Fails (Call.remove t)
        (forall b, K.view fs (resolve t) ≠ some (Entry.file b)) r := by
      apply fails_of hmay
      intro e hf hr b hb
      rw [hr] at hexec
      rcases (Staging.view_file.mp hb).right with ⟨j, hj, _⟩
      exact remove_error hf hexec j hj
    rcases exec_remove hexec with ⟨e, hr, hfs⟩ | ⟨j, hr, hnode, hfs⟩
    · subst hr hfs
      exact ⟨G i, ⟨fun hh => absurd hh hhidden, fun _ => ⟨rfl, hreason, rfl⟩⟩,
        h.quiet⟩
    · subst hr hfs
      have hspare : forall k, K.Spares fs (fs.unlink (resolve t)) (G k) :=
        fun k => spares_unlink
          (Or.inl (fun u _ hplace => hhidden ⟨u, hplace⟩))
      refine ⟨G i, ⟨fun hh => absurd hh hhidden, fun _ => ⟨rfl, hreason,
        ⟨_, Staging.view_file.mpr ⟨hhidden, j, hnode, rfl⟩⟩, ?_⟩⟩, ?_⟩
      · funext q
        by_cases hq : q = resolve t
        · rw [hq, Function.update_self]
          exact Staging.view_none_of_none (node_unlink_self _ _)
        · rw [Function.update_of_ne hq]
          exact Staging.view_congr (node_unlink_ne _ hq) (fun k _ _ => rfl)
      · apply h.update i
        · apply h.sound.unlink
          rw [hnode]
          simp
        · intro k _
          exact hspare k
        · exact (h.owns i).spared (hspare i)
        · intro u hu
          exact Or.inl hu
        · intro n x hn
          rw [hfd] at hn
          cases hn

/-!
## Any call
-/

/-- The tree refines the contract: one call of the task at `i`. -/
theorem Rep.step {tag : ι} {seen : List Sight} {allow : Policy} {c : Call}
    {r : Call.Ret c} (h : K.Rep fs G) (hcan : K.Can tag seen (G i) c)
    (hlegal : Legal allow fs c ch) (hmay : ch.fault = none ∨ K.May c)
    (hexec : exec ch c fs = (r, fs')) : K.Advances fs G i c r fs' := by
  cases c with
  | uuid4 => exact exec_drawn h (hlegal.right rfl) hexec
  | time =>
      cases hexec
      exact ⟨G i, ⟨rfl, rfl⟩, h.quiet⟩
  | getmtime t =>
      cases hexec
      exact ⟨G i, ⟨rfl, rfl⟩, h.quiet⟩
  | listdir t =>
      cases hexec
      exact ⟨G i, ⟨rfl, rfl⟩, h.quiet⟩
  | walk t =>
      cases hexec
      exact ⟨G i, ⟨rfl, rfl⟩, h.quiet⟩
  | pathExists t =>
      cases hexec
      refine ⟨G i, ⟨rfl, rfl, ?_⟩, h.quiet⟩
      intro hvisible
      apply answers_of hmay
      · intro hr hnone
        rw [Staging.node_none_of_view hvisible hnone] at hr
        simp at hr
      · intro hf hr
        rw [hf] at hr
        cases hnode : fs.node (resolve t) with
        | none => simp [Staging.view_none_of_none hnode]
        | some n => simp [hnode] at hr
  | isfile t =>
      cases hexec
      refine ⟨G i, ⟨rfl, rfl, ?_⟩, h.quiet⟩
      intro hvisible
      apply answers_of hmay
      · intro hr
        simp only [Bool.and_eq_true] at hr
        have hfile := hr.right
        unfold isFile content at hfile
        split at hfile
        · rename_i j hnode
          exact ⟨_, Staging.view_file.mpr ⟨hvisible, j, hnode, rfl⟩⟩
        · cases hfile
      · intro hf hr hb
        rcases hb with ⟨b, hb⟩
        rcases Staging.view_file.mp hb with ⟨_, j, hj, _⟩
        rw [hf] at hr
        simp [isFile, content, hj] at hr
  | isdir t =>
      cases hexec
      refine ⟨G i, ⟨rfl, rfl, ?_⟩, h.quiet⟩
      rw [Staging.view_dir]
      apply answers_of hmay
      · intro hr
        simp only [Bool.and_eq_true] at hr
        simpa [isDir] using hr.right
      · intro hf hr hdir
        rw [hf] at hr
        simp [isDir, hdir] at hr
  | stat t =>
      have hfs : fs' = fs := by
        cases hexec
        rfl
      subst hfs
      refine ⟨G i, ⟨rfl, rfl, ?_⟩, h.quiet⟩
      intro _
      constructor
      · apply fails_of hmay
        intro e hf hr
        rw [hr] at hexec
        exact Staging.view_none_of_none (stat_error hf hexec)
      · intro st b hst hb
        rcases Staging.view_file.mp hb with ⟨_, j, hj, hdata⟩
        rw [hst] at hexec
        simp only [exec, statAt, hj] at hexec
        split at hexec
        · cases hexec
        · cases hexec
          rw [← hdata]
  | openWrite t =>
      rcases hcan with ⟨_, u, hg, hplace⟩
      exact exec_opened_write h hg hplace hmay hexec
  | openRead t => exact exec_opened_read h hcan.right.right hmay hexec
  | write n chunk =>
      rcases hcan with ⟨u, p, sent, hg⟩
      exact exec_wrote h hg hmay hexec
  | flush n =>
      rcases hcan with ⟨u, p, sent, hg⟩
      exact exec_flushed h hg hmay hexec
  | fsync n =>
      rcases hcan with ⟨u, p, sent, hg⟩
      exact exec_synced h hg hmay hexec
  | close n => exact exec_closed h hcan hmay hexec
  | read n limit =>
      rcases hcan with ⟨p, body, got, hg⟩
      exact exec_got h hg hmay hexec
  | makedirs t => exact exec_made h hmay hexec
  | rename src dst =>
      rcases hcan with ⟨u, b, hg, hvisible, _⟩
      exact exec_renamed h hg hvisible hmay hexec
  | remove t =>
      rcases hcan with ⟨hfd, _, hown⟩
      exact exec_removed h hfd hown hmay hexec

end Contract

end Posix
