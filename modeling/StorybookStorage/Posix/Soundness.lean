import StorybookStorage.Posix.FileTree

/-!
# Sound file trees

A tree is sound when the root is a directory, every name hangs in a directory,
no two names share a file and every number in use was handed out.  Each call
keeps this, whatever the device does.
-/

namespace Posix

open Effects Python

namespace FileTree

/-!
## Names after an update
-/

@[simp] theorem node_link_self (fs : FileTree) (p : Path) (n : Node) :
    (fs.link p n).node p = some n :=
  AList.lookup_insert _

theorem node_link_ne (fs : FileTree) {p q : Path} (n : Node) (h : q ≠ p) :
    (fs.link p n).node q = fs.node q :=
  AList.lookup_insert_ne h

@[simp] theorem node_unlink_self (fs : FileTree) (p : Path) :
    (fs.unlink p).node p = none :=
  AList.lookup_erase _ _

theorem node_unlink_ne (fs : FileTree) {p q : Path} (h : q ≠ p) :
    (fs.unlink p).node q = fs.node q :=
  AList.lookup_erase_ne h

@[simp] theorem node_create_self (fs : FileTree) (p : Path) (now : Rat) :
    (fs.create p now).node p = some (Node.file fs.nextIno) :=
  AList.lookup_insert _

theorem node_create_ne (fs : FileTree) {p q : Path} (now : Rat) (h : q ≠ p) :
    (fs.create p now).node q = fs.node q :=
  AList.lookup_insert_ne h

@[simp] theorem node_setInode (fs : FileTree) (i : Nat) (n : Inode) (p : Path) :
    (fs.setInode i n).node p = fs.node p := rfl

@[simp] theorem node_setHandle (fs : FileTree) (fd : Nat) (h : Option Handle)
    (p : Path) : (fs.setHandle fd h).node p = fs.node p := rfl

@[simp] theorem node_openHandle (fs : FileTree) (h : Handle) (p : Path) :
    (fs.openHandle h).node p = fs.node p := rfl

@[simp] theorem node_drain (fs : FileTree) (fd : Nat) (h : Handle) (n : Nat)
    (now : Rat) (p : Path) : (fs.drain fd h n now).node p = fs.node p := rfl

/-!
## Making directories
-/

theorem mkdirs_inodes (fs : FileTree) (at_ : Path) (segs : List Text)
    (limit : Nat) : (fs.mkdirs at_ segs limit).inodes = fs.inodes := by
  induction segs generalizing fs at_ limit with
  | nil => rfl
  | cons seg rest ih =>
      unfold mkdirs
      cases fs.node (at_ ++ [seg]) with
      | some n => exact ih fs _ limit
      | none =>
          cases limit with
          | zero => rfl
          | succ n => exact ih _ _ n

theorem mkdirs_nextIno (fs : FileTree) (at_ : Path) (segs : List Text)
    (limit : Nat) : (fs.mkdirs at_ segs limit).nextIno = fs.nextIno := by
  induction segs generalizing fs at_ limit with
  | nil => rfl
  | cons seg rest ih =>
      unfold mkdirs
      cases fs.node (at_ ++ [seg]) with
      | some n => exact ih fs _ limit
      | none =>
          cases limit with
          | zero => rfl
          | succ n => exact ih _ _ n

theorem mkdirs_handles (fs : FileTree) (at_ : Path) (segs : List Text)
    (limit : Nat) :
    (fs.mkdirs at_ segs limit).handles = fs.handles ∧
      (fs.mkdirs at_ segs limit).nextFd = fs.nextFd ∧
      (fs.mkdirs at_ segs limit).tokens = fs.tokens := by
  induction segs generalizing fs at_ limit with
  | nil => exact ⟨rfl, rfl, rfl⟩
  | cons seg rest ih =>
      unfold mkdirs
      cases fs.node (at_ ++ [seg]) with
      | some n => exact ih fs _ limit
      | none =>
          cases limit with
          | zero => exact ⟨rfl, rfl, rfl⟩
          | succ n => exact ih _ _ n

theorem node_mkdirs_of_some {fs : FileTree} {at_ q : Path} {segs : List Text}
    {limit : Nat} {n : Node} (h : fs.node q = some n) :
    (fs.mkdirs at_ segs limit).node q = some n := by
  induction segs generalizing fs at_ limit with
  | nil => exact h
  | cons seg rest ih =>
      unfold mkdirs
      cases hnode : fs.node (at_ ++ [seg]) with
      | some m => exact ih h
      | none =>
          cases limit with
          | zero => exact h
          | succ k =>
              apply ih
              rw [node_link_ne _ _ ?_]
              · exact h
              · intro hq
                rw [hq, hnode] at h
                cases h

theorem node_mkdirs_of_none {fs : FileTree} {at_ q : Path} {segs : List Text}
    {limit : Nat} (h : fs.node q = none) :
    (fs.mkdirs at_ segs limit).node q = none ∨
      ((fs.mkdirs at_ segs limit).node q = some Node.dir ∧
        q <+: at_ ++ segs) := by
  induction segs generalizing fs at_ limit with
  | nil => exact Or.inl h
  | cons seg rest ih =>
      have hway : at_ ++ seg :: rest = (at_ ++ [seg]) ++ rest := by simp
      unfold mkdirs
      rw [hway]
      cases hnode : fs.node (at_ ++ [seg]) with
      | some m => exact ih h
      | none =>
          cases limit with
          | zero => exact Or.inl h
          | succ k =>
              by_cases hq : q = at_ ++ [seg]
              · refine Or.inr ⟨?_, hq ▸ List.prefix_append _ _⟩
                exact node_mkdirs_of_some (hq ▸ node_link_self _ _ _)
              · exact ih (by rw [node_link_ne _ _ hq]; exact h)

theorem node_mkdirs_made {fs : FileTree} {at_ : Path} {segs : List Text}
    {limit : Nat} (hat : fs.node at_ = some Node.dir)
    (hway : forall (q : Path) (i : Nat), at_ <+: q -> q <+: at_ ++ segs ->
      fs.node q ≠ some (Node.file i))
    (hlimit : segs.length ≤ limit) :
    forall q, at_ <+: q -> q <+: at_ ++ segs ->
      (fs.mkdirs at_ segs limit).node q = some Node.dir := by
  induction segs generalizing fs at_ limit with
  | nil =>
      intro q hq hq'
      rw [List.append_nil] at hq'
      have heq : q = at_ :=
        hq'.eq_of_length (Nat.le_antisymm hq'.length_le hq.length_le)
      rw [heq]
      exact hat
  | cons seg rest ih =>
      intro q hq hq'
      have hstep : at_ ++ seg :: rest = (at_ ++ [seg]) ++ rest := by simp
      rw [hstep] at hq' hway
      have hsub : at_ <+: at_ ++ [seg] := List.prefix_append _ _
      have hlen : rest.length ≤ limit - 1 := by
        simp only [List.length_cons] at hlimit
        omega
      have hcases : q = at_ ∨ at_ ++ [seg] <+: q := by
        rcases Nat.lt_or_ge at_.length q.length with hlt | hge
        · exact Or.inr
            (List.prefix_of_prefix_length_le (List.prefix_append _ rest) hq'
              (by simpa using Nat.succ_le_of_lt hlt))
        · exact Or.inl
            (hq.eq_of_length (Nat.le_antisymm hq.length_le hge)).symm
      unfold mkdirs
      cases hnode : fs.node (at_ ++ [seg]) with
      | some m =>
          have hdir : fs.node (at_ ++ [seg]) = some Node.dir := by
            cases m with
            | dir => exact hnode
            | file i =>
                exact absurd hnode
                  (hway _ i hsub (List.prefix_append _ _))
          rcases hcases with heq | hdeep
          · rw [heq]
            exact node_mkdirs_of_some hat
          · exact ih hdir
              (fun q' i h1 h2 => hway q' i (hsub.trans h1) h2)
              (Nat.le_trans hlen (Nat.sub_le _ _)) q hdeep hq'
      | none =>
          cases limit with
          | zero => simp at hlimit
          | succ k =>
              have hdir : (fs.link (at_ ++ [seg]) Node.dir).node (at_ ++ [seg]) =
                  some Node.dir := node_link_self _ _ _
              rcases hcases with heq | hdeep
              · rw [heq]
                apply node_mkdirs_of_some
                rw [node_link_ne _ _ (by simp)]
                exact hat
              · refine ih hdir ?_ (by simpa using hlimit) q hdeep hq'
                intro q' i h1 h2
                by_cases hq'' : q' = at_ ++ [seg]
                · rw [hq'', hdir]
                  simp
                · rw [node_link_ne _ _ hq'']
                  exact hway q' i (hsub.trans h1) h2

/-!
## Soundness
-/

structure Sound (fs : FileTree) : Prop where
  root : fs.node [] = some Node.dir
  parent : forall p, p ≠ [] -> fs.node p ≠ none ->
    fs.node p.dropLast = some Node.dir
  inj : forall p q i, fs.node p = some (Node.file i) ->
    fs.node q = some (Node.file i) -> p = q
  bound : forall p i, fs.node p = some (Node.file i) -> i < fs.nextIno
  handle : forall fd h, fs.handles fd = some h ->
    h.ino < fs.nextIno ∧ fd < fs.nextFd

variable {fs : FileTree}

theorem Sound.dir_of_prefix (h : fs.Sound) {p q : Path}
    (hp : fs.node p = some Node.dir) (hq : q <+: p) :
    fs.node q = some Node.dir := by
  rcases hq with ⟨rest, rfl⟩
  induction rest using List.reverseRecOn with
  | nil => simpa using hp
  | append_singleton front last ih =>
      apply ih
      have hparent := h.parent (q ++ (front ++ [last])) (by simp)
        (by rw [hp]; simp)
      rwa [← List.append_assoc, List.dropLast_concat] at hparent

theorem Sound.setInode (h : fs.Sound) (i : Nat) (n : Inode) :
    (fs.setInode i n).Sound where
  root := h.root
  parent := h.parent
  inj := h.inj
  bound := h.bound
  handle := h.handle

theorem Sound.setHandle (h : fs.Sound) {fd : Nat} {x : Option Handle}
    (hx : forall y, x = some y -> y.ino < fs.nextIno ∧ fd < fs.nextFd) :
    (fs.setHandle fd x).Sound where
  root := h.root
  parent := h.parent
  inj := h.inj
  bound := h.bound
  handle := by
    intro fd' y hy
    by_cases hfd : fd' = fd
    · subst hfd
      apply hx
      simpa [FileTree.setHandle] using hy
    · apply h.handle fd' y
      simpa [FileTree.setHandle, Function.update_of_ne hfd] using hy

theorem Sound.openHandle (h : fs.Sound) {x : Handle} (hx : x.ino < fs.nextIno) :
    (fs.openHandle x).Sound where
  root := h.root
  parent := h.parent
  inj := h.inj
  bound := h.bound
  handle := by
    intro fd' y hy
    by_cases hfd : fd' = fs.nextFd
    · subst hfd
      have hxy : x = y := by simpa [FileTree.openHandle] using hy
      rw [← hxy]
      exact ⟨hx, Nat.lt_succ_self _⟩
    · have hold := h.handle fd' y
        (by simpa [FileTree.openHandle, Function.update_of_ne hfd] using hy)
      exact ⟨hold.left, Nat.lt_succ_of_lt hold.right⟩

theorem Sound.drain (h : fs.Sound) {fd : Nat} {x : Handle}
    (hx : x.ino < fs.nextIno ∧ fd < fs.nextFd) (n : Nat) (now : Rat) :
    (fs.drain fd x n now).Sound := by
  apply (h.setInode x.ino _).setHandle
  intro y hy
  rw [← Option.some.inj hy]
  exact hx

theorem Sound.link (h : fs.Sound) {p : Path} {n : Node}
    (hparent : fs.node p.dropLast = some Node.dir)
    (hnode : fs.node p ≠ some Node.dir ∨ n = Node.dir)
    (hroot : p ≠ [])
    (hfile : forall i, n = Node.file i ->
      i < fs.nextIno ∧ forall q, fs.node q = some (Node.file i) -> q = p) :
    (fs.link p n).Sound where
  root := by
    rw [node_link_ne _ _ (Ne.symm hroot)]
    exact h.root
  parent := by
    intro q hq hsome
    have hself : q.dropLast ≠ q := by
      intro heq
      have hlen := congrArg List.length heq
      rw [List.length_dropLast] at hlen
      have hpos := List.length_pos_iff.mpr hq
      omega
    have hdir : fs.node q.dropLast = some Node.dir := by
      by_cases hqp : q = p
      · rw [hqp]
        exact hparent
      · rw [node_link_ne _ _ hqp] at hsome
        exact h.parent q hq hsome
    by_cases hqp : q.dropLast = p
    · rw [hqp] at hdir ⊢
      rcases hnode with hno | hdirn
      · exact absurd hdir hno
      · rw [hdirn]
        exact node_link_self _ _ _
    · rw [node_link_ne _ _ hqp]
      exact hdir
  inj := by
    intro q q' i hq hq'
    by_cases hqp : q = p
    · rw [hqp, node_link_self] at hq
      by_cases hqp' : q' = p
      · rw [hqp, hqp']
      · rw [node_link_ne _ _ hqp'] at hq'
        rw [hqp]
        exact ((hfile i (Option.some.inj hq)).right q' hq').symm
    · rw [node_link_ne _ _ hqp] at hq
      by_cases hqp' : q' = p
      · rw [hqp', node_link_self] at hq'
        rw [hqp']
        exact (hfile i (Option.some.inj hq')).right q hq
      · rw [node_link_ne _ _ hqp'] at hq'
        exact h.inj q q' i hq hq'
  bound := by
    intro q i hq
    by_cases hqp : q = p
    · rw [hqp, node_link_self] at hq
      exact (hfile i (Option.some.inj hq)).left
    · rw [node_link_ne _ _ hqp] at hq
      exact h.bound q i hq
  handle := h.handle

theorem Sound.unlink (h : fs.Sound) {p : Path}
    (hp : fs.node p ≠ some Node.dir) : (fs.unlink p).Sound := by
  have hne : forall q, fs.node q = some Node.dir ->
      (fs.unlink p).node q = some Node.dir := by
    intro q hq
    rw [node_unlink_ne _ ?_]
    · exact hq
    · intro hqp
      rw [hqp] at hq
      exact hp hq
  have hold : forall q n, (fs.unlink p).node q = some n -> fs.node q = some n := by
    intro q n hq
    by_cases hqp : q = p
    · rw [hqp, node_unlink_self] at hq
      cases hq
    · rw [node_unlink_ne _ hqp] at hq
      exact hq
  exact
    { root := hne [] h.root
      parent := by
        intro q hq hsome
        apply hne
        apply h.parent q hq
        cases hnode : (fs.unlink p).node q with
        | none => exact absurd hnode hsome
        | some n => simp [hold q n hnode]
      inj := fun q q' i hq hq' => h.inj q q' i (hold _ _ hq) (hold _ _ hq')
      bound := fun q i hq => h.bound q i (hold _ _ hq)
      handle := h.handle }

theorem Sound.create (h : fs.Sound) {p : Path} (now : Rat)
    (hparent : fs.node p.dropLast = some Node.dir)
    (hnone : fs.node p = none) : (fs.create p now).Sound := by
  have hroot : p ≠ [] := by
    intro hp
    rw [hp, h.root] at hnone
    cases hnone
  have hwide : FileTree.Sound
      { entries := fs.entries
        inodes := Function.update fs.inodes fs.nextIno { data := [], mtime := now }
        nextIno := fs.nextIno + 1
        handles := fs.handles
        nextFd := fs.nextFd
        tokens := fs.tokens } :=
    { root := h.root
      parent := h.parent
      inj := h.inj
      bound := fun q i hq => Nat.lt_succ_of_lt (h.bound q i hq)
      handle := fun fd x hx =>
        ⟨Nat.lt_succ_of_lt (h.handle fd x hx).left, (h.handle fd x hx).right⟩ }
  refine hwide.link (p := p) (n := Node.file fs.nextIno) hparent ?_ hroot ?_
  · apply Or.inl
    show fs.node p ≠ some Node.dir
    rw [hnone]
    simp
  · intro i hi
    cases hi
    refine ⟨Nat.lt_succ_self _, ?_⟩
    intro q hq
    exact absurd (h.bound q _ hq) (Nat.lt_irrefl _)

theorem Sound.mkdirs (h : fs.Sound) {at_ : Path} {segs : List Text}
    {limit : Nat} (hat : fs.node at_ = some Node.dir)
    (hway : forall (q : Path) (i : Nat), at_ <+: q -> q <+: at_ ++ segs ->
      fs.node q ≠ some (Node.file i)) :
    (fs.mkdirs at_ segs limit).Sound := by
  induction segs generalizing fs at_ limit with
  | nil => exact h
  | cons seg rest ih =>
      have hstep : at_ ++ seg :: rest = (at_ ++ [seg]) ++ rest := by simp
      have hsub : at_ <+: at_ ++ [seg] := List.prefix_append _ _
      rw [hstep] at hway
      unfold FileTree.mkdirs
      cases hnode : fs.node (at_ ++ [seg]) with
      | some m =>
          have hdir : fs.node (at_ ++ [seg]) = some Node.dir := by
            cases m with
            | dir => exact hnode
            | file i =>
                exact absurd hnode (hway _ i hsub (List.prefix_append _ _))
          exact ih h hdir (fun q i h1 h2 => hway q i (hsub.trans h1) h2)
      | none =>
          cases limit with
          | zero => exact h
          | succ k =>
              have hlink : (fs.link (at_ ++ [seg]) Node.dir).Sound := by
                apply h.link
                · simpa using hat
                · exact Or.inr rfl
                · simp
                · intro i hi
                  cases hi
              refine ih hlink (node_link_self _ _ _) ?_
              intro q i h1 h2
              by_cases hq : q = at_ ++ [seg]
              · rw [hq, node_link_self]
                simp
              · rw [node_link_ne _ _ hq]
                exact hway q i (hsub.trans h1) h2

theorem Sound.move (h : fs.Sound) {p q : Path} {i : Nat}
    (hp : fs.node p = some (Node.file i))
    (hq : fs.node q ≠ some Node.dir)
    (hparent : fs.node q.dropLast = some Node.dir) :
    ((fs.unlink p).link q (Node.file i)).Sound := by
  have hpdir : fs.node p ≠ some Node.dir := by
    rw [hp]
    simp
  have hroot : q ≠ [] := by
    intro hnil
    rw [hnil] at hq
    exact hq h.root
  apply (h.unlink hpdir).link
  · rw [node_unlink_ne _ ?_]
    · exact hparent
    · intro heq
      rw [heq, hp] at hparent
      cases hparent
  · apply Or.inl
    by_cases hqp : q = p
    · rw [hqp, node_unlink_self]
      simp
    · rw [node_unlink_ne _ hqp]
      exact hq
  · exact hroot
  · intro j hj
    cases hj
    refine ⟨h.bound p i hp, ?_⟩
    intro q' hq'
    by_cases hqp : q' = p
    · rw [hqp, node_unlink_self] at hq'
      cases hq'
    · rw [node_unlink_ne _ hqp] at hq'
      exact absurd (h.inj q' p i hq' hp) hqp

end FileTree

end Posix
