import StorybookStorage.Posix.Calls

/-!
# Staged publication, seen from outside

A file reaches its place in one rename of a staging file that only its writer
knows.  Looking away from the staging files, the tree is a `View`: a map from
names to directories and whole file contents.  A `Hold` is what one task has in
its hands: a drawn token, a staging file it is writing or has written, or a file
it is reading.

A `Contract` lists what the tasks may do to the view.  `Step` is the effect of
one call on the view and on the hold of its caller, with no inodes, buffers or
positions left in it.
-/

namespace Posix

open Effects Python FileTree

inductive Entry where
  | dir
  | file (data : Bytes)
deriving DecidableEq

abbrev View := Path -> Option Entry

def FileTree.look (fs : FileTree) (p : Path) : Option Entry :=
  match fs.node p with
  | none => none
  | some Node.dir => some Entry.dir
  | some (Node.file i) => some (Entry.file (fs.inodes i).data)

/-- The names a token may stage files under. -/
structure Staging where
  Place : Text -> Path -> Prop
  unique : forall {u v : Text} {p : Path}, Place u p -> Place v p -> u = v
  named : forall {u : Text} {p : Path}, Place u p ->
    exists seg, seg ∈ p ∧ u <:+: seg

/-- Staging files are not part of the view. -/
def Staging.Hidden (L : Staging) (p : Path) : Prop := exists u, L.Place u p

open Classical in
noncomputable def Staging.view (L : Staging) (fs : FileTree) : View := fun p =>
  match fs.look p with
  | none => none
  | some Entry.dir => some Entry.dir
  | some (Entry.file b) => if L.Hidden p then none else some (Entry.file b)

inductive Hold where
  | idle
  | drawn (token : Text)
  | writing (token : Text) (fd : Nat) (p : Path) (sent : Option Bytes)
  | staged (token : Text) (p : Path) (body : Bytes)
  | spent (token : Text)
  | reading (fd : Nat) (p : Path) (body got : Bytes)
  | closed (p : Path) (body got : Bytes)

namespace Hold

def token : Hold -> Option Text
  | drawn u => some u
  | writing u _ _ _ => some u
  | staged u _ _ => some u
  | spent u => some u
  | _ => none

def fd : Hold -> Option Nat
  | writing _ n _ _ => some n
  | reading n _ _ _ => some n
  | _ => none

/-- The descriptor a writer is writing through. -/
def pen : Hold -> Option Nat
  | writing _ n _ _ => some n
  | _ => none

def shut : Hold -> Bool -> Hold
  | writing u _ p (some b), true => staged u p b
  | writing u _ _ _, _ => spent u
  | reading _ p body got, _ => closed p body got
  | g, _ => g

/-- The file that is or was last read, as it was when it was opened. -/
def source : Hold -> Option (Path × Bytes)
  | reading _ p body _ => some (p, body)
  | closed p body _ => some (p, body)
  | _ => none

/-- After giving up whatever was staged. -/
def forsake : Hold -> Hold
  | drawn u => spent u
  | staged u _ _ => spent u
  | g => g

theorem forsake_of_token {g : Hold} {u : Text} (hfd : g.fd = none)
    (htoken : g.token = some u) : g.forsake = spent u := by
  cases g with
  | drawn w => cases htoken; rfl
  | staged w p b => cases htoken; rfl
  | spent w => cases htoken; rfl
  | writing w n p sent => cases hfd
  | _ => cases htoken

theorem fd_of_pen {g : Hold} {n : Nat} (h : g.pen = some n) :
    g.fd = some n := by
  cases g with
  | writing u m p sent => exact h
  | _ => cases h

end Hold

/-- What a task has noticed and done so far that others may care about. -/
inductive Sight where
  | tested (p : Path) (there : Bool)
  | placed (p : Path)
  | removed (p : Path)
  | failed (c : Call)
deriving DecidableEq

def sight : (c : Call) -> Call.Ret c -> List Sight
  | Call.pathExists t, there => [Sight.tested (resolve t) there]
  | Call.rename _ dst, Except.ok _ => [Sight.placed (resolve dst)]
  | Call.remove t, Except.ok _ => [Sight.removed (resolve t)]
  | Call.makedirs t, Except.error _ => [Sight.failed (Call.makedirs t)]
  | Call.openWrite t, Except.error _ => [Sight.failed (Call.openWrite t)]
  | Call.write fd b, Except.error _ => [Sight.failed (Call.write fd b)]
  | Call.flush fd, Except.error _ => [Sight.failed (Call.flush fd)]
  | Call.fsync fd, Except.error _ => [Sight.failed (Call.fsync fd)]
  | Call.close fd, Except.error _ => [Sight.failed (Call.close fd)]
  | Call.rename src dst, Except.error _ =>
      [Sight.failed (Call.rename src dst)]
  | Call.remove t, Except.error _ => [Sight.failed (Call.remove t)]
  | _, _ => []

theorem sight_single {c : Call} {r : Call.Ret c} {x : Sight}
    (h : x ∈ sight c r) : sight c r = [x] := by
  have hshort : (sight c r).length ≤ 1 := by
    unfold sight
    split <;> simp
  rcases List.length_eq_one_iff.mp
    (Nat.le_antisymm hshort (List.length_pos_of_mem h)) with ⟨y, hy⟩
  rw [hy] at h ⊢
  rw [List.mem_singleton.mp h]

def sights (past : List (Sigma calls.Ret)) : List Sight :=
  past.flatMap fun e => sight e.1 e.2

@[simp] theorem sights_nil : sights [] = [] := rfl

theorem sights_concat (past : List (Sigma calls.Ret)) (c : Call)
    (r : Call.Ret c) :
    sights (past ++ [⟨c, r⟩]) = sights past ++ sight c r := by
  simp [sights]

/-- What the tasks of a pool keep to.  `May` are the calls the device may fail,
`Sweeps` says that staging files may be removed by others. -/
structure Contract (ι : Type) extends Staging where
  May : Call -> Prop
  Sweeps : Prop
  Reads : ι -> Path -> Prop
  Writes : ι -> Prop
  Stages : ι -> List Sight -> Path -> Prop
  Publishes : ι -> List Sight -> Path -> Bytes -> Prop
  Removes : ι -> List Sight -> Path -> Prop
  Makes : ι -> List Sight -> Path -> Prop

namespace Contract

variable {ι : Type} (K : Contract ι)

def Can (tag : ι) (seen : List Sight) (g : Hold) : Call -> Prop
  | Call.uuid4 => K.Writes tag ∧ g.fd = none
  | Call.openWrite t =>
      K.Stages tag seen (resolve t) ∧
        exists u, g = Hold.drawn u ∧ K.Place u (resolve t)
  | Call.openRead t =>
      K.Reads tag (resolve t) ∧ g.fd = none ∧ ¬ K.Hidden (resolve t)
  | Call.write fd _ => exists u p sent, g = Hold.writing u fd p sent
  | Call.flush fd => exists u p sent, g = Hold.writing u fd p sent
  | Call.fsync fd => exists u p sent, g = Hold.writing u fd p sent
  | Call.close fd => g.fd = some fd
  | Call.read fd _ => exists p body got, g = Hold.reading fd p body got
  | Call.makedirs t => K.Makes tag seen (resolve t)
  | Call.rename src dst =>
      exists u b, g = Hold.staged u (resolve src) b ∧
        ¬ K.Hidden (resolve dst) ∧ K.Publishes tag seen (resolve dst) b
  | Call.remove t =>
      g.fd = none ∧
        (¬ K.Hidden (resolve t) -> K.Removes tag seen (resolve t)) ∧
        (K.Hidden (resolve t) ->
          K.Sweeps ∨ exists u, g.token = some u ∧ K.Place u (resolve t))
  | _ => True

def Answers (c : Call) (claim : Prop) (b : Bool) : Prop :=
  (b = true -> claim) ∧ (b = false -> ¬ claim ∨ K.May c)

def Fails {α : Type} (c : Call) (reason : Prop) (r : Except Errno α) : Prop :=
  r.isOk = false -> K.May c ∨ reason

def Widens (v : View) (p : Path) (v' : View) : Prop :=
  forall q, v' q = v q ∨ (v q = none ∧ v' q = some Entry.dir ∧ q <+: p)

/-- The effect of one call on the view and on its caller. -/
def Step (v : View) (g : Hold) :
    (c : Call) -> Call.Ret c -> View -> Hold -> Prop
  | Call.uuid4, u, v', g' =>
      v' = v ∧ g' = Hold.drawn u ∧ IsToken u ∧
        forall p, K.Place u p -> v p = none
  | Call.pathExists t, there, v', g' =>
      v' = v ∧ g' = g ∧
        (¬ K.Hidden (resolve t) ->
          K.Answers (Call.pathExists t) (v (resolve t) ≠ none) there)
  | Call.isfile t, regular, v', g' =>
      v' = v ∧ g' = g ∧
        (¬ K.Hidden (resolve t) ->
          K.Answers (Call.isfile t)
            (exists b, v (resolve t) = some (Entry.file b)) regular)
  | Call.isdir t, there, v', g' =>
      v' = v ∧ g' = g ∧
        K.Answers (Call.isdir t) (v (resolve t) = some Entry.dir) there
  | Call.stat t, r, v', g' =>
      v' = v ∧ g' = g ∧
        (¬ K.Hidden (resolve t) ->
          K.Fails (Call.stat t) (v (resolve t) = none) r ∧
            forall st b, r = Except.ok st ->
              v (resolve t) = some (Entry.file b) -> st.size = b.length)
  | Call.openWrite t, r, v', g' =>
      v' = v ∧ exists u, g = Hold.drawn u ∧
        K.Fails (Call.openWrite t)
          (v (resolve t) = some Entry.dir ∨
            v (resolve t).dropLast ≠ some Entry.dir) r ∧
        g' =
          (match r with
          | Except.ok fd => Hold.writing u fd (resolve t) (some [])
          | Except.error _ => Hold.spent u)
  | Call.openRead t, r, v', g' =>
      v' = v ∧
        K.Fails (Call.openRead t)
          (forall b, v (resolve t) ≠ some (Entry.file b)) r ∧
        (match r with
        | Except.ok fd =>
            exists b, v (resolve t) = some (Entry.file b) ∧
              g' = Hold.reading fd (resolve t) b []
        | Except.error _ => g' = g)
  | Call.write fd chunk, r, v', g' =>
      v' = v ∧ exists u p sent, g = Hold.writing u fd p sent ∧
        K.Fails (Call.write fd chunk) False r ∧
        g' =
          Hold.writing u fd p
            (match r with
            | Except.ok _ => sent.map (· ++ chunk)
            | Except.error _ => none)
  | Call.flush fd, r, v', g' =>
      v' = v ∧ g' = g ∧ K.Fails (Call.flush fd) False r
  | Call.fsync fd, r, v', g' =>
      v' = v ∧ g' = g ∧ K.Fails (Call.fsync fd) False r
  | Call.close fd, r, v', g' =>
      v' = v ∧ g' = g.shut r.isOk ∧ K.Fails (Call.close fd) False r
  | Call.read fd limit, r, v', g' =>
      v' = v ∧ exists p body got, g = Hold.reading fd p body got ∧
        K.Fails (Call.read fd limit) False r ∧
        (match r with
        | Except.ok chunk =>
            chunk = upTo limit (body.drop got.length) ∧
              g' = Hold.reading fd p body (got ++ chunk)
        | Except.error _ => g' = g)
  | Call.makedirs t, r, v', g' =>
      g' = g ∧ Widens v (resolve t) v' ∧
        (r.isOk = true ->
          forall q, q <+: resolve t -> v' q = some Entry.dir) ∧
        K.Fails (Call.makedirs t)
          (v (resolve t) ≠ some Entry.dir ∧ exists q, q <+: resolve t ∧
            (K.Hidden q ∨ exists b, v q = some (Entry.file b))) r
  | Call.rename src dst, r, v', g' =>
      exists u b, g = Hold.staged u (resolve src) b ∧ g' = Hold.spent u ∧
        K.Fails (Call.rename src dst)
          (K.Sweeps ∨ v (resolve dst) = some Entry.dir ∨
            v (resolve dst).dropLast ≠ some Entry.dir) r ∧
        (match r with
        | Except.ok _ =>
            v (resolve dst) ≠ some Entry.dir ∧
              v (resolve dst).dropLast = some Entry.dir ∧
              v' = Function.update v (resolve dst) (some (Entry.file b))
        | Except.error _ => v' = v)
  | Call.remove t, r, v', g' =>
      (K.Hidden (resolve t) -> v' = v ∧ g' = g.forsake) ∧
        (¬ K.Hidden (resolve t) ->
          g' = g ∧
            K.Fails (Call.remove t)
              (forall b, v (resolve t) ≠ some (Entry.file b)) r ∧
            (match r with
            | Except.ok _ =>
                (exists b, v (resolve t) = some (Entry.file b)) ∧
                  v' = Function.update v (resolve t) none
            | Except.error _ => v' = v))
  | _, _, v', g' => v' = v ∧ g' = g

end Contract

end Posix
