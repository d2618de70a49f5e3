import Mathlib.Data.List.AList
import Mathlib.Data.List.Infix
import Mathlib.Data.Rat.Defs
import StorybookStorage.Effects.Pool
import StorybookStorage.Posix.Path

/-!
# A file tree with open files

The state of a POSIX file system as a program sees it: a tree of names, the
files behind them, and the table of open handles.  A name refers to a file by
number, so an open handle keeps its file when the name is replaced or removed.

Every operation also takes a `Choice`, which fixes what the caller cannot know:
whether the device fails the call, how much buffered data reaches the file, the
clock reading, and the token drawn by `uuid4`.
-/

namespace Posix

open Effects Python

inductive Errno where
  | ENOENT
  | EEXIST
  | ENOTDIR
  | EISDIR
  | EBADF
  | EINVAL
  | ENOSPC
  | EIO
  | EACCES
  | ENAMETOOLONG
  | other (code : Nat)
deriving DecidableEq, Repr

inductive Node where
  | dir
  | file (ino : Nat)
deriving DecidableEq, Repr

structure Inode where
  data : Bytes
  mtime : Rat
deriving DecidableEq

/-- An open file: a read position, and for a writer the bytes still buffered in
the process. -/
structure Handle where
  ino : Nat
  pos : Nat
  pending : Bytes
deriving DecidableEq

structure FileTree where
  entries : AList (fun _ : Path => Node)
  inodes : Nat -> Inode
  nextIno : Nat
  handles : Nat -> Option Handle
  nextFd : Nat
  tokens : List Text

structure Stat where
  isFile : Bool
  size : Nat
  mtime : Rat
deriving DecidableEq

structure Choice where
  fault : Option Errno
  amount : Nat
  token : Text
  now : Rat

inductive Call where
  | uuid4
  | time
  | pathExists (p : Text)
  | isfile (p : Text)
  | isdir (p : Text)
  | stat (p : Text)
  | getmtime (p : Text)
  | listdir (p : Text)
  | walk (p : Text)
  | openWrite (p : Text)
  | openRead (p : Text)
  | write (fd : Nat) (chunk : Bytes)
  | flush (fd : Nat)
  | fsync (fd : Nat)
  | close (fd : Nat)
  | read (fd : Nat) (limit : Option Nat)
  | makedirs (p : Text)
  | rename (src dst : Text)
  | remove (p : Text)
deriving DecidableEq

/-- What a call returns: an error number where Python raises `OSError`. -/
def Call.Ret : Call -> Type
  | uuid4 => Text
  | time => Rat
  | pathExists _ => Bool
  | isfile _ => Bool
  | isdir _ => Bool
  | stat _ => Except Errno Stat
  | getmtime _ => Except Errno Rat
  | listdir _ => Except Errno (List Text)
  | walk _ => List (Text × List Text)
  | openWrite _ => Except Errno Nat
  | openRead _ => Except Errno Nat
  | write _ _ => Except Errno Unit
  | flush _ => Except Errno Unit
  | fsync _ => Except Errno Unit
  | close _ => Except Errno Unit
  | read _ _ => Except Errno Bytes
  | makedirs _ => Except Errno Unit
  | rename _ _ => Except Errno Unit
  | remove _ => Except Errno Unit

abbrev calls : Signature where
  Op := Call
  Ret := Call.Ret

namespace FileTree

/-!
## Names and files
-/

def node (fs : FileTree) (p : Path) : Option Node :=
  fs.entries.lookup p

def content (fs : FileTree) (p : Path) : Option Bytes :=
  match fs.node p with
  | some (Node.file i) => some (fs.inodes i).data
  | _ => none

def isDir (fs : FileTree) (p : Path) : Bool :=
  decide (fs.node p = some Node.dir)

def isFile (fs : FileTree) (p : Path) : Bool :=
  (fs.content p).isSome

def missing (fs : FileTree) (p : Path) : Errno :=
  if p.dropLast.inits.any fs.isFile then Errno.ENOTDIR else Errno.ENOENT

def link (fs : FileTree) (p : Path) (n : Node) : FileTree where
  entries := fs.entries.insert p n
  inodes := fs.inodes
  nextIno := fs.nextIno
  handles := fs.handles
  nextFd := fs.nextFd
  tokens := fs.tokens

def unlink (fs : FileTree) (p : Path) : FileTree where
  entries := fs.entries.erase p
  inodes := fs.inodes
  nextIno := fs.nextIno
  handles := fs.handles
  nextFd := fs.nextFd
  tokens := fs.tokens

def setInode (fs : FileTree) (i : Nat) (n : Inode) : FileTree where
  entries := fs.entries
  inodes := Function.update fs.inodes i n
  nextIno := fs.nextIno
  handles := fs.handles
  nextFd := fs.nextFd
  tokens := fs.tokens

def setHandle (fs : FileTree) (fd : Nat) (h : Option Handle) : FileTree where
  entries := fs.entries
  inodes := fs.inodes
  nextIno := fs.nextIno
  handles := Function.update fs.handles fd h
  nextFd := fs.nextFd
  tokens := fs.tokens

def openHandle (fs : FileTree) (h : Handle) : FileTree where
  entries := fs.entries
  inodes := fs.inodes
  nextIno := fs.nextIno
  handles := Function.update fs.handles fs.nextFd (some h)
  nextFd := fs.nextFd + 1
  tokens := fs.tokens

def create (fs : FileTree) (p : Path) (now : Rat) : FileTree where
  entries := fs.entries.insert p (Node.file fs.nextIno)
  inodes := Function.update fs.inodes fs.nextIno { data := [], mtime := now }
  nextIno := fs.nextIno + 1
  handles := fs.handles
  nextFd := fs.nextFd
  tokens := fs.tokens

/-- Make the directories lacking on the way down, at most `limit` of them. -/
def mkdirs (fs : FileTree) (at_ : Path) : List Text -> Nat -> FileTree
  | [], _ => fs
  | seg :: rest, limit =>
      match fs.node (at_ ++ [seg]) with
      | some _ => fs.mkdirs (at_ ++ [seg]) rest limit
      | none =>
          match limit with
          | 0 => fs
          | n + 1 =>
              (fs.link (at_ ++ [seg]) Node.dir).mkdirs (at_ ++ [seg]) rest n

/-- Move the first `n` buffered bytes of a handle into its file. -/
def drain (fs : FileTree) (fd : Nat) (h : Handle) (n : Nat) (now : Rat) :
    FileTree :=
  let moved := h.pending.take n
  let old := fs.inodes h.ino
  (fs.setInode h.ino
      { data := old.data ++ moved
        mtime := if moved = [] then old.mtime else now }).setHandle fd
    (some { ino := h.ino, pos := h.pos, pending := h.pending.drop n })

def children (fs : FileTree) (p : Path) : List Path :=
  fs.entries.keys.filter (fun q => decide (q ≠ [] ∧ q.dropLast = p))

def walkFrom (fs : FileTree) (top : Text) : List (Text × List Text) :=
  let here := resolve top
  (fs.entries.keys.filter fun q => fs.isDir q && here.isPrefixOf q).map fun q =>
    ((q.drop here.length).foldl join top,
      ((fs.children q).filter fs.isFile).filterMap List.getLast?)

end FileTree

/-!
## The calls
-/

open FileTree

def statAt (ch : Choice) (p : Text) (fs : FileTree) : Except Errno Stat :=
  match ch.fault with
  | some e => Except.error e
  | none =>
      match fs.node (resolve p) with
      | none => Except.error (fs.missing (resolve p))
      | some Node.dir => Except.ok { isFile := false, size := 0, mtime := ch.now }
      | some (Node.file i) =>
          Except.ok
            { isFile := true
              size := (fs.inodes i).data.length
              mtime := (fs.inodes i).mtime }

def openWriteAt (ch : Choice) (p : Text) (fs : FileTree) :
    Except Errno Nat × FileTree :=
  match ch.fault with
  | some e => (Except.error e, fs)
  | none =>
      match fs.node (resolve p) with
      | some Node.dir => (Except.error Errno.EISDIR, fs)
      | some (Node.file i) =>
          (Except.ok fs.nextFd,
            (fs.setInode i { data := [], mtime := ch.now }).openHandle
              { ino := i, pos := 0, pending := [] })
      | none =>
          if fs.node (resolve p).dropLast = some Node.dir then
            (Except.ok fs.nextFd,
              (fs.create (resolve p) ch.now).openHandle
                { ino := fs.nextIno, pos := 0, pending := [] })
          else
            (Except.error (fs.missing (resolve p)), fs)

def openReadAt (ch : Choice) (p : Text) (fs : FileTree) :
    Except Errno Nat × FileTree :=
  match ch.fault with
  | some e => (Except.error e, fs)
  | none =>
      match fs.node (resolve p) with
      | none => (Except.error (fs.missing (resolve p)), fs)
      | some Node.dir => (Except.error Errno.EISDIR, fs)
      | some (Node.file i) =>
          (Except.ok fs.nextFd,
            fs.openHandle { ino := i, pos := 0, pending := [] })

/-- Buffer a chunk; some of the buffer may reach the file, also when the call
fails. -/
def writeTo (ch : Choice) (fd : Nat) (chunk : Bytes) (fs : FileTree) :
    Except Errno Unit × FileTree :=
  match fs.handles fd with
  | none => (Except.error Errno.EBADF, fs)
  | some h =>
      ((match ch.fault with
        | some e => Except.error e
        | none => Except.ok ()),
        fs.drain fd { ino := h.ino, pos := h.pos, pending := h.pending ++ chunk }
          ch.amount ch.now)

/-- Empty the buffer; a failing flush may have moved a part of it. -/
def flushTo (ch : Choice) (fd : Nat) (fs : FileTree) :
    Except Errno Unit × FileTree :=
  match fs.handles fd with
  | none => (Except.error Errno.EBADF, fs)
  | some h =>
      match ch.fault with
      | some e => (Except.error e, fs.drain fd h ch.amount ch.now)
      | none => (Except.ok (), fs.drain fd h h.pending.length ch.now)

def fsyncTo (ch : Choice) (fd : Nat) (fs : FileTree) : Except Errno Unit :=
  match fs.handles fd with
  | none => Except.error Errno.EBADF
  | some _ =>
      match ch.fault with
      | some e => Except.error e
      | none => Except.ok ()

/-- Closing flushes first and gives up the handle whatever happens. -/
def closeFd (ch : Choice) (fd : Nat) (fs : FileTree) :
    Except Errno Unit × FileTree :=
  match fs.handles fd with
  | none => (Except.ok (), fs)
  | some h =>
      match ch.fault with
      | some e =>
          (Except.error e, (fs.drain fd h ch.amount ch.now).setHandle fd none)
      | none =>
          (Except.ok (),
            (fs.drain fd h h.pending.length ch.now).setHandle fd none)

/-- What one read takes of the bytes left: everything, or at most a number. -/
def upTo (limit : Option Nat) (rest : Bytes) : Bytes :=
  match limit with
  | none => rest
  | some n => rest.take n

def readFrom (ch : Choice) (fd : Nat) (limit : Option Nat) (fs : FileTree) :
    Except Errno Bytes × FileTree :=
  match fs.handles fd with
  | none => (Except.error Errno.EBADF, fs)
  | some h =>
      match ch.fault with
      | some e => (Except.error e, fs)
      | none =>
          let got := upTo limit ((fs.inodes h.ino).data.drop h.pos)
          (Except.ok got,
            fs.setHandle fd
              (some
                { ino := h.ino
                  pos := h.pos + got.length
                  pending := h.pending }))

/-- `os.makedirs(p, exist_ok=True)`: a file on the way stops it before anything
is made; a failing device may leave the first few directories. -/
def makedirsAt (ch : Choice) (p : Text) (fs : FileTree) :
    Except Errno Unit × FileTree :=
  if fs.isFile (resolve p) then
    (Except.error Errno.EEXIST, fs)
  else if (resolve p).inits.any fs.isFile then
    (Except.error Errno.ENOTDIR, fs)
  else
    match ch.fault with
    | some e => (Except.error e, fs.mkdirs [] (resolve p) ch.amount)
    | none => (Except.ok (), fs.mkdirs [] (resolve p) (resolve p).length)

/-- `os.rename` of a file; directories are never renamed by the programs
considered here. -/
def renameTo (ch : Choice) (src dst : Text) (fs : FileTree) :
    Except Errno Unit × FileTree :=
  match ch.fault with
  | some e => (Except.error e, fs)
  | none =>
      match fs.node (resolve src) with
      | none => (Except.error (fs.missing (resolve src)), fs)
      | some Node.dir => (Except.error Errno.EINVAL, fs)
      | some (Node.file i) =>
          if fs.isDir (resolve dst) then
            (Except.error Errno.EISDIR, fs)
          else if fs.isDir (resolve dst).dropLast then
            (Except.ok (),
              (fs.unlink (resolve src)).link (resolve dst) (Node.file i))
          else
            (Except.error (fs.missing (resolve dst)), fs)

def removeAt (ch : Choice) (p : Text) (fs : FileTree) :
    Except Errno Unit × FileTree :=
  match ch.fault with
  | some e => (Except.error e, fs)
  | none =>
      match fs.node (resolve p) with
      | none => (Except.error (fs.missing (resolve p)), fs)
      | some Node.dir => (Except.error Errno.EISDIR, fs)
      | some (Node.file _) => (Except.ok (), fs.unlink (resolve p))

def listdirAt (ch : Choice) (p : Text) (fs : FileTree) :
    Except Errno (List Text) :=
  match ch.fault with
  | some e => Except.error e
  | none =>
      match fs.node (resolve p) with
      | none => Except.error (fs.missing (resolve p))
      | some (Node.file _) => Except.error Errno.ENOTDIR
      | some Node.dir =>
          Except.ok ((fs.children (resolve p)).filterMap List.getLast?)

def exec (ch : Choice) : (c : Call) -> FileTree -> Call.Ret c × FileTree
  | Call.uuid4, fs =>
      (ch.token,
        { entries := fs.entries
          inodes := fs.inodes
          nextIno := fs.nextIno
          handles := fs.handles
          nextFd := fs.nextFd
          tokens := ch.token :: fs.tokens })
  | Call.time, fs => (ch.now, fs)
  -- The three tests swallow a failing stat and answer no.
  | Call.pathExists p, fs =>
      (ch.fault.isNone && (fs.node (resolve p)).isSome, fs)
  | Call.isfile p, fs => (ch.fault.isNone && fs.isFile (resolve p), fs)
  | Call.isdir p, fs => (ch.fault.isNone && fs.isDir (resolve p), fs)
  | Call.stat p, fs => (statAt ch p fs, fs)
  | Call.getmtime p, fs => ((statAt ch p fs).map Stat.mtime, fs)
  | Call.listdir p, fs => (listdirAt ch p fs, fs)
  | Call.walk p, fs =>
      (if ch.fault.isNone then fs.walkFrom p else [], fs)
  | Call.openWrite p, fs => openWriteAt ch p fs
  | Call.openRead p, fs => openReadAt ch p fs
  | Call.write fd chunk, fs => writeTo ch fd chunk fs
  | Call.flush fd, fs => flushTo ch fd fs
  | Call.fsync fd, fs => (fsyncTo ch fd fs, fs)
  | Call.close fd, fs => closeFd ch fd fs
  | Call.read fd limit, fs => readFrom ch fd limit fs
  | Call.makedirs p, fs => makedirsAt ch p fs
  | Call.rename src dst, fs => renameTo ch src dst fs
  | Call.remove p, fs => removeAt ch p fs

/-!
## Which choices are considered
-/

/-- The hexadecimal form of a `uuid4`. -/
def IsToken (t : Text) : Prop :=
  t.length = 32 ∧ t.all (fun c => decide (c ∈ text "0123456789abcdef")) = true

instance (t : Text) : Decidable (IsToken t) := by
  unfold IsToken
  infer_instance

/-- Which calls the device may fail, and how. -/
abbrev Policy := FileTree -> Call -> Option Errno -> Prop

/-- No name in the tree has the token in it. -/
def FileTree.Unnamed (fs : FileTree) (t : Text) : Prop :=
  forall q, q ∈ fs.entries.keys -> forall seg, seg ∈ q -> ¬ t <:+: seg

instance (fs : FileTree) (t : Text) : Decidable (fs.Unnamed t) := by
  unfold FileTree.Unnamed
  infer_instance

/-- A drawn token is fresh, among the tokens and among the names; faults are
those of the policy. -/
def Legal (allow : Policy) (fs : FileTree) (c : Call) (ch : Choice) : Prop :=
  allow fs c ch.fault ∧
    (c = Call.uuid4 ->
      IsToken ch.token ∧ ch.token ∉ fs.tokens ∧ fs.Unnamed ch.token)

def system (allow : Policy) : Chooser calls FileTree Choice where
  legal := Legal allow
  exec ch c fs := exec ch c fs

def noFault : Policy := fun _ _ fault => fault = none

def anyFault : Policy := fun _ _ _ => True

instance (fs : FileTree) (c : Call) (f : Option Errno) :
    Decidable (noFault fs c f) := by
  unfold noFault
  infer_instance

instance (fs : FileTree) (c : Call) (f : Option Errno) :
    Decidable (anyFault fs c f) := by
  unfold anyFault
  infer_instance

instance (allow : Policy) [forall fs c f, Decidable (allow fs c f)]
    (fs : FileTree) (c : Call) (ch : Choice) :
    Decidable (Legal allow fs c ch) := by
  unfold Legal
  infer_instance

instance (allow : Policy) [forall fs c f, Decidable (allow fs c f)]
    (fs : FileTree) (c : Call) (ch : Choice) :
    Decidable ((system allow).legal fs c ch) :=
  inferInstanceAs (Decidable (Legal allow fs c ch))

end Posix
