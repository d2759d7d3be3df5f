import KernelFs.Node.Kind
import KernelFs.Path
import KernelFs.Flags

/-!
# Nodes and capability dispatch

A node is a named view of one backend inode, with the metadata read when the view was made (`Node`,
src/crates/vfs/src/node.rs:20-234). What the node can do is decided in two steps: the node first
asks whether its backend declares the capability, and only then calls the backend. A missing
capability and a backend that answers "operation not supported" come out the same: reads and writes
move no bytes, listing and finding see nothing, and creating, removing and truncating are refused.
Directories never take writes and never truncate; only directories list, find, create and remove.

The backend is an `Inode`: a record of actions in some monad `m` (the world the backend
lives in), over a type `h` of handles for its inodes.

* `Node.read_of_not_has`, `Node.write_of_not_has`: without the capability nothing moves.
-/

namespace KernelFs

/-- The actions a backend offers for one of its inodes, in the monad `m` of its world, with
`h` the type of handles to its inodes. An action that a backend does not implement answers
`unsupportedOperation`. -/
structure Inode (m : Type → Type) (h : Type) where
  /-- Reads the inode's metadata. -/
  stat : ExceptT FsError m Meta
  /-- The capabilities the backend declares for this inode. -/
  caps : Caps
  /-- Reads at most `len` bytes at an offset. -/
  readAt : (offset len : Nat) → ExceptT FsError m ByteArray
  /-- Writes bytes at an offset, answering how many were written. -/
  writeAt : (offset : Nat) → ByteArray → ExceptT FsError m Nat
  /-- Hears that a descriptor opened the inode. -/
  opened : OpenFlags → m Unit
  /-- Hears that a descriptor on the inode closed. -/
  closed : m Unit
  /-- The directory entry at a position, if there is one. -/
  entry : Nat → ExceptT FsError m (Option DirEntry)
  /-- The child of a directory with the given name. -/
  lookup : String → ExceptT FsError m h
  /-- Creates a child of the given name and kind. -/
  create : String → NodeType → ExceptT FsError m h
  /-- Removes a child that is not a directory. -/
  unlink : String → ExceptT FsError m Unit
  /-- Removes an empty child directory. -/
  rmdir : String → ExceptT FsError m Unit
  /-- Sets the inode's size, cutting or zero-filling. -/
  truncate : Nat → ExceptT FsError m Unit

/-- A named view of a backend inode, with the metadata taken when the view was made. -/
structure Node (h : Type) where
  name : String
  ino : Nat
  kind : NodeType
  mode : Nat
  uid : Nat
  gid : Nat
  inode : h
  deriving Repr, Inhabited

namespace Node

variable {m : Type → Type} [Monad m] {h : Type} (ops : h → Inode m h)

/-- Runs a backend action and hands back its outcome, error or not, for inspection. -/
def attempt {α : Type} (act : ExceptT FsError m α) : ExceptT FsError m (Except FsError α) :=
  ExceptT.lift act.run

/-- Makes a view of an inode under a name, reading its metadata. -/
def make (name : String) (i : h) : ExceptT FsError m (Node h) := do
  if !Path.fits name then throw .componentTooLong
  let st ← (ops i).stat
  pure { name, ino := st.ino, kind := st.kind, mode := st.mode, uid := st.uid, gid := st.gid,
         inode := i }

/-- Whether the view is of a directory. -/
def isDir (n : Node h) : Bool := n.kind == .directory

/-- The capabilities of the node's backend inode. -/
def caps (n : Node h) : Caps := (ops n.inode).caps

/-- Whether the node's backend declares a capability. -/
def supports (n : Node h) (x : Capability) : Bool := (ops n.inode).caps.has x

/-- The live size of the node; zero when the backend cannot tell. -/
def length (n : Node h) : m Nat := do
  match ← ((ops n.inode).stat).run with
  | .ok st => pure st.size
  | .error _ => pure 0

/-- Reads at most `len` bytes at `offset`, clipped to the live size. -/
def read (n : Node h) (offset len : Nat) : ExceptT FsError m ByteArray := do
  if !n.supports ops .read then return .empty
  let size ← ExceptT.lift (n.length ops)
  if size ≤ offset then return .empty
  match ← attempt ((ops n.inode).readAt offset (min len (size - offset))) with
  | .ok b => pure b
  | .error .unsupportedOperation => pure .empty
  | .error e => throw e

/-- Writes bytes at `offset`, answering how many were written. -/
def write (n : Node h) (offset : Nat) (bytes : ByteArray) : ExceptT FsError m Nat := do
  if n.isDir || !n.supports ops .write then return 0
  match ← attempt ((ops n.inode).writeAt offset bytes) with
  | .ok k => pure k
  | .error .unsupportedOperation => pure 0
  | .error e => throw e

/-- Tells the backend that a descriptor opened the node, if it wants to hear. -/
def notifyOpen (n : Node h) (flags : OpenFlags) : m Unit :=
  if n.supports ops .onOpen then (ops n.inode).opened flags else pure ()

/-- Tells the backend that a descriptor on the node closed, if it wants to hear. -/
def notifyClose (n : Node h) : m Unit :=
  if n.supports ops .onClose then (ops n.inode).closed else pure ()

/-- The directory entry at a position. -/
def entry (n : Node h) (i : Nat) : ExceptT FsError m (Option DirEntry) := do
  if !n.supports ops .list then return none
  match ← attempt ((ops n.inode).entry i) with
  | .ok e => pure e
  | .error .unsupportedOperation => pure none
  | .error e => throw e

/-- The child with the given name; absent when the node is no directory, when the backend
does not find, or when it finds nothing. Other backend errors are passed on. -/
def find (n : Node h) (name : String) : ExceptT FsError m (Option (Node h)) := do
  if !n.isDir || !n.supports ops .find then return none
  match ← attempt ((ops n.inode).lookup name) with
  | .ok c => some <$> make ops name c
  | .error .notFound => pure none
  | .error .unsupportedOperation => pure none
  | .error e => throw e

/-- Creates a child of the given name and kind. -/
def create (n : Node h) (name : String) (kind : NodeType) : ExceptT FsError m (Node h) := do
  if !n.isDir then throw .notDirectory
  if !n.supports ops .create then throw .unsupportedOperation
  if !Path.fits name then throw .componentTooLong
  let c ← (ops n.inode).create name kind
  make ops name c

/-- Refuses removal from anything but a directory that supports it. -/
def requireRemove (n : Node h) : ExceptT FsError m Unit := do
  if !n.isDir then throw .notDirectory
  if !n.supports ops .remove then throw .unsupportedOperation

/-- Removes a child that is not a directory. -/
def unlink (n : Node h) (name : String) : ExceptT FsError m Unit := do
  n.requireRemove ops
  (ops n.inode).unlink name

/-- Removes an empty child directory. -/
def rmdir (n : Node h) (name : String) : ExceptT FsError m Unit := do
  n.requireRemove ops
  (ops n.inode).rmdir name

/-- Sets the size of a node that is not a directory. -/
def truncate (n : Node h) (size : Nat) : ExceptT FsError m Unit := do
  if n.isDir then throw .isDirectory
  if !n.supports ops .truncate then throw .unsupportedOperation
  (ops n.inode).truncate size

theorem read_of_not_has (n : Node h) (offset len : Nat) (hx : n.supports ops .read = false) :
    n.read ops offset len = (pure ByteArray.empty : ExceptT FsError m ByteArray) := by
  simp [read, hx]

theorem write_of_not_has (n : Node h) (offset : Nat) (bytes : ByteArray)
    (hx : n.supports ops .write = false) : n.write ops offset bytes = (pure 0 : ExceptT FsError m Nat) := by
  simp [write, hx]

end Node

end KernelFs
