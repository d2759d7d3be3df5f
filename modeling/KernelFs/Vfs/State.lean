import KernelFs.Node.Basic
import KernelFs.Memory.Store
import KernelFs.Log.Note
import KernelFs.Descriptor.Table
import KernelFs.Registry

/-!
# The state of the virtual file system

The virtual file system holds a registry of file system types, at most one mounted root, a
descriptor table of open files and the memory stores of the memory backends (`Vfs`,
src/crates/vfs/src/vfs.rs:18-23; `VfsConfig`, src/crates/vfs/src/config.rs). Four kinds of backend
exist: memory stores; a fixed sample tree whose hooks count opens, closes and unmounts; a backend
whose mount always fails; and one whose mount yields a plain file. Every action runs in `VfsM`,
which may fail with an `FsError` and keeps whatever state changes happened before the failure; notes
written along the way collect in a journal.
-/

namespace KernelFs

/-- The nodes of the sample tree. -/
inductive SampleNode where
  | root
  /-- A character device without capabilities. -/
  | dev
  /-- A read-only file whose opens and closes are counted. -/
  | ro
  /-- A file whose backend supports no data operation. -/
  | zero
  /-- A directory without capabilities. -/
  | sub
  deriving DecidableEq, Repr, Inhabited

/-- A handle to a backend inode. -/
inductive Handle where
  /-- Inode `ino` in slot `slot` of memory store `store`, seen as a node of the given kind. -/
  | memory (store slot ino : Nat) (kind : NodeType)
  | sample (n : SampleNode)
  /-- The plain file that a file-root backend offers as its root. -/
  | plainFile
  deriving DecidableEq, Repr, Inhabited

/-- A file system type as registered. -/
inductive Backend where
  /-- A memory backend over the store of the given index. -/
  | memory (store : Nat)
  | sample
  /-- A backend whose mount fails for lack of space. -/
  | refusing
  /-- A backend whose mount yields a plain file. -/
  | fileRoot
  deriving DecidableEq, Repr, Inhabited

/-- The counters kept by the sample backend, shared by all its registrations. -/
structure SampleCounts where
  rootOpens : Nat := 0
  rootCloses : Nat := 0
  roOpens : Nat := 0
  roCloses : Nat := 0
  unmounts : Nat := 0
  deriving DecidableEq, Repr, Inhabited

/-- An open file: the node it was opened on, its cursor and its open flags. -/
structure OpenFile where
  node : Node Handle
  cursor : Nat
  flags : OpenFlags
  deriving Repr, Inhabited

/-- The mounted root: where it came from and the node it is. -/
structure MountPoint where
  device : String
  path : String
  fsType : String
  backend : Backend
  root : Node Handle
  deriving Repr, Inhabited

/-- The limits of a virtual file system, and the heap its memory stores grow from. -/
structure Config where
  maxFds : Nat := 64
  maxFilesystems : Nat := 8
  heap : Memory.Allocator := .host
  deriving Inhabited

/-- The whole state of a virtual file system and its backends. -/
structure Vfs where
  config : Config
  registry : Registry Backend
  mounted : Option MountPoint
  files : FdTable OpenFile
  stores : Array Memory.Store
  samples : SampleCounts
  /-- Notes written and not yet delivered, oldest first. -/
  journal : Array Note
  deriving Inhabited

/-- An action on the virtual file system. -/
abbrev VfsM := ExceptT FsError (StateM Vfs)

namespace Vfs

/-- A fresh virtual file system: nothing registered, nothing mounted, nothing open. -/
def fresh (config : Config) : Vfs :=
  { config, registry := Registry.empty config.maxFilesystems, mounted := none,
    files := FdTable.empty config.maxFds, stores := #[], samples := {}, journal := #[] }

/-- Writes a note to the journal. -/
def note (level : NoteLevel) (source : String) (pieces : List String) : StateM Vfs Unit :=
  modify fun w => { w with journal := w.journal.push ⟨level, source, pieces⟩ }

/-- Fails with an error. -/
def fail {α : Type} (e : FsError) : VfsM α := throw e

/-- Lifts a pure outcome into an action. -/
def ofExcept {α : Type} (r : Except FsError α) : VfsM α := ExceptT.mk (pure r)

end Vfs

end KernelFs
