import KernelFs.Vfs.Tree

/-!
# Direct node access

These operations act on the node that a path or a descriptor names, through capability dispatch and
without a descriptor's cursor (the `Node` methods of src/crates/vfs/src/node.rs: 100-234, reached
through `Vfs::lookup`, src/crates/vfs/src/vfs.rs:82): a path is looked up first, and its error is
the answer; a descriptor's node is the view taken when it was opened, which may have gone stale.
-/

namespace KernelFs.Vfs

/-- Resolves a path from the mounted root with the given flags. -/
def resolvePath (path : String) (flags : OpenFlags) : VfsM (Node Handle) := do
  resolve (← root) path flags

/-- Resolves the parent of a path from the mounted root. -/
def resolveParentPath (path : String) : VfsM (Node Handle × String) := do
  resolveParent (← root) path

/-- Reads at most `len` bytes at `offset` of the node a path names. -/
def nodeRead (path : String) (offset len : Nat) : VfsM ByteArray := do
  (← lookup path).read Handle.inode offset len

/-- Writes bytes at `offset` of the node a path names. -/
def nodeWrite (path : String) (offset : Nat) (b : ByteArray) : VfsM Nat := do
  (← lookup path).write Handle.inode offset b

/-- The entry at a position of the node a path names. -/
def nodeEntry (path : String) (i : Nat) : VfsM (Option DirEntry) := do
  (← lookup path).entry Handle.inode i

/-- Finds a child of the node a path names. -/
def nodeFind (path name : String) : VfsM (Option (Node Handle)) := do
  (← lookup path).find Handle.inode name

/-- Creates a child of the node a path names. -/
def nodeCreate (path name : String) (kind : NodeType) : VfsM (Node Handle) := do
  (← lookup path).create Handle.inode name kind

/-- Removes a non-directory child of the node a path names. -/
def nodeUnlink (path name : String) : VfsM Unit := do
  (← lookup path).unlink Handle.inode name

/-- Removes an empty child directory of the node a path names. -/
def nodeRmdir (path name : String) : VfsM Unit := do
  (← lookup path).rmdir Handle.inode name

/-- Sets the size of the node a path names. -/
def nodeTruncate (path : String) (size : Nat) : VfsM Unit := do
  (← lookup path).truncate Handle.inode size

/-- Reads at most `len` bytes at `offset` of a descriptor's node. -/
def fdNodeRead (fd offset len : Nat) : VfsM ByteArray := do
  (← fileAt fd).node.read Handle.inode offset len

/-- Sets the size of a descriptor's node. -/
def fdNodeTruncate (fd size : Nat) : VfsM Unit := do
  (← fileAt fd).node.truncate Handle.inode size

end KernelFs.Vfs
