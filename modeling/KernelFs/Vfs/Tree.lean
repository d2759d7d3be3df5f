import KernelFs.Vfs.Files

/-!
# Directories

Listing a directory asks its node for entries at positions 0, 1, 2, … until there is none
(`Vfs::readdir`, `mkdir`, `unlink` and `rmdir`, src/crates/vfs/src/vfs.rs:141-175). The walk is
bounded by `entryBound`, which exceeds every directory's size: a memory directory lists live inodes
of its store, and the sample root lists six names. Making, unlinking and removing directories
resolve the parent, which must be a directory, and then act on the leaf.
-/

namespace KernelFs.Vfs

/-- More than the number of entries of any directory of the current state. -/
def entryBound (w : Vfs) : Nat :=
  w.stores.foldl (fun acc s => acc + s.slots.size) 0 + Backend.sampleListing.length + 1

/-- Collects the entries of a directory from position `i` on, at most `fuel` of them. -/
def collect (d : Node Handle) : Nat → Nat → Array DirEntry → VfsM (Array DirEntry)
  | 0, _, acc => pure acc
  | fuel + 1, i, acc => do
    match ← d.entry Handle.inode i with
    | some e => collect d fuel (i + 1) (acc.push e)
    | none => pure acc

/-- Lists the directory a path names. -/
def readdir (path : String) : VfsM (List DirEntry) := do
  let d ← lookup path
  if !d.isDir then throw .notDirectory
  let es ← collect d (entryBound (← get)) 0 #[]
  pure es.toList

/-- Makes a directory. -/
def mkdir (path : String) : VfsM (Node Handle) := do
  let (p, name) ← resolveParent (← root) path
  let d ← p.create Handle.inode name .directory
  note .debug vfsSource ["vfs: mkdir '", path, "'"]
  pure d

/-- Removes a file. -/
def unlink (path : String) : VfsM Unit := do
  let (p, name) ← resolveParent (← root) path
  p.unlink Handle.inode name
  note .debug vfsSource ["vfs: unlink '", path, "'"]

/-- Removes an empty directory. -/
def rmdir (path : String) : VfsM Unit := do
  let (p, name) ← resolveParent (← root) path
  p.rmdir Handle.inode name
  note .debug vfsSource ["vfs: rmdir '", path, "'"]

/-- A node as reported: the view, its live length and its capabilities. -/
structure NodeReport where
  node : Node Handle
  length : Nat
  caps : Caps

/-- Reports on a node in the current state. -/
def report (n : Node Handle) : VfsM NodeReport := do
  pure ⟨n, ← ExceptT.lift (n.length Handle.inode), n.caps Handle.inode⟩

/-- Reports on the node an action produces. -/
def reported (act : VfsM (Node Handle)) : VfsM NodeReport := do
  report (← act)

/-- Reports on the node an action may produce. -/
def reportedSome (act : VfsM (Option (Node Handle))) : VfsM (Option NodeReport) := do
  match ← act with
  | some n => some <$> report n
  | none => pure none

end KernelFs.Vfs
