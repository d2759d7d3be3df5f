import KernelFs.Backend.Dispatch

/-!
# Path resolution

A path is resolved from a root node one component at a time (`resolve` and `resolve_parent`,
src/crates/vfs/src/path.rs:50-86). A component longer than the name limit is refused; otherwise the
current node is asked for a child of that name. A missing last component is created as a file when
the flags ask for it; any other missing component is not found. Resolution therefore depends on a
path only through its components.

* `resolve_eq_walk`: resolution is the walk over the path's components.
-/

namespace KernelFs.Vfs

/-- The source of path resolution notes. -/
def pathSource : String := "vfs::path"

/-- Runs an action and hands back its outcome, error or not, for inspection. -/
def attempt {α : Type} (act : VfsM α) : VfsM (Except FsError α) := ExceptT.lift act.run

/-- Walks the given components down from a node. -/
def walk (flags : OpenFlags) (cur : Node Handle) : List String → VfsM (Node Handle)
  | [] => pure cur
  | name :: rest => do
    if !Path.fits name then throw .componentTooLong
    match ← cur.find Handle.inode name with
    | some c => walk flags c rest
    | none =>
      if rest.isEmpty && flags.creates then
        note .debug pathSource ["vfs: creating '", name, "' under '", cur.name, "'"]
        cur.create Handle.inode name .file
      else throw .notFound

/-- Resolves an absolute path from a root node. -/
def resolve (root : Node Handle) (path : String) (flags : OpenFlags) : VfsM (Node Handle) := do
  let names ← ofExcept (Path.components path)
  walk flags root names

/-- Resolves the directory part of a path, which must be a directory, and names the leaf. -/
def resolveParent (root : Node Handle) (path : String) : VfsM (Node Handle × String) := do
  let (dir, leaf) ← ofExcept (Path.splitPath path)
  let p ← resolve root dir OpenFlags.readOnly
  if !p.isDir then throw .notDirectory
  pure (p, leaf)

theorem resolve_eq_walk (root : Node Handle) (path : String) (flags : OpenFlags)
    (names : List String) (h : Path.components path = .ok names) :
    resolve root path flags = walk flags root names := by
  simp only [resolve, h, ofExcept]
  rfl

end KernelFs.Vfs
