import KernelFs.Vfs.Resolve

/-!
# Registering and mounting

File system types are registered by name while the registry has room (`Vfs::register_filesystem`,
src/crates/vfs/src/vfs.rs:57-70, and `MountTable::mount`, `umount` and `root`,
src/crates/vfs/src/mount.rs:46-109); registering a name again shadows the earlier entry. Only the
root `/` can be mounted. Mounting looks up the newest type of the name, asks its backend for a root
and accepts only a directory; the new root replaces any earlier one. A failed mount leaves the
mounted root as it was.
-/

namespace KernelFs.Vfs

/-- The source of registry notes. -/
def registrySource : String := "vfs::file_system"

/-- The source of mount notes. -/
def mountSource : String := "vfs::mount"

/-- Registers a backend under a name. -/
def register (name : String) (b : Backend) : VfsM Unit := do
  let w ← get
  if w.registry.full then
    note .warn registrySource ["vfs: registry full (", Nat.repr w.registry.capacity,
      " slots), rejecting '", name, "'"]
    throw .fullRegistry
  if w.registry.has name then
    note .info registrySource ["vfs: filesystem type '", name, "' shadows an earlier registration"]
  else
    note .info registrySource ["vfs: registered filesystem type '", name, "'"]
  modify fun w => { w with registry := w.registry.push name b }

/-- The name under which memory backends register. -/
def memoryName : String := "memfs"

/-- Registers a memory backend over a new store with the given budget, growing from the
configured heap, and answers the store's index. -/
def addMemory (budget : Nat) : VfsM Nat := do
  let i := (← get).stores.size
  register memoryName (.memory i)
  modify fun w => { w with stores := w.stores.push (Memory.Store.empty w.config.heap budget) }
  pure i

/-- Mounts the newest type of a name as the root. -/
def mount (device path fsType : String) : VfsM Unit := do
  let some b := (← get).registry.lookup fsType
    | note .warn mountSource ["vfs: unknown filesystem type '", fsType, "'"]
      throw .notFound
  if path != "/" then
    note .warn mountSource ["vfs: cannot mount at '", path, "', only '/' is supported"]
    throw .unsupportedOperation
  let root ← match ← attempt (b.mountRoot device) with
    | .ok r => pure r
    | .error e =>
      note .warn mountSource ["vfs: ", fsType, " mount of '", device, "' failed: ", e.message]
      throw .mountFailed
  if !root.isDir then
    note .warn mountSource ["vfs: ", fsType, " returned a non-directory root"]
    throw .mountFailed
  let previous := (← get).mounted
  modify fun w => { w with mounted := some ⟨device, path, fsType, b, root⟩ }
  if previous.isSome then
    note .info mountSource ["vfs: replaced root filesystem with ", fsType, " (", device, ")"]
  else
    note .info mountSource ["vfs: mounted ", fsType, " (", device, ") at /"]

/-- Unmounts the root. -/
def umount (path : String) : VfsM Unit := do
  if path != "/" then throw .unsupportedOperation
  let some mp := (← get).mounted | throw .notFound
  modify fun w => { w with mounted := none }
  mp.backend.unmounted
  note .info mountSource ["vfs: unmounted ", mp.fsType, " from /"]

/-- The mounted root node. -/
def root : VfsM (Node Handle) := do
  match (← get).mounted with
  | some mp => pure mp.root
  | none => throw .notFound

/-- The mounted roots: none or one. -/
def mounts : VfsM (List MountPoint) := do
  pure (← get).mounted.toList

/-- The node a path names, without creating anything. -/
def lookup (path : String) : VfsM (Node Handle) := do
  resolve (← root) path OpenFlags.readOnly

end KernelFs.Vfs
