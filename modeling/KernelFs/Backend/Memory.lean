import KernelFs.Vfs.State

/-!
# The memory backend

A memory backend serves the inodes of one memory store through views: a view names a slot and the
inode number it held when the view was made (`MemfsInode` and its `impl Inode`,
src/crates/fs/src/memfs/inode.rs:305-470). Each action reads the store, applies the pure store
operation and writes the store back when it changed. Refusals become file system errors; a refused
budget and a refused allocation also leave a warning, and every creation and growth leaves a debug
note. A view's capabilities follow the kind it was made with: directories open, close, list, find,
create and remove; files read, write, open, close and truncate.
-/

namespace KernelFs.Backend

open Memory

/-- The source of the memory backend's inode notes. -/
def inodeSource : String := "fs::memfs::inode"

/-- The capabilities of a memory directory. -/
def memoryDirCaps : Caps := Caps.ofList [.onOpen, .onClose, .list, .find, .create, .remove]

/-- The capabilities of a memory file. -/
def memoryFileCaps : Caps := Caps.ofList [.read, .write, .onOpen, .onClose, .truncate]

/-- The store of an index. -/
def storeAt (i : Nat) : VfsM Store := do
  match (← get).stores[i]? with
  | some s => pure s
  | none => throw .notFound

/-- Writes back the store of an index. -/
def putStore (i : Nat) (s : Store) : VfsM Unit :=
  modify fun w => { w with stores := w.stores.modify i fun _ => s }

/-- Fails with the error a store refusal stands for, warning first where it calls for it. -/
def refuse {α : Type} (e : StoreError) : VfsM α := do
  match e with
  | .overBudget used budget extra =>
    Vfs.note .warn inodeSource ["memfs: out of space (", Nat.repr used, " of ", Nat.repr budget,
      " bytes used, ", Nat.repr extra, " requested)"]
  | .refused target ino =>
    Vfs.note .warn inodeSource ["memfs: allocation of ", Nat.repr target, " bytes for inode ",
      Nat.repr ino, " failed"]
  | _ => pure ()
  throw e.toFsError

/-- Notes a growth, if there was one. -/
def noteGrowth : Option Growth → VfsM Unit
  | some g =>
    Vfs.note .debug inodeSource ["memfs: inode ", Nat.repr g.ino, " grew ", Nat.repr g.old, " -> ",
      Nat.repr g.new, " bytes (previous buffer may not be reclaimed)"]
  | none => pure ()

/-- Runs a store operation on the store of an index. -/
def query {α : Type} (i : Nat) (f : Store → Except StoreError α) : VfsM α := do
  match f (← storeAt i) with
  | .ok a => pure a
  | .error e => refuse e

/-- Runs a store change that may grow a file, keeping the new store. -/
def change (i : Nat) (f : Store → Except StoreError (Store × Option Growth)) : VfsM Unit := do
  let (s, g) ← query i f
  putStore i s
  noteGrowth g

/-- The actions of the view of inode `ino` in slot `slot` of store `i`, made as a node of kind
`kind`. -/
def memoryInode (i slot ino : Nat) (kind : NodeType) : Inode (StateM Vfs) Handle where
  stat := query i (·.stat slot ino)
  caps := if kind == .directory then memoryDirCaps else memoryFileCaps
  readAt offset len := query i (·.readAt slot ino offset len)
  writeAt offset b := do
    change i (·.writeAt slot ino offset b)
    pure b.size
  opened _ := pure ()
  closed := pure ()
  entry n := query i (·.entryAt slot ino n)
  lookup name := do
    let (c, cino, k) ← query i (·.lookup slot ino name)
    pure (.memory i c cino k)
  create name k := do
    let (s, c, cino) ← query i (·.create slot ino name k)
    putStore i s
    Vfs.note .debug inodeSource ["memfs: created ", k.label, " '", name, "' (inode ", Nat.repr cino,
      ")"]
    pure (.memory i c cino k)
  unlink name := do putStore i (← query i (·.unlink slot ino name))
  rmdir name := do putStore i (← query i (·.rmdir slot ino name))
  truncate n := change i (·.resize slot ino n)

end KernelFs.Backend
