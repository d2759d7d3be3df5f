import KernelFs.Vfs.Mount

/-!
# Open files

Opening (`Vfs::open`, src/crates/vfs/src/vfs.rs:87-114) checks the access mode, then that a
descriptor is free (before the path is looked at), then resolves the path, creating the last
component if asked. A writable open with the truncate flag empties a file. The file takes the lowest
free descriptor and its node hears of the open. Reads and writes move the cursor by the bytes moved;
an appending descriptor first moves its cursor to the end of the file, and that move stays even if
the write then fails. A seek measures from the start, the cursor or the end and must land in `0 ..=
maxOffset` (`File::read`, `write` and `lseek`, src/crates/vfs/src/file.rs:55-98).

* `seekTarget_eq_some_iff`: a seek lands exactly where base plus offset lies in range.
-/

namespace KernelFs.Vfs

/-- The source of descriptor notes. -/
def vfsSource : String := "vfs::vfs"

/-- The largest cursor position: the largest signed machine word. -/
def maxOffset : Nat := Nat.pow 2 63 - 1

/-- The position a seek by `offset` from `base` lands on, if it is in range. -/
def seekTarget (base : Nat) (offset : Int) : Option Nat :=
  if maxOffset < base ∨ (base : Int) + offset < 0 ∨ (maxOffset : Int) < (base : Int) + offset then
    none
  else some ((base : Int) + offset).toNat

/-- The open file of a descriptor. -/
def fileAt (fd : Nat) : VfsM OpenFile := do
  ofExcept ((← get).files.get fd)

/-- Replaces the open file of a descriptor. -/
def setFile (fd : Nat) (f : OpenFile) : VfsM Unit :=
  modify fun w => { w with files := w.files.update fd f }

/-- Opens a path with the given flags, answering the descriptor. -/
def openFile (path : String) (flags : OpenFlags) : VfsM Nat := do
  if flags.accessMode?.isNone then throw .invalidArgument
  let w ← get
  if !w.files.hasFree then
    note .warn vfsSource ["vfs: descriptor table exhausted (", Nat.repr w.files.limit,
      " slots), cannot open '", path, "'"]
    throw .descriptorsExhausted
  let n ← resolve (← root) path flags
  if flags.truncates && flags.writable && n.kind == .file then
    n.truncate Handle.inode 0
  let (fd, files) ← ofExcept ((← get).files.alloc ⟨n, 0, flags⟩)
  modify fun w => { w with files }
  ExceptT.lift (n.notifyOpen Handle.inode flags)
  note .debug vfsSource ["vfs: open '", path, "' -> fd ", Nat.repr fd]
  pure fd

/-- Closes a descriptor; its node hears of the close. -/
def close (fd : Nat) : VfsM Unit := do
  let (f, files) ← ofExcept ((← get).files.close fd)
  modify fun w => { w with files }
  ExceptT.lift (f.node.notifyClose Handle.inode)
  note .debug vfsSource ["vfs: close fd ", Nat.repr fd]

/-- Reads at most `len` bytes at a descriptor's cursor. -/
def read (fd len : Nat) : VfsM ByteArray := do
  let f ← fileAt fd
  if !f.flags.readable then throw .permissionDenied
  let b ← f.node.read Handle.inode f.cursor len
  setFile fd { f with cursor := f.cursor + b.size }
  pure b

/-- Writes bytes at a descriptor's cursor, answering how many were written. -/
def write (fd : Nat) (b : ByteArray) : VfsM Nat := do
  let f ← fileAt fd
  if !f.flags.writable then throw .permissionDenied
  let f ← if f.flags.appends then do
      let f := { f with cursor := ← ExceptT.lift (f.node.length Handle.inode) }
      setFile fd f
      pure f
    else pure f
  let k ← f.node.write Handle.inode f.cursor b
  setFile fd { f with cursor := f.cursor + k }
  pure k

/-- Moves a descriptor's cursor, answering the new position. -/
def seek (fd : Nat) (offset : Int) (origin : SeekOrigin) : VfsM Nat := do
  let f ← fileAt fd
  let base ← match origin with
    | .start => pure 0
    | .cursor => pure f.cursor
    | .finish => ExceptT.lift (f.node.length Handle.inode)
  let some p := seekTarget base offset | throw .invalidArgument
  setFile fd { f with cursor := p }
  pure p

/-- Empties the descriptor table without telling any node, answering what was open. -/
def takeAll : VfsM (List (Nat × OpenFile)) := do
  let (held, files) := (← get).files.takeAll
  modify fun w => { w with files }
  pure held

theorem seekTarget_eq_some_iff (base : Nat) (offset : Int) (p : Nat) :
    seekTarget base offset = some p ↔
      base ≤ maxOffset ∧ (p : Int) = base + offset ∧ p ≤ maxOffset := by
  unfold seekTarget
  constructor
  · intro h
    split at h
    · cases h
    · cases h
      omega
  · rintro ⟨hb, hp, hm⟩
    rw [if_neg (by omega)]
    congr 1
    omega

end KernelFs.Vfs
