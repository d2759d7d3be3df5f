import KernelFs.Kernel.Selftest

/-!
# Integer system calls

The system calls wrap the file system operations for callers that speak in integers (`status`,
`fd_from` and `sys_open` to `sys_mount`, src/basedos/src/syscall/fs.rs:9-70). A call never fails: it
answers -1 and prints the error to the debug log as the call's name, a colon and the error's
message. A negative descriptor is a bad descriptor. Reads and writes move at most the smaller of the
asked count and the buffer's length. A seek names its origin by code; an unknown code is an invalid
argument, checked after the descriptor's sign.
-/

namespace KernelFs.Kernel

/-- Runs a call's action; a failure is printed at debug level under the call's name. -/
def status {α : Type} (name : String) (act : KernelM α) : StateM Kernel (Option α) := do
  match ← act.run with
  | .ok a => pure (some a)
  | .error e => do
    let _ ← (print .debug [name, ": ", e.message]).run
    pure none

/-- The descriptor an integer names; negative integers name none. -/
def descriptor (fd : Int) : KernelM Nat :=
  if fd < 0 then throw .invalidDescriptor else pure fd.toNat

/-- Opens a path with a flag word, answering the descriptor or -1. -/
def sysOpen (path : String) (bits : UInt32) : StateM Kernel Int := do
  match ← status "sys_open" (fs (Vfs.openFile path ⟨bits⟩)) with
  | some fd => pure (if fd < Nat.pow 2 31 then (fd : Int) else -1)
  | none => pure (-1)

/-- Closes a descriptor, answering 0 or -1. -/
def sysClose (fd : Int) : StateM Kernel Int := do
  match ← status "sys_close" (do fs (Vfs.close (← descriptor fd))) with
  | some () => pure 0
  | none => pure (-1)

/-- Reads at most `min n buf` bytes, answering the count or -1 and the bytes read. -/
def sysRead (fd : Int) (buf n : Nat) : StateM Kernel (Int × ByteArray) := do
  match ← status "sys_read" (do fs (Vfs.read (← descriptor fd) (min n buf))) with
  | some b => pure (b.size, b)
  | none => pure (-1, .empty)

/-- Writes the first `min n data.size` bytes, answering the count or -1. -/
def sysWrite (fd : Int) (data : ByteArray) (n : Nat) : StateM Kernel Int := do
  let part := data.extract 0 (min n data.size)
  match ← status "sys_write" (do fs (Vfs.write (← descriptor fd) part)) with
  | some k => pure k
  | none => pure (-1)

/-- Moves a cursor, answering the new position or -1; a position past the largest signed 64-bit
integer is answered as -1 too. -/
def sysSeek (fd : Int) (offset : Int) (origin : Int) : StateM Kernel Int := do
  let act : KernelM Nat := do
    let d ← descriptor fd
    let some o := SeekOrigin.ofCode? origin | throw .invalidArgument
    fs (Vfs.seek d offset o)
  match ← status "sys_lseek" act with
  | some p => pure (if p < Nat.pow 2 63 then (p : Int) else -1)
  | none => pure (-1)

/-- Mounts a root, answering 0 or -1. -/
def sysMount (device path fsType : String) : StateM Kernel Int := do
  match ← status "sys_mount" (fs (Vfs.mount device path fsType)) with
  | some () => pure 0
  | none => pure (-1)

end KernelFs.Kernel
