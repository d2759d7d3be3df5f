import KernelFs.Vfs.Tree
import KernelFs.Log.System

/-!
# The kernel

The kernel owns one virtual file system and the kernel log (the global `VFS`,
src/basedos/src/fs/mod.rs:16, and `GLOBAL_LOG`, src/crates/klog/src/lib.rs:96). Kernel code prints
to the log directly; after every file system action the notes it wrote are delivered to the log
through the subscriber, in the order they were written.
-/

namespace KernelFs

/-- The kernel's file system and log. -/
structure Kernel where
  vfs : Vfs
  log : Log.SystemLog
  deriving Inhabited

/-- A kernel action. -/
abbrev KernelM := ExceptT FsError (StateM Kernel)

namespace Kernel

/-- A kernel with a fresh file system of the given limits and the log as it boots. -/
def boot (config : Config) : Kernel := ⟨Vfs.fresh config, Log.SystemLog.boot⟩

/-- Runs a file system action, then delivers the notes it wrote. -/
def fs {α : Type} (act : VfsM α) : KernelM α := ExceptT.mk do
  let k ← get
  let (r, v) := act.run.run k.vfs
  set ({ vfs := { v with journal := #[] }, log := k.log.acceptAll v.journal.toList } : Kernel)
  pure r

/-- Prints a message, written as fragments, to the kernel log. -/
def print (l : LogLevel) (frags : List String) : KernelM Unit :=
  modify fun k => { k with log := k.log.print l frags }

/-- Runs an action and hands back its outcome, error or not, for inspection. -/
def attempt {α : Type} (act : KernelM α) : KernelM (Except FsError α) := ExceptT.lift act.run

/-- Lifts a pure outcome into an action. -/
def ofExcept {α : Type} (r : Except FsError α) : KernelM α := ExceptT.mk (pure r)

/-- Runs a kernel action on a kernel. -/
def run {α : Type} (act : KernelM α) (k : Kernel) : Except FsError α × Kernel :=
  act.run.run k

end Kernel

end KernelFs
