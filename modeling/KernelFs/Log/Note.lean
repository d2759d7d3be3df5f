import KernelFs.Log.Level

/-!
# Notes

A note is what library code reports while it works: a level, the part of the library that speaks
(its source) and the message as the fragments it is written in. These are the records that the file
system crates emit through the `log` facade (`log::warn!`, `log::debug!` and the rest, whose target
is the emitting module's path), such as the memory file system's
src/crates/fs/src/memfs/inode.rs:252-295 and 435, which `KernelLogger::log` receives
(src/crates/klog/src/lib.rs:107-121). Notes are collected first and delivered to the kernel log
later, through the subscriber's filter.
-/

namespace KernelFs

/-- A report written by library code. -/
structure Note where
  level : NoteLevel
  source : String
  pieces : List String
  deriving DecidableEq, Repr, Inhabited

end KernelFs
