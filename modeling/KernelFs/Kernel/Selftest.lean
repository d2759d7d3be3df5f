import KernelFs.Kernel.Boot
import KernelFs.Text.Utf8

/-!
# The file system self-test

The self-test brings up the root, writes a fixed message to `/test.txt` (creating it, and without
truncating it), reads back at most 127 bytes, lists the root and reports what it saw
(`run_fs_selftest`, `write_file` and `read_file`, src/basedos/src/selftest.rs:41-97). Every
descriptor it opens is closed again before an error of the write or the read is passed on. A write
that moves fewer bytes than the message has is reported and refused for lack of space. The text read
back is decoded leniently.
-/

namespace KernelFs.Kernel

/-- The file the self-test writes. -/
def selftestPath : String := "/test.txt"

/-- The message the self-test writes. -/
def selftestMessage : String := "Hello, BasedOS File System!"

/-- The self-test reads into a buffer of this size, less one byte. -/
def readBufferSize : Nat := 128

/-- What the self-test saw. -/
structure Report where
  bytesWritten : Nat
  readBack : String
  rootEntries : List String
  deriving DecidableEq, Repr

/-- Whether the text read back is the message written. -/
def Report.matches (r : Report) : Bool := r.readBack == selftestMessage

/-- Creates or opens a file for writing, writes the bytes at its start and closes it. -/
def writeFile (path : String) (data : ByteArray) : KernelM Nat := do
  let fd ← fs (Vfs.openFile path ⟨0x101⟩)
  let written ← attempt (fs (Vfs.write fd data))
  fs (Vfs.close fd)
  let n ← ofExcept written
  if n != data.size then
    print .error ["Short write to ", path, ": ", Nat.repr n, " of ", Nat.repr data.size, " bytes"]
    throw .noSpace
  pure n

/-- Opens a file for reading, reads the start of it and closes it. -/
def readFile (path : String) : KernelM String := do
  let fd ← fs (Vfs.openFile path OpenFlags.readOnly)
  let got ← attempt (fs (Vfs.read fd (readBufferSize - 1)))
  fs (Vfs.close fd)
  let b ← ofExcept got
  pure (Text.decodeLossy b)

/-- Runs the self-test. -/
def selftest : KernelM Report := do
  print .info ["=== Starting File System Test ==="]
  initFs
  print .info ["Mounted ", Vfs.memoryName, " (", rootDevice, ") at /"]
  print .info ["Creating test file..."]
  let n ← writeFile selftestPath selftestMessage.toUTF8
  print .info ["Wrote ", Nat.repr n, " bytes to ", selftestPath]
  print .info ["Reading back test file..."]
  let text ← readFile selftestPath
  print .info ["Read ", Nat.repr text.utf8ByteSize, " bytes: ", text]
  print .info ["Root directory contents:"]
  let names := ((← fs (Vfs.readdir "/")).map (·.name)).filter (!·.isEmpty)
  names.forM fun name => print .info ["  ", name]
  let r : Report := ⟨n, text, names⟩
  if !r.matches then print .error ["File System Test: read back data does not match"]
  print .info ["=== File System Test Complete ==="]
  pure r

end KernelFs.Kernel
