import KernelFs.Backend.Memory
import KernelFs.Backend.Sample

/-!
# Backend dispatch

Each handle names the actions of its backend, and each registered backend knows how to mount and
unmount (`FileSystemType`, src/crates/vfs/src/file_system.rs:13-22; the memory file system's
`mount`, src/crates/fs/src/memfs/memfs.rs:61-69). Mounting a memory backend yields the root of its
store and notes that the device is ignored; the sample backend yields its fixed root; the refusing
backend fails for lack of space; the file-root backend yields its plain file.
-/

namespace KernelFs

open Backend

/-- The backend actions of a handle. -/
def Handle.inode : Handle → Inode (StateM Vfs) Handle
  | .memory i slot ino k => memoryInode i slot ino k
  | .sample n => sampleInode n
  | .plainFile => plainInode

/-- The source of the memory backend's mount notes. -/
def memorySource : String := "fs::memfs::memfs"

/-- Produces the root node of a backend for a device. -/
def Backend.mountRoot (b : Backend) (device : String) : VfsM (Node Handle) :=
  match b with
  | .memory i => do
    Vfs.note .debug memorySource ["memfs: mount (device '", device, "' ignored)"]
    let ino ← query i (·.rootIno)
    Node.make Handle.inode "/" (.memory i Memory.Store.rootIndex ino .directory)
  | .sample => Node.make Handle.inode "/" (.sample .root)
  | .refusing => throw .noSpace
  | .fileRoot => Node.make Handle.inode "/" .plainFile

/-- Tells a backend that its root was unmounted. -/
def Backend.unmounted : Backend → StateM Vfs Unit
  | .sample => modify fun w => { w with samples := { w.samples with unmounts := w.samples.unmounts + 1 } }
  | _ => pure ()

end KernelFs
