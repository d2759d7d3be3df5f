import KernelFs.Error
import KernelFs.Flags
import KernelFs.Path
import KernelFs.Log.Level
import KernelFs.Backend.Dispatch
import KernelFs.Kernel.Basic
import KernelFs.Kernel.Boot
import KernelFs.Kernel.Selftest
import KernelFs.Kernel.Syscall
import KernelFs.Vfs.NodeAccess
import KernelFs.Proofs.Arena.Invariant
import KernelFs.Proofs.Vfs.Readdir
import KernelFs.Proofs.Vfs.FileIo
import KernelFs.Proofs.Vfs.Stale
import KernelFs.Proofs.Log.Queue
import KernelFs.Proofs.Vfs.Frame
import KernelFs.Proofs.Vfs.Resolution
import KernelFs.Proofs.Vfs.Reachable
import KernelFs.Proofs.Vfs.Opening
import KernelFs.Proofs.Vfs.Failure
import KernelFs.Proofs.Vfs.Mounting
import KernelFs.Proofs.Vfs.Cursor
import KernelFs.Proofs.Log.Truncation
import KernelFs.Proofs.Vfs.Walk
import KernelFs.Proofs.Kernel.SystemCalls
import KernelFs.Proofs.Vfs.Parent
import KernelFs.Proofs.Arena.Siblings
import KernelFs.Proofs.Node.Dispatch
import KernelFs.Proofs.Kernel.Balance
import KernelFs.Proofs.Vfs.MemoryRoot
import KernelFs.Proofs.Kernel.Repeat
import KernelFs.Proofs.Vfs.Lineage
import KernelFs.Proofs.Vfs.Directories
