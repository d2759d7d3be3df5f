import KernelFs.Kernel.Basic

/-!
# Bringing up the root file system

At boot the kernel registers a memory backend with a budget of four mebibytes, unless a type named
`memfs` is registered already, and mounts the newest `memfs` type at `/` from the device `memdisk`
(`init_fs`, src/basedos/src/fs/mod.rs:22-35; the constants of src/basedos/src/config.rs). A failed
mount is reported and passed on.
-/

namespace KernelFs.Kernel

/-- The byte budget of the root memory store. -/
def rootBudget : Nat := 4194304

/-- The device the root is mounted from. -/
def rootDevice : String := "memdisk"

/-- Registers the root memory backend if need be and mounts the root. -/
def initFs : KernelM Unit := do
  if ((← get).vfs.registry.lookup Vfs.memoryName).isNone then
    let _ ← fs (Vfs.addMemory rootBudget)
    print .info ["[Memfs] Registered memfs (max ", Nat.repr rootBudget, " bytes)"]
  match ← attempt (fs (Vfs.mount rootDevice "/" Vfs.memoryName)) with
  | .ok () => pure ()
  | .error e =>
    print .error ["[Memfs] Failed to mount root filesystem: ", e.message]
    throw e
  print .info ["[Memfs] Mounted ", Vfs.memoryName, " (", rootDevice, ") at /"]

end KernelFs.Kernel
