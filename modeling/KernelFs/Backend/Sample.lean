import KernelFs.Vfs.State

/-!
# The sample backends

The sample tree is a fixed, read-only tree that exercises every branch of capability dispatch, after
the mock file systems of the file system's own tests (`MockFs`, `BrokenFs`,
src/crates/vfs/src/tests/mod.rs:22-257). Its root lists six names, of which four exist: a character
device and a directory without capabilities, a read-only file whose opens and closes are counted,
and a file whose backend supports no data operation. Looking up `err` fails for lack of space,
`unsup` is not supported, and any other name is missing. Opens and closes of the root are counted
too, and so are unmounts. The counters are shared by every registration of the sample backend.

The plain file is what the file-root backend offers as its root: a file with no capabilities.
-/

namespace KernelFs.Backend

/-- The metadata of a sample node. -/
def sampleStat : SampleNode → Meta
  | .root => ⟨1, .directory, 0o555, 1000, 100, 0⟩
  | .dev => ⟨2, .charDevice, 0, 0, 0, 16⟩
  | .ro => ⟨3, .file, 0o444, 1000, 100, 13⟩
  | .zero => ⟨4, .file, 0o666, 0, 0, 8⟩
  | .sub => ⟨5, .directory, 0o700, 0, 0, 0⟩

/-- The capabilities of a sample node. -/
def sampleCaps : SampleNode → Caps
  | .root => Caps.ofList [.onOpen, .onClose, .list, .find]
  | .dev => Caps.none
  | .ro => Caps.ofList [.read, .onOpen, .onClose]
  | .zero => Caps.ofList [.read, .write, .truncate]
  | .sub => Caps.none

/-- The listing of the sample root. -/
def sampleListing : List DirEntry :=
  [⟨2, "dev"⟩, ⟨3, "ro"⟩, ⟨4, "zero"⟩, ⟨5, "sub"⟩, ⟨6, "err"⟩, ⟨7, "unsup"⟩]

/-- The content of the read-only sample file. -/
def sampleText : ByteArray := "readonly data".toUTF8

/-- Looks up a name in the sample root. -/
def sampleLookup : String → Except FsError Handle
  | "dev" => .ok (.sample .dev)
  | "ro" => .ok (.sample .ro)
  | "zero" => .ok (.sample .zero)
  | "sub" => .ok (.sample .sub)
  | "err" => .error .noSpace
  | "unsup" => .error .unsupportedOperation
  | _ => .error .notFound

/-- Counts an open of a sample node. -/
def sampleOpened (c : SampleCounts) : SampleNode → SampleCounts
  | .root => { c with rootOpens := c.rootOpens + 1 }
  | .ro => { c with roOpens := c.roOpens + 1 }
  | _ => c

/-- Counts a close of a sample node. -/
def sampleClosed (c : SampleCounts) : SampleNode → SampleCounts
  | .root => { c with rootCloses := c.rootCloses + 1 }
  | .ro => { c with roCloses := c.roCloses + 1 }
  | _ => c

/-- The actions of a sample node. -/
def sampleInode (n : SampleNode) : Inode (StateM Vfs) Handle where
  stat := pure (sampleStat n)
  caps := sampleCaps n
  readAt offset len :=
    match n with
    | .ro => pure (Memory.slice sampleText offset len)
    | _ => throw .unsupportedOperation
  writeAt _ _ := throw .unsupportedOperation
  opened _ := modify fun w => { w with samples := sampleOpened w.samples n }
  closed := modify fun w => { w with samples := sampleClosed w.samples n }
  entry i :=
    match n with
    | .root => pure sampleListing[i]?
    | _ => throw .unsupportedOperation
  lookup name :=
    match n with
    | .root => Vfs.ofExcept (sampleLookup name)
    | _ => throw .unsupportedOperation
  create _ _ := throw .unsupportedOperation
  unlink _ := throw .unsupportedOperation
  rmdir _ := throw .unsupportedOperation
  truncate _ := throw .unsupportedOperation

/-- The actions of the plain file: metadata and nothing else. -/
def plainInode : Inode (StateM Vfs) Handle where
  stat := pure ⟨9, .file, 0o644, 0, 0, 0⟩
  caps := Caps.none
  readAt _ _ := throw .unsupportedOperation
  writeAt _ _ := throw .unsupportedOperation
  opened _ := pure ()
  closed := pure ()
  entry _ := throw .unsupportedOperation
  lookup _ := throw .unsupportedOperation
  create _ _ := throw .unsupportedOperation
  unlink _ := throw .unsupportedOperation
  rmdir _ := throw .unsupportedOperation
  truncate _ := throw .unsupportedOperation

end KernelFs.Backend
