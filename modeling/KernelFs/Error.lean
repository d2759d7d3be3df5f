/-!
# Errors of the file system layer

Every refusal of the virtual file system, of a backend or of the descriptor table is one `FsError`
(src/crates/vfs/src/error.rs, `FsError` and its `Display` texts, lines 9-67). The cause is the
constructor; its wording lives in `FsError.message` alone, so that a statement about when an
operation fails never has to mention text.
-/

namespace KernelFs

/-- Why a file system operation was refused. -/
inductive FsError where
  /-- No such file, directory or file system type. -/
  | notFound
  /-- A directory already holds an entry of that name. -/
  | alreadyExists
  /-- A path component is longer than the name limit. -/
  | componentTooLong
  /-- A directory was needed and something else was found. -/
  | notDirectory
  /-- The operation does not apply to a directory. -/
  | isDirectory
  /-- A directory to remove still has entries. -/
  | directoryNotEmpty
  /-- Every descriptor slot is taken. -/
  | descriptorsExhausted
  /-- The descriptor is not open. -/
  | invalidDescriptor
  /-- The descriptor's access mode forbids the operation. -/
  | permissionDenied
  /-- An argument is out of its domain. -/
  | invalidArgument
  /-- The node or backend does not offer the operation. -/
  | unsupportedOperation
  /-- A backend could not produce a usable root. -/
  | mountFailed
  /-- The registry of file system types is full. -/
  | fullRegistry
  /-- A budget, a word or the allocator has no room left. -/
  | noSpace
  deriving DecidableEq, Repr, Inhabited

namespace FsError

/-- The sentence that reports the error to a user. -/
def message : FsError → String
  | notFound => "no such file, directory or filesystem type"
  | alreadyExists => "entry already exists"
  | componentTooLong => "path component too long"
  | notDirectory => "not a directory"
  | isDirectory => "is a directory"
  | directoryNotEmpty => "directory not empty"
  | descriptorsExhausted => "too many open files"
  | invalidDescriptor => "bad file descriptor"
  | permissionDenied => "access mode does not permit operation"
  | invalidArgument => "invalid argument"
  | unsupportedOperation => "operation not supported"
  | mountFailed => "mount failed"
  | fullRegistry => "filesystem registry full"
  | noSpace => "no space left"

/-- The name under which the error kind is reported. -/
def kindName : FsError → String
  | notFound => "NotFound"
  | alreadyExists => "AlreadyExists"
  | componentTooLong => "ComponentTooLong"
  | notDirectory => "NotDirectory"
  | isDirectory => "IsDirectory"
  | directoryNotEmpty => "DirectoryNotEmpty"
  | descriptorsExhausted => "DescriptorsExhausted"
  | invalidDescriptor => "InvalidDescriptor"
  | permissionDenied => "PermissionDenied"
  | invalidArgument => "InvalidArgument"
  | unsupportedOperation => "UnsupportedOperation"
  | mountFailed => "MountFailed"
  | fullRegistry => "FullRegistry"
  | noSpace => "NoSpace"

end FsError

end KernelFs
