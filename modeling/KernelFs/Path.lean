import KernelFs.Error

/-!
# Absolute paths

A path is absolute: it starts with a slash (`components`, `split_path` and `check_component`,
src/crates/vfs/src/path.rs:18-48; the limit `MAX_NAME_LEN`, src/crates/vfs/src/config.rs:4). Its
components are the non-empty pieces between slashes, so repeated and trailing slashes add nothing,
and `.` and `..` are names like any other. A name is at most `nameLimit` bytes long.
-/

namespace KernelFs.Path

/-- The longest name a directory entry may have, in bytes. -/
def nameLimit : Nat := 255

/-- A name fits when its encoded length is within `nameLimit`. -/
def fits (name : String) : Bool := name.utf8ByteSize ≤ nameLimit

/-- The non-empty slash-free pieces of a character list, in order. -/
def pieces (cs : List Char) : List String :=
  ((cs.splitOn '/').filter (fun p => !p.isEmpty)).map String.ofList

/-- The components of an absolute path; a relative path is not supported. -/
def components (path : String) : Except FsError (List String) :=
  match path.toList with
  | '/' :: rest => .ok (pieces rest)
  | _ => .error .unsupportedOperation

/-- The absolute path whose components are the given names. -/
def join (names : List String) : String := "/" ++ "/".intercalate names

/-- Splits a path into its directory and its last component, the leaf. A path without
components has no leaf, and a leaf longer than the name limit is refused. -/
def splitPath (path : String) : Except FsError (String × String) := do
  let names ← components path
  match names.getLast? with
  | none => throw .invalidArgument
  | some leaf =>
    if fits leaf then pure (join names.dropLast, leaf) else throw .componentTooLong

end KernelFs.Path
