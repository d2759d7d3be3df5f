/-!
# Open flags and seek origins

An open request carries a 32-bit flag word (`OpenFlags`, src/crates/uapi/src/fcntl.rs:8-55). Its two
low bits name the access mode (the value 3 names none); three further bits ask to create a missing
file, to truncate a file that is opened for writing, and to move every write to the end of the file.
A seek names its origin by a small integer code.

* `OpenFlags.readable_iff` and `OpenFlags.writable_iff`: which access modes read and write.
-/

namespace KernelFs

/-- How an open descriptor may move data. -/
inductive AccessMode where
  | readOnly
  | writeOnly
  | readWrite
  deriving DecidableEq, Repr, Inhabited

/-- The name under which an access mode is reported. -/
def AccessMode.label : AccessMode → String
  | .readOnly => "ReadOnly"
  | .writeOnly => "WriteOnly"
  | .readWrite => "ReadWrite"

/-- The flag word of an open request, kept whole: unknown bits are carried along. -/
structure OpenFlags where
  bits : UInt32
  deriving DecidableEq, Repr, Inhabited

namespace OpenFlags

/-- The bit that asks to create a missing last component. -/
def createBit : Nat := 8

/-- The bit that asks to empty a file opened for writing. -/
def truncateBit : Nat := 9

/-- The bit that moves every write to the end of the file. -/
def appendBit : Nat := 10

/-- Read-only access and no other request. -/
def readOnly : OpenFlags := ⟨0⟩

/-- The access mode named by the two low bits; the code 3 names none. -/
def accessMode? (f : OpenFlags) : Option AccessMode :=
  match f.bits.toNat % 4 with
  | 0 => some .readOnly
  | 1 => some .writeOnly
  | 2 => some .readWrite
  | _ => none

/-- Whether the flag word has bit `i` set. -/
def has (f : OpenFlags) (i : Nat) : Bool := f.bits.toNat.testBit i

/-- The descriptor may read. -/
def readable (f : OpenFlags) : Bool :=
  f.accessMode? == some .readOnly || f.accessMode? == some .readWrite

/-- The descriptor may write. -/
def writable (f : OpenFlags) : Bool :=
  f.accessMode? == some .writeOnly || f.accessMode? == some .readWrite

/-- A missing last component is created as a file. -/
def creates (f : OpenFlags) : Bool := f.has createBit

/-- A file opened for writing is first emptied. -/
def truncates (f : OpenFlags) : Bool := f.has truncateBit

/-- Every write first moves the cursor to the end of the file. -/
def appends (f : OpenFlags) : Bool := f.has appendBit

theorem readable_iff (f : OpenFlags) :
    f.readable = true ↔ f.accessMode? = some .readOnly ∨ f.accessMode? = some .readWrite := by
  simp [readable]

theorem writable_iff (f : OpenFlags) :
    f.writable = true ↔ f.accessMode? = some .writeOnly ∨ f.accessMode? = some .readWrite := by
  simp [writable]

end OpenFlags

/-- Where a seek measures its offset from. -/
inductive SeekOrigin where
  /-- From the start of the file. -/
  | start
  /-- From the descriptor's cursor. -/
  | cursor
  /-- From the current end of the file. -/
  | finish
  deriving DecidableEq, Repr, Inhabited

namespace SeekOrigin

/-- The origin named by a seek code: 0, 1 and 2 are start, cursor and end. -/
def ofCode? : Int → Option SeekOrigin
  | 0 => some .start
  | 1 => some .cursor
  | 2 => some .finish
  | _ => none

/-- The name under which an origin is reported. -/
def label : SeekOrigin → String
  | .start => "Set"
  | .cursor => "Cur"
  | .finish => "End"

end SeekOrigin

end KernelFs
