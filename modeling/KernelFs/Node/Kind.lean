/-!
# Node kinds, capabilities and metadata

Every node has a kind, fixed metadata (inode number, permission bits, owner, group and a live size)
and a set of capabilities: the operations its backend is willing to perform (`InodeType`,
`Capabilities`, `DirEntry` and `InodeMetadata`, src/crates/vfs/src/inode.rs:18-112). A capability
set is a bit mask, one bit per operation, so that it can be reported as a number.

* `Caps.has_ofList`: a set built from a list holds exactly the listed capabilities.
-/

namespace KernelFs

/-- The kind of a node. -/
inductive NodeType where
  | file
  | directory
  | charDevice
  | blockDevice
  | pipe
  | symlink
  | mountpoint
  deriving DecidableEq, Repr, Inhabited

/-- The name under which a node kind is reported. -/
def NodeType.label : NodeType → String
  | .file => "File"
  | .directory => "Directory"
  | .charDevice => "CharDevice"
  | .blockDevice => "BlockDevice"
  | .pipe => "Pipe"
  | .symlink => "Symlink"
  | .mountpoint => "Mountpoint"

/-- An operation a backend may offer for a node. -/
inductive Capability where
  | read
  | write
  /-- The backend wants to hear when a descriptor opens the node. -/
  | onOpen
  /-- The backend wants to hear when a descriptor on the node closes. -/
  | onClose
  /-- Directory entries can be listed by position. -/
  | list
  /-- Directory entries can be found by name. -/
  | find
  | create
  | remove
  | truncate
  deriving DecidableEq, Repr, Inhabited

/-- The bit of a capability in a capability mask. -/
def Capability.index : Capability → Nat
  | .read => 0
  | .write => 1
  | .onOpen => 2
  | .onClose => 3
  | .list => 4
  | .find => 5
  | .create => 6
  | .remove => 7
  | .truncate => 8

/-- A set of capabilities, as a bit mask. -/
structure Caps where
  mask : Nat
  deriving DecidableEq, Repr, Inhabited

namespace Caps

/-- Whether the set holds a capability. -/
def has (c : Caps) (x : Capability) : Bool := c.mask.testBit x.index

/-- The empty set. -/
def none : Caps := ⟨0⟩

/-- The set of the listed capabilities. -/
def ofList (xs : List Capability) : Caps := ⟨xs.foldr (fun x m => Nat.pow 2 x.index ||| m) 0⟩

theorem has_ofList (xs : List Capability) (x : Capability) : (ofList xs).has x = xs.contains x := by
  induction xs with
  | nil => simp [ofList, has]
  | cons y ys ih =>
    simp only [has, ofList, List.foldr_cons, Nat.pow_eq, Nat.testBit_or, Nat.testBit_two_pow] at ih ⊢
    rw [ih]
    cases x <;> cases y <;> simp [Capability.index]

end Caps

/-- What a backend reports about a node. -/
structure Meta where
  ino : Nat
  kind : NodeType
  mode : Nat
  uid : Nat
  gid : Nat
  size : Nat
  deriving DecidableEq, Repr, Inhabited

/-- One entry of a directory listing. -/
structure DirEntry where
  ino : Nat
  name : String
  deriving DecidableEq, Repr, Inhabited

end KernelFs
