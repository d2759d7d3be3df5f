/-!
# File system registries

A registry lists file system types by name in registration order, up to a fixed capacity
(`FsRegistry::register` and `lookup`, src/crates/vfs/src/file_system.rs:28-72). A name may be
registered again; the newest registration of a name is the one found.

* `lookup_push_self`: a name just registered finds the new entry.
-/

namespace KernelFs

/-- Registered file system types, oldest first, with a fixed capacity. -/
structure Registry (β : Type) where
  entries : Array (String × β)
  capacity : Nat
  deriving Inhabited

namespace Registry

variable {β : Type}

/-- An empty registry of the given capacity. -/
def empty (capacity : Nat) : Registry β := ⟨#[], capacity⟩

/-- Whether the registry has no room left. -/
def full (r : Registry β) : Bool := r.capacity ≤ r.entries.size

/-- Whether some entry has the name. -/
def has (r : Registry β) (name : String) : Bool := r.entries.any (·.1 == name)

/-- The newest entry of the name. -/
def lookup (r : Registry β) (name : String) : Option β :=
  (r.entries.toList.reverse.find? (·.1 == name)).map (·.2)

/-- The registered names, oldest first. -/
def names (r : Registry β) : List String := r.entries.toList.map (·.1)

/-- The number of entries. -/
def size (r : Registry β) : Nat := r.entries.size

/-- Whether nothing is registered. -/
def isEmpty (r : Registry β) : Bool := r.entries.isEmpty

/-- Appends an entry; room is checked by the caller. -/
def push (r : Registry β) (name : String) (b : β) : Registry β :=
  { r with entries := r.entries.push (name, b) }

theorem lookup_push_self (r : Registry β) (name : String) (b : β) :
    (r.push name b).lookup name = some b := by
  simp [push, lookup]

end Registry

end KernelFs
