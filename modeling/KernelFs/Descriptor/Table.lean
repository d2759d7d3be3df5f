import KernelFs.Error

/-!
# Descriptor tables

A descriptor table maps small numbers to open files (`FDTable`,
src/crates/vfs/src/fd_table.rs:14-106). It holds at most `limit` slots and grows one slot at a time;
a new file goes into the lowest free slot. Closing frees a slot, which the next allocation takes
again. The table is generic in what it holds.
-/

namespace KernelFs

/-- A table of open files numbered from 0, with at most `limit` slots. -/
structure FdTable (α : Type) where
  slots : Array (Option α)
  limit : Nat
  deriving Inhabited

namespace FdTable

variable {α : Type}

/-- An empty table with the given limit. -/
def empty (limit : Nat) : FdTable α := ⟨#[], limit⟩

/-- Whether another file can be allocated. -/
def hasFree (t : FdTable α) : Bool := t.slots.size < t.limit || t.slots.any Option.isNone

/-- Places a file in the lowest free slot, growing the table by one slot if none is free. -/
def alloc (t : FdTable α) (a : α) : Except FsError (Nat × FdTable α) :=
  match t.slots.findIdx? Option.isNone with
  | some fd => .ok (fd, { t with slots := t.slots.modify fd fun _ => some a })
  | none =>
    if t.slots.size < t.limit then .ok (t.slots.size, { t with slots := t.slots.push (some a) })
    else .error .descriptorsExhausted

/-- The file held under a descriptor. -/
def get (t : FdTable α) (fd : Nat) : Except FsError α :=
  match (t.slots[fd]?).join with
  | some a => .ok a
  | none => .error .invalidDescriptor

/-- Replaces the file held under an open descriptor. -/
def update (t : FdTable α) (fd : Nat) (a : α) : FdTable α :=
  { t with slots := t.slots.modify fd fun s => s.map fun _ => a }

/-- Frees a descriptor, handing back the file it held. -/
def close (t : FdTable α) (fd : Nat) : Except FsError (α × FdTable α) := do
  let a ← t.get fd
  pure (a, { t with slots := t.slots.modify fd fun _ => none })

/-- The held files with their descriptors, in increasing order, counting from `fd`. -/
def held : Nat → List (Option α) → List (Nat × α)
  | _, [] => []
  | fd, none :: rest => held (fd + 1) rest
  | fd, some a :: rest => (fd, a) :: held (fd + 1) rest

/-- Empties every slot, handing back the held files in descriptor order. -/
def takeAll (t : FdTable α) : List (Nat × α) × FdTable α :=
  (held 0 t.slots.toList, { t with slots := t.slots.map fun _ => none })

/-- The number of descriptors held. -/
def used (t : FdTable α) : Nat := t.slots.toList.countP Option.isSome

end FdTable

end KernelFs
