import KernelFs.Error
import KernelFs.Path
import KernelFs.Node.Kind
import KernelFs.Memory.Content

/-!
# Memory stores

The inode table of the memory file system (src/crates/fs/src/memfs/inode.rs, `InodeTable`). A memory
store keeps a tree of files and directories in an arena of slots. Slot 0 holds the root directory,
inode 1. A live slot holds a record: the inode number, the name, the slot of the parent, the slot of
the next sibling, and the body, which is a file's content or the slot of a directory's oldest child.
The children of a directory thus form a chain through the sibling links, oldest first: a new child
is linked after the last one (`insert`, inode.rs:166-208), and a removal links its neighbours around
it (`remove`, inode.rs:211-246).

A removed slot goes onto the free list, and the next creation takes the most recently freed
slot before it grows the arena (`alloc_slot`, inode.rs:155-163). Inode numbers are never given
out twice: every creation takes `nextIno`, which only grows. A view of an inode names its slot
and its number, and every access through a view first checks that the slot still holds that
number.

The bytes in use and the number of live inodes are counters kept beside the slots. With a
nonzero budget growth may not take the bytes in use past it, and the count must stay within the
machine word (`charge`, inode.rs:249-262). Growth then asks the heap, which a store sees as an
`Allocator`: it may refuse a file's buffer (`resize_file`, inode.rs:275-300, whose exact
reservation gives the charge back) or one more slot for the arena (inode.rs:160), and it refuses
every buffer past `maxBuffer`, the largest signed word, as every growable buffer does. Every
refusal happens before the store changes, so a refused operation hands back no store.

The inode counter and the live count are words in the source; they are natural numbers here,
since reaching the end of a word would take 2^64 creations. The bytes in use are checked
against the word.

A chain is followed one link at a time, for at most as many links as there are slots: a chain
that ends and never meets a slot twice is no longer than that.
-/
namespace KernelFs.Memory

/-- What a record of a memory store holds. -/
inductive Body where
  | file (data : ByteArray)
  /-- A directory and the slot of its oldest child. -/
  | dir (first : Option Nat)
  deriving Inhabited

/-- A live inode: its number, its name in its parent, the slots of its parent and of its next
sibling, and what it holds. -/
structure Record where
  ino : Nat
  name : String
  parent : Option Nat
  next : Option Nat
  body : Body
  deriving Inhabited

namespace Record

/-- The kind of a record. -/
def kind (r : Record) : NodeType :=
  match r.body with
  | .file _ => .file
  | .dir _ => .directory

/-- The content size of a record; directories have none. -/
def size (r : Record) : Nat :=
  match r.body with
  | .file d => d.size
  | .dir _ => 0

/-- Files are readable by all and writable by the owner (0o644); directories are also
searchable by all (0o755). -/
def mode (r : Record) : Nat :=
  match r.body with
  | .file _ => 0o644
  | .dir _ => 0o755

/-- The metadata of a record; everything belongs to user 0. -/
def stat (r : Record) : Meta :=
  { ino := r.ino, kind := r.kind, mode := r.mode, uid := 0, gid := 0, size := r.size }

/-- The record with its oldest child replaced, if it is a directory. -/
def withFirst (r : Record) (first : Option Nat) : Record :=
  match r.body with
  | .dir _ => { r with body := .dir first }
  | .file _ => r

end Record

/-- Why a memory store refused an operation. -/
inductive StoreError where
  /-- No live inode of that number in the slot, or no child of that name. -/
  | missing
  | notDirectory
  | isDirectory
  /-- The directory already has a child of that name. -/
  | taken
  /-- Only files and directories can be created. -/
  | badKind
  | notEmpty
  /-- A name is empty or holds a slash. -/
  | badName
  | longName
  /-- The record to remove has no parent: it is the root. -/
  | orphan
  /-- An offset or the bytes in use would leave the machine word. -/
  | overflow
  /-- Growing by `extra` bytes would take the bytes in use past the budget. -/
  | overBudget (used budget extra : Nat)
  /-- The allocator refused a buffer of `target` bytes for inode `ino`. -/
  | refused (target ino : Nat)
  /-- The allocator refused the arena one more slot. -/
  | noSlot
  deriving DecidableEq, Repr

/-- The file system error a store refusal is reported as. -/
def StoreError.toFsError : StoreError → FsError
  | .missing => .notFound
  | .notDirectory => .notDirectory
  | .isDirectory => .isDirectory
  | .taken => .alreadyExists
  | .badKind => .unsupportedOperation
  | .notEmpty => .directoryNotEmpty
  | .badName | .orphan => .invalidArgument
  | .longName => .componentTooLong
  | .overflow | .overBudget .. | .refused .. | .noSlot => .noSpace

/-- Offsets and byte counts are machine words: they stay below this bound. -/
def wordSize : Nat := Nat.pow 2 64

/-- The largest buffer the allocator may grant: the largest signed word, 2^63 - 1 bytes. -/
def maxBuffer : Nat := Nat.pow 2 63 - 1

/-- The heap as a memory store sees it. It may refuse any request; it never grants a buffer past
`maxBuffer` bytes. -/
structure Allocator where
  /-- Whether a file's buffer may grow to `n` bytes. -/
  grants : Nat → Bool
  /-- Whether an arena of `n` slots may take one more. -/
  addsSlot : Nat → Bool
  grants_le : ∀ n, grants n = true → n ≤ maxBuffer

/-- The heap of the machine the file system runs on, which grants every buffer below 2^62
bytes and every slot. -/
def Allocator.host : Allocator where
  grants n := decide (n < Nat.pow 2 62)
  addsSlot _ := true
  grants_le n h := by
    have hn : n < Nat.pow 2 62 := of_decide_eq_true h
    have hlim : Nat.pow 2 62 ≤ maxBuffer := by decide
    omega

instance : Inhabited Allocator := ⟨.host⟩

/-- A file that grew, with its sizes before and after. -/
structure Growth where
  ino : Nat
  old : Nat
  new : Nat
  deriving DecidableEq, Repr

/-- A memory store: an arena of slots, its free list, the next inode number, the live count,
the bytes in use, a byte budget (0 for none) and the heap it grows from. -/
structure Store where
  slots : Array (Option Record)
  /-- The freed slots, most recently freed first. -/
  free : List Nat
  nextIno : Nat
  live : Nat
  used : Nat
  budget : Nat
  heap : Allocator
  deriving Inhabited

namespace Store

/-- The slot of the root directory. -/
def rootIndex : Nat := 0

/-- A store holding only an empty root directory named `/`, inode 1. -/
def empty (heap : Allocator) (budget : Nat) : Store :=
  { slots := #[some ⟨1, "/", none, none, .dir none⟩], free := [], nextIno := 2, live := 1,
    used := 0, budget, heap }

/-- The record a slot holds. -/
def slot (s : Store) (i : Nat) : Option Record := (s.slots[i]?).join

/-- Replaces what a slot holds. -/
def setSlot (s : Store) (i : Nat) (o : Option Record) : Store :=
  { s with slots := s.slots.setIfInBounds i o }

/-- Changes the record a slot holds, if it holds one. -/
def modifySlot (s : Store) (i : Nat) (f : Record → Record) : Store :=
  { s with slots := s.slots.modify i (Option.map f) }

/-- Where the sibling link of a slot leads. -/
def after (s : Store) (i : Nat) : Option Nat := (s.slot i).bind (·.next)

/-- The slots met following sibling links from `start`, for at most `fuel` links. -/
def walk (s : Store) : Nat → Option Nat → List Nat
  | 0, _ => []
  | _ + 1, none => []
  | fuel + 1, some i => i :: s.walk fuel (s.after i)

/-- The chain of slots from `start`, followed for at most one link per slot. -/
def chain (s : Store) (start : Option Nat) : List Nat := s.walk s.slots.size start

/-- The inode number of the root. -/
def rootIno (s : Store) : Except StoreError Nat :=
  match s.slot rootIndex with
  | some r => .ok r.ino
  | none => .error .missing

/-- The record of a view: the slot must still hold the view's inode number. -/
def get (s : Store) (i ino : Nat) : Except StoreError Record :=
  match s.slot i with
  | some r => if r.ino = ino then .ok r else .error .missing
  | none => .error .missing

/-- The metadata of the inode a view names. -/
def stat (s : Store) (i ino : Nat) : Except StoreError Meta := do
  pure (← s.get i ino).stat

/-- The chain of children of a directory record. -/
def children (s : Store) (r : Record) : Except StoreError (List Nat) :=
  match r.body with
  | .dir first => .ok (s.chain first)
  | .file _ => .error .notDirectory

/-- Whether a slot holds a record of the given name. -/
def named (s : Store) (name : String) (i : Nat) : Bool := (s.slot i).any (·.name == name)

/-- The first child of a directory record with the given name. -/
def findChild (s : Store) (r : Record) (name : String) : Except StoreError (Option Nat) := do
  pure ((← s.children r).find? (s.named name))

/-- Places a record in the most recently freed slot, or in a new slot when none is free. -/
def place (s : Store) (r : Record) : Store × Nat :=
  match s.free with
  | i :: rest => ({ s.setSlot i (some r) with free := rest }, i)
  | [] => ({ s with slots := s.slots.push (some r) }, s.slots.size)

/-- Places a record; a new slot, needed when none is free, must first be granted by the heap. -/
def allocSlot (s : Store) (r : Record) : Except StoreError (Store × Nat) :=
  if s.free = [] ∧ s.heap.addsSlot s.slots.size = false then .error .noSlot
  else .ok (s.place r)

/-- The empty body of a new inode of the given kind. -/
def freshBody : NodeType → Except StoreError Body
  | .file => .ok (.file .empty)
  | .directory => .ok (.dir none)
  | _ => .error .badKind

/-- Links slot `i` after `tail`, or makes it the oldest child of `dir` when there is no tail. -/
def linkAfter (s : Store) (dir : Nat) (tail : Option Nat) (i : Nat) : Store :=
  match tail with
  | some last => s.modifySlot last ({ · with next := some i })
  | none => s.modifySlot dir (·.withFirst (some i))

/-- The store with one more live inode and the next inode number handed out. -/
def counted (s : Store) : Store := { s with nextIno := s.nextIno + 1, live := s.live + 1 }

/-- Adds a child to the directory a view names, linked after its youngest child, under the
next inode number; answers the child's slot and number. -/
def insert (s : Store) (dir dirIno : Nat) (name : String) (kind : NodeType) :
    Except StoreError (Store × Nat × Nat) := do
  let r ← s.get dir dirIno
  if (← s.findChild r name).isSome then throw .taken
  let tail := (← s.children r).getLast?
  let body ← freshBody kind
  let ino := s.nextIno
  let (t, i) ← s.allocSlot ⟨ino, name, some dir, none, body⟩
  -- the new record went to a free or a new slot, so the directory's slot is as it was
  pure (t.counted.linkAfter dir tail i, i, ino)

/-- A name for a new entry is non-empty, holds no slash and fits the name limit. -/
def checkName (name : String) : Except StoreError Unit :=
  if name.isEmpty || name.contains '/' then .error .badName
  else if !Path.fits name then .error .longName
  else .ok ()

/-- Checks the name, then adds the child. -/
def create (s : Store) (dir dirIno : Nat) (name : String) (kind : NodeType) :
    Except StoreError (Store × Nat × Nat) := do
  checkName name
  s.insert dir dirIno name kind

/-- The oldest child of the directory in a slot. -/
def firstChild (s : Store) (p : Nat) : Except StoreError (Option Nat) :=
  match s.slot p with
  | some r =>
    match r.body with
    | .dir first => .ok first
    | .file _ => .error .notDirectory
  | none => .error .missing

/-- Empties a slot that held `size` bytes and puts it on the free list. -/
def release (s : Store) (i size : Nat) : Store :=
  { s.setSlot i none with free := i :: s.free, live := s.live - 1, used := s.used - size }

/-- Unlinks a slot from its parent's chain and frees it. -/
def remove (s : Store) (i : Nat) : Except StoreError Store := do
  let some r := s.slot i | throw .missing
  let some p := r.parent | throw .orphan
  let head ← s.firstChild p
  let t ← if head = some i then pure (s.modifySlot p (·.withFirst r.next))
    else match (s.chain head).find? (fun j => s.after j == some i) with
      | some prev => pure (s.modifySlot prev ({ · with next := r.next }))
      | none => throw .missing
  pure (t.release i r.size)

/-- The slot of the child with the given name in the directory a view names. -/
def locate (s : Store) (i ino : Nat) (name : String) : Except StoreError Nat := do
  let r ← s.get i ino
  match ← s.findChild r name with
  | some c => pure c
  | none => throw .missing

/-- The child with the given name: its slot, inode number and kind. -/
def lookup (s : Store) (i ino : Nat) (name : String) : Except StoreError (Nat × Nat × NodeType) := do
  let c ← s.locate i ino name
  match s.slot c with
  | some r => pure (c, r.ino, r.kind)
  | none => throw .missing

/-- The entry at a position of the listing of the directory a view names. -/
def entryAt (s : Store) (i ino n : Nat) : Except StoreError (Option DirEntry) := do
  let cs ← s.children (← s.get i ino)
  pure ((cs[n]?.bind s.slot).map fun c => ⟨c.ino, c.name⟩)

/-- Removes a child that is not a directory. -/
def unlink (s : Store) (i ino : Nat) (name : String) : Except StoreError Store := do
  let c ← s.locate i ino name
  match s.slot c with
  | some ⟨_, _, _, _, .dir _⟩ => throw .isDirectory
  | _ => s.remove c

/-- Removes an empty child directory. -/
def rmdir (s : Store) (i ino : Nat) (name : String) : Except StoreError Store := do
  let c ← s.locate i ino name
  match s.slot c with
  | some ⟨_, _, _, _, .dir none⟩ => s.remove c
  | some ⟨_, _, _, _, .dir (some _)⟩ => throw .notEmpty
  | _ => throw .notDirectory

/-- The content of the file a view names. -/
def fileData (s : Store) (i ino : Nat) : Except StoreError ByteArray := do
  match (← s.get i ino).body with
  | .file d => pure d
  | .dir _ => throw .isDirectory

/-- Replaces the content of the file in a slot. -/
def setData (s : Store) (i : Nat) (d : ByteArray) : Store :=
  s.modifySlot i ({ · with body := .file d })

/-- Adds `extra` bytes to the bytes in use, within the word and the budget; the refusal says
why not. -/
def charge (s : Store) (extra : Nat) : Except StoreError Store :=
  let used := s.used + extra
  if wordSize ≤ used then .error .overflow
  else if s.budget ≠ 0 ∧ s.budget < used then .error (.overBudget s.used s.budget extra)
  else .ok { s with used }

/-- Sets the size of the file a view names: a smaller size cuts the content, a larger one
appends zero bytes, charged to the budget and granted by the allocator. -/
def resize (s : Store) (i ino n : Nat) : Except StoreError (Store × Option Growth) := do
  let d ← s.fileData i ino
  if n ≤ d.size then
    return ({ s.setData i (cut d n) with used := s.used - (d.size - n) }, none)
  let charged ← s.charge (n - d.size)
  -- a refused allocation gives the charge back: the store stays as it was
  if s.heap.grants n = false then throw (.refused n ino)
  pure (charged.setData i (grow d n), some ⟨ino, d.size, n⟩)

/-- Writes bytes at an offset of the file a view names, first growing it to reach the end of
the write. -/
def writeAt (s : Store) (i ino offset : Nat) (b : ByteArray) :
    Except StoreError (Store × Option Growth) := do
  let stop := offset + b.size
  if wordSize ≤ stop then throw .overflow
  let d ← s.fileData i ino
  let (s, g) ← if d.size < stop then s.resize i ino stop else pure (s, none)
  let d ← s.fileData i ino
  pure (s.setData i (splice d offset b), g)

/-- Reads at most `len` bytes at an offset of the file a view names; nothing at or past the
end. -/
def readAt (s : Store) (i ino offset len : Nat) : Except StoreError ByteArray := do
  let d ← s.fileData i ino
  if d.size ≤ offset then return .empty
  pure (slice d offset len)

end Store

end KernelFs.Memory
