import KernelFs.Backend.Dispatch

/-!
# A missing capability and a refusal

A node asks whether its backend declares a capability before it calls the backend's action for it
(`Node`, src/crates/vfs/src/node.rs:100-234, and `unsupported_as_zero`, line 229). Without the
capability the node answers by itself (`Request.run_of_lacks`, with the answers of `Request.inert`):
reads and writes move nothing, listing and finding see nothing, the open and close hooks do nothing,
and creating, removing and truncating are refused. A backend that declares the capability but
refuses the action as not supported, with no effect (`Inode.refusing`), is met by the same answers,
but for what the node checks between the capability check and the backend call
(`Request.run_refusing_self`, with the checks of `Request.precheck`). A read first asks for the
size, and answers the same; a creation in a directory first refuses a name longer than the limit as
too long, where a node without the capability refuses it as not supported.

Each operation is a `Request` with its arguments, dispatched on one capability; it reads the
backend's capabilities for that capability alone, the backend's action for it and metadata,
and nothing else (`Request.run_congr`).
-/
namespace KernelFs

namespace Caps

/-- The set with one more capability. -/
def insert (c : Caps) (x : Capability) : Caps := ⟨c.mask ||| Nat.pow 2 x.index⟩

theorem index_inj {x y : Capability} (h : x.index = y.index) : x = y := by
  cases x <;> cases y <;> simp_all [Capability.index]

@[simp] theorem has_insert_self (c : Caps) (x : Capability) : (c.insert x).has x = true := by
  simp [has, insert, Nat.testBit_or]

theorem has_insert_of_ne (c : Caps) {x y : Capability} (h : y ≠ x) :
    (c.insert x).has y = c.has y := by
  have hidx : x.index ≠ y.index := fun e => h (index_inj e).symm
  simp [has, insert, Nat.testBit_or, hidx]

end Caps

namespace Inode

variable {m : Type → Type} {h : Type}

/-- The inode declaring one more capability. -/
def declare (b : Inode m h) (x : Capability) : Inode m h := { b with caps := b.caps.insert x }

/-- Two inodes have the same action behind a capability. -/
def AgreeOn (b b' : Inode m h) : Capability → Prop
  | .read => b.readAt = b'.readAt
  | .write => b.writeAt = b'.writeAt
  | .onOpen => b.opened = b'.opened
  | .onClose => b.closed = b'.closed
  | .list => b.entry = b'.entry
  | .find => b.lookup = b'.lookup
  | .create => b.create = b'.create
  | .remove => b.unlink = b'.unlink ∧ b.rmdir = b'.rmdir
  | .truncate => b.truncate = b'.truncate

@[simp] theorem declare_caps (b : Inode m h) (x : Capability) :
    (b.declare x).caps = b.caps.insert x := rfl

@[simp] theorem declare_stat (b : Inode m h) (x : Capability) : (b.declare x).stat = b.stat := rfl

/-- Declaring a capability keeps every action. -/
@[simp] theorem agreeOn_declare (b b' : Inode m h) (x y : Capability) :
    (b.declare x).AgreeOn b' y ↔ b.AgreeOn b' y := by
  cases y <;> rfl

variable [Monad m]

/-- The inode with the action behind a capability refused as not supported, with no effect; the
open and close hooks do nothing. -/
def refuse (b : Inode m h) : Capability → Inode m h
  | .read => { b with readAt := fun _ _ => throw .unsupportedOperation }
  | .write => { b with writeAt := fun _ _ => throw .unsupportedOperation }
  | .onOpen => { b with opened := fun _ => pure () }
  | .onClose => { b with closed := pure () }
  | .list => { b with entry := fun _ => throw .unsupportedOperation }
  | .find => { b with lookup := fun _ => throw .unsupportedOperation }
  | .create => { b with create := fun _ _ => throw .unsupportedOperation }
  | .remove => { b with unlink := fun _ => throw .unsupportedOperation,
                        rmdir := fun _ => throw .unsupportedOperation }
  | .truncate => { b with truncate := fun _ => throw .unsupportedOperation }

@[simp] theorem refuse_caps (b : Inode m h) (x : Capability) : (b.refuse x).caps = b.caps := by
  cases x <;> rfl

@[simp] theorem refuse_stat (b : Inode m h) (x : Capability) : (b.refuse x).stat = b.stat := by
  cases x <;> rfl

/-- Refusing one action keeps every other. -/
theorem refuse_agreeOn (b : Inode m h) {x y : Capability} (hne : y ≠ x) :
    (b.refuse x).AgreeOn b y := by
  cases x <;> cases y <;> simp_all [refuse, AgreeOn]

/-- The backend that declares a capability for every inode and refuses its action as not
supported, with no effect. -/
def refusing (ops : h → Inode m h) (x : Capability) : h → Inode m h :=
  fun i => ((ops i).refuse x).declare x

end Inode

namespace Node

/-- An operation of a node, with its arguments. -/
inductive Request where
  | read (offset len : Nat)
  | write (offset : Nat) (bytes : ByteArray)
  | notifyOpen (flags : OpenFlags)
  | notifyClose
  | entry (i : Nat)
  | find (name : String)
  | create (name : String) (kind : NodeType)
  | unlink (name : String)
  | rmdir (name : String)
  | truncate (size : Nat)

/-- What a node operation answers. -/
inductive Answer (h : Type) where
  | bytes (b : ByteArray)
  | count (n : Nat)
  | done
  | entry (e : Option DirEntry)
  | child (c : Option (Node h))
  | made (c : Node h)

/-- The capability an operation is dispatched on. -/
def Request.capability : Request → Capability
  | .read .. => .read
  | .write .. => .write
  | .notifyOpen _ => .onOpen
  | .notifyClose => .onClose
  | .entry _ => .list
  | .find _ => .find
  | .create .. => .create
  | .unlink _ | .rmdir _ => .remove
  | .truncate _ => .truncate

variable {m : Type → Type} [Monad m] {h : Type}

/-- Runs an operation on a node. -/
def Request.run (ops : h → Inode m h) (n : Node h) : Request → ExceptT FsError m (Answer h)
  | .read offset len => .bytes <$> n.read ops offset len
  | .write offset bytes => .count <$> n.write ops offset bytes
  | .notifyOpen flags => (fun _ => .done) <$> ExceptT.lift (n.notifyOpen ops flags)
  | .notifyClose => (fun _ => .done) <$> ExceptT.lift (n.notifyClose ops)
  | .entry i => .entry <$> n.entry ops i
  | .find name => .child <$> n.find ops name
  | .create name kind => .made <$> n.create ops name kind
  | .unlink name => (fun _ => .done) <$> n.unlink ops name
  | .rmdir name => (fun _ => .done) <$> n.rmdir ops name
  | .truncate size => (fun _ => .done) <$> n.truncate ops size

/-- The node's own answer to an operation whose capability its backend lacks. -/
def Request.inert (n : Node h) : Request → ExceptT FsError m (Answer h)
  | .read .. => pure (.bytes .empty)
  | .write .. => pure (.count 0)
  | .notifyOpen _ | .notifyClose => pure .done
  | .entry _ => pure (.entry none)
  | .find _ => pure (.child none)
  | .create .. | .unlink _ | .rmdir _ =>
    throw (if n.isDir then .unsupportedOperation else .notDirectory)
  | .truncate _ => throw (if n.isDir then .isDirectory else .unsupportedOperation)

/-- What a node does between finding the capability declared and calling the backend: a read
asks for the size, and a creation in a directory refuses a name over the limit. -/
def Request.precheck (ops : h → Inode m h) (n : Node h) : Request → ExceptT FsError m Unit
  | .read .. => (fun _ => ()) <$> ExceptT.lift (n.length ops)
  | .create name _ => if n.isDir && !Path.fits name then throw .componentTooLong else pure ()
  | _ => pure ()

section Congruence

variable {ops ops' : h → Inode m h}

theorem length_congr (hstat : ∀ i, (ops i).stat = (ops' i).stat) (n : Node h) :
    n.length ops = n.length ops' := by
  simp only [length, hstat]

theorem make_congr (hstat : ∀ i, (ops i).stat = (ops' i).stat) (name : String) (i : h) :
    make ops name i = make ops' name i := by
  simp only [make, hstat]

/-- An operation reads the backend's capabilities only for its own capability, its action only
for that capability, and metadata. -/
theorem Request.run_congr {n : Node h} {r : Request}
    (hcap : n.supports ops r.capability = n.supports ops' r.capability)
    (hstat : ∀ i, (ops i).stat = (ops' i).stat)
    (hm : (ops n.inode).AgreeOn (ops' n.inode) r.capability) :
    r.run ops n = r.run ops' n := by
  cases r <;> simp only [capability, Inode.AgreeOn] at hcap hm <;>
    simp only [run, Node.read, Node.write, Node.notifyOpen, Node.notifyClose, Node.entry,
      Node.find, Node.create, Node.unlink, Node.rmdir, requireRemove, Node.truncate, hcap, hm,
      length_congr hstat, make_congr hstat]

end Congruence

section Refusal

variable {ops : h → Inode m h} {n : Node h}

@[simp] theorem supports_refusing_self (x : Capability) :
    n.supports (Inode.refusing ops x) x = true := by
  simp [supports, Inode.refusing]

theorem supports_refusing_of_ne {x y : Capability} (hne : y ≠ x) :
    n.supports (Inode.refusing ops x) y = n.supports ops y := by
  simp [supports, Inode.refusing, Caps.has_insert_of_ne _ hne]

@[simp] theorem length_refusing (x : Capability) :
    n.length (Inode.refusing ops x) = n.length ops :=
  length_congr (fun i => by simp [Inode.refusing]) n

/-- A backend that declares a capability and refuses it is met as before by every operation
on another capability. -/
theorem Request.run_refusing_of_ne {r : Request} {x : Capability} (hne : r.capability ≠ x) :
    r.run (Inode.refusing ops x) n = r.run ops n :=
  run_congr (supports_refusing_of_ne hne) (fun i => by simp [Inode.refusing])
    ((Inode.agreeOn_declare _ _ _ _).mpr (Inode.refuse_agreeOn _ hne))

/-- The checks a node makes before calling the backend pass at once, but on a read and on a
creation of a name over the limit in a directory. -/
theorem Request.precheck_eq_pure {r : Request} (hr : ∀ offset len, r ≠ .read offset len)
    (hc : ∀ name kind, r = .create name kind → n.isDir = false ∨ Path.fits name = true) :
    r.precheck ops n = pure () := by
  cases r with
  | read offset len => exact absurd rfl (hr offset len)
  | create name kind =>
    rcases hc name kind rfl with hd | hf <;> simp [precheck, *]
  | _ => rfl

variable [LawfulMonad m]

/-- Without the capability the node answers by itself and calls nothing of the backend. -/
theorem Request.run_of_lacks {r : Request} (hx : n.supports ops r.capability = false) :
    r.run ops n = r.inert n := by
  cases r <;> simp only [capability] at hx <;> cases hd : n.isDir <;>
    simp [run, inert, Node.read, Node.write, Node.notifyOpen, Node.notifyClose, Node.entry,
      Node.find, Node.create, Node.unlink, Node.rmdir, requireRemove, Node.truncate, hx, hd]

/-- A backend that declares a capability and refuses it is met, on an operation of that
capability, by the node's own answer after the checks the node makes before the call. -/
theorem Request.run_refusing_self {r : Request} :
    r.run (Inode.refusing ops r.capability) n = r.precheck ops n >>= fun _ => r.inert n := by
  cases r with
  | create name kind =>
    -- the length check stands between the capability check and the backend's refusal
    cases hd : n.isDir <;> cases hf : Path.fits name <;>
      simp [run, precheck, inert, capability, Node.create, Inode.refusing, Inode.refuse,
        Inode.declare, hd, hf]
  | _ =>
    cases hd : n.isDir <;>
      simp [run, precheck, inert, capability, Node.read, Node.write, Node.notifyOpen,
        Node.notifyClose, Node.entry, Node.find, Node.unlink, Node.rmdir, requireRemove,
        Node.truncate, attempt, Inode.refusing, Inode.refuse, Inode.declare, hd]

end Refusal

section Kind

variable {ops : h → Inode m h} {n : Node h}

theorem write_of_isDir (hd : n.isDir = true) (offset : Nat) (bytes : ByteArray) :
    n.write ops offset bytes = pure 0 := by
  simp [Node.write, hd]

theorem find_of_not_isDir (hd : n.isDir = false) (name : String) :
    n.find ops name = pure none := by
  simp [Node.find, hd]

variable [LawfulMonad m]

theorem truncate_of_isDir (hd : n.isDir = true) (size : Nat) :
    n.truncate ops size = throw .isDirectory := by
  simp [Node.truncate, hd]

theorem create_of_not_isDir (hd : n.isDir = false) (name : String) (kind : NodeType) :
    n.create ops name kind = throw .notDirectory := by
  simp [Node.create, hd]

theorem requireRemove_of_not_isDir (hd : n.isDir = false) :
    n.requireRemove ops = throw .notDirectory := by
  simp [requireRemove, hd]

end Kind

section MissingCapability

variable [LawfulMonad m]

/-- A node over a backend without a capability never calls the backend's action for it, and
answers as a node over the backend that declares the capability and refuses the action, but for
the checks the node makes between the capability check and the call.

Without the capability a read or a write moves nothing, listing and finding see nothing, the
hooks do nothing, creating and removing are refused as not supported in a directory and as not
a directory elsewhere, and truncating is refused as not supported, or as a directory; the
backend's action for the capability, on any inode, can be replaced by any other without changing
an operation of the node. With the capability declared and refused, every operation on another
capability runs as before, and one on the capability makes the node's checks and then answers
as without it: the same answer unless it is a read, which first asks for the size, or a creation
in a directory of a name over the limit, which is refused as too long. Whatever the backend, a
directory takes no write and refuses truncation, and a node that is no directory finds nothing
and refuses creation and removal. -/
theorem missing_capability_answers_as_refusal (ops : h → Inode m h) (n : Node h)
    (x : Capability) (hx : n.supports ops x = false) :
    (∀ r : Request, r.capability = x → r.run ops n = r.inert n) ∧
    (∀ ops' : h → Inode m h, (ops' n.inode).caps = (ops n.inode).caps →
      (∀ i, (ops' i).stat = (ops i).stat) →
      (∀ y, y ≠ x → (ops' n.inode).AgreeOn (ops n.inode) y) →
      ∀ r : Request, r.run ops' n = r.run ops n) ∧
    (∀ r : Request, r.capability ≠ x → r.run (Inode.refusing ops x) n = r.run ops n) ∧
    (∀ r : Request, r.capability = x →
      r.run (Inode.refusing ops x) n = r.precheck ops n >>= fun _ => r.run ops n) ∧
    (∀ r : Request, r.capability = x → (∀ offset len, r ≠ .read offset len) →
      (∀ name kind, r = .create name kind → n.isDir = false ∨ Path.fits name = true) →
      r.run (Inode.refusing ops x) n = r.run ops n) ∧
    (n.isDir = true → ∀ (ops' : h → Inode m h) offset bytes size,
      n.write ops' offset bytes = pure 0 ∧ n.truncate ops' size = throw .isDirectory) ∧
    (n.isDir = false → ∀ (ops' : h → Inode m h) name kind,
      n.find ops' name = pure none ∧ n.create ops' name kind = throw .notDirectory ∧
      n.unlink ops' name = throw .notDirectory ∧ n.rmdir ops' name = throw .notDirectory) := by
  have hlacks : ∀ r : Request, r.capability = x → r.run ops n = r.inert n := by
    rintro r rfl
    exact Request.run_of_lacks hx
  have hrefusing : ∀ r : Request, r.capability = x →
      r.run (Inode.refusing ops x) n = r.precheck ops n >>= fun _ => r.run ops n := by
    rintro r rfl
    rw [Request.run_refusing_self, hlacks r rfl]
  refine ⟨hlacks, ?_, fun r hr => Request.run_refusing_of_ne hr, hrefusing, ?_, ?_, ?_⟩
  · intro ops' hcaps hstat hagree r
    by_cases hr : r.capability = x
    · -- on the missing capability neither backend is called
      have hx' : n.supports ops' r.capability = false := by
        rw [hr, ← hx]
        simp only [supports, hcaps]
      rw [Request.run_of_lacks hx', hlacks r hr]
    · exact Request.run_congr (by simp only [supports, hcaps]) hstat (hagree _ hr)
  · intro r hr hread hcreate
    rw [hrefusing r hr, Request.precheck_eq_pure hread hcreate, pure_bind]
  · intro hd ops' offset bytes size
    exact ⟨write_of_isDir hd offset bytes, truncate_of_isDir hd size⟩
  · intro hd ops' name kind
    refine ⟨find_of_not_isDir hd name, create_of_not_isDir hd name kind, ?_, ?_⟩
    · simp [Node.unlink, requireRemove_of_not_isDir hd]
    · simp [Node.rmdir, requireRemove_of_not_isDir hd]

/-- The sample root declares no creation. Over the backend that declares creation and refuses
it, the root refuses a short name as not supported, as it does itself. -/
theorem sample_root_refuses_short_create :
    (⟨"/", 1, .directory, 0o555, 1000, 100, .sample .root⟩ : Node Handle).supports Handle.inode
        .create = false ∧
    (Request.create "n" .file).run (Inode.refusing Handle.inode .create)
        ⟨"/", 1, .directory, 0o555, 1000, 100, .sample .root⟩ =
      (Request.create "n" .file).run Handle.inode
        ⟨"/", 1, .directory, 0o555, 1000, 100, .sample .root⟩ := by
  obtain ⟨-, -, -, -, hsame, -, -⟩ := missing_capability_answers_as_refusal Handle.inode
    ⟨"/", 1, .directory, 0o555, 1000, 100, .sample .root⟩ .create (by decide)
  refine ⟨by decide, hsame _ rfl (fun _ _ h => nomatch h) ?_⟩
  rintro name kind ⟨⟩
  exact Or.inr (by decide)

/-- A name over the limit is refused as not supported at the sample root, which declares no
creation, and as too long over the backend that declares creation and refuses it. -/
theorem long_name_create_differs :
    (Request.create (String.ofList (List.replicate 256 'a')) .file).run Handle.inode
        ⟨"/", 1, .directory, 0o555, 1000, 100, .sample .root⟩ = throw .unsupportedOperation ∧
    (Request.create (String.ofList (List.replicate 256 'a')) .file).run
        (Inode.refusing Handle.inode .create)
        ⟨"/", 1, .directory, 0o555, 1000, 100, .sample .root⟩ = throw .componentTooLong := by
  have hlong : Path.fits (String.ofList (List.replicate 256 'a')) = false := by decide +kernel
  have hx : (⟨"/", 1, .directory, 0o555, 1000, 100, .sample .root⟩ : Node Handle).supports
      Handle.inode .create = false := by decide
  generalize String.ofList (List.replicate 256 'a') = name at hlong ⊢
  refine ⟨Request.run_of_lacks hx, (Request.run_refusing_self (r := .create _ .file)).trans ?_⟩
  simp [Request.precheck, Request.inert, Node.isDir, hlong]

end MissingCapability

end Node

end KernelFs
