import KernelFs.Proofs.Vfs.FileIo
import KernelFs.Proofs.Arena.Numbers

/-!
# Stale views touch nothing

A node of a memory backend keeps the view it was made with: a slot and an inode number
(`MemfsInode`, src/crates/fs/src/memfs/inode.rs:305-310). Once that number is retired, every action
of the view fails and leaves the whole state as it was, since each store operation checks the number
before anything else and a refusal for a missing inode writes no note. The error is "not found",
except where an argument check comes first: a write whose end passes the machine word finds no
space, and a creation under a bad name is refused for the name. Seen through the node, the inode has
size 0, reads move no bytes, finding a child finds nothing, and a descriptor's write fails.

Results:
* `memoryInode_retired`: every action of a view whose number is retired fails and changes
  nothing.
* `run_length_retired`, `run_read_retired`, `run_find_retired`, `run_write_fd_retired`: the
  node of such a view.
-/

namespace KernelFs.Memory

/-- Whether a store refusal leaves a warning: a refused budget or allocation does. -/
def StoreError.warns : StoreError → Bool
  | .overBudget .. | .refused .. => true
  | _ => false

end KernelFs.Memory

namespace KernelFs.Backend

open Memory Vfs

variable {α : Type} {w : Vfs} {st : Nat} {s : Store}

theorem run_refuse_quiet {e : StoreError} (he : e.warns = false) (w : Vfs) :
    (refuse e : VfsM α).run w = (.error e.toFsError, w) := by
  cases e <;> first | rfl | cases he

/-- A store operation refused without a warning changes nothing at all. -/
theorem run_query_quiet {f : Store → Except StoreError α} {e : StoreError}
    (hw : w.stores[st]? = some s) (hf : f s = .error e) (he : e.warns = false) :
    (query st f).run w = (.error e.toFsError, w) :=
  (run_query_error hw hf).trans (run_refuse_quiet he w)

theorem run_change_quiet {f : Store → Except StoreError (Store × Option Growth)} {e : StoreError}
    (hw : w.stores[st]? = some s) (hf : f s = .error e) (he : e.warns = false) :
    (change st f).run w = (.error e.toFsError, w) := by
  unfold change
  rw [run_bind_error (run_query_quiet hw hf he)]

section Retired

variable {i n : Nat} (hw : w.stores[st]? = some s) (hn : s.Retired n)
include hw hn

/-- Every action of a view whose inode number is retired fails and changes nothing; the error
is "not found" unless a write's end passes the word or a new name is refused. -/
theorem memoryInode_retired (k : NodeType) :
    ((memoryInode st i n k).stat).run w = (.error .notFound, w) ∧
    (∀ off len, ((memoryInode st i n k).readAt off len).run w = (.error .notFound, w)) ∧
    (∀ off b, ((memoryInode st i n k).writeAt off b).run w =
      (.error (if wordSize ≤ off + b.size then .noSpace else .notFound), w)) ∧
    (∀ p, ((memoryInode st i n k).entry p).run w = (.error .notFound, w)) ∧
    (∀ name, ((memoryInode st i n k).lookup name).run w = (.error .notFound, w)) ∧
    (∀ name kind, ((memoryInode st i n k).create name kind).run w =
      (.error (match Store.checkName name with
        | .error e => e.toFsError
        | .ok _ => .notFound), w)) ∧
    (∀ name, ((memoryInode st i n k).unlink name).run w = (.error .notFound, w)) ∧
    (∀ name, ((memoryInode st i n k).rmdir name).run w = (.error .notFound, w)) ∧
    (∀ size, ((memoryInode st i n k).truncate size).run w = (.error .notFound, w)) := by
  refine ⟨run_query_quiet (f := (·.stat i n)) hw (Store.stat_retired hn i) rfl,
    fun off len => run_query_quiet (f := (·.readAt i n off len)) hw
      (Store.readAt_retired hn i off len) rfl,
    fun off b => ?_,
    fun p => run_query_quiet (f := (·.entryAt i n p)) hw (Store.entryAt_retired hn i p) rfl,
    fun name => ?_, fun name kind => ?_, fun name => ?_, fun name => ?_,
    fun size => run_change_quiet (f := (·.resize i n size)) hw (Store.resize_retired hn i size)
      rfl⟩
  · -- the overflow check comes before the view's
    have hc := run_change_quiet (f := (·.writeAt i n off b)) hw (Store.writeAt_retired hn i off b)
      (by split <;> rfl)
    simp only [memoryInode]
    rw [run_bind_error hc]
    split <;> rfl
  · simp only [memoryInode]
    rw [run_bind_error (run_query_quiet hw (Store.lookup_retired hn i name) rfl)]
    rfl
  · -- the name is checked before the view
    have hcreate := Store.create_retired hn i name kind
    simp only [memoryInode]
    cases hname : Store.checkName name with
    | error e =>
      rw [hname] at hcreate
      have he : e.warns = false := by
        unfold Store.checkName at hname
        split at hname
        · cases hname
          rfl
        · split at hname <;> cases hname
          rfl
      rw [run_bind_error (run_query_quiet hw hcreate he)]
    | ok u =>
      rw [hname] at hcreate
      rw [run_bind_error (run_query_quiet hw hcreate rfl)]
      rfl
  · simp only [memoryInode]
    rw [run_bind_error (run_query_quiet hw (Store.unlink_retired hn i name) rfl)]
    rfl
  · simp only [memoryInode]
    rw [run_bind_error (run_query_quiet hw (Store.rmdir_retired hn i name) rfl)]
    rfl

variable {k : NodeType} {nd : Node Handle} (hnd : nd.inode = .memory st i n k)
include hnd

/-- The node of a view whose number is retired has size 0. -/
theorem run_length_retired : nd.length Handle.inode w = (0, w) := by
  have hq := (memoryInode_retired (i := i) hw hn k).1
  unfold Node.length
  simp only [hnd, Handle.inode, bind, StateT.bind]
  rw [hq]
  rfl

/-- A read through the node of a view whose number is retired moves no bytes. -/
theorem run_read_retired (off len : Nat) :
    (nd.read Handle.inode off len).run w = (.ok .empty, w) := by
  unfold Node.read
  by_cases hcap : nd.supports Handle.inode .read = true
  · -- the live size is 0, so every offset is at or past the end
    simp only [hcap, Bool.not_true, Bool.false_eq_true, if_false]
    rw [run_bind_ok (by rw [run_lift, run_length_retired hw hn hnd]), if_pos (Nat.zero_le off)]
    rfl
  · simp only [Bool.not_eq_true] at hcap
    simp only [hcap, Bool.not_false, if_true]
    rfl

/-- Finding a child through the node of a view whose number is retired finds nothing. -/
theorem run_find_retired (name : String) :
    (nd.find Handle.inode name).run w = (.ok none, w) := by
  unfold Node.find
  by_cases hgate : (!nd.isDir || !nd.supports Handle.inode .find) = true
  · rw [if_pos hgate]
    rfl
  · rw [if_neg hgate]
    simp only [Node.attempt, run_bind, run_lift, hnd, Handle.inode]
    rw [(memoryInode_retired (i := i) hw hn k).2.2.2.2.1 name]
    rfl

end Retired

end KernelFs.Backend

namespace KernelFs.Vfs

open Memory Backend

variable {w : Vfs} {st i n : Nat} {s : Store}

/-- A write through a descriptor whose node's view has a retired number fails, and leaves every
store and the journal as they were; an appending descriptor has first moved its cursor to the
node's size, 0. -/
theorem run_write_fd_retired {fd : Nat} {f : OpenFile} (hf : w.files.get fd = .ok f)
    (hwr : f.flags.writable = true) (hw : w.stores[st]? = some s) (hn : s.Retired n)
    (hnd : f.node.inode = .memory st i n .file) (hk : f.node.kind = .file) (b : ByteArray) :
    (write fd b).run w =
      (.error (if wordSize ≤ (if f.flags.appends then 0 else f.cursor) + b.size then .noSpace
        else .notFound),
        { w with files := if f.flags.appends then w.files.update fd { f with cursor := 0 }
          else w.files }) := by
  have hcap : f.node.supports Handle.inode .write = true := by
    rw [supports_memory_file hnd]
    decide
  -- the write of the node at any offset, from any state with the same stores
  have hnode : ∀ (v : Vfs) (off : Nat), v.stores = w.stores →
      (f.node.write Handle.inode off b).run v =
        (.error (if wordSize ≤ off + b.size then .noSpace else .notFound), v) := by
    intro v off hv
    have hq := (memoryInode_retired (i := i) (w := v) (hv ▸ hw) hn .file).2.2.1 off b
    unfold Node.write
    simp only [Node.isDir, hk, hcap, Bool.not_true, Bool.or_false, Node.attempt, hnd,
      Handle.inode]
    rw [if_neg (by decide), run_bind, run_lift, hq]
    by_cases hov : wordSize ≤ off + b.size
    · rw [if_pos hov]
      rfl
    · rw [if_neg hov]
      rfl
  unfold write
  cases happ : f.flags.appends with
  | false =>
    simp only [run_bind, run_fileAt hf, hwr, happ, Bool.not_true, Bool.false_eq_true, if_false,
      run_pure, hnode w f.cursor rfl]
  | true =>
    simp only [run_bind, run_fileAt hf, hwr, happ, Bool.not_true, Bool.false_eq_true, if_false,
      if_true, run_lift, run_length_retired hw hn hnd, run_setFile, run_pure,
      hnode { w with files := w.files.update fd { f with cursor := 0 } } 0 rfl]

end KernelFs.Vfs
