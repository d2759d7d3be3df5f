import KernelFs.Backend.Dispatch

/-!
# Running actions

An action of the virtual file system is an exception monad over a state monad: run on a state it
answers a result or an error, and the state it leaves. These lemmas run the building blocks one at a
time, so that a proof about an action follows its `do` block step by step. The memory backend's
actions (src/crates/fs/src/memfs/inode.rs:348-466) read a store, run a pure store operation on it
and write the result back; `run_query_ok` and `run_query_error` say what a read does, and
`run_putStore` what a write does.

Results:
* `run_bind`: a bind runs its first action and, on success, its continuation in the state the
  first action left.
* `run_query_ok`, `run_query_error`: a store operation that succeeds changes nothing; one that
  fails changes only the journal.
-/

namespace KernelFs.Vfs

variable {α β : Type}

@[simp] theorem run_pure (a : α) (w : Vfs) : (pure a : VfsM α).run w = (.ok a, w) := rfl

@[simp] theorem run_throw (e : FsError) (w : Vfs) : (throw e : VfsM α).run w = (.error e, w) := rfl

@[simp] theorem run_get (w : Vfs) : (get : VfsM Vfs).run w = (.ok w, w) := rfl

@[simp] theorem run_modify (f : Vfs → Vfs) (w : Vfs) :
    (modify f : VfsM PUnit).run w = (.ok ⟨⟩, f w) := rfl

@[simp] theorem run_ofExcept (r : Except FsError α) (w : Vfs) : (ofExcept r).run w = (r, w) := rfl

@[simp] theorem run_lift (x : StateM Vfs α) (w : Vfs) :
    (ExceptT.lift x : VfsM α).run w = (.ok (x w).1, (x w).2) := rfl

theorem run_bind (x : VfsM α) (f : α → VfsM β) (w : Vfs) :
    (x >>= f).run w = match x.run w with
      | (.ok a, w') => (f a).run w'
      | (.error e, w') => (.error e, w') := by
  rw [ExceptT.run_bind]
  rcases h : x.run w with ⟨a | a, w'⟩
  · simp only [bind, StateT.bind, h]
    rfl
  · simp only [bind, StateT.bind, h]

theorem run_bind_ok {x : VfsM α} {w w' : Vfs} {a : α} (h : x.run w = (.ok a, w')) (f : α → VfsM β) :
    (x >>= f).run w = (f a).run w' := by
  rw [run_bind, h]

theorem run_bind_error {x : VfsM α} {w w' : Vfs} {e : FsError} (h : x.run w = (.error e, w')) (f : α → VfsM β) :
    (x >>= f).run w = (.error e, w') := by
  rw [run_bind, h]

end KernelFs.Vfs

namespace KernelFs.Backend

open Memory Vfs

variable {α : Type} {w : Vfs} {i : Nat} {s : Store}

theorem run_storeAt (h : w.stores[i]? = some s) : (storeAt i).run w = (.ok s, w) := by
  simp [storeAt, run_bind, h]

theorem run_putStore (s : Store) :
    (putStore i s).run w = (.ok ⟨⟩, { w with stores := w.stores.modify i fun _ => s }) := rfl

/-- A refusal changes nothing but the journal, where it may leave a warning. -/
theorem run_refuse (e : StoreError) (w : Vfs) :
    ∃ journal, (refuse e : VfsM α).run w = (.error e.toFsError, { w with journal }) := by
  cases e with
  | overBudget used budget extra => exact ⟨_, rfl⟩
  | refused target ino => exact ⟨_, rfl⟩
  | _ => exact ⟨w.journal, rfl⟩

theorem run_query_ok {f : Store → Except StoreError α} {a : α} (h : w.stores[i]? = some s)
    (hf : f s = .ok a) : (query i f).run w = (.ok a, w) := by
  simp [query, run_bind, run_storeAt h, hf]

theorem run_query_error {f : Store → Except StoreError α} {e : StoreError}
    (h : w.stores[i]? = some s) (hf : f s = .error e) :
    (query i f).run w = (refuse e : VfsM α).run w := by
  simp [query, run_bind, run_storeAt h, hf]

end KernelFs.Backend
