import KernelFs.Proofs.Vfs.Lineage
import KernelFs.Proofs.Vfs.Parent
import KernelFs.Proofs.Vfs.MemoryRoot

/-!
# Directories through their paths

Making a directory, unlinking a file and removing a directory by path (`Vfs::mkdir`, `Vfs::unlink`,
`Vfs::rmdir`, src/crates/vfs/src/vfs.rs:154-177) resolve the parent of the path (`resolve_parent`,
src/crates/vfs/src/path.rs:70) and act on the leaf through the parent's node (`Node::create`,
`Node::unlink`, `Node::rmdir`, src/crates/vfs/src/node.rs:181-223). When the parent is a view of a
memory directory, that is the store's own creation or removal of the leaf in the directory the view
names (`MemfsInode::create`, `unlink`, `rmdir`, src/crates/fs/src/memfs/inode.rs:431-460): the store
it gives is written back, and a refusal is reported as its error and changes nothing but the notes.
The node's checks ask nothing the store does not: the view is a directory that can create and
remove, and the leaf of a split path fits the name limit.

Results:
* `run_unlink_path`, `run_rmdir_path`, `run_mkdir_path`: each call by path is the store's
  operation on the leaf, in the state the parent was found in.
* `listing_follows_creation_order`: listings follow creation order and agree with lookup in every
  store of every reachable state, and so do the calls by path.
-/

namespace KernelFs.Vfs

open Memory Backend Relation

variable {config : Config} {w w1 : Vfs} {path name : String} {p : Node Handle} {st d n : Nat}
  {s : Store}

/-! ## The node of a memory directory -/

/-- A memory backend's removal: the store its operation gives is written back, and a refusal
changes nothing but the notes. -/
theorem run_remove_memory_eq {f : Store → Except StoreError Store} (hs : w.stores[st]? = some s) :
    ∃ journal, (do putStore st (← query st f) : VfsM Unit).run w = match f s with
      | .ok t => (.ok (), { w with stores := w.stores.modify st fun _ => t })
      | .error e => (.error e.toFsError, { w with journal }) := by
  rw [run_query_bind, hs]
  dsimp only
  cases f s with
  | ok t => exact ⟨w.journal, run_putStore t⟩
  | error e => exact run_refuse e w

section MemoryDir

variable (hp : p.inode = .memory st d n .directory) (hk : p.kind = .directory)
include hp hk

/-- A view of a memory directory passes the checks before a removal. -/
theorem run_requireRemove_memoryDir (w : Vfs) :
    (p.requireRemove Handle.inode).run w = (.ok (), w) := by
  have hcaps : p.supports Handle.inode .remove = true := by
    rw [supports_memory_dir hp]
    decide
  simp [Node.requireRemove, Node.isDir, hk, hcaps]

theorem run_unlink_memoryDir (hs : w.stores[st]? = some s) (name : String) :
    ∃ journal, (p.unlink Handle.inode name).run w = match s.unlink d n name with
      | .ok t => (.ok (), { w with stores := w.stores.modify st fun _ => t })
      | .error e => (.error e.toFsError, { w with journal }) := by
  unfold Node.unlink
  rw [run_bind_ok (run_requireRemove_memoryDir hp hk w), hp]
  exact run_remove_memory_eq hs

theorem run_rmdir_memoryDir (hs : w.stores[st]? = some s) (name : String) :
    ∃ journal, (p.rmdir Handle.inode name).run w = match s.rmdir d n name with
      | .ok t => (.ok (), { w with stores := w.stores.modify st fun _ => t })
      | .error e => (.error e.toFsError, { w with journal }) := by
  unfold Node.rmdir
  rw [run_bind_ok (run_requireRemove_memoryDir hp hk w), hp]
  exact run_remove_memory_eq hs

/-- A creation through a view of a memory directory, of a name that fits, is the store's: the
store it gives is written back and the new child's node answered, or its refusal reported. -/
theorem run_create_memoryDir (hs : w.stores[st]? = some s) (hv : s.Valid)
    (hfit : Path.fits name = true) (kind : NodeType) :
    match s.create d n name kind with
    | .ok (t, c, cino) => ∃ journal nd, (p.create Handle.inode name kind).run w =
        (.ok nd, { w with stores := w.stores.modify st fun _ => t, journal }) ∧
        nd.inode = .memory st c cino kind
    | .error e => ∃ journal, (p.create Handle.inode name kind).run w =
        (.error e.toFsError, { w with journal }) := by
  have hcaps : p.supports Handle.inode .create = true := by
    rw [supports_memory_dir hp]
    decide
  unfold Node.create
  simp only [Node.isDir, hk, hcaps, hfit, Bool.not_true, Bool.false_eq_true, if_false,
    throw_bind]
  simp only [beq_self_eq_true, Bool.not_true, Bool.false_eq_true, if_false]
  rw [hp]
  simp only [Handle.inode, memoryInode, bind_assoc]
  rw [run_query_bind, hs]
  dsimp only
  cases hf : s.create d n name kind with
  | error e =>
    obtain ⟨journal, hj⟩ := run_refuse (α := Node Handle) e w
    exact ⟨journal, hj⟩
  | ok r =>
    obtain ⟨t, c, cino⟩ := r
    -- the new slot holds the new record, so its view can be made
    obtain ⟨-, hins⟩ := Store.create_eq_ok hf
    obtain ⟨body, hbody, -, hslot⟩ := Store.slot_insert_self hv hins
    have hkind : (⟨cino, name, some d, none, body⟩ : Record).kind = kind := by
      cases kind <;> simp only [Store.freshBody] at hbody <;> cases hbody <;> rfl
    have hmake : ∀ journal : Array Note, (Node.make Handle.inode name (.memory st c cino kind)).run
        { w with stores := w.stores.modify st (fun _ => t), journal } =
        (.ok (memoryNode st name c ⟨cino, name, some d, none, body⟩),
          { w with stores := w.stores.modify st (fun _ => t), journal }) := by
      intro journal
      have hst : ({ w with stores := w.stores.modify st (fun _ => t), journal } : Vfs).stores[st]? =
          some t := by
        simp [Array.getElem?_modify, hs]
      have h := run_make_memory hst hfit hslot
      rw [hkind] at h
      exact h
    simp only [run_bind, run_putStore, run_liftM, run_note, run_pure]
    exact ⟨_, _, hmake _, congrArg (Handle.memory st c cino) hkind⟩

end MemoryDir

/-! ## Calls by path -/

section Path

variable (hpar : (root >>= fun r => resolveParent r path).run w = (.ok (p, name), w1))
include hpar

/-- Once the parent of a path is found, a call on the leaf runs in the state it was found in. -/
theorem run_after_parent {β : Type} (act : Node Handle × String → VfsM β) :
    (root >>= fun r => resolveParent r path >>= act).run w = (act (p, name)).run w1 := by
  rw [← bind_assoc, run_bind_ok hpar]

/-- The leaf of a path whose parent is found fits the name limit: the split checked it. -/
theorem fits_of_parent : Path.fits name = true := by
  rw [run_bind] at hpar
  rcases hr : root.run w with ⟨_ | r, w0⟩ <;> rw [hr] at hpar
  · cases hpar
  dsimp only at hpar
  cases hs : Path.splitPath path with
  | error e => rw [resolveParent_of_error hs] at hpar; cases hpar
  | ok dl =>
    obtain ⟨dir, leaf⟩ := dl
    obtain ⟨names, hc, hl, hfit, rfl⟩ := Path.splitPath_eq_ok_iff.mp hs
    rw [resolveParent_eq_walk hc hl hfit, run_bind] at hpar
    rcases hw : (walk OpenFlags.readOnly r names.dropLast).run w0 with ⟨_ | q, w2⟩ <;>
      rw [hw] at hpar
    · cases hpar
    dsimp only at hpar
    split at hpar
    · cases hpar
    · simp only [run_pure] at hpar
      obtain ⟨⟨-, rfl⟩, -⟩ := hpar
      exact (Path.fits_iff name).mpr hfit

/-- Finding the parent of a path changes no store. -/
theorem stores_of_parent : w1.stores = w.stores := by
  have h : Noted w w1 := by
    have h := (inert_root.bind fun r => inert_resolveParent r path) w
    rwa [hpar] at h
  rw [h]

/-- A removal by path is the removal on the leaf, followed by a note. -/
theorem run_remove_path (op : Node Handle → String → VfsM Unit) (f : Store → Except StoreError Store)
    {s : Store} (hop : ∃ journal, (op p name).run w1 = match f s with
      | .ok t => (.ok (), { w1 with stores := w1.stores.modify st fun _ => t })
      | .error e => (.error e.toFsError, { w1 with journal }))
    (pieces : List String) :
    ∃ journal, (root >>= fun r => resolveParent r path >>= fun pn =>
        op pn.1 pn.2 >>= fun _ => (liftM (note .debug vfsSource pieces) : VfsM Unit)).run w =
      match f s with
      | .ok t => (.ok (), { w1 with stores := w1.stores.modify st fun _ => t, journal })
      | .error e => (.error e.toFsError, { w1 with journal }) := by
  rw [run_after_parent hpar]
  obtain ⟨journal, hrun⟩ := hop
  dsimp only
  rw [run_bind]
  cases hf : f s with
  | ok t =>
    rw [hf] at hrun
    rw [hrun]
    exact ⟨_, rfl⟩
  | error e =>
    rw [hf] at hrun
    rw [hrun]
    exact ⟨journal, rfl⟩

variable (hp : p.inode = .memory st d n .directory) (hk : p.kind = .directory)
  (hs : w1.stores[st]? = some s)
include hp hk hs

/-- Unlinking a path whose parent is a memory directory is the store's unlink of the leaf. -/
theorem run_unlink_path :
    ∃ journal, (unlink path).run w = match s.unlink d n name with
      | .ok t => (.ok (), { w1 with stores := w1.stores.modify st fun _ => t, journal })
      | .error e => (.error e.toFsError, { w1 with journal }) :=
  run_remove_path hpar (fun p name => p.unlink Handle.inode name) (·.unlink d n name)
    (run_unlink_memoryDir hp hk hs name) _

/-- Removing a directory by a path whose parent is a memory directory is the store's rmdir of
the leaf. -/
theorem run_rmdir_path :
    ∃ journal, (rmdir path).run w = match s.rmdir d n name with
      | .ok t => (.ok (), { w1 with stores := w1.stores.modify st fun _ => t, journal })
      | .error e => (.error e.toFsError, { w1 with journal }) :=
  run_remove_path hpar (fun p name => p.rmdir Handle.inode name) (·.rmdir d n name)
    (run_rmdir_memoryDir hp hk hs name) _

/-- Making a directory by a path whose parent is a memory directory is the store's creation of
the leaf as a directory; on success the call answers the new directory's node. -/
theorem run_mkdir_path (hv : s.Valid) :
    match s.create d n name .directory with
    | .ok (t, c, cino) => ∃ journal nd, (mkdir path).run w =
        (.ok nd, { w1 with stores := w1.stores.modify st fun _ => t, journal }) ∧
        nd.inode = .memory st c cino .directory
    | .error e => ∃ journal, (mkdir path).run w = (.error e.toFsError, { w1 with journal }) := by
  have hc := run_create_memoryDir hp hk hs hv (fits_of_parent hpar) .directory
  unfold mkdir
  rw [run_after_parent hpar]
  dsimp only
  rw [run_bind]
  cases hcr : s.create d n name .directory with
  | ok r =>
    obtain ⟨t, c, cino⟩ := r
    rw [hcr] at hc
    obtain ⟨journal, nd, hrun, hnd⟩ := hc
    rw [hrun]
    exact ⟨_, nd, rfl, hnd⟩
  | error e =>
    rw [hcr] at hc
    obtain ⟨journal, hrun⟩ := hc
    rw [hrun]
    exact ⟨journal, rfl⟩

end Path

/-! ## Listings and the calls by path -/

/-- Directory listings follow creation order and agree with lookup. In every store a run of
operations builds: a current view of a directory reads its listing position by position, and a
lookup finds exactly the listed entries; a creation is refused as taken exactly when the name
is listed, and otherwise appends its entry to its directory's listing alone, whatever slot it
reused; an unlink or rmdir erases exactly the looked-up entry; the lookup of the name decides
what unlink and rmdir answer; and listing the path of a current view answers the listing. Every
store of every reachable state of the file system is one a run of operations builds; and in a
reachable state, unlinking a file, removing a directory or making one by a path whose parent is
a memory directory is that store's unlink, rmdir or creation of the leaf, written back on
success and reported as its error otherwise. -/
theorem listing_follows_creation_order :
    (∀ s : Store, s.Reachable → ∀ d n, s.Current d n → s.IsDir d →
      (∀ k, s.entryAt d n k = .ok (s.listing d)[k]?) ∧
      (∀ name m, (⟨m, name⟩ : DirEntry) ∈ s.listing d ↔ ∃ c k, s.lookup d n name = .ok (c, m, k)) ∧
      (∀ name, s.lookup d n name = .error .missing ↔ ∀ e ∈ s.listing d, e.name ≠ name) ∧
      (∀ name kind, Store.GoodName name →
        (s.create d n name kind = .error .taken ↔ ∃ e ∈ s.listing d, e.name = name))) ∧
    (∀ s t : Store, s.Reachable → ∀ d n name kind c cino,
      s.create d n name kind = .ok (t, c, cino) → (∀ e ∈ s.listing d, e.name ≠ name) ∧
        ∀ q, t.listing q = if q = d then s.listing d ++ [⟨cino, name⟩] else s.listing q) ∧
    (∀ s t : Store, s.Reachable → ∀ d n name, s.unlink d n name = .ok t →
      ∃ c cino, s.lookup d n name = .ok (c, cino, .file) ∧
        ∀ q, t.listing q = (s.listing q).erase ⟨cino, name⟩) ∧
    (∀ s t : Store, s.Reachable → ∀ d n name, s.rmdir d n name = .ok t →
      ∃ c cino, s.lookup d n name = .ok (c, cino, .directory) ∧ s.listing c = [] ∧
        ∀ q, t.listing q = (s.listing q).erase ⟨cino, name⟩) ∧
    (∀ s : Store, s.Reachable → ∀ d n name,
      (match s.lookup d n name with
        | .ok (_, _, .directory) => s.unlink d n name = .error .isDirectory
        | .ok _ => ∃ t, s.unlink d n name = .ok t
        | .error e => s.unlink d n name = .error e) ∧
      (match s.lookup d n name with
        | .ok (c, _, .directory) =>
          if s.listing c = [] then ∃ t, s.rmdir d n name = .ok t
          else s.rmdir d n name = .error .notEmpty
        | .ok _ => s.rmdir d n name = .error .notDirectory
        | .error e => s.rmdir d n name = .error e)) ∧
    (∀ (w w' : Vfs) (path : String) (nd : Node Handle) (st slot ino : Nat) (s : Store),
      (lookup path).run w = (.ok nd, w') → w'.stores[st]? = some s → s.Reachable →
      s.Current slot ino → s.IsDir slot → nd.inode = .memory st slot ino .directory →
      nd.kind = .directory → (readdir path).run w = (.ok (s.listing slot), w')) ∧
    (∀ (config : Config) (w : Vfs) (i : Nat) (s : Store), Reachable config w →
      w.stores[i]? = some s → s.Reachable) ∧
    (∀ (config : Config) (w w1 : Vfs) (path name : String) (p : Node Handle) (st d n : Nat)
      (s : Store), Reachable config w →
      (root >>= fun r => resolveParent r path).run w = (.ok (p, name), w1) →
      w1.stores[st]? = some s → p.inode = .memory st d n .directory → p.kind = .directory →
      (∃ journal, (unlink path).run w = match s.unlink d n name with
        | .ok t => (.ok (), { w1 with stores := w1.stores.modify st fun _ => t, journal })
        | .error e => (.error e.toFsError, { w1 with journal })) ∧
      (∃ journal, (rmdir path).run w = match s.rmdir d n name with
        | .ok t => (.ok (), { w1 with stores := w1.stores.modify st fun _ => t, journal })
        | .error e => (.error e.toFsError, { w1 with journal })) ∧
      (match s.create d n name .directory with
        | .ok (t, c, cino) => ∃ journal nd, (mkdir path).run w =
            (.ok nd, { w1 with stores := w1.stores.modify st fun _ => t, journal }) ∧
            nd.inode = .memory st c cino .directory
        | .error e => ∃ journal, (mkdir path).run w = (.error e.toFsError, { w1 with journal }))) := by
  refine ⟨?_, ?_, ?_, ?_, ?_, ?_, ?_, ?_⟩
  · intro s hs d n hcur hdir
    have hv := hs.valid
    exact ⟨hv.entryAt_eq_listing hcur hdir, fun name m => hv.mem_listing_iff_lookup hcur hdir name,
      fun name => hv.lookup_eq_missing_iff hcur hdir name,
      fun name kind hname => Store.create_taken_iff hcur hdir hname kind⟩
  · intro s t hs d n name kind c cino h
    exact ⟨Store.create_fresh_name h, hs.valid.listing_create h⟩
  · intro s t hs d n name h
    exact hs.valid.listing_unlink h
  · intro s t hs d n name h
    exact hs.valid.listing_rmdir h
  · intro s hs d n name
    exact ⟨hs.valid.unlink_outcome name, hs.valid.rmdir_outcome name⟩
  · intro w w' path nd st slot ino s hlook hw hs hcur hdir hnd hkind
    exact run_readdir hlook hw hs.valid hcur hdir hnd hkind
  · intro config w i s hw hs
    exact hw.storesReachable hs
  · intro config w w1 path name p st d n s hw hpar hs hp hk
    -- finding the parent changed no store, so the store is one of the reachable state's
    have hv : s.Valid := (hw.storesReachable (stores_of_parent hpar ▸ hs)).valid
    exact ⟨run_unlink_path hpar hp hk hs, run_rmdir_path hpar hp hk hs,
      run_mkdir_path hpar hp hk hs hv⟩

/-- The first file created under the root of a fresh store is its listing's only entry. -/
theorem listing_first_file :
    ∃ t, (Store.empty .host 0).create Store.rootIndex 1 "a" .file = .ok (t, 1, 2) ∧
      t.listing Store.rootIndex = [⟨2, "a"⟩] := by
  have hname : Store.checkName "a" = .ok () := by
    simp [Store.checkName, Path.fits, Path.nameLimit]
    decide
  obtain ⟨t, h⟩ : ∃ t, (Store.empty .host 0).create Store.rootIndex 1 "a" .file = .ok (t, 1, 2) :=
    ⟨_, by rw [Store.create, hname]; rfl⟩
  refine ⟨t, h, ?_⟩
  have happend := (listing_follows_creation_order.2.1 _ _ (.empty .host 0) _ _ _ _ _ _ h).2
    Store.rootIndex
  rw [happend, if_pos rfl]
  simp [Store.listing, Store.kids_empty]

end KernelFs.Vfs
