import KernelFs.Proofs.Vfs.Resolution
import KernelFs.Proofs.Descriptor.Discipline

/-!
# Reachable states

A `Call` is one operation of the file system (the public methods of `Vfs`,
src/crates/vfs/src/vfs.rs:57-175) with its arguments; its `act` runs the operation and forgets the
answer. The states reachable from a fresh file system are those that calls, in any order and with
any outcome, lead to.

Every reachable state is `Sound`: its stores are valid, its descriptor table has no more slots
than the configured number of descriptors, which is its limit, and its registry has the
configured capacity (`Reachable.sound`). Each call keeps soundness (`keeps_act`): the calls that
act through the tree alone are `Confined`, and the rest change the registry, the mounted root or
the descriptor table in ways that keep the limits.
-/

namespace KernelFs.Vfs

open Memory

variable {α β : Type} {config : Config}

/-! ## Calls -/

/-- An operation of the file system with its arguments. -/
inductive Call where
  | register (name : String) (b : Backend)
  | addMemory (budget : Nat)
  | mount (device path fsType : String)
  | umount (path : String)
  | openFile (path : String) (flags : OpenFlags)
  | close (fd : Nat)
  | read (fd len : Nat)
  | write (fd : Nat) (b : ByteArray)
  | seek (fd : Nat) (offset : Int) (origin : SeekOrigin)
  | takeAll
  | lookup (path : String)
  | readdir (path : String)
  | mkdir (path : String)
  | unlink (path : String)
  | rmdir (path : String)
  | resolvePath (path : String) (flags : OpenFlags)
  | nodeRead (path : String) (offset len : Nat)
  | nodeWrite (path : String) (offset : Nat) (b : ByteArray)
  | nodeEntry (path : String) (i : Nat)
  | nodeFind (path name : String)
  | nodeCreate (path name : String) (kind : NodeType)
  | nodeUnlink (path name : String)
  | nodeRmdir (path name : String)
  | nodeTruncate (path : String) (size : Nat)
  | fdNodeRead (fd offset len : Nat)
  | fdNodeTruncate (fd size : Nat)

/-- Runs an action for what it does, forgetting its answer. -/
def ignore (act : VfsM α) : VfsM Unit := do
  let _ ← act

/-- The action of a call, its answer forgotten. -/
def Call.act : Call → VfsM Unit
  | .register name b => Vfs.register name b
  | .addMemory budget => ignore (Vfs.addMemory budget)
  | .mount device path fsType => Vfs.mount device path fsType
  | .umount path => Vfs.umount path
  | .openFile path flags => ignore (Vfs.openFile path flags)
  | .close fd => Vfs.close fd
  | .read fd len => ignore (Vfs.read fd len)
  | .write fd b => ignore (Vfs.write fd b)
  | .seek fd offset origin => ignore (Vfs.seek fd offset origin)
  | .takeAll => ignore Vfs.takeAll
  | .lookup path => ignore (Vfs.lookup path)
  | .readdir path => ignore (Vfs.readdir path)
  | .mkdir path => ignore (Vfs.mkdir path)
  | .unlink path => Vfs.unlink path
  | .rmdir path => Vfs.rmdir path
  | .resolvePath path flags => ignore (Vfs.resolvePath path flags)
  | .nodeRead path offset len => ignore (Vfs.nodeRead path offset len)
  | .nodeWrite path offset b => ignore (Vfs.nodeWrite path offset b)
  | .nodeEntry path i => ignore (Vfs.nodeEntry path i)
  | .nodeFind path name => ignore (Vfs.nodeFind path name)
  | .nodeCreate path name kind => ignore (Vfs.nodeCreate path name kind)
  | .nodeUnlink path name => Vfs.nodeUnlink path name
  | .nodeRmdir path name => Vfs.nodeRmdir path name
  | .nodeTruncate path size => Vfs.nodeTruncate path size
  | .fdNodeRead fd offset len => ignore (Vfs.fdNodeRead fd offset len)
  | .fdNodeTruncate fd size => Vfs.fdNodeTruncate fd size

/-- Forgetting the answer keeps the outcome's kind, its error and the state. -/
theorem run_ignore (act : VfsM α) (w : Vfs) :
    (ignore act).run w = ((act.run w).1.map fun _ => (), (act.run w).2) := by
  unfold ignore
  rw [run_bind]
  rcases act.run w with ⟨_ | _, _⟩ <;> rfl

/-- The states that calls lead to from a fresh file system with the given limits. -/
inductive Reachable (config : Config) : Vfs → Prop where
  | fresh : Reachable config (fresh config)
  | call {w : Vfs} (c : Call) : Reachable config w → Reachable config (c.act.run w).2

/-! ## Soundness -/

/-- What every reachable state satisfies: valid stores, a descriptor table bounded by the
configured number of descriptors, and a registry of the configured capacity. -/
structure Sound (config : Config) (w : Vfs) : Prop where
  stores : StoresValid w
  files : w.files.Bounded
  fdLimit : w.files.limit = config.maxFds
  capacity : w.registry.capacity = config.maxFilesystems

theorem sound_fresh (config : Config) : Sound config (fresh config) where
  stores := fun i s h => by simp [fresh] at h
  files := FdTable.bounded_empty _
  fdLimit := rfl
  capacity := rfl

theorem Sound.backed {w w' : Vfs} (hw : Sound config w) (h : Backed w w') : Sound config w' := by
  have hfiles := h.files_eq
  have hreg := h.registry_eq
  exact ⟨h.storesValid hw.stores, hfiles ▸ hw.files, hfiles ▸ hw.fdLimit, hreg ▸ hw.capacity⟩

/-- An action that keeps soundness, whatever its outcome. -/
def Keeps (config : Config) (act : VfsM α) : Prop := ∀ w, Sound config w → Sound config (act.run w).2

theorem Confined.keeps {act : VfsM α} (h : Confined act) : Keeps config act :=
  fun w hw => hw.backed (h w)

theorem Inert.keeps {act : VfsM α} (h : Inert act) : Keeps config act :=
  h.confined.keeps

theorem Keeps.bind {x : VfsM α} {f : α → VfsM β} (hx : Keeps config x)
    (hf : ∀ a, Keeps config (f a)) : Keeps config (x >>= f) := by
  intro w hw
  rw [run_bind]
  have h1 := hx w hw
  rcases hrun : x.run w with ⟨_ | a, w1⟩ <;> rw [hrun] at h1
  · exact h1
  · exact hf a w1 h1

theorem Keeps.ite {c : Prop} [Decidable c] {a b : VfsM α} (ha : Keeps config a)
    (hb : Keeps config b) : Keeps config (if c then a else b) := by
  split
  · exact ha
  · exact hb

theorem keeps_modify {f : Vfs → Vfs} (h : ∀ w, Sound config w → Sound config (f w)) :
    Keeps config (modify f : VfsM PUnit) :=
  h

theorem keeps_lift {x : StateM Vfs α} (h : ∀ w, Sound config w → Sound config (x w).2) :
    Keeps config (ExceptT.lift x : VfsM α) :=
  h

theorem keeps_ignore {act : VfsM α} (h : Keeps config act) : Keeps config (ignore act) :=
  fun w hw => by rw [run_ignore]; exact h w hw

/-- The backend hooks move the sample counters at most. -/
theorem sound_samples {w : Vfs} (hw : Sound config w) (c : SampleCounts) :
    Sound config { w with samples := c } :=
  hw.backed (backed_samples w c)

/-! ## Calls through the tree -/

theorem inert_fileAt (fd : Nat) : Inert (fileAt fd) :=
  inert_get.bind fun _ => inert_ofExcept _


theorem inert_collect (d : Node Handle) (fuel : Nat) :
    ∀ (i : Nat) (acc : Array DirEntry), Inert (collect d fuel i acc) := by
  induction fuel with
  | zero => exact fun _ acc => inert_pure acc
  | succ fuel ih =>
    intro i acc
    refine (inert_entry d i).bind fun r => ?_
    cases r with
    | some e => exact ih (i + 1) (acc.push e)
    | none => exact inert_pure acc

theorem inert_readdir (path : String) : Inert (readdir path) := by
  unfold readdir
  refine (inert_lookup path).bind fun d => ?_
  dsimp only
  simp only [throw_bind]
  exact Inert.ite (inert_throw _)
    (inert_get.bind fun w => (inert_collect d _ 0 #[]).bind fun es => inert_pure _)

theorem mkdir_changes (path : String) : Confined (mkdir path) ∧ Atomic (mkdir path) := by
  unfold mkdir
  refine ⟨inert_root.confined.bind fun r => (inert_resolveParent r path).confined.bind
      fun pn => ?_, Atomic.inert_bind inert_root fun r => Atomic.inert_bind
      (inert_resolveParent r path) fun pn => ?_⟩
  all_goals obtain ⟨p, name⟩ := pn
  · exact (create_changes p name .directory).1.bind fun d =>
      (inert_note _ _ _).confined.bind fun _ => (inert_pure d).confined
  · exact (create_changes p name .directory).2.bind_sure fun d =>
      (sure_note _ _ _).bind fun _ => sure_pure d

/-- Removing through the parent of a path: the removal itself is the only change. -/
theorem removal_changes (path : String) {act : Node Handle → String → VfsM Unit}
    (h : ∀ p name, Confined (act p name) ∧ Atomic (act p name)) (pieces : List String) :
    Confined (root >>= fun r => resolveParent r path >>= fun pn =>
      act pn.1 pn.2 >>= fun _ => (liftM (note .debug vfsSource pieces) : VfsM Unit)) ∧
    Atomic (root >>= fun r => resolveParent r path >>= fun pn =>
      act pn.1 pn.2 >>= fun _ => (liftM (note .debug vfsSource pieces) : VfsM Unit)) :=
  ⟨inert_root.confined.bind fun r => (inert_resolveParent r path).confined.bind fun pn =>
      (h pn.1 pn.2).1.bind fun _ => (inert_note _ _ _).confined,
    Atomic.inert_bind inert_root fun r => Atomic.inert_bind (inert_resolveParent r path)
      fun pn => (h pn.1 pn.2).2.bind_sure fun _ => sure_note _ _ _⟩

theorem unlink_call_changes (path : String) : Confined (unlink path) ∧ Atomic (unlink path) :=
  removal_changes path (fun p name => unlink_changes p name) _

theorem rmdir_call_changes (path : String) : Confined (rmdir path) ∧ Atomic (rmdir path) :=
  removal_changes path (fun p name => rmdir_changes p name) _

/-- Acting on the node a path names: the action on the node is the only change. -/
theorem nodeAt_changes (path : String) {act : Node Handle → VfsM α}
    (h : ∀ n, Confined (act n) ∧ Atomic (act n)) :
    Confined (lookup path >>= act) ∧ Atomic (lookup path >>= act) :=
  ⟨(inert_lookup path).confined.bind fun n => (h n).1,
    Atomic.inert_bind (inert_lookup path) fun n => (h n).2⟩

/-- Acting on a descriptor's node: the action on the node is the only change. -/
theorem fdNodeAt_changes (fd : Nat) {act : Node Handle → VfsM α}
    (h : ∀ n, Confined (act n) ∧ Atomic (act n)) :
    Confined (fileAt fd >>= fun f => act f.node) ∧ Atomic (fileAt fd >>= fun f => act f.node) :=
  ⟨(inert_fileAt fd).confined.bind fun f => (h f.node).1,
    Atomic.inert_bind (inert_fileAt fd) fun f => (h f.node).2⟩

/-! ## Each call keeps soundness -/

/-- Changing the registry's entries alone keeps soundness. -/
theorem sound_registry {w : Vfs} (hw : Sound config w) (entries : Array (String × Backend)) :
    Sound config { w with registry := { w.registry with entries } } :=
  ⟨hw.stores, hw.files, hw.fdLimit, hw.capacity⟩

theorem sound_mounted {w : Vfs} (hw : Sound config w) (mounted : Option MountPoint) :
    Sound config { w with mounted } :=
  ⟨hw.stores, hw.files, hw.fdLimit, hw.capacity⟩

theorem keeps_register (name : String) (b : Backend) : Keeps config (register name b) := by
  unfold register
  refine inert_get.keeps.bind fun w0 => ?_
  dsimp only
  simp only [throw_bind]
  refine Keeps.ite ((inert_note _ _ _).bind fun _ => inert_throw _).keeps ?_
  refine Keeps.ite ((inert_note _ _ _).keeps.bind fun _ => ?_)
    ((inert_note _ _ _).keeps.bind fun _ => ?_)
  all_goals exact keeps_modify fun w hw => sound_registry hw _

theorem keeps_addMemory (budget : Nat) : Keeps config (addMemory budget) := by
  unfold addMemory
  refine inert_get.keeps.bind fun w0 => (keeps_register _ _).bind fun _ => ?_
  refine Keeps.bind ?_ fun _ => (inert_pure _).keeps
  refine keeps_modify fun w hw => ⟨fun i s hs => ?_, hw.files, hw.fdLimit, hw.capacity⟩
  -- the new store is empty, and the others are as they were
  simp only [Array.getElem?_push] at hs
  split at hs
  · cases hs
    exact Store.valid_empty _ budget
  · exact hw.stores i s hs

theorem inert_mountRoot (b : Backend) (device : String) : Inert (b.mountRoot device) := by
  cases b with
  | memory i =>
    exact (inert_note _ _ _).bind fun _ => (inert_query i _).bind fun ino => inert_make _ _
  | sample => exact inert_make _ _
  | refusing => exact inert_throw _
  | fileRoot => exact inert_make _ _

theorem keeps_mount (device path fsType : String) : Keeps config (mount device path fsType) := by
  unfold mount
  refine inert_get.keeps.bind fun w0 => ?_
  dsimp only
  simp only [throw_bind]
  split
  · refine Keeps.ite ((inert_note _ _ _).bind fun _ => inert_throw _).keeps ?_
    refine (inert_attempt (inert_mountRoot _ _)).keeps.bind fun r => ?_
    split
    · refine (inert_pure _).keeps.bind fun root => ?_
      refine Keeps.ite ((inert_note _ _ _).bind fun _ => inert_throw _).keeps ?_
      refine inert_get.keeps.bind fun w1 => ?_
      refine (keeps_modify fun w hw => sound_mounted hw _).bind fun _ => ?_
      exact Keeps.ite (inert_note _ _ _).keeps (inert_note _ _ _).keeps
    · exact ((inert_note _ _ _).bind fun _ => inert_throw _).keeps
  · exact ((inert_note _ _ _).bind fun _ => inert_throw _).keeps

/-- The unmount hook moves the sample counters at most. -/
theorem sound_unmounted {w : Vfs} (hw : Sound config w) (b : Backend) :
    Sound config (b.unmounted w).2 := by
  cases b with
  | sample => exact sound_samples hw _
  | memory i => exact hw
  | refusing => exact hw
  | fileRoot => exact hw

theorem keeps_umount (path : String) : Keeps config (umount path) := by
  unfold umount
  dsimp only
  simp only [throw_bind]
  refine Keeps.ite (inert_throw _).keeps (inert_get.keeps.bind fun w0 => ?_)
  split
  · rename_i mp _
    refine (keeps_modify fun w hw => sound_mounted hw _).bind fun _ => ?_
    refine Keeps.bind (fun w hw => ?_) fun _ => (inert_note _ _ _).keeps
    rw [run_liftM]
    exact sound_unmounted hw mp.backend
  · exact (inert_throw _).keeps

/-- The states an action runs its continuation in, read at its start. -/
theorem Keeps.get_bind {f : Vfs → VfsM α} (h : ∀ w, Sound config w → Sound config ((f w).run w).2) :
    Keeps config (get >>= f) := by
  intro w hw
  rw [run_bind, run_get]
  exact h w hw

theorem keeps_setFile (fd : Nat) (f : OpenFile) : Keeps config (setFile fd f) :=
  keeps_modify fun w hw => ⟨hw.stores, hw.files.update f, by simpa using hw.fdLimit, hw.capacity⟩

theorem sound_files_of_alloc {w : Vfs} (hw : Sound config w) {f : OpenFile} {fd : Nat}
    {files : FdTable OpenFile} (h : w.files.alloc f = .ok (fd, files)) :
    Sound config { w with files } := by
  obtain ⟨-, hlim, hb, -⟩ := FdTable.alloc_eq_ok hw.files h
  exact ⟨hw.stores, hb, hlim.trans hw.fdLimit, hw.capacity⟩

theorem keeps_notifyOpen (n : Node Handle) (flags : OpenFlags) :
    Keeps config (ExceptT.lift (n.notifyOpen Handle.inode flags) : VfsM Unit) :=
  keeps_lift fun w hw => by rw [notifyOpen_samples]; exact sound_samples hw _

theorem keeps_notifyClose (n : Node Handle) :
    Keeps config (ExceptT.lift (n.notifyClose Handle.inode) : VfsM Unit) :=
  keeps_lift fun w hw => by rw [notifyClose_samples]; exact sound_samples hw _

theorem keeps_openFile (path : String) (flags : OpenFlags) : Keeps config (openFile path flags) := by
  unfold openFile
  dsimp only
  simp only [throw_bind]
  refine Keeps.ite (inert_throw _).keeps (inert_get.keeps.bind fun w0 => ?_)
  refine Keeps.ite ((inert_note _ _ _).bind fun _ => inert_throw _).keeps ?_
  refine inert_root.keeps.bind fun r => (confined_resolve r path flags).keeps.bind fun n => ?_
  refine Keeps.ite ((truncate_changes n 0).1.keeps.bind fun _ => ?_) ?_
  all_goals
    refine Keeps.get_bind fun w hw => ?_
    rw [run_bind, run_ofExcept]
    rcases halloc : w.files.alloc { node := n, cursor := 0, flags := flags } with e | ⟨fd, files⟩
    · exact hw
    · -- the table takes the new file, and the node hears of the open
      dsimp only
      rw [run_bind, run_modify]
      exact ((keeps_notifyOpen n flags).bind fun _ => (inert_note _ _ _).keeps.bind
        fun _ => (inert_pure _).keeps) _ (sound_files_of_alloc hw halloc)

theorem keeps_close (fd : Nat) : Keeps config (close fd) := by
  unfold close
  refine Keeps.get_bind fun w hw => ?_
  rw [run_bind, run_ofExcept]
  rcases hclose : w.files.close fd with e | ⟨f, files⟩
  · exact hw
  · -- the table frees the descriptor, and the node hears of the close
    have hsound : Sound config { w with files } := by
      cases hfd : w.files.get? fd with
      | none => rw [FdTable.close_eq_error hfd] at hclose; cases hclose
      | some a =>
        obtain ⟨t', hc, hlim, hsize, -⟩ := FdTable.close_eq_ok hfd
        rw [hc] at hclose
        cases hclose
        refine ⟨hw.stores, ?_, hlim.trans hw.fdLimit, hw.capacity⟩
        unfold FdTable.Bounded
        rw [hsize, hlim]
        exact hw.files
    dsimp only
    rw [run_bind, run_modify]
    exact ((keeps_notifyClose f.node).bind fun _ => (inert_note _ _ _).keeps) _ hsound

theorem keeps_read (fd len : Nat) : Keeps config (read fd len) := by
  unfold read
  refine (inert_fileAt fd).keeps.bind fun f => ?_
  dsimp only
  simp only [throw_bind]
  refine Keeps.ite (inert_throw _).keeps ?_
  exact (inert_read _ _ _).keeps.bind fun b => (keeps_setFile _ _).bind fun _ => (inert_pure _).keeps

theorem keeps_write (fd : Nat) (b : ByteArray) : Keeps config (write fd b) := by
  unfold write
  refine (inert_fileAt fd).keeps.bind fun f => ?_
  dsimp only
  simp only [throw_bind]
  refine Keeps.ite (inert_throw _).keeps (Keeps.ite ?_ ?_)
  · refine (inert_lift (length_noted f.node)).keeps.bind fun size => ?_
    refine (keeps_setFile _ _).bind fun _ => (inert_pure _).keeps.bind fun f' => ?_
    exact (write_changes _ _ _).1.keeps.bind fun k => (keeps_setFile _ _).bind
      fun _ => (inert_pure _).keeps
  · refine (inert_pure _).keeps.bind fun f' => ?_
    exact (write_changes _ _ _).1.keeps.bind fun k => (keeps_setFile _ _).bind
      fun _ => (inert_pure _).keeps

theorem keeps_seek (fd : Nat) (offset : Int) (origin : SeekOrigin) :
    Keeps config (seek fd offset origin) := by
  unfold seek
  refine (inert_fileAt fd).keeps.bind fun f => ?_
  dsimp only
  cases origin
  all_goals
    refine Keeps.bind ?_ fun base => ?_
    rotate_left
    · -- wherever the base lies, the cursor moves or the seek is refused
      split
      · exact (keeps_setFile _ _).bind fun _ => (inert_pure _).keeps
      · exact (inert_throw _).keeps
  · exact (inert_pure _).keeps
  · exact (inert_pure _).keeps
  · exact (inert_lift (length_noted f.node)).keeps

theorem keeps_takeAll : Keeps config takeAll := by
  unfold takeAll
  refine Keeps.get_bind fun w hw => ?_
  rcases ht : w.files.takeAll with ⟨held, files⟩
  have hfiles : files = w.files.takeAll.2 := by rw [ht]
  subst hfiles
  dsimp only
  rw [run_bind_ok (run_modify _ w), run_pure]
  exact ⟨hw.stores, hw.files.takeAll, by rw [FdTable.limit_takeAll, hw.fdLimit], hw.capacity⟩

/-! ## Every reachable state is sound -/

/-- Every call keeps soundness, whatever its outcome. -/
theorem keeps_act (c : Call) : Keeps config c.act := by
  cases c with
  | register name b => exact keeps_register name b
  | addMemory budget => exact keeps_ignore (keeps_addMemory budget)
  | mount device path fsType => exact keeps_mount device path fsType
  | umount path => exact keeps_umount path
  | openFile path flags => exact keeps_ignore (keeps_openFile path flags)
  | close fd => exact keeps_close fd
  | read fd len => exact keeps_ignore (keeps_read fd len)
  | write fd b => exact keeps_ignore (keeps_write fd b)
  | seek fd offset origin => exact keeps_ignore (keeps_seek fd offset origin)
  | takeAll => exact keeps_ignore keeps_takeAll
  | lookup path => exact keeps_ignore (inert_lookup path).keeps
  | readdir path => exact keeps_ignore (inert_readdir path).keeps
  | mkdir path => exact keeps_ignore (mkdir_changes path).1.keeps
  | unlink path => exact (unlink_call_changes path).1.keeps
  | rmdir path => exact (rmdir_call_changes path).1.keeps
  | resolvePath path flags =>
    exact keeps_ignore (inert_root.confined.bind fun r => confined_resolve r path flags).keeps
  | nodeRead path offset len =>
    exact keeps_ignore ((inert_lookup path).bind fun n => inert_read n offset len).keeps
  | nodeWrite path offset b =>
    exact keeps_ignore (nodeAt_changes path fun n => write_changes n offset b).1.keeps
  | nodeEntry path i => exact keeps_ignore ((inert_lookup path).bind fun n => inert_entry n i).keeps
  | nodeFind path name =>
    exact keeps_ignore ((inert_lookup path).bind fun n => inert_find n name).keeps
  | nodeCreate path name kind =>
    exact keeps_ignore (nodeAt_changes path fun n => create_changes n name kind).1.keeps
  | nodeUnlink path name => exact (nodeAt_changes path fun n => unlink_changes n name).1.keeps
  | nodeRmdir path name => exact (nodeAt_changes path fun n => rmdir_changes n name).1.keeps
  | nodeTruncate path size => exact (nodeAt_changes path fun n => truncate_changes n size).1.keeps
  | fdNodeRead fd offset len =>
    exact keeps_ignore ((inert_fileAt fd).bind fun f => inert_read f.node offset len).keeps
  | fdNodeTruncate fd size => exact (fdNodeAt_changes fd fun n => truncate_changes n size).1.keeps

/-- Every reachable state is sound. -/
theorem Reachable.sound {w : Vfs} (h : Reachable config w) : Sound config w := by
  induction h with
  | fresh => exact sound_fresh config
  | call c _ ih => exact keeps_act c _ ih

end KernelFs.Vfs
