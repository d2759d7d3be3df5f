import KernelFs.Proofs.Vfs.Opening

/-!
# Failed calls change nothing

A call of src/crates/vfs/src/vfs.rs that fails leaves the file system as it found it, notes apart:
the registry, the mounted root, every descriptor and every memory store. Every check a call makes
comes before its first change, and once a call has changed something, nothing after can fail: the
backends check a whole store operation before they write the store back, an open that created its
file can always cut it and install it, and a close, a seek or the end of a read only write back what
is already known to fit.

One change precedes a possible failure: a write through an appending descriptor first moves the
cursor to the end of the file, and the move stays if the write then fails (`write_fails`).

Results:
* `failed_call_changes_nothing`: in every reachable state, a failed call wrote nothing but notes,
  or it is a write through an appending descriptor and the cursor moved to the file's length.
-/

namespace KernelFs.Vfs

variable {α : Type}

/-! ## Failing atomically, call by call -/

theorem run_of_ignore_error {act : VfsM α} {w w' : Vfs} {e : FsError}
    (h : (ignore act).run w = (.error e, w')) : act.run w = (.error e, w') := by
  rw [run_ignore] at h
  rcases hrun : act.run w with ⟨e1 | a, w1⟩ <;> rw [hrun] at h <;> cases h
  rfl

theorem Atomic.ignore {act : VfsM α} (h : Atomic act) : Atomic (ignore act) :=
  fun w _ _ hv hrun => h w _ _ hv (run_of_ignore_error hrun)

theorem register_atomic (name : String) (b : Backend) : Atomic (register name b) := by
  unfold register
  refine Atomic.inert_bind inert_get fun w0 => ?_
  dsimp only
  simp only [throw_bind]
  refine Atomic.ite ((inert_note _ _ _).bind fun _ => inert_throw _).atomic (Sure.atomic ?_)
  split
  all_goals exact (sure_note _ _ _).bind fun _ => sure_modify _

theorem addMemory_atomic (budget : Nat) : Atomic (addMemory budget) := by
  unfold addMemory
  exact Atomic.inert_bind inert_get fun w0 => (register_atomic _ _).bind_sure fun _ =>
    (sure_modify _).bind fun _ => sure_pure _

theorem mount_atomic (device path fsType : String) : Atomic (mount device path fsType) := by
  unfold mount
  refine Atomic.inert_bind inert_get fun w0 => ?_
  dsimp only
  simp only [throw_bind]
  split
  · refine Atomic.ite ((inert_note _ _ _).bind fun _ => inert_throw _).atomic ?_
    refine Atomic.inert_bind (inert_attempt (inert_mountRoot _ _)) fun r => ?_
    split
    · refine Atomic.inert_bind (inert_pure _) fun root => ?_
      refine Atomic.ite ((inert_note _ _ _).bind fun _ => inert_throw _).atomic (Sure.atomic ?_)
      -- past the checks, the new root is set and a note written
      refine (fun w => ⟨⟨⟩, ?_⟩)
      simp only [run_bind, run_get, run_modify, run_ite, run_liftM, run_note]
      split <;> rfl
    · exact ((inert_note _ _ _).bind fun _ => inert_throw _).atomic
  · exact ((inert_note _ _ _).bind fun _ => inert_throw _).atomic

theorem umount_atomic (path : String) : Atomic (umount path) := by
  unfold umount
  dsimp only
  simp only [throw_bind]
  refine Atomic.ite (inert_throw _).atomic (Atomic.inert_bind inert_get fun w0 => ?_)
  split
  · exact Sure.atomic ((sure_modify _).bind fun _ => (sure_liftM _).bind
      fun _ => sure_note _ _ _)
  · exact (inert_throw _).atomic

theorem close_atomic (fd : Nat) : Atomic (close fd) := by
  unfold close
  refine Atomic.inert_bind inert_get fun w0 => Atomic.inert_bind (inert_ofExcept _) fun p => ?_
  exact Sure.atomic ((sure_modify _).bind fun _ => (sure_lift _).bind fun _ => sure_note _ _ _)

theorem read_atomic (fd len : Nat) : Atomic (read fd len) := by
  unfold read
  refine Atomic.inert_bind (inert_fileAt fd) fun f => ?_
  dsimp only
  simp only [throw_bind]
  exact Atomic.ite (inert_throw _).atomic (Atomic.inert_bind (inert_read _ _ _) fun b =>
    Sure.atomic ((sure_modify _).bind fun _ => sure_pure _))

theorem seek_atomic (fd : Nat) (offset : Int) (origin : SeekOrigin) :
    Atomic (seek fd offset origin) := by
  unfold seek
  refine Atomic.inert_bind (inert_fileAt fd) fun f => ?_
  dsimp only
  cases origin
  all_goals
    refine Atomic.inert_bind ?_ fun base => ?_
    rotate_left
    · -- the cursor moves only to a position in range
      split
      · exact Sure.atomic ((sure_modify _).bind fun _ => sure_pure _)
      · exact (inert_throw _).atomic
  · exact inert_pure _
  · exact inert_pure _
  · exact inert_lift (length_noted f.node)

theorem takeAll_atomic : Atomic takeAll := by
  unfold takeAll
  refine Atomic.inert_bind inert_get fun w0 => Sure.atomic ?_
  exact (sure_modify _).bind fun _ => sure_pure _

theorem resolvePath_atomic (path : String) (flags : OpenFlags) :
    Atomic (resolvePath path flags) :=
  Atomic.inert_bind inert_root fun _ _ _ _ hv hrun => noted_of_resolve_error hv hrun

theorem openFile_atomic (path : String) (flags : OpenFlags) : Atomic (openFile path flags) := by
  intro w e w' hv hrun
  have hends := openFile_ends path flags hv
  rw [hrun] at hends
  exact hends

/-! ## A failed write -/

theorem run_fileAt_eq (fd : Nat) (w : Vfs) : (fileAt fd).run w = (w.files.get fd, w) := rfl

/-- Notes written beside the same change of descriptors are still only notes. -/
theorem Noted.with_files {w w' : Vfs} (h : Noted w w') (files : FdTable OpenFile) :
    Noted { w with files } { w' with files } := by
  unfold Noted at *
  rw [h]

/-- A failed write wrote nothing but notes, or it went through an appending descriptor and
moved that descriptor's cursor to the live length of its file, and wrote notes besides. -/
theorem write_fails {w w' : Vfs} {fd : Nat} {b : ByteArray} {e : FsError} (hv : StoresValid w)
    (hrun : (write fd b).run w = (.error e, w')) :
    Noted w w' ∨ ∃ f, w.files.get? fd = some f ∧ f.flags.appends = true ∧
      Noted { w with
        files := w.files.update fd { f with cursor := (f.node.length Handle.inode w).1 } } w' := by
  unfold write at hrun
  rw [run_bind, run_fileAt_eq] at hrun
  cases hget : w.files.get fd with
  | error e1 =>
    rw [hget] at hrun
    cases hrun
    exact .inl (Noted.refl w)
  | ok f =>
    rw [hget] at hrun
    dsimp only at hrun
    simp only [throw_bind] at hrun
    split at hrun
    · cases hrun
      exact .inl (Noted.refl w)
    split at hrun
    · -- the cursor moves to the live length before the write
      rename_i happ
      rcases hlen : f.node.length Handle.inode w with ⟨size, w1⟩
      have hw1 : Noted w w1 := by have := length_noted f.node w; rwa [hlen] at this
      simp only [run_bind, run_lift, hlen, run_setFile, run_pure] at hrun
      have hstart : Noted { w with files := w.files.update fd { f with cursor := size } }
          { w1 with files := w1.files.update fd { f with cursor := size } } := by
        rw [show w1.files = w.files by rw [hw1]]
        exact hw1.with_files _
      rcases hw : (f.node.write Handle.inode size b).run
          { w1 with files := w1.files.update fd { f with cursor := size } } with ⟨e2 | k, w2⟩ <;>
        rw [hw] at hrun
      · cases hrun
        refine .inr ⟨f, FdTable.get_eq_ok_iff.mp hget, happ, ?_⟩
        rw [hlen]
        -- a store is valid whatever the descriptors hold
        exact hstart.trans ((write_changes _ _ _).2 _ _ _ (hstart.storesValid hv) hw)
      · cases hrun
    · rcases hw : (f.node.write Handle.inode f.cursor b).run w with ⟨e2 | k, w2⟩ <;>
        simp only [run_bind, run_pure, hw] at hrun
      · cases hrun
        exact .inl ((write_changes _ _ _).2 _ _ _ hv hw)
      · cases hrun

/-! ## Every failed call -/

/-- Every call but a write fails atomically. -/
theorem act_atomic : ∀ c : Call, (∀ fd b, c ≠ .write fd b) → Atomic c.act
  | .register name b, _ => register_atomic name b
  | .addMemory budget, _ => (addMemory_atomic budget).ignore
  | .mount device path fsType, _ => mount_atomic device path fsType
  | .umount path, _ => umount_atomic path
  | .openFile path flags, _ => (openFile_atomic path flags).ignore
  | .close fd, _ => close_atomic fd
  | .read fd len, _ => (read_atomic fd len).ignore
  | .write fd b, h => absurd rfl (h fd b)
  | .seek fd offset origin, _ => (seek_atomic fd offset origin).ignore
  | .takeAll, _ => takeAll_atomic.ignore
  | .lookup path, _ => (inert_lookup path).atomic.ignore
  | .readdir path, _ => (inert_readdir path).atomic.ignore
  | .mkdir path, _ => (mkdir_changes path).2.ignore
  | .unlink path, _ => (unlink_call_changes path).2
  | .rmdir path, _ => (rmdir_call_changes path).2
  | .resolvePath path flags, _ => (resolvePath_atomic path flags).ignore
  | .nodeRead path offset len, _ =>
    ((inert_lookup path).bind fun n => inert_read n offset len).atomic.ignore
  | .nodeWrite path offset b, _ => (nodeAt_changes path fun n => write_changes n offset b).2.ignore
  | .nodeEntry path i, _ => ((inert_lookup path).bind fun n => inert_entry n i).atomic.ignore
  | .nodeFind path name, _ => ((inert_lookup path).bind fun n => inert_find n name).atomic.ignore
  | .nodeCreate path name kind, _ =>
    (nodeAt_changes path fun n => create_changes n name kind).2.ignore
  | .nodeUnlink path name, _ => (nodeAt_changes path fun n => unlink_changes n name).2
  | .nodeRmdir path name, _ => (nodeAt_changes path fun n => rmdir_changes n name).2
  | .nodeTruncate path size, _ => (nodeAt_changes path fun n => truncate_changes n size).2
  | .fdNodeRead fd offset len, _ =>
    ((inert_fileAt fd).bind fun f => inert_read f.node offset len).atomic.ignore
  | .fdNodeTruncate fd size, _ => (fdNodeAt_changes fd fun n => truncate_changes n size).2

/-- A failed call changes nothing but notes. In every reachable state, a call that fails leaves
the registry, the mounted root, every descriptor with its file, flags and cursor, the sample
counters and every memory store as they were: no entry, name, content, byte count or inode
number moves, so neither a failed open nor a refused write or truncation leaves a trace. The one
exception is a write through an appending descriptor, which leaves that descriptor's cursor at
the live length of its file. -/
theorem failed_call_changes_nothing {config : Config} {w w' : Vfs} (hw : Reachable config w)
    (c : Call) {e : FsError} (hrun : c.act.run w = (.error e, w')) :
    Noted w w' ∨ ∃ fd b f, c = .write fd b ∧ w.files.get? fd = some f ∧ f.flags.appends = true ∧
      Noted { w with
        files := w.files.update fd { f with cursor := (f.node.length Handle.inode w).1 } } w' := by
  have hv := hw.sound.stores
  by_cases hc : ∃ fd b, c = .write fd b
  · obtain ⟨fd, b, rfl⟩ := hc
    rcases write_fails hv (run_of_ignore_error hrun) with h | ⟨f, hf, happ, h⟩
    · exact .inl h
    · exact .inr ⟨fd, b, f, rfl, hf, happ, h⟩
  · exact .inl (act_atomic c (fun fd b h => hc ⟨fd, b, h⟩) w e w' hv hrun)

/-- Mounting a type that is not registered fails, and on a fresh file system it writes a warning
and nothing else. -/
theorem unknown_type_mount_changes_nothing :
    ∃ w', (Call.mount "memdisk" "/" "memfs").act.run (fresh {}) = (.error .notFound, w') ∧
      Noted (fresh {}) w' := by
  refine ⟨_, rfl, ?_⟩
  rcases failed_call_changes_nothing Reachable.fresh (.mount "memdisk" "/" "memfs") rfl with
    h | ⟨_, _, _, hc, -⟩
  · exact h
  · cases hc

end KernelFs.Vfs
