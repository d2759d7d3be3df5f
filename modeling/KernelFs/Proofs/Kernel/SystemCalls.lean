import KernelFs.Kernel.Syscall
import KernelFs.Proofs.Vfs.Cursor
import KernelFs.Proofs.Vfs.Failure

/-!
# The integer system calls collapse the file system calls

Each system call (src/basedos/src/syscall/fs.rs:9-70) runs one file system call through the kernel
and folds its outcome into an integer (`collapse`, after `status`): a success answers its value, a
failure answers -1 and prints the error at debug level under the call's name. Before that, an
argument that names no descriptor or no seek origin is refused without touching the file system: a
negative descriptor is a bad descriptor, a seek code other than 0, 1 and 2 an invalid argument.

The answers of successes are never -1 nor cut: in a sound state an open answers a descriptor
below the configured 64, a read and a write move at most the bytes they were given, and a seek
lands at most on the largest signed word.

Results:
* `run_status`, `run_descriptor_bind`: how a call's action is run and its descriptor read.
* `read_size_le`, `write_count_le`, `seek_le_maxOffset`: the bounds on what succeeds.
* `syscalls_collapse_vfs_calls`: each system call is the collapse of its file system call.
-/

namespace KernelFs.Vfs

variable {w w' : Vfs}

theorem run_fileAt_of_none {fd : Nat} (h : w.files.get? fd = none) :
    (fileAt fd).run w = (.error .invalidDescriptor, w) := by
  rw [run_fileAt_eq]
  cases hg : w.files.get fd with
  | ok f => rw [FdTable.get_eq_ok_iff.mp hg] at h; cases h
  | error e => rw [(FdTable.get_eq_error_iff.mp hg).2]

/-- A read answers at most the bytes asked for. -/
theorem read_size_le {fd len : Nat} {b : ByteArray} (h : (read fd len).run w = (.ok b, w')) :
    b.size ≤ len := by
  cases hg : w.files.get? fd with
  | none =>
    unfold read at h
    rw [run_bind_error (run_fileAt_of_none hg)] at h
    cases h
  | some f =>
    obtain ⟨w1, hrd, -⟩ := run_read_eq_ok hg h
    exact (read_bounds hrd).1

/-- A write answers at most the bytes it was given. -/
theorem write_count_le {fd : Nat} {b : ByteArray} {k : Nat}
    (h : (write fd b).run w = (.ok k, w')) : k ≤ b.size := by
  cases hg : w.files.get? fd with
  | none =>
    unfold write at h
    rw [run_bind_error (run_fileAt_of_none hg)] at h
    cases h
  | some f =>
    obtain ⟨files, w2, hwr, -⟩ := run_write_eq_ok hg h
    exact (write_bounds hwr).1

/-- A seek lands at most on the largest signed word, whatever the state. -/
theorem seek_le_maxOffset {fd : Nat} {offset : Int} {origin : SeekOrigin} {p : Nat}
    (h : (seek fd offset origin).run w = (.ok p, w')) : p ≤ maxOffset := by
  unfold seek at h
  rw [run_bind] at h
  rcases hf : (fileAt fd).run w with ⟨_ | f, w1⟩ <;> rw [hf] at h
  · cases h
  -- every origin ends in the same check of the target
  cases origin
  all_goals
    dsimp only at h
    rw [run_bind] at h
    rcases hb : (_ : VfsM Nat).run w1 with ⟨_ | base, w2⟩ <;> rw [hb] at h
    · cases h
    dsimp only at h
    split at h
    · rename_i q hq
      simp only [run_bind, run_setFile, run_pure] at h
      cases h
      exact ((seekTarget_eq_some_iff base offset _).mp hq).2.2
    · cases h

/-- Clearing the notes keeps a state sound. -/
theorem Sound.cleared {config : Config} {w : Vfs} (h : Sound config w) :
    Sound config { w with journal := #[] } :=
  ⟨fun i s hs => h.stores i s hs, h.files, h.fdLimit, h.capacity⟩

end KernelFs.Vfs

namespace KernelFs.Kernel

open Vfs

/-- What a system call answers and leaves once its action ran: the answer of a success, or the
failure value with the error printed at debug level under the call's name. -/
def collapse {α β : Type} (name : String) (answer : α → β) (failed : β) :
    Except FsError α × Kernel → β × Kernel
  | (.ok a, k) => (answer a, k)
  | (.error e, k) => (failed, { k with log := k.log.print .debug [name, ": ", e.message] })

theorem run_status {α : Type} (name : String) (act : KernelM α) (k : Kernel) :
    (status name act).run k = collapse name some none (act.run.run k) := by
  unfold status
  rw [StateT.run_bind]
  rcases act.run.run k with ⟨_ | a, k'⟩ <;> rfl

/-- A negative descriptor is refused before anything runs. -/
theorem run_descriptor_bind {α : Type} (fd : Int) (f : Nat → KernelM α) (k : Kernel) :
    (descriptor fd >>= f).run.run k =
      if fd < 0 then (.error .invalidDescriptor, k) else (f fd.toNat).run.run k := by
  unfold descriptor
  by_cases h : fd < 0
  · rw [if_pos h, if_pos h]
    rfl
  · rw [if_neg h, if_neg h]
    rfl

/-- The file system call of a kernel action changes the file system as it does on its own. -/
theorem run_fs {α : Type} (act : VfsM α) (k : Kernel) :
    (fs act).run.run k = ((act.run k.vfs).1,
      { vfs := { (act.run k.vfs).2 with journal := #[] },
        log := k.log.acceptAll (act.run k.vfs).2.journal.toList }) := rfl

/-- A kernel action whose file system call succeeded: the call succeeded on the kernel's file
system. -/
theorem run_ok_of_fs {α : Type} {act : VfsM α} {k k' : Kernel} {a : α}
    (h : (fs act).run.run k = (.ok a, k')) : act.run k.vfs = (.ok a, (act.run k.vfs).2) := by
  rw [run_fs] at h
  have h1 : (act.run k.vfs).1 = .ok a := congrArg Prod.fst h
  exact Prod.ext h1 rfl

/-- In a sound state an open answers a descriptor below the configured limit of 64. -/
theorem open_lt {k : Kernel} (hs : Sound {} k.vfs) {path : String} {flags : OpenFlags} {fd : Nat}
    {w' : Vfs} (h : (openFile path flags).run k.vfs = (.ok fd, w')) : fd < 64 := by
  have hlt := (openFile_least_free hs h).1.lt_limit
  rw [hs.fdLimit] at hlt
  exact hlt

section Calls

variable (k : Kernel)

theorem sysOpen_eq (hs : Sound {} k.vfs) (path : String) (bits : UInt32) :
    (sysOpen path bits).run k = collapse "sys_open" (fun fd : Nat => (fd : Int)) (-1)
      ((fs (openFile path ⟨bits⟩)).run.run k) := by
  unfold sysOpen
  rw [StateT.run_bind, run_status]
  rcases hr : (fs (openFile path ⟨bits⟩)).run.run k with ⟨_ | fd, k'⟩
  · rfl
  · -- a descriptor below 64 fits a signed 32-bit integer, so it is answered as it is
    have hfd := open_lt hs (run_ok_of_fs hr)
    show (if fd < Nat.pow 2 31 then (fd : Int) else -1, k') = ((fd : Int), k')
    rw [if_pos (Nat.lt_trans hfd (by decide))]

theorem sysClose_eq (fd : Int) :
    (sysClose fd).run k = collapse "sys_close" (fun _ : Unit => (0 : Int)) (-1)
      (if fd < 0 then (.error .invalidDescriptor, k) else (fs (close fd.toNat)).run.run k) := by
  unfold sysClose
  rw [StateT.run_bind, run_status, run_descriptor_bind]
  split
  · rfl
  · rcases (fs (close fd.toNat)).run.run k with ⟨_ | _, k'⟩ <;> rfl

theorem sysRead_eq (fd : Int) (buf n : Nat) :
    (sysRead fd buf n).run k = collapse "sys_read" (fun b : ByteArray => ((b.size : Int), b))
      (-1, .empty)
      (if fd < 0 then (.error .invalidDescriptor, k)
        else (fs (read fd.toNat (min n buf))).run.run k) := by
  unfold sysRead
  rw [StateT.run_bind, run_status, run_descriptor_bind]
  split
  · rfl
  · rcases (fs (read fd.toNat (min n buf))).run.run k with ⟨_ | _, k'⟩ <;> rfl

theorem sysWrite_eq (fd : Int) (data : ByteArray) (n : Nat) :
    (sysWrite fd data n).run k = collapse "sys_write" (fun c : Nat => (c : Int)) (-1)
      (if fd < 0 then (.error .invalidDescriptor, k)
        else (fs (write fd.toNat (data.extract 0 (min n data.size)))).run.run k) := by
  unfold sysWrite
  rw [StateT.run_bind, run_status, run_descriptor_bind]
  split
  · rfl
  · rcases (fs (write fd.toNat (data.extract 0 (min n data.size)))).run.run k with
      ⟨_ | _, k'⟩ <;> rfl

theorem sysSeek_eq (fd offset whence : Int) :
    (sysSeek fd offset whence).run k = collapse "sys_lseek" (fun p : Nat => (p : Int)) (-1)
      (if fd < 0 then (.error .invalidDescriptor, k)
        else match SeekOrigin.ofCode? whence with
          | some o => (fs (seek fd.toNat offset o)).run.run k
          | none => (.error .invalidArgument, k)) := by
  unfold sysSeek
  rw [StateT.run_bind, run_status, run_descriptor_bind]
  split
  · rfl
  · -- the origin is read before the file system is touched
    cases SeekOrigin.ofCode? whence with
    | none => rfl
    | some o =>
      dsimp only
      rcases hr : (fs (seek fd.toNat offset o)).run.run k with ⟨_ | p, k'⟩
      · rfl
      · -- a position is at most the largest offset, so it fits a signed 64-bit integer
        have hp := seek_le_maxOffset (run_ok_of_fs hr)
        show (if p < Nat.pow 2 63 then (p : Int) else -1, k') = ((p : Int), k')
        rw [if_pos (Nat.lt_of_le_of_lt hp (by decide))]

theorem sysMount_eq (device path fsType : String) :
    (sysMount device path fsType).run k = collapse "sys_mount" (fun _ : Unit => (0 : Int)) (-1)
      ((fs (mount device path fsType)).run.run k) := by
  unfold sysMount
  rw [StateT.run_bind, run_status]
  rcases (fs (mount device path fsType)).run.run k with ⟨_ | _, k'⟩ <;> rfl

end Calls

/-! ## Soundness is kept -/

theorem sound_fs {α : Type} {config : Config} {act : VfsM α} (hk : Keeps config act) {k : Kernel}
    (hs : Sound config k.vfs) : Sound config ((fs act).run.run k).2.vfs := by
  rw [run_fs]
  exact (hk _ hs).cleared

theorem vfs_collapse {α β : Type} (name : String) (answer : α → β) (failed : β)
    (r : Except FsError α × Kernel) : (collapse name answer failed r).2.vfs = r.2.vfs := by
  rcases r with ⟨_ | _, k⟩ <;> rfl

/-- Every system call leaves a sound file system behind, so the equations of
`syscalls_collapse_vfs_calls` hold again after it. -/
theorem syscalls_keep_sound {k : Kernel} (hs : Sound {} k.vfs) :
    (∀ path bits, Sound {} ((sysOpen path bits).run k).2.vfs) ∧
    (∀ fd, Sound {} ((sysClose fd).run k).2.vfs) ∧
    (∀ fd buf n, Sound {} ((sysRead fd buf n).run k).2.vfs) ∧
    (∀ fd data n, Sound {} ((sysWrite fd data n).run k).2.vfs) ∧
    (∀ fd offset whence, Sound {} ((sysSeek fd offset whence).run k).2.vfs) ∧
    (∀ device path fsType, Sound {} ((sysMount device path fsType).run k).2.vfs) := by
  refine ⟨fun path bits => ?_, fun fd => ?_, fun fd buf n => ?_, fun fd data n => ?_,
    fun fd offset whence => ?_, fun device path fsType => ?_⟩
  · rw [sysOpen_eq k hs, vfs_collapse]
    exact sound_fs (keeps_openFile path _) hs
  · rw [sysClose_eq, vfs_collapse]
    split
    · exact hs
    · exact sound_fs (keeps_close _) hs
  · rw [sysRead_eq, vfs_collapse]
    split
    · exact hs
    · exact sound_fs (keeps_read _ _) hs
  · rw [sysWrite_eq, vfs_collapse]
    split
    · exact hs
    · exact sound_fs (keeps_write _ _) hs
  · rw [sysSeek_eq, vfs_collapse]
    split
    · exact hs
    · cases SeekOrigin.ofCode? whence with
      | none => exact hs
      | some o => exact sound_fs (keeps_seek _ _ o) hs
  · rw [sysMount_eq, vfs_collapse]
    exact sound_fs (keeps_mount device path fsType) hs

/-! ## The collapse -/

/-- The integer system calls are the collapse of the file system calls, in every sound state of
the global file system (64 descriptors). An open is the file system's open with the flag word
as its flags; a close, read, write or seek of a negative descriptor is refused as a bad
descriptor, and otherwise is the file system's call on that descriptor; a read asks for the
smaller of the count and the buffer, a write gives the first that many bytes, and a seek whose
code names no origin is refused as an invalid argument before the file system is touched; a
mount is the file system's mount. Each answers its value on success and -1 with the error
printed otherwise, and no success answer is cut: an open answers a descriptor below 64, a read
and a write at most the bytes they were given, and a seek a position below the signed word's
end. -/
theorem syscalls_collapse_vfs_calls (k : Kernel) (hs : Sound {} k.vfs) :
    (∀ path bits, (sysOpen path bits).run k = collapse "sys_open" (fun fd : Nat => (fd : Int))
      (-1) ((fs (openFile path ⟨bits⟩)).run.run k)) ∧
    (∀ fd, (sysClose fd).run k = collapse "sys_close" (fun _ : Unit => (0 : Int)) (-1)
      (if fd < 0 then (.error .invalidDescriptor, k) else (fs (close fd.toNat)).run.run k)) ∧
    (∀ fd buf n, (sysRead fd buf n).run k =
      collapse "sys_read" (fun b : ByteArray => ((b.size : Int), b)) (-1, .empty)
        (if fd < 0 then (.error .invalidDescriptor, k)
          else (fs (read fd.toNat (min n buf))).run.run k)) ∧
    (∀ fd data n, (sysWrite fd data n).run k = collapse "sys_write" (fun c : Nat => (c : Int)) (-1)
      (if fd < 0 then (.error .invalidDescriptor, k)
        else (fs (write fd.toNat (data.extract 0 (min n data.size)))).run.run k)) ∧
    (∀ fd offset whence, (sysSeek fd offset whence).run k =
      collapse "sys_lseek" (fun p : Nat => (p : Int)) (-1)
        (if fd < 0 then (.error .invalidDescriptor, k)
          else match SeekOrigin.ofCode? whence with
            | some o => (fs (seek fd.toNat offset o)).run.run k
            | none => (.error .invalidArgument, k))) ∧
    (∀ device path fsType, (sysMount device path fsType).run k =
      collapse "sys_mount" (fun _ : Unit => (0 : Int)) (-1)
        ((fs (mount device path fsType)).run.run k)) ∧
    (∀ path flags fd w', (openFile path flags).run k.vfs = (.ok fd, w') → fd < 64) ∧
    (∀ fd len b w', (read fd len).run k.vfs = (.ok b, w') → b.size ≤ len) ∧
    (∀ fd b c w', (write fd b).run k.vfs = (.ok c, w') → c ≤ b.size) ∧
    (∀ fd offset origin p w', (seek fd offset origin).run k.vfs = (.ok p, w') →
      p < Nat.pow 2 63) := by
  refine ⟨sysOpen_eq k hs, sysClose_eq k, sysRead_eq k, sysWrite_eq k, sysSeek_eq k, sysMount_eq k,
    fun _ _ _ _ h => open_lt hs h, fun _ _ _ _ h => read_size_le h,
    fun _ _ _ _ h => write_count_le h, fun _ _ _ _ _ h => ?_⟩
  have hle := seek_le_maxOffset h
  have hmax : maxOffset < Nat.pow 2 63 := by decide
  omega

/-- On the booted kernel a close of a negative descriptor answers -1, prints the refusal and
leaves the file system as it was. -/
theorem boot_close_of_negative :
    (sysClose (-1)).run (boot {}) =
      collapse "sys_close" (fun _ : Unit => (0 : Int)) (-1) (.error .invalidDescriptor, boot {}) := by
  have h := (syscalls_collapse_vfs_calls (boot {}) (sound_fresh {})).2.1 (-1)
  rw [if_pos (by decide)] at h
  exact h

end KernelFs.Kernel
