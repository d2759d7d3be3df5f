import KernelFs.Proofs.Vfs.Reachable

/-!
# Registering and mounting

The registry and the mounted root form a small state machine beside the tree (`FsRegistry`,
src/crates/vfs/src/file_system.rs:28-72, and `MountTable`, src/crates/vfs/src/mount.rs:30-118).
Registering appends while there is room and is refused otherwise; a lookup finds the newest
registration of a name. Mounting checks, in order, that a type of the name is registered, that the
path is the root, that the type's backend yields a root and that the root is a directory, and only
then replaces the mounted root; unmounting checks the path and that something is mounted, then
clears the root and calls the backend's unmount hook once. Neither touches a memory store or a
descriptor: a mount writes the mounted root and notes, an unmount the root, the sample counters
through the hook, and notes.

Results:
* `run_register`: a registration appends exactly when the registry has room.
* `lookup_push`: a lookup finds the newest registration of a name.
* `mount_of_lookup_none`, `mount_of_path`, `mount_of_root_error`, `mount_of_not_dir`,
  `mount_ok`: every way a mount can end.
* `umount_of_path`, `umount_of_none`, `umount_ok`: every way an unmount can end.
-/

namespace KernelFs

namespace Registry

variable {β : Type}

/-- A lookup finds the newest registration of a name. -/
theorem lookup_push (r : Registry β) (name : String) (b : β) (t : String) :
    (r.push name b).lookup t = if name = t then some b else r.lookup t := by
  unfold push lookup
  by_cases h : name = t <;> simp [h]

/-- A registration is appended: the names keep their order, and a repeated name stays. -/
theorem names_push (r : Registry β) (name : String) (b : β) :
    (r.push name b).names = r.names ++ [name] := by
  simp [push, names]

theorem full_iff (r : Registry β) : r.full = true ↔ r.capacity ≤ r.size := by
  simp [full, size]

end Registry

namespace Vfs

/-! ## Registering -/

/-- A registration appends the entry when the registry has room and is refused otherwise;
either way it writes notes and nothing else. -/
theorem run_register (name : String) (b : Backend) (w : Vfs) :
    ∃ journal, (register name b).run w =
      if w.registry.full then (.error .fullRegistry, { w with journal })
      else (.ok (), { w with registry := w.registry.push name b, journal }) := by
  unfold register
  rw [run_bind_ok (run_get w)]
  dsimp only
  simp only [throw_bind]
  by_cases hfull : w.registry.full = true
  · simp only [hfull, if_true, run_bind, run_liftM, run_note, run_throw]
    exact ⟨_, rfl⟩
  · simp only [hfull, Bool.false_eq_true, if_false]
    by_cases hhas : w.registry.has name = true
    · simp only [hhas, if_true, run_bind, run_liftM, run_note, run_modify]
      exact ⟨_, rfl⟩
    · simp only [hhas, Bool.false_eq_true, if_false, run_bind, run_liftM, run_note, run_modify]
      exact ⟨_, rfl⟩

/-! ## Mounting -/

section Mount

variable {w : Vfs} {device path fsType : String} {b : Backend}

/-- A type that is not registered is not found, whatever the path. -/
theorem mount_of_lookup_none (h : w.registry.lookup fsType = none) :
    ∃ journal, (mount device path fsType).run w = (.error .notFound, { w with journal }) := by
  unfold mount
  rw [run_bind_ok (run_get w)]
  dsimp only
  simp only [h, run_bind, run_liftM, run_note, run_throw]
  exact ⟨_, rfl⟩

/-- A registered type mounts only at the root. -/
theorem mount_of_path (h : w.registry.lookup fsType = some b) (hpath : path ≠ "/") :
    ∃ journal, (mount device path fsType).run w =
      (.error .unsupportedOperation, { w with journal }) := by
  unfold mount
  rw [run_bind_ok (run_get w)]
  dsimp only
  simp only [h, throw_bind]
  rw [if_pos (by simpa using hpath)]
  simp only [run_bind, run_liftM, run_note, run_throw]
  exact ⟨_, rfl⟩

/-- What the backend's root does to the state: notes at most. -/
theorem mountRoot_noted {w w1 : Vfs} {r : Except FsError (Node Handle)}
    (hr : (b.mountRoot device).run w = (r, w1)) : ∃ journal, w1 = { w with journal } := by
  have := inert_mountRoot b device w
  rw [hr] at this
  exact ⟨_, this⟩

/-- A backend that yields no root makes the mount fail. -/
theorem mount_of_root_error {e : FsError} {w1 : Vfs} (h : w.registry.lookup fsType = some b)
    (hr : (b.mountRoot device).run w = (.error e, w1)) :
    ∃ journal, (mount device "/" fsType).run w = (.error .mountFailed, { w with journal }) := by
  obtain ⟨j1, rfl⟩ := mountRoot_noted hr
  unfold mount
  rw [run_bind_ok (run_get w)]
  dsimp only
  simp only [h, throw_bind]
  rw [if_neg (by decide), run_bind]
  simp only [attempt, run_lift, hr, run_bind, run_liftM, run_note, run_throw]
  exact ⟨_, rfl⟩

/-- A backend whose root is no directory makes the mount fail. -/
theorem mount_of_not_dir {r : Node Handle} {w1 : Vfs} (h : w.registry.lookup fsType = some b)
    (hr : (b.mountRoot device).run w = (.ok r, w1)) (hd : r.isDir = false) :
    ∃ journal, (mount device "/" fsType).run w = (.error .mountFailed, { w with journal }) := by
  obtain ⟨j1, rfl⟩ := mountRoot_noted hr
  unfold mount
  rw [run_bind_ok (run_get w)]
  dsimp only
  simp only [h, throw_bind]
  rw [if_neg (by decide), run_bind]
  simp only [attempt, run_lift, hr, run_bind, run_pure, hd, Bool.not_false, if_true, run_liftM,
    run_note, run_throw]
  exact ⟨_, rfl⟩

/-- Past every check, the backend's root replaces the mounted root, and only notes are written
besides. -/
theorem mount_ok {r : Node Handle} {w1 : Vfs} (h : w.registry.lookup fsType = some b)
    (hr : (b.mountRoot device).run w = (.ok r, w1)) (hd : r.isDir = true) :
    ∃ journal, (mount device "/" fsType).run w =
      (.ok (), { w with mounted := some ⟨device, "/", fsType, b, r⟩, journal }) := by
  obtain ⟨j1, rfl⟩ := mountRoot_noted hr
  unfold mount
  rw [run_bind_ok (run_get w)]
  dsimp only
  simp only [h, throw_bind]
  rw [if_neg (by decide), run_bind]
  simp only [attempt, run_lift, hr, run_bind, run_pure, hd, Bool.not_true, Bool.false_eq_true,
    if_false, run_get, run_modify]
  split <;> exact ⟨_, rfl⟩

end Mount

@[simp] theorem run_mounts (w : Vfs) : mounts.run w = (.ok w.mounted.toList, w) := rfl

/-! ## Unmounting -/

/-- The unmount hook counts an unmount of the sample backend, and does nothing else. -/
theorem unmounted_eq (b : Backend) (w : Vfs) :
    (b.unmounted w).2 = { w with
      samples := if b = .sample then { w.samples with unmounts := w.samples.unmounts + 1 }
        else w.samples } := by
  cases b <;> rfl

theorem umount_of_path {path : String} (h : path ≠ "/") (w : Vfs) :
    (umount path).run w = (.error .unsupportedOperation, w) := by
  unfold umount
  rw [if_pos (by simpa using h)]
  rfl

theorem umount_of_none {w : Vfs} (h : w.mounted = none) :
    (umount "/").run w = (.error .notFound, w) := by
  unfold umount
  rw [if_neg (by decide)]
  simp [run_bind, h]

/-- Unmounting what is mounted clears the root and calls the backend's hook once. -/
theorem umount_ok {w : Vfs} {mp : MountPoint} (h : w.mounted = some mp) :
    ∃ journal, (umount "/").run w = (.ok (), { w with
      mounted := none
      samples := if mp.backend = .sample then { w.samples with unmounts := w.samples.unmounts + 1 }
        else w.samples
      journal }) := by
  unfold umount
  rw [if_neg (by decide)]
  simp only [run_bind, run_get, h, run_modify, run_liftM, unmounted_eq, run_note]
  exact ⟨_, rfl⟩

/-! ## The registry and the mounted root -/

/-- The registry and the mounted root as a state machine, in every reachable state. A
registration succeeds exactly when fewer than the configured number of types are registered, and
then appends its entry, keeping the earlier ones and their order; otherwise it is refused with
`fullRegistry` and writes notes only. A lookup finds the newest registration of a name. A mount
is refused with `notFound` when no type has the name, whatever the path; otherwise with
`unsupportedOperation` away from the root; otherwise with `mountFailed` when the newest type of
the name yields no root or a root that is no directory; a refused mount writes notes only, so
the mounted root is as it was. Otherwise the mount replaces the mounted root, which is then the
one mount listed. An unmount is refused with `unsupportedOperation` away from the root and with
`notFound` when nothing is mounted, changing nothing; otherwise it clears the root and calls the
backend's unmount hook once. No mount or unmount touches a memory store or a descriptor. -/
theorem registry_and_mount_table {config : Config} {w : Vfs} (hw : Reachable config w) :
    (∀ name b, (∃ w', (register name b).run w = (.ok (), w')) ↔
      w.registry.size < config.maxFilesystems) ∧
    (∀ name b, w.registry.size < config.maxFilesystems → ∃ journal,
      (register name b).run w = (.ok (), { w with registry := w.registry.push name b, journal })) ∧
    (∀ name b, config.maxFilesystems ≤ w.registry.size → ∃ journal,
      (register name b).run w = (.error .fullRegistry, { w with journal })) ∧
    (∀ name b, (w.registry.push name b).names = w.registry.names ++ [name]) ∧
    (∀ name b t, (w.registry.push name b).lookup t =
      if name = t then some b else w.registry.lookup t) ∧
    (∀ device path fsType, w.registry.lookup fsType = none → ∃ journal,
      (mount device path fsType).run w = (.error .notFound, { w with journal })) ∧
    (∀ device path fsType b, w.registry.lookup fsType = some b → path ≠ "/" → ∃ journal,
      (mount device path fsType).run w = (.error .unsupportedOperation, { w with journal })) ∧
    (∀ device fsType b e w1, w.registry.lookup fsType = some b →
      (b.mountRoot device).run w = (.error e, w1) → ∃ journal,
      (mount device "/" fsType).run w = (.error .mountFailed, { w with journal })) ∧
    (∀ device fsType b r w1, w.registry.lookup fsType = some b →
      (b.mountRoot device).run w = (.ok r, w1) → r.isDir = false → ∃ journal,
      (mount device "/" fsType).run w = (.error .mountFailed, { w with journal })) ∧
    (∀ device fsType b r w1, w.registry.lookup fsType = some b →
      (b.mountRoot device).run w = (.ok r, w1) → r.isDir = true → ∃ w',
      (mount device "/" fsType).run w = (.ok (), w') ∧
      Noted { w with mounted := some ⟨device, "/", fsType, b, r⟩ } w' ∧
      mounts.run w' = (.ok [⟨device, "/", fsType, b, r⟩], w') ∧ root.run w' = (.ok r, w')) ∧
    (∀ path, path ≠ "/" → (umount path).run w = (.error .unsupportedOperation, w)) ∧
    (w.mounted = none → (umount "/").run w = (.error .notFound, w)) ∧
    (∀ mp, w.mounted = some mp → ∃ journal, (umount "/").run w = (.ok (), { w with
      mounted := none
      samples := if mp.backend = .sample then { w.samples with unmounts := w.samples.unmounts + 1 }
        else w.samples
      journal })) := by
  have hcap := hw.sound.capacity
  have hfull : w.registry.full = true ↔ config.maxFilesystems ≤ w.registry.size := by
    rw [Registry.full_iff, hcap]
  refine ⟨fun name b => ?_, fun name b hlt => ?_, fun name b hle => ?_,
    fun name b => Registry.names_push _ _ _, fun name b t => Registry.lookup_push _ _ _ _,
    fun _ _ _ h => mount_of_lookup_none h, fun _ _ _ _ h hpath => mount_of_path h hpath,
    fun _ _ _ _ _ h hr => mount_of_root_error h hr, fun _ _ _ _ _ h hr hd => mount_of_not_dir h hr hd,
    fun _ _ _ _ _ h hr hd => ?_, fun _ hpath => umount_of_path hpath w, umount_of_none,
    fun _ h => umount_ok h⟩
  · -- a registration succeeds exactly when the registry is not full
    obtain ⟨journal, hrun⟩ := run_register name b w
    constructor
    · rintro ⟨w', hok⟩
      by_contra hge
      rw [if_pos (hfull.mpr (Nat.le_of_not_lt hge))] at hrun
      rw [hrun] at hok
      cases hok
    · intro hlt
      rw [if_neg (fun h => Nat.not_le_of_lt hlt (hfull.mp h))] at hrun
      exact ⟨_, hrun⟩
  · obtain ⟨journal, hrun⟩ := run_register name b w
    rw [if_neg (fun h => Nat.not_le_of_lt hlt (hfull.mp h))] at hrun
    exact ⟨journal, hrun⟩
  · obtain ⟨journal, hrun⟩ := run_register name b w
    rw [if_pos (hfull.mpr hle)] at hrun
    exact ⟨journal, hrun⟩
  · obtain ⟨journal, hrun⟩ := mount_ok h hr hd
    exact ⟨_, hrun, noted_journal _ journal, run_mounts _, rfl⟩

/-- On a fresh file system, a first registration is appended. -/
theorem first_registration_appends :
    ∃ journal, (register "memfs" (.memory 0)).run (fresh {}) =
      (.ok (), { fresh {} with registry := (fresh {}).registry.push "memfs" (.memory 0), journal }) :=
  (registry_and_mount_table (Reachable.fresh : Reachable {} (fresh {}))).2.1 "memfs" (.memory 0) (by decide)

end Vfs

end KernelFs
