import KernelFs.Proofs.Vfs.Reachable

/-!
# Opening and closing descriptors

An open (`Vfs::open`, src/crates/vfs/src/vfs.rs:87-114) checks its access mode, then that the
descriptor table has room, and only then resolves its path; so when the table is full it fails with
`descriptorsExhausted` having written one warning and nothing else (`openFile_exhausted`). Past that
check it cannot fail once it has changed anything: the creation of a missing file comes last in the
resolution, a file just created can always be cut to nothing, and the table, which resolution and
truncation leave alone, still has room for the new file. So an open either fails having written
nothing but notes, or succeeds with the descriptor that allocating its file in the table it found
returns (`openFile_ends`): the least free one.

Results:
* `openFile_ends`: how an open ends.
* `openFile_least_free`: a successful open answers the least descriptor that held no file, and
  installs its file there alone.
* `close_ok`, `close_error`: a close succeeds exactly on a descriptor that holds a file, and
  frees that descriptor alone.
-/

namespace KernelFs.Vfs

open Memory

/-- How an open may end from `w`: a failure wrote nothing but notes; a success answers the
descriptor that allocating the opened file in the table of `w` returns, and leaves the table
that allocation gives. -/
def OpenEnds (w : Vfs) (flags : OpenFlags) : Except FsError Nat × Vfs → Prop
  | (.error _, w') => Noted w w'
  | (.ok fd, w') => ∃ n files, w.files.alloc ⟨n, 0, flags⟩ = .ok (fd, files) ∧ w'.files = files

/-- The end of an open, from a state whose table is the one it found and has room: the
allocation succeeds, and what follows it cannot fail. -/
theorem openEnds_tail {w w3 : Vfs} {n : Node Handle} {flags : OpenFlags}
    {k : Nat × FdTable OpenFile → VfsM Nat} (hfiles : w3.files = w.files)
    (hfree : w.files.hasFree = true)
    (hk : ∀ fd files w4, ∃ w5, (k (fd, files)).run w4 = (.ok fd, w5) ∧ w5.files = files) :
    OpenEnds w flags ((get >>= fun w0 => ofExcept (w0.files.alloc ⟨n, 0, flags⟩) >>= k).run w3) := by
  obtain ⟨fd, files, halloc⟩ := FdTable.alloc_ok_of_hasFree (a := ⟨n, 0, flags⟩) hfree
  obtain ⟨w5, hrun, hw5⟩ := hk fd files w3
  rw [run_bind_ok (run_get w3), run_bind, run_ofExcept, hfiles, halloc]
  dsimp only
  rw [hrun]
  exact ⟨n, files, halloc, hw5⟩

/-- What an open does once its file has a descriptor: the table takes the file, its node hears
of the open, and a note is written. None of it can fail. -/
theorem open_rest_ok (path : String) (n : Node Handle) (flags : OpenFlags) (fd : Nat)
    (files : FdTable OpenFile) (w4 : Vfs) :
    ∃ w5, ((modify fun w => { w with files := (fd, files).2 } : VfsM PUnit) >>= fun _ =>
      (ExceptT.lift (n.notifyOpen Handle.inode flags) : VfsM Unit) >>= fun _ =>
      (liftM (note .debug vfsSource ["vfs: open '", path, "' -> fd ", Nat.repr (fd, files).1]) :
        VfsM Unit) >>= fun _ => pure (fd, files).1).run w4 = (.ok fd, w5) ∧ w5.files = files := by
  exact ⟨_, rfl, files_notifyOpen n flags _⟩

/-- Every open from a state whose stores are valid ends as `OpenEnds` says. -/
theorem openFile_ends (path : String) (flags : OpenFlags) {w : Vfs} (hv : StoresValid w) :
    OpenEnds w flags ((openFile path flags).run w) := by
  unfold openFile
  dsimp only
  simp only [throw_bind]
  split
  · exact Noted.refl w
  rw [run_bind_ok (run_get w)]
  split
  · -- no descriptor is free: a warning, then the refusal
    rw [run_bind, run_liftM, run_note]
    exact noted_journal w _
  rename_i hfree
  have hfree' : w.files.hasFree = true := by simpa using hfree
  rw [run_bind]
  have hroot := inert_root w
  rcases hr : root.run w with ⟨e1 | r, w1⟩ <;> rw [hr] at hroot
  · exact hroot
  dsimp only
  rw [run_bind]
  have hv1 := hroot.storesValid hv
  rcases hres : (resolve r path flags).run w1 with ⟨e2 | n, w2⟩
  · exact hroot.trans (noted_of_resolve_error hv1 hres)
  dsimp only
  have hback : Backed w w2 := by
    have := confined_resolve r path flags w1
    rw [hres] at this
    exact hroot.backed.trans this
  split
  · rw [run_bind]
    rcases ht : (n.truncate Handle.inode 0).run w2 with ⟨e3 | u, w3⟩
    · -- the truncation failed, so the file was there before: nothing but notes were written
      have h3 := (truncate_changes n 0).2 w2 e3 w3 (hback.storesValid hv) ht
      rcases resolve_outcome r path flags hv1 with h2 | ⟨-, n', hn', hcreated⟩ <;>
        rw [hres] at *
      · exact hroot.trans (h2.trans h3)
      · cases hn'
        obtain ⟨w4, h4⟩ := truncate_created hcreated
        rw [ht] at h4
        cases h4
    · dsimp only
      have h3 := (truncate_changes n 0).1 w2
      rw [ht] at h3
      exact openEnds_tail (hback.trans h3).files_eq hfree' (open_rest_ok path n flags)
  · exact openEnds_tail hback.files_eq hfree' (open_rest_ok path n flags)

/-- A valid access mode with every descriptor taken: the open writes one warning and refuses,
before it looks at the path. -/
theorem openFile_exhausted (path : String) {flags : OpenFlags} {w : Vfs}
    (hmode : flags.accessMode?.isSome = true) (hfull : w.files.hasFree = false) :
    (openFile path flags).run w = (.error .descriptorsExhausted, { w with
      journal := w.journal.push ⟨.warn, vfsSource, ["vfs: descriptor table exhausted (",
        Nat.repr w.files.limit, " slots), cannot open '", path, "'"]⟩ }) := by
  have hmode' : flags.accessMode?.isNone = false := by
    cases h : flags.accessMode? <;> simp_all
  unfold openFile
  simp only [hmode', Bool.false_eq_true, if_false, run_bind_ok (run_get w), hfull, Bool.not_false,
    if_true, run_bind, run_liftM, run_note, throw_bind, run_throw]

/-- A successful open from a sound state answers the least descriptor that held no file, below
the limit, and installs its file there alone. -/
theorem openFile_least_free {config : Config} {w w' : Vfs} (hw : Sound config w) {path : String}
    {flags : OpenFlags} {fd : Nat} (hrun : (openFile path flags).run w = (.ok fd, w')) :
    FdTable.LeastFree w.files fd ∧ (∃ n, w'.files.get? fd = some ⟨n, 0, flags⟩) ∧
      ∀ k, k ≠ fd → w'.files.get? k = w.files.get? k := by
  have hends := openFile_ends path flags hw.stores
  rw [hrun] at hends
  obtain ⟨n, files, halloc, hfiles⟩ := hends
  obtain ⟨hleast, -, -, hget⟩ := FdTable.alloc_eq_ok hw.files halloc
  refine ⟨hleast, ⟨n, by rw [hfiles, hget, if_pos rfl]⟩, fun k hk => ?_⟩
  rw [hfiles, hget, if_neg hk]

/-- Closing a descriptor that holds no file is refused, and changes nothing. -/
theorem close_error {fd : Nat} {w : Vfs} (h : w.files.get? fd = none) :
    (close fd).run w = (.error .invalidDescriptor, w) := by
  unfold close
  rw [run_bind_ok (run_get w), run_bind, run_ofExcept, FdTable.close_eq_error h]

/-- Closing a descriptor that holds a file frees that descriptor alone. -/
theorem close_ok {fd : Nat} {w : Vfs} {f : OpenFile} (h : w.files.get? fd = some f) :
    ∃ w', (close fd).run w = (.ok (), w') ∧
      ∀ k, w'.files.get? k = if k = fd then none else w.files.get? k := by
  obtain ⟨t', hc, -, -, hget⟩ := FdTable.close_eq_ok h
  have hrun : (close fd).run w =
      (.ok (), { (f.node.notifyClose Handle.inode { w with files := t' }).2 with
        journal := (f.node.notifyClose Handle.inode { w with files := t' }).2.journal.push
          ⟨.debug, vfsSource, ["vfs: close fd ", Nat.repr fd]⟩ }) := by
    unfold close
    rw [run_bind_ok (run_get w), run_bind, run_ofExcept, hc]
    rfl
  refine ⟨_, hrun, fun k => ?_⟩
  show (f.node.notifyClose Handle.inode { w with files := t' }).2.files.get? k = _
  rw [files_notifyClose]
  exact hget k

/-! ## The discipline of descriptors -/

/-- The discipline of descriptors. Take a table that calls built from an empty one of limit
`limit`. It has at most `limit` slots. An allocation answers the least descriptor below the limit
that holds no file and installs its file there alone; it fails, with `descriptorsExhausted`,
exactly when every descriptor below the limit holds a file. There is room exactly when fewer
than `limit` descriptors are in use. A close succeeds exactly on a descriptor that holds a file,
and frees that one alone. A descriptor holds the file of the last allocation that returned it,
unless a close of it or an emptying came after, and `get` answers that file or
`invalidDescriptor`. `takeAll` hands back exactly the held pairs, in increasing order of
descriptor, and frees every descriptor.

In every reachable file system the table has at most the configured number of slots. A
successful open answers the least descriptor that held no file and installs its file there
alone. With every descriptor below the configured number taken, an open with a valid access
mode is refused with `descriptorsExhausted` before its path is looked at, writing notes and
nothing else. A close succeeds exactly on a descriptor that holds a file, and frees that one
alone. -/
theorem descriptor_table_discipline :
    (∀ (limit : Nat) (calls : List (FdTable.Call OpenFile)),
      let t := (FdTable.run (FdTable.empty limit) calls).2
      let replay := fun fd => (FdTable.run (FdTable.empty limit) calls).1.foldl
        (fun h r => r.holds fd h) none
      t.limit = limit ∧ t.slots.size ≤ limit ∧
      (∀ (a : OpenFile) (fd : Nat) (t' : FdTable OpenFile), t.alloc a = .ok (fd, t') →
        FdTable.LeastFree t fd ∧ ∀ k, t'.get? k = if k = fd then some a else t.get? k) ∧
      (∀ a : OpenFile, (∃ e, t.alloc a = .error e) ↔ ∀ k < limit, (t.get? k).isSome) ∧
      (∀ (a : OpenFile) (e : FsError), t.alloc a = .error e → e = .descriptorsExhausted) ∧
      (t.hasFree = true ↔ t.used < limit) ∧
      (∀ fd, t.get? fd = none → t.close fd = .error .invalidDescriptor) ∧
      (∀ fd a, t.get? fd = some a → ∃ t', t.close fd = .ok (a, t') ∧
        ∀ k, t'.get? k = if k = fd then none else t.get? k) ∧
      (∀ fd a, t.get fd = .ok a ↔ replay fd = some a) ∧
      (∀ fd e, t.get fd = .error e ↔ replay fd = none ∧ e = .invalidDescriptor) ∧
      (∀ p, p ∈ t.takeAll.1 ↔ t.get? p.1 = some p.2) ∧
      (t.takeAll.1.map Prod.fst).Pairwise (· < ·) ∧
      (∀ k, t.takeAll.2.get? k = none)) ∧
    (∀ (config : Config) (w : Vfs), Reachable config w →
      w.files.slots.size ≤ config.maxFds ∧
      (∀ path flags fd w', (openFile path flags).run w = (.ok fd, w') →
        FdTable.LeastFree w.files fd ∧ (∃ n, w'.files.get? fd = some ⟨n, 0, flags⟩) ∧
          ∀ k, k ≠ fd → w'.files.get? k = w.files.get? k) ∧
      (∀ path (flags : OpenFlags), flags.accessMode?.isSome = true →
        (∀ k < config.maxFds, (w.files.get? k).isSome) →
        ∃ journal, (openFile path flags).run w = (.error .descriptorsExhausted, { w with journal })) ∧
      (∀ fd, (w.files.get? fd).isSome = true ↔ ∃ w', (close fd).run w = (.ok (), w')) ∧
      (∀ fd w', (close fd).run w = (.ok (), w') →
        ∀ k, w'.files.get? k = if k = fd then none else w.files.get? k)) := by
  refine ⟨fun limit calls => ?_, fun config w hw => ?_⟩
  · -- every table that calls build from an empty one is bounded, with the limit it started with
    obtain ⟨hb, hlim, -⟩ := FdTable.run_spec calls _ (FdTable.bounded_empty (α := OpenFile) limit)
    have hreplay := FdTable.get?_run limit calls
    change _ = limit at hlim
    refine ⟨hlim, by unfold FdTable.Bounded at hb; omega, fun a fd t' h => ?_,
      fun a => by have h := FdTable.alloc_fails_iff (a := a) hb; rwa [hlim] at h,
      fun a e h => (FdTable.alloc_eq_error h).1,
      by have h := FdTable.hasFree_iff_used_lt hb; rwa [hlim] at h,
      fun fd h => FdTable.close_eq_error h, fun fd a h => ?_, fun fd a => ?_, fun fd e => ?_,
      FdTable.mem_takeAll, FdTable.pairwise_takeAll _, FdTable.get?_takeAll _⟩
    · obtain ⟨hleast, -, -, hget⟩ := FdTable.alloc_eq_ok hb h
      exact ⟨hleast, hget⟩
    · obtain ⟨t', hc, -, -, hget⟩ := FdTable.close_eq_ok h
      exact ⟨t', hc, hget⟩
    · rw [FdTable.get_eq_ok_iff, hreplay]
    · rw [FdTable.get_eq_error_iff, hreplay]
  · have hs := hw.sound
    refine ⟨hs.fdLimit ▸ hs.files, fun path flags fd w' hrun => openFile_least_free hs hrun,
      fun path flags hmode hfull => ⟨_, openFile_exhausted path hmode ?_⟩, fun fd => ?_,
      fun fd w' hrun => ?_⟩
    · -- every descriptor below the limit is taken, so the table has no room
      cases hfree : w.files.hasFree with
      | false => rfl
      | true =>
        obtain ⟨k, hk, hnone⟩ := (FdTable.hasFree_iff_exists hs.files).mp hfree
        have := hfull k (hs.fdLimit ▸ hk)
        rw [hnone] at this
        cases this
    · constructor
      · intro hsome
        obtain ⟨f, hf⟩ := Option.isSome_iff_exists.mp hsome
        obtain ⟨w', hrun, -⟩ := close_ok hf
        exact ⟨w', hrun⟩
      · rintro ⟨w', hrun⟩
        cases hf : w.files.get? fd with
        | none => rw [close_error hf] at hrun; cases hrun
        | some f => rfl
    · cases hf : w.files.get? fd with
      | none => rw [close_error hf] at hrun; cases hrun
      | some f =>
        obtain ⟨w'', hrun', hget⟩ := close_ok hf
        rw [hrun] at hrun'
        cases hrun'
        exact hget

/-- After two allocations and a close of the first, descriptor 0 is the least free one again;
and with no descriptors configured, every open with a valid access mode is refused. -/
theorem closed_descriptor_is_reused :
    FdTable.LeastFree (FdTable.run (FdTable.empty 2)
      [.alloc (default : OpenFile), .alloc default, .close 0]).2 0 ∧
    ∃ journal, (openFile "/a" OpenFlags.readOnly).run (fresh { maxFds := 0 }) =
      (.error .descriptorsExhausted, { fresh { maxFds := 0 } with journal }) :=
  ⟨((descriptor_table_discipline.1 2 _).2.2.1 default 0 ⟨#[some default, some default], 2⟩
      (by simp [FdTable.run, FdTable.Call.step, FdTable.alloc, FdTable.close, FdTable.get,
        FdTable.empty, List.findIdx?_cons])).1,
    (descriptor_table_discipline.2 _ _ .fresh).2.2.1 "/a" OpenFlags.readOnly (by decide)
      fun k hk => absurd hk (Nat.not_lt_zero k)⟩

end KernelFs.Vfs
