import KernelFs.Proofs.Kernel.Balance
import KernelFs.Proofs.Vfs.MemoryRoot

/-!
# Running the self-test again

A successful self-test (src/basedos/src/selftest.rs:41-97) leaves its file system *settled*: the
store newest registered under the memory type is mounted at the root, and directly under the root
lies `test.txt`, whose content starts with the message. From a settled state every phase of the
self-test has one outcome, fixed by the test file alone. Bringing up the root mounts the same root
again. The write puts the message over the bytes that already hold it, which changes no store. The
read gives back the start of the content, and the listing is the root's. Each phase changes only the
descriptor table and the notes, and gives the table back.

So a second run after a successful one answers the same report, and leaves the registry, the
mounted root and every store as it found them.

Results:
* `Answers`: the one outcome of an action from every settled state, closed under sequencing.
* `answers_selftest`: from a settled state the self-test answers the report of the test file.
* `mountMemoryRoot_ok`, `initFs_ok`, `writeFile_eq_ok`, `writeFile_ok`: what a successful first
  run did, phase by phase.
* `selftest_ok_settled`: a successful run that leaves the memory type registered as a memory
  backend leaves the state settled, and answers the report of its test file.
-/

namespace KernelFs.Kernel

open Vfs (Sound memoryName memoryNode memoryMount memoryRoot)
open Memory (Store Record bytes)

variable {α β : Type} {config : Config}

/-! ## The settled state -/

/-- The bytes the self-test reads from the start of a file with content `d`. -/
def readBack (d : ByteArray) : ByteArray := ⟨⟨(bytes d).take (readBufferSize - 1)⟩⟩

/-- The names the self-test lists under the root of a store. -/
def rootNames (s : Store) : List String :=
  ((s.listing Store.rootIndex).map (·.name)).filter (!·.isEmpty)

/-- The test file as a run left it: the record in slot `slot` of the tree of memory store
`store`, holding `content`. -/
structure TestFile where
  store : Nat
  tree : Store
  slot : Nat
  record : Record
  content : ByteArray

/-- The report of a run over the test file: the length of the message, the text read back from
the content, and the names under the root. -/
def TestFile.report (p : TestFile) : Report :=
  ⟨selftestMessage.toUTF8.size, Text.decodeLossy (readBack p.content), rootNames p.tree⟩

/-- The state a successful self-test leaves over the test file `p`. -/
structure Settled (w : Vfs) (p : TestFile) : Prop where
  registered : w.registry.lookup memoryName = some (.memory p.store)
  mounted : w.mounted = some (memoryMount rootDevice p.store)
  stored : w.stores[p.store]? = some p.tree
  slot : p.tree.slot p.slot = some p.record
  parent : p.record.parent = some Store.rootIndex
  name : p.record.name = "test.txt"
  content : p.record.body = .file p.content
  message : bytes selftestMessage.toUTF8 <+: bytes p.content
  free : w.files.hasFree = true

/-- `v` is `u` with at most the descriptor table and the notes changed. -/
def Framed (u v : Vfs) : Prop := v = { u with files := v.files, journal := v.journal }

theorem Framed.refl (w : Vfs) : Framed w w := rfl

theorem Framed.trans {u v x : Vfs} (h₁ : Framed u v) (h₂ : Framed v x) : Framed u x := by
  unfold Framed at *
  rw [h₂, h₁]

section Settled

variable {w : Vfs} {p : TestFile}

theorem Settled.kind (h : Settled w p) : p.record.kind = .file := by
  simp [Record.kind, h.content]

theorem Settled.fileData (h : Settled w p) : p.tree.fileData p.slot p.record.ino = .ok p.content :=
  (Store.fileData_eq_ok_iff _ _ _ _).mpr ⟨p.record, h.slot, rfl, h.content⟩

theorem Settled.inode (h : Settled w p) (name : String) :
    (memoryNode p.store name p.slot p.record).inode = .memory p.store p.slot p.record.ino .file := by
  rw [← h.kind]
  rfl

/-- A settled state stays settled over the same file when only the table and the notes change and
the table holds the same files. -/
theorem Settled.framed {v : Vfs} (h : Settled w p) (hf : Framed w v)
    (hsame : FdTable.Same w.files v.files) (hb : w.files.Bounded) (hb' : v.files.Bounded) :
    Settled v p := by
  rw [hf]
  exact { h with free := (hsame.hasFree hb hb').trans h.free }

/-- Writing back the store an index holds leaves the stores as they were. -/
theorem modify_stores_self {stores : Array Store} {i : Nat} {s : Store} (h : stores[i]? = some s) :
    stores.modify i (fun _ => s) = stores := by
  apply Array.ext_getElem?
  intro j
  rw [Array.getElem?_modify]
  by_cases hij : i = j
  · subst hij
    simp [h]
  · simp [hij]

/-- In a settled state an open of the test file that does not truncate finds the file under the
root and gives its node the descriptor the table allocates. -/
theorem run_openFile_settled (hs : Sound config w) (hset : Settled w p) (flags : OpenFlags)
    (hmode : flags.accessMode?.isNone = false) (htr : flags.truncates = false) :
    ∃ fd files journal,
      files.get fd = .ok ⟨memoryNode p.store "test.txt" p.slot p.record, 0, flags⟩ ∧
      (Vfs.openFile selftestPath flags).run w = (.ok fd, { w with files, journal }) := by
  have hl := (hs.stores _ _ hset.stored).lookup_root_of_slot hset.slot hset.parent
  rw [hset.name] at hl
  have hres := Vfs.run_resolve_leaf (show Path.components selftestPath = .ok ["test.txt"] by decide)
    hset.stored (by decide) hset.slot hl flags
  obtain ⟨fd, files, journal, halloc, hrun⟩ :=
    Vfs.run_openFile_of_resolve hmode htr hset.free hset.mounted hres (Vfs.notifyOpen_memory rfl flags)
  obtain ⟨-, -, -, hget⟩ := FdTable.alloc_eq_ok hs.files halloc
  exact ⟨fd, files, journal, FdTable.get_eq_ok_iff.mpr (by rw [hget, if_pos rfl]), hrun⟩

end Settled

/-! ## One outcome from every settled state -/

/-- The change an action makes, read off one of its runs. -/
theorem Within.of_run {c : Vfs.Change} {act : KernelM α} (hw : Within c act) {k k' : Kernel}
    {r : Except FsError α} (h : act.run.run k = (r, k')) : c.holds k.vfs k'.vfs := by
  have hk := hw k
  rw [h] at hk
  exact hk

/-- From every sound state settled over `p`, the action answers `a`, changes only the table and
the notes, and leaves a sound state whose table holds the same files. -/
def Answers (config : Config) (p : TestFile) (act : KernelM α) (a : α) : Prop :=
  ∀ k, Sound config k.vfs → Settled k.vfs p → ∃ k', act.run.run k = (.ok a, k') ∧
    Framed k.vfs k'.vfs ∧ Sound config k'.vfs ∧ FdTable.Same k.vfs.files k'.vfs.files

variable {p : TestFile}

/-- An action that gives back the table answers `a` once it answers `a` inside the frame. -/
theorem Answers.of_within {act : KernelM α} {a : α} (hr : Within (.restoring config) act)
    (h : ∀ k, Sound config k.vfs → Settled k.vfs p →
      ∃ k', act.run.run k = (.ok a, k') ∧ Framed k.vfs k'.vfs) :
    Answers config p act a := by
  intro k hs hset
  obtain ⟨k', hrun, hf⟩ := h k hs hset
  exact ⟨k', hrun, hf, hr.of_run hrun hs⟩

theorem Answers.bind {x : KernelM α} {f : α → KernelM β} {a : α} {b : β}
    (hx : Answers config p x a) (hf : Answers config p (f a) b) : Answers config p (x >>= f) b := by
  intro k hs hset
  obtain ⟨k₁, hrun₁, hfr₁, hs₁, hsame₁⟩ := hx k hs hset
  obtain ⟨k₂, hrun₂, hfr₂, hs₂, hsame₂⟩ :=
    hf k₁ hs₁ (hset.framed hfr₁ hsame₁ hs.files hs₁.files)
  refine ⟨k₂, ?_, hfr₁.trans hfr₂, hs₂, hsame₁.trans hsame₂⟩
  rw [run_bind, hrun₁]
  exact hrun₂

theorem answers_pure (a : α) : Answers config p (pure a : KernelM α) a :=
  fun k hs _ => ⟨k, rfl, Framed.refl _, hs, FdTable.Same.refl _⟩

theorem answers_print (l : LogLevel) (frags : List String) : Answers config p (print l frags) () :=
  fun k hs _ => ⟨_, run_print l frags k, Framed.refl _, hs, FdTable.Same.refl _⟩

theorem answers_forM (l : List β) {f : β → KernelM PUnit} (hf : ∀ b, Answers config p (f b) ()) :
    Answers config p (l.forM f) () := by
  induction l with
  | nil => exact answers_pure _
  | cons b l ih => exact (hf b).bind ih

/-! ## The phases from a settled state -/

/-- Bringing up the root again mounts the root that is mounted. -/
theorem answers_mountMemoryRoot : Answers config p mountMemoryRoot () := by
  refine Answers.of_within restoring_mountMemoryRoot fun k hs hset => ?_
  obtain ⟨j, hmount⟩ :=
    Vfs.mount_memory hset.registered hset.stored (hs.stores _ _ hset.stored) rootDevice
  have hm := hset.mounted
  unfold memoryMount at hm
  rw [← hm] at hmount
  unfold mountMemoryRoot
  simp only [run_bind, run_attempt, run_fs, hmount, run_print]
  exact ⟨_, rfl, rfl⟩

theorem answers_initFs : Answers config p initFs () := by
  intro k hs hset
  obtain ⟨k', hrun, hrest⟩ := answers_mountMemoryRoot k hs hset
  refine ⟨k', ?_, hrest⟩
  have hreg : ¬ (k.vfs.registry.lookup memoryName).isNone = true := by simp [hset.registered]
  rw [initFs_eq, run_bind, run_get]
  dsimp only
  rw [if_neg hreg]
  exact hrun

/-- The write puts the message over the bytes that hold it: all of it is written and no store
changes. -/
theorem answers_writeFile :
    Answers config p (writeFile selftestPath selftestMessage.toUTF8) selftestMessage.toUTF8.size := by
  refine Answers.of_within (restoring_writeFile _ _) fun k hs hset => ?_
  obtain ⟨fd, files, journal, hget, hopen⟩ :=
    run_openFile_settled hs hset ⟨0x101⟩ (by decide) (by decide)
  have hwrite := Vfs.run_write_fd (w := { k.vfs with files, journal := #[] }) hget hset.stored
    hset.fileData (hset.inode _) (show OpenFlags.writable ⟨0x101⟩ = true by decide) hset.kind
    selftestMessage.toUTF8
  simp only [show (⟨0x101⟩ : OpenFlags).appends = false by decide, Bool.false_eq_true, if_false,
    Store.writeAt_prefixed hset.fileData hset.message (by decide)] at hwrite
  obtain ⟨files₂, journal₂, hrun₂, hget₂⟩ := hwrite
  rw [modify_stores_self hset.stored] at hrun₂
  obtain ⟨files₃, journal₃, hrun₃, -⟩ :=
    Vfs.run_close_quiet (w := { k.vfs with files := files₂, journal := #[] })
      (FdTable.get_eq_ok_iff.mp hget₂) (Vfs.notifyClose_memory rfl)
  unfold writeFile
  simp only [run_bind, run_fs, hopen, run_attempt, hrun₂, hrun₃, run_ofExcept, bne_self_eq_false,
    Bool.false_eq_true, if_false, run_pure]
  exact ⟨_, rfl, rfl⟩

/-- The read gives back the start of the content. -/
theorem answers_readFile :
    Answers config p (readFile selftestPath) (Text.decodeLossy (readBack p.content)) := by
  refine Answers.of_within (restoring_readFile _) fun k hs hset => ?_
  obtain ⟨fd, files, journal, hget, hopen⟩ :=
    run_openFile_settled hs hset .readOnly (by decide) (by decide)
  obtain ⟨r, hrun₂, hr⟩ := Vfs.run_read_fd (w := { k.vfs with files, journal := #[] }) hget
    hset.stored hset.fileData (hset.inode _) (by rfl) (readBufferSize - 1)
  have hback : r = readBack p.content := Memory.eq_of_bytes_eq (by rw [hr, List.drop_zero]; rfl)
  subst hback
  -- the read moved the cursor of the descriptor, which still holds the test file
  let f : OpenFile :=
    ⟨memoryNode p.store "test.txt" p.slot p.record, 0 + (readBack p.content).size, .readOnly⟩
  obtain ⟨files₃, journal₃, hrun₃, -⟩ :=
    Vfs.run_close_quiet (w := { k.vfs with files := files.update fd f, journal := #[] })
      (show (files.update fd f).get? fd = some f by simp [FdTable.get_eq_ok_iff.mp hget])
      (Vfs.notifyClose_memory rfl)
  simp only [f] at hrun₃
  unfold readFile
  simp only [run_bind, run_fs, hopen, run_attempt, hrun₂, hrun₃, run_ofExcept, run_pure]
  exact ⟨_, rfl, rfl⟩

/-- The listing is the root's. -/
theorem answers_readdir :
    Answers config p (fs (Vfs.readdir "/")) (p.tree.listing Store.rootIndex) := by
  refine Answers.of_within (within_fs (Vfs.inert_readdir _).within) fun k hs hset => ?_
  rw [run_fs, Vfs.run_readdir_memoryRoot hset.mounted rfl hset.stored (hs.stores _ _ hset.stored)]
  exact ⟨_, rfl, rfl⟩

theorem answers_reportBack (n : Nat) :
    Answers config p (reportBack n)
      ⟨n, Text.decodeLossy (readBack p.content), rootNames p.tree⟩ := by
  unfold reportBack
  refine (answers_print _ _).bind ((answers_print _ _).bind (answers_readFile.bind ?_))
  refine (answers_print _ _).bind ((answers_print _ _).bind (answers_readdir.bind ?_))
  refine (answers_forM _ fun _ => answers_print _ _).bind ?_
  dsimp only
  split
  · exact (answers_print _ _).bind ((answers_print _ _).bind (answers_pure _))
  · exact (answers_print _ _).bind (answers_pure _)

/-- From a settled state the self-test answers the report of the test file, changing only the
table and the notes, and gives the table back. -/
theorem answers_selftest : Answers config p selftest p.report := by
  rw [selftest_eq]
  exact (answers_print _ _).bind (answers_initFs.bind ((answers_print _ _).bind
    ((answers_print _ _).bind (answers_writeFile.bind (answers_reportBack _)))))

/-! ## What a successful first run did -/

section Inversion

variable {k k' : Kernel}

/-- A successful sequence: the first action succeeded, and the rest succeeded from where it
left off. -/
theorem run_bind_eq_ok {x : KernelM α} {f : α → KernelM β} {b : β}
    (h : (x >>= f).run.run k = (.ok b, k')) :
    ∃ a k₁, x.run.run k = (.ok a, k₁) ∧ (f a).run.run k₁ = (.ok b, k') := by
  rw [run_bind] at h
  rcases hx : x.run.run k with ⟨e | a, k₁⟩ <;> rw [hx] at h
  · cases h
  · exact ⟨a, k₁, rfl, h⟩

theorem run_fs_eq_ok {act : VfsM α} {a : α} (h : (fs act).run.run k = (.ok a, k')) :
    ∃ w, act.run k.vfs = (.ok a, w) ∧ k'.vfs = { w with journal := #[] } := by
  rw [run_fs] at h
  rcases hact : act.run k.vfs with ⟨r, w⟩
  rw [hact] at h
  cases h
  exact ⟨w, rfl, rfl⟩

theorem attempt_eq_ok {act : KernelM α} {r : Except FsError α}
    (h : (attempt act).run.run k = (.ok r, k')) : act.run.run k = (r, k') := by
  rw [run_attempt] at h
  cases h
  rfl

/-- A failure that is logged and passed on is no success. -/
theorem print_throw_ne_ok {l : LogLevel} {frags : List String} {e : FsError} {f : α → KernelM β}
    {b : β} : (print l frags >>= fun _ => (throw e : KernelM α) >>= f).run.run k ≠ (.ok b, k') := by
  intro h
  obtain ⟨_, _, -, h⟩ := run_bind_eq_ok h
  obtain ⟨_, _, h, -⟩ := run_bind_eq_ok h
  rw [run_throw] at h
  cases h

/-- A successful write of a file opened it, wrote all of the bytes through the descriptor and
closed it. -/
theorem writeFile_eq_ok {path : String} {data : ByteArray} {n : Nat}
    (h : (writeFile path data).run.run k = (.ok n, k')) :
    n = data.size ∧ ∃ fd w₁ w₂ w₃,
      (Vfs.openFile path ⟨0x101⟩).run k.vfs = (.ok fd, w₁) ∧
      (Vfs.write fd data).run { w₁ with journal := #[] } = (.ok n, w₂) ∧
      (Vfs.close fd).run { w₂ with journal := #[] } = (.ok (), w₃) ∧
      k'.vfs = { w₃ with journal := #[] } := by
  unfold writeFile at h
  obtain ⟨fd, k₁, h₁, h⟩ := run_bind_eq_ok h
  obtain ⟨got, k₂, h₂, h⟩ := run_bind_eq_ok h
  obtain ⟨_, k₃, h₃, h⟩ := run_bind_eq_ok h
  obtain ⟨m, k₄, h₄, h⟩ := run_bind_eq_ok h
  rw [run_ofExcept, Prod.mk.injEq] at h₄
  obtain ⟨rfl, rfl⟩ := h₄
  obtain ⟨w₁, hopen, hk₁⟩ := run_fs_eq_ok h₁
  obtain ⟨w₂, hwrite, hk₂⟩ := run_fs_eq_ok (attempt_eq_ok h₂)
  obtain ⟨w₃, hclose, hk₃⟩ := run_fs_eq_ok h₃
  rw [hk₁] at hwrite
  rw [hk₂] at hclose
  dsimp only at h
  split at h
  · -- a short write is refused
    exact absurd h print_throw_ne_ok
  · rename_i hfull
    rw [run_pure, Prod.mk.injEq] at h
    obtain ⟨⟨⟩, rfl⟩ := h
    exact ⟨by simpa using hfull, fd, w₁, w₂, w₃, hopen, hwrite, hclose, hk₃⟩

/-- A successful mount of the root, with the memory type registered as memory store `i`: the
store is there, and the mount table now holds its root. -/
theorem mountMemoryRoot_ok {i : Nat} (hsv : Vfs.StoresValid k.vfs)
    (hreg : k.vfs.registry.lookup memoryName = some (.memory i))
    (h : mountMemoryRoot.run.run k = (.ok (), k')) :
    ∃ s, k.vfs.stores[i]? = some s ∧
      k'.vfs = { k.vfs with mounted := some (memoryMount rootDevice i), journal := #[] } := by
  unfold mountMemoryRoot at h
  obtain ⟨r, k₁, h₁, h⟩ := run_bind_eq_ok h
  rw [run_attempt, run_fs] at h₁
  cases hs : k.vfs.stores[i]? with
  | none =>
    -- a missing store has no root: the mount fails, and the failure is passed on
    obtain ⟨j, hmount⟩ := Vfs.mount_memory_missing hreg hs rootDevice
    rw [hmount] at h₁
    cases h₁
    dsimp only at h
    exact absurd h print_throw_ne_ok
  | some s =>
    obtain ⟨j, hmount⟩ := Vfs.mount_memory hreg hs (hsv i s hs) rootDevice
    rw [hmount] at h₁
    cases h₁
    dsimp only at h
    rw [run_print] at h
    cases h
    exact ⟨s, rfl, rfl⟩

/-- A successful bring-up of the root from a sound state ended with a successful mount of the
root, from a sound state. -/
theorem initFs_ok (hs : Sound config k.vfs) (h : initFs.run.run k = (.ok (), k')) :
    ∃ κ : Kernel, Sound config κ.vfs ∧ mountMemoryRoot.run.run κ = (.ok (), k') := by
  rw [initFs_eq] at h
  obtain ⟨k₀, k₁, h₀, h⟩ := run_bind_eq_ok h
  rw [run_get] at h₀
  cases h₀
  dsimp only at h
  split at h
  · -- the memory type is registered first
    obtain ⟨_, k₂, hadd, h⟩ := run_bind_eq_ok h
    obtain ⟨_, κ, hprint, h⟩ := run_bind_eq_ok h
    rw [run_print] at hprint
    cases hprint
    have hs₂ := sound_fs (Vfs.keeps_addMemory rootBudget) hs
    rw [hadd] at hs₂
    refine ⟨_, ?_, h⟩
    exact hs₂
  · exact ⟨k, hs, h⟩

/-- A successful write of the message, from a sound state whose root is the mounted root of
memory store `i`: it wrote all of the message into a file that the root lists under `test.txt`
and that now starts with the message, so the state it leaves is settled. -/
theorem writeFile_ok {i : Nat} {s : Store} {n : Nat} (hs : Sound config k.vfs)
    (hreg : k.vfs.registry.lookup memoryName = some (.memory i))
    (hmnt : k.vfs.mounted = some (memoryMount rootDevice i)) (hstored : k.vfs.stores[i]? = some s)
    (h : (writeFile selftestPath selftestMessage.toUTF8).run.run k = (.ok n, k')) :
    n = selftestMessage.toUTF8.size ∧ ∃ p : TestFile, p.store = i ∧ Settled k'.vfs p := by
  obtain ⟨hn, fd, w₁, w₂, w₃, hopen, hwrite, hclose, hk'⟩ := writeFile_eq_ok h
  refine ⟨hn, ?_⟩
  obtain ⟨hfree, t, c, x, w₀, hback, ht, hx, hp, hname, hw₁, hget⟩ :=
    Vfs.openFile_leaf_ok hs hmnt rfl hstored
      (show Path.components selftestPath = .ok ["test.txt"] by decide) (by decide) (by decide) hopen
  -- the table is given back, so a descriptor is still free
  have hfree' : k'.vfs.files.hasFree = true := by
    obtain ⟨hs', hsame⟩ := (restoring_writeFile selftestPath selftestMessage.toUTF8).of_run h hs
    rw [hsame.hasFree hs.files hs'.files]
    exact hfree
  have hf : ({ w₁ with journal := #[] } : Vfs).files.get fd =
      .ok ⟨memoryNode i "test.txt" c x, 0, ⟨0x101⟩⟩ := FdTable.get_eq_ok_iff.mpr hget
  have hw : ({ w₁ with journal := #[] } : Vfs).stores[i]? = some t := by
    rw [hw₁]
    exact ht
  cases hb : x.body with
  | dir first =>
    -- a directory takes no byte, so the write was short
    have hdir : (memoryNode i "test.txt" c x).isDir = true := by
      simp [memoryNode, Node.isDir, Record.kind, hb]
    rw [Vfs.run_write_fd_dir hf (show OpenFlags.writable ⟨0x101⟩ = true by decide)
      (show OpenFlags.appends ⟨0x101⟩ = false by decide) hdir] at hwrite
    cases hwrite
    exact absurd hn (by decide)
  | file d =>
    have hd : t.fileData c x.ino = .ok d := (Store.fileData_eq_ok_iff _ _ _ _).mpr ⟨x, hx, rfl, hb⟩
    have hkind : x.kind = .file := by simp [Record.kind, hb]
    have hrun := Vfs.run_write_fd hf hw hd (by rw [← hkind]; rfl)
      (show OpenFlags.writable ⟨0x101⟩ = true by decide) hkind selftestMessage.toUTF8
    have hout := Store.writeAt_outcome hd 0 selftestMessage.toUTF8
    simp only [show OpenFlags.appends ⟨0x101⟩ = false by decide, Bool.false_eq_true, if_false,
      Nat.zero_add] at hrun
    rcases hwa : t.writeAt c x.ino 0 selftestMessage.toUTF8 with e | ⟨t₂, g⟩ <;>
      rw [hwa] at hrun hout
    · -- a write refused for lack of space fails the run
      obtain ⟨files, journal, hrun⟩ := hrun
      rw [hrun] at hwrite
      cases hwrite
    obtain ⟨files₂, journal₂, hrun, hget₂⟩ := hrun
    rw [hrun] at hwrite
    cases hwrite
    obtain ⟨files₃, journal₃, rfl⟩ :=
      Vfs.close_quiet_frame hclose (FdTable.get_eq_ok_iff.mp hget₂) (Vfs.notifyClose_memory rfl)
    -- the file keeps its place, name and parent, and now starts with the message
    obtain ⟨-, d', hd', hbytes⟩ := hout
    obtain ⟨y, hy, -, hyb⟩ := (Store.fileData_eq_ok_iff _ _ _ _).mp hd'
    have hv : t.Valid := hback.storesValid hs.stores i t ht
    obtain ⟨y', hy', -, hyname, hyparent, -⟩ := (hv.sameTree_writeAt hwa).slot_some hx
    rw [hy] at hy'
    cases hy'
    -- past the open, the run changed the table, the notes and the store it wrote
    have hframe : k'.vfs.registry = w₀.registry ∧ k'.vfs.mounted = w₀.mounted ∧
        k'.vfs.stores = w₀.stores.modify i (fun _ => t₂) := by
      rw [hk', hw₁]
      exact ⟨rfl, rfl, rfl⟩
    obtain ⟨hreg', hmnt', hstores'⟩ := hframe
    refine ⟨⟨i, t₂, c, y, d'⟩, rfl, ?registered, ?mounted, ?stored, hy, ?parent, ?name, hyb,
      ?message, hfree'⟩
    case registered => rw [hreg', hback.registry_eq, hreg]
    case mounted => rw [hmnt', hback.frame, hmnt]
    case stored => simp [hstores', Array.getElem?_modify, ht]
    case parent => rw [hyparent, hp]
    case name => rw [hyname, hname]
    case message =>
      rw [hbytes]
      exact Memory.prefix_overwrite_zero _ _

/-- A successful self-test from a sound state, after which the memory type is registered as a
memory backend, leaves the state settled over a test file, and answered the report of that
file. -/
theorem selftest_ok_settled {k₁ : Kernel} {r : Report} {i : Nat} (hs : Sound config k.vfs)
    (h : selftest.run.run k = (.ok r, k₁))
    (hreg : k₁.vfs.registry.lookup memoryName = some (.memory i)) :
    ∃ p, Settled k₁.vfs p ∧ r = p.report := by
  have hr₁ : k₁.vfs.registry = initRegistry k.vfs := by
    have hr := registry_selftest k
    rw [h] at hr
    exact hr
  rw [selftest_eq] at h
  obtain ⟨_, k₂, h₂, h⟩ := run_bind_eq_ok h
  obtain ⟨_, k₃, h₃, h⟩ := run_bind_eq_ok h
  obtain ⟨_, k₄, h₄, h⟩ := run_bind_eq_ok h
  obtain ⟨_, τ, h₅, h⟩ := run_bind_eq_ok h
  obtain ⟨n, σ, hw, h⟩ := run_bind_eq_ok h
  rw [run_print, Prod.mk.injEq] at h₂ h₄ h₅
  have hv₂ : k₂.vfs = k.vfs := by rw [← h₂.2]
  have hvτ : τ.vfs = k₃.vfs := by rw [← h₅.2, ← h₄.2]
  -- the bring-up mounted the root of store `i`, which the memory type names
  have hs₂ : Sound config k₂.vfs := by
    rw [hv₂]
    exact hs
  have hs₃ : Sound config k₃.vfs := (restoring_initFs.of_run h₃ hs₂).1
  obtain ⟨κ, hsκ, hmount⟩ := initFs_ok hs₂ h₃
  have hregκ : κ.vfs.registry.lookup memoryName = some (.memory i) := by
    have hr₃ := registry_initFs k₂
    have hkept : k₃.vfs.registry = κ.vfs.registry := registryKept_mountMemoryRoot.of_run hmount
    rw [h₃, hv₂] at hr₃
    rw [← hkept, hr₃, ← hr₁, hreg]
  obtain ⟨s, hsκs, hk₃⟩ := mountMemoryRoot_ok hsκ.stores hregκ hmount
  -- the write settled the state, and the report is read off the test file
  have hsτ : Sound config τ.vfs := by
    rw [hvτ]
    exact hs₃
  obtain ⟨hn, p, rfl, hset⟩ := writeFile_ok hsτ (by rw [hvτ, hk₃]; exact hregκ)
    (by rw [hvτ, hk₃]) (by rw [hvτ, hk₃]; exact hsκs) hw
  have hsσ : Sound config σ.vfs := ((restoring_writeFile _ _).of_run hw hsτ).1
  obtain ⟨k', hrun, hfr, hs', hsame⟩ := answers_reportBack n σ hsσ hset
  rw [hrun, Prod.mk.injEq] at h
  obtain ⟨hr, rfl⟩ := h
  refine ⟨p, hset.framed hfr hsame hsσ.files hs'.files, ?_⟩
  cases hr
  rw [hn]
  rfl

end Inversion

/-- The self-test gives back the descriptor table on every path, and a second run after a
successful one repeats it. From every sound state every run, failing or not, ends in a sound
state whose table has the same limit and holds under every descriptor the file it held before.
Bringing up the root registers a memory backend exactly when no type of its name is registered
and the registry has room, and the rest of the self-test changes the registry no further. After
a successful run that leaves the memory type registered as a memory backend, a second run
succeeds with the same report, and leaves the registry, the mounted root and every store, with
its contents, listings and counters, as the first run left them. -/
theorem selftest_restores_table_and_repeats (k : Kernel) (hk : Sound config k.vfs) :
    Sound config (selftest.run.run k).2.vfs ∧
    (selftest.run.run k).2.vfs.files.limit = k.vfs.files.limit ∧
    (∀ fd, (selftest.run.run k).2.vfs.files.get? fd = k.vfs.files.get? fd) ∧
    (initFs.run.run k).2.vfs.registry = initRegistry k.vfs ∧
    (selftest.run.run k).2.vfs.registry = initRegistry k.vfs ∧
    ∀ r k₁ i, selftest.run.run k = (.ok r, k₁) →
      k₁.vfs.registry.lookup memoryName = some (.memory i) →
      ∃ k₂, selftest.run.run k₁ = (.ok r, k₂) ∧ k₂.vfs.registry = k₁.vfs.registry ∧
        k₂.vfs.mounted = k₁.vfs.mounted ∧ k₂.vfs.stores = k₁.vfs.stores := by
  obtain ⟨hsound, hlimit, hget⟩ := restoring_selftest k hk
  refine ⟨hsound, hlimit, hget, registry_initFs k, registry_selftest k, ?_⟩
  intro r k₁ i h hreg
  have hs₁ : Sound config k₁.vfs := (restoring_selftest.of_run h hk).1
  obtain ⟨p, hset, rfl⟩ := selftest_ok_settled hk h hreg
  obtain ⟨k₂, hrun, hfr, -, -⟩ := answers_selftest k₁ hs₁ hset
  refine ⟨k₂, hrun, ?_, ?_, ?_⟩ <;> rw [hfr]

/-- The self-test on the booted kernel gives back its table. -/
theorem selftest_at_boot_restores_table :
    Sound {} (boot {}).vfs ∧
      ∀ fd, (selftest.run.run (boot {})).2.vfs.files.get? fd = (boot {}).vfs.files.get? fd :=
  ⟨Vfs.sound_fresh {}, (selftest_restores_table_and_repeats (boot {}) (Vfs.sound_fresh {})).2.2.1⟩

end KernelFs.Kernel
