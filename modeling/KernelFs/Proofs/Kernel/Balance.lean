import KernelFs.Proofs.Kernel.SystemCalls

/-!
# The self-test gives back every descriptor it takes

The self-test (`run_fs_selftest`, src/basedos/src/selftest.rs:41-97) opens a file, uses the
descriptor once and closes it, twice, and only then passes on an error of the write or the read. An
open takes the least free descriptor; the write or read in between changes the file under that
descriptor alone, and keeps it there; the close frees it. So on every path, failing or not, the
descriptor table ends holding exactly what it held (`restoring_selftest`). Registering and mounting
leave the table alone.

Registration happens in one place: the memory backend is registered when no type named `memfs`
is registered and the registry has room, and nothing else of the self-test touches the registry
(`registry_selftest`).

What an action may change is said once, by a kind of change (`Vfs.Change`): a relation between
states that backend actions make, that composes, and that does not look at the notes. An action
stays `Within` a kind of change when every run of it, failing or not, makes such a change; this
is closed under `bind`, on the file system and in the kernel alike.

Results:
* `FdTable.Same`, `FdTable.Touches`: two tables holding the same files; a table changed at one
  descriptor only. `FdTable.same_of_alloc_close`: allocating, touching and closing one
  descriptor gives back the same files.
* `Vfs.within_read`, `Vfs.within_write`: a read or write through a descriptor changes the table
  at that descriptor only, and leaves the registry and the mounted root.
* `Kernel.within_bracket`: opening, using and closing a descriptor gives back the table.
* `Kernel.registry_initFs`, `Kernel.registry_selftest`: what registration does.
-/

namespace KernelFs.FdTable

variable {α : Type} {t t' t'' : FdTable α} {fd : Nat}

/-- `t'` has the limit of `t` and holds the same file under every descriptor. -/
def Same (t t' : FdTable α) : Prop := t'.limit = t.limit ∧ ∀ k, t'.get? k = t.get? k

theorem Same.refl (t : FdTable α) : Same t t := ⟨rfl, fun _ => rfl⟩

theorem Same.trans (h₁ : Same t t') (h₂ : Same t' t'') : Same t t'' :=
  ⟨h₂.1.trans h₁.1, fun k => (h₂.2 k).trans (h₁.2 k)⟩

/-- Bounded tables that hold the same files have room alike. -/
theorem Same.hasFree (h : Same t t') (hb : t.Bounded) (hb' : t'.Bounded) :
    t'.hasFree = t.hasFree := by
  apply Bool.eq_iff_iff.mpr
  rw [hasFree_iff_exists hb', hasFree_iff_exists hb, h.1]
  simp only [h.2]

/-- `t'` is `t` with at most the file under `fd` replaced, and still held if it was. -/
def Touches (fd : Nat) (t t' : FdTable α) : Prop :=
  t'.limit = t.limit ∧ ((t.get? fd).isSome → (t'.get? fd).isSome) ∧
    ∀ k, k ≠ fd → t'.get? k = t.get? k

theorem Touches.refl (fd : Nat) (t : FdTable α) : Touches fd t t := ⟨rfl, id, fun _ _ => rfl⟩

theorem Touches.trans (h₁ : Touches fd t t') (h₂ : Touches fd t' t'') : Touches fd t t'' :=
  ⟨h₂.1.trans h₁.1, fun h => h₂.2.1 (h₁.2.1 h),
    fun k hk => (h₂.2.2 k hk).trans (h₁.2.2 k hk)⟩

theorem touches_update (a : α) : Touches fd t (t.update fd a) := by
  refine ⟨rfl, fun h => ?_, fun k hk => ?_⟩
  · simpa using h
  · simp [hk]

/-- Allocating a descriptor, changing only its file and closing it gives back the files the table
held: the descriptor was free before, and every other one is as it was. -/
theorem same_of_alloc_close {a : α} {t₁ t₂ t₃ : FdTable α} (hb : t.Bounded)
    (halloc : t.alloc a = .ok (fd, t₁)) (h₁₂ : Touches fd t₁ t₂) (hlim : t₃.limit = t₂.limit)
    (hclose : ∀ k, t₃.get? k = if k = fd then none else t₂.get? k) : Same t t₃ := by
  obtain ⟨hleast, hlim₁, -, hget₁⟩ := alloc_eq_ok hb halloc
  refine ⟨hlim.trans (h₁₂.1.trans hlim₁), fun k => ?_⟩
  rw [hclose k]
  by_cases hk : k = fd
  · rw [if_pos hk, hk, hleast.free]
  · rw [if_neg hk, h₁₂.2.2 k hk, hget₁ k, if_neg hk]

end KernelFs.FdTable

namespace KernelFs.Vfs

variable {α β : Type}

/-! ## Kinds of change -/

/-- A kind of change between file system states: every backend action makes one, two in a row
make one, and clearing the notes keeps one. -/
structure Change where
  holds : Vfs → Vfs → Prop
  trans : ∀ {u v x}, holds u v → holds v x → holds u x
  backed : ∀ {u v}, Backed u v → holds u v
  cleared : ∀ {u v}, holds u v → holds u { v with journal := #[] }

theorem Change.refl (c : Change) (w : Vfs) : c.holds w w := c.backed (Backed.refl w)

/-- An action every run of which, failing or not, makes a change of kind `c`. -/
def Within (c : Change) (act : VfsM α) : Prop := ∀ w, c.holds w (act.run w).2

variable {c : Change}

theorem Within.bind {x : VfsM α} {f : α → VfsM β} (hx : Within c x) (hf : ∀ a, Within c (f a)) :
    Within c (x >>= f) := by
  intro w
  rw [run_bind]
  have h1 := hx w
  rcases hrun : x.run w with ⟨_ | a, w1⟩ <;> rw [hrun] at h1
  · exact h1
  · exact c.trans h1 (hf a w1)

theorem Within.ite {p : Prop} [Decidable p] {a b : VfsM α} (ha : Within c a) (hb : Within c b) :
    Within c (if p then a else b) := by
  split
  · exact ha
  · exact hb

theorem Confined.within {act : VfsM α} (h : Confined act) : Within c act :=
  fun w => c.backed (h w)

theorem Inert.within {act : VfsM α} (h : Inert act) : Within c act :=
  h.confined.within

theorem within_modify {f : Vfs → Vfs} (h : ∀ w, c.holds w (f w)) :
    Within c (modify f : VfsM PUnit) :=
  h

theorem within_lift {x : StateM Vfs α} (h : ∀ w, c.holds w (x w).2) :
    Within c (ExceptT.lift x : VfsM α) :=
  h

/-- Changes at most the file under `fd` in the descriptor table, keeping a file there. -/
def Change.touching (fd : Nat) : Change where
  holds u v := FdTable.Touches fd u.files v.files
  trans h₁ h₂ := h₁.trans h₂
  backed h := by rw [h.files_eq]; exact FdTable.Touches.refl _ _
  cleared h := h

/-- Leaves the part `f` of the state as it was: a part that backend actions leave alone. -/
def Change.kept (f : Vfs → β) (hb : ∀ {u v}, Backed u v → f v = f u) : Change where
  holds u v := f v = f u
  trans h₁ h₂ := h₂.trans h₁
  backed := hb
  cleared h := (hb (noted_journal _ _).backed).trans h

/-- Leaves the descriptor table as it was. -/
abbrev Change.tableKept : Change := .kept (·.files) Backed.files_eq

/-- Leaves the registry as it was. -/
abbrev Change.registryKept : Change := .kept (·.registry) Backed.registry_eq

/-- Keeps a state sound with the given limits, and gives back a table holding the same files. -/
def Change.restoring (config : Config) : Change where
  holds u v := Sound config u → Sound config v ∧ FdTable.Same u.files v.files
  trans h₁ h₂ hu :=
    have h₁' := h₁ hu
    have h₂' := h₂ h₁'.1
    ⟨h₂'.1, h₁'.2.trans h₂'.2⟩
  backed h hu := ⟨hu.backed h, by rw [h.files_eq]; exact FdTable.Same.refl _⟩
  cleared h hu := ⟨(h hu).1.cleared, (h hu).2⟩

/-- An action that keeps soundness and the table gives back a table holding the same files. -/
theorem within_restoring {config : Config} {act : VfsM α} (hk : Keeps config act)
    (hf : Within .tableKept act) : Within (.restoring config) act := fun w hw =>
  ⟨hk w hw, by
    have h : (act.run w).2.files = w.files := hf w
    rw [h]
    exact FdTable.Same.refl _⟩

/-! ## Reading and writing through a descriptor -/

theorem within_setFile_touching (fd : Nat) (f : OpenFile) :
    Within (.touching fd) (setFile fd f) :=
  fun _ => FdTable.touches_update f

/-- A read through a descriptor makes backend actions and moves the descriptor's cursor. -/
theorem within_read (fd len : Nat) (hset : ∀ f, Within c (setFile fd f)) :
    Within c (read fd len) := by
  unfold read
  refine (inert_fileAt fd).within.bind fun f => ?_
  dsimp only
  simp only [throw_bind]
  refine Within.ite (inert_throw _).within ?_
  exact (inert_read _ _ _).within.bind fun b => (hset _).bind fun _ => (inert_pure _).within

/-- A write through a descriptor makes backend actions and moves the descriptor's cursor, once
more for an appending one. -/
theorem within_write (fd : Nat) (b : ByteArray) (hset : ∀ f, Within c (setFile fd f)) :
    Within c (write fd b) := by
  unfold write
  refine (inert_fileAt fd).within.bind fun f => ?_
  dsimp only
  simp only [throw_bind]
  refine Within.ite (inert_throw _).within (Within.ite ?_ ?_)
  · refine (inert_lift (length_noted f.node)).within.bind fun size => ?_
    refine (hset _).bind fun _ => (inert_pure _).within.bind fun f' => ?_
    exact (write_changes _ _ _).1.within.bind fun k => (hset _).bind fun _ => (inert_pure _).within
  · refine (inert_pure _).within.bind fun f' => ?_
    exact (write_changes _ _ _).1.within.bind fun k => (hset _).bind fun _ => (inert_pure _).within

/-- The node hears of an open or a close: the sample counters move at most. -/
theorem within_notifyOpen (n : Node Handle) (flags : OpenFlags) :
    Within c (ExceptT.lift (n.notifyOpen Handle.inode flags) : VfsM Unit) :=
  within_lift fun w => by
    rw [notifyOpen_samples]
    exact c.backed (backed_samples w _)

theorem within_notifyClose (n : Node Handle) :
    Within c (ExceptT.lift (n.notifyClose Handle.inode) : VfsM Unit) :=
  within_lift fun w => by
    rw [notifyClose_samples]
    exact c.backed (backed_samples w _)

/-- An open makes backend actions, replaces the table and tells the node. -/
theorem within_openFile (path : String) (flags : OpenFlags)
    (hfiles : ∀ w files, c.holds w { w with files }) : Within c (openFile path flags) := by
  unfold openFile
  dsimp only
  simp only [throw_bind]
  refine Within.ite (inert_throw _).within (inert_get.within.bind fun w0 => ?_)
  refine Within.ite ((inert_note _ _ _).bind fun _ => inert_throw _).within ?_
  refine inert_root.within.bind fun r => (confined_resolve r path flags).within.bind fun n => ?_
  refine Within.ite ((truncate_changes n 0).1.within.bind fun _ => ?_) ?_
  all_goals
    refine inert_get.within.bind fun w1 => (inert_ofExcept _).within.bind fun p => ?_
    rcases p with ⟨fd, files⟩
    refine (within_modify fun w => hfiles w _).bind fun _ => ?_
    exact (within_notifyOpen n flags).bind fun _ => (inert_note _ _ _).within.bind
      fun _ => (inert_pure _).within

/-- A close replaces the table and tells the node. -/
theorem within_close (fd : Nat) (hfiles : ∀ w files, c.holds w { w with files }) :
    Within c (close fd) := by
  unfold close
  refine inert_get.within.bind fun w0 => (inert_ofExcept _).within.bind fun p => ?_
  rcases p with ⟨f, files⟩
  refine (within_modify fun w => hfiles w _).bind fun _ => ?_
  exact (within_notifyClose f.node).bind fun _ => (inert_note _ _ _).within

/-! ## Registering and mounting -/

/-- A registration makes backend actions and replaces the registry. -/
theorem within_register (hreg : ∀ w registry, c.holds w { w with registry }) (name : String)
    (b : Backend) : Within c (register name b) := by
  unfold register
  refine inert_get.within.bind fun w0 => ?_
  dsimp only
  simp only [throw_bind]
  refine Within.ite ((inert_note _ _ _).bind fun _ => inert_throw _).within ?_
  refine Within.ite ((inert_note _ _ _).within.bind fun _ => ?_)
    ((inert_note _ _ _).within.bind fun _ => ?_)
  all_goals exact within_modify fun w => hreg w _

/-- Adding a memory backend registers it and pushes a fresh store over the configured heap. -/
theorem within_addMemory (hreg : ∀ w registry, c.holds w { w with registry })
    (hpush : ∀ w budget,
      c.holds w { w with stores := w.stores.push (Memory.Store.empty w.config.heap budget) })
    (budget : Nat) : Within c (addMemory budget) := by
  unfold addMemory
  exact inert_get.within.bind fun _ => (within_register hreg _ _).bind fun _ =>
    (within_modify fun w => hpush w budget).bind fun _ => (inert_pure _).within

/-- Adding a memory backend registers it under the memory name, with the index of the empty
store it pushes over the configured heap, unless the registry is full. -/
theorem run_addMemory (budget : Nat) (w : Vfs) :
    ∃ journal, (addMemory budget).run w =
      if w.registry.full then (.error .fullRegistry, { w with journal })
      else (.ok w.stores.size, { w with
        registry := w.registry.push memoryName (.memory w.stores.size),
        stores := w.stores.push (Memory.Store.empty w.config.heap budget), journal }) := by
  obtain ⟨journal, hreg⟩ := run_register memoryName (.memory w.stores.size) w
  refine ⟨journal, ?_⟩
  unfold addMemory
  rw [run_bind_ok (run_get w), run_bind, hreg]
  by_cases hfull : w.registry.full = true
  · rw [if_pos hfull, if_pos hfull]
  · rw [if_neg hfull, if_neg hfull]
    rfl

/-- A mount replaces the mounted root and, before that, makes backend actions. -/
theorem within_mount (hmount : ∀ w mounted, c.holds w { w with mounted })
    (device path fsType : String) : Within c (mount device path fsType) := by
  unfold mount
  refine inert_get.within.bind fun w0 => ?_
  dsimp only
  simp only [throw_bind]
  split
  · refine Within.ite ((inert_note _ _ _).bind fun _ => inert_throw _).within ?_
    refine (inert_attempt (inert_mountRoot _ _)).within.bind fun r => ?_
    split
    · refine (inert_pure _).within.bind fun root => ?_
      refine Within.ite ((inert_note _ _ _).bind fun _ => inert_throw _).within ?_
      refine inert_get.within.bind fun w1 => ?_
      refine (within_modify fun w => hmount w _).bind fun _ => ?_
      exact Within.ite (inert_note _ _ _).within (inert_note _ _ _).within
    · exact ((inert_note _ _ _).bind fun _ => inert_throw _).within
  · exact ((inert_note _ _ _).bind fun _ => inert_throw _).within

/-- An unmount clears the mounted root and tells the backend. -/
theorem within_umount (hmount : ∀ w mounted, c.holds w { w with mounted }) (path : String) :
    Within c (umount path) := by
  unfold umount
  dsimp only
  simp only [throw_bind]
  refine Within.ite (inert_throw _).within (inert_get.within.bind fun w0 => ?_)
  split
  · rename_i mp _
    refine (within_modify fun w => hmount w _).bind fun _ => ?_
    refine Within.bind (fun w => ?_) fun _ => (inert_note _ _ _).within
    -- the unmount hook moves the sample counters at most
    rw [run_liftM, unmounted_eq]
    exact c.backed (backed_samples w _)
  · exact (inert_throw _).within

end KernelFs.Vfs

namespace KernelFs.Kernel

open Vfs (Change Sound Keeps)

variable {α β γ : Type}

theorem run_bind (x : KernelM α) (f : α → KernelM β) (k : Kernel) :
    (x >>= f).run.run k = match x.run.run k with
      | (.ok a, k') => (f a).run.run k'
      | (.error e, k') => (.error e, k') := by
  rw [ExceptT.run_bind, StateT.run_bind]
  rcases x.run.run k with ⟨a | a, k'⟩ <;> rfl

@[simp] theorem run_pure (a : α) (k : Kernel) : (pure a : KernelM α).run.run k = (.ok a, k) := rfl

@[simp] theorem run_throw (e : FsError) (k : Kernel) :
    (throw e : KernelM α).run.run k = (.error e, k) := rfl

@[simp] theorem run_get (k : Kernel) : (get : KernelM Kernel).run.run k = (.ok k, k) := rfl

@[simp] theorem run_print (l : LogLevel) (frags : List String) (k : Kernel) :
    (print l frags).run.run k = (.ok (), { k with log := k.log.print l frags }) := rfl

@[simp] theorem run_ofExcept (r : Except FsError α) (k : Kernel) :
    (ofExcept r).run.run k = (r, k) := rfl

/-! ## Kinds of change in the kernel -/

/-- A kernel action every run of which, failing or not, makes a change of kind `c` to the file
system. -/
def Within (c : Change) (act : KernelM α) : Prop := ∀ k, c.holds k.vfs (act.run.run k).2.vfs

variable {c : Change}

theorem Within.bind {x : KernelM α} {f : α → KernelM β} (hx : Within c x)
    (hf : ∀ a, Within c (f a)) : Within c (x >>= f) := by
  intro k
  rw [run_bind]
  have h1 := hx k
  rcases hrun : x.run.run k with ⟨_ | a, k1⟩ <;> rw [hrun] at h1
  · exact h1
  · exact c.trans h1 (hf a k1)

theorem Within.ite {p : Prop} [Decidable p] {a b : KernelM α} (ha : Within c a)
    (hb : Within c b) : Within c (if p then a else b) := by
  split
  · exact ha
  · exact hb

theorem within_pure (a : α) : Within c (pure a : KernelM α) := fun k => c.refl k.vfs

theorem within_throw (e : FsError) : Within c (throw e : KernelM α) := fun k => c.refl k.vfs

theorem within_get : Within c (get : KernelM Kernel) := fun k => c.refl k.vfs

theorem within_print (l : LogLevel) (frags : List String) : Within c (print l frags) :=
  fun k => c.refl k.vfs

theorem within_ofExcept (r : Except FsError α) : Within c (ofExcept r) := fun k => c.refl k.vfs

theorem Within.attempt {act : KernelM α} (h : Within c act) : Within c (attempt act) := h

@[simp] theorem run_attempt (act : KernelM α) (k : Kernel) :
    (attempt act).run.run k = (.ok (act.run.run k).1, (act.run.run k).2) := rfl

theorem within_fs {act : VfsM α} (h : Vfs.Within c act) : Within c (fs act) :=
  fun k => c.cleared (h k.vfs)

theorem within_forM (l : List β) {f : β → KernelM PUnit} (hf : ∀ b, Within c (f b)) :
    Within c (l.forM f) := by
  induction l with
  | nil => exact within_pure _
  | cons b l ih => exact (hf b).bind fun _ => ih

/-! ## Opening, using and closing a descriptor -/

/-- Opening a file, using its descriptor with an action that changes the table at that
descriptor alone, and closing it gives back the table, whatever fails: a failed open wrote only
notes, a successful one took a free descriptor, and that descriptor still holds a file when it is
closed. -/
theorem within_bracket {config : Config} {path : String} {flags : OpenFlags} {op : Nat → VfsM β}
    (hop : ∀ fd, Vfs.Within (.touching fd) (op fd)) (hkeep : ∀ fd, Keeps config (op fd))
    {rest : Except FsError β → KernelM γ} (hrest : ∀ got, Within (.restoring config) (rest got)) :
    Within (.restoring config) (fs (Vfs.openFile path flags) >>= fun fd =>
      attempt (fs (op fd)) >>= fun got => fs (Vfs.close fd) >>= fun _ => rest got) := by
  intro k hk
  have hends := Vfs.openFile_ends path flags hk.stores
  have hs₁ := Vfs.keeps_openFile path flags k.vfs hk
  rw [run_bind, run_fs]
  rcases hopen : (Vfs.openFile path flags).run k.vfs with ⟨e | fd, w₁⟩ <;>
    rw [hopen] at hends hs₁ <;> dsimp only
  · -- a failed open wrote notes only
    refine ⟨hs₁.cleared, ?_⟩
    show FdTable.Same k.vfs.files w₁.files
    rw [hends.backed.files_eq]
    exact FdTable.Same.refl _
  obtain ⟨n, t₁, halloc, hfiles⟩ := hends
  obtain ⟨-, -, -, hget₁⟩ := FdTable.alloc_eq_ok hk.files halloc
  rw [run_bind, run_attempt, run_fs]
  dsimp only
  generalize hw₂ : ((op fd).run { w₁ with journal := #[] }).2 = w₂
  have htouch : FdTable.Touches fd t₁ w₂.files := by
    have := hop fd { w₁ with journal := #[] }
    rw [hw₂] at this
    exact hfiles ▸ this
  have hs₂ : Sound config w₂ := hw₂ ▸ hkeep fd _ hs₁.cleared
  -- the descriptor still holds a file, so the close frees it
  obtain ⟨f, hf⟩ : ∃ f, w₂.files.get? fd = some f :=
    Option.isSome_iff_exists.mp (htouch.2.1 (by rw [hget₁, if_pos rfl]; rfl))
  obtain ⟨w₃, hclose, hget₃⟩ := Vfs.close_ok (w := { w₂ with journal := #[] }) hf
  have hs₃ : Sound config w₃ := by
    have := Vfs.keeps_close fd _ hs₂.cleared
    rwa [hclose] at this
  rw [run_bind, run_fs, hclose]
  dsimp only
  obtain ⟨hs₄, hsame⟩ := hrest _ ⟨{ w₃ with journal := #[] }, _⟩ hs₃.cleared
  refine ⟨hs₄, FdTable.Same.trans ?_ hsame⟩
  exact FdTable.same_of_alloc_close hk.files halloc htouch
    (hs₃.fdLimit.trans hs₂.fdLimit.symm) hget₃

/-! ## The phases of the self-test -/

/-- The second half of bringing up the root, once the memory backend is registered: mount it at
the root, or log the failure and pass it on. -/
def mountMemoryRoot : KernelM Unit := do
  match ← attempt (fs (Vfs.mount rootDevice "/" Vfs.memoryName)) with
  | .ok () => pure ()
  | .error e =>
    print .error ["[Memfs] Failed to mount root filesystem: ", e.message]
    throw e
  print .info ["[Memfs] Mounted ", Vfs.memoryName, " (", rootDevice, ") at /"]

theorem initFs_eq : initFs = (do
    if ((← get).vfs.registry.lookup Vfs.memoryName).isNone then
      let _ ← fs (Vfs.addMemory rootBudget)
      print .info ["[Memfs] Registered memfs (max ", Nat.repr rootBudget, " bytes)"]
    mountMemoryRoot) := rfl

/-- The self-test once the test file is written: read it back, list the root and report. -/
def reportBack (n : Nat) : KernelM Report := do
  print .info ["Wrote ", Nat.repr n, " bytes to ", selftestPath]
  print .info ["Reading back test file..."]
  let text ← readFile selftestPath
  print .info ["Read ", Nat.repr text.utf8ByteSize, " bytes: ", text]
  print .info ["Root directory contents:"]
  let names := ((← fs (Vfs.readdir "/")).map (·.name)).filter (!·.isEmpty)
  names.forM fun name => print .info ["  ", name]
  let r : Report := ⟨n, text, names⟩
  if !r.matches then print .error ["File System Test: read back data does not match"]
  print .info ["=== File System Test Complete ==="]
  pure r

theorem selftest_eq : selftest = (do
    print .info ["=== Starting File System Test ==="]
    initFs
    print .info ["Mounted ", Vfs.memoryName, " (", rootDevice, ") at /"]
    print .info ["Creating test file..."]
    reportBack (← writeFile selftestPath selftestMessage.toUTF8)) := rfl

/-! ## Changes every phase makes -/

theorem within_mountMemoryRoot (hmount : Within c (fs (Vfs.mount rootDevice "/" Vfs.memoryName))) :
    Within c mountMemoryRoot := by
  unfold mountMemoryRoot
  refine hmount.attempt.bind fun r => ?_
  dsimp only
  rcases r with e | ⟨⟩
  · exact (within_print _ _).bind fun _ => (within_throw _).bind fun _ => within_print _ _
  · exact within_print _ _

/-- What follows the read-back: listing the root, which writes notes only, and printing. -/
theorem within_reportBack (hread : Within c (readFile selftestPath)) (n : Nat) :
    Within c (reportBack n) := by
  unfold reportBack
  refine (within_print _ _).bind fun _ => (within_print _ _).bind fun _ => ?_
  refine hread.bind fun text => (within_print _ _).bind fun _ => ?_
  refine (within_print _ _).bind fun _ => (within_fs (Vfs.inert_readdir _).within).bind fun es => ?_
  refine (within_forM _ fun _ => within_print _ _).bind fun _ => ?_
  dsimp only
  exact Within.ite ((within_print _ _).bind fun _ => (within_print _ _).bind fun _ => within_pure _)
    ((within_print _ _).bind fun _ => within_pure _)

/-! ## The self-test gives back the table -/

section Restoring

variable {config : Config}

theorem restoring_mountMemoryRoot : Within (.restoring config) mountMemoryRoot :=
  within_mountMemoryRoot (within_fs (Vfs.within_restoring (Vfs.keeps_mount _ _ _)
    (Vfs.within_mount (fun _ _ => rfl) _ _ _)))

theorem restoring_initFs : Within (.restoring config) initFs := by
  have hadd : Within (.restoring config) (fs (Vfs.addMemory rootBudget)) :=
    within_fs (Vfs.within_restoring (Vfs.keeps_addMemory _) (Vfs.within_addMemory (fun _ _ => rfl) (fun _ _ => rfl) _))
  rw [initFs_eq]
  refine within_get.bind fun k => ?_
  dsimp only
  exact Within.ite (hadd.bind fun _ => (within_print _ _).bind fun _ => restoring_mountMemoryRoot)
    restoring_mountMemoryRoot

theorem restoring_writeFile (path : String) (data : ByteArray) :
    Within (.restoring config) (writeFile path data) := by
  unfold writeFile
  refine within_bracket (fun fd => Vfs.within_write fd data fun f => Vfs.within_setFile_touching fd f)
    (fun fd => Vfs.keeps_write fd data) fun got => ?_
  refine (within_ofExcept got).bind fun n => ?_
  dsimp only
  exact Within.ite ((within_print _ _).bind fun _ => (within_throw _).bind fun _ => within_pure _)
    (within_pure _)

theorem restoring_readFile (path : String) : Within (.restoring config) (readFile path) :=
  within_bracket (fun fd => Vfs.within_read fd _ fun f => Vfs.within_setFile_touching fd f)
    (fun fd => Vfs.keeps_read fd _) fun got => (within_ofExcept got).bind fun _ => within_pure _


/-- Every run of the self-test, failing or not, from a sound state leaves a sound state whose
descriptor table holds exactly the files it held. -/
theorem restoring_selftest : Within (.restoring config) selftest := by
  rw [selftest_eq]
  refine (within_print _ _).bind fun _ => restoring_initFs.bind fun _ => ?_
  exact (within_print _ _).bind fun _ => (within_print _ _).bind fun _ =>
    (restoring_writeFile _ _).bind fun n => within_reportBack (restoring_readFile _) n

end Restoring

/-! ## Registration -/

/-- The registry once the root is brought up from `w`: the memory backend is added when no type
of its name is registered and the registry has room. -/
def initRegistry (w : Vfs) : Registry Backend :=
  if (w.registry.lookup Vfs.memoryName).isNone && !w.registry.full then
    w.registry.push Vfs.memoryName (.memory w.stores.size)
  else w.registry

section Registration

theorem registryKept_mountMemoryRoot : Within .registryKept mountMemoryRoot :=
  within_mountMemoryRoot (within_fs (Vfs.within_mount (fun _ _ => rfl) _ _ _))

/-- Bringing up the root registers the memory backend exactly when no type of its name is
registered and the registry has room, failing or not. -/
theorem registry_initFs (k : Kernel) :
    (initFs.run.run k).2.vfs.registry = initRegistry k.vfs := by
  have hmount := registryKept_mountMemoryRoot
  obtain ⟨journal, hadd⟩ := Vfs.run_addMemory rootBudget k.vfs
  rw [initFs_eq, run_bind, run_get]
  dsimp only
  unfold initRegistry
  by_cases hnone : (k.vfs.registry.lookup Vfs.memoryName).isNone = true
  · rw [if_pos hnone, run_bind, run_fs, hadd]
    by_cases hfull : k.vfs.registry.full = true
    · -- a full registry refuses, and the failure ends the bring-up
      rw [if_pos hfull, if_neg (by simp [hfull])]
    · rw [if_neg hfull, if_pos (by simp [hnone, hfull])]
      dsimp only
      rw [run_bind, run_print]
      exact hmount _
  · rw [if_neg hnone, if_neg (by simp [hnone])]
    exact hmount k

theorem registryKept_writeFile (path : String) (data : ByteArray) :
    Within .registryKept (writeFile path data) := by
  unfold writeFile
  refine (within_fs (Vfs.within_openFile _ _ fun _ _ => rfl)).bind fun fd => ?_
  refine (within_fs (Vfs.within_write fd data fun f => Vfs.within_modify fun _ => rfl)).attempt.bind
    fun got => (within_fs (Vfs.within_close fd fun _ _ => rfl)).bind fun _ => ?_
  refine (within_ofExcept got).bind fun n => ?_
  dsimp only
  exact Within.ite ((within_print _ _).bind fun _ => (within_throw _).bind fun _ => within_pure _)
    (within_pure _)

theorem registryKept_readFile (path : String) : Within .registryKept (readFile path) := by
  unfold readFile
  refine (within_fs (Vfs.within_openFile _ _ fun _ _ => rfl)).bind fun fd => ?_
  refine (within_fs (Vfs.within_read fd _ fun f => Vfs.within_modify fun _ => rfl)).attempt.bind
    fun got => (within_fs (Vfs.within_close fd fun _ _ => rfl)).bind fun _ => ?_
  exact (within_ofExcept got).bind fun _ => within_pure _

/-- The self-test registers what bringing up the root registers, and nothing else. -/
theorem registry_selftest (k : Kernel) :
    (selftest.run.run k).2.vfs.registry = initRegistry k.vfs := by
  have hrest : Within .registryKept (do
      print .info ["Mounted ", Vfs.memoryName, " (", rootDevice, ") at /"]
      print .info ["Creating test file..."]
      reportBack (← writeFile selftestPath selftestMessage.toUTF8)) :=
    (within_print _ _).bind fun _ => (within_print _ _).bind fun _ =>
      (registryKept_writeFile _ _).bind fun n => within_reportBack (registryKept_readFile _) n
  rw [selftest_eq, run_bind, run_print]
  dsimp only
  rw [run_bind]
  have hinit := registry_initFs { k with log := k.log.print .info ["=== Starting File System Test ==="] }
  rcases h : initFs.run.run { k with log := k.log.print .info ["=== Starting File System Test ==="] }
    with ⟨e | u, k₁⟩ <;> rw [h] at hinit <;> dsimp only
  · exact hinit
  · exact (hrest k₁).trans hinit

end Registration

end KernelFs.Kernel
