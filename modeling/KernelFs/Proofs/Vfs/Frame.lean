import KernelFs.Proofs.Vfs.FileIo
import KernelFs.Proofs.Arena.Numbers
import KernelFs.Vfs.NodeAccess

/-!
# What an action may change

Two relations between states say how much an action of src/crates/vfs/src/vfs.rs changed. `Noted w
w'`: nothing but notes were written. `Backed w w'`: besides notes, only what the backends own
changed, each memory store by store operations with none added or removed, and the sample counters.
An action is `Inert` when every run of it is `Noted`, `Confined` when every run is `Backed`,
`Atomic` when every failed run from a state whose stores are valid is `Noted`, and `Sure` when it
never fails. Each predicate is closed under `bind` in the way its meaning allows: an inert step
followed by an atomic one is atomic (`Atomic.inert_bind`), and so is an atomic step followed by a
sure one (`Atomic.bind_sure`).

Every action of a node is `Confined`, its reading actions are `Inert`, and its changing actions
are `Atomic`: a backend checks everything before it writes back a store. The one change that a
failure could follow is a creation, since a node's `create` asks the backend to add the child
and then reads the new child's metadata; in a valid store the new slot holds the new record, so
that read succeeds (`stat_after_create`).

Results:
* `Noted`, `Backed` with `refl` and `trans`; `Backed.storesValid`: backend actions keep every
  store valid.
* `inert_read`, `inert_entry`, `inert_find`, `inert_make`: the reading actions of a node.
* `write_changes`, `truncate_changes`, `create_changes`, `unlink_changes`, `rmdir_changes`: the
  changing actions of a node are confined and atomic.
* `run_create_memory_ok`: what a successful creation of a memory backend did.
* `notifyOpen_samples`, `notifyClose_samples`: the open and close hooks move the sample counters
  at most.
-/

namespace KernelFs.Vfs

open Memory Backend Relation

variable {α β : Type}

/-! ## Two frames -/

/-- `w'` is `w` with more notes at most. -/
def Noted (w w' : Vfs) : Prop := w' = { w with journal := w'.journal }

theorem Noted.refl (w : Vfs) : Noted w w := rfl

theorem noted_journal (w : Vfs) (journal : Array Note) : Noted w { w with journal } := rfl

theorem Noted.trans {w1 w2 w3 : Vfs} (h1 : Noted w1 w2) (h2 : Noted w2 w3) : Noted w1 w3 := by
  unfold Noted at *
  rw [h2, h1]

/-- `w'` is `w` after backend actions: each store took store operations, none was added or
removed, the sample counters may have moved and notes may have been written. -/
structure Backed (w w' : Vfs) : Prop where
  frame : w' = { w with stores := w'.stores, samples := w'.samples, journal := w'.journal }
  size : w'.stores.size = w.stores.size
  steps : ∀ (i : Nat) (t : Store), w'.stores[i]? = some t →
    ∃ s, w.stores[i]? = some s ∧ ReflTransGen Store.Step s t

theorem Backed.refl (w : Vfs) : Backed w w :=
  ⟨rfl, rfl, fun _ t h => ⟨t, h, .refl⟩⟩

theorem Backed.trans {w1 w2 w3 : Vfs} (h1 : Backed w1 w2) (h2 : Backed w2 w3) : Backed w1 w3 := by
  refine ⟨?_, h2.size.trans h1.size, fun i t ht => ?_⟩
  · rw [h2.frame, h1.frame]
  · obtain ⟨u, hu, hut⟩ := h2.steps i t ht
    obtain ⟨s, hs, hsu⟩ := h1.steps i u hu
    exact ⟨s, hs, hsu.trans hut⟩

theorem Backed.files_eq {w w' : Vfs} (h : Backed w w') : w'.files = w.files := by
  rw [h.frame]

theorem Backed.registry_eq {w w' : Vfs} (h : Backed w w') : w'.registry = w.registry := by
  rw [h.frame]

theorem Noted.backed {w w' : Vfs} (h : Noted w w') : Backed w w' := by
  rw [h]
  exact ⟨rfl, rfl, fun _ t ht => ⟨t, ht, .refl⟩⟩

/-- Writing back a store that took one operation is a backend action. -/
theorem backed_putStore {w : Vfs} {i : Nat} {s t : Store} (hw : w.stores[i]? = some s)
    (h : Store.Step s t) : Backed w { w with stores := w.stores.modify i fun _ => t } := by
  refine ⟨rfl, Array.size_modify .., fun j u hu => ?_⟩
  simp only [Array.getElem?_modify] at hu
  split at hu
  · rename_i hij
    subst hij
    rw [hw] at hu
    cases hu
    exact ⟨s, hw, .single h⟩
  · exact ⟨u, hu, .refl⟩

theorem backed_samples (w : Vfs) (c : SampleCounts) : Backed w { w with samples := c } :=
  ⟨rfl, rfl, fun _ t ht => ⟨t, ht, .refl⟩⟩

/-- Every store of the state is valid. -/
def StoresValid (w : Vfs) : Prop := ∀ (i : Nat) (s : Store), w.stores[i]? = some s → s.Valid

theorem Backed.storesValid {w w' : Vfs} (h : Backed w w') (hv : StoresValid w) :
    StoresValid w' := by
  intro i t ht
  obtain ⟨s, hs, hst⟩ := h.steps i t ht
  exact (hv i s hs).later hst

theorem Noted.storesValid {w w' : Vfs} (h : Noted w w') (hv : StoresValid w) : StoresValid w' :=
  h.backed.storesValid hv

/-! ## Actions by what they may change -/

/-- An action that writes nothing but notes, whatever its outcome. -/
def Inert (act : VfsM α) : Prop := ∀ w, Noted w (act.run w).2

/-- An action that changes only what the backends own, whatever its outcome. -/
def Confined (act : VfsM α) : Prop := ∀ w, Backed w (act.run w).2

/-- An action that writes nothing but notes when it fails in a state whose stores are valid. -/
def Atomic (act : VfsM α) : Prop :=
  ∀ w e w', StoresValid w → act.run w = (.error e, w') → Noted w w'

theorem Inert.confined {act : VfsM α} (h : Inert act) : Confined act :=
  fun w => (h w).backed

theorem Inert.atomic {act : VfsM α} (h : Inert act) : Atomic act := by
  intro w e w' _ hrun
  have := h w
  rwa [hrun] at this

@[simp] theorem run_liftM (x : StateM Vfs α) (w : Vfs) :
    (liftM x : VfsM α).run w = (.ok (x w).1, (x w).2) := rfl

@[simp] theorem run_note (level : NoteLevel) (source : String) (pieces : List String) (w : Vfs) :
    note level source pieces w = (⟨⟩, { w with journal := w.journal.push ⟨level, source, pieces⟩ }) :=
  rfl

theorem run_ite (c : Prop) [Decidable c] (a b : VfsM α) (w : Vfs) :
    (if c then a else b).run w = if c then a.run w else b.run w := by
  split <;> rfl

@[simp] theorem inert_pure (a : α) : Inert (pure a : VfsM α) := fun w => Noted.refl w

@[simp] theorem inert_throw (e : FsError) : Inert (throw e : VfsM α) := fun w => Noted.refl w

theorem Inert.bind {x : VfsM α} {f : α → VfsM β} (hx : Inert x) (hf : ∀ a, Inert (f a)) :
    Inert (x >>= f) := by
  intro w
  rw [run_bind]
  rcases hrun : x.run w with ⟨_ | a, w1⟩
  · have := hx w
    rwa [hrun] at this
  · exact (show Noted w w1 by have := hx w; rwa [hrun] at this).trans (hf a w1)

theorem Confined.bind {x : VfsM α} {f : α → VfsM β} (hx : Confined x) (hf : ∀ a, Confined (f a)) :
    Confined (x >>= f) := by
  intro w
  rw [run_bind]
  rcases hrun : x.run w with ⟨_ | a, w1⟩
  · have := hx w
    rwa [hrun] at this
  · exact (show Backed w w1 by have := hx w; rwa [hrun] at this).trans (hf a w1)

/-- A store operation reads a store; a refusal may leave a warning. -/
theorem inert_query (i : Nat) (f : Store → Except StoreError α) : Inert (query i f) := by
  intro w
  cases hs : w.stores[i]? with
  | none => simp [query, storeAt, run_bind, hs, Noted.refl]
  | some s =>
    cases hf : f s with
    | ok a =>
      rw [run_query_ok hs hf]
      exact Noted.refl w
    | error e =>
      obtain ⟨journal, hj⟩ := run_refuse (α := α) e w
      rw [run_query_error hs hf, hj]
      exact noted_journal w journal

@[simp] theorem inert_ofExcept (r : Except FsError α) : Inert (ofExcept r) := fun w => Noted.refl w

@[simp] theorem inert_get : Inert (get : VfsM Vfs) := fun w => Noted.refl w

@[simp] theorem inert_note (level : NoteLevel) (source : String) (pieces : List String) :
    Inert (liftM (note level source pieces) : VfsM Unit) :=
  fun w => noted_journal w _

theorem Atomic.of_fails {act : VfsM α} (h : ∀ w e w', act.run w = (.error e, w') → Noted w w') :
    Atomic act :=
  fun w e w' _ hrun => h w e w' hrun

/-! ## Backend actions -/

theorem run_query_bind {γ : Type} (i : Nat) (f : Store → Except StoreError β) (k : β → VfsM γ)
    (w : Vfs) : (query i f >>= k).run w = match w.stores[i]? with
      | none => (.error .notFound, w)
      | some s => match f s with
        | .ok b => (k b).run w
        | .error e => (refuse e : VfsM γ).run w := by
  cases hs : w.stores[i]? with
  | none => simp [query, storeAt, run_bind, hs]
  | some s =>
    cases hf : f s with
    | ok b =>
      simp only [hf]
      exact run_bind_ok (run_query_ok hs hf) k
    | error e =>
      simp only [hf]
      rw [run_bind, run_query_error hs hf]
      -- a refusal leaves the same notes whatever the action would have answered
      cases e <;> rfl

/-- The reading actions of every backend write nothing but notes. -/
theorem inert_stat (h : Handle) : Inert (Handle.inode h).stat := by
  cases h with
  | memory i slot ino k => exact inert_query i _
  | sample n => exact inert_pure _
  | plainFile => exact inert_pure _

theorem inert_readAt (h : Handle) (off len : Nat) : Inert ((Handle.inode h).readAt off len) := by
  cases h with
  | memory i slot ino k => exact inert_query i _
  | sample n => cases n <;> simp [Handle.inode, sampleInode]
  | plainFile => exact inert_throw _

theorem inert_entryAt (h : Handle) (n : Nat) : Inert ((Handle.inode h).entry n) := by
  cases h with
  | memory i slot ino k => exact inert_query i _
  | sample s => cases s <;> simp [Handle.inode, sampleInode]
  | plainFile => exact inert_throw _

theorem inert_lookupAt (h : Handle) (name : String) : Inert ((Handle.inode h).lookup name) := by
  cases h with
  | memory i slot ino k => exact (inert_query i _).bind fun _ => inert_pure _
  | sample n => cases n <;> simp [Handle.inode, sampleInode]
  | plainFile => exact inert_throw _

/-- A store change that may grow a file writes back the store its operation gives. -/
theorem change_confined {i : Nat} {f : Store → Except StoreError (Store × Option Growth)}
    (hstep : ∀ s t g, f s = .ok (t, g) → Store.Step s t) : Confined (change i f) := by
  intro w
  cases hs : w.stores[i]? with
  | none => simp [change, query, storeAt, run_bind, hs, Backed.refl]
  | some s =>
    cases hf : f s with
    | ok p =>
      obtain ⟨journal, hrun⟩ := run_change_ok hs hf
      rw [hrun]
      exact (backed_putStore hs (hstep s p.1 p.2 hf)).trans (noted_journal _ journal).backed
    | error e =>
      obtain ⟨journal, hrun⟩ := run_change_error hs hf
      rw [hrun]
      exact (noted_journal w journal).backed

theorem change_atomic (i : Nat) (f : Store → Except StoreError (Store × Option Growth)) :
    Atomic (change i f) := by
  refine Atomic.of_fails fun w e w' hrun => ?_
  cases hs : w.stores[i]? with
  | none =>
    simp only [change, query, storeAt, run_bind, run_get, hs, run_throw] at hrun
    cases hrun
    exact Noted.refl w
  | some s =>
    cases hf : f s with
    | ok p =>
      obtain ⟨journal, hok⟩ := run_change_ok hs hf
      rw [hok] at hrun
      cases hrun
    | error e' =>
      obtain ⟨journal, herr⟩ := run_change_error hs hf
      rw [herr] at hrun
      cases hrun
      exact noted_journal w journal

/-- The changing actions of every backend change only what the backends own. -/
theorem confined_writeAt (h : Handle) (off : Nat) (b : ByteArray) :
    Confined ((Handle.inode h).writeAt off b) := by
  cases h with
  | memory i slot ino k =>
    exact (change_confined fun _ _ _ hf => .writeAt hf).bind fun _ => (inert_pure _).confined
  | sample n => exact (inert_throw _).confined
  | plainFile => exact (inert_throw _).confined

theorem atomic_writeAt (h : Handle) (off : Nat) (b : ByteArray) :
    Atomic ((Handle.inode h).writeAt off b) := by
  cases h with
  | memory i slot ino k =>
    intro w e w' hv hrun
    simp only [Handle.inode, memoryInode, run_bind] at hrun
    split at hrun
    · cases hrun
    · rename_i hc
      cases hrun
      exact change_atomic i _ w _ _ hv hc
  | sample n => exact (inert_throw _).atomic
  | plainFile => exact (inert_throw _).atomic

theorem confined_truncateAt (h : Handle) (n : Nat) : Confined ((Handle.inode h).truncate n) := by
  cases h with
  | memory i slot ino k => exact change_confined fun _ _ _ hf => .resize hf
  | sample s => exact (inert_throw _).confined
  | plainFile => exact (inert_throw _).confined

theorem atomic_truncateAt (h : Handle) (n : Nat) : Atomic ((Handle.inode h).truncate n) := by
  cases h with
  | memory i slot ino k => exact change_atomic i _
  | sample s => exact (inert_throw _).atomic
  | plainFile => exact (inert_throw _).atomic

/-- How a changing action may end from `w`: a success changed only what the backends own, a
failure wrote nothing but notes. -/
def Settles (w : Vfs) : Except FsError α × Vfs → Prop
  | (.ok _, w') => Backed w w'
  | (.error _, w') => Noted w w'

/-- A memory backend's removal writes back the store its operation gives, or fails having
written nothing but notes. -/
theorem run_remove_memory {i : Nat} {f : Store → Except StoreError Store}
    (hstep : ∀ s t, f s = .ok t → Store.Step s t) (w : Vfs) :
    Settles w ((do putStore i (← query i f) : VfsM Unit).run w) := by
  rw [run_query_bind]
  cases hs : w.stores[i]? with
  | none => exact Noted.refl w
  | some s =>
    cases hf : f s with
    | ok t =>
      simp only [hf, run_putStore]
      exact backed_putStore hs (hstep s t hf)
    | error e =>
      obtain ⟨journal, hj⟩ := run_refuse (α := Unit) e w
      simp only [hf, hj]
      exact noted_journal w journal

/-- A memory backend's creation writes back the store its operation gives and answers the new
child, or fails having written nothing but notes. -/
theorem run_create_memory (i slot ino : Nat) (k : NodeType) (name : String) (kind : NodeType)
    (w : Vfs) : Settles w (((memoryInode i slot ino k).create name kind).run w) := by
  simp only [memoryInode]
  rw [run_query_bind]
  cases hs : w.stores[i]? with
  | none => exact Noted.refl w
  | some s =>
    cases hf : s.create slot ino name kind with
    | ok p =>
      obtain ⟨t, c, cino⟩ := p
      simp only [hf, run_bind, run_putStore, run_liftM, run_note, run_pure]
      exact (backed_putStore hs (.create hf)).trans
        (noted_journal { w with stores := w.stores.modify i fun _ => t } _).backed
    | error e =>
      obtain ⟨journal, hj⟩ := run_refuse (α := Handle) e w
      simp only [hf, hj]
      exact noted_journal w journal

/-- An action that settles from every state is confined and atomic. -/
theorem confined_atomic_of_settles (act : VfsM α) (h : ∀ w, Settles w (act.run w)) :
    Confined act ∧ Atomic act := by
  refine ⟨fun w => ?_, Atomic.of_fails fun w e w' hrun => ?_⟩
  · have := h w
    rcases hrun : act.run w with ⟨_ | _, w'⟩ <;> rw [hrun] at this
    · exact this.backed
    · exact this
  · have := h w
    rwa [hrun] at this

theorem createAt_changes (h : Handle) (name : String) (kind : NodeType) :
    Confined ((Handle.inode h).create name kind) ∧ Atomic ((Handle.inode h).create name kind) := by
  cases h with
  | memory i slot ino k =>
    exact confined_atomic_of_settles ((memoryInode i slot ino k).create name kind)
      (run_create_memory i slot ino k name kind)
  | sample n => exact ⟨(inert_throw _).confined, (inert_throw _).atomic⟩
  | plainFile => exact ⟨(inert_throw _).confined, (inert_throw _).atomic⟩

theorem unlinkAt_changes (h : Handle) (name : String) :
    Confined ((Handle.inode h).unlink name) ∧ Atomic ((Handle.inode h).unlink name) := by
  cases h with
  | memory i slot ino k =>
    exact confined_atomic_of_settles ((memoryInode i slot ino k).unlink name)
      (run_remove_memory (f := (·.unlink slot ino name)) fun _ _ hf => .unlink hf)
  | sample n => exact ⟨(inert_throw _).confined, (inert_throw _).atomic⟩
  | plainFile => exact ⟨(inert_throw _).confined, (inert_throw _).atomic⟩

theorem rmdirAt_changes (h : Handle) (name : String) :
    Confined ((Handle.inode h).rmdir name) ∧ Atomic ((Handle.inode h).rmdir name) := by
  cases h with
  | memory i slot ino k =>
    exact confined_atomic_of_settles ((memoryInode i slot ino k).rmdir name)
      (run_remove_memory (f := (·.rmdir slot ino name)) fun _ _ hf => .rmdir hf)
  | sample n => exact ⟨(inert_throw _).confined, (inert_throw _).atomic⟩
  | plainFile => exact ⟨(inert_throw _).confined, (inert_throw _).atomic⟩

/-- The open and close hooks move the sample counters at most. -/
theorem opened_samples (h : Handle) (flags : OpenFlags) (w : Vfs) :
    ((Handle.inode h).opened flags w).2 = { w with samples := ((Handle.inode h).opened flags w).2.samples } := by
  cases h <;> rfl

theorem closed_samples (h : Handle) (w : Vfs) :
    ((Handle.inode h).closed w).2 = { w with samples := ((Handle.inode h).closed w).2.samples } := by
  cases h <;> rfl

/-! ## The actions of a node -/

theorem inert_lift {x : StateM Vfs α} (h : ∀ w, Noted w (x w).2) : Inert (ExceptT.lift x : VfsM α) :=
  h

theorem inert_attempt {act : VfsM α} (h : Inert act) : Inert (Node.attempt act) :=
  inert_lift h

theorem Inert.ite {c : Prop} [Decidable c] {a b : VfsM α} (ha : Inert a) (hb : Inert b) :
    Inert (if c then a else b) := by
  split
  · exact ha
  · exact hb

/-- Reading the live size writes nothing but notes. -/
theorem length_noted (n : Node Handle) (w : Vfs) : Noted w (n.length Handle.inode w).2 := by
  have := inert_stat n.inode w
  unfold Node.length
  simp only [bind, StateT.bind]
  rcases hrun : (Handle.inode n.inode).stat.run w with ⟨_ | _, w'⟩ <;>
    simp only [hrun] at this ⊢ <;> exact this

theorem inert_make (name : String) (h : Handle) : Inert (Node.make Handle.inode name h) := by
  unfold Node.make
  dsimp only
  split
  · exact (inert_throw _).bind fun _ => (inert_stat h).bind fun _ => inert_pure _
  · exact (inert_stat h).bind fun _ => inert_pure _

/-- A view of a fitting name whose metadata can be read is made from that metadata. -/
theorem run_make_ok {name : String} {h : Handle} {w : Vfs} {m : Meta} (hfit : Path.fits name = true)
    (hm : ((Handle.inode h).stat).run w = (.ok m, w)) :
    (Node.make Handle.inode name h).run w =
      (.ok { name := name, ino := m.ino, kind := m.kind, mode := m.mode, uid := m.uid,
             gid := m.gid, inode := h }, w) := by
  simp only [Node.make, hfit, Bool.not_true, Bool.false_eq_true, if_false, run_bind, hm, run_pure]

theorem inert_read (n : Node Handle) (off len : Nat) : Inert (n.read Handle.inode off len) := by
  unfold Node.read
  refine Inert.ite (inert_pure _) ((inert_lift (length_noted n)).bind fun size => ?_)
  refine Inert.ite (inert_pure _) ((inert_attempt (inert_readAt _ _ _)).bind fun r => ?_)
  split <;> simp

theorem inert_entry (n : Node Handle) (i : Nat) : Inert (n.entry Handle.inode i) := by
  unfold Node.entry
  refine Inert.ite (inert_pure _) ((inert_attempt (inert_entryAt _ _)).bind fun r => ?_)
  split <;> simp

theorem inert_find (n : Node Handle) (name : String) : Inert (n.find Handle.inode name) := by
  unfold Node.find
  refine Inert.ite (inert_pure _) ((inert_attempt (inert_lookupAt _ _)).bind fun r => ?_)
  split
  · exact (inert_make name _).bind fun _ => inert_pure _
  all_goals simp

/-! ## Changing actions of a node -/

/-- An action that never fails. -/
def Sure (act : VfsM α) : Prop := ∀ w, ∃ a, (act.run w).1 = .ok a

theorem sure_pure (a : α) : Sure (pure a : VfsM α) := fun _ => ⟨a, rfl⟩

theorem Sure.bind {x : VfsM α} {f : α → VfsM β} (hx : Sure x) (hf : ∀ a, Sure (f a)) :
    Sure (x >>= f) := by
  intro w
  rw [run_bind]
  obtain ⟨a, ha⟩ := hx w
  rcases hrun : x.run w with ⟨_ | a', w1⟩ <;> rw [hrun] at ha
  · cases ha
  · exact hf a' w1

theorem sure_lift (x : StateM Vfs α) : Sure (ExceptT.lift x : VfsM α) := fun w => ⟨(x w).1, rfl⟩

theorem sure_liftM (x : StateM Vfs α) : Sure (liftM x : VfsM α) := fun w => ⟨(x w).1, rfl⟩

theorem sure_note (level : NoteLevel) (source : String) (pieces : List String) :
    Sure (liftM (note level source pieces) : VfsM Unit) := fun _ => ⟨⟨⟩, rfl⟩

theorem sure_modify (f : Vfs → Vfs) : Sure (modify f : VfsM PUnit) := fun _ => ⟨⟨⟩, rfl⟩

theorem Sure.atomic {act : VfsM α} (h : Sure act) : Atomic act := by
  intro w e w' _ hrun
  obtain ⟨a, ha⟩ := h w
  rw [hrun] at ha
  cases ha

/-- An action that fails atomically, followed by one that cannot fail, fails atomically. -/
theorem Atomic.bind_sure {x : VfsM α} {f : α → VfsM β} (hx : Atomic x) (hf : ∀ a, Sure (f a)) :
    Atomic (x >>= f) := by
  intro w e w' hv hrun
  rw [run_bind] at hrun
  rcases hx' : x.run w with ⟨e1 | a, w1⟩ <;> rw [hx'] at hrun
  · cases hrun
    exact hx w _ _ hv hx'
  · obtain ⟨b, hb⟩ := hf a w1
    dsimp only at hrun
    rw [hrun] at hb
    cases hb

theorem Atomic.ite {c : Prop} [Decidable c] {a b : VfsM α} (ha : Atomic a) (hb : Atomic b) :
    Atomic (if c then a else b) := by
  split
  · exact ha
  · exact hb

theorem confined_attempt {act : VfsM α} (h : Confined act) : Confined (Node.attempt act) := h

/-- Running a changing action and inspecting its outcome fails only by passing on a failure of
the action, which wrote nothing but notes. -/
theorem atomic_attempt_bind {act : VfsM α} {k : Except FsError α → VfsM β} (h : Atomic act)
    (hok : ∀ a, Sure (k (.ok a))) (herr : ∀ e, Inert (k (.error e))) :
    Atomic (Node.attempt act >>= k) := by
  intro w e w' hv hrun
  rw [run_bind] at hrun
  simp only [Node.attempt, run_lift] at hrun
  rcases hact : act.run w with ⟨e1 | a, w1⟩ <;> rw [hact] at hrun
  · -- the action failed having written notes only, and the rest writes notes only
    have h1 := h w e1 w1 hv hact
    have h2 := herr e1 w1
    simp only at hrun
    rw [hrun] at h2
    exact h1.trans h2
  · obtain ⟨b, hb⟩ := hok a w1
    simp only at hrun
    rw [hrun] at hb
    cases hb

theorem write_changes (n : Node Handle) (off : Nat) (b : ByteArray) :
    Confined (n.write Handle.inode off b) ∧ Atomic (n.write Handle.inode off b) := by
  unfold Node.write
  split
  · exact ⟨(inert_pure _).confined, (inert_pure _).atomic⟩
  · refine ⟨(confined_attempt (confined_writeAt _ _ _)).bind fun r => ?_,
      atomic_attempt_bind (atomic_writeAt _ _ _) (fun a => sure_pure a) fun e => ?_⟩
    · split <;> apply Inert.confined <;> simp
    · split <;> simp

@[simp] theorem throw_bind (e : FsError) (f : α → VfsM β) : (throw e : VfsM α) >>= f = throw e :=
  rfl

theorem Inert.changes {act : VfsM α} (h : Inert act) : Confined act ∧ Atomic act :=
  ⟨h.confined, h.atomic⟩

theorem Atomic.inert_bind {x : VfsM α} {f : α → VfsM β} (hx : Inert x) (hf : ∀ a, Atomic (f a)) :
    Atomic (x >>= f) := by
  intro w e w' hv hrun
  rw [run_bind] at hrun
  have h1 := hx w
  rcases hx' : x.run w with ⟨e1 | a, w1⟩ <;> rw [hx'] at hrun h1
  · cases hrun
    exact h1
  · exact h1.trans (hf a w1 e w' (h1.storesValid hv) hrun)

theorem truncate_changes (n : Node Handle) (size : Nat) :
    Confined (n.truncate Handle.inode size) ∧ Atomic (n.truncate Handle.inode size) := by
  unfold Node.truncate
  simp only [throw_bind]
  split
  · exact (inert_throw _).changes
  · split
    · exact (inert_throw _).changes
    · exact ⟨confined_truncateAt _ _, atomic_truncateAt _ _⟩

/-- The checks before a removal write nothing. -/
theorem inert_requireRemove (n : Node Handle) : Inert (n.requireRemove Handle.inode) := by
  unfold Node.requireRemove
  simp only [throw_bind]
  split
  · exact inert_throw _
  · split <;> simp

theorem unlink_changes (n : Node Handle) (name : String) :
    Confined (n.unlink Handle.inode name) ∧ Atomic (n.unlink Handle.inode name) :=
  ⟨(inert_requireRemove n).confined.bind fun _ => (unlinkAt_changes _ _).1,
    Atomic.inert_bind (inert_requireRemove n) fun _ => (unlinkAt_changes _ _).2⟩

theorem rmdir_changes (n : Node Handle) (name : String) :
    Confined (n.rmdir Handle.inode name) ∧ Atomic (n.rmdir Handle.inode name) :=
  ⟨(inert_requireRemove n).confined.bind fun _ => (rmdirAt_changes _ _).1,
    Atomic.inert_bind (inert_requireRemove n) fun _ => (rmdirAt_changes _ _).2⟩

/-- A memory backend's successful creation in a valid store: the store the operation gave is
written back, and its new slot holds the new record, of the next inode number and an empty body
of the asked kind. -/
theorem run_create_memory_ok {i slot ino : Nat} {k kind : NodeType} {name : String} {w w1 : Vfs}
    {c : Handle} (hv : StoresValid w)
    (hrun : ((memoryInode i slot ino k).create name kind).run w = (.ok c, w1)) :
    ∃ t c' cino body, c = .memory i c' cino kind ∧ w1.stores[i]? = some t ∧
      Store.freshBody kind = .ok body ∧ t.slot c' = some ⟨cino, name, some slot, none, body⟩ ∧
      Backed w w1 := by
  have hset := run_create_memory i slot ino k name kind w
  rw [hrun] at hset
  simp only [memoryInode] at hrun
  rw [run_query_bind] at hrun
  cases hs : w.stores[i]? with
  | none => simp only [hs] at hrun; cases hrun
  | some s =>
    cases hf : s.create slot ino name kind with
    | error e =>
      obtain ⟨journal, hj⟩ := run_refuse (α := Handle) e w
      simp only [hs, hf, hj] at hrun
      cases hrun
    | ok p =>
      obtain ⟨t, c', cino⟩ := p
      simp only [hs, hf, run_bind, run_putStore, run_liftM, run_note, run_pure] at hrun
      cases hrun
      obtain ⟨-, hins⟩ := Store.create_eq_ok hf
      obtain ⟨body, hbody, -, hslot⟩ := Store.slot_insert_self (hv i s hs) hins
      refine ⟨t, c', cino, body, rfl, ?_, hbody, hslot, hset⟩
      rw [Array.getElem?_modify, if_pos rfl, hs]
      rfl

/-- After a backend created a child in a valid store, the child's metadata can be read. -/
theorem stat_after_create {h c : Handle} {name : String} {kind : NodeType} {w w1 : Vfs}
    (hv : StoresValid w) (hrun : ((Handle.inode h).create name kind).run w = (.ok c, w1)) :
    ∃ m, ((Handle.inode c).stat).run w1 = (.ok m, w1) := by
  cases h with
  | memory i slot ino k =>
    obtain ⟨t, c', cino, body, rfl, ht, -, hslot, -⟩ := run_create_memory_ok hv hrun
    have hget : t.get c' cino = .ok ⟨cino, name, some slot, none, body⟩ :=
      (Store.get_eq_ok_iff t c' cino _).mpr ⟨hslot, rfl⟩
    exact ⟨_, run_query_ok (f := (·.stat c' cino)) ht (by simp [Store.stat, hget]; rfl)⟩
  | sample n => cases hrun
  | plainFile => cases hrun

/-- Creating a child and reading its metadata: a failure can only be the backend's, which wrote
nothing but notes. -/
theorem createMake_changes (h : Handle) (name : String) (kind : NodeType)
    (hfit : Path.fits name = true) :
    Confined ((Handle.inode h).create name kind >>= Node.make Handle.inode name) ∧
    Atomic ((Handle.inode h).create name kind >>= Node.make Handle.inode name) := by
  refine ⟨(createAt_changes h name kind).1.bind fun c => (inert_make name c).confined, ?_⟩
  intro w e w' hv hrun
  rw [run_bind] at hrun
  rcases hc : ((Handle.inode h).create name kind).run w with ⟨e1 | c, w1⟩ <;> rw [hc] at hrun
  · cases hrun
    exact (createAt_changes h name kind).2 w _ _ hv hc
  · -- the name fits, and the new child's metadata can be read
    obtain ⟨m, hm⟩ := stat_after_create hv hc
    dsimp only at hrun
    rw [run_make_ok hfit hm] at hrun
    cases hrun

theorem create_changes (n : Node Handle) (name : String) (kind : NodeType) :
    Confined (n.create Handle.inode name kind) ∧ Atomic (n.create Handle.inode name kind) := by
  unfold Node.create
  simp only [throw_bind]
  split
  · exact (inert_throw _).changes
  · split
    · exact (inert_throw _).changes
    · split
      · exact (inert_throw _).changes
      · rename_i hfit
        exact createMake_changes _ name kind (by simpa using hfit)

/-- Telling a node of an open or a close moves the sample counters at most. -/
theorem notifyOpen_samples (n : Node Handle) (flags : OpenFlags) (w : Vfs) :
    (n.notifyOpen Handle.inode flags w).2 =
      { w with samples := (n.notifyOpen Handle.inode flags w).2.samples } := by
  unfold Node.notifyOpen
  split
  · exact opened_samples n.inode flags w
  · rfl

theorem files_notifyOpen (n : Node Handle) (flags : OpenFlags) (w : Vfs) :
    (n.notifyOpen Handle.inode flags w).2.files = w.files := by
  rw [notifyOpen_samples]

theorem notifyClose_samples (n : Node Handle) (w : Vfs) :
    (n.notifyClose Handle.inode w).2 = { w with samples := (n.notifyClose Handle.inode w).2.samples } := by
  unfold Node.notifyClose
  split
  · exact closed_samples n.inode w
  · rfl

theorem files_notifyClose (n : Node Handle) (w : Vfs) :
    (n.notifyClose Handle.inode w).2.files = w.files := by
  rw [notifyClose_samples]

end KernelFs.Vfs
