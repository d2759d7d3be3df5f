import KernelFs.Proofs.Vfs.Mounting

/-!
# Cursors and sizes stay within the signed word

A descriptor's cursor is an unsigned word, but a seek (`File::lseek`,
src/crates/vfs/src/file.rs:84-98) turns its base into a signed one before it adds the offset, and a
read or a write adds the count it moved to the cursor. Both are exact because of one bound that
every reachable state keeps: every open descriptor's cursor and every node's live size are at most
`maxOffset`, the largest signed word (`Reachable.offsetsFit`).

The sizes come from the heap, which grants no buffer past `maxBuffer`, the same largest signed
word: no record of any store holds more bytes (`Store.Sized`), and every store operation keeps
that.

The cursors come from the calls that move them: an open starts at 0, a seek lands in range, a
read ends inside the live size, and a write ends inside the size it leaves; an appending write
starts at the live size.

Results:
* `Store.Valid.sized_step`: every store operation keeps every record within the heap's bound.
* `length_le_maxOffset`, `length_state`: a node's live size is within that bound, and reading it
  changes nothing.
* `read_bounds`, `write_bounds`: a read moves at most the bytes asked for and ends inside the
  live size; a write moves at most the bytes given and ends inside the size it leaves.
* `keepsFit_act`, `Reachable.offsetsFit`: every call keeps the bound, so every reachable state
  has it.
* `run_seek`: in such a state a seek lands exactly on base plus offset when that lies in range,
  and is refused as an invalid argument otherwise.
* `run_read_eq_ok`, `run_write_eq_ok`: a successful read or write is its node's call at the
  cursor, or at the live size for an appending write, and the move of the cursor past its count.
* `cursor_arithmetic_is_exact`: all of it, for every reachable state.
-/

namespace KernelFs.Memory.Store

open Relation

variable {s t : Store}

/-! ## Sizes in a store -/

/-- No record of the store holds more bytes than any heap grants. -/
def Sized (s : Store) : Prop := ∀ i r, s.slot i = some r → r.size ≤ maxBuffer

theorem sized_empty (heap : Allocator) (budget : Nat) : (empty heap budget).Sized := by
  intro i r h
  cases i with
  | zero =>
    simp only [slot, empty] at h
    cases h
    exact Nat.zero_le _
  | succ i => simp [slot, empty] at h

/-- Replacing a file's content by one the heap could grant keeps the store sized. -/
theorem Sized.setData (hs : s.Sized) {i : Nat} {r : Record} (hr : s.slot i = some r)
    {d : ByteArray} (hd : d.size ≤ maxBuffer) (used : Nat) :
    ({ s.setData i d with used } : Store).Sized := by
  intro j x hx
  have hx' : (s.setData i d).slot j = some x := hx
  rw [slot_setData hr] at hx'
  split at hx'
  · cases hx'
    exact hd
  · exact hs j x hx'

theorem Sized.resize (hs : s.Sized) {i ino n : Nat} {g : Option Growth}
    (h : s.resize i ino n = .ok (t, g)) : t.Sized := by
  obtain ⟨d, hd, hcase⟩ := resize_eq_ok h
  obtain ⟨r, hr, -, hb⟩ := (fileData_eq_ok_iff s i ino d).mp hd
  have hold : d.size ≤ maxBuffer := by simpa [Record.size, hb] using hs i r hr
  rcases hcase with ⟨hn, -, rfl⟩ | ⟨hn, hgrant, -, -, -, rfl⟩
  · exact hs.setData hr (by rw [size_cut d n hn]; omega) _
  · -- the heap granted the grown buffer, so it is within the bound
    exact hs.setData hr (by rw [size_grow d n (by omega)]; exact s.heap.grants_le n hgrant) _

theorem Sized.writeAt (hs : s.Sized) {i ino off : Nat} {b : ByteArray} {g : Option Growth}
    (h : s.writeAt i ino off b = .ok (t, g)) : t.Sized := by
  obtain ⟨d, u, d1, -, hd1, -, hreach, rfl, hcase⟩ := reach_writeAt h
  have hu : u.Sized := by
    rcases hcase with ⟨-, hr⟩ | rfl
    · exact hs.resize hr
    · exact hs
  -- the bytes land inside the content, which keeps its size
  obtain ⟨r, hr, -, hb⟩ := (fileData_eq_ok_iff u i ino d1).mp hd1
  have hold : d1.size ≤ maxBuffer := by simpa [Record.size, hb] using hu i r hr
  exact hu.setData hr (by rw [size_splice d1 off b hreach]; exact hold) u.used

theorem Valid.sized_insert (hv : s.Valid) (hs : s.Sized) {dir dirIno i ino : Nat} {name : String}
    {kind : NodeType} (h : s.insert dir dirIno name kind = .ok (t, i, ino)) : t.Sized := by
  intro j x hx
  by_cases hj : j = i
  · -- the new record is empty
    subst hj
    obtain ⟨body, hbody, -, hself⟩ := slot_insert_self hv h
    rw [hself] at hx
    cases hx
    cases kind <;> simp only [freshBody] at hbody <;> cases hbody <;> simp [Record.size]
  · obtain ⟨g, hg, -, -, hslot⟩ := slot_insert_of_ne hv h hj
    rw [hslot] at hx
    obtain ⟨y, hy, rfl⟩ := Option.map_eq_some_iff.mp hx
    rw [(hg y).2.2.2.1]
    exact hs j y hy

theorem Valid.sized_remove (hv : s.Valid) (hs : s.Sized) {i : Nat} (h : s.remove i = .ok t) :
    t.Sized := by
  intro j x hx
  have hj : j ≠ i := fun e => by rw [e, slot_remove_self hv h] at hx; cases hx
  obtain ⟨g, hg, hslot⟩ := slot_remove_of_ne hv h hj
  rw [hslot] at hx
  obtain ⟨y, hy, rfl⟩ := Option.map_eq_some_iff.mp hx
  rw [hg.size y]
  exact hs j y hy

/-- Every store operation keeps every record within the heap's bound. -/
theorem Valid.sized_step (hv : s.Valid) (hs : s.Sized) (h : Step s t) : t.Sized := by
  cases h with
  | create h => exact hv.sized_insert hs (create_eq_ok h).2
  | unlink h =>
    obtain ⟨c, -, -, h⟩ := unlink_eq_ok h
    exact hv.sized_remove hs h
  | rmdir h =>
    obtain ⟨c, r, -, -, -, h⟩ := rmdir_eq_ok h
    exact hv.sized_remove hs h
  | resize h => exact hs.resize h
  | writeAt h => exact hs.writeAt h

theorem Valid.sized_later (hv : s.Valid) (hs : s.Sized) (h : ReflTransGen Step s t) : t.Sized := by
  induction h with
  | refl => exact hs
  | tail hsu hstep ih => exact (hv.later hsu).sized_step ih hstep

/-- Reading an inode's metadata fails only for a view whose inode is gone. -/
theorem stat_eq_error {i ino : Nat} {e : StoreError} (h : s.stat i ino = .error e) :
    e = .missing := by
  unfold stat get at h
  split at h
  · split at h <;> cases h
    rfl
  · cases h
    rfl

end KernelFs.Memory.Store

namespace KernelFs.Backend

open Memory Vfs

variable {α : Type} {w w' : Vfs} {i : Nat}

/-- A store operation that succeeded read the store of its index and changed nothing. -/
theorem run_query_eq_ok {f : Store → Except StoreError α} {a : α}
    (h : (query i f).run w = (.ok a, w')) : ∃ s, w.stores[i]? = some s ∧ f s = .ok a ∧ w' = w := by
  cases hs : w.stores[i]? with
  | none =>
    rw [show (query i f).run w = (.error .notFound, w) by simp [query, storeAt, run_bind, hs]] at h
    cases h
  | some s =>
    cases hf : f s with
    | ok a' =>
      rw [run_query_ok hs hf] at h
      cases h
      exact ⟨s, rfl, hf, rfl⟩
    | error e =>
      obtain ⟨journal, hj⟩ := run_refuse (α := α) e w
      rw [run_query_error hs hf, hj] at h
      cases h

/-- A store change that succeeded wrote back the store its operation gave. -/
theorem run_change_eq_ok {f : Store → Except StoreError (Store × Option Growth)} {u : Unit}
    (h : (change i f).run w = (.ok u, w')) :
    ∃ s t g journal, w.stores[i]? = some s ∧ f s = .ok (t, g) ∧
      w' = { w with stores := w.stores.modify i (fun _ => t), journal } := by
  cases hs : w.stores[i]? with
  | none =>
    rw [show (change i f).run w = (.error .notFound, w) by
      simp [change, query, storeAt, run_bind, hs]] at h
    cases h
  | some s =>
    cases hf : f s with
    | ok p =>
      obtain ⟨journal, hrun⟩ := run_change_ok hs hf
      rw [hrun] at h
      cases h
      exact ⟨s, p.1, p.2, journal, rfl, hf, rfl⟩
    | error e =>
      obtain ⟨journal, hrun⟩ := run_change_error hs hf
      rw [hrun] at h
      cases h

end KernelFs.Backend

namespace KernelFs.Vfs

open Memory Backend

variable {α : Type} {config : Config} {w w' : Vfs}

/-! ## Live sizes -/

/-- Every store of the state is sized. -/
def StoresSized (w : Vfs) : Prop := ∀ (i : Nat) (s : Store), w.stores[i]? = some s → s.Sized

theorem Backed.storesSized (h : Backed w w') (hv : StoresValid w) (hs : StoresSized w) :
    StoresSized w' := by
  intro i t ht
  obtain ⟨s, hs', hst⟩ := h.steps i t ht
  exact (hv i s hs').sized_later (hs i s hs') hst

/-- Reading an inode's metadata changes nothing: a refusal for a missing inode leaves no note. -/
theorem stat_state (h : Handle) (w : Vfs) : ((Handle.inode h).stat.run w).2 = w := by
  cases h with
  | memory i slot ino k =>
    show ((query i (·.stat slot ino)).run w).2 = w
    cases hs : w.stores[i]? with
    | none => simp [query, storeAt, run_bind, hs]
    | some s =>
      cases hf : s.stat slot ino with
      | ok m => rw [run_query_ok hs hf]
      | error e =>
        rw [run_query_error hs hf, Store.stat_eq_error hf]
        rfl
  | sample n => rfl
  | plainFile => rfl

/-- The metadata a backend reports gives a size within the heap's bound. -/
theorem stat_size_le (hs : StoresSized w) {h : Handle} {m : Meta}
    (hrun : ((Handle.inode h).stat).run w = (.ok m, w')) : m.size ≤ maxBuffer := by
  cases h with
  | memory i slot ino k =>
    obtain ⟨s, hw, hm, -⟩ := run_query_eq_ok (f := (·.stat slot ino)) hrun
    -- the metadata is that of the record the view still names
    unfold Store.stat at hm
    cases hg : s.get slot ino with
    | error e => simp [hg, bind, Except.bind] at hm
    | ok r =>
      simp only [hg, bind, Except.bind, pure, Except.pure, Except.ok.injEq] at hm
      subst hm
      obtain ⟨hr, -⟩ := (Store.get_eq_ok_iff s slot ino r).mp hg
      exact hs i s hw slot r hr
  | sample n =>
    cases hrun
    cases n <;> decide
  | plainFile =>
    cases hrun
    decide

/-- Reading a node's live size changes nothing. -/
theorem length_state (n : Node Handle) (w : Vfs) : (n.length Handle.inode w).2 = w := by
  have := stat_state n.inode w
  unfold Node.length
  simp only [bind, StateT.bind]
  rcases hrun : (Handle.inode n.inode).stat.run w with ⟨_ | _, w'⟩ <;>
    simp only [hrun] at this ⊢ <;> exact this

/-- Every node's live size is within the heap's bound, which is the largest offset. -/
theorem length_le_maxOffset (hs : StoresSized w) (n : Node Handle) :
    (n.length Handle.inode w).1 ≤ maxOffset := by
  have hmax : maxBuffer = maxOffset := rfl
  unfold Node.length
  simp only [bind, StateT.bind]
  rcases hrun : (Handle.inode n.inode).stat.run w with ⟨_ | m, w1⟩
  · exact Nat.zero_le _
  · exact hmax ▸ stat_size_le hs hrun

/-! ## What a read and a write move -/

/-- A backend read moves at most the bytes asked for. -/
theorem readAt_size {h : Handle} {off len : Nat} {b : ByteArray}
    (hrun : ((Handle.inode h).readAt off len).run w = (.ok b, w')) : b.size ≤ len := by
  cases h with
  | memory i slot ino k =>
    obtain ⟨s, -, hb, -⟩ := run_query_eq_ok (f := (·.readAt slot ino off len)) hrun
    unfold Store.readAt at hb
    cases hd : s.fileData slot ino with
    | error e => simp [hd, bind, Except.bind] at hb
    | ok d =>
      simp only [hd, bind, Except.bind, pure, Except.pure] at hb
      split at hb
      · cases hb
        exact Nat.zero_le _
      · cases hb
        exact size_slice_le d off len
  | sample n =>
    cases n <;> simp only [Handle.inode, sampleInode] at hrun <;> cases hrun
    exact size_slice_le _ off len
  | plainFile => cases hrun

/-- A read through a node moves at most the bytes asked for, and the bytes it moves end inside
the live size. -/
theorem read_bounds {n : Node Handle} {off len : Nat} {b : ByteArray}
    (h : (n.read Handle.inode off len).run w = (.ok b, w')) :
    b.size ≤ len ∧ (0 < b.size → off + b.size ≤ (n.length Handle.inode w).1) := by
  unfold Node.read at h
  split at h
  · cases h
    exact ⟨Nat.zero_le _, fun hpos => absurd hpos (Nat.lt_irrefl 0)⟩
  rw [run_bind, run_lift, length_state] at h
  dsimp only at h
  split at h
  · cases h
    exact ⟨Nat.zero_le _, fun hpos => absurd hpos (Nat.lt_irrefl 0)⟩
  rename_i hoff
  -- the node asks the backend for at most what lies between the offset and the live size
  rw [run_bind] at h
  simp only [Node.attempt, run_lift] at h
  rcases hr : ((Handle.inode n.inode).readAt off
      (min len ((n.length Handle.inode w).1 - off))).run w with ⟨_ | b', w2⟩ <;>
    simp only [hr] at h
  · -- a backend without reads moves nothing; any other refusal is passed on
    split at h
    · rename_i heq
      cases heq
    · cases h
      exact ⟨Nat.zero_le _, fun hpos => absurd hpos (Nat.lt_irrefl 0)⟩
    · cases h
  · cases h
    have hsize := readAt_size hr
    exact ⟨by omega, fun _ => by omega⟩

/-- A backend write that succeeds moved all its bytes, and the inode it wrote then reports a
size that reaches the end of the write. -/
theorem writeAt_bounds {h : Handle} {off : Nat} {b : ByteArray} {k : Nat}
    (hrun : ((Handle.inode h).writeAt off b).run w = (.ok k, w')) :
    k = b.size ∧ ∃ m, ((Handle.inode h).stat).run w' = (.ok m, w') ∧ off + k ≤ m.size := by
  cases h with
  | memory i slot ino kd =>
    simp only [Handle.inode, memoryInode] at hrun
    rw [run_bind] at hrun
    rcases hc : (change i (·.writeAt slot ino off b)).run w with ⟨_ | u, w1⟩ <;>
      rw [hc] at hrun
    · cases hrun
    cases hrun
    obtain ⟨s, t, g, journal, hs, hf, rfl⟩ := run_change_eq_ok hc
    refine ⟨rfl, ?_⟩
    -- the store the write leaves holds the spliced content, which reaches the end of the write
    obtain ⟨d, u', d1, -, hd1, -, hreach, ht, -⟩ := Store.reach_writeAt hf
    obtain ⟨r, hr, hino, -⟩ := (Store.fileData_eq_ok_iff u' slot ino d1).mp hd1
    have hfd : t.fileData slot ino = .ok (splice d1 off b) := by
      rw [ht]
      exact Store.fileData_setData hr _ ino hino
    obtain ⟨m, hm, hsize⟩ := stat_of_fileData hfd
    have hw : (w.stores.modify i fun _ => t)[i]? = some t := by
      rw [Array.getElem?_modify, if_pos rfl, hs]
      rfl
    refine ⟨m, run_query_ok (f := (·.stat slot ino)) hw hm, ?_⟩
    rw [hsize, size_splice d1 off b hreach]
    exact hreach
  | sample n => cases n <;> cases hrun
  | plainFile => cases hrun

/-- A write through a node moves at most the bytes given, and the bytes it moves end inside
the live size it leaves. -/
theorem write_bounds {n : Node Handle} {off : Nat} {b : ByteArray} {k : Nat}
    (h : (n.write Handle.inode off b).run w = (.ok k, w')) :
    k ≤ b.size ∧ (0 < k → off + k ≤ (n.length Handle.inode w').1) := by
  unfold Node.write at h
  split at h
  · cases h
    exact ⟨Nat.zero_le _, fun hpos => absurd hpos (Nat.lt_irrefl 0)⟩
  rw [run_bind] at h
  simp only [Node.attempt, run_lift] at h
  rcases hr : ((Handle.inode n.inode).writeAt off b).run w with ⟨_ | k', w2⟩ <;>
    simp only [hr] at h
  · -- a backend without writes moves nothing; any other refusal is passed on
    split at h
    · rename_i heq
      cases heq
    · cases h
      exact ⟨Nat.zero_le _, fun hpos => absurd hpos (Nat.lt_irrefl 0)⟩
    · cases h
  · cases h
    obtain ⟨rfl, m, hm, hend⟩ := writeAt_bounds hr
    refine ⟨Nat.le_refl _, fun _ => ?_⟩
    unfold Node.length
    simp only [bind, StateT.bind, hm]
    exact hend

/-! ## The bound every reachable state keeps -/

/-- Every open descriptor's cursor lies within the signed word, and every store is sized. -/
structure OffsetsFit (w : Vfs) : Prop where
  cursors : ∀ fd f, w.files.get? fd = some f → f.cursor ≤ maxOffset
  sizes : StoresSized w

theorem offsetsFit_fresh (config : Config) : OffsetsFit (fresh config) where
  cursors fd f h := by simp [fresh, FdTable.empty, FdTable.get?] at h
  sizes i s h := by simp [fresh] at h

/-- A state with the same descriptors and stores keeps the bound. -/
theorem OffsetsFit.frame (h : OffsetsFit w) (hfiles : w'.files = w.files)
    (hstores : w'.stores = w.stores) : OffsetsFit w' :=
  ⟨fun fd f hfd => h.cursors fd f (hfiles ▸ hfd), fun i s hs => h.sizes i s (hstores ▸ hs)⟩

/-- Moving the cursor of a descriptor to a place in range keeps the bound. -/
theorem OffsetsFit.update (h : OffsetsFit w) {fd : Nat} {f : OpenFile} (hf : f.cursor ≤ maxOffset) :
    OffsetsFit { w with files := w.files.update fd f } := by
  refine ⟨fun k g hk => ?_, h.sizes⟩
  simp only [FdTable.get?_update] at hk
  split at hk
  · obtain ⟨_, -, rfl⟩ := Option.map_eq_some_iff.mp hk
    exact hf
  · exact h.cursors k g hk

theorem Noted.offsetsFit (h : Noted w w') (hf : OffsetsFit w) : OffsetsFit w' := by
  unfold Noted at h
  rw [h]
  exact hf.frame rfl rfl

theorem Backed.offsetsFit (h : Backed w w') (hw : Sound config w) (hf : OffsetsFit w) :
    OffsetsFit w' :=
  ⟨fun fd f hfd => hf.cursors fd f (h.files_eq ▸ hfd), h.storesSized hw.stores hf.sizes⟩

/-- An action that keeps the bound from a sound state, whatever its outcome. -/
def KeepsFit (config : Config) (act : VfsM α) : Prop :=
  ∀ w, Sound config w → OffsetsFit w → OffsetsFit (act.run w).2

theorem Confined.keepsFit {act : VfsM α} (h : Confined act) : KeepsFit config act :=
  fun w hw hf => (h w).offsetsFit hw hf

theorem KeepsFit.bind {β : Type} {x : VfsM α} {f : α → VfsM β} (hk : Keeps config x)
    (hx : KeepsFit config x) (hf : ∀ a, KeepsFit config (f a)) : KeepsFit config (x >>= f) := by
  intro w hw hfit
  rw [run_bind]
  have h1 := hx w hw hfit
  have h2 := hk w hw
  rcases hrun : x.run w with ⟨_ | a, w1⟩ <;> rw [hrun] at h1 h2
  · exact h1
  · exact hf a w1 h2 h1

/-- A step whose every answer from a state with the bound satisfies `P`, then an action that
keeps the bound whenever its argument satisfies `P`. -/
theorem KeepsFit.bind_of {β : Type} {x : VfsM α} {f : α → VfsM β} (P : α → Prop)
    (hk : Keeps config x) (hx : KeepsFit config x)
    (hp : ∀ w a w', Sound config w → OffsetsFit w → x.run w = (.ok a, w') → P a)
    (hf : ∀ a, P a → KeepsFit config (f a)) : KeepsFit config (x >>= f) := by
  intro w hw hfit
  rw [run_bind]
  have h1 := hx w hw hfit
  have h2 := hk w hw
  rcases hrun : x.run w with ⟨_ | a, w1⟩ <;> rw [hrun] at h1 h2
  · exact h1
  · exact hf a (hp w a w1 hw hfit hrun) w1 h2 h1

/-- A step that changes only what the backends own, then an action that keeps the bound. -/
theorem KeepsFit.confined_bind {β : Type} {x : VfsM α} {f : α → VfsM β} (hx : Confined x)
    (hf : ∀ a, KeepsFit config (f a)) : KeepsFit config (x >>= f) :=
  KeepsFit.bind hx.keeps hx.keepsFit hf

theorem KeepsFit.ite {c : Prop} [Decidable c] {a b : VfsM α} (ha : KeepsFit config a)
    (hb : KeepsFit config b) : KeepsFit config (if c then a else b) := by
  split
  · exact ha
  · exact hb

theorem keepsFit_ignore {act : VfsM α} (h : KeepsFit config act) : KeepsFit config (ignore act) :=
  fun w hw hf => by rw [run_ignore]; exact h w hw hf

/-! ## Each call keeps the bound -/

theorem keepsFit_notifyOpen (n : Node Handle) (flags : OpenFlags) :
    KeepsFit config (ExceptT.lift (n.notifyOpen Handle.inode flags) : VfsM Unit) :=
  fun w _ hf => by rw [run_lift, notifyOpen_samples]; exact hf.frame rfl rfl

theorem keepsFit_notifyClose (n : Node Handle) :
    KeepsFit config (ExceptT.lift (n.notifyClose Handle.inode) : VfsM Unit) :=
  fun w _ hf => by rw [run_lift, notifyClose_samples]; exact hf.frame rfl rfl

theorem keepsFit_register (name : String) (b : Backend) : KeepsFit config (register name b) := by
  intro w _ hf
  obtain ⟨journal, hrun⟩ := run_register name b w
  rw [hrun]
  split <;> exact hf.frame rfl rfl

theorem keepsFit_addMemory (budget : Nat) : KeepsFit config (addMemory budget) := by
  intro w _ hf
  unfold addMemory
  rw [run_bind_ok (run_get w)]
  dsimp only
  obtain ⟨journal, hreg⟩ := run_register memoryName (.memory w.stores.size) w
  by_cases hfull : w.registry.full = true
  · rw [if_pos hfull] at hreg
    rw [run_bind_error hreg]
    exact hf.frame rfl rfl
  rw [if_neg hfull] at hreg
  rw [run_bind_ok hreg, run_bind_ok (run_modify _ _)]
  -- the new store is empty, and the others are as they were
  refine ⟨hf.cursors, fun i s hs => ?_⟩
  simp only [run_pure, Array.getElem?_push] at hs
  split at hs
  · cases hs
    exact Store.sized_empty _ budget
  · exact hf.sizes i s hs

theorem keepsFit_mount (device path fsType : String) :
    KeepsFit config (mount device path fsType) := by
  intro w _ hf
  -- every way a mount ends writes the mounted root and notes at most
  cases hb : w.registry.lookup fsType with
  | none =>
    obtain ⟨journal, hrun⟩ : ∃ journal, (mount device path fsType).run w =
        (.error .notFound, { w with journal }) := mount_of_lookup_none hb
    rw [hrun]
    exact hf.frame rfl rfl
  | some b =>
    by_cases hpath : path = "/"
    · subst hpath
      rcases hr : (b.mountRoot device).run w with ⟨_ | r, w1⟩
      · obtain ⟨journal, hrun⟩ := mount_of_root_error hb hr
        rw [hrun]
        exact hf.frame rfl rfl
      · cases hd : r.isDir
        · obtain ⟨journal, hrun⟩ := mount_of_not_dir hb hr hd
          rw [hrun]
          exact hf.frame rfl rfl
        · obtain ⟨journal, hrun⟩ := mount_ok hb hr hd
          rw [hrun]
          exact hf.frame rfl rfl
    · obtain ⟨journal, hrun⟩ : ∃ journal, (mount device path fsType).run w =
          (.error .unsupportedOperation, { w with journal }) := mount_of_path hb hpath
      rw [hrun]
      exact hf.frame rfl rfl

theorem keepsFit_umount (path : String) : KeepsFit config (umount path) := by
  intro w _ hf
  by_cases hpath : path = "/"
  · subst hpath
    cases hm : w.mounted with
    | none =>
      rw [umount_of_none hm]
      exact hf
    | some mp =>
      obtain ⟨journal, hrun⟩ := umount_ok hm
      rw [hrun]
      exact hf.frame rfl rfl
  · rw [umount_of_path hpath w]
    exact hf

theorem keepsFit_openFile (path : String) (flags : OpenFlags) :
    KeepsFit config (openFile path flags) := by
  unfold openFile
  dsimp only
  simp only [throw_bind]
  refine KeepsFit.ite (inert_throw _).confined.keepsFit
    (KeepsFit.confined_bind inert_get.confined fun w0 => ?_)
  refine KeepsFit.ite ((inert_note _ _ _).bind fun _ => inert_throw _).confined.keepsFit ?_
  refine KeepsFit.confined_bind inert_root.confined fun r =>
    KeepsFit.confined_bind (confined_resolve r path flags) fun n => ?_
  refine KeepsFit.ite (KeepsFit.confined_bind (truncate_changes n 0).1 fun _ => ?_) ?_
  all_goals
    intro w hw hf
    rw [run_bind_ok (run_get w), run_bind, run_ofExcept]
    rcases halloc : w.files.alloc ⟨n, 0, flags⟩ with e | ⟨fd, files⟩
    · exact hf
    · -- the new file starts at 0, and the node's hook moves the sample counters at most
      obtain ⟨-, -, -, hget⟩ := FdTable.alloc_eq_ok hw.files halloc
      have hfit : OffsetsFit { w with files } := by
        refine ⟨fun k g hk => ?_, hf.sizes⟩
        rw [hget] at hk
        split at hk
        · cases hk
          exact Nat.zero_le _
        · exact hf.cursors k g hk
      dsimp only
      rw [run_bind, run_modify]
      exact (KeepsFit.bind (keeps_notifyOpen n flags) (keepsFit_notifyOpen n flags) fun _ =>
        KeepsFit.confined_bind (inert_note _ _ _).confined fun _ =>
          (inert_pure _).confined.keepsFit) _ (sound_files_of_alloc hw halloc) hfit

theorem keepsFit_close (fd : Nat) : KeepsFit config (close fd) := by
  intro w hw hf
  unfold close
  rw [run_bind_ok (run_get w), run_bind, run_ofExcept]
  cases hfd : w.files.get? fd with
  | none =>
    rw [FdTable.close_eq_error hfd]
    exact hf
  | some a =>
    obtain ⟨t', hc, -, -, hget⟩ := FdTable.close_eq_ok hfd
    rw [hc]
    -- the descriptor is freed, the others keep their files
    have hfit : OffsetsFit { w with files := t' } := by
      refine ⟨fun k g hk => ?_, hf.sizes⟩
      rw [hget] at hk
      split at hk
      · cases hk
      · exact hf.cursors k g hk
    have hsound : Sound config { w with files := t' } := by
      obtain ⟨t'', hc', hlim, hsize, -⟩ := FdTable.close_eq_ok hfd
      rw [hc] at hc'
      cases hc'
      refine ⟨hw.stores, ?_, hlim.trans hw.fdLimit, hw.capacity⟩
      unfold FdTable.Bounded
      rw [hsize, hlim]
      exact hw.files
    dsimp only
    rw [run_bind, run_modify]
    exact (KeepsFit.bind (keeps_notifyClose a.node) (keepsFit_notifyClose a.node) fun _ =>
      (inert_note _ _ _).confined.keepsFit) _ hsound hfit

theorem keepsFit_setFile (fd : Nat) (f : OpenFile) (hf : f.cursor ≤ maxOffset) :
    KeepsFit config (setFile fd f) :=
  fun w _ hfit => by rw [run_setFile]; exact hfit.update hf

/-- The end of a read, a write and a seek: the cursor is moved, and the call answers. -/
theorem keepsFit_setFile_pure {β : Type} (fd : Nat) (f : OpenFile) (a : β)
    (hf : f.cursor ≤ maxOffset) : KeepsFit config (setFile fd f >>= fun _ => pure a) :=
  KeepsFit.bind (keeps_setFile _ _) (keepsFit_setFile fd f hf) fun _ =>
    (inert_pure _).confined.keepsFit

/-- A move from a position in range that ends inside a size in range, when it moves at all,
ends in range. -/
theorem add_le_maxOffset {off k size : Nat} (hoff : off ≤ maxOffset) (hsize : size ≤ maxOffset)
    (hend : 0 < k → off + k ≤ size) : off + k ≤ maxOffset := by
  by_cases hpos : 0 < k
  · exact Nat.le_trans (hend hpos) hsize
  · rw [Nat.eq_zero_of_not_pos hpos]
    exact hoff

/-- A descriptor's file, read from a state with the bound, has its cursor in range. -/
theorem fileAt_cursor {fd : Nat} {f : OpenFile} (hf : OffsetsFit w)
    (h : (fileAt fd).run w = (.ok f, w')) : f.cursor ≤ maxOffset := by
  have hg : w.files.get fd = .ok f := congrArg Prod.fst h
  exact hf.cursors fd f (FdTable.get_eq_ok_iff.mp hg)

theorem keepsFit_read (fd len : Nat) : KeepsFit config (read fd len) := by
  unfold read
  refine KeepsFit.bind_of (fun f => f.cursor ≤ maxOffset) (inert_fileAt fd).keeps
    (inert_fileAt fd).confined.keepsFit (fun _ _ _ _ hf h => fileAt_cursor hf h) fun f hcur => ?_
  dsimp only
  simp only [throw_bind]
  refine KeepsFit.ite (inert_throw _).confined.keepsFit ?_
  refine KeepsFit.bind_of (fun b => f.cursor + b.size ≤ maxOffset) (inert_read _ _ _).keeps
    (inert_read _ _ _).confined.keepsFit (fun w b w' _ hf h => ?_) fun b hb => ?_
  · -- a read ends inside the live size, which is in range
    exact add_le_maxOffset hcur (length_le_maxOffset hf.sizes f.node) (read_bounds h).2
  · exact keepsFit_setFile_pure _ _ _ hb

/-- The tail of a write: the bytes go at the cursor, which then moves past them; a write ends
inside the size it leaves, which is in range. -/
theorem keepsFit_write_at (fd : Nat) (f : OpenFile) (b : ByteArray) (hcur : f.cursor ≤ maxOffset) :
    KeepsFit config (f.node.write Handle.inode f.cursor b >>= fun k =>
      setFile fd { f with cursor := f.cursor + k } >>= fun _ => pure k) := by
  refine KeepsFit.bind_of (fun k => f.cursor + k ≤ maxOffset) (write_changes _ _ _).1.keeps
    (write_changes _ _ _).1.keepsFit (fun w k w' hw hf h => ?_) fun k hk => ?_
  · -- the size the write leaves is in range, since the state it leaves has the bound
    have hback := (write_changes f.node f.cursor b).1 w
    rw [h] at hback
    exact add_le_maxOffset hcur (length_le_maxOffset (hback.offsetsFit hw hf).sizes f.node)
      (write_bounds h).2
  · exact keepsFit_setFile_pure _ _ _ hk

theorem keepsFit_pure_write (fd : Nat) (f : OpenFile) (b : ByteArray)
    (hcur : f.cursor ≤ maxOffset) :
    KeepsFit config (pure f >>= fun f => f.node.write Handle.inode f.cursor b >>= fun k =>
      setFile fd { f with cursor := f.cursor + k } >>= fun _ => pure k) :=
  KeepsFit.bind_of (fun f' : OpenFile => f'.cursor ≤ maxOffset) (inert_pure _).keeps
    (inert_pure _).confined.keepsFit (fun _ _ _ _ _ h => by cases h; exact hcur)
    fun f' hcur' => keepsFit_write_at fd f' b hcur'

theorem keepsFit_write (fd : Nat) (b : ByteArray) : KeepsFit config (write fd b) := by
  unfold write
  refine KeepsFit.bind_of (fun f => f.cursor ≤ maxOffset) (inert_fileAt fd).keeps
    (inert_fileAt fd).confined.keepsFit (fun _ _ _ _ hf h => fileAt_cursor hf h) fun f hcur => ?_
  dsimp only
  simp only [throw_bind]
  refine KeepsFit.ite (inert_throw _).confined.keepsFit (KeepsFit.ite ?_ ?_)
  · -- an appending write first moves the cursor to the live size, which is in range
    refine KeepsFit.bind_of (fun size => size ≤ maxOffset) (inert_lift (length_noted f.node)).keeps
      (inert_lift (length_noted f.node)).confined.keepsFit (fun w _ _ _ hf h => ?_)
      fun size hsize => ?_
    · rw [run_lift] at h
      cases h
      exact length_le_maxOffset hf.sizes f.node
    refine KeepsFit.bind (keeps_setFile _ _) (keepsFit_setFile fd { f with cursor := size } hsize)
      fun _ => ?_
    exact keepsFit_pure_write fd _ b hsize
  · exact keepsFit_pure_write fd f b hcur

theorem keepsFit_seek (fd : Nat) (offset : Int) (origin : SeekOrigin) :
    KeepsFit config (seek fd offset origin) := by
  unfold seek
  refine KeepsFit.confined_bind (inert_fileAt fd).confined fun f => ?_
  dsimp only
  cases origin
  all_goals
    refine KeepsFit.bind ?_ ?_ fun base => ?_
    rotate_left 2
    · -- wherever the base lies, the cursor lands in range or the seek is refused
      split
      · rename_i p hp
        exact keepsFit_setFile_pure _ _ _ ((seekTarget_eq_some_iff base offset p).mp hp).2.2
      · exact (inert_throw _).confined.keepsFit
  · exact (inert_pure _).keeps
  · exact (inert_pure _).confined.keepsFit
  · exact (inert_pure _).keeps
  · exact (inert_pure _).confined.keepsFit
  · exact (inert_lift (length_noted f.node)).keeps
  · exact (inert_lift (length_noted f.node)).confined.keepsFit

theorem keepsFit_takeAll : KeepsFit config takeAll := by
  intro w _ hf
  unfold takeAll
  rw [run_bind_ok (run_get w)]
  dsimp only
  rw [run_bind_ok (run_modify _ w), run_pure]
  exact ⟨fun k g hk => by simp at hk, hf.sizes⟩

/-- Every call keeps the bound. Only the calls that move a cursor or open a descriptor need an
argument of their own; every other call changes at most what the backends own. -/
theorem keepsFit_act (c : Call) : KeepsFit config c.act := by
  cases c with
  | register name b => exact keepsFit_register name b
  | addMemory budget => exact keepsFit_ignore (keepsFit_addMemory budget)
  | mount device path fsType => exact keepsFit_mount device path fsType
  | umount path => exact keepsFit_umount path
  | openFile path flags => exact keepsFit_ignore (keepsFit_openFile path flags)
  | close fd => exact keepsFit_close fd
  | read fd len => exact keepsFit_ignore (keepsFit_read fd len)
  | write fd b => exact keepsFit_ignore (keepsFit_write fd b)
  | seek fd offset origin => exact keepsFit_ignore (keepsFit_seek fd offset origin)
  | takeAll => exact keepsFit_ignore keepsFit_takeAll
  | lookup path => exact keepsFit_ignore (inert_lookup path).confined.keepsFit
  | readdir path => exact keepsFit_ignore (inert_readdir path).confined.keepsFit
  | mkdir path => exact keepsFit_ignore (mkdir_changes path).1.keepsFit
  | unlink path => exact (unlink_call_changes path).1.keepsFit
  | rmdir path => exact (rmdir_call_changes path).1.keepsFit
  | resolvePath path flags =>
    exact keepsFit_ignore (inert_root.confined.bind fun r => confined_resolve r path flags).keepsFit
  | nodeRead path offset len =>
    exact keepsFit_ignore
      ((inert_lookup path).bind fun n => inert_read n offset len).confined.keepsFit
  | nodeWrite path offset b =>
    exact keepsFit_ignore (nodeAt_changes path fun n => write_changes n offset b).1.keepsFit
  | nodeEntry path i =>
    exact keepsFit_ignore ((inert_lookup path).bind fun n => inert_entry n i).confined.keepsFit
  | nodeFind path name =>
    exact keepsFit_ignore ((inert_lookup path).bind fun n => inert_find n name).confined.keepsFit
  | nodeCreate path name kind =>
    exact keepsFit_ignore (nodeAt_changes path fun n => create_changes n name kind).1.keepsFit
  | nodeUnlink path name => exact (nodeAt_changes path fun n => unlink_changes n name).1.keepsFit
  | nodeRmdir path name => exact (nodeAt_changes path fun n => rmdir_changes n name).1.keepsFit
  | nodeTruncate path size =>
    exact (nodeAt_changes path fun n => truncate_changes n size).1.keepsFit
  | fdNodeRead fd offset len =>
    exact keepsFit_ignore
      ((inert_fileAt fd).bind fun f => inert_read f.node offset len).confined.keepsFit
  | fdNodeTruncate fd size =>
    exact (fdNodeAt_changes fd fun n => truncate_changes n size).1.keepsFit

/-- Every reachable state has its cursors and sizes within the signed word. -/
theorem Reachable.offsetsFit (h : Reachable config w) : OffsetsFit w := by
  -- the bound is carried together with soundness, which the calls that grow a store need
  induction h with
  | fresh => exact offsetsFit_fresh config
  | call c hw ih => exact keepsFit_act c _ hw.sound ih


/-! ## Exact cursor arithmetic -/

/-- The position a seek adds its offset to: the start, the cursor, or the live size. -/
def seekBase (w : Vfs) (f : OpenFile) : SeekOrigin → Nat
  | .start => 0
  | .cursor => f.cursor
  | .finish => (f.node.length Handle.inode w).1

/-- From a base in range, a seek lands exactly on base plus offset when that is in range. -/
theorem seekTarget_of_le {base : Nat} (h : base ≤ maxOffset) (offset : Int) :
    seekTarget base offset =
      if 0 ≤ (base : Int) + offset ∧ (base : Int) + offset ≤ maxOffset then
        some ((base : Int) + offset).toNat
      else none := by
  unfold seekTarget
  by_cases hr : 0 ≤ (base : Int) + offset ∧ (base : Int) + offset ≤ maxOffset
  · rw [if_neg (by omega), if_pos hr]
  · rw [if_pos (by omega), if_neg hr]

/-- In a state with the bound, a seek on an open descriptor adds the offset to its base over
the integers: it lands there when the sum is in range, and otherwise is refused as an invalid
argument, changing nothing. -/
theorem run_seek (hfit : OffsetsFit w) {fd : Nat} {f : OpenFile} (hf : w.files.get? fd = some f)
    (offset : Int) (origin : SeekOrigin) :
    (seek fd offset origin).run w =
      let p := (seekBase w f origin : Int) + offset
      if 0 ≤ p ∧ p ≤ maxOffset then
        (.ok p.toNat, { w with files := w.files.update fd { f with cursor := p.toNat } })
      else (.error .invalidArgument, w) := by
  have hbase : seekBase w f origin ≤ maxOffset := by
    cases origin with
    | start => exact Nat.zero_le _
    | cursor => exact hfit.cursors fd f hf
    | finish => exact length_le_maxOffset hfit.sizes f.node
  unfold seek
  rw [run_bind, run_fileAt (FdTable.get_eq_ok_iff.mpr hf)]
  dsimp only
  -- reading the base changes nothing, whichever it is
  cases origin
  all_goals
    simp only [seekBase] at hbase ⊢
    rw [run_bind]
    simp only [run_pure, run_lift, length_state]
    rw [seekTarget_of_le hbase]
    split_ifs with hr
    · simp only [hr, and_self, if_true]
      rfl
    · simp only [hr, if_false]
      rfl


/-- Reading an inode's metadata sees only the stores, not the descriptor table. -/
theorem stat_files (h : Handle) (w : Vfs) (files : FdTable OpenFile) :
    ((Handle.inode h).stat.run { w with files }).1 = ((Handle.inode h).stat.run w).1 := by
  cases h with
  | memory i slot ino k =>
    show ((query i (·.stat slot ino)).run _).1 = ((query i (·.stat slot ino)).run w).1
    cases hs : w.stores[i]? with
    | none => simp [query, storeAt, run_bind, hs]
    | some s =>
      have hs' : ({ w with files } : Vfs).stores[i]? = some s := hs
      cases hf : s.stat slot ino with
      | ok m => rw [run_query_ok hs hf, run_query_ok hs' hf]
      | error e =>
        rw [run_query_error hs hf, run_query_error hs' hf, Store.stat_eq_error hf]
        rfl
  | sample n => rfl
  | plainFile => rfl

/-- A node's live size does not depend on the descriptor table. -/
theorem length_files (n : Node Handle) (w : Vfs) (files : FdTable OpenFile) :
    (n.length Handle.inode { w with files }).1 = (n.length Handle.inode w).1 := by
  have h := stat_files n.inode w files
  unfold Node.length
  simp only [bind, StateT.bind]
  rcases h1 : (Handle.inode n.inode).stat.run { w with files } with ⟨r, w1⟩
  rcases h2 : (Handle.inode n.inode).stat.run w with ⟨r', w2⟩
  rw [h1, h2] at h
  cases h
  cases r <;> rfl

/-- A successful read through an open descriptor is its node's read at the cursor, followed by
the move of the cursor past what it read. -/
theorem run_read_eq_ok {fd len : Nat} {f : OpenFile} {b : ByteArray}
    (hf : w.files.get? fd = some f) (h : (read fd len).run w = (.ok b, w')) :
    ∃ w1, (f.node.read Handle.inode f.cursor len).run w = (.ok b, w1) ∧
      w' = { w1 with files := w1.files.update fd { f with cursor := f.cursor + b.size } } := by
  unfold read at h
  rw [run_bind, run_fileAt (FdTable.get_eq_ok_iff.mpr hf)] at h
  dsimp only at h
  cases hr : f.flags.readable
  · simp only [hr, Bool.not_false, if_true, throw_bind, run_throw] at h
    cases h
  · simp only [hr, Bool.not_true, Bool.false_eq_true, if_false] at h
    rw [run_bind] at h
    rcases hrd : (f.node.read Handle.inode f.cursor len).run w with ⟨_ | b', w1⟩ <;>
      rw [hrd] at h
    · cases h
    · simp only [run_bind, run_setFile, run_pure] at h
      cases h
      exact ⟨w1, rfl, rfl⟩


/-- Where a write through a descriptor starts: the live size for an appending descriptor, the
cursor otherwise. -/
def writeBase (w : Vfs) (f : OpenFile) : Nat :=
  if f.flags.appends then (f.node.length Handle.inode w).1 else f.cursor

/-- The tail of a successful write: the node's write at the cursor, then the move of the cursor
past the count it answers, in a table the write did not touch. -/
theorem run_write_at_eq_ok {fd : Nat} {f : OpenFile} {b : ByteArray} {k : Nat}
    (h : (f.node.write Handle.inode f.cursor b >>= fun k =>
      setFile fd { f with cursor := f.cursor + k } >>= fun _ => pure k).run w = (.ok k, w')) :
    ∃ w2, (f.node.write Handle.inode f.cursor b).run w = (.ok k, w2) ∧
      w' = { w2 with files := w.files.update fd { f with cursor := f.cursor + k } } := by
  rw [run_bind] at h
  rcases hrun : (f.node.write Handle.inode f.cursor b).run w with ⟨_ | k', w2⟩ <;>
    rw [hrun] at h
  · cases h
  · simp only [run_bind, run_setFile, run_pure] at h
    cases h
    have hfiles := (write_changes f.node f.cursor b).1 w
    rw [hrun] at hfiles
    exact ⟨w2, rfl, by rw [hfiles.files_eq]⟩

/-- A successful write through an open descriptor is its node's write at the base, from a state
that differs only in the descriptor table, followed by the move of the cursor past the count it
answers. -/
theorem run_write_eq_ok {fd : Nat} {f : OpenFile} {b : ByteArray} {k : Nat}
    (hf : w.files.get? fd = some f) (h : (write fd b).run w = (.ok k, w')) :
    ∃ files w2, (f.node.write Handle.inode (writeBase w f) b).run { w with files } = (.ok k, w2) ∧
      w' = { w2 with files := w.files.update fd { f with cursor := writeBase w f + k } } := by
  unfold write at h
  rw [run_bind, run_fileAt (FdTable.get_eq_ok_iff.mpr hf)] at h
  dsimp only at h
  cases hwr : f.flags.writable
  · simp only [hwr, Bool.not_false, if_true, throw_bind, run_throw] at h
    cases h
  simp only [hwr, Bool.not_true, Bool.false_eq_true, if_false] at h
  cases happ : f.flags.appends
  · -- the write starts at the cursor
    simp only [happ, Bool.false_eq_true, if_false] at h
    rw [run_bind, run_pure] at h
    obtain ⟨w2, hrun, rfl⟩ := run_write_at_eq_ok h
    have hbase : writeBase w f = f.cursor := by simp [writeBase, happ]
    exact ⟨w.files, w2, by rw [hbase]; exact hrun, by rw [hbase]⟩
  · -- the write starts at the live size, which the table records first
    simp only [happ, if_true] at h
    rw [run_bind, run_lift, length_state] at h
    dsimp only at h
    rw [run_bind, run_setFile] at h
    dsimp only at h
    rw [run_bind, run_pure] at h
    obtain ⟨w2, hrun, rfl⟩ := run_write_at_eq_ok h
    have hbase : writeBase w f = (f.node.length Handle.inode w).1 := by simp [writeBase, happ]
    refine ⟨_, w2, by rw [hbase]; exact hrun, ?_⟩
    rw [hbase, FdTable.update_update]

/-- The state a call leaves is reachable, whatever the call answered. -/
theorem Reachable.after (hw : Reachable config w) (c : Call) {r : Except FsError Unit}
    (h : c.act.run w = (r, w')) : Reachable config w' := by
  have := Reachable.call c hw
  rwa [h] at this

/-- Cursor arithmetic is exact in every reachable state. Every open descriptor's cursor and every
node's live size is at most the largest signed word. A seek on an open descriptor lands on base
plus offset, computed over the integers, exactly when that lies in range, and is refused as an
invalid argument, changing nothing, otherwise. A read moves the cursor past exactly the bytes it
answers and ends inside the live size; a write moves it from where it starts past exactly the
count it answers and ends inside the size it leaves. -/
theorem cursor_arithmetic_is_exact (hw : Reachable config w) :
    (∀ fd f, w.files.get? fd = some f → f.cursor ≤ maxOffset) ∧
    (∀ n : Node Handle, (n.length Handle.inode w).1 ≤ maxOffset) ∧
    (∀ fd f offset origin, w.files.get? fd = some f →
      (seek fd offset origin).run w =
        let p := (seekBase w f origin : Int) + offset
        if 0 ≤ p ∧ p ≤ maxOffset then
          (.ok p.toNat, { w with files := w.files.update fd { f with cursor := p.toNat } })
        else (.error .invalidArgument, w)) ∧
    (∀ fd len f b w', w.files.get? fd = some f → (read fd len).run w = (.ok b, w') →
      w'.files = w.files.update fd { f with cursor := f.cursor + b.size } ∧
      f.cursor + b.size ≤ maxOffset ∧
      (0 < b.size → f.cursor + b.size ≤ (f.node.length Handle.inode w).1)) ∧
    (∀ fd b f k w', w.files.get? fd = some f → (write fd b).run w = (.ok k, w') →
      w'.files = w.files.update fd { f with cursor := writeBase w f + k } ∧
      writeBase w f + k ≤ maxOffset ∧
      (0 < k → writeBase w f + k ≤ (f.node.length Handle.inode w').1)) := by
  have hfit := hw.offsetsFit
  refine ⟨hfit.cursors, length_le_maxOffset hfit.sizes,
    fun fd f offset origin hf => run_seek hfit hf offset origin, ?_, ?_⟩
  · intro fd len f b w' hf h
    obtain ⟨w1, hrd, hw'⟩ := run_read_eq_ok hf h
    have hfiles : w1.files = w.files := by
      have hnoted := inert_read f.node f.cursor len w
      rw [hrd] at hnoted
      exact hnoted.backed.files_eq
    have hfiles' : w'.files = w.files.update fd { f with cursor := f.cursor + b.size } := by
      rw [hw', hfiles]
    -- the state the read leaves is reachable, so the moved cursor is in range there
    have hnext := hw.after (.read fd len) (by rw [Call.act, run_ignore, h])
    obtain ⟨-, hend⟩ := read_bounds hrd
    exact ⟨hfiles', hnext.offsetsFit.cursors fd { f with cursor := f.cursor + b.size }
      (by simp [hfiles', hf]), hend⟩
  · intro fd b f k w' hf h
    obtain ⟨files, w2, hwr, hw'⟩ := run_write_eq_ok hf h
    have hfiles' : w'.files = w.files.update fd { f with cursor := writeBase w f + k } := by
      rw [hw']
    have hnext := hw.after (.write fd b) (by rw [Call.act, run_ignore, h])
    obtain ⟨-, hend⟩ := write_bounds hwr
    refine ⟨hfiles', hnext.offsetsFit.cursors fd { f with cursor := writeBase w f + k }
      (by simp [hfiles', hf]), fun hpos => ?_⟩
    rw [hw', length_files]
    exact hend hpos

/-- In a fresh file system the size of a node of the first memory store is in range. -/
theorem fresh_memory_size_fits :
    (Node.length Handle.inode (⟨"file", 1, .file, 0, 0, 0, .memory 0 0 1 .file⟩ : Node Handle)
      (fresh {})).1 ≤ maxOffset :=
  (cursor_arithmetic_is_exact (Reachable.fresh : Reachable {} (fresh {}))).2.1 _

end KernelFs.Vfs
