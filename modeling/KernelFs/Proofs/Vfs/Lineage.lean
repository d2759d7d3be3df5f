import KernelFs.Proofs.Kernel.Balance
import KernelFs.Proofs.Vfs.Stale

/-!
# The stores behind every reachable state

A memory store enters the file system empty, when a memory backend is added (`Vfs.addMemory`:
`MemFs::new`, src/crates/fs/src/memfs/memfs.rs:27-32, registered as the basedos boot does in
src/basedos/src/fs/mod.rs:19-25), and from then on changes only by the operations of
src/crates/fs/src/memfs/inode.rs that its inodes' actions run. No call removes a store or moves one
to another index. So every store of a reachable state is what a run of store operations builds from
a fresh store (`Reachable.storesReachable`), and the store-level theorems about such runs hold of
every store the file system ever holds.

`Descends w w'` says this between two states: every store of `w` is still at its index in `w'`,
after store operations, and every store `w'` adds is a fresh store after store operations. It
is a kind of change (`Change.descends`): backend actions make one, and two make one. Every call
stays within it (`descends_act`), because each call is one of a few shapes, said once for any
kind of change (`within_act`): it acts through the tree, replaces the descriptor table, the
registry or the mounted root, or adds a fresh store.

Results:
* `within_act`: every call stays within a kind of change that allows a new descriptor table,
  registry or mounted root and a fresh store.
* `Reachable.descends`, `Reachable.storesReachable`: every store of a reachable state descends
  from a fresh store.
* `descends_runs`, `Descends.retired`: along any later calls every store keeps its index, and
  an inode number it retired stays retired.
* `stale_views_touch_nothing`: inode numbers are never handed out twice, so a view whose inode
  was removed fails in every later store, whatever creations reuse its slot, and in every state
  later calls lead to.
-/

namespace KernelFs.Memory.Store

open Relation

/-- A store reachable by store operations stays so along further operations. -/
theorem Reachable.later {s t : Store} (h : s.Reachable) (hst : ReflTransGen Step s t) :
    t.Reachable := by
  induction hst with
  | refl => exact h
  | tail _ hstep ih => exact .step ih hstep

end KernelFs.Memory.Store

namespace KernelFs.Vfs

open Memory Backend Relation

variable {α : Type} {config : Config} {u v x w w' : Vfs}

/-! ## Descent of stores -/

/-- `w'` keeps every store of `w` at its index, after store operations, and every store it adds
is a fresh store after store operations. -/
structure Descends (w w' : Vfs) : Prop where
  size : w.stores.size ≤ w'.stores.size
  steps : ∀ (i : Nat) (t : Store), w'.stores[i]? = some t →
    (∃ s, w.stores[i]? = some s ∧ ReflTransGen Store.Step s t) ∨
    (w.stores.size ≤ i ∧ ∃ heap budget, ReflTransGen Store.Step (Store.empty heap budget) t)

theorem Descends.of_stores (h : w'.stores = w.stores) : Descends w w' :=
  ⟨Nat.le_of_eq (congrArg Array.size h.symm), fun _ t ht => .inl ⟨t, h ▸ ht, .refl⟩⟩

theorem Descends.trans (h₁ : Descends u v) (h₂ : Descends v x) : Descends u x := by
  refine ⟨Nat.le_trans h₁.size h₂.size, fun i t ht => ?_⟩
  rcases h₂.steps i t ht with ⟨s', hs', hst⟩ | ⟨hi, heap, budget, hst⟩
  · -- the store of the middle state came from the first state or was added fresh
    rcases h₁.steps i s' hs' with ⟨s, hs, hss'⟩ | ⟨hi, heap, budget, hss'⟩
    · exact .inl ⟨s, hs, hss'.trans hst⟩
    · exact .inr ⟨hi, heap, budget, hss'.trans hst⟩
  · exact .inr ⟨Nat.le_trans h₁.size hi, heap, budget, hst⟩

theorem Backed.descends (h : Backed w w') : Descends w w' :=
  ⟨Nat.le_of_eq h.size.symm, fun i t ht => .inl (h.steps i t ht)⟩

/-- Adding a fresh store keeps every other one at its index. -/
theorem descends_push (w : Vfs) (heap : Allocator) (budget : Nat) :
    Descends w { w with stores := w.stores.push (Store.empty heap budget) } := by
  refine ⟨by simp, fun i t ht => ?_⟩
  simp only [Array.getElem?_push] at ht
  split at ht
  · rename_i hi
    cases ht
    exact .inr ⟨Nat.le_of_eq hi.symm, heap, budget, .refl⟩
  · exact .inl ⟨t, ht, .refl⟩

/-- Keeps every store at its index after store operations, and adds only fresh stores. -/
def Change.descends : Change where
  holds := Descends
  trans h₁ h₂ := h₁.trans h₂
  backed h := h.descends
  cleared h := ⟨h.size, h.steps⟩

/-! ## What a call can do -/

section Calls

variable {c : Change}

theorem within_ignore {act : VfsM α} (h : Within c act) : Within c (ignore act) :=
  fun w => by rw [run_ignore]; exact h w

theorem within_setFile (hfiles : ∀ w files, c.holds w { w with files }) (fd : Nat) (f : OpenFile) :
    Within c (setFile fd f) :=
  fun w => by rw [run_setFile]; exact hfiles w _

theorem within_seek (hfiles : ∀ w files, c.holds w { w with files }) (fd : Nat) (offset : Int)
    (origin : SeekOrigin) : Within c (seek fd offset origin) := by
  unfold seek
  refine (inert_fileAt fd).within.bind fun f => ?_
  dsimp only
  cases origin
  all_goals
    refine Within.bind ?_ fun base => ?_
    rotate_left
    · split
      · exact (within_setFile hfiles _ _).bind fun _ => (inert_pure _).within
      · exact (inert_throw _).within
  · exact (inert_pure _).within
  · exact (inert_pure _).within
  · exact (inert_lift (length_noted f.node)).within

theorem within_takeAll (hfiles : ∀ w files, c.holds w { w with files }) : Within c takeAll := by
  unfold takeAll
  refine inert_get.within.bind fun w0 => ?_
  dsimp only
  exact (within_modify fun w => hfiles w _).bind fun _ => (inert_pure _).within

/-- Every call stays within a kind of change that allows a new descriptor table, registry or
mounted root, and a fresh memory store over the configured heap. The calls that act through the
tree change only what the backends own; the others replace one of these parts, or add the store. -/
theorem within_act (hfiles : ∀ w files, c.holds w { w with files })
    (hreg : ∀ w registry, c.holds w { w with registry })
    (hmount : ∀ w mounted, c.holds w { w with mounted })
    (hpush : ∀ w budget, c.holds w { w with stores := w.stores.push (Store.empty w.config.heap budget) })
    (call : Call) : Within c call.act := by
  cases call with
  | register name b => exact within_register hreg name b
  | addMemory budget => exact within_ignore (within_addMemory hreg hpush budget)
  | mount device path fsType => exact within_mount hmount device path fsType
  | umount path => exact within_umount hmount path
  | openFile path flags => exact within_ignore (within_openFile path flags hfiles)
  | close fd => exact within_close fd hfiles
  | read fd len => exact within_ignore (within_read fd len (within_setFile hfiles fd))
  | write fd b => exact within_ignore (within_write fd b (within_setFile hfiles fd))
  | seek fd offset origin => exact within_ignore (within_seek hfiles fd offset origin)
  | takeAll => exact within_ignore (within_takeAll hfiles)
  | lookup path => exact within_ignore (inert_lookup path).within
  | readdir path => exact within_ignore (inert_readdir path).within
  | mkdir path => exact within_ignore (mkdir_changes path).1.within
  | unlink path => exact (unlink_call_changes path).1.within
  | rmdir path => exact (rmdir_call_changes path).1.within
  | resolvePath path flags =>
    exact within_ignore (inert_root.confined.bind fun r => confined_resolve r path flags).within
  | nodeRead path offset len =>
    exact within_ignore ((inert_lookup path).bind fun n => inert_read n offset len).within
  | nodeWrite path offset b =>
    exact within_ignore (nodeAt_changes path fun n => write_changes n offset b).1.within
  | nodeEntry path i => exact within_ignore ((inert_lookup path).bind fun n => inert_entry n i).within
  | nodeFind path name =>
    exact within_ignore ((inert_lookup path).bind fun n => inert_find n name).within
  | nodeCreate path name kind =>
    exact within_ignore (nodeAt_changes path fun n => create_changes n name kind).1.within
  | nodeUnlink path name => exact (nodeAt_changes path fun n => unlink_changes n name).1.within
  | nodeRmdir path name => exact (nodeAt_changes path fun n => rmdir_changes n name).1.within
  | nodeTruncate path size => exact (nodeAt_changes path fun n => truncate_changes n size).1.within
  | fdNodeRead fd offset len =>
    exact within_ignore ((inert_fileAt fd).bind fun f => inert_read f.node offset len).within
  | fdNodeTruncate fd size => exact (fdNodeAt_changes fd fun n => truncate_changes n size).1.within

end Calls

/-! ## Every store descends from a fresh one -/

theorem descends_act (call : Call) : Within .descends call.act :=
  -- a new table, registry or mounted root leaves the stores as they were
  within_act (fun w files => show Descends w { w with files } from .of_stores rfl)
    (fun w registry => show Descends w { w with registry } from .of_stores rfl)
    (fun w mounted => show Descends w { w with mounted } from .of_stores rfl)
    (fun w budget => descends_push w w.config.heap budget) call

/-- The state a sequence of calls leads to, whatever each call answered. -/
def Call.runs (cs : List Call) (w : Vfs) : Vfs := cs.foldl (fun w c => (c.act.run w).2) w

theorem descends_runs (cs : List Call) (w : Vfs) : Descends w (Call.runs cs w) := by
  -- the induction is on the calls, the first call's descent composed with the rest's
  induction cs generalizing w with
  | nil => exact .of_stores rfl
  | cons c cs ih => exact (descends_act c w).trans (ih _)

theorem Reachable.descends (h : Reachable config w) : Descends (Vfs.fresh config) w := by
  induction h with
  | fresh => exact .of_stores rfl
  | call c _ ih => exact ih.trans (descends_act c _)

/-- Every store of a reachable state is one a run of store operations builds from a fresh
store: the fresh file system holds none, and each later store was added fresh. -/
theorem Reachable.storesReachable (h : Reachable config w) {i : Nat} {s : Store}
    (hs : w.stores[i]? = some s) : s.Reachable := by
  rcases h.descends.steps i s hs with ⟨s0, hs0, -⟩ | ⟨-, heap, budget, hst⟩
  · simp [Vfs.fresh] at hs0
  · exact (Store.Reachable.empty heap budget).later hst

/-- A store keeps its index along later calls, and an inode number it retired stays retired. -/
theorem Descends.retired (h : Descends w w') {i n : Nat} {s : Store} (hs : w.stores[i]? = some s)
    (hv : s.Valid) (hn : s.Retired n) : ∃ t, w'.stores[i]? = some t ∧ t.Retired n := by
  have hi : i < w.stores.size := (Array.getElem?_eq_some_iff.mp hs).1
  obtain ⟨t, ht⟩ : ∃ t, w'.stores[i]? = some t :=
    ⟨_, Array.getElem?_eq_getElem (Nat.lt_of_lt_of_le hi h.size)⟩
  rcases h.steps i t ht with ⟨s', hs', hst⟩ | ⟨hle, -⟩
  · rw [hs] at hs'
    cases hs'
    exact ⟨t, ht, hn.later hv hst⟩
  · exact absurd hi (Nat.not_lt_of_le hle)

/-! ## Stale views over every later run -/

/-- No stale view touches a reused slot. Every creation takes a number past every number a live
record holds, and every operation keeps the numbers of the records it leaves live, so a number
once handed out is never handed out again. An unlink or rmdir retires the number it removed, and
a view seen earlier whose number no live slot holds any more is retired for good, whatever
creations later reuse its slot. Every action of such a view then fails and changes nothing, with
"not found" unless an overflowing write or a bad new name is refused first; its node has size
0, reads nothing and finds nothing, and a descriptor's write through it fails. Every store of
every reachable state of the file system is one a run of operations builds, and along any later
calls it keeps its index and every number it retired stays retired. -/
theorem stale_views_touch_nothing :
    (∀ s t : Store, s.Reachable → ∀ dir dirIno name kind c cino,
      s.create dir dirIno name kind = .ok (t, c, cino) →
        cino = s.nextIno ∧ t.nextIno = cino + 1 ∧ ∀ j r, s.slot j = some r → r.ino < cino) ∧
    (∀ s t : Store, s.Reachable → Relation.ReflTransGen Store.Step s t → Store.KeepsNumbers s t) ∧
    (∀ s t : Store, s.Reachable → ∀ d n name, s.unlink d n name = .ok t →
      ∃ c cino, s.lookup d n name = .ok (c, cino, .file) ∧ t.Retired cino) ∧
    (∀ s t : Store, s.Reachable → ∀ d n name, s.rmdir d n name = .ok t →
      ∃ c cino, s.lookup d n name = .ok (c, cino, .directory) ∧ t.Retired cino) ∧
    (∀ (s0 s : Store) (i : Nat) (r : Record), s0.Reachable → s0.slot i = some r →
      Relation.ReflTransGen Store.Step s0 s → (∀ j x, s.slot j = some x → x.ino ≠ r.ino) →
      s.Retired r.ino) ∧
    (∀ (s t : Store) (n : Nat), s.Reachable → s.Retired n → Relation.ReflTransGen Store.Step s t →
      t.Retired n) ∧
    (∀ (w : Vfs) (st : Nat) (s : Store) (i n : Nat) (k : NodeType),
      w.stores[st]? = some s → s.Retired n →
      ((memoryInode st i n k).stat).run w = (.error .notFound, w) ∧
      (∀ off len, ((memoryInode st i n k).readAt off len).run w = (.error .notFound, w)) ∧
      (∀ off b, ((memoryInode st i n k).writeAt off b).run w =
        (.error (if wordSize ≤ off + b.size then .noSpace else .notFound), w)) ∧
      (∀ p, ((memoryInode st i n k).entry p).run w = (.error .notFound, w)) ∧
      (∀ name, ((memoryInode st i n k).lookup name).run w = (.error .notFound, w)) ∧
      (∀ name kind, ((memoryInode st i n k).create name kind).run w =
        (.error (match Store.checkName name with
          | .error e => e.toFsError
          | .ok _ => .notFound), w)) ∧
      (∀ name, ((memoryInode st i n k).unlink name).run w = (.error .notFound, w)) ∧
      (∀ name, ((memoryInode st i n k).rmdir name).run w = (.error .notFound, w)) ∧
      (∀ size, ((memoryInode st i n k).truncate size).run w = (.error .notFound, w))) ∧
    (∀ (w : Vfs) (st : Nat) (s : Store) (i n : Nat) (k : NodeType) (nd : Node Handle),
      w.stores[st]? = some s → s.Retired n → nd.inode = .memory st i n k →
      nd.length Handle.inode w = (0, w) ∧
      (∀ off len, (nd.read Handle.inode off len).run w = (.ok .empty, w)) ∧
      (∀ name, (nd.find Handle.inode name).run w = (.ok none, w))) ∧
    (∀ (w : Vfs) (st : Nat) (s : Store) (i n fd : Nat) (f : OpenFile) (b : ByteArray),
      w.files.get fd = .ok f → f.flags.writable = true → w.stores[st]? = some s → s.Retired n →
      f.node.inode = .memory st i n .file → f.node.kind = .file →
      (write fd b).run w =
        (.error (if wordSize ≤ (if f.flags.appends then 0 else f.cursor) + b.size then .noSpace
          else .notFound),
          { w with files := if f.flags.appends then w.files.update fd { f with cursor := 0 }
            else w.files })) ∧
    (∀ (config : Config) (w : Vfs) (i : Nat) (s : Store), Reachable config w →
      w.stores[i]? = some s → s.Reachable) ∧
    (∀ (config : Config) (w : Vfs) (cs : List Call) (st : Nat) (s : Store) (n : Nat),
      Reachable config w → w.stores[st]? = some s → s.Retired n →
      ∃ t, (Call.runs cs w).stores[st]? = some t ∧ t.Retired n) := by
  refine ⟨?_, ?_, ?_, ?_, ?_, ?_, ?_, ?_, ?_, ?_, ?_⟩
  · intro s t hs dir dirIno name kind c cino h
    exact hs.valid.create_fresh h
  · intro s t hs h
    exact hs.valid.keepsNumbers_later h
  · intro s t hs d n name h
    exact hs.valid.retired_unlink h
  · intro s t hs d n name h
    exact hs.valid.retired_rmdir h
  · intro s0 s i r hs hr h hgone
    exact hs.valid.retired_of_gone hr h hgone
  · intro s t n hs hn h
    exact hn.later hs.valid h
  · intro w st s i n k hw hn
    exact memoryInode_retired hw hn k
  · intro w st s i n k nd hw hn hnd
    exact ⟨run_length_retired hw hn hnd, run_read_retired hw hn hnd, run_find_retired hw hn hnd⟩
  · intro w st s i n fd f b hf hwr hw hn hnd hk
    exact run_write_fd_retired hf hwr hw hn hnd hk b
  · intro config w i s hw hs
    exact hw.storesReachable hs
  · intro config w cs st s n hw hs hn
    exact (descends_runs cs w).retired hs (hw.storesReachable hs).valid hn

/-- A file is unlinked and a new file takes its slot: the old view stays dead. -/
theorem stale_view_after_slot_reuse :
    ∃ s0 s t : Store, (Store.empty .host 0).create Store.rootIndex 1 "a" .file = .ok (s0, 1, 2) ∧
      s0.unlink Store.rootIndex 1 "a" = .ok s ∧
      s.create Store.rootIndex 1 "b" .file = .ok (t, 1, 3) ∧ t.Retired 2 ∧
      ((memoryInode 0 1 2 .file).stat).run { Vfs.fresh {} with stores := #[t] } =
        (.error .notFound, { Vfs.fresh {} with stores := #[t] }) := by
  have ha : Store.checkName "a" = .ok () := by
    simp [Store.checkName, Path.fits, Path.nameLimit]
    decide
  have hb : Store.checkName "b" = .ok () := by
    simp [Store.checkName, Path.fits, Path.nameLimit]
    decide
  -- file "a" takes slot 1 and number 2; its unlink frees the slot, which "b" takes with number 3
  obtain ⟨s0, h1, hlook, s, h2, t, h3⟩ : ∃ s0,
      (Store.empty .host 0).create Store.rootIndex 1 "a" .file = .ok (s0, 1, 2) ∧
      s0.lookup Store.rootIndex 1 "a" = .ok (1, 2, .file) ∧
      ∃ s, s0.unlink Store.rootIndex 1 "a" = .ok s ∧
      ∃ t, s.create Store.rootIndex 1 "b" .file = .ok (t, 1, 3) :=
    ⟨_, by rw [Store.create, ha]; rfl, by rfl, _, by rfl, _, by rw [Store.create, hb]; rfl⟩
  have hs0 : s0.Reachable := .step (.empty .host 0) (.create h1)
  obtain ⟨c, cino, hlook', hret⟩ := stale_views_touch_nothing.2.2.1 s0 s hs0 _ _ _ h2
  rw [hlook] at hlook'
  cases hlook'
  have hret' : t.Retired 2 := stale_views_touch_nothing.2.2.2.2.2.1 s t 2
    (.step hs0 (.unlink h2)) hret (.single (.create h3))
  exact ⟨s0, s, t, h1, h2, h3, hret',
    (stale_views_touch_nothing.2.2.2.2.2.2.1 _ 0 t 1 2 .file rfl hret').1⟩

end KernelFs.Vfs
