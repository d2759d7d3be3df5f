import KernelFs.Proofs.Vfs.Walk
import KernelFs.Proofs.Vfs.Readdir
import KernelFs.Proofs.Vfs.Opening
import KernelFs.Proofs.Arena.Siblings

/-!
# Working under a mounted memory root

A memory backend mounted as the root (`MemFs::mount`, src/crates/fs/src/memfs/memfs.rs:61-69) serves
a fixed root node: inode 1 in slot 0 of its store, a directory. A child of the root is found by the
store's lookup, and its node is made from the record it finds; a missing last component of a path is
created there as an empty file. A file found this way can be opened, written, read and closed
through a descriptor, and the root can be listed, each with an exact outcome.

Writing at the start of a file the bytes it already starts with changes no store at all, and
no write changes the tree: it touches contents and counters only.

Results:
* `Store.writeAt_prefixed`: rewriting a file's first bytes with themselves is the identity.
* `Store.SameTree`, `Store.Valid.sameTree_writeAt`: a write keeps the tree, every live record
  with its number, name, parent and kind.
* `run_mountRoot_memory`, `mount_memory`: mounting a valid memory store gives `memoryRoot`.
* `run_resolve_leaf`, `resolve_leaf_ok`: resolving a path of one component under the root,
  from the store's lookup, and what a successful resolution found or created.
* `run_openFile_of_resolve`, `run_close_quiet`, `run_readdir_memoryRoot`: opening, closing and
  listing.
-/

namespace KernelFs.Memory

/-- Two contents with the same bytes are the same content. -/
theorem eq_of_bytes_eq {d d' : ByteArray} (h : bytes d = bytes d') : d = d' := by
  cases d
  cases d'
  simp only [ByteArray.mk.injEq]
  exact Array.toList_inj.mp h

/-- Placing at the start of a content the bytes it starts with gives it back. -/
theorem splice_of_prefixed {d b : ByteArray} (hp : bytes b <+: bytes d) : splice d 0 b = d := by
  obtain ⟨rest, hrest⟩ := hp
  apply eq_of_bytes_eq
  rw [bytes_splice, ← hrest, List.take_zero, List.nil_append, Nat.zero_add, ← length_bytes b,
    List.drop_left]

/-- A write at offset 0 leaves its bytes at the start of the content. -/
theorem prefix_overwrite_zero (cs b : List UInt8) : b <+: overwrite cs 0 b :=
  ⟨cs.drop b.length, by simp [overwrite]⟩

namespace Store

variable {s t : Store} {i ino : Nat} {r : Record} {d : ByteArray}

/-- Setting a file's content to the content it holds changes nothing. -/
theorem setData_self (hr : s.slot i = some r) (hb : r.body = .file d) : s.setData i d = s := by
  have hslots : s.slots.modify i (Option.map fun x => { x with body := .file d }) = s.slots := by
    apply Array.ext (by simp)
    intro j h1 h2
    rw [Array.getElem_modify]
    split
    · rename_i hij
      subst hij
      have hi : s.slots[i] = some r := by
        have := hr
        unfold slot at this
        rw [Array.getElem?_eq_getElem h2] at this
        simpa using this
      rw [hi, Option.map_some, ← hb]
    · rfl
  unfold setData modifySlot
  rw [hslots]

/-- Writing at the start of a file the bytes it starts with changes nothing and grows nothing. -/
theorem writeAt_prefixed {b : ByteArray} (hd : s.fileData i ino = .ok d) (hp : bytes b <+: bytes d)
    (hw : b.size < wordSize) : s.writeAt i ino 0 b = .ok (s, none) := by
  obtain ⟨r, hr, -, hb⟩ := (fileData_eq_ok_iff s i ino d).mp hd
  have hle : b.size ≤ d.size := by
    rw [← length_bytes, ← length_bytes]
    exact hp.length_le
  unfold writeAt
  simp only [Nat.zero_add, hd, bind, Except.bind, pure, Except.pure]
  rw [if_neg (by omega), if_neg (by omega)]
  simp only [splice_of_prefixed hp, setData_self hr hb]

/-! ## Writes keep the tree -/

/-- `t` has the listings and the live slots of `s`, each record with its number, name, parent and
kind: it differs from `s` in contents and counters at most. -/
structure SameTree (s t : Store) : Prop where
  kids : ∀ q, t.kids q = s.kids q
  live : ∀ j, t.slot j = none ↔ s.slot j = none
  keeps : Keeps s t

theorem SameTree.refl (s : Store) : SameTree s s :=
  ⟨fun _ => rfl, fun _ => Iff.rfl, fun _ x hx => ⟨x, hx, rfl, rfl, rfl, rfl⟩⟩

theorem SameTree.trans {u : Store} (h₁ : SameTree s t) (h₂ : SameTree t u) : SameTree s u where
  kids q := (h₂.kids q).trans (h₁.kids q)
  live j := (h₂.live j).trans (h₁.live j)
  keeps j x hx := by
    obtain ⟨y, hy, h1, h2, h3, h4⟩ := h₂.keeps j x hx
    obtain ⟨z, hz, h1', h2', h3', h4'⟩ := h₁.keeps j y hy
    exact ⟨z, hz, h1.trans h1', h2.trans h2', h3.trans h3', h4.trans h4'⟩

/-- A live record of `s` is still there in `t`, with its number, name, parent and kind. -/
theorem SameTree.slot_some (h : SameTree s t) {j : Nat} {x : Record} (hx : s.slot j = some x) :
    ∃ y, t.slot j = some y ∧ y.ino = x.ino ∧ y.name = x.name ∧ y.parent = x.parent ∧
      y.kind = x.kind := by
  obtain ⟨y, hy⟩ : ∃ y, t.slot j = some y := by
    cases hj : t.slot j with
    | none =>
      rw [(h.live j).mp hj] at hx
      cases hx
    | some y => exact ⟨y, rfl⟩
  obtain ⟨z, hz, h1, h2, h3, h4⟩ := h.keeps j y hy
  rw [hx] at hz
  cases hz
  exact ⟨y, hy, h1, h2, h3, h4⟩

/-- Replacing a file's content, whatever the bytes in use become, keeps the tree. -/
theorem Valid.sameTree_setData (hv : s.Valid) (hr : s.slot i = some r) (hb : r.body = .file d)
    (d' : ByteArray) (used : Nat) : SameTree s { s.setData i d' with used } where
  kids q := (kids_congr (t := { s.setData i d' with used }) (s := s.setData i d') rfl q).trans
    (kids_setData hr hb d' hv q)
  live j := slot_setData_eq_none d' j
  keeps _ _ hx := slot_setData_some hr hb d' hx

theorem Valid.sameTree_resize (hv : s.Valid) {n : Nat} {g : Option Growth}
    (h : s.resize i ino n = .ok (t, g)) : SameTree s t := by
  obtain ⟨d, hd, hcase⟩ := resize_eq_ok h
  obtain ⟨r, hr, -, hb⟩ := (fileData_eq_ok_iff s i ino d).mp hd
  rcases hcase with ⟨-, -, rfl⟩ | ⟨-, -, -, -, -, rfl⟩
  · exact hv.sameTree_setData hr hb _ _
  · exact hv.sameTree_setData hr hb _ _

/-- A write grows the file, if it must, and places its bytes: neither touches the tree. -/
theorem Valid.sameTree_writeAt (hv : s.Valid) {off : Nat} {b : ByteArray} {g : Option Growth}
    (h : s.writeAt i ino off b = .ok (t, g)) : SameTree s t := by
  obtain ⟨d, u, d1, -, hd1, -, -, rfl, hcase⟩ := reach_writeAt h
  obtain ⟨r, hr, -, hb⟩ := (fileData_eq_ok_iff u i ino d1).mp hd1
  have hu : SameTree s u ∧ u.Valid := by
    rcases hcase with ⟨-, hres⟩ | rfl
    · exact ⟨hv.sameTree_resize hres, hv.resize hres⟩
    · exact ⟨SameTree.refl _, hv⟩
  exact hu.1.trans (hu.2.sameTree_setData hr hb _ u.used)

/-! ## The root -/

theorem Valid.current_root (hv : s.Valid) : s.Current rootIndex 1 := by
  obtain ⟨r, hr, hino, -⟩ := hv.root
  exact ⟨r, hr, hino⟩

theorem Valid.isDir_root (hv : s.Valid) : s.IsDir rootIndex := by
  obtain ⟨r, hr, -, -, hk⟩ := hv.root
  exact (isDir_iff_kind s rootIndex).mpr ⟨r, hr, hk⟩

/-- A live record whose parent is the root is what the lookup of its name under the root
finds. -/
theorem Valid.lookup_root_of_slot (hv : s.Valid) {c : Nat} {x : Record} (hx : s.slot c = some x)
    (hp : x.parent = some rootIndex) : s.lookup rootIndex 1 x.name = .ok (c, x.ino, x.kind) :=
  (hv.lookup_eq_ok_iff hv.current_root hv.isDir_root x.name).mpr
    ⟨(hv.mem_kids_iff c).mpr ⟨x, hx, hp⟩, x, hx, rfl, rfl, rfl⟩

/-- Under the root of a valid store a name is found, as a live child of the root carrying it, or
is missing. -/
theorem Valid.lookup_root_cases (hv : s.Valid) (name : String) :
    (∃ c x, s.slot c = some x ∧ x.parent = some rootIndex ∧ x.name = name ∧
      s.lookup rootIndex 1 name = .ok (c, x.ino, x.kind)) ∨
    s.lookup rootIndex 1 name = .error .missing := by
  rcases locate_ok_or_missing hv.current_root hv.isDir_root name with ⟨c, hloc⟩ | hloc
  · obtain ⟨hc, hnamed⟩ := (hv.locate_eq_ok_iff hv.current_root hv.isDir_root name).mp hloc
    obtain ⟨x, hx⟩ := Option.ne_none_iff_exists'.mp (hv.live_of_mem_kids hc)
    obtain ⟨x', hx', hp⟩ := hv.parent_of_mem_kids hc
    rw [hx] at hx'
    cases hx'
    exact .inl ⟨c, x, hx, hp, by simpa [named, hx] using hnamed, lookup_of_locate hloc hx⟩
  · exact .inr (lookup_of_locate_error hloc)

end Store

end KernelFs.Memory

namespace KernelFs.Vfs

open Memory Backend

variable {w : Vfs} {i : Nat} {s : Store}

/-! ## Nodes of a memory store -/

/-- The node of the record `x` in slot `slot` of store `i`, made under `name`. -/
def memoryNode (i : Nat) (name : String) (slot : Nat) (x : Record) : Node Handle :=
  ⟨name, x.ino, x.kind, x.mode, 0, 0, .memory i slot x.ino x.kind⟩

/-- The root node of memory store `i`: inode 1 in slot 0, a directory. -/
def memoryRoot (i : Nat) : Node Handle :=
  ⟨"/", 1, .directory, 0o755, 0, 0, .memory i Store.rootIndex 1 .directory⟩

/-- Memory store `i` mounted as the root from `device`, under the memory backends' name. -/
def memoryMount (device : String) (i : Nat) : MountPoint :=
  ⟨device, "/", memoryName, .memory i, memoryRoot i⟩

theorem run_stat_memory (hs : w.stores[i]? = some s) {slot : Nat} {x : Record}
    (hx : s.slot slot = some x) (k : NodeType) :
    ((Handle.inode (.memory i slot x.ino k)).stat).run w = (.ok x.stat, w) :=
  run_query_ok hs (by simp [Store.stat, (Store.get_eq_ok_iff s slot x.ino x).mpr ⟨hx, rfl⟩])

/-- The view of a live record is made from the record's metadata. -/
theorem run_make_memory (hs : w.stores[i]? = some s) {name : String} (hfit : Path.fits name = true)
    {slot : Nat} {x : Record} (hx : s.slot slot = some x) :
    (Node.make Handle.inode name (.memory i slot x.ino x.kind)).run w =
      (.ok (memoryNode i name slot x), w) :=
  run_make_ok hfit (run_stat_memory hs hx x.kind)

/-- The root record of a valid store makes the root node. -/
theorem memoryNode_root (hv : s.Valid) {x : Record} (hx : s.slot Store.rootIndex = some x) :
    memoryNode i "/" Store.rootIndex x = memoryRoot i ∧ x.ino = 1 ∧ x.kind = .directory := by
  obtain ⟨r, hr, hino, -, hk⟩ := hv.root
  rw [hx] at hr
  cases hr
  cases hb : x.body with
  | file d => simp [Record.kind, hb] at hk
  | dir first =>
    refine ⟨?_, hino, hk⟩
    simp [memoryNode, memoryRoot, hino, hk, Record.mode, hb]

/-! ## Mounting -/

/-- Mounting a valid memory store gives its root node, writing a note. -/
theorem run_mountRoot_memory (hs : w.stores[i]? = some s) (hv : s.Valid) (device : String) :
    ∃ journal, ((Backend.memory i).mountRoot device).run w =
      (.ok (memoryRoot i), { w with journal }) := by
  obtain ⟨x, hx, -⟩ := hv.root
  obtain ⟨hnode, hino, hk⟩ := memoryNode_root (i := i) hv hx
  have hroot : s.rootIno = .ok 1 := by simp [Store.rootIno, hx, hino]
  -- the note changes only the journal, so the store is read as it was
  have hq : ∀ journal, (query i fun x => x.rootIno).run { w with journal } =
      (.ok 1, { w with journal }) := fun _ => run_query_ok hs hroot
  have hmake : ∀ journal, (Node.make Handle.inode "/" (.memory i Store.rootIndex 1 .directory)).run
      { w with journal } = (.ok (memoryRoot i), { w with journal }) := by
    intro journal
    rw [← hino, ← hk, run_make_memory (w := { w with journal }) hs
      (show Path.fits "/" = true by decide) hx, hnode]
  simp only [Backend.mountRoot, run_bind, run_liftM, run_note, hq, hmake]
  exact ⟨_, rfl⟩

/-- Mounting the memory backend registered under a name mounts the root of its store. -/
theorem mount_memory {fsType : String} (hreg : w.registry.lookup fsType = some (.memory i))
    (hs : w.stores[i]? = some s) (hv : s.Valid) (device : String) :
    ∃ journal, (mount device "/" fsType).run w =
      (.ok (),
        { w with mounted := some ⟨device, "/", fsType, .memory i, memoryRoot i⟩, journal }) := by
  obtain ⟨j, hroot⟩ := run_mountRoot_memory hs hv device
  exact mount_ok hreg hroot rfl

/-- A memory backend whose store is missing has no root to mount. -/
theorem run_mountRoot_memory_missing (hs : w.stores[i]? = none) (device : String) :
    ∃ journal, ((Backend.memory i).mountRoot device).run w =
      (.error .notFound, { w with journal }) := by
  simp only [Backend.mountRoot, query, storeAt, run_bind, run_liftM, run_note, run_get, hs]
  exact ⟨_, rfl⟩

/-- So mounting it fails, and only the notes change. -/
theorem mount_memory_missing {fsType : String} (hreg : w.registry.lookup fsType = some (.memory i))
    (hs : w.stores[i]? = none) (device : String) :
    ∃ journal, (mount device "/" fsType).run w = (.error .mountFailed, { w with journal }) := by
  obtain ⟨j, hroot⟩ := run_mountRoot_memory_missing hs device
  exact mount_of_root_error hreg hroot

/-! ## Finding and creating under the root -/

theorem memoryRoot_isDir : (memoryRoot i).isDir = true := rfl

theorem memoryRoot_supports (x : Capability) :
    (memoryRoot i).supports Handle.inode x = memoryDirCaps.has x :=
  supports_memory_dir rfl x

theorem run_lookupAt_memory (hs : w.stores[i]? = some s) {slot ino : Nat} {k : NodeType}
    {name : String} {c cino : Nat} {k' : NodeType} (hl : s.lookup slot ino name = .ok (c, cino, k')) :
    ((Handle.inode (.memory i slot ino k)).lookup name).run w = (.ok (.memory i c cino k'), w) := by
  show ((query i (·.lookup slot ino name) >>= fun r => pure (Handle.memory i r.1 r.2.1 r.2.2)).run
    w) = _
  rw [run_bind_ok (run_query_ok hs hl)]
  rfl

theorem run_lookupAt_missing (hs : w.stores[i]? = some s) {slot ino : Nat} {k : NodeType}
    {name : String} (hl : s.lookup slot ino name = .error .missing) :
    ((Handle.inode (.memory i slot ino k)).lookup name).run w = (.error .notFound, w) := by
  show ((query i (·.lookup slot ino name) >>= fun r => pure (Handle.memory i r.1 r.2.1 r.2.2)).run
    w) = _
  rw [run_bind_error (run_query_quiet hs hl rfl)]
  rfl

theorem memoryRoot_find_gate :
    (!(memoryRoot i).isDir || !(memoryRoot i).supports Handle.inode .find) = false := by
  rw [memoryRoot_supports]
  rfl

/-- Asking the root for a child it lists finds the child's node and changes nothing. -/
theorem run_find_memoryRoot (hs : w.stores[i]? = some s) {name : String}
    (hfit : Path.fits name = true) {c : Nat} {x : Record} (hx : s.slot c = some x)
    (hl : s.lookup Store.rootIndex 1 name = .ok (c, x.ino, x.kind)) :
    ((memoryRoot i).find Handle.inode name).run w = (.ok (some (memoryNode i name c x)), w) := by
  unfold Node.find
  rw [memoryRoot_find_gate, if_neg (by decide)]
  simp only [Node.attempt, run_bind, run_lift]
  rw [memoryRoot, run_lookupAt_memory hs hl]
  dsimp only
  exact run_bind_ok (run_make_memory hs hfit hx) fun a => pure (some a)

/-- Asking the root for a child it does not list finds none and changes nothing. -/
theorem run_find_memoryRoot_missing (hs : w.stores[i]? = some s) {name : String}
    (hl : s.lookup Store.rootIndex 1 name = .error .missing) :
    ((memoryRoot i).find Handle.inode name).run w = (.ok none, w) := by
  unfold Node.find
  rw [memoryRoot_find_gate, if_neg (by decide)]
  simp only [Node.attempt, run_bind, run_lift]
  rw [memoryRoot, run_lookupAt_missing hs hl]
  rfl

/-- The root creates a file as its store does: a live record under the root, of the new name,
whose node the creation answers. -/
theorem run_create_memoryRoot (hv : StoresValid w) {name : String} {nd : Node Handle} {w₂ : Vfs}
    (hrun : ((memoryRoot i).create Handle.inode name .file).run w = (.ok nd, w₂)) :
    ∃ t c x, Backed w w₂ ∧ w₂.stores[i]? = some t ∧ t.slot c = some x ∧
      x.parent = some Store.rootIndex ∧ x.name = name ∧ nd = memoryNode i name c x := by
  unfold Node.create at hrun
  simp only [throw_bind] at hrun
  rw [memoryRoot_isDir, memoryRoot_supports, if_neg (by decide), if_neg (by decide)] at hrun
  split at hrun
  · cases hrun
  rename_i hfit
  rw [run_bind] at hrun
  rcases hc : ((Handle.inode (memoryRoot i).inode).create name .file).run w with ⟨e | h, w1⟩ <;>
    rw [hc] at hrun
  · cases hrun
  obtain ⟨t, c, cino, body, rfl, ht, hbody, hslot, hback⟩ := run_create_memory_ok hv hc
  have hb : body = .file .empty := by simpa [Store.freshBody] using hbody.symm
  subst hb
  have hmake : (Node.make Handle.inode name (.memory i c cino .file)).run w1 =
      (.ok (memoryNode i name c ⟨cino, name, some Store.rootIndex, none, .file .empty⟩), w1) :=
    run_make_memory (x := ⟨cino, name, some Store.rootIndex, none, .file .empty⟩) ht
      (by simpa using hfit) hslot
  dsimp only at hrun
  rw [hmake] at hrun
  cases hrun
  exact ⟨t, c, _, hback, ht, hslot, rfl, rfl, rfl⟩

/-! ## Paths of one component -/

section Leaf

variable {path name : String} (hcomp : Path.components path = .ok [name])
include hcomp

/-- A path of one component that the root lists resolves to the child's node, changing
nothing. -/
theorem run_resolve_leaf (hs : w.stores[i]? = some s) (hfit : Path.fits name = true) {c : Nat}
    {x : Record} (hx : s.slot c = some x)
    (hl : s.lookup Store.rootIndex 1 name = .ok (c, x.ino, x.kind)) (flags : OpenFlags) :
    (resolve (memoryRoot i) path flags).run w = (.ok (memoryNode i name c x), w) := by
  rw [run_resolve, hcomp]
  simp only [descend, hfit, Bool.not_true, Bool.false_eq_true, if_false,
    run_find_memoryRoot hs hfit hx hl]
  rfl

/-- A successful resolution of a path of one component found the child the root lists under
that name or, with flags that create, created it: either way a live record under the root, of
that name, whose node it answers. -/
theorem resolve_leaf_ok (hs : w.stores[i]? = some s) (hv : StoresValid w) {flags : OpenFlags}
    {nd : Node Handle} {w₂ : Vfs} (hres : (resolve (memoryRoot i) path flags).run w = (.ok nd, w₂)) :
    ∃ t c x, Backed w w₂ ∧ w₂.stores[i]? = some t ∧ t.slot c = some x ∧
      x.parent = some Store.rootIndex ∧ x.name = name ∧ nd = memoryNode i name c x := by
  by_cases hfit : Path.fits name = true
  swap
  · rw [Bool.not_eq_true] at hfit
    rw [run_resolve, hcomp] at hres
    simp only [descend, hfit, Bool.not_false, if_true, finish] at hres
    cases hres
  rcases (hv i s hs).lookup_root_cases name with ⟨c, x, hx, hp, hname, hl⟩ | hl
  · -- the root lists the name: nothing is created
    rw [run_resolve_leaf hcomp hs hfit hx hl] at hres
    cases hres
    exact ⟨s, c, x, Backed.refl w, hs, hx, hp, hname, rfl⟩
  · -- the name is missing: only a creation can succeed
    rw [run_resolve, hcomp] at hres
    simp only [descend, hfit, Bool.not_true, Bool.false_eq_true, if_false,
      run_find_memoryRoot_missing hs hl, List.isEmpty_nil] at hres
    rw [finish] at hres
    split at hres
    · have hn := noted_journal w (w.journal.push (creatingNote (memoryRoot i) name))
      obtain ⟨t, c, x, hback, ht, hx, hp, hname, rfl⟩ :=
        run_create_memoryRoot (hn.storesValid hv) hres
      exact ⟨t, c, x, hn.backed.trans hback, ht, hx, hp, hname, rfl⟩
    · cases hres

end Leaf

/-! ## Descriptors on memory nodes -/

/-- A memory node ignores the opens and closes it hears of. -/
theorem notifyOpen_memory {n : Node Handle} {slot ino : Nat} {k : NodeType}
    (hn : n.inode = .memory i slot ino k) (flags : OpenFlags) (v : Vfs) :
    n.notifyOpen Handle.inode flags v = ((), v) := by
  unfold Node.notifyOpen
  split
  · rw [hn]
    rfl
  · rfl

theorem notifyClose_memory {n : Node Handle} {slot ino : Nat} {k : NodeType}
    (hn : n.inode = .memory i slot ino k) (v : Vfs) : n.notifyClose Handle.inode v = ((), v) := by
  unfold Node.notifyClose
  split
  · rw [hn]
    rfl
  · rfl

/-- An open that does not truncate, from a state with a free descriptor, of a path that
resolves, to a node that ignores opens: the node's file takes the descriptor the table
allocates, and past the resolution only the table and the notes change. -/
theorem run_openFile_of_resolve {path : String} {flags : OpenFlags} {mp : MountPoint}
    (hmode : flags.accessMode?.isNone = false) (htr : flags.truncates = false)
    (hfree : w.files.hasFree = true) (hmnt : w.mounted = some mp) {nd : Node Handle} {w₂ : Vfs}
    (hres : (resolve mp.root path flags).run w = (.ok nd, w₂))
    (hquiet : ∀ v, nd.notifyOpen Handle.inode flags v = ((), v)) :
    ∃ fd files journal, w.files.alloc ⟨nd, 0, flags⟩ = .ok (fd, files) ∧
      (openFile path flags).run w = (.ok fd, { w₂ with files, journal }) := by
  have hfiles : w₂.files = w.files := by
    have := confined_resolve mp.root path flags w
    rw [hres] at this
    exact this.files_eq
  obtain ⟨fd, files, halloc⟩ := FdTable.alloc_ok_of_hasFree (a := ⟨nd, 0, flags⟩) hfree
  refine ⟨fd, files, w₂.journal.push ⟨.debug, vfsSource, ["vfs: open '", path, "' -> fd ",
    Nat.repr fd]⟩, halloc, ?_⟩
  unfold openFile
  simp only [hmode, Bool.false_eq_true, if_false, run_bind, run_get, hfree, Bool.not_true,
    run_root hmnt, hres, htr, Bool.false_and, hfiles, halloc, run_ofExcept, run_modify, run_lift,
    hquiet, run_liftM, run_note, run_pure]

/-- A successful open, without truncation, of a path of one component under the mounted root of a
memory store: the table had room, and the open found or created a live record under the root, of
that name, whose node's file now holds the descriptor it answers; past the resolution only the
table and the notes changed. -/
theorem openFile_leaf_ok {config : Config} (hsound : Sound config w) {mp : MountPoint}
    (hmnt : w.mounted = some mp) (hroot : mp.root = memoryRoot i) (hs : w.stores[i]? = some s)
    {path name : String} (hcomp : Path.components path = .ok [name]) {flags : OpenFlags}
    (hmode : flags.accessMode?.isNone = false) (htr : flags.truncates = false) {fd : Nat}
    {w₁ : Vfs} (h : (openFile path flags).run w = (.ok fd, w₁)) :
    w.files.hasFree = true ∧ ∃ t c x w₂, Backed w w₂ ∧ w₂.stores[i]? = some t ∧
      t.slot c = some x ∧ x.parent = some Store.rootIndex ∧ x.name = name ∧
      w₁ = { w₂ with files := w₁.files, journal := w₁.journal } ∧
      w₁.files.get? fd = some ⟨memoryNode i name c x, 0, flags⟩ := by
  have hfree : w.files.hasFree = true := by
    by_contra hne
    rw [Bool.not_eq_true] at hne
    rw [openFile_exhausted path (by cases hm : flags.accessMode? <;> simp_all) hne] at h
    cases h
  refine ⟨hfree, ?_⟩
  rcases hres : (resolve (memoryRoot i) path flags).run w with ⟨e | nd, w₂⟩
  · -- a failed resolution fails the open
    unfold openFile at h
    simp only [hmode, Bool.false_eq_true, if_false, run_bind, run_get, hfree, Bool.not_true,
      run_root hmnt, hroot, hres] at h
    cases h
  obtain ⟨t, c, x, hback, ht, hx, hp, hname, rfl⟩ := resolve_leaf_ok hcomp hs hsound.stores hres
  obtain ⟨fd', files, journal, halloc, hrun⟩ := run_openFile_of_resolve hmode htr hfree hmnt
    (by rw [hroot]; exact hres) (notifyOpen_memory rfl flags)
  rw [hrun] at h
  cases h
  obtain ⟨-, -, -, hget⟩ := FdTable.alloc_eq_ok hsound.files halloc
  exact ⟨t, c, x, w₂, hback, ht, hx, hp, hname, rfl, by rw [hget, if_pos rfl]⟩

/-- A write through a descriptor of a directory node moves no byte and answers 0. -/
theorem run_write_fd_dir {fd : Nat} {f : OpenFile} (hf : w.files.get fd = .ok f)
    (hwr : f.flags.writable = true) (happ : f.flags.appends = false) (hdir : f.node.isDir = true)
    (b : ByteArray) :
    (write fd b).run w =
      (.ok 0, { w with files := w.files.update fd { f with cursor := f.cursor + 0 } }) := by
  have hrun : (f.node.write Handle.inode f.cursor b).run w = (.ok 0, w) := by
    simp [Node.write, hdir]
  unfold write
  simp only [run_bind, run_fileAt hf, hwr, happ, Bool.not_true, Bool.false_eq_true, if_false,
    run_pure, hrun]
  rfl

/-- A close of a descriptor that holds the file of a node that ignores closes frees the
descriptor alone, and changes nothing else but the notes. -/
theorem run_close_quiet {fd : Nat} {f : OpenFile} (h : w.files.get? fd = some f)
    (hquiet : ∀ v, f.node.notifyClose Handle.inode v = ((), v)) :
    ∃ files journal, (close fd).run w = (.ok (), { w with files, journal }) ∧
      ∀ k, files.get? k = if k = fd then none else w.files.get? k := by
  obtain ⟨t', hc, -, -, hget⟩ := FdTable.close_eq_ok h
  refine ⟨t', w.journal.push ⟨.debug, vfsSource, ["vfs: close fd ", Nat.repr fd]⟩, ?_, hget⟩
  unfold close
  simp only [run_bind, run_get, run_ofExcept, hc, run_modify, run_lift, hquiet, run_liftM, run_note]

/-- Whatever a close of such a descriptor answers, it changed only the table and the notes. -/
theorem close_quiet_frame {fd : Nat} {f : OpenFile} {r : Except FsError Unit} {w' : Vfs}
    (hc : (close fd).run w = (r, w')) (h : w.files.get? fd = some f)
    (hquiet : ∀ v, f.node.notifyClose Handle.inode v = ((), v)) :
    ∃ files journal, w' = { w with files, journal } := by
  obtain ⟨files, journal, hrun, -⟩ := run_close_quiet h hquiet
  rw [hrun] at hc
  cases hc
  exact ⟨files, journal, rfl⟩

/-- Listing the root of a valid memory store mounted at the root answers the root's listing and
changes nothing. -/
theorem run_readdir_memoryRoot {mp : MountPoint} (hmnt : w.mounted = some mp)
    (hroot : mp.root = memoryRoot i) (hs : w.stores[i]? = some s) (hv : s.Valid) :
    (readdir "/").run w = (.ok (s.listing Store.rootIndex), w) := by
  have hlook : (lookup "/").run w = (.ok (memoryRoot i), w) := by
    unfold lookup
    rw [run_bind_ok (run_root hmnt), hroot, run_resolve,
      show Path.components "/" = .ok [] by decide]
    rfl
  exact run_readdir hlook hs hv hv.current_root hv.isDir_root rfl rfl

end KernelFs.Vfs
