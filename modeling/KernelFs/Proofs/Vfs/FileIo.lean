import KernelFs.Proofs.Vfs.Run
import KernelFs.Proofs.Arena.Content
import KernelFs.Vfs.Files

/-!
# Reading and writing memory files

A node of a memory file reads and writes through its view (`read_at`, `write_at` and `truncate`,
src/crates/fs/src/memfs/inode.rs:386-409 and 461-470): the slot and inode number it names in one of
the stores. A write changes that store as `writeAt` does and answers the number of bytes, or fails
for lack of space with every store as it was; a truncation does the same through `resize`; a read is
clipped to the live size and changes nothing. A descriptor reads and writes at its cursor, an
appending descriptor first moving its cursor to the end, and moves the cursor past the bytes moved.
A writable open with the truncate flag empties a file.

Results:
* `run_change_ok`, `run_change_error`: a store change keeps the new store, or leaves the stores
  as they were.
* `run_read_file`, `run_write_file`, `run_truncate_file`: reading, writing and truncating a
  live memory file through its node.
* `run_read_fd`, `run_write_fd`: reading and writing it through a descriptor.
* `run_open_truncates`: a writable open with the truncate flag leaves the file empty.
-/

namespace KernelFs.Backend

open Memory Vfs

variable {w : Vfs} {i : Nat} {s t : Store}

theorem run_noteGrowth (g : Option Growth) (w : Vfs) :
    ∃ journal, (noteGrowth g).run w = (.ok ⟨⟩, { w with journal }) := by
  cases g with
  | some g => exact ⟨_, rfl⟩
  | none => exact ⟨w.journal, rfl⟩

/-- A store change that succeeds writes the new store back; only the journal changes besides. -/
theorem run_change_ok {f : Store → Except StoreError (Store × Option Growth)} {g : Option Growth}
    (hw : w.stores[i]? = some s) (hf : f s = .ok (t, g)) :
    ∃ journal, (change i f).run w =
      (.ok ⟨⟩, { w with stores := w.stores.modify i (fun _ => t), journal }) := by
  obtain ⟨journal, hg⟩ := run_noteGrowth g { w with stores := w.stores.modify i fun _ => t }
  refine ⟨journal, ?_⟩
  unfold change
  rw [run_bind_ok (run_query_ok hw hf)]
  exact (run_bind_ok (run_putStore t) _).trans hg

/-- A store change that is refused leaves every store as it was. -/
theorem run_change_error {f : Store → Except StoreError (Store × Option Growth)} {e : StoreError}
    (hw : w.stores[i]? = some s) (hf : f s = .error e) :
    ∃ journal, (change i f).run w = (.error e.toFsError, { w with journal }) := by
  obtain ⟨journal, he⟩ : ∃ journal, (refuse e : VfsM (Store × Option Growth)).run w =
      (.error e.toFsError, { w with journal }) := run_refuse e w
  refine ⟨journal, ?_⟩
  unfold change
  rw [run_bind_error ((run_query_error hw hf).trans he)]

/-! ## A node of a memory file -/

variable {st slot ino : Nat} {d : ByteArray} {nd : Node Handle}

theorem stat_of_fileData (hd : s.fileData slot ino = .ok d) :
    ∃ m : Meta, s.stat slot ino = .ok m ∧ m.size = d.size := by
  obtain ⟨r, hr, hino, hb⟩ := (Store.fileData_eq_ok_iff s slot ino d).mp hd
  refine ⟨r.stat, ?_, by simp [Record.stat, Record.size, hb]⟩
  simp [Store.stat, (Store.get_eq_ok_iff s slot ino r).mpr ⟨hr, hino⟩, bind, Except.bind, pure,
    Except.pure]

/-- The live size of a node of a memory inode is the size its store reports. -/
theorem run_length_memory (hw : w.stores[st]? = some s) {k : NodeType}
    (hnd : nd.inode = .memory st slot ino k) {m : Meta} (hm : s.stat slot ino = .ok m) :
    nd.length Handle.inode w = (m.size, w) := by
  have hq := run_query_ok (f := (·.stat slot ino)) hw hm
  unfold Node.length
  simp only [hnd, Handle.inode, memoryInode, bind, StateT.bind]
  rw [hq]
  rfl

theorem supports_memory_file (hnd : nd.inode = .memory st slot ino .file) (x : Capability) :
    nd.supports Handle.inode x = memoryFileCaps.has x := by
  simp [Node.supports, hnd, Handle.inode, memoryInode]

theorem supports_memory_dir (hnd : nd.inode = .memory st slot ino .directory) (x : Capability) :
    nd.supports Handle.inode x = memoryDirCaps.has x := by
  simp [Node.supports, hnd, Handle.inode, memoryInode]

section LiveFile

variable (hw : w.stores[st]? = some s) (hd : s.fileData slot ino = .ok d)
  (hnd : nd.inode = .memory st slot ino .file)
include hw hd hnd

/-- A read through the node of a live memory file sees at most `len` bytes of its content from
`off` on, and changes nothing. -/
theorem run_read_file (off len : Nat) :
    ∃ r, (nd.read Handle.inode off len).run w = (.ok r, w) ∧
      bytes r = ((bytes d).drop off).take len := by
  obtain ⟨m, hm, hsize⟩ := stat_of_fileData hd
  have hcap : nd.supports Handle.inode .read = true := by
    rw [supports_memory_file hnd]
    decide
  unfold Node.read
  simp only [hcap, Bool.not_true, Bool.false_eq_true, if_false]
  rw [run_bind_ok (by rw [run_lift, run_length_memory hw hnd hm])]
  by_cases hoff : d.size ≤ off
  · rw [if_pos (by rw [hsize]; exact hoff)]
    refine ⟨_, rfl, ?_⟩
    rw [List.drop_eq_nil_of_le (by rw [length_bytes]; exact hoff), bytes_empty, List.take_nil]
  · rw [if_neg (by rw [hsize]; exact hoff), hsize]
    -- the node clips the length to the live size; the store reads exactly that much
    obtain ⟨r, hr, hbytes⟩ := Store.bytes_readAt hd off (min len (d.size - off))
    have hq := run_query_ok (f := (·.readAt slot ino off (min len (d.size - off)))) hw hr
    refine ⟨r, ?_, ?_⟩
    · simp only [Node.attempt, run_bind, run_lift, hnd, Handle.inode, memoryInode, hq]
      rfl
    · rw [hbytes, ← length_bytes, ← List.length_drop, ← List.take_eq_take_min]

/-- A write through the node of a live memory file writes back the store `writeAt` gives and
answers the number of bytes, or fails for lack of space leaving every store as it was. -/
theorem run_write_file (hk : nd.kind = .file) (off : Nat) (b : ByteArray) :
    match s.writeAt slot ino off b with
    | .ok (t, _) => ∃ journal, (nd.write Handle.inode off b).run w =
        (.ok b.size, { w with stores := w.stores.modify st (fun _ => t), journal })
    | .error _ => ∃ journal, (nd.write Handle.inode off b).run w =
        (.error .noSpace, { w with journal }) := by
  have hout := Store.writeAt_outcome hd off b
  have hcap : nd.supports Handle.inode .write = true := by
    rw [supports_memory_file hnd]
    decide
  have hgate : (nd.isDir || !nd.supports Handle.inode .write) = false := by
    simp [Node.isDir, hk, hcap]
  unfold Node.write
  simp only [hgate, Bool.false_eq_true, if_false, Node.attempt, run_bind, run_lift, hnd,
    Handle.inode, memoryInode]
  rcases h : s.writeAt slot ino off b with e | ⟨t, g⟩
  · rw [h] at hout
    obtain ⟨journal, hc⟩ := run_change_error (f := (·.writeAt slot ino off b)) hw h
    refine ⟨journal, ?_⟩
    rw [hc, hout.1]
    rfl
  · obtain ⟨journal, hc⟩ := run_change_ok (f := (·.writeAt slot ino off b)) hw h
    refine ⟨journal, ?_⟩
    rw [hc]
    rfl

/-- A truncation through the node of a live memory file writes back the store `resize` gives,
or fails for lack of space leaving every store as it was. -/
theorem run_truncate_file (hk : nd.kind = .file) (n : Nat) :
    match s.resize slot ino n with
    | .ok (t, _) => ∃ journal, (nd.truncate Handle.inode n).run w =
        (.ok ⟨⟩, { w with stores := w.stores.modify st (fun _ => t), journal })
    | .error _ => ∃ journal, (nd.truncate Handle.inode n).run w =
        (.error .noSpace, { w with journal }) := by
  have hout := Store.resize_outcome hd n
  have hcap : nd.supports Handle.inode .truncate = true := by
    rw [supports_memory_file hnd]
    decide
  unfold Node.truncate
  simp only [Node.isDir, hk, hcap, Bool.not_true, Bool.false_eq_true, if_false, hnd,
    Handle.inode, memoryInode]
  rw [if_neg (by decide)]
  rcases h : s.resize slot ino n with e | ⟨t, g⟩
  · rw [h] at hout
    obtain ⟨journal, hc⟩ := run_change_error (f := (·.resize slot ino n)) hw h
    refine ⟨journal, ?_⟩
    rw [hc, hout.1]
  · obtain ⟨journal, hc⟩ := run_change_ok (f := (·.resize slot ino n)) hw h
    exact ⟨journal, hc⟩

end LiveFile

end KernelFs.Backend

namespace KernelFs.FdTable

variable {α : Type} {t : FdTable α} {fd : Nat} {a : α}

theorem get_update_self (h : t.get fd = .ok a) (b : α) : (t.update fd b).get fd = .ok b := by
  unfold get update at *
  rw [Array.getElem?_modify, if_pos rfl]
  rcases hx : t.slots[fd]? with _ | _ | x
  · simp [hx] at h
  · simp [hx] at h
  · rfl

end KernelFs.FdTable

namespace KernelFs.Vfs

open Memory Backend

variable {w : Vfs} {st slot ino : Nat} {s : Store} {d : ByteArray}

/-! ## Descriptors -/

theorem run_fileAt {fd : Nat} {f : OpenFile} (hf : w.files.get fd = .ok f) :
    (fileAt fd).run w = (.ok f, w) := by
  simp [fileAt, run_bind, hf]

theorem run_setFile (fd : Nat) (f : OpenFile) :
    (setFile fd f).run w = (.ok ⟨⟩, { w with files := w.files.update fd f }) := rfl

theorem run_root {mp : MountPoint} (h : w.mounted = some mp) : root.run w = (.ok mp.root, w) := by
  simp [root, run_bind, h]

/-- Telling a node that a descriptor opened it touches no store. -/
theorem stores_notifyOpen (n : Node Handle) (flags : OpenFlags) (w : Vfs) :
    (n.notifyOpen Handle.inode flags w).2.stores = w.stores := by
  unfold Node.notifyOpen
  split
  · rcases n with ⟨_, _, _, _, _, _, inode⟩
    cases inode <;> rfl
  · rfl

section LiveFile

variable {fd : Nat} {f : OpenFile} (hf : w.files.get fd = .ok f) (hw : w.stores[st]? = some s)
  (hd : s.fileData slot ino = .ok d) (hnd : f.node.inode = .memory st slot ino .file)
include hf hw hd hnd

/-- A read through a descriptor of a live memory file sees at most `len` bytes of its content
from the cursor on, and moves the cursor past them. -/
theorem run_read_fd (hr : f.flags.readable = true) (len : Nat) :
    ∃ r, (read fd len).run w =
        (.ok r, { w with files := w.files.update fd { f with cursor := f.cursor + r.size } }) ∧
      bytes r = ((bytes d).drop f.cursor).take len := by
  obtain ⟨r, hrun, hbytes⟩ := run_read_file hw hd hnd f.cursor len
  refine ⟨r, ?_, hbytes⟩
  unfold read
  simp only [run_bind, run_fileAt hf, hr, Bool.not_true, Bool.false_eq_true, if_false, run_pure,
    hrun]
  rfl

/-- A write through a descriptor of a live memory file writes at the cursor, or at the end of
the file for an appending descriptor; it writes back the store `writeAt` gives and moves the
cursor past the bytes, or fails for lack of space leaving every store as it was. -/
theorem run_write_fd (hwr : f.flags.writable = true) (hk : f.node.kind = .file) (b : ByteArray) :
    match s.writeAt slot ino (if f.flags.appends then d.size else f.cursor) b with
    | .ok (t, _) => ∃ files journal, (write fd b).run w =
        (.ok b.size, { w with stores := w.stores.modify st (fun _ => t), files, journal }) ∧
        files.get fd = .ok { f with cursor := (if f.flags.appends then d.size else f.cursor) + b.size }
    | .error _ => ∃ files journal, (write fd b).run w =
        (.error .noSpace, { w with files, journal }) := by
  obtain ⟨m, hm, hsize⟩ := stat_of_fileData hd
  cases happ : f.flags.appends with
  | false =>
    have hwf := run_write_file hw hd hnd hk f.cursor b
    simp only [Bool.false_eq_true, if_false]
    unfold write
    rcases h : s.writeAt slot ino f.cursor b with e | ⟨t, g⟩ <;> rw [h] at hwf <;>
      obtain ⟨journal, hrun⟩ := hwf
    · refine ⟨w.files, journal, ?_⟩
      simp only [run_bind, run_fileAt hf, hwr, happ, Bool.not_true, Bool.false_eq_true, if_false,
        run_pure, hrun]
    · refine ⟨w.files.update fd { f with cursor := f.cursor + b.size }, journal, ?_,
        FdTable.get_update_self hf _⟩
      simp only [run_bind, run_fileAt hf, hwr, happ, Bool.not_true, Bool.false_eq_true, if_false,
        run_pure, hrun]
      rfl
  | true =>
    -- the cursor first moves to the live size, in the table too
    have hwf := run_write_file (w := { w with files := w.files.update fd { f with cursor := d.size } })
      hw hd hnd hk d.size b
    have hlen := run_length_memory hw hnd hm
    rw [hsize] at hlen
    simp only [if_true]
    unfold write
    rcases h : s.writeAt slot ino d.size b with e | ⟨t, g⟩ <;> rw [h] at hwf <;>
      obtain ⟨journal, hrun⟩ := hwf
    · refine ⟨w.files.update fd { f with cursor := d.size }, journal, ?_⟩
      simp only [run_bind, run_fileAt hf, hwr, happ, Bool.not_true, Bool.false_eq_true, if_false,
        if_true, run_lift, hlen, run_setFile, run_pure, hrun]
    · refine ⟨(w.files.update fd { f with cursor := d.size }).update fd
        { f with cursor := d.size + b.size }, journal, ?_,
        FdTable.get_update_self (FdTable.get_update_self hf _) _⟩
      simp only [run_bind, run_fileAt hf, hwr, happ, Bool.not_true, Bool.false_eq_true, if_false,
        if_true, run_lift, hlen, run_setFile, run_pure, hrun]

end LiveFile

/-- A writable open with the truncate flag that resolves to a live memory file cuts it to
nothing: whatever else the open does, it leaves the store the truncation wrote. -/
theorem run_open_truncates {path : String} {flags : OpenFlags} {mp : MountPoint}
    (hmode : flags.accessMode?.isNone = false) (hfree : w.files.hasFree = true)
    (hroot : w.mounted = some mp) {nd : Node Handle} {w1 : Vfs}
    (hres : (resolve mp.root path flags).run w = (.ok nd, w1)) (hw : w1.stores[st]? = some s)
    (hd : s.fileData slot ino = .ok d) (hnd : nd.inode = .memory st slot ino .file)
    (hk : nd.kind = .file) (htr : flags.truncates = true) (hwr : flags.writable = true) :
    ∃ t g, s.resize slot ino 0 = .ok (t, g) ∧
      ((openFile path flags).run w).2.stores = w1.stores.modify st (fun _ => t) ∧
      ∃ d', t.fileData slot ino = .ok d' ∧ bytes d' = [] := by
  have hout := Store.resize_outcome hd 0
  rcases h0 : s.resize slot ino 0 with e | ⟨t, g⟩
  · rw [h0] at hout
    exact absurd hout.2.1 (Nat.not_lt_zero _)
  rw [h0] at hout
  obtain ⟨-, d', hd', hbytes⟩ := hout
  have htrunc := run_truncate_file hw hd hnd hk 0
  rw [h0] at htrunc
  obtain ⟨journal, htrunc⟩ := htrunc
  refine ⟨t, g, rfl, ?_, d', hd', by rw [hbytes]; rfl⟩
  unfold openFile
  simp only [hmode, run_bind, Bool.false_eq_true, if_false, run_get, hfree, Bool.not_true,
    run_root hroot, hres, htr, hwr, hk]
  rw [if_pos (by decide)]
  simp only [run_bind, htrunc, run_get, run_ofExcept]
  -- whether a descriptor is free or not, the rest of the open touches no store
  cases halloc : w1.files.alloc { node := nd, cursor := 0, flags := flags } with
  | error e => rfl
  | ok p =>
    simp only [run_modify, run_lift]
    exact stores_notifyOpen nd flags _

/-! ## Every memory file is a list of bytes -/

/-- A memory file behaves as a list of bytes `c`. A write of `b` at `off` leaves
`overwrite c off b`: `max |c| (off + |b|)` bytes, `b` at `off`, zeros in any gap and every other
byte as it was. It is refused for lack of space exactly when its end passes the machine word or
the growth it needs is refused (the bytes in use would reach the word, the growth exceeds what
remains of a nonzero budget, or the store's heap refuses the buffer, as every heap does every
buffer past the largest signed word), and a refusal changes no store. A resize to `n` leaves
`resizeTo c n` under the same rule for its growth, and a read sees `(c.drop off).take len`. So
it goes through the file's node, and through a descriptor at its cursor, an appending one
writing at `|c|`; a writable open with the truncate flag leaves the file empty. -/
theorem file_behaves_as_byte_list :
    (∀ (cs : List UInt8) (off : Nat) (b : List UInt8),
      (overwrite cs off b).length = max cs.length (off + b.length) ∧
      ∀ k, (overwrite cs off b)[k]? =
        if k < off then some (cs.getD k 0) else if k < off + b.length then b[k - off]? else cs[k]?) ∧
    (∀ (s : Store) (size stop : Nat), size < stop → maxBuffer < stop → s.Refuses size stop) ∧
    (∀ (s : Store) (i ino : Nat) (d : ByteArray), s.fileData i ino = .ok d →
      (∀ off b, match s.writeAt i ino off b with
        | .ok (t, _) => ¬ (wordSize ≤ off + b.size ∨ s.Refuses d.size (off + b.size)) ∧
            ∃ d', t.fileData i ino = .ok d' ∧ bytes d' = overwrite (bytes d) off (bytes b)
        | .error e => e.toFsError = .noSpace ∧
            (wordSize ≤ off + b.size ∨ s.Refuses d.size (off + b.size))) ∧
      (∀ n, match s.resize i ino n with
        | .ok (t, _) => ¬ s.Refuses d.size n ∧
            ∃ d', t.fileData i ino = .ok d' ∧ bytes d' = resizeTo (bytes d) n
        | .error e => e.toFsError = .noSpace ∧ s.Refuses d.size n) ∧
      (∀ off len, ∃ r, s.readAt i ino off len = .ok r ∧ bytes r = ((bytes d).drop off).take len)) ∧
    (∀ (w : Vfs) (st slot ino : Nat) (s : Store) (d : ByteArray) (nd : Node Handle),
      w.stores[st]? = some s → s.fileData slot ino = .ok d →
      nd.inode = .memory st slot ino .file → nd.kind = .file →
      (∀ off len, ∃ r, (nd.read Handle.inode off len).run w = (.ok r, w) ∧
        bytes r = ((bytes d).drop off).take len) ∧
      (∀ off b, match s.writeAt slot ino off b with
        | .ok (t, _) => ∃ journal, (nd.write Handle.inode off b).run w =
            (.ok b.size, { w with stores := w.stores.modify st (fun _ => t), journal })
        | .error _ => ∃ journal, (nd.write Handle.inode off b).run w =
            (.error .noSpace, { w with journal })) ∧
      (∀ n, match s.resize slot ino n with
        | .ok (t, _) => ∃ journal, (nd.truncate Handle.inode n).run w =
            (.ok ⟨⟩, { w with stores := w.stores.modify st (fun _ => t), journal })
        | .error _ => ∃ journal, (nd.truncate Handle.inode n).run w =
            (.error .noSpace, { w with journal }))) ∧
    (∀ (w : Vfs) (st slot ino : Nat) (s : Store) (d : ByteArray) (fd : Nat) (f : OpenFile),
      w.files.get fd = .ok f → w.stores[st]? = some s → s.fileData slot ino = .ok d →
      f.node.inode = .memory st slot ino .file → f.node.kind = .file →
      (f.flags.readable = true → ∀ len, ∃ r, (read fd len).run w =
          (.ok r, { w with files := w.files.update fd { f with cursor := f.cursor + r.size } }) ∧
        bytes r = ((bytes d).drop f.cursor).take len) ∧
      (f.flags.writable = true → ∀ b,
        match s.writeAt slot ino (if f.flags.appends then d.size else f.cursor) b with
        | .ok (t, _) => ∃ files journal, (write fd b).run w =
            (.ok b.size, { w with stores := w.stores.modify st (fun _ => t), files, journal }) ∧
            files.get fd = .ok { f with cursor := (if f.flags.appends then d.size else f.cursor) + b.size }
        | .error _ => ∃ files journal, (write fd b).run w =
            (.error .noSpace, { w with files, journal }))) ∧
    (∀ (w w1 : Vfs) (path : String) (flags : OpenFlags) (mp : MountPoint) (nd : Node Handle)
      (st slot ino : Nat) (s : Store) (d : ByteArray),
      flags.accessMode?.isNone = false → w.files.hasFree = true → w.mounted = some mp →
      (resolve mp.root path flags).run w = (.ok nd, w1) → w1.stores[st]? = some s →
      s.fileData slot ino = .ok d → nd.inode = .memory st slot ino .file → nd.kind = .file →
      flags.truncates = true → flags.writable = true →
      ∃ t g, s.resize slot ino 0 = .ok (t, g) ∧
        ((openFile path flags).run w).2.stores = w1.stores.modify st (fun _ => t) ∧
        ∃ d', t.fileData slot ino = .ok d' ∧ bytes d' = []) := by
  refine ⟨fun cs off b => ⟨length_overwrite cs off b, getElem?_overwrite cs off b⟩,
    fun s _ _ hlt hmax => s.refuses_of_maxBuffer_lt hlt hmax, ?_, ?_, ?_, ?_⟩
  · intro s i ino d hd
    exact ⟨Store.writeAt_outcome hd, Store.resize_outcome hd, Store.bytes_readAt hd⟩
  · intro w st slot ino s d nd hw hd hnd hk
    exact ⟨run_read_file hw hd hnd, run_write_file hw hd hnd hk, run_truncate_file hw hd hnd hk⟩
  · intro w st slot ino s d fd f hf hw hd hnd hk
    exact ⟨fun hr => run_read_fd hf hw hd hnd hr, fun hwr => run_write_fd hf hw hd hnd hwr hk⟩
  · intro w w1 path flags mp nd st slot ino s d hmode hfree hroot hres hw hd hnd hk htr hwr
    exact run_open_truncates hmode hfree hroot hres hw hd hnd hk htr hwr

/-- Two bytes written two bytes past the end of an empty file land after two zero bytes. -/
theorem write_past_end_fills_gap :
    ∃ t g d',
      ({ slots := #[some ⟨2, "a", none, none, .file .empty⟩], free := [], nextIno := 3, live := 1,
         used := 0, budget := 0, heap := .host } : Store).writeAt 0 2 2 ⟨#[104, 105]⟩ = .ok (t, g) ∧
      t.fileData 0 2 = .ok d' ∧ bytes d' = [0, 0, 104, 105] := by
  generalize hs : ({ slots := #[some ⟨2, "a", none, none, .file .empty⟩], free := [],
                     nextIno := 3, live := 1, used := 0, budget := 0, heap := .host } : Store) = s
  have hd : s.fileData 0 2 = .ok .empty := by
    rw [← hs]
    rfl
  have hout := (file_behaves_as_byte_list.2.2.1 s 0 2 .empty hd).1 2 ⟨#[104, 105]⟩
  cases h : s.writeAt 0 2 2 ⟨#[104, 105]⟩ with
  | error e =>
    rw [h] at hout
    -- an empty file with no budget grows to four bytes
    exact absurd hout.2 (by rw [← hs]; decide)
  | ok p =>
    rw [h] at hout
    obtain ⟨-, d', hd', hbytes⟩ := hout
    exact ⟨p.1, p.2, d', rfl, hd', by rw [hbytes]; decide⟩

end KernelFs.Vfs
