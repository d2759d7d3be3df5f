import Mathlib.Logic.Relation
import KernelFs.Proofs.Arena.Listing

/-!
# Inode numbers are never handed out twice

Every creation takes `nextIno` (`next_inode_no`, src/crates/fs/src/memfs/inode.rs:184-192) and moves
it on, and every other operation leaves each record it keeps live under the number it had. So a
number that was handed out and that no live slot holds any more is never held again, whatever slots
later creations reuse: it is `Retired`. A view names a slot and a number, and every access through
it first checks that the slot holds that number; through a view whose number is retired every
operation fails, as missing unless a check on its arguments comes first, and hands back no store.

Results:
* `Valid.keepsNumbers`, `Valid.keepsNumbers_later`: along every run, each live record kept
  its slot and number or took one at or past the `nextIno` the run started from.
* `Valid.retired_remove`, `Valid.retired_unlink`, `Valid.retired_rmdir`: removing a record
  retires its number.
* `Retired.later`: a retired number stays retired along every later run.
* `get_retired` and the lemmas after it: every operation through a view whose number is
  retired fails.
-/

namespace KernelFs.Memory.Store

open Relation

variable {s t u : Store}

/-! ## What a run does to inode numbers -/

/-- Every live record of `t` sits in a slot that held a record of the same number in `s`, or
carries a number at or past the next number of `s`; and `t` hands out no lower numbers. -/
structure KeepsNumbers (s t : Store) : Prop where
  next : s.nextIno ≤ t.nextIno
  slot : ∀ j x, t.slot j = some x → s.nextIno ≤ x.ino ∨ ∃ y, s.slot j = some y ∧ y.ino = x.ino

theorem KeepsNumbers.refl (s : Store) : KeepsNumbers s s :=
  ⟨Nat.le_refl _, fun _ x hx => .inr ⟨x, hx, rfl⟩⟩

theorem KeepsNumbers.trans (h1 : KeepsNumbers s u) (h2 : KeepsNumbers u t) : KeepsNumbers s t := by
  refine ⟨Nat.le_trans h1.next h2.next, fun j x hx => ?_⟩
  rcases h2.slot j x hx with hle | ⟨y, hy, hyx⟩
  · exact .inl (Nat.le_trans h1.next hle)
  · rcases h1.slot j y hy with hle | ⟨z, hz, hzy⟩
    · exact .inl (hyx ▸ hle)
    · exact .inr ⟨z, hz, hzy.trans hyx⟩

/-- A store that only dropped records or changed links and contents keeps every number. -/
theorem KeepsNumbers.of_keeps (hk : Keeps s t) (hnext : s.nextIno ≤ t.nextIno) :
    KeepsNumbers s t := by
  refine ⟨hnext, fun j x hx => ?_⟩
  obtain ⟨y, hy, hxy, -⟩ := hk j x hx
  exact .inr ⟨y, hy, hxy.symm⟩

theorem keepsNumbers_setData {i : Nat} {r : Record} {d : ByteArray} (hr : s.slot i = some r)
    (hb : r.body = .file d) (d' : ByteArray) (used : Nat) :
    KeepsNumbers s { s.setData i d' with used } :=
  .of_keeps (fun _ _ => slot_setData_some hr hb d') (Nat.le_refl _)

theorem keepsNumbers_resize {i ino n : Nat} {g : Option Growth}
    (h : s.resize i ino n = .ok (t, g)) : KeepsNumbers s t := by
  obtain ⟨d, hd, hcase⟩ := resize_eq_ok h
  obtain ⟨r, hr, -, hb⟩ := (fileData_eq_ok_iff s i ino d).mp hd
  rcases hcase with ⟨-, -, rfl⟩ | ⟨-, -, -, -, -, rfl⟩ <;> exact keepsNumbers_setData hr hb _ _

theorem keepsNumbers_writeAt {i ino off : Nat} {b : ByteArray} {g : Option Growth}
    (h : s.writeAt i ino off b = .ok (t, g)) : KeepsNumbers s t := by
  obtain ⟨d, u, d1, -, hd1, -, -, rfl, hcase⟩ := reach_writeAt h
  have hu : KeepsNumbers s u := by
    rcases hcase with ⟨-, hres⟩ | rfl
    · exact keepsNumbers_resize hres
    · exact KeepsNumbers.refl _
  obtain ⟨r, hr, -, hb⟩ := (fileData_eq_ok_iff u i ino d1).mp hd1
  exact hu.trans (keepsNumbers_setData hr hb _ u.used)

theorem Valid.keepsNumbers_insert (hv : s.Valid) {dir dirIno i ino : Nat} {name : String}
    {kind : NodeType} (h : s.insert dir dirIno name kind = .ok (t, i, ino)) :
    KeepsNumbers s t := by
  obtain ⟨-, hnext, -⟩ := counters_insert hv h
  refine ⟨by omega, fun j x hx => ?_⟩
  by_cases hj : j = i
  · -- the new record takes the next number
    subst hj
    obtain ⟨body, -, hino, hself⟩ := slot_insert_self hv h
    rw [hself] at hx
    cases hx
    exact .inl (Nat.le_of_eq hino.symm)
  · obtain ⟨y, hy, hxy, -⟩ := slot_insert_some hv h hj hx
    exact .inr ⟨y, hy, hxy.symm⟩

theorem Valid.keepsNumbers_remove (hv : s.Valid) {i : Nat} (h : s.remove i = .ok t) :
    KeepsNumbers s t := by
  obtain ⟨-, hnext, -⟩ := counters_remove hv h
  exact .of_keeps (fun _ _ hx => (slot_remove_some hv h hx).2) (Nat.le_of_eq hnext.symm)

/-- Every operation keeps the numbers of the records it leaves live, and a creation numbers
its record with the next number. -/
theorem Valid.keepsNumbers (hv : s.Valid) (h : Step s t) : KeepsNumbers s t := by
  cases h with
  | create h =>
    obtain ⟨-, h⟩ := create_eq_ok h
    exact hv.keepsNumbers_insert h
  | unlink h =>
    obtain ⟨c, -, -, h⟩ := unlink_eq_ok h
    exact hv.keepsNumbers_remove h
  | rmdir h =>
    obtain ⟨c, r, -, -, -, h⟩ := rmdir_eq_ok h
    exact hv.keepsNumbers_remove h
  | resize h => exact keepsNumbers_resize h
  | writeAt h => exact keepsNumbers_writeAt h

/-- Every store a run reaches from a valid store is valid. -/
theorem Valid.later (hv : s.Valid) (h : ReflTransGen Step s t) : t.Valid := by
  induction h with
  | refl => exact hv
  | tail _ hstep ih => exact ih.step hstep

/-- Along every run, each live record kept its slot and number or was numbered at or past the
`nextIno` the run started from. -/
theorem Valid.keepsNumbers_later (hv : s.Valid) (h : ReflTransGen Step s t) : KeepsNumbers s t := by
  induction h with
  | refl => exact KeepsNumbers.refl s
  | tail hsu hstep ih => exact ih.trans ((hv.later hsu).keepsNumbers hstep)

/-- A creation numbers its record past every number a live record holds. -/
theorem Valid.create_fresh (hv : s.Valid) {dir dirIno i ino : Nat} {name : String}
    {kind : NodeType} (h : s.create dir dirIno name kind = .ok (t, i, ino)) :
    ino = s.nextIno ∧ t.nextIno = ino + 1 ∧ ∀ j r, s.slot j = some r → r.ino < ino := by
  obtain ⟨-, h⟩ := create_eq_ok h
  obtain ⟨-, -, hino, -⟩ := slot_insert_self hv h
  obtain ⟨-, hnext, -⟩ := counters_insert hv h
  exact ⟨hino, hino ▸ hnext, fun j r hr => hino ▸ hv.inoLt j r hr⟩

/-! ## Retired numbers -/

/-- Inode number `n` was handed out and no live slot holds it. -/
structure Retired (s : Store) (n : Nat) : Prop where
  issued : n < s.nextIno
  gone : ∀ j r, s.slot j = some r → r.ino ≠ n

theorem Retired.keep {n : Nat} (hn : s.Retired n) (hk : KeepsNumbers s t) : t.Retired n := by
  refine ⟨Nat.lt_of_lt_of_le hn.issued hk.next, fun j x hx hxn => ?_⟩
  rcases hk.slot j x hx with hle | ⟨y, hy, hyx⟩
  · have := hn.issued
    omega
  · exact hn.gone j y hy (hyx.trans hxn)

/-- A retired number stays retired along every later run, however many creations reuse the
slot that held it. -/
theorem Retired.later (hv : s.Valid) {n : Nat} (hn : s.Retired n) (h : ReflTransGen Step s t) :
    t.Retired n :=
  hn.keep (hv.keepsNumbers_later h)

/-- The number of a record seen in a valid store is retired in every later store where no
live slot holds it. -/
theorem Valid.retired_of_gone (hv : s.Valid) {i : Nat} {r : Record} (hr : s.slot i = some r)
    (h : ReflTransGen Step s t) (hgone : ∀ j x, t.slot j = some x → x.ino ≠ r.ino) :
    t.Retired r.ino :=
  ⟨Nat.lt_of_lt_of_le (hv.inoLt i r hr) (hv.keepsNumbers_later h).next, hgone⟩

/-- Removing a record retires its number: no other live slot holds it. -/
theorem Valid.retired_remove (hv : s.Valid) {c : Nat} {r : Record} (h : s.remove c = .ok t)
    (hr : s.slot c = some r) : t.Retired r.ino := by
  obtain ⟨-, hnext, -⟩ := counters_remove hv h
  refine ⟨hnext ▸ hv.inoLt c r hr, fun j x hx hxn => ?_⟩
  obtain ⟨hj, y, hy, hxy, -⟩ := slot_remove_some hv h hx
  exact hj (hv.inoInj j c y r hy hr (hxy.symm.trans hxn))

/-- An unlink retires the number of the file the name looked up. -/
theorem Valid.retired_unlink (hv : s.Valid) {d n : Nat} {name : String}
    (h : s.unlink d n name = .ok t) :
    ∃ c cino, s.lookup d n name = .ok (c, cino, .file) ∧ t.Retired cino := by
  obtain ⟨c, hloc, hnd, hrem⟩ := unlink_eq_ok h
  obtain ⟨x, hx⟩ := Option.ne_none_iff_exists'.mp (live_of_remove hv hrem)
  have hkind : x.kind = .file := by
    cases hb : x.body with
    | file data => simp [Record.kind, hb]
    | dir first => exact absurd ⟨x, first, hx, hb⟩ hnd
  exact ⟨c, x.ino, hkind ▸ lookup_of_locate hloc hx, hv.retired_remove hrem hx⟩

/-- An rmdir retires the number of the directory the name looked up. -/
theorem Valid.retired_rmdir (hv : s.Valid) {d n : Nat} {name : String}
    (h : s.rmdir d n name = .ok t) :
    ∃ c cino, s.lookup d n name = .ok (c, cino, .directory) ∧ t.Retired cino := by
  obtain ⟨c, x, hloc, hx, hxb, hrem⟩ := rmdir_eq_ok h
  have hkind : x.kind = .directory := by simp [Record.kind, hxb]
  exact ⟨c, x.ino, hkind ▸ lookup_of_locate hloc hx, hv.retired_remove hrem hx⟩

/-! ## Views with a retired number -/

section Stale

variable {n : Nat} (hn : s.Retired n) (i : Nat)
include hn

/-- The record check of a view with a retired number fails, whatever its slot now holds. -/
theorem get_retired : s.get i n = .error .missing := by
  unfold get
  cases hr : s.slot i with
  | none => rfl
  | some r => exact if_neg (hn.gone i r hr)

theorem stat_retired : s.stat i n = .error .missing := by
  rw [stat, get_retired hn i]
  rfl

theorem fileData_retired : s.fileData i n = .error .missing := by
  rw [fileData, get_retired hn i]
  rfl

theorem readAt_retired (off len : Nat) : s.readAt i n off len = .error .missing := by
  rw [readAt, fileData_retired hn i]
  rfl

theorem resize_retired (size : Nat) : s.resize i n size = .error .missing := by
  rw [resize, fileData_retired hn i]
  rfl

/-- A write first checks that its end fits in a machine word, then the view. -/
theorem writeAt_retired (off : Nat) (b : ByteArray) :
    s.writeAt i n off b = .error (if wordSize ≤ off + b.size then .overflow else .missing) := by
  unfold writeAt
  dsimp only
  split
  · rfl
  · rw [fileData_retired hn i]
    rfl

theorem entryAt_retired (k : Nat) : s.entryAt i n k = .error .missing := by
  rw [entryAt, get_retired hn i]
  rfl

theorem locate_retired (name : String) : s.locate i n name = .error .missing := by
  rw [locate, get_retired hn i]
  rfl

theorem lookup_retired (name : String) : s.lookup i n name = .error .missing :=
  lookup_of_locate_error (locate_retired hn i name)

theorem unlink_retired (name : String) : s.unlink i n name = .error .missing := by
  rw [unlink, locate_retired hn i]
  rfl

theorem rmdir_retired (name : String) : s.rmdir i n name = .error .missing := by
  rw [rmdir, locate_retired hn i]
  rfl

/-- A creation first checks the name, then the view. -/
theorem create_retired (name : String) (kind : NodeType) :
    s.create i n name kind = match checkName name with
      | .error e => .error e
      | .ok _ => .error .missing := by
  unfold create
  cases checkName name with
  | error e => rfl
  | ok u =>
    show s.insert i n name kind = .error .missing
    rw [insert, get_retired hn i]
    rfl

end Stale

end KernelFs.Memory.Store
