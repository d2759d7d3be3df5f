import KernelFs.Proofs.Arena.Resize

/-!
# The arena invariant along every run

A memory store changes through five operations: `create`, `unlink`, `rmdir`, `resize` and `writeAt`
(src/crates/fs/src/memfs/inode.rs:386-470). Each is a name check, a lookup, and then one of the
edits whose effect on `Valid` the previous modules establish: `insert`, `remove` of a slot that
lists nothing, or a change of content. `Step` collects the five, and `Reachable` the stores a run of
them builds from a fresh store.

Results:
* `valid_empty_and_preserved`: a fresh store is valid, and resizing, inserting a name that passes
  the name check, and removing a file or an empty directory keep a store valid.
* `Valid.step`, `Reachable.valid`: every operation keeps a store valid, so every store a run
  builds is valid.
-/

namespace KernelFs.Memory.Store

variable {s t : Store}

/-! ## Looking up a child -/

theorem locate_eq_ok {i ino c : Nat} {name : String} (h : s.locate i ino name = .ok c) :
    ∃ r first, s.slot i = some r ∧ r.ino = ino ∧ r.body = .dir first ∧
      (s.chain first).find? (s.named name) = some c := by
  unfold locate at h
  cases hg : s.get i ino with
  | error e => simp only [hg, bind, Except.bind] at h; cases h
  | ok r =>
    obtain ⟨hr, hino⟩ := (get_eq_ok_iff s i ino r).mp hg
    simp only [hg, bind, Except.bind, findChild, children, pure, Except.pure] at h
    cases hb : r.body with
    | file d => simp only [hb] at h; cases h
    | dir first =>
      simp only [hb] at h
      split at h
      · rename_i c' hfind
        cases h
        exact ⟨r, first, hr, hino, hb, hfind⟩
      · cases h

/-- The slot `locate` finds is a live child of the directory, carrying the name. -/
theorem Valid.locate (hv : s.Valid) {i ino c : Nat} {name : String}
    (h : s.locate i ino name = .ok c) :
    c ∈ s.kids i ∧ ∃ r, s.slot c = some r ∧ r.name = name := by
  obtain ⟨r, first, hr, -, hb, hfind⟩ := locate_eq_ok h
  have hc : c ∈ s.kids i := kids_of_dir s hr hb ▸ List.mem_of_find?_eq_some hfind
  refine ⟨hc, ?_⟩
  obtain ⟨x, hx⟩ := Option.ne_none_iff_exists'.mp (hv.live_of_mem_kids hc)
  have hnamed := List.find?_some hfind
  simp only [named, hx, Option.any_some, beq_iff_eq] at hnamed
  exact ⟨x, hx, hnamed⟩

/-! ## The operations, reduced to the edits -/

theorem create_eq_ok {dir dirIno i ino : Nat} {name : String} {kind : NodeType}
    (h : s.create dir dirIno name kind = .ok (t, i, ino)) :
    GoodName name ∧ s.insert dir dirIno name kind = .ok (t, i, ino) := by
  unfold create at h
  cases hc : checkName name with
  | error e => simp only [hc, bind, Except.bind] at h; cases h
  | ok u =>
    cases u
    simp only [hc, bind, Except.bind] at h
    exact ⟨(checkName_eq_ok_iff name).mp hc, h⟩

/-- A successful unlink removed a child that is not a directory. -/
theorem unlink_eq_ok {i ino : Nat} {name : String} (h : s.unlink i ino name = .ok t) :
    ∃ c, s.locate i ino name = .ok c ∧ ¬ s.IsDir c ∧ s.remove c = .ok t := by
  unfold unlink at h
  cases hc : s.locate i ino name with
  | error e => simp only [hc, bind, Except.bind] at h; cases h
  | ok c =>
    simp only [hc, bind, Except.bind] at h
    refine ⟨c, rfl, fun ⟨r, first, hr, hb⟩ => ?_, ?_⟩
    · obtain ⟨_, _, _, _, body⟩ := r
      simp only at hb
      subst hb
      simp only [hr] at h
      cases h
    · split at h
      · cases h
      · exact h

/-- A successful rmdir removed a child that is an empty directory. -/
theorem rmdir_eq_ok {i ino : Nat} {name : String} (h : s.rmdir i ino name = .ok t) :
    ∃ c r, s.locate i ino name = .ok c ∧ s.slot c = some r ∧ r.body = .dir none ∧
      s.remove c = .ok t := by
  unfold rmdir at h
  cases hc : s.locate i ino name with
  | error e => simp only [hc, bind, Except.bind] at h; cases h
  | ok c =>
    simp only [hc, bind, Except.bind] at h
    split at h
    · rename_i ino' name' parent' next' hs
      exact ⟨c, _, rfl, hs, rfl, h⟩
    · cases h
    · cases h

/-- A slot that is not a directory with a child lists nothing. -/
theorem kids_eq_nil_of_leaf {i : Nat} (hleaf : ∀ r c, s.slot i = some r → r.body ≠ .dir (some c)) :
    s.kids i = [] := by
  cases hr : s.slot i with
  | none => exact kids_of_not_dir s fun ⟨_, _, hx, _⟩ => by rw [hr] at hx; cases hx
  | some r =>
    cases hb : r.body with
    | file d =>
      refine kids_of_not_dir s fun ⟨x, _, hx, hxb⟩ => ?_
      rw [hr] at hx
      cases hx
      rw [hb] at hxb
      cases hxb
    | dir first =>
      cases first with
      | none => rw [kids_of_dir s hr hb, chain_none]
      | some c => exact absurd hb (hleaf r c hr)

/-! ## Validity along a run -/

/-- The arena invariant holds of every fresh store, and resizing a file, inserting a name that
passes the name check, and removing a file or an empty directory keep it. -/
theorem valid_empty_and_preserved :
    (∀ heap budget, (empty heap budget).Valid) ∧
    (∀ (s t : Store) (i ino n : Nat) (g : Option Growth), s.Valid →
      s.resize i ino n = .ok (t, g) → t.Valid) ∧
    (∀ (s t : Store) (dir dirIno : Nat) (name : String) (kind : NodeType) (i ino : Nat),
      s.Valid → checkName name = .ok () → s.insert dir dirIno name kind = .ok (t, i, ino) →
        t.Valid) ∧
    (∀ (s t : Store) (i : Nat), s.Valid → (∀ r c, s.slot i = some r → r.body ≠ .dir (some c)) →
      s.remove i = .ok t → t.Valid) := by
  refine ⟨valid_empty, fun s t i ino n g hv h => hv.resize h, ?_, ?_⟩
  · intro s t dir dirIno name kind i ino hv hname h
    exact Valid.insert hv h ((checkName_eq_ok_iff name).mp hname)
  · intro s t i hv hleaf h
    exact Valid.remove hv h (kids_eq_nil_of_leaf hleaf)

/-- A first file under the root, and its removal. -/
theorem valid_first_file :
    checkName "a" = .ok () ∧ ∃ t, (empty .host 0).insert rootIndex 1 "a" .file = .ok (t, 1, 2) ∧
      t.Valid ∧ ∃ u, t.remove 1 = .ok u ∧ u.Valid := by
  have hname : checkName "a" = .ok () := by
    simp [checkName, Path.fits, Path.nameLimit]
    decide
  obtain ⟨-, -, hins, hrem⟩ := valid_empty_and_preserved
  have hv := hins (empty .host 0) _ rootIndex 1 "a" .file 1 2 (valid_empty .host 0) hname rfl
  refine ⟨hname, _, rfl, hv, _, rfl, ?_⟩
  refine hrem _ _ 1 hv (fun r c hr hb => ?_) rfl
  simp only [slot] at hr
  cases hr
  cases hb

/-- One successful operation of a memory store. -/
inductive Step : Store → Store → Prop where
  | create {s t : Store} {dir dirIno i ino : Nat} {name : String} {kind : NodeType} :
      s.create dir dirIno name kind = .ok (t, i, ino) → Step s t
  | unlink {s t : Store} {i ino : Nat} {name : String} : s.unlink i ino name = .ok t → Step s t
  | rmdir {s t : Store} {i ino : Nat} {name : String} : s.rmdir i ino name = .ok t → Step s t
  | resize {s t : Store} {i ino n : Nat} {g : Option Growth} :
      s.resize i ino n = .ok (t, g) → Step s t
  | writeAt {s t : Store} {i ino offset : Nat} {b : ByteArray} {g : Option Growth} :
      s.writeAt i ino offset b = .ok (t, g) → Step s t

/-- The stores a run of operations builds from a fresh store. -/
inductive Reachable : Store → Prop where
  | empty (heap : Allocator) (budget : Nat) : Reachable (empty heap budget)
  | step {s t : Store} : Reachable s → Step s t → Reachable t

/-- Every operation keeps a store valid. -/
theorem Valid.step (hv : s.Valid) (h : Step s t) : t.Valid := by
  cases h with
  | create h =>
    obtain ⟨hname, h⟩ := create_eq_ok h
    exact Valid.insert hv h hname
  | unlink h =>
    obtain ⟨c, -, hc, h⟩ := unlink_eq_ok h
    exact Valid.remove hv h (kids_of_not_dir s hc)
  | rmdir h =>
    obtain ⟨c, r, -, hr, hb, h⟩ := rmdir_eq_ok h
    exact Valid.remove hv h (by rw [kids_of_dir s hr hb, chain_none])
  | resize h => exact hv.resize h
  | writeAt h => exact hv.writeAt h

/-- Every store a run of operations builds is valid. -/
theorem Reachable.valid (h : s.Reachable) : s.Valid := by
  induction h with
  | empty heap budget => exact valid_empty heap budget
  | step _ hstep ih => exact ih.step hstep

end KernelFs.Memory.Store
