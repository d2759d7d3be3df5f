import KernelFs.Proofs.Vfs.Frame

/-!
# What resolving a path may change

Resolution (`resolve`, src/crates/vfs/src/path.rs:50-68) reads the tree and writes nothing but
notes, with one exception: flags that ask for creation make a missing last component, as an empty
memory file. A walk in a state whose stores are valid therefore ends in one of two ways
(`walk_outcome`): nothing but notes were written, or the walk created its last component and
succeeded with the new file. In particular a failed resolution wrote nothing but notes, and a
resolution that does not create is `Inert`.

A file made so can be cut to nothing: its store holds it empty, so a truncation to zero
succeeds (`truncate_created`). Opening relies on this to keep the creation from being followed
by a failure.

Results:
* `inert_walk`, `inert_resolve`, `inert_resolveParent`, `inert_root`, `inert_lookup`: reading
  the tree writes nothing but notes.
* `confined_walk`, `confined_resolve`: whatever its flags, a resolution changes only what the
  backends own.
* `walk_outcome`, `resolve_outcome`: what a creating resolution may do.
* `noted_of_resolve_error`: a failed resolution wrote nothing but notes.
-/

namespace KernelFs.Vfs

open Memory Backend

/-! ## Resolution without creation -/

/-- A walk whose flags do not ask for creation only reads the tree. -/
theorem inert_walk (flags : OpenFlags) (hc : flags.creates = false) (cur : Node Handle)
    (names : List String) : Inert (walk flags cur names) := by
  induction names generalizing cur with
  | nil => exact inert_pure cur
  | cons name rest ih =>
    simp only [walk, throw_bind]
    split
    · exact inert_throw _
    refine (inert_find cur name).bind fun r => ?_
    cases r with
    | some c => exact ih c
    | none =>
      dsimp only
      rw [if_neg (by simp [hc])]
      exact inert_throw _

/-- A walk changes only what the backends own, whatever its flags. -/
theorem confined_walk (flags : OpenFlags) (cur : Node Handle) (names : List String) :
    Confined (walk flags cur names) := by
  induction names generalizing cur with
  | nil => exact (inert_pure cur).confined
  | cons name rest ih =>
    simp only [walk, throw_bind]
    split
    · exact (inert_throw _).confined
    refine (inert_find cur name).confined.bind fun r => ?_
    cases r with
    | some c => exact ih c
    | none =>
      dsimp only
      split
      · exact (inert_note _ _ _).confined.bind fun _ => (create_changes cur name .file).1
      · exact (inert_throw _).confined

theorem confined_resolve (root : Node Handle) (path : String) (flags : OpenFlags) :
    Confined (resolve root path flags) :=
  (inert_ofExcept _).confined.bind fun names => confined_walk flags root names

theorem inert_resolve (root : Node Handle) (path : String) (flags : OpenFlags)
    (hc : flags.creates = false) : Inert (resolve root path flags) :=
  (inert_ofExcept _).bind fun names => inert_walk flags hc root names

theorem inert_resolveParent (root : Node Handle) (path : String) :
    Inert (resolveParent root path) := by
  unfold resolveParent
  refine (inert_ofExcept _).bind fun p => ?_
  refine (inert_resolve root _ _ rfl).bind fun d => ?_
  simp only [throw_bind]
  split
  · exact inert_throw _
  · exact inert_pure _

theorem inert_root : Inert root := by
  intro w
  unfold root
  cases hm : w.mounted <;> simp [run_bind, hm, Noted.refl]

theorem inert_lookup (path : String) : Inert (lookup path) :=
  inert_root.bind fun r => inert_resolve r path _ rfl

/-! ## Resolution that creates -/

/-- `w'` is `w` after a memory backend created the empty file `n`: the store was written back
with the file empty in it, and nothing else changed but notes. -/
structure CreatedFile (w w' : Vfs) (n : Node Handle) : Prop where
  backed : Backed w w'
  file : ∃ st slot ino t, n.inode = .memory st slot ino .file ∧ n.kind = .file ∧
    w'.stores[st]? = some t ∧ t.fileData slot ino = .ok .empty

theorem CreatedFile.of_noted {w1 w2 w3 : Vfs} {n : Node Handle} (h1 : Noted w1 w2)
    (h2 : CreatedFile w2 w3 n) : CreatedFile w1 w3 n :=
  ⟨h1.backed.trans h2.backed, h2.file⟩

/-- A successful creation of a file in a valid store made an empty memory file. -/
theorem run_create_file_ok {n nd : Node Handle} {name : String} {w w' : Vfs} (hv : StoresValid w)
    (hrun : (n.create Handle.inode name .file).run w = (.ok nd, w')) : CreatedFile w w' nd := by
  unfold Node.create at hrun
  simp only [throw_bind] at hrun
  split at hrun
  · cases hrun
  split at hrun
  · cases hrun
  split at hrun
  · cases hrun
  rename_i hfit
  rw [run_bind] at hrun
  rcases hc : ((Handle.inode n.inode).create name .file).run w with ⟨e | c, w1⟩ <;>
    rw [hc] at hrun
  · cases hrun
  · -- only a memory backend creates, and the new slot holds an empty file
    cases hh : n.inode with
    | sample s => rw [hh] at hc; cases hc
    | plainFile => rw [hh] at hc; cases hc
    | memory i slot ino k =>
      rw [hh] at hc
      obtain ⟨t, c', cino, body, rfl, ht, hbody, hslot, hback⟩ := run_create_memory_ok hv hc
      have hb : body = .file .empty := by simpa [Store.freshBody] using hbody.symm
      subst hb
      have hget : t.get c' cino = .ok ⟨cino, name, some slot, none, .file .empty⟩ :=
        (Store.get_eq_ok_iff t c' cino _).mpr ⟨hslot, rfl⟩
      have hq := run_query_ok (f := (·.stat c' cino)) ht (by simp [Store.stat, hget]; rfl)
      dsimp only at hrun
      rw [run_make_ok (h := .memory i c' cino .file) (by simpa using hfit) hq] at hrun
      cases hrun
      refine ⟨hback, i, c', cino, t, rfl, rfl, ht, ?_⟩
      exact (Store.fileData_eq_ok_iff t c' cino _).mpr ⟨_, hslot, rfl, rfl⟩

/-- A walk down a path in a state whose stores are valid writes nothing but notes, or, when the
flags ask for creation, creates its last component as an empty memory file and succeeds. -/
theorem walk_outcome (flags : OpenFlags) (names : List String) :
    ∀ (cur : Node Handle) (w : Vfs), StoresValid w →
      Noted w ((walk flags cur names).run w).2 ∨
      (flags.creates = true ∧ ∃ n, ((walk flags cur names).run w).1 = .ok n ∧
        CreatedFile w ((walk flags cur names).run w).2 n) := by
  induction names with
  | nil => exact fun cur w _ => .inl (Noted.refl w)
  | cons name rest ih =>
    intro cur w hv
    simp only [walk, throw_bind]
    split
    · exact .inl (Noted.refl w)
    rw [run_bind]
    have hfind := inert_find cur name w
    rcases hf : (cur.find Handle.inode name).run w with ⟨e | r, w1⟩ <;> rw [hf] at hfind
    · exact .inl hfind
    have hv1 := hfind.storesValid hv
    cases r with
    | some c =>
      -- the walk goes on from the child
      rcases ih c w1 hv1 with h | ⟨hcr, n, hn, hcreated⟩
      · exact .inl (hfind.trans h)
      · exact .inr ⟨hcr, n, hn, hcreated.of_noted hfind⟩
    | none =>
      dsimp only
      split
      · -- the last component is missing and the flags ask for it: a note, then the creation
        rename_i hlast
        simp only [Bool.and_eq_true] at hlast
        rw [run_bind, run_liftM, run_note]
        dsimp only
        have hn1 := noted_journal w1 (w1.journal.push ⟨.debug, pathSource,
          ["vfs: creating '", name, "' under '", cur.name, "'"]⟩)
        rcases hc : (cur.create Handle.inode name .file).run
            { w1 with journal := w1.journal.push ⟨.debug, pathSource,
              ["vfs: creating '", name, "' under '", cur.name, "'"]⟩ } with ⟨e | n, w2⟩
        · exact .inl ((hfind.trans hn1).trans
            ((create_changes cur name .file).2 _ _ _ (hn1.storesValid hv1) hc))
        · exact .inr ⟨hlast.2, n, rfl,
            (run_create_file_ok (hn1.storesValid hv1) hc).of_noted (hfind.trans hn1)⟩
      · exact .inl hfind

theorem resolve_outcome (root : Node Handle) (path : String) (flags : OpenFlags) {w : Vfs}
    (hv : StoresValid w) :
    Noted w ((resolve root path flags).run w).2 ∨
      (flags.creates = true ∧ ∃ n, ((resolve root path flags).run w).1 = .ok n ∧
        CreatedFile w ((resolve root path flags).run w).2 n) := by
  unfold resolve
  rw [run_bind, run_ofExcept]
  cases Path.components path with
  | error e => exact .inl (Noted.refl w)
  | ok names => exact walk_outcome flags names root w hv

/-- A failed resolution wrote nothing but notes. -/
theorem noted_of_resolve_error {root : Node Handle} {path : String} {flags : OpenFlags}
    {w w' : Vfs} {e : FsError} (hv : StoresValid w)
    (hrun : (resolve root path flags).run w = (.error e, w')) : Noted w w' := by
  rcases resolve_outcome root path flags hv with h | ⟨-, n, hn, -⟩ <;> rw [hrun] at *
  · exact h
  · cases hn

/-- A file just created can be cut to nothing: the truncation succeeds. -/
theorem truncate_created {w w1 : Vfs} {n : Node Handle} (h : CreatedFile w w1 n) :
    ∃ w2, (n.truncate Handle.inode 0).run w1 = (.ok ⟨⟩, w2) := by
  obtain ⟨st, slot, ino, t, hnd, hk, ht, hd⟩ := h.file
  have hout := Store.resize_outcome hd 0
  have htrunc := run_truncate_file ht hd hnd hk 0
  rcases h0 : t.resize slot ino 0 with e | ⟨t', g⟩ <;> rw [h0] at hout htrunc
  · exact absurd hout.2.1 (Nat.not_lt_zero _)
  · obtain ⟨journal, hrun⟩ := htrunc
    exact ⟨_, hrun⟩

end KernelFs.Vfs
