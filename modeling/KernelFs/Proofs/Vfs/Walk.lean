import KernelFs.Proofs.Vfs.Cursor
import KernelFs.Proofs.Vfs.Stale

/-!
# Resolution is a walk over the components

Resolving a path (`resolve`, src/crates/vfs/src/path.rs:50-68) reads the tree and changes nothing,
not even the notes, until its last step: asking a node for a child reads the store and, when the
store refuses, refuses without a warning (`quiet_find`). So a walk over a path's components is
decided by a pure descent through the state it starts in (`descend`): for each component in order, a
name longer than the limit is refused, the node is asked for the child, its error is passed on and a
found child is descended into. Only a descent that stops at a missing component can go on: when that
component is the last and the flags ask for creation, a note is written and the parent creates a
file; otherwise the walk fails as not found (`run_walk`).

The components of a path are its non-empty slash-free pieces, so `.` and `..` are names like any
other: the path that joins a list of such names has exactly those components
(`components_join`).

Results:
* `Store.lookup_eq_error`: a store refuses a lookup only for a missing view or name, or a view
  that is no directory.
* `quiet_lookupAt`, `quiet_make`, `quiet_find`, `quiet_lookup`: asking for a child changes
  nothing.
* `run_walk`, `run_resolve`: resolution is the descent, followed by at most one creation.
* `components_join`: joining names and taking the components back gives the names.
* `resolve_changes_only_by_creation`, `create_appends`: the one change a resolution makes is a
  file created under the parent of a missing last component, appended to its listing.
* `resolve_is_component_walk`: all of it together.
-/

namespace KernelFs.Memory.Store

variable {s : Store} {i ino : Nat} {name : String} {e : StoreError}

/-- A lookup is refused only because a view or a name is missing, or a view is no directory. -/
theorem lookup_eq_error (h : s.lookup i ino name = .error e) :
    e = .missing ∨ e = .notDirectory := by
  unfold lookup locate findChild children get at h
  cases hs : s.slot i with
  | none =>
    simp only [hs, bind, Except.bind] at h
    cases h
    exact .inl rfl
  | some r =>
    by_cases hino : r.ino = ino
    · cases hb : r.body with
      | file d =>
        simp only [hs, hino, hb, if_true, bind, Except.bind] at h
        cases h
        exact .inr rfl
      | dir first =>
        cases hf : (s.chain first).find? (s.named name) with
        | none =>
          simp only [hs, hino, hb, hf, if_true, bind, Except.bind, pure, Except.pure] at h
          cases h
          exact .inl rfl
        | some c =>
          cases hc : s.slot c with
          | none =>
            simp only [hs, hino, hb, hf, hc, if_true, bind, Except.bind, pure, Except.pure] at h
            cases h
            exact .inl rfl
          | some x => simp [hs, hino, hb, hf, hc, bind, Except.bind, pure, Except.pure] at h
    · simp only [hs, hino, if_false, bind, Except.bind] at h
      cases h
      exact .inl rfl

end KernelFs.Memory.Store

namespace KernelFs.Vfs

open Memory Backend

variable {α β : Type}

/-! ## Actions that change nothing -/

/-- An action that leaves the state as it found it, notes included. -/
def Quiet (act : VfsM α) : Prop := ∀ w, (act.run w).2 = w

theorem quiet_pure (a : α) : Quiet (pure a : VfsM α) := fun _ => rfl

theorem quiet_throw (e : FsError) : Quiet (throw e : VfsM α) := fun _ => rfl

theorem Quiet.bind {x : VfsM α} {f : α → VfsM β} (hx : Quiet x) (hf : ∀ a, Quiet (f a)) :
    Quiet (x >>= f) := by
  intro w
  have h := hx w
  rw [run_bind]
  rcases hr : x.run w with ⟨_ | a, w1⟩ <;> rw [hr] at h <;> dsimp only at h ⊢
  · exact h
  · rw [h]
    exact hf a w

theorem Quiet.ite {c : Prop} [Decidable c] {a b : VfsM α} (ha : Quiet a) (hb : Quiet b) :
    Quiet (if c then a else b) := by
  split
  · exact ha
  · exact hb

/-- A store lookup changes nothing: its refusals leave no warning. -/
theorem quiet_lookupAt (h : Handle) (name : String) : Quiet ((Handle.inode h).lookup name) := by
  intro w
  cases h with
  | memory i slot ino k =>
    show ((query i (·.lookup slot ino name) >>= fun r => pure (Handle.memory i r.1 r.2.1 r.2.2)).run
      w).2 = w
    cases hs : w.stores[i]? with
    | none => simp [query, storeAt, run_bind, hs]
    | some s =>
      cases hl : s.lookup slot ino name with
      | ok r => rw [run_bind_ok (run_query_ok hs hl)]; rfl
      | error e =>
        have he : e.warns = false := by
          rcases Store.lookup_eq_error hl with rfl | rfl <;> rfl
        rw [run_bind_error (run_query_quiet hs hl he)]
  | sample n => cases n <;> rfl
  | plainFile => rfl

theorem quiet_attempt {act : VfsM α} (h : Quiet act) : Quiet (Node.attempt act) := h

theorem quiet_make (name : String) (h : Handle) : Quiet (Node.make Handle.inode name h) := by
  unfold Node.make
  simp only [throw_bind]
  refine Quiet.ite (quiet_throw _) ?_
  exact Quiet.bind (stat_state h) fun _ => quiet_pure _

/-- Asking a node for a child changes nothing. -/
theorem quiet_find (n : Node Handle) (name : String) : Quiet (n.find Handle.inode name) := by
  unfold Node.find
  refine Quiet.ite (quiet_pure _) ?_
  refine (quiet_attempt (quiet_lookupAt n.inode name)).bind fun r => ?_
  split
  · exact (quiet_make name _).bind fun _ => quiet_pure _
  · exact quiet_pure _
  · exact quiet_pure _
  · exact quiet_throw _
/-! ## The descent -/

/-- Where a descent through the tree stops. -/
inductive Descent where
  /-- Every component was found: the node of the last one, or the start when there is none. -/
  | reached (n : Node Handle)
  /-- A component was too long, or asking for it failed. -/
  | failed (e : FsError)
  /-- The component `name` is missing under `parent`; `last` tells whether it is the last. -/
  | absent (parent : Node Handle) (name : String) (last : Bool)

/-- The descent from a node through the components, each child read from the state. -/
def descend (w : Vfs) (cur : Node Handle) : List String → Descent
  | [] => .reached cur
  | name :: rest =>
    if !Path.fits name then .failed .componentTooLong
    else
      match ((cur.find Handle.inode name).run w).1 with
      | .error e => .failed e
      | .ok (some c) => descend w c rest
      | .ok none => .absent cur name rest.isEmpty

/-- The note a walk writes before it creates a missing last component. -/
def creatingNote (parent : Node Handle) (name : String) : Note :=
  ⟨.debug, pathSource, ["vfs: creating '", name, "' under '", parent.name, "'"]⟩

/-- What a walk answers and leaves once its descent stopped: a missing last component is
created as a file when the flags ask for it, after a note. -/
def finish (flags : OpenFlags) (w : Vfs) : Descent → Except FsError (Node Handle) × Vfs
  | .reached n => (.ok n, w)
  | .failed e => (.error e, w)
  | .absent p name last =>
    if last && flags.creates then
      (p.create Handle.inode name .file).run
        { w with journal := w.journal.push (creatingNote p name) }
    else (.error .notFound, w)

/-- A walk is its descent through the state it starts in, followed by at most one creation. -/
theorem run_walk (flags : OpenFlags) (names : List String) :
    ∀ (cur : Node Handle) (w : Vfs),
      (walk flags cur names).run w = finish flags w (descend w cur names) := by
  induction names with
  | nil => intro cur w; rfl
  | cons name rest ih =>
    intro cur w
    simp only [walk, descend, throw_bind]
    by_cases hfit : Path.fits name = true
    · simp only [hfit, Bool.not_true, Bool.false_eq_true, if_false]
      rw [run_bind]
      -- asking for the child leaves the state as it was
      have hq := quiet_find cur name w
      rcases hf : (cur.find Handle.inode name).run w with ⟨e | r, w1⟩ <;> rw [hf] at hq <;>
        dsimp only at hq ⊢ <;> subst hq
      · rfl
      · cases r with
        | some c => exact ih c _
        | none =>
          dsimp only
          split
          · rename_i hlast
            rw [run_bind, run_liftM, run_note, finish, if_pos hlast]
            rfl
          · rename_i hlast
            rw [finish, if_neg hlast]
            rfl
    · simp only [Bool.not_eq_true] at hfit
      simp only [hfit, Bool.not_false, if_true]
      rfl

/-! ## Components -/

theorem components_of_relative {path : String} (h : ∀ rest, path.toList ≠ '/' :: rest) :
    Path.components path = .error .unsupportedOperation := by
  unfold Path.components
  split
  · rename_i rest hp
    exact absurd hp (h rest)
  · rfl

/-- The path that joins non-empty slash-free names has exactly those names as components, so
no name, `.` and `..` included, is dropped or read in any special way. -/
theorem components_join {names : List String} (h : ∀ n ∈ names, n ≠ "" ∧ '/' ∉ n.toList) :
    Path.components (Path.join names) = .ok names := by
  have htl : (Path.join names).toList = '/' :: ['/'].intercalate (names.map String.toList) := by
    simp [Path.join, String.toList_append, String.toList_intercalate]
  have hcomp : Path.components (Path.join names) =
      .ok (Path.pieces (['/'].intercalate (names.map String.toList))) := by
    unfold Path.components
    rw [htl]
    rfl
  rw [hcomp]
  congr 1
  unfold Path.pieces
  cases names with
  | nil => rfl
  | cons n ns =>
    have hslash : ∀ l ∈ (n :: ns).map String.toList, '/' ∉ l := by
      simp only [List.mem_map]
      rintro l ⟨m, hm, rfl⟩
      exact (h m hm).2
    rw [List.splitOn_intercalate '/' hslash (by simp)]
    -- every piece is non-empty, so none is filtered out
    have hne : ∀ l ∈ (n :: ns).map String.toList, (!l.isEmpty) = true := by
      simp only [List.mem_map]
      rintro l ⟨m, hm, rfl⟩
      simpa [String.toList_eq_nil_iff] using (h m hm).1
    rw [List.filter_eq_self.mpr hne, List.map_map]
    simp [Function.comp_def]

-- repeated and trailing slashes give no empty names; `.` and `..` stay names like any other
example : Path.components "/a/./../b//" = .ok ["a", ".", "..", "b"] := by decide

/-! ## Resolution -/

/-- Resolution is the descent through the components of the path, followed by at most one
creation; a path without components resolves to the root. -/
theorem run_resolve (root : Node Handle) (path : String) (flags : OpenFlags) (w : Vfs) :
    (resolve root path flags).run w =
      match Path.components path with
      | .error e => (.error e, w)
      | .ok names => finish flags w (descend w root names) := by
  unfold resolve
  rw [run_bind, run_ofExcept]
  cases Path.components path with
  | error e => rfl
  | ok names => exact run_walk flags names root w

/-- Without creation a descent's end leaves the state as it was. -/
theorem finish_state {flags : OpenFlags} (hc : flags.creates = false) (w : Vfs) (d : Descent) :
    (finish flags w d).2 = w := by
  cases d with
  | reached n => rfl
  | failed e => rfl
  | absent p name last =>
    rw [finish, if_neg (by simp [hc])]

theorem quiet_resolve (root : Node Handle) (path : String) {flags : OpenFlags}
    (hc : flags.creates = false) : Quiet (resolve root path flags) := by
  intro w
  rw [run_resolve]
  cases Path.components path with
  | error e => rfl
  | ok names => exact finish_state hc w _

theorem quiet_root : Quiet root := by
  intro w
  unfold root
  cases hm : w.mounted <;> simp [run_bind, hm]

/-- A lookup, which never creates, changes nothing. -/
theorem quiet_lookup (path : String) : Quiet (lookup path) :=
  quiet_root.bind fun r => quiet_resolve r path rfl

/-- A resolution that changes the state went down to a missing last component with flags that
ask for creation. -/
theorem resolve_changes_only_by_creation {root : Node Handle} {path : String}
    {flags : OpenFlags} {w : Vfs} (h : ((resolve root path flags).run w).2 ≠ w) :
    flags.creates = true ∧ ∃ names p name, Path.components path = .ok names ∧
      descend w root names = .absent p name true := by
  rw [run_resolve] at h
  cases hcomp : Path.components path with
  | error e => rw [hcomp] at h; exact absurd rfl h
  | ok names =>
    rw [hcomp] at h
    dsimp only at h
    cases hd : descend w root names with
    | reached n => rw [hd] at h; exact absurd rfl h
    | failed e => rw [hd] at h; exact absurd rfl h
    | absent p name last =>
      rw [hd] at h
      cases hcr : flags.creates
      · exact absurd (finish_state hcr w _) h
      · cases last
        · rw [finish, if_neg (by simp)] at h
          exact absurd rfl h
        · exact ⟨rfl, names, p, name, rfl, hd⟩

/-! ## Nodes that are no directory -/

theorem run_find_of_not_dir {n : Node Handle} (h : n.isDir = false) (name : String) (w : Vfs) :
    (n.find Handle.inode name).run w = (.ok none, w) := by
  simp [Node.find, h]

theorem run_create_of_not_dir {n : Node Handle} (h : n.isDir = false) (name : String)
    (kind : NodeType) (w : Vfs) :
    (n.create Handle.inode name kind).run w = (.error .notDirectory, w) := by
  simp [Node.create, h]

/-! ## The one creation -/

/-- A memory backend's successful creation writes back the store its operation gives, which lists
the new entry last under the parent and changes no other listing. -/
theorem run_create_memory_appends {i slot ino : Nat} {k kind : NodeType} {name : String}
    {w w1 : Vfs} {c : Handle} {s : Store} (hs : w.stores[i]? = some s) (hv : s.Valid)
    (hrun : ((memoryInode i slot ino k).create name kind).run w = (.ok c, w1)) :
    ∃ t cino, w1.stores = w.stores.modify i (fun _ => t) ∧
      ∀ q, t.listing q = if q = slot then s.listing slot ++ [⟨cino, name⟩] else s.listing q := by
  simp only [memoryInode] at hrun
  rw [run_query_bind] at hrun
  simp only [hs] at hrun
  cases hf : s.create slot ino name kind with
  | error e =>
    obtain ⟨journal, hj⟩ := run_refuse (α := Handle) e w
    simp only [hf, hj] at hrun
    cases hrun
  | ok p =>
    obtain ⟨t, c', cino⟩ := p
    simp only [hf, run_bind, run_putStore, run_liftM, run_note, run_pure] at hrun
    cases hrun
    exact ⟨t, cino, rfl, hv.listing_create hf⟩

/-- A view made under a name carries that name. -/
theorem make_name {name : String} {h : Handle} {nd : Node Handle} {w w' : Vfs}
    (hrun : (Node.make Handle.inode name h).run w = (.ok nd, w')) : nd.name = name := by
  unfold Node.make at hrun
  simp only [throw_bind] at hrun
  split at hrun
  · cases hrun
  rw [run_bind] at hrun
  rcases hst : ((Handle.inode h).stat).run w with ⟨e | m, w1⟩ <;> rw [hst] at hrun
  · cases hrun
  · cases hrun
    rfl

/-- A successful creation of a file: the parent is a memory directory whose store now lists
one more entry, of the new name, last under the parent, and no other listing or store changes;
the node answered is a file of that name. -/
theorem create_appends {p nd : Node Handle} {name : String} {w w' : Vfs} (hv : StoresValid w)
    (hrun : (p.create Handle.inode name .file).run w = (.ok nd, w')) :
    nd.name = name ∧ nd.kind = .file ∧
      ∃ st slot ino k s t cino, p.inode = .memory st slot ino k ∧ w.stores[st]? = some s ∧
        w'.stores = w.stores.modify st (fun _ => t) ∧
        ∀ q, t.listing q = if q = slot then s.listing slot ++ [⟨cino, name⟩] else s.listing q := by
  obtain ⟨_, _, _, _, -, hk, -⟩ := (run_create_file_ok hv hrun).file
  unfold Node.create at hrun
  simp only [throw_bind] at hrun
  split at hrun
  · cases hrun
  split at hrun
  · cases hrun
  split at hrun
  · cases hrun
  rw [run_bind] at hrun
  rcases hc : ((Handle.inode p.inode).create name .file).run w with ⟨e | c, w1⟩ <;>
    rw [hc] at hrun
  · cases hrun
  -- making the view reads the new child's metadata and changes nothing
  have hq := quiet_make name c w1
  dsimp only at hrun
  rw [hrun] at hq
  dsimp only at hq
  subst hq
  -- only a memory backend creates, and only in a store that exists
  cases hp : p.inode with
  | sample n => rw [hp] at hc; cases hc
  | plainFile => rw [hp] at hc; cases hc
  | memory st slot ino k =>
    rw [hp] at hc
    cases hs : w.stores[st]? with
    | none =>
      simp only [Handle.inode, memoryInode] at hc
      rw [run_query_bind, hs] at hc
      cases hc
    | some s =>
      obtain ⟨t, cino, hstores, hlist⟩ := run_create_memory_appends hs (hv st s hs) hc
      exact ⟨make_name hrun, hk, st, slot, ino, k, s, t, cino, rfl, hs, hstores, hlist⟩

/-! ## Resolution as a whole -/

/-- Resolution is the component walk, from every root, with every flags value, in every state.
A relative path is unsupported. Otherwise the path's components are walked in order: a
component longer than the limit is refused, the node is asked for the child, whose error is
passed on and which is descended into when found; a node that is no directory has no child,
and refuses a creation as no directory. A missing component ends the walk as not found, unless
it is the last and the flags ask for creation, when the parent creates a file. So resolution
depends on a path through its components alone, which keep every non-empty slash-free name;
it changes the state only when it went down to a missing last component with creation asked
for, and then, in valid stores, by one file entry appended under that parent; and a lookup
changes nothing. -/
theorem resolve_is_component_walk (root : Node Handle) (flags : OpenFlags) (w : Vfs) :
    (∀ path, (∀ rest, path.toList ≠ '/' :: rest) →
      (resolve root path flags).run w = (.error .unsupportedOperation, w)) ∧
    (∀ path names, Path.components path = .ok names →
      (resolve root path flags).run w = finish flags w (descend w root names)) ∧
    (∀ (n : Node Handle) name, n.isDir = false →
      (n.find Handle.inode name).run w = (.ok none, w)) ∧
    (∀ (n : Node Handle) name (w1 : Vfs), n.isDir = false →
      (n.create Handle.inode name .file).run w1 = (.error .notDirectory, w1)) ∧
    (∀ p q, Path.components p = Path.components q → resolve root p flags = resolve root q flags) ∧
    (∀ names : List String, (∀ n ∈ names, n ≠ "" ∧ '/' ∉ n.toList) →
      Path.components (Path.join names) = .ok names) ∧
    (∀ path, ((resolve root path flags).run w).2 ≠ w →
      flags.creates = true ∧ ∃ names p name, Path.components path = .ok names ∧
        descend w root names = .absent p name true) ∧
    (StoresValid w → ∀ path nd w', (resolve root path flags).run w = (.ok nd, w') →
      w'.stores ≠ w.stores →
      ∃ names p name, Path.components path = .ok names ∧
        descend w root names = .absent p name true ∧ nd.name = name ∧ nd.kind = .file ∧
        ∃ st slot ino k s t cino, p.inode = .memory st slot ino k ∧ w.stores[st]? = some s ∧
          w'.stores = w.stores.modify st (fun _ => t) ∧
          ∀ q, t.listing q = if q = slot then s.listing slot ++ [⟨cino, name⟩] else s.listing q) ∧
    (∀ path, ((lookup path).run w).2 = w) := by
  refine ⟨fun path hrel => ?_, fun path names h => ?_, fun n name h => run_find_of_not_dir h name w,
    fun n name w1 h => run_create_of_not_dir h name .file w1, fun p q h => ?_,
    fun names h => components_join h, fun path h => resolve_changes_only_by_creation h,
    fun hv path nd w' hrun hst => ?_, fun path => quiet_lookup path w⟩
  · rw [run_resolve, components_of_relative hrel]
  · rw [run_resolve, h]
  · simp only [resolve, h]
  · -- the stores changed, so the walk went down to a missing last component and created it
    have hne : ((resolve root path flags).run w).2 ≠ w := by
      rw [hrun]
      rintro rfl
      exact hst rfl
    obtain ⟨hcr, names, p, name, hcomp, hd⟩ := resolve_changes_only_by_creation hne
    rw [run_resolve, hcomp] at hrun
    dsimp only at hrun
    rw [hd, finish, if_pos (by simp [hcr])] at hrun
    have hv1 := (noted_journal w (w.journal.push (creatingNote p name))).storesValid hv
    obtain ⟨hname, hkind, st, slot, ino, k, s, t, cino, hp, hs, hstores, hlist⟩ :=
      create_appends hv1 hrun
    exact ⟨names, p, name, hcomp, hd, hname, hkind, st, slot, ino, k, s, t, cino, hp, hs, hstores,
      hlist⟩

end KernelFs.Vfs
