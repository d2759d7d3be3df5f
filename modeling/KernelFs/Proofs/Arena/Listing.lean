import Mathlib.Data.List.Nodup
import KernelFs.Proofs.Arena.Invariant

/-!
# Listings

A directory shows its children as entries, each an inode number and a name, oldest first (`readdir`
and `lookup`, src/crates/fs/src/memfs/inode.rs:411-430): `listing s d` reads the chain of slot `d`
that way. Everything a directory view answers is decided by its listing: the entry at a position,
the lookup of a name, whether an unlink, an rmdir or a creation succeeds and with which error it
fails. A creation appends to the listing and a removal deletes exactly the removed entry, whatever
slots earlier removals freed and later creations reused.

Results:
* `entryAt_eq_listing`: a view of a directory reads the listing's entry at each position, and
  none past its end.
* `lookup_eq_ok_iff`, `lookup_eq_missing_iff`: a lookup finds exactly the listed child of that
  name.
* `listing_create`, `listing_remove`: creation appends, removal erases.
* `Valid.unlink_outcome`, `Valid.rmdir_outcome`, `create_taken_iff`: the lookup of the name decides
  what unlink, rmdir and creation answer.
-/

namespace KernelFs.Memory

/-- The entry a record shows in its directory's listing. -/
def Record.entry (r : Record) : DirEntry := ⟨r.ino, r.name⟩

namespace Store

/-- The entry slot `c` shows, if it is live. -/
def entry (s : Store) (c : Nat) : Option DirEntry := (s.slot c).map Record.entry

/-- The listing of a directory slot: its children's entries, oldest first. -/
def listing (s : Store) (d : Nat) : List DirEntry := (s.kids d).filterMap s.entry

/-- A view of inode `n` in slot `d` is current: the slot still holds that inode. -/
def Current (s : Store) (d n : Nat) : Prop := ∃ r, s.slot d = some r ∧ r.ino = n

variable {s t : Store}

/-! ## Reading a listing -/

/-- Reading the entries of live slots position by position. -/
theorem getElem?_filterMap_entry {l : List Nat} (hl : ∀ c ∈ l, s.slot c ≠ none) (k : Nat) :
    (l.filterMap s.entry)[k]? = l[k]?.bind s.entry := by
  induction l generalizing k with
  | nil => simp
  | cons c l ih =>
    obtain ⟨x, hx⟩ := Option.ne_none_iff_exists'.mp (hl c List.mem_cons_self)
    have hc : s.entry c = some x.entry := by simp [entry, hx]
    rw [List.filterMap_cons, hc]
    cases k with
    | zero => simp [hc]
    | succ k => simpa using ih (fun c' hc' => hl c' (List.mem_cons_of_mem _ hc')) k

/-- A listing is no longer than the arena. -/
theorem Valid.length_listing_le (hv : s.Valid) (d : Nat) : (s.listing d).length ≤ s.slots.size := by
  obtain ⟨first, hc⟩ := hv.kids_chain d
  exact Nat.le_trans (List.length_filterMap_le _ _) hc.length_le

/-- A current view of a directory reads, at each position, the listing's entry there, and
nothing past the end. -/
theorem Valid.entryAt_eq_listing (hv : s.Valid) {d n : Nat} (hcur : s.Current d n)
    (hdir : s.IsDir d) (k : Nat) : s.entryAt d n k = .ok (s.listing d)[k]? := by
  obtain ⟨r, hr, hino⟩ := hcur
  obtain ⟨r', first, hr', hb⟩ := hdir
  rw [hr] at hr'
  cases hr'
  have hget : s.get d n = .ok r := (get_eq_ok_iff s d n r).mpr ⟨hr, hino⟩
  have hkids := kids_of_dir s hr hb
  unfold entryAt
  simp only [hget, bind, Except.bind, children, hb, pure, Except.pure, Except.ok.injEq]
  rw [listing, getElem?_filterMap_entry (fun c hc => hv.live_of_mem_kids hc), hkids]
  cases (s.chain first)[k]? with
  | none => rfl
  | some c => rfl

/-! ## Finding a name -/

theorem named_iff (s : Store) (name : String) (c : Nat) :
    s.named name c = true ↔ s.nameAt c = some name := by
  unfold named nameAt
  cases s.slot c <;> simp

/-- Two children of a directory with the same name are the same slot. -/
theorem Valid.eq_of_named (hv : s.Valid) {d c c' : Nat} {name : String} (hc : c ∈ s.kids d)
    (hc' : c' ∈ s.kids d) (h : s.named name c = true) (h' : s.named name c' = true) : c = c' :=
  List.inj_on_of_nodup_map (hv.names d) hc hc'
    (((named_iff s name c).mp h).trans ((named_iff s name c').mp h').symm)

theorem lookup_of_locate {d n c : Nat} {name : String} {x : Record}
    (hloc : s.locate d n name = .ok c) (hx : s.slot c = some x) :
    s.lookup d n name = .ok (c, x.ino, x.kind) := by
  simp [lookup, hloc, hx, bind, Except.bind, pure, Except.pure]

theorem lookup_of_locate_error {d n : Nat} {name : String} {e : StoreError}
    (hloc : s.locate d n name = .error e) : s.lookup d n name = .error e := by
  simp [lookup, hloc, bind, Except.bind]

section Current

variable (hv : s.Valid) {d n : Nat} (hcur : s.Current d n) (hdir : s.IsDir d) (name : String)
include hv hcur hdir

omit hv in
/-- The search a current view of a directory makes for a name: the first child that carries
it. -/
theorem locate_eq_find : ∃ first, s.kids d = s.chain first ∧
    s.locate d n name = match (s.kids d).find? (s.named name) with
      | some c => .ok c
      | none => .error .missing := by
  obtain ⟨r, hr, hino⟩ := hcur
  obtain ⟨r', first, hr', hb⟩ := hdir
  rw [hr] at hr'
  cases hr'
  have hget : s.get d n = .ok r := (get_eq_ok_iff s d n r).mpr ⟨hr, hino⟩
  refine ⟨first, kids_of_dir s hr hb, ?_⟩
  rw [kids_of_dir s hr hb]
  unfold locate
  simp only [hget, bind, Except.bind, findChild, children, hb, pure, Except.pure]
  cases (s.chain first).find? (s.named name) <;> rfl

/-- A current view of a directory locates exactly the listed child of the name. -/
theorem Valid.locate_eq_ok_iff {c : Nat} :
    s.locate d n name = .ok c ↔ c ∈ s.kids d ∧ s.named name c = true := by
  obtain ⟨first, -, hloc⟩ := locate_eq_find hcur hdir name
  rw [hloc]
  constructor
  · intro h
    split at h
    · rename_i c' hfind
      cases h
      exact ⟨List.mem_of_find?_eq_some hfind, List.find?_some hfind⟩
    · cases h
  · rintro ⟨hc, hnamed⟩
    -- the search finds some child of that name, and names are distinct in a listing
    obtain ⟨c', hfind⟩ := Option.isSome_iff_exists.mp (List.find?_isSome.mpr ⟨c, hc, hnamed⟩)
    rw [hfind, hv.eq_of_named (List.mem_of_find?_eq_some hfind) hc (List.find?_some hfind) hnamed]

omit hv in
theorem locate_eq_missing_iff :
    s.locate d n name = .error .missing ↔ ∀ c ∈ s.kids d, s.named name c = false := by
  obtain ⟨first, -, hloc⟩ := locate_eq_find hcur hdir name
  rw [hloc]
  constructor
  · intro h c hc
    split at h
    · cases h
    · rename_i hfind
      simpa using List.find?_eq_none.mp hfind c hc
  · intro h
    rw [List.find?_eq_none.mpr fun c hc => by simp [h c hc]]

omit hv in
/-- A current view of a directory locates a name or finds it missing. -/
theorem locate_ok_or_missing :
    (∃ c, s.locate d n name = .ok c) ∨ s.locate d n name = .error .missing := by
  obtain ⟨first, -, hloc⟩ := locate_eq_find hcur hdir name
  rw [hloc]
  split
  · exact .inl ⟨_, rfl⟩
  · exact .inr rfl

/-- A lookup finds exactly the listed child of the name, with its number and kind. -/
theorem Valid.lookup_eq_ok_iff {c cino : Nat} {k : NodeType} :
    s.lookup d n name = .ok (c, cino, k) ↔
      c ∈ s.kids d ∧ ∃ x, s.slot c = some x ∧ x.name = name ∧ x.ino = cino ∧ x.kind = k := by
  constructor
  · intro h
    rcases locate_ok_or_missing hcur hdir name with ⟨c', hloc⟩ | hloc
    · obtain ⟨hc', hnamed⟩ := (hv.locate_eq_ok_iff hcur hdir name).mp hloc
      obtain ⟨x, hx⟩ := Option.ne_none_iff_exists'.mp (hv.live_of_mem_kids hc')
      rw [lookup_of_locate hloc hx] at h
      cases h
      exact ⟨hc', x, hx, by simpa [named, hx] using hnamed, rfl, rfl⟩
    · rw [lookup_of_locate_error hloc] at h
      cases h
  · rintro ⟨hc, x, hx, hname, rfl, rfl⟩
    have hloc := (hv.locate_eq_ok_iff hcur hdir name).mpr ⟨hc, by simp [named, hx, hname]⟩
    exact lookup_of_locate hloc hx

/-- A lookup misses exactly when no entry of the listing carries the name. -/
theorem Valid.lookup_eq_missing_iff :
    s.lookup d n name = .error .missing ↔ ∀ e ∈ s.listing d, e.name ≠ name := by
  have hentry : ∀ c ∈ s.kids d, s.named name c = false ↔
      ∀ e, s.entry c = some e → e.name ≠ name := by
    intro c hc
    obtain ⟨x, hx⟩ := Option.ne_none_iff_exists'.mp (hv.live_of_mem_kids hc)
    simp [named, entry, hx, Record.entry]
  constructor
  · intro h e he
    rcases locate_ok_or_missing hcur hdir name with ⟨c, hloc⟩ | hloc
    · obtain ⟨hc, -⟩ := (hv.locate_eq_ok_iff hcur hdir name).mp hloc
      obtain ⟨x, hx⟩ := Option.ne_none_iff_exists'.mp (hv.live_of_mem_kids hc)
      rw [lookup_of_locate hloc hx] at h
      cases h
    · obtain ⟨c, hc, hce⟩ := List.mem_filterMap.mp he
      exact (hentry c hc).mp ((locate_eq_missing_iff hcur hdir name).mp hloc c hc) e hce
  · intro h
    refine lookup_of_locate_error ((locate_eq_missing_iff hcur hdir name).mpr fun c hc => ?_)
    refine (hentry c hc).mpr fun e hce => h e ?_
    exact List.mem_filterMap.mpr ⟨c, hc, hce⟩

/-- The listing holds an entry exactly when a lookup of its name finds it. -/
theorem Valid.mem_listing_iff_lookup {m : Nat} :
    (⟨m, name⟩ : DirEntry) ∈ s.listing d ↔ ∃ c k, s.lookup d n name = .ok (c, m, k) := by
  constructor
  · intro he
    obtain ⟨c, hc, hce⟩ := List.mem_filterMap.mp he
    obtain ⟨x, hx, hxe⟩ := Option.map_eq_some_iff.mp hce
    simp only [Record.entry, DirEntry.mk.injEq] at hxe
    exact ⟨c, x.kind, (hv.lookup_eq_ok_iff hcur hdir name).mpr ⟨hc, x, hx, hxe.2, hxe.1, rfl⟩⟩
  · rintro ⟨c, k, h⟩
    obtain ⟨hc, x, hx, hname, hino, -⟩ := (hv.lookup_eq_ok_iff hcur hdir name).mp h
    exact List.mem_filterMap.mpr ⟨c, hc, by simp [entry, hx, Record.entry, hname, hino]⟩

end Current

/-! ## Creating and removing -/

/-- Two live slots that show the same entry are the same slot: inode numbers are distinct. -/
theorem Valid.eq_of_entry (hv : s.Valid) {i j : Nat} {e : DirEntry} (hj : s.entry j = some e)
    (hi : s.entry i = some e) : j = i := by
  obtain ⟨x, hx, rfl⟩ := Option.map_eq_some_iff.mp hj
  obtain ⟨y, hy, hxy⟩ := Option.map_eq_some_iff.mp hi
  exact hv.inoInj j i x y hx hy (congrArg DirEntry.ino hxy).symm

/-- Erasing a slot from a list of slots erases its entry from their entries, when no other
slot of the list shows that entry. -/
theorem filterMap_erase_entry {l : List Nat} {i : Nat} {e : DirEntry} (hi : s.entry i = some e)
    (hother : ∀ j ∈ l, j ≠ i → s.entry j ≠ some e) :
    (l.erase i).filterMap s.entry = (l.filterMap s.entry).erase e := by
  induction l with
  | nil => rfl
  | cons a l ih =>
    have ih' := ih fun j hj hji => hother j (List.mem_cons_of_mem _ hj) hji
    by_cases hai : a = i
    · subst hai
      rw [List.erase_cons_head, List.filterMap_cons, hi]
      simp
    · rw [List.erase_cons_tail (by simpa using hai), List.filterMap_cons, List.filterMap_cons]
      cases ha : s.entry a with
      | none => exact ih'
      | some y =>
        have hye : y ≠ e := fun hy => hother a List.mem_cons_self hai (hy ▸ ha)
        rw [List.erase_cons_tail (by simpa using hye), ih']

section Insert

variable (hv : s.Valid) {dir dirIno : Nat} {name : String} {kind : NodeType} {i ino : Nat}
  (h : s.insert dir dirIno name kind = .ok (t, i, ino))
include hv h

theorem entry_insert_of_ne {j : Nat} (hj : j ≠ i) : t.entry j = s.entry j := by
  obtain ⟨g, hg, -, -, hs⟩ := slot_insert_of_ne hv h hj
  unfold entry
  rw [hs]
  cases s.slot j with
  | none => rfl
  | some x => simp [Record.entry, (hg x).1, (hg x).2.1]

/-- An insertion appends the new entry to its directory's listing, whatever slot the record
took, and leaves every other listing as it was. -/
theorem listing_insert (q : Nat) :
    t.listing q = if q = dir then s.listing dir ++ [⟨ino, name⟩] else s.listing q := by
  have hkeep : ∀ q, (s.kids q).filterMap t.entry = s.listing q := fun q =>
    List.filterMap_congr fun j hj =>
      entry_insert_of_ne hv h (ne_of_insert hv h (hv.live_of_mem_kids hj))
  show (t.kids q).filterMap t.entry = _
  rw [kids_insert hv h]
  split
  · obtain ⟨body, -, -, hti⟩ := slot_insert_self hv h
    rw [List.filterMap_append, hkeep]
    simp [entry, hti, Record.entry]
  · exact hkeep q

end Insert

/-- A creation appends the new entry to its directory's listing and leaves every other listing
as it was. -/
theorem Valid.listing_create (hv : s.Valid) {dir dirIno : Nat} {name : String} {kind : NodeType}
    {i ino : Nat} (h : s.create dir dirIno name kind = .ok (t, i, ino)) (q : Nat) :
    t.listing q = if q = dir then s.listing dir ++ [⟨ino, name⟩] else s.listing q :=
  listing_insert hv (create_eq_ok h).2 q

section Remove

variable (hv : s.Valid) {i : Nat} (h : s.remove i = .ok t)
include hv h

theorem entry_remove_of_ne {j : Nat} (hj : j ≠ i) : t.entry j = s.entry j := by
  obtain ⟨g, hg, hs⟩ := slot_remove_of_ne hv h hj
  unfold entry
  rw [hs]
  cases s.slot j with
  | none => rfl
  | some x => simp [Record.entry, hg.ino x, hg.name x]

/-- A removal erases the removed slot's entry from every other listing, and nothing else. -/
theorem listing_remove {e : DirEntry} (he : s.entry i = some e) {q : Nat} (hq : q ≠ i) :
    t.listing q = (s.listing q).erase e := by
  have hnd := hv.kids_nodup q
  show (t.kids q).filterMap t.entry = _
  rw [(kids_chain_remove hv h hq).1]
  rw [List.filterMap_congr fun j hj => entry_remove_of_ne hv h ((hnd.mem_erase_iff.mp hj).1)]
  exact filterMap_erase_entry he fun j _ hji hj => hji (hv.eq_of_entry hj he)

/-- Removing a slot that lists nothing erases its entry from every listing. -/
theorem listing_remove_leaf {e : DirEntry} (he : s.entry i = some e) (hleaf : s.kids i = [])
    (q : Nat) : t.listing q = (s.listing q).erase e := by
  by_cases hq : q = i
  · subst hq
    show (t.kids q).filterMap t.entry = (s.kids q |>.filterMap s.entry).erase e
    rw [kids_remove hv h, if_pos rfl, hleaf]
    rfl
  · exact listing_remove hv h he hq

end Remove

/-- A successful unlink removed the looked-up file: every listing loses exactly its entry. -/
theorem Valid.listing_unlink (hv : s.Valid) {d n : Nat} {name : String}
    (h : s.unlink d n name = .ok t) : ∃ c cino, s.lookup d n name = .ok (c, cino, .file) ∧
      ∀ q, t.listing q = (s.listing q).erase ⟨cino, name⟩ := by
  obtain ⟨c, hloc, hnd, hrem⟩ := unlink_eq_ok h
  obtain ⟨r, first, hr, -, hb, hfind⟩ := locate_eq_ok hloc
  have hc : c ∈ s.kids d := kids_of_dir s hr hb ▸ List.mem_of_find?_eq_some hfind
  obtain ⟨x, hx⟩ := Option.ne_none_iff_exists'.mp (hv.live_of_mem_kids hc)
  have hname : x.name = name := by simpa [named, hx] using List.find?_some hfind
  have hkind : x.kind = .file := by
    cases hxb : x.body with
    | file data => simp [Record.kind, hxb]
    | dir f => exact absurd ⟨x, f, hx, hxb⟩ hnd
  refine ⟨c, x.ino, hkind ▸ lookup_of_locate hloc hx, ?_⟩
  have he : s.entry c = some ⟨x.ino, name⟩ := by simp [entry, hx, Record.entry, hname]
  exact listing_remove_leaf hv hrem he (kids_of_not_dir s hnd)

/-- A successful rmdir removed the looked-up empty directory: every listing loses exactly its
entry. -/
theorem Valid.listing_rmdir (hv : s.Valid) {d n : Nat} {name : String}
    (h : s.rmdir d n name = .ok t) : ∃ c cino, s.lookup d n name = .ok (c, cino, .directory) ∧
      s.listing c = [] ∧ ∀ q, t.listing q = (s.listing q).erase ⟨cino, name⟩ := by
  obtain ⟨c, x, hloc, hx, hxb, hrem⟩ := rmdir_eq_ok h
  obtain ⟨r, first, hr, -, hb, hfind⟩ := locate_eq_ok hloc
  have hname : x.name = name := by simpa [named, hx] using List.find?_some hfind
  have hleaf : s.kids c = [] := by rw [kids_of_dir s hx hxb, chain_none]
  refine ⟨c, x.ino, by simpa [Record.kind, hxb] using lookup_of_locate hloc hx,
    by simp [listing, hleaf], ?_⟩
  have he : s.entry c = some ⟨x.ino, name⟩ := by simp [entry, hx, Record.entry, hname]
  exact listing_remove_leaf hv hrem he hleaf

/-! ## What the name decides -/

theorem named_iff_entry (s : Store) (name : String) (c : Nat) :
    s.named name c = true ↔ ∃ e, s.entry c = some e ∧ e.name = name := by
  unfold named entry
  cases s.slot c <;> simp [Record.entry]

/-- Some child of a list carries a name exactly when one of their entries does. -/
theorem exists_named_iff (s : Store) (name : String) (l : List Nat) :
    (∃ c ∈ l, s.named name c = true) ↔ ∃ e ∈ l.filterMap s.entry, e.name = name := by
  constructor
  · rintro ⟨c, hc, hnamed⟩
    obtain ⟨e, he, hname⟩ := (named_iff_entry s name c).mp hnamed
    exact ⟨e, List.mem_filterMap.mpr ⟨c, hc, he⟩, hname⟩
  · rintro ⟨e, he, hname⟩
    obtain ⟨c, hc, hce⟩ := List.mem_filterMap.mp he
    exact ⟨c, hc, (named_iff_entry s name c).mpr ⟨e, hce, hname⟩⟩

/-- A creation succeeds only under a name no entry of the directory's listing carries. -/
theorem create_fresh_name {dir dirIno i ino : Nat} {name : String} {kind : NodeType}
    (h : s.create dir dirIno name kind = .ok (t, i, ino)) :
    ∀ e ∈ s.listing dir, e.name ≠ name := by
  obtain ⟨r, first, -, hr, -, hb, hfind, -⟩ := insert_eq_ok (create_eq_ok h).2
  intro e he hname
  have hnone := List.find?_eq_none.mp hfind
  obtain ⟨c, hc, hnamed⟩ := (exists_named_iff s name (s.kids dir)).mpr ⟨e, he, hname⟩
  rw [kids_of_dir s hr hb] at hc
  exact hnone c hc hnamed

section Outcome

variable (hv : s.Valid) {d n : Nat} (name : String)
include hv

/-- What unlink answers is what the lookup of the name decides: a file is removed, a directory
is refused, and a failed lookup fails unlink the same way. -/
theorem Valid.unlink_outcome :
    match s.lookup d n name with
    | .ok (_, _, .directory) => s.unlink d n name = .error .isDirectory
    | .ok _ => ∃ t, s.unlink d n name = .ok t
    | .error e => s.unlink d n name = .error e := by
  cases hloc : s.locate d n name with
  | error e =>
    rw [lookup_of_locate_error hloc]
    simp [unlink, hloc, bind, Except.bind]
  | ok c =>
    obtain ⟨r, first, hr, -, hb, hfind⟩ := locate_eq_ok hloc
    have hc : c ∈ s.kids d := kids_of_dir s hr hb ▸ List.mem_of_find?_eq_some hfind
    obtain ⟨x, hx⟩ := Option.ne_none_iff_exists'.mp (hv.live_of_mem_kids hc)
    rw [lookup_of_locate hloc hx]
    obtain ⟨ino', name', parent', next', body⟩ := x
    cases body with
    | dir f =>
      simp [unlink, hloc, hx, bind, Except.bind, Record.kind]
      rfl
    | file data =>
      obtain ⟨t, ht⟩ := hv.remove_ok hc
      refine ⟨t, ?_⟩
      simp [unlink, hloc, hx, bind, Except.bind, ht]

/-- What rmdir answers is what the lookup of the name decides: an empty directory is removed,
one with children is refused as not empty, anything else as no directory, and a failed lookup
fails rmdir the same way. -/
theorem Valid.rmdir_outcome :
    match s.lookup d n name with
    | .ok (c, _, .directory) =>
      if s.listing c = [] then ∃ t, s.rmdir d n name = .ok t
      else s.rmdir d n name = .error .notEmpty
    | .ok _ => s.rmdir d n name = .error .notDirectory
    | .error e => s.rmdir d n name = .error e := by
  cases hloc : s.locate d n name with
  | error e =>
    rw [lookup_of_locate_error hloc]
    simp [rmdir, hloc, bind, Except.bind]
  | ok c =>
    obtain ⟨r, first, hr, -, hb, hfind⟩ := locate_eq_ok hloc
    have hc : c ∈ s.kids d := kids_of_dir s hr hb ▸ List.mem_of_find?_eq_some hfind
    obtain ⟨x, hx⟩ := Option.ne_none_iff_exists'.mp (hv.live_of_mem_kids hc)
    rw [lookup_of_locate hloc hx]
    obtain ⟨ino', name', parent', next', body⟩ := x
    cases body with
    | file data =>
      simp [rmdir, hloc, hx, bind, Except.bind, Record.kind]
      rfl
    | dir f =>
      cases f with
      | none =>
        have hnil : s.listing c = [] := by simp [listing, kids_of_dir s hx rfl, chain_none]
        simp only [Record.kind, hnil, if_true]
        obtain ⟨t, ht⟩ := hv.remove_ok hc
        exact ⟨t, by simp [rmdir, hloc, hx, bind, Except.bind, ht]⟩
      | some y =>
        -- the chain from the oldest child starts with a live slot
        have hne : s.listing c ≠ [] := by
          obtain ⟨rest, hk, hy, -⟩ := (hv.chain c _ (some y) hx rfl).of_some
          obtain ⟨z, hz⟩ := Option.ne_none_iff_exists'.mp hy
          simp [listing, hk, entry, hz]
        simp only [Record.kind, hne, if_false]
        simp [rmdir, hloc, hx, bind, Except.bind]
        rfl

end Outcome

/-- A creation under a well-formed name is refused as taken exactly when an entry of the
directory's listing carries the name. -/
theorem create_taken_iff {d n : Nat} (hcur : s.Current d n) (hdir : s.IsDir d)
    {name : String} (hname : GoodName name) (kind : NodeType) :
    s.create d n name kind = .error .taken ↔ ∃ e ∈ s.listing d, e.name = name := by
  obtain ⟨r, hr, hino⟩ := hcur
  obtain ⟨r', first, hr', hb⟩ := hdir
  rw [hr] at hr'
  cases hr'
  have hget : s.get d n = .ok r := (get_eq_ok_iff s d n r).mpr ⟨hr, hino⟩
  have hcheck : checkName name = .ok () := (checkName_eq_ok_iff name).mpr hname
  -- the creation is refused as taken exactly when the search for the name finds a child
  have htaken : s.create d n name kind = .error .taken ↔
      ((s.kids d).find? (s.named name)).isSome := by
    rw [kids_of_dir s hr hb]
    unfold create Store.insert
    simp only [hcheck, hget, bind, Except.bind, findChild, children, hb, pure, Except.pure]
    split
    · rename_i hsome
      exact iff_of_true rfl hsome
    · rename_i hnone
      refine iff_of_false ?_ hnone
      cases hk : freshBody kind with
      | error e =>
        have hbad : e = .badKind := by
          cases kind <;> simp [freshBody] at hk <;> exact hk.symm
        simp [hbad]
      | ok body =>
        -- a refused slot is refused as no slot
        cases ha : s.allocSlot ⟨s.nextIno, name, some d, none, body⟩ with
        | error e => simp [ha, (allocSlot_eq_error ha).1]
        | ok p => simp [ha]
  rw [htaken, List.find?_isSome, listing]
  exact exists_named_iff s name (s.kids d)

end Store

end KernelFs.Memory
