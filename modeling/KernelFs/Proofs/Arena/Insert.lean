import KernelFs.Proofs.Arena.Edit

/-!
# Adding a child

`insert` (`InodeTable::insert`, src/crates/fs/src/memfs/inode.rs:166-209) checks the directory view
and the name, places the new record in a free or a new slot under the next inode number, and links
it after the youngest child. Everything below is derived from `insert_eq_ok`, which says once what a
successful insertion did.

Results:
* `kids_insert`: the directory's listing gains the new slot at its end; every other listing is
  as it was, whatever slot the new record reused.
* `Valid.insert`: inserting a well-formed name keeps the store valid.
-/

namespace KernelFs.Memory.Store

theorem get_eq_ok_iff (s : Store) (i ino : Nat) (r : Record) :
    s.get i ino = .ok r ↔ s.slot i = some r ∧ r.ino = ino := by
  unfold get
  cases h : s.slot i with
  | none => simp
  | some r' =>
    by_cases hr : r'.ino = ino
    · simp only [hr, if_true, Except.ok.injEq, Option.some.injEq]
      constructor
      · rintro rfl; exact ⟨rfl, hr⟩
      · rintro ⟨rfl, -⟩; rfl
    · simp only [hr, if_false, reduceCtorEq, Option.some.injEq, false_iff, not_and]
      rintro rfl
      exact hr

theorem freshBody_eq_ok {kind : NodeType} {body : Body} (h : freshBody kind = .ok body) :
    body = .file .empty ∨ body = .dir none := by
  cases kind <;> simp [freshBody] at h <;> simp [h]

/-- What a successful insertion did. -/
theorem insert_eq_ok {s t : Store} {dir dirIno : Nat} {name : String} {kind : NodeType}
    {i ino : Nat} (h : s.insert dir dirIno name kind = .ok (t, i, ino)) :
    ∃ r first body, s.slot dir = some r ∧ r.ino = dirIno ∧ r.body = .dir first ∧
      (s.chain first).find? (s.named name) = none ∧ freshBody kind = .ok body ∧
      ino = s.nextIno ∧ i = (s.place ⟨ino, name, some dir, none, body⟩).2 ∧
      t = (s.place ⟨ino, name, some dir, none, body⟩).1.counted.linkAfter dir
        (s.chain first).getLast? i := by
  unfold insert at h
  cases hg : s.get dir dirIno with
  | error e => simp only [hg, bind, Except.bind] at h; cases h
  | ok r =>
    obtain ⟨hr, hino⟩ := (get_eq_ok_iff s dir dirIno r).mp hg
    simp only [hg, bind, Except.bind, findChild, children, pure, Except.pure] at h
    cases hb : r.body with
    | file d => simp only [hb] at h; cases h
    | dir first =>
      simp only [hb] at h
      split at h
      · cases h
      · rename_i hfind
        cases hk : freshBody kind with
        | error e => simp only [hk] at h; cases h
        | ok body =>
          simp only [hk] at h
          cases ha : s.allocSlot ⟨s.nextIno, name, some dir, none, body⟩ with
          | error e => rw [ha] at h; cases h
          | ok p =>
            rw [ha, allocSlot_eq_ok ha] at h
            simp only [Except.ok.injEq, Prod.mk.injEq] at h
            obtain ⟨rfl, rfl, rfl⟩ := h
            refine ⟨r, first, body, hr, hino, hb, ?_, rfl, rfl, rfl, rfl⟩
            simpa using hfind

theorem chain_none (s : Store) : s.chain none = [] := by
  unfold chain
  cases s.slots.size <;> rfl

theorem firstChild_eq_of_map {s t : Store} {q : Nat} {g : Record → Record}
    (hq : t.slot q = (s.slot q).map g) (hg : ∀ x, (g x).body = x.body) :
    t.firstChild q = s.firstChild q := by
  unfold firstChild
  rw [hq]
  cases s.slot q with
  | none => rfl
  | some x => simp only [Option.map_some, hg x]

section Insert

variable {s t : Store} {dir dirIno : Nat} {name : String} {kind : NodeType} {i ino : Nat}
  (hv : s.Valid) (h : s.insert dir dirIno name kind = .ok (t, i, ino))
include hv h

/-- A successful insertion puts the new record in a slot that held nothing, counts it, and
links it after the youngest child. -/
theorem insert_shape :
    ∃ (r : Record) (first : Option Nat) (body : Body) (u : Store), s.slot dir = some r ∧
      r.ino = dirIno ∧ r.body = .dir first ∧
      (s.chain first).find? (s.named name) = none ∧ freshBody kind = .ok body ∧
      ino = s.nextIno ∧ s.slot i = none ∧
      (∀ j, u.slot j = if j = i then some ⟨ino, name, some dir, none, body⟩ else s.slot j) ∧
      t = u.counted.linkAfter dir (s.chain first).getLast? i := by
  obtain ⟨r, first, body, hr, hino, hb, hfind, hk, hino', hi, ht⟩ := insert_eq_ok h
  refine ⟨r, first, body, _, hr, hino, hb, hfind, hk, hino', ?_, ?_, ht⟩
  · rw [hi]
    exact fresh_place hv _
  · intro j
    rw [hi]
    exact slot_place hv _ j

theorem fresh_of_insert : s.slot i = none := by
  obtain ⟨-, -, -, -, -, -, -, -, -, -, hfresh, -⟩ := insert_shape hv h
  exact hfresh

theorem ne_of_insert {j : Nat} (hj : s.slot j ≠ none) : j ≠ i := by
  rintro rfl
  exact hj (fresh_of_insert hv h)

/-- The new slot holds the new record: the next inode number, the name, the directory as
parent, no sibling after it, and an empty body of the asked kind. -/
theorem slot_insert_self :
    ∃ body, freshBody kind = .ok body ∧ ino = s.nextIno ∧
      t.slot i = some ⟨ino, name, some dir, none, body⟩ := by
  obtain ⟨r, first, body, u, hr, -, hb, -, hk, hino, hfresh, hu, rfl⟩ := insert_shape hv h
  refine ⟨body, hk, hino, ?_⟩
  have hc : Chain s first (s.chain first) := kids_of_dir s hr hb ▸ hv.chain dir r first hr hb
  unfold linkAfter
  split
  · rename_i last hlast
    have hli : last ≠ i := fun e =>
      hc.live (List.mem_of_getLast? hlast) (by rw [e]; exact hfresh)
    rw [slot_modifySlot, if_neg (Ne.symm hli), slot_counted, hu, if_pos rfl]
  · have hdi : dir ≠ i := fun e => by rw [e, hfresh] at hr; cases hr
    rw [slot_modifySlot, if_neg (Ne.symm hdi), slot_counted, hu, if_pos rfl]

/-- Every other slot keeps its record, up to its links: only the youngest child's sibling link
and, for an empty directory, its oldest child change. -/
theorem slot_insert_of_ne {j : Nat} (hj : j ≠ i) :
    ∃ g : Record → Record, (∀ x, (g x).ino = x.ino ∧ (g x).name = x.name ∧
      (g x).parent = x.parent ∧ (g x).size = x.size ∧ (g x).kind = x.kind) ∧
      (j ≠ dir → ∀ x, (g x).body = x.body) ∧
      ((s.kids dir).getLast? ≠ some j → ∀ x, (g x).next = x.next) ∧
      t.slot j = (s.slot j).map g := by
  obtain ⟨r, first, body, u, hr, -, hb, -, -, -, -, hu, rfl⟩ := insert_shape hv h
  rw [kids_of_dir s hr hb]
  have hui : u.slot j = s.slot j := by rw [hu, if_neg hj]
  unfold linkAfter
  split
  · rename_i last hlast
    rw [slot_modifySlot, slot_counted]
    by_cases hjl : j = last
    · subst hjl
      refine ⟨({ · with next := some i }), fun x => ⟨rfl, rfl, rfl, rfl, rfl⟩, fun _ x => rfl,
        fun hne => absurd hlast hne, ?_⟩
      rw [if_pos rfl, hui]
    · refine ⟨id, fun x => ⟨rfl, rfl, rfl, rfl, rfl⟩, fun _ x => rfl, fun _ x => rfl, ?_⟩
      rw [if_neg hjl, slot_counted, hui]
      simp
  · rw [slot_modifySlot, slot_counted]
    by_cases hjd : j = dir
    · subst hjd
      refine ⟨(·.withFirst (some i)), fun x => ⟨by simp, by simp, by simp, by simp, by simp⟩,
        fun hne => absurd rfl hne, fun _ x => by simp, ?_⟩
      rw [if_pos rfl, hui]
    · refine ⟨id, fun x => ⟨rfl, rfl, rfl, rfl, rfl⟩, fun _ x => rfl, fun _ x => rfl, ?_⟩
      rw [if_neg hjd, slot_counted, hui]
      simp

theorem after_insert_self : t.after i = none := by
  obtain ⟨body, -, -, hti⟩ := slot_insert_self hv h
  simp [after, hti]

theorem after_insert_of_ne {j : Nat} (hj : j ≠ i) (hl : (s.kids dir).getLast? ≠ some j) :
    t.after j = s.after j := by
  obtain ⟨g, -, -, hnext, hs⟩ := slot_insert_of_ne hv h hj
  unfold after
  rw [hs]
  cases s.slot j with
  | none => rfl
  | some x => simp [hnext hl x]

theorem after_insert_last {last : Nat} (hl : (s.kids dir).getLast? = some last) :
    t.after last = some i := by
  obtain ⟨r, first, body, u, hr, -, hb, -, -, -, hfresh, hu, ht⟩ := insert_shape hv h
  have hc : Chain s first (s.kids dir) := hv.chain dir r first hr hb
  have hlive : s.slot last ≠ none := hc.live (List.mem_of_getLast? hl)
  have hli : last ≠ i := fun e => hlive (by rw [e]; exact hfresh)
  rw [kids_of_dir s hr hb] at hl
  rw [ht, hl]
  simp only [linkAfter, after_modifySlot, if_pos, slot_counted, hu, if_neg hli]
  obtain ⟨x, hx⟩ := Option.ne_none_iff_exists'.mp hlive
  simp [hx]

theorem live_insert {j : Nat} (hj : j ≠ i) : t.slot j ≠ none ↔ s.slot j ≠ none := by
  obtain ⟨g, -, -, -, hs⟩ := slot_insert_of_ne hv h hj
  rw [hs]
  cases s.slot j <;> simp

theorem none_insert {j : Nat} (hj : j ≠ i) : t.slot j = none ↔ s.slot j = none := by
  have := live_insert hv h hj
  constructor
  · intro ht
    cases hs : s.slot j with
    | none => rfl
    | some y => exact absurd ht (this.mpr (by simp [hs]))
  · intro hs
    cases ht : t.slot j with
    | none => rfl
    | some y => exact absurd hs (this.mp (by simp [ht]))

theorem nameAt_insert {j : Nat} (hj : j ≠ i) : t.nameAt j = s.nameAt j := by
  obtain ⟨g, hg, -, -, hs⟩ := slot_insert_of_ne hv h hj
  unfold nameAt
  rw [hs]
  cases s.slot j with
  | none => rfl
  | some x => simp [(hg x).2.1]

theorem firstChild_insert {q : Nat} (hq : q ≠ i) (hqd : q ≠ dir) :
    t.firstChild q = s.firstChild q := by
  obtain ⟨g, -, hbody, -, hs⟩ := slot_insert_of_ne hv h hq
  exact firstChild_eq_of_map hs (hbody hqd)

theorem counters_insert : t.free = s.free.tail ∧ t.nextIno = s.nextIno + 1 ∧
    t.live = s.live + 1 ∧ t.used = s.used ∧ t.budget = s.budget ∧
    t.liveCount = s.liveCount + 1 ∧ t.usedSum = s.usedSum := by
  obtain ⟨r, first, body, -, -, -, -, hk, rfl, rfl, rfl⟩ := insert_eq_ok h
  have hsize : (Record.mk s.nextIno name (some dir) none body).size = 0 := by
    rcases freshBody_eq_ok hk with rfl | rfl <;> rfl
  refine ⟨by simp [counted, free_place], by simp [counted], by simp [counted],
    by simp [counted], by simp [counted], ?_, ?_⟩
  · rw [liveCount_linkAfter, liveCount_counted, liveCount_place hv]
  · rw [usedSum_linkAfter, usedSum_counted, usedSum_place hv, hsize, Nat.add_zero]

/-- The directory's listing gains the new slot at its end, and stays a chain. -/
theorem kids_chain_insert_dir :
    t.kids dir = s.kids dir ++ [i] ∧
      ∀ first, t.firstChild dir = .ok first → Chain t first (t.kids dir) := by
  obtain ⟨r, first, body, u, hr, -, hb, -, -, -, hfresh, hu, ht⟩ := insert_shape hv h
  have hc : Chain s first (s.kids dir) := hv.chain dir r first hr hb
  have hkids : s.kids dir = s.chain first := kids_of_dir s hr hb
  have hdi : dir ≠ i := fun e => by rw [e, hfresh] at hr; cases hr
  have hud : u.slot dir = s.slot dir := by rw [hu, if_neg hdi]
  -- the new record is live in `t` and links nowhere
  obtain ⟨body', -, -, hti⟩ := slot_insert_self hv h
  have hnew : Chain t (some i) [i] :=
    .cons (by simp [hti]) (by rw [after_insert_self hv h]; exact .nil)
  cases hl : (s.kids dir).getLast? with
  | some last =>
    -- the oldest child stays, and the youngest links to the new slot
    have hfirst : t.firstChild dir = .ok first := by
      rw [ht, ← hkids, hl]
      simp only [linkAfter]
      rw [firstChild_modifySlot (f := ({ · with next := some i })) _ _ _ fun _ => rfl,
        firstChild_counted, firstChild_eq_of_map (s := s) (g := id) (by simp [hud]) fun _ => rfl]
      exact (firstChild_eq_ok_iff s dir first).mpr ⟨r, hr, hb⟩
    have hch : Chain t first (s.kids dir ++ [i]) := by
      refine hc.extend hl (fun j hj => ?_) (fun j hj hjl => ?_) ?_
      · exact (live_insert hv h (ne_of_insert hv h (hc.live hj))).mpr (hc.live hj)
      · exact after_insert_of_ne hv h (ne_of_insert hv h (hc.live hj))
          (fun e => hjl (Option.some.inj (hl.symm.trans e)).symm)
      · rw [after_insert_last hv h hl]
        exact hnew
    exact listing_of_chain hfirst hch
  | none =>
    -- an empty directory: the new slot becomes its oldest child
    have hnil : s.kids dir = [] := List.getLast?_eq_none_iff.mp hl
    have hfirst : t.firstChild dir = .ok (some i) := by
      rw [ht, ← hkids, hl]
      simp only [linkAfter]
      rw [firstChild_withFirst _ _ _ ⟨r, first, by rw [slot_counted, hud, hr], hb⟩, if_pos rfl]
    rw [hnil]
    exact listing_of_chain hfirst hnew

/-- The new slot is an empty file or an empty directory, so it starts no listing. -/
theorem firstChild_insert_self {f : Option Nat} (hf : t.firstChild i = .ok f) : f = none := by
  obtain ⟨body', hk', -, hti⟩ := slot_insert_self hv h
  obtain ⟨x, hx, hxb⟩ := (firstChild_eq_ok_iff t i f).mp hf
  rw [hti] at hx
  cases hx
  rcases freshBody_eq_ok hk' with rfl | rfl <;> simp_all

theorem kids_insert_self : t.kids i = [] := by
  unfold kids
  split
  · rename_i f hf
    rw [firstChild_insert_self hv h hf, chain_none]
  · rfl

/-- Every other listing keeps its members and their links. -/
theorem kids_chain_insert_other {q : Nat} (hqi : q ≠ i) (hqd : q ≠ dir) :
    t.kids q = s.kids q ∧ ∀ first, t.firstChild q = .ok first → Chain t first (t.kids q) := by
  have hfirst := firstChild_insert hv h hqi hqd
  have hkeep : ∀ j ∈ s.kids q, t.slot j ≠ none ∧ t.after j = s.after j := by
    intro j hj
    have hji := ne_of_insert hv h (hv.live_of_mem_kids hj)
    refine ⟨(live_insert hv h hji).mpr (hv.live_of_mem_kids hj), ?_⟩
    refine after_insert_of_ne hv h hji fun hl => hqd ?_
    exact hv.eq_of_mem_kids hj (List.mem_of_getLast? hl)
  exact ⟨hv.kids_frame hfirst hkeep, hv.chain_frame hfirst hkeep⟩

/-- After an insertion every listing is a chain: the directory's gains the new slot at its end,
and every other listing is as it was. -/
theorem kids_chain_insert (q : Nat) :
    (t.kids q = if q = dir then s.kids dir ++ [i] else s.kids q) ∧
      ∀ first, t.firstChild q = .ok first → Chain t first (t.kids q) := by
  by_cases hqd : q = dir
  · subst hqd
    rw [if_pos rfl]
    exact kids_chain_insert_dir hv h
  · rw [if_neg hqd]
    by_cases hqi : q = i
    · subst hqi
      have hs : s.kids q = [] :=
        kids_of_not_dir s fun ⟨_, _, hx, _⟩ => by rw [fresh_of_insert hv h] at hx; cases hx
      refine ⟨by rw [kids_insert_self hv h, hs], fun f hf => ?_⟩
      rw [kids_insert_self hv h, firstChild_insert_self hv h hf]
      exact .nil
    · exact kids_chain_insert_other hv h hqi hqd

theorem kids_insert (q : Nat) : t.kids q = if q = dir then s.kids dir ++ [i] else s.kids q :=
  (kids_chain_insert hv h q).1

/-- A record in any other slot is one that was there, with the same number, name, parent and
kind. -/
theorem slot_insert_some {j : Nat} (hj : j ≠ i) {x : Record} (hx : t.slot j = some x) :
    ∃ y, s.slot j = some y ∧ x.ino = y.ino ∧ x.name = y.name ∧ x.parent = y.parent ∧
      x.kind = y.kind := by
  obtain ⟨g, hg, -, -, hs⟩ := slot_insert_of_ne hv h hj
  rw [hs] at hx
  obtain ⟨y, hy, rfl⟩ := Option.map_eq_some_iff.mp hx
  obtain ⟨h1, h2, h3, -, h5⟩ := hg y
  exact ⟨y, hy, h1, h2, h3, h5⟩

theorem isDir_insert {q : Nat} (hq : q ≠ i) : t.IsDir q ↔ s.IsDir q := by
  obtain ⟨g, hg, -, -, hs⟩ := slot_insert_of_ne hv h hq
  rw [isDir_iff_kind, isDir_iff_kind, hs]
  cases s.slot q with
  | none => simp
  | some y => simp [(hg y).2.2.2.2]

omit hv in
/-- The new record takes the most recently freed slot, or a new slot at the end. -/
theorem size_insert :
    (s.free = [] → i = s.slots.size ∧ t.slots.size = s.slots.size + 1) ∧
      ∀ k rest, s.free = k :: rest → i = k ∧ t.slots.size = s.slots.size := by
  obtain ⟨r, first, body, -, -, -, -, -, -, rfl, rfl⟩ := insert_eq_ok h
  constructor
  · intro hnil
    obtain ⟨h1, h2⟩ := place_of_free_nil s ⟨ino, name, some dir, none, body⟩ hnil
    simp [counted, h1, h2]
  · intro k rest hcons
    obtain ⟨h1, h2⟩ := place_of_free_cons s ⟨ino, name, some dir, none, body⟩ hcons
    simp [counted, h1, h2]

/-! ### The invariant, field by field -/

/-- The root keeps its slot, number, parent and kind. -/
theorem root_insert :
    ∃ r, t.slot rootIndex = some r ∧ r.ino = 1 ∧ r.parent = none ∧ r.kind = .directory := by
  obtain ⟨r0, hr0, h1, h2, h3⟩ := hv.root
  have h0i : rootIndex ≠ i := ne_of_insert hv h (by simp [hr0])
  obtain ⟨g, hg, -, -, hs⟩ := slot_insert_of_ne hv h h0i
  obtain ⟨e1, -, e3, -, e5⟩ := hg r0
  exact ⟨g r0, by rw [hs, hr0]; rfl, by rw [e1, h1], by rw [e3, h2], by rw [e5, h3]⟩

/-- The new record hangs once at the end of its directory's listing, and every other record
keeps its parent and its one place. -/
theorem parent_insert (j : Nat) (x : Record) (hj0 : j ≠ rootIndex) (hx : t.slot j = some x) :
    ∃ p, x.parent = some p ∧ t.IsDir p ∧ (t.kids p).count j = 1 ∧ ∀ q, q ≠ p → j ∉ t.kids q := by
  have hnotin : ∀ q, i ∉ s.kids q := fun q hm => hv.live_of_mem_kids hm (fresh_of_insert hv h)
  by_cases hji : j = i
  · subst hji
    obtain ⟨body, -, -, hti⟩ := slot_insert_self hv h
    obtain ⟨r, first, -, -, hr, -, hb, -⟩ := insert_shape hv h
    rw [hti] at hx
    cases hx
    refine ⟨dir, rfl, (isDir_insert hv h (ne_of_insert hv h (by simp [hr]))).mpr ⟨r, first, hr, hb⟩,
      ?_, fun q hq => ?_⟩
    · rw [kids_insert hv h, if_pos rfl, List.count_append, List.count_eq_zero_of_not_mem
        (hnotin dir)]
      simp
    · rw [kids_insert hv h, if_neg hq]
      exact hnotin q
  · obtain ⟨y, hy, -, -, hpar, -⟩ := slot_insert_some hv h hji hx
    obtain ⟨p, hp, hpd, hcount, hexcl⟩ := hv.parent j y hj0 hy
    have hpi : p ≠ i := by
      obtain ⟨pr, _, hpr, _⟩ := hpd
      exact ne_of_insert hv h (by simp [hpr])
    refine ⟨p, by rw [hpar, hp], (isDir_insert hv h hpi).mpr hpd, ?_, fun q hq => ?_⟩
    · rw [kids_insert hv h]
      split
      · rename_i hpdir
        subst hpdir
        rw [List.count_append, hcount]
        simp [Ne.symm hji]
      · exact hcount
    · rw [kids_insert hv h]
      split
      · rename_i hqdir
        subst hqdir
        simp [hexcl q hq, hji]
      · exact hexcl q hq

theorem rootFree_insert (d : Nat) : rootIndex ∉ t.kids d := by
  obtain ⟨r0, hr0, -⟩ := hv.root
  have h0i : rootIndex ≠ i := ne_of_insert hv h (by simp [hr0])
  rw [kids_insert hv h]
  split
  · simp [hv.rootFree dir, h0i]
  · exact hv.rootFree d

/-- The names of every listing stay distinct: the new name was not among its directory's. -/
theorem names_insert (d : Nat) : ((t.kids d).map t.nameAt).Nodup := by
  -- the old children keep their names
  have hmap : ∀ q, (s.kids q).map t.nameAt = (s.kids q).map s.nameAt := fun q =>
    List.map_congr_left fun j hj => nameAt_insert hv h (ne_of_insert hv h (hv.live_of_mem_kids hj))
  rw [kids_insert hv h]
  split
  · rename_i hd
    subst hd
    obtain ⟨body, -, -, hti⟩ := slot_insert_self hv h
    obtain ⟨r, first, -, -, hr, -, hb, hfind, -⟩ := insert_shape hv h
    rw [List.map_append, hmap, List.nodup_append]
    refine ⟨hv.names d, by simp, ?_⟩
    intro a ha b hb'
    have hni : t.nameAt i = some name := by simp [nameAt, hti]
    simp only [List.map_cons, List.map_nil, List.mem_singleton, hni] at hb'
    subst hb'
    obtain ⟨j, hj, rfl⟩ := List.mem_map.mp ha
    have hnamed : ¬ s.named name j = true := by
      rw [kids_of_dir s hr hb] at hj
      exact List.find?_eq_none.mp hfind j hj
    intro heq
    obtain ⟨y, hy, hyn⟩ := Option.map_eq_some_iff.mp heq
    exact hnamed (by simp [named, hy, hyn])
  · rw [hmap]
    exact hv.names d

theorem goodNames_insert (hname : GoodName name) (d j : Nat) (hj : j ∈ t.kids d) (x : Record)
    (hx : t.slot j = some x) : GoodName x.name := by
  by_cases hji : j = i
  · subst hji
    obtain ⟨body, -, -, hti⟩ := slot_insert_self hv h
    rw [hti] at hx
    cases hx
    exact hname
  · obtain ⟨y, hy, -, hname', -, -⟩ := slot_insert_some hv h hji hx
    rw [hname']
    have hj' : j ∈ s.kids d := by
      rw [kids_insert hv h] at hj
      split at hj
      · rename_i hd
        subst hd
        simpa [hji] using hj
      · exact hj
    exact hv.goodNames d j hj' y hy

/-- The free list loses the slot the new record took, which was its head if it had one. -/
theorem free_insert (j : Nat) : j ∈ t.free ↔ j < t.slots.size ∧ t.slot j = none := by
  obtain ⟨hfree, -⟩ := counters_insert hv h
  obtain ⟨body, -, -, hti⟩ := slot_insert_self hv h
  rw [hfree]
  cases hcons : s.free with
  | nil =>
    obtain ⟨hi, hsize⟩ := (size_insert h).1 hcons
    simp only [List.tail_nil, List.not_mem_nil, false_iff, not_and]
    intro hj hnone
    by_cases hji : j = i
    · rw [hji, hti] at hnone
      cases hnone
    · have hjs : j < s.slots.size := by omega
      have hlive : s.slot j ≠ none := fun hn => by simpa [hcons] using (hv.free j).mpr ⟨hjs, hn⟩
      exact hlive ((none_insert hv h hji).mp hnone)
  | cons k rest =>
    obtain ⟨hi, hsize⟩ := (size_insert h).2 k rest hcons
    simp only [List.tail_cons, hsize]
    have hnd := hcons ▸ hv.freeNodup
    constructor
    · intro hj
      have hjk : j ≠ i := fun e => (List.nodup_cons.mp hnd).1 (hi ▸ e ▸ hj)
      obtain ⟨hjs, hjn⟩ := (hv.free j).mp (by simp [hcons, hj])
      exact ⟨hjs, (none_insert hv h hjk).mpr hjn⟩
    · rintro ⟨hjs, hjn⟩
      have hji : j ≠ i := fun e => by rw [e, hti] at hjn; cases hjn
      have := (hv.free j).mpr ⟨hjs, (none_insert hv h hji).mp hjn⟩
      rw [hcons] at this
      rcases List.mem_cons.mp this with e | e
      · exact absurd (e.trans hi.symm) hji
      · exact e

/-- Every record other than the new one keeps a number below the next one. -/
theorem ino_lt_of_insert {l : Nat} {y : Record} (hl : l ≠ i) (hy : t.slot l = some y) :
    y.ino < s.nextIno := by
  obtain ⟨z, hz, hzi, -⟩ := slot_insert_some hv h hl hy
  rw [hzi]
  exact hv.inoLt l z hz

/-- The new number is above every number already in use, so numbers stay distinct. -/
theorem inoInj_insert (j k : Nat) (xj xk : Record) (hj : t.slot j = some xj)
    (hk : t.slot k = some xk) (he : xj.ino = xk.ino) : j = k := by
  obtain ⟨body, -, hino, hti⟩ := slot_insert_self hv h
  by_cases hji : j = i <;> by_cases hki : k = i
  · rw [hji, hki]
  · subst hji
    rw [hti] at hj
    cases hj
    have := ino_lt_of_insert hv h hki hk
    simp only at he
    omega
  · subst hki
    rw [hti] at hk
    cases hk
    have := ino_lt_of_insert hv h hji hj
    simp only at he
    omega
  · obtain ⟨yj, hyj, hj1, -⟩ := slot_insert_some hv h hji hj
    obtain ⟨yk, hyk, hk1, -⟩ := slot_insert_some hv h hki hk
    exact hv.inoInj j k yj yk hyj hyk (by rw [← hj1, ← hk1, he])

theorem inoLt_insert (j : Nat) (x : Record) (hx : t.slot j = some x) : x.ino < t.nextIno := by
  obtain ⟨body, -, hino, hti⟩ := slot_insert_self hv h
  obtain ⟨-, hnext, -⟩ := counters_insert hv h
  rw [hnext]
  by_cases hji : j = i
  · subst hji
    rw [hti] at hx
    cases hx
    show ino < s.nextIno + 1
    omega
  · have := ino_lt_of_insert hv h hji hx
    omega

/-- Inserting a well-formed name keeps the store valid. -/
theorem Valid.insert (hname : GoodName name) : t.Valid := by
  obtain ⟨hfree, -, hlive, hused, hbudget, hlc, hus⟩ := counters_insert hv h
  exact {
    root := root_insert hv h
    chain := fun d x f hd hxb =>
      (kids_chain_insert hv h d).2 f ((firstChild_eq_ok_iff t d f).mpr ⟨x, hd, hxb⟩)
    parent := parent_insert hv h
    rootFree := rootFree_insert hv h
    names := names_insert hv h
    goodNames := goodNames_insert hv h hname
    free := free_insert hv h
    freeNodup := hfree ▸ hv.freeNodup.sublist (List.tail_sublist _)
    live := by rw [hlive, hlc, hv.live]
    inoInj := inoInj_insert hv h
    inoLt := inoLt_insert hv h
    used := by rw [hused, hus, hv.used]
    budget := fun hb0 => by
      rw [hused, hbudget]
      exact hv.budget (hbudget ▸ hb0) }

end Insert

end KernelFs.Memory.Store
