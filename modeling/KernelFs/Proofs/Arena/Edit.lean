import KernelFs.Proofs.Arena.Valid

/-!
# Edits of the arena

The store (`InodeTable`, src/crates/fs/src/memfs/inode.rs:56-300) changes its slots in four ways: it
changes a live record in place (its sibling link, its oldest child or its content), it places a new
record in a free or a new slot, and it empties a slot onto the free list. This module says once what
each edit does to the slots, the links, the listings and the counters, so that the operations built
from the edits are reasoned about without opening the edits again.

Results:
* `Valid.kids_frame`: an edit that keeps a slot's oldest child, and keeps the slots of its
  listing live with their links, keeps the listing.
* `slot_place`, `fresh_place`: a new record lands in a slot that was empty, and nowhere else.
* `allocSlot_eq_ok`, `allocSlot_eq_error`: the allocator places the record unless the free list is
  empty and the slot vector cannot grow (`alloc_slot`, src/crates/fs/src/memfs/inode.rs:155-164).
* `slot_release`, `liveCount_release`, `usedSum_release`: emptying a live slot.
* `Valid.inoInj_of_keeps`, `Valid.inoLt_of_keeps`, `Valid.goodNames_of_keeps`: a store that
  only dropped records or changed links and contents (`Keeps`) keeps numbers distinct and below
  the next one, and names good.
-/

namespace KernelFs.Memory

namespace Record

variable (r : Record) (x : Option Nat)

@[simp] theorem withFirst_ino : (r.withFirst x).ino = r.ino := by
  obtain ⟨_, _, _, _, body⟩ := r; cases body <;> rfl

@[simp] theorem withFirst_name : (r.withFirst x).name = r.name := by
  obtain ⟨_, _, _, _, body⟩ := r; cases body <;> rfl

@[simp] theorem withFirst_parent : (r.withFirst x).parent = r.parent := by
  obtain ⟨_, _, _, _, body⟩ := r; cases body <;> rfl

@[simp] theorem withFirst_next : (r.withFirst x).next = r.next := by
  obtain ⟨_, _, _, _, body⟩ := r; cases body <;> rfl

@[simp] theorem withFirst_size : (r.withFirst x).size = r.size := by
  obtain ⟨_, _, _, _, body⟩ := r; cases body <;> rfl

@[simp] theorem withFirst_kind : (r.withFirst x).kind = r.kind := by
  obtain ⟨_, _, _, _, body⟩ := r; cases body <;> rfl

theorem withFirst_body {first : Option Nat} (h : r.body = .dir first) :
    (r.withFirst x).body = .dir x := by
  simp [withFirst, h]

/-- `g` changes at most the links of a record: its sibling link and its oldest child. -/
structure Relinks (g : Record → Record) : Prop where
  ino : ∀ x, (g x).ino = x.ino
  name : ∀ x, (g x).name = x.name
  parent : ∀ x, (g x).parent = x.parent
  size : ∀ x, (g x).size = x.size
  kind : ∀ x, (g x).kind = x.kind

theorem relinks_id : Relinks id :=
  ⟨fun _ => rfl, fun _ => rfl, fun _ => rfl, fun _ => rfl, fun _ => rfl⟩

theorem relinks_next : Relinks ({ · with next := x }) :=
  ⟨fun _ => rfl, fun _ => rfl, fun _ => rfl, fun _ => rfl, fun _ => rfl⟩

theorem relinks_withFirst : Relinks (·.withFirst x) :=
  ⟨(·.withFirst_ino x), (·.withFirst_name x), (·.withFirst_parent x), (·.withFirst_size x),
    (·.withFirst_kind x)⟩

/-- A relinked record is one that was there, with the same number, name, parent and kind. -/
theorem Relinks.map_eq_some {g : Record → Record} (hg : Relinks g) {o : Option Record}
    {y : Record} (h : o.map g = some y) :
    ∃ z, o = some z ∧ y.ino = z.ino ∧ y.name = z.name ∧ y.parent = z.parent ∧ y.kind = z.kind := by
  obtain ⟨z, hz, rfl⟩ := Option.map_eq_some_iff.mp h
  exact ⟨z, hz, hg.ino z, hg.name z, hg.parent z, hg.kind z⟩

end Record

namespace Store

variable {s t : Store}

/-! ## Changing a record in place -/

/-- Listings are read from the slots alone: the counters play no part. -/
theorem kids_congr (h : t.slots = s.slots) (q : Nat) : t.kids q = s.kids q := by
  have hslot : ∀ j, t.slot j = s.slot j := fun j => by simp only [slot, h]
  have hwalk : ∀ fuel start, t.walk fuel start = s.walk fuel start := by
    intro fuel
    induction fuel with
    | zero => intro start; rfl
    | succ fuel ih =>
      intro start
      cases start with
      | none => rfl
      | some i => simp only [walk, after, hslot, ih]
  simp only [kids, firstChild, chain, hslot, hwalk, h]

theorem after_modifySlot (s : Store) (k j : Nat) (f : Record → Record) :
    (s.modifySlot k f).after j =
      if j = k then ((s.slot k).map f).bind (·.next) else s.after j := by
  unfold after
  rw [slot_modifySlot]
  split <;> rfl

theorem live_modifySlot (s : Store) (k j : Nat) (f : Record → Record) :
    (s.modifySlot k f).slot j ≠ none ↔ s.slot j ≠ none := by
  rw [slot_modifySlot]
  split
  · subst j
    cases s.slot k <;> simp
  · rfl

theorem firstChild_modifySlot (s : Store) (k q : Nat) {f : Record → Record}
    (hf : ∀ r, (f r).body = r.body) : (s.modifySlot k f).firstChild q = s.firstChild q := by
  unfold firstChild
  rw [slot_modifySlot]
  by_cases hq : q = k
  · subst hq
    cases s.slot q with
    | none => simp
    | some r => simp only [if_true, Option.map_some, hf r]
  · simp only [hq, if_false]

/-- Setting the oldest child of a directory changes what that directory starts from, and no
other slot's. -/
theorem firstChild_withFirst (s : Store) {k : Nat} (q : Nat) (x : Option Nat) (hk : s.IsDir k) :
    (s.modifySlot k (·.withFirst x)).firstChild q = if q = k then .ok x else s.firstChild q := by
  obtain ⟨r, first, hr, hb⟩ := hk
  unfold firstChild
  rw [slot_modifySlot]
  by_cases hq : q = k
  · subst hq
    simp only [if_true, hr, Option.map_some, r.withFirst_body x hb]
  · simp only [hq, if_false]

/-- A change that keeps a record's sibling link keeps every sibling link. -/
theorem after_modifySlot_of_next (s : Store) (k j : Nat) {f : Record → Record}
    (hf : ∀ r, (f r).next = r.next) : (s.modifySlot k f).after j = s.after j := by
  rw [after_modifySlot]
  split
  · rename_i hj
    subst hj
    unfold after
    cases s.slot j <;> simp [hf]
  · rfl

theorem usedSum_modifySlot (s : Store) (k : Nat) {f : Record → Record}
    (hf : ∀ r, (f r).size = r.size) : (s.modifySlot k f).usedSum = s.usedSum := by
  rw [modifySlot_eq_setSlot]
  rcases Nat.lt_or_ge k s.slots.size with hk | hk
  · have := usedSum_setSlot s ((s.slot k).map f) hk
    cases hs : s.slot k <;> simp_all [slotSize]
  · simp [setSlot, Array.setIfInBounds, Nat.not_lt.mpr hk]

theorem liveCount_modifySlot (s : Store) (k : Nat) (f : Record → Record) :
    (s.modifySlot k f).liveCount = s.liveCount := by
  rw [modifySlot_eq_setSlot]
  rcases Nat.lt_or_ge k s.slots.size with hk | hk
  · have := liveCount_setSlot s ((s.slot k).map f) hk
    cases hs : s.slot k <;> simp_all
  · simp [setSlot, Array.setIfInBounds, Nat.not_lt.mpr hk]

/-- Relinking one record leaves every slot with its record up to links. -/
theorem slot_modifySlot_relinks (s : Store) (k j : Nat) {g : Record → Record}
    (hg : Record.Relinks g) : ∃ g' : Record → Record, Record.Relinks g' ∧
      (s.modifySlot k g).slot j = (s.slot j).map g' := by
  rw [slot_modifySlot]
  by_cases hj : j = k
  · subst hj
    exact ⟨g, hg, by rw [if_pos rfl]⟩
  · exact ⟨id, Record.relinks_id, by rw [if_neg hj, Option.map_id, id]⟩

theorem isDir_iff_kind (s : Store) (d : Nat) :
    s.IsDir d ↔ ∃ r, s.slot d = some r ∧ r.kind = .directory := by
  constructor
  · rintro ⟨r, first, hr, hb⟩
    exact ⟨r, hr, by simp [Record.kind, hb]⟩
  · rintro ⟨r, hr, hk⟩
    cases hb : r.body with
    | dir first => exact ⟨r, first, hr, hb⟩
    | file d => simp [Record.kind, hb] at hk

/-- A relinked slot holds a directory exactly when it did. -/
theorem isDir_of_relinks {g : Record → Record} (hg : Record.Relinks g) {q : Nat}
    (hs : t.slot q = (s.slot q).map g) : t.IsDir q ↔ s.IsDir q := by
  rw [isDir_iff_kind, isDir_iff_kind, hs]
  cases s.slot q with
  | none => simp
  | some y => simp [hg.kind y]

/-- A relinked slot holds the name it held. -/
theorem nameAt_of_relinks {g : Record → Record} (hg : Record.Relinks g) {j : Nat}
    (hs : t.slot j = (s.slot j).map g) : t.nameAt j = s.nameAt j := by
  unfold nameAt
  rw [hs]
  cases s.slot j with
  | none => rfl
  | some y => simp [hg.name y]

/-- A listing survives an edit that keeps its directory's oldest child, and keeps the slots of
the listing live with their links. -/
theorem Valid.kids_frame (hv : s.Valid) {q : Nat} (hfirst : t.firstChild q = s.firstChild q)
    (hkeep : ∀ j ∈ s.kids q, t.slot j ≠ none ∧ t.after j = s.after j) : t.kids q = s.kids q := by
  cases hq : s.firstChild q with
  | error e =>
    rw [hq] at hfirst
    simp [kids, hq, hfirst]
  | ok first =>
    rw [hq] at hfirst
    obtain ⟨r, hr, hb⟩ := (firstChild_eq_ok_iff s q first).mp hq
    have hc := hv.chain q r first hr hb
    rw [kids_of_firstChild t hfirst, (hc.frame hkeep).chain_eq]

/-- Under the same conditions the surviving listing is still a chain. -/
theorem Valid.chain_frame (hv : s.Valid) {q : Nat} (hfirst : t.firstChild q = s.firstChild q)
    (hkeep : ∀ j ∈ s.kids q, t.slot j ≠ none ∧ t.after j = s.after j) :
    ∀ f, t.firstChild q = .ok f → Chain t f (t.kids q) := by
  intro f hf
  rw [hfirst] at hf
  obtain ⟨x, hx, hxb⟩ := (firstChild_eq_ok_iff s q f).mp hf
  rw [hv.kids_frame hfirst hkeep]
  exact (hv.chain q x f hx hxb).frame hkeep

/-- A directory whose oldest child starts a chain lists that chain. -/
theorem listing_of_chain {q : Nat} {f : Option Nat} {l : List Nat} (hq : t.firstChild q = .ok f)
    (hc : Chain t f l) :
    t.kids q = l ∧ ∀ f', t.firstChild q = .ok f' → Chain t f' (t.kids q) := by
  rw [kids_of_firstChild t hq, hc.chain_eq]
  refine ⟨rfl, fun f' hf' => ?_⟩
  rw [hq] at hf'
  cases hf'
  exact hc

/-! ## Placing a new record -/

section Alloc

variable (hv : s.Valid) (r : Record)
include hv

/-- A new record goes into a slot that was empty. -/
theorem fresh_place : s.slot (s.place r).2 = none := by
  unfold place
  split
  · rename_i i rest hfree
    exact ((hv.free i).mp (by simp [hfree])).2
  · simp [slot]

theorem slot_place (j : Nat) :
    (s.place r).1.slot j = if j = (s.place r).2 then some r else s.slot j := by
  unfold place
  split
  · rename_i i rest hfree
    exact slot_setSlot s j (some r) ((hv.free i).mp (by simp [hfree])).1
  · exact slot_push s j (some r)

theorem liveCount_place : (s.place r).1.liveCount = s.liveCount + 1 := by
  unfold place
  split
  · rename_i i rest hfree
    have hi := (hv.free i).mp (by simp [hfree])
    have := liveCount_setSlot s (some r) hi.1
    simp only [hi.2, Option.isSome_none, Option.isSome_some] at this
    exact this
  · exact liveCount_push s (some r)

theorem usedSum_place : (s.place r).1.usedSum = s.usedSum + r.size := by
  unfold place
  split
  · rename_i i rest hfree
    have hi := (hv.free i).mp (by simp [hfree])
    have := usedSum_setSlot s (some r) hi.1
    simp only [hi.2, slotSize] at this
    exact this
  · exact usedSum_push s (some r)

end Alloc

theorem free_place (s : Store) (r : Record) : (s.place r).1.free = s.free.tail := by
  unfold place
  split <;> simp_all

/-- When the free list is empty, the new record goes into a new slot at the end. -/
theorem place_of_free_nil (s : Store) (r : Record) (h : s.free = []) :
    (s.place r).2 = s.slots.size ∧ (s.place r).1.slots.size = s.slots.size + 1 := by
  simp [place, h]

theorem place_of_free_cons (s : Store) (r : Record) {i : Nat} {rest : List Nat} (h : s.free = i :: rest) :
    (s.place r).2 = i ∧ (s.place r).1.slots.size = s.slots.size := by
  simp [place, h]

@[simp] theorem place_nextIno (s : Store) (r : Record) :
    (s.place r).1.nextIno = s.nextIno := by
  unfold place; split <;> rfl

@[simp] theorem place_used (s : Store) (r : Record) : (s.place r).1.used = s.used := by
  unfold place; split <;> rfl

@[simp] theorem place_live (s : Store) (r : Record) : (s.place r).1.live = s.live := by
  unfold place; split <;> rfl

@[simp] theorem place_budget (s : Store) (r : Record) :
    (s.place r).1.budget = s.budget := by
  unfold place; split <;> rfl

@[simp] theorem place_heap (s : Store) (r : Record) : (s.place r).1.heap = s.heap := by
  unfold place; split <;> rfl

/-- A granted slot is the placement; the heap is asked only when no slot is free. -/
theorem allocSlot_eq_ok {s : Store} {r : Record} {p : Store × Nat} (h : s.allocSlot r = .ok p) :
    p = s.place r := by
  unfold allocSlot at h
  split at h
  · cases h
  · cases h
    rfl

theorem allocSlot_eq_error {s : Store} {r : Record} {e : StoreError} (h : s.allocSlot r = .error e) :
    e = .noSlot ∧ s.free = [] ∧ s.heap.addsSlot s.slots.size = false := by
  unfold allocSlot at h
  split at h
  · rename_i hno
    cases h
    exact ⟨rfl, hno⟩
  · cases h

@[simp] theorem slot_counted (s : Store) (j : Nat) : s.counted.slot j = s.slot j := rfl

@[simp] theorem after_counted (s : Store) (j : Nat) : s.counted.after j = s.after j := rfl

@[simp] theorem firstChild_counted (s : Store) (j : Nat) :
    s.counted.firstChild j = s.firstChild j := rfl

@[simp] theorem size_counted (s : Store) : s.counted.slots.size = s.slots.size := rfl

@[simp] theorem liveCount_counted (s : Store) : s.counted.liveCount = s.liveCount := rfl

@[simp] theorem usedSum_counted (s : Store) : s.counted.usedSum = s.usedSum := rfl

section Link

variable (s : Store) (d : Nat) (tail : Option Nat) (i : Nat)

@[simp] theorem linkAfter_free : (s.linkAfter d tail i).free = s.free := by
  unfold linkAfter; split <;> rfl

@[simp] theorem linkAfter_nextIno : (s.linkAfter d tail i).nextIno = s.nextIno := by
  unfold linkAfter; split <;> rfl

@[simp] theorem linkAfter_live : (s.linkAfter d tail i).live = s.live := by
  unfold linkAfter; split <;> rfl

@[simp] theorem linkAfter_used : (s.linkAfter d tail i).used = s.used := by
  unfold linkAfter; split <;> rfl

@[simp] theorem linkAfter_budget : (s.linkAfter d tail i).budget = s.budget := by
  unfold linkAfter; split <;> rfl

@[simp] theorem size_linkAfter : (s.linkAfter d tail i).slots.size = s.slots.size := by
  unfold linkAfter; split <;> simp

theorem liveCount_linkAfter : (s.linkAfter d tail i).liveCount = s.liveCount := by
  unfold linkAfter; split <;> exact liveCount_modifySlot _ _ _

theorem usedSum_linkAfter : (s.linkAfter d tail i).usedSum = s.usedSum := by
  unfold linkAfter
  split
  · exact usedSum_modifySlot _ _ fun _ => rfl
  · exact usedSum_modifySlot _ _ fun r => r.withFirst_size _

end Link

/-! ## Emptying a slot -/

section Release

variable (s : Store) {i : Nat} (size : Nat) (hi : i < s.slots.size)
include hi

theorem slot_release (j : Nat) : (s.release i size).slot j = if j = i then none else s.slot j :=
  slot_setSlot s j none hi

theorem liveCount_release (hl : s.slot i ≠ none) :
    (s.release i size).liveCount + 1 = s.liveCount := by
  have := liveCount_setSlot s none hi
  obtain ⟨r, hr⟩ := Option.ne_none_iff_exists'.mp hl
  simp only [hr, Option.isSome_some, Option.isSome_none] at this
  exact this

theorem usedSum_release : (s.release i size).usedSum + slotSize (s.slot i) = s.usedSum := by
  exact usedSum_setSlot s none hi

theorem after_release (j : Nat) :
    (s.release i size).after j = if j = i then none else s.after j := by
  unfold after
  rw [slot_release s size hi]
  split <;> rfl

theorem firstChild_release {q : Nat} (hq : q ≠ i) :
    (s.release i size).firstChild q = s.firstChild q := by
  unfold firstChild
  rw [slot_release s size hi, if_neg hq]

end Release

/-- A chain that avoids the emptied slot survives the emptying. -/
theorem Chain.release {first : Option Nat} {l : List Nat} {i : Nat} (hc : Chain s first l)
    (size : Nat) (hi : i < s.slots.size) (hl : i ∉ l) : Chain (s.release i size) first l := by
  refine hc.frame fun j hj => ⟨?_, ?_⟩
  · have hji : j ≠ i := fun e => hl (e ▸ hj)
    rw [slot_release s size hi, if_neg hji]
    exact hc.live hj
  · have hji : j ≠ i := fun e => hl (e ▸ hj)
    rw [after_release s size hi, if_neg hji]

/-! ## Records kept in place -/

/-- Every live record of `t` sits where a record of `s` sat, with the same number, name, parent
and kind: `t` only dropped records or changed links and contents. -/
def Keeps (s t : Store) : Prop :=
  ∀ j x, t.slot j = some x →
    ∃ y, s.slot j = some y ∧ x.ino = y.ino ∧ x.name = y.name ∧ x.parent = y.parent ∧ x.kind = y.kind

theorem Valid.inoInj_of_keeps (hv : s.Valid) (hk : Keeps s t) :
    ∀ j k xj xk, t.slot j = some xj → t.slot k = some xk → xj.ino = xk.ino → j = k := by
  intro j k xj xk hj hk' he
  obtain ⟨yj, hyj, hj1, -⟩ := hk j xj hj
  obtain ⟨yk, hyk, hk1, -⟩ := hk k xk hk'
  exact hv.inoInj j k yj yk hyj hyk (by rw [← hj1, ← hk1, he])

theorem Valid.inoLt_of_keeps (hv : s.Valid) (hk : Keeps s t) (hnext : s.nextIno ≤ t.nextIno) :
    ∀ j x, t.slot j = some x → x.ino < t.nextIno := by
  intro j x hx
  obtain ⟨y, hy, hino, -⟩ := hk j x hx
  rw [hino]
  exact Nat.lt_of_lt_of_le (hv.inoLt j y hy) hnext

/-- Listings that only lose members keep their names good. -/
theorem Valid.goodNames_of_keeps (hv : s.Valid) (hk : Keeps s t)
    (hsub : ∀ d j, j ∈ t.kids d → j ∈ s.kids d) :
    ∀ d, ∀ j ∈ t.kids d, ∀ x, t.slot j = some x → GoodName x.name := by
  intro d j hj x hx
  obtain ⟨y, hy, -, hname, -⟩ := hk j x hx
  rw [hname]
  exact hv.goodNames d j (hsub d j hj) y hy

end Store

end KernelFs.Memory
