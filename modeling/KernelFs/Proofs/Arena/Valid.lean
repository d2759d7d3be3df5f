import KernelFs.Proofs.Arena.Chain

/-!
# The shape of a memory store

`Store.Valid` is the representation invariant of the arena (`InodeTable`,
src/crates/fs/src/memfs/inode.rs:56-60): the root sits in slot 0; every other live slot hangs,
exactly once, in the chain of the directory it names as parent and in no other chain; chains end,
meet live slots only and hold distinct well-formed names; the free list holds each empty slot once;
the counters agree with the slots; inode numbers are distinct and below the next one. `kids s d` is
the listing of slot `d`: the chain from its oldest child.

Results:
* `Valid.size_eq`: the arena has one slot per live inode and per free-list entry.
* `Valid.kids_nodup`, `Valid.parent_of_mem_kids`: a listing meets no slot twice, and every
  slot of a listing names the listed directory as its parent.
* `valid_empty`: a fresh store is valid.
-/

namespace KernelFs.Memory.Store

/-- The listing of a slot: the chain from its oldest child when it holds a directory. -/
def kids (s : Store) (d : Nat) : List Nat :=
  match s.firstChild d with
  | .ok first => s.chain first
  | .error _ => []

/-- The name held in a slot. -/
def nameAt (s : Store) (i : Nat) : Option String := (s.slot i).map (·.name)

/-- A slot holds a directory. -/
def IsDir (s : Store) (d : Nat) : Prop := ∃ r first, s.slot d = some r ∧ r.body = .dir first

/-- A name a directory entry may carry: non-empty, without a slash, within the name limit. -/
def GoodName (name : String) : Prop :=
  name.isEmpty = false ∧ name.contains '/' = false ∧ Path.fits name = true

/-- The content size a slot holds; an empty slot holds none. -/
def slotSize : Option Record → Nat
  | some r => r.size
  | none => 0

/-- The content sizes of all live slots, added up. -/
def usedSum (s : Store) : Nat := (s.slots.toList.map slotSize).foldr (· + ·) 0

/-- The number of live slots. -/
def liveCount (s : Store) : Nat := s.slots.toList.countP Option.isSome

/-- The representation invariant of a memory store. -/
structure Valid (s : Store) : Prop where
  /-- Slot 0 holds the root directory, inode 1, which has no parent. -/
  root : ∃ r, s.slot rootIndex = some r ∧ r.ino = 1 ∧ r.parent = none ∧ r.kind = .directory
  /-- The sibling links from a directory's oldest child meet live slots only, and end. -/
  chain : ∀ d r first, s.slot d = some r → r.body = .dir first → Chain s first (s.kids d)
  /-- Every other live slot names a live directory as parent, sits in its listing once and in
  no other listing. -/
  parent : ∀ i r, i ≠ rootIndex → s.slot i = some r →
    ∃ p, r.parent = some p ∧ s.IsDir p ∧ (s.kids p).count i = 1 ∧ ∀ q, q ≠ p → i ∉ s.kids q
  /-- The root is in no listing. -/
  rootFree : ∀ d, rootIndex ∉ s.kids d
  /-- The names of a listing are pairwise distinct. -/
  names : ∀ d, ((s.kids d).map s.nameAt).Nodup
  goodNames : ∀ d, ∀ i ∈ s.kids d, ∀ r, s.slot i = some r → GoodName r.name
  /-- The free list holds exactly the empty slots of the arena, each once. -/
  free : ∀ i, i ∈ s.free ↔ i < s.slots.size ∧ s.slot i = none
  freeNodup : s.free.Nodup
  live : s.live = s.liveCount
  /-- Live slots hold distinct inode numbers, all below the next one. -/
  inoInj : ∀ i j ri rj, s.slot i = some ri → s.slot j = some rj → ri.ino = rj.ino → i = j
  inoLt : ∀ i r, s.slot i = some r → r.ino < s.nextIno
  /-- The bytes in use are the content sizes added up, and within a nonzero budget. -/
  used : s.used = s.usedSum
  budget : s.budget ≠ 0 → s.used ≤ s.budget

theorem checkName_eq_ok_iff (name : String) : checkName name = .ok () ↔ GoodName name := by
  unfold checkName GoodName
  by_cases h1 : name.isEmpty <;> by_cases h2 : name.contains '/' <;> by_cases h3 : Path.fits name <;>
    simp [h1, h2, h3]

/-! ## Counting slots -/

theorem sum_map_set {α : Type} (f : α → Nat) :
    ∀ (l : List α) (i : Nat) (a : α) (h : i < l.length),
      ((l.set i a).map f).foldr (· + ·) 0 + f l[i] = (l.map f).foldr (· + ·) 0 + f a
  | [], _, _, h => absurd h (by simp)
  | x :: l, 0, a, _ => by simp only [List.set_cons_zero, List.map_cons, List.foldr_cons,
      List.getElem_cons_zero]; omega
  | x :: l, i + 1, a, h => by
    have := sum_map_set f l i a (by simpa using h)
    simp only [List.set_cons_succ, List.map_cons, List.foldr_cons, List.getElem_cons_succ]
    omega

theorem foldr_add_init (l : List Nat) (c : Nat) : l.foldr (· + ·) c = l.foldr (· + ·) 0 + c := by
  induction l with
  | nil => simp
  | cons x l ih => simp only [List.foldr_cons, ih]; omega

theorem slot_eq_getElem (s : Store) {i : Nat} (hi : i < s.slots.size) : s.slot i = s.slots[i] := by
  simp [slot, hi]

theorem usedSum_setSlot (s : Store) {i : Nat} (o : Option Record) (hi : i < s.slots.size) :
    (s.setSlot i o).usedSum + slotSize (s.slot i) = s.usedSum + slotSize o := by
  unfold usedSum setSlot
  rw [slot_eq_getElem s hi, Array.toList_setIfInBounds]
  have := sum_map_set slotSize s.slots.toList i o (by simpa using hi)
  simpa using this

theorem liveCount_setSlot (s : Store) {i : Nat} (o : Option Record) (hi : i < s.slots.size) :
    (s.setSlot i o).liveCount + (if (s.slot i).isSome then 1 else 0) =
      s.liveCount + (if o.isSome then 1 else 0) := by
  unfold liveCount setSlot
  rw [slot_eq_getElem s hi, Array.toList_setIfInBounds]
  have hlt : i < s.slots.toList.length := by simpa using hi
  rw [List.countP_set hlt]
  have hle := List.boole_getElem_le_countP (p := Option.isSome) (l := s.slots.toList) hlt
  simp only [Array.getElem_toList] at hle ⊢
  omega

theorem usedSum_push (s : Store) (o : Option Record) :
    ({ s with slots := s.slots.push o } : Store).usedSum = s.usedSum + slotSize o := by
  simp only [usedSum, Array.toList_push, List.map_append, List.foldr_append, List.map_cons,
    List.map_nil, List.foldr_cons, List.foldr_nil, Nat.add_zero]
  exact foldr_add_init _ _

theorem liveCount_push (s : Store) (o : Option Record) :
    ({ s with slots := s.slots.push o } : Store).liveCount =
      s.liveCount + (if o.isSome then 1 else 0) := by
  simp only [liveCount, Array.toList_push, List.countP_append]
  cases o <;> simp

/-- Changing a live record is setting its slot to the changed record. -/
theorem modifySlot_eq_setSlot (s : Store) (i : Nat) (f : Record → Record) :
    s.modifySlot i f = s.setSlot i ((s.slot i).map f) := by
  unfold modifySlot setSlot
  congr 1
  apply Array.ext_getElem?
  intro j
  rw [Array.getElem?_modify, Array.getElem?_setIfInBounds]
  by_cases h : i = j
  · subst h
    rcases Nat.lt_or_ge i s.slots.size with hi | hi
    · simp [slot, hi]
    · simp [Nat.not_lt.mpr hi]
  · simp [h]

theorem length_filter_range_getElem? {α : Type} (l : List α) (p : Option α → Bool) :
    ((List.range l.length).filter fun j => p l[j]?).length = l.countP fun a => p (some a) := by
  induction l with
  | nil => rfl
  | cons x l ih =>
    rw [List.length_cons, List.range_succ_eq_map, List.filter_cons, List.filter_map,
      List.countP_cons]
    by_cases hx : p (some x) <;> simp [hx, Function.comp_def, ih]

/-! ## Listings -/

theorem firstChild_eq_ok_iff (s : Store) (d : Nat) (first : Option Nat) :
    s.firstChild d = .ok first ↔ ∃ r, s.slot d = some r ∧ r.body = .dir first := by
  unfold firstChild
  cases s.slot d with
  | none => simp
  | some r => cases h : r.body <;> simp [h]

theorem kids_of_firstChild (s : Store) {d : Nat} {first : Option Nat}
    (h : s.firstChild d = .ok first) : s.kids d = s.chain first := by
  simp [kids, h]

theorem kids_of_dir (s : Store) {d : Nat} {r : Record} {first : Option Nat}
    (hd : s.slot d = some r) (hb : r.body = .dir first) : s.kids d = s.chain first :=
  kids_of_firstChild s ((firstChild_eq_ok_iff s d first).mpr ⟨r, hd, hb⟩)

theorem kids_of_not_dir (s : Store) {d : Nat} (hd : ¬ s.IsDir d) : s.kids d = [] := by
  unfold kids
  split
  · rename_i first heq
    obtain ⟨r, hr, hb⟩ := (firstChild_eq_ok_iff s d first).mp heq
    exact absurd ⟨r, first, hr, hb⟩ hd
  · rfl

/-! ## What the invariant gives -/

namespace Valid

variable {s : Store}

theorem kids_chain (hv : s.Valid) (d : Nat) : ∃ first, Chain s first (s.kids d) := by
  by_cases hd : s.IsDir d
  · obtain ⟨r, first, hr, hb⟩ := hd
    exact ⟨first, hv.chain d r first hr hb⟩
  · exact ⟨none, by rw [kids_of_not_dir s hd]; exact .nil⟩

theorem kids_nodup (hv : s.Valid) (d : Nat) : (s.kids d).Nodup := by
  obtain ⟨_, h⟩ := hv.kids_chain d
  exact h.nodup

theorem live_of_mem_kids (hv : s.Valid) {d i : Nat} (hi : i ∈ s.kids d) : s.slot i ≠ none := by
  obtain ⟨_, h⟩ := hv.kids_chain d
  exact h.live hi

/-- A slot of a listing names the listed directory as its parent. -/
theorem parent_of_mem_kids (hv : s.Valid) {d i : Nat} (hi : i ∈ s.kids d) :
    ∃ r, s.slot i = some r ∧ r.parent = some d := by
  have hroot : i ≠ rootIndex := fun h => hv.rootFree d (h ▸ hi)
  obtain ⟨r, hr⟩ := Option.ne_none_iff_exists'.mp (hv.live_of_mem_kids hi)
  obtain ⟨p, hp, _, _, hother⟩ := hv.parent i r hroot hr
  by_cases hpd : d = p
  · exact ⟨r, hr, hpd ▸ hp⟩
  · exact absurd hi (hother d hpd)

/-- A slot sits in one listing at most. -/
theorem eq_of_mem_kids (hv : s.Valid) {p q i : Nat} (hp : i ∈ s.kids p) (hq : i ∈ s.kids q) :
    p = q := by
  obtain ⟨r, hr, hrp⟩ := hv.parent_of_mem_kids hp
  obtain ⟨r', hr', hrq⟩ := hv.parent_of_mem_kids hq
  rw [hr] at hr'
  cases hr'
  rw [hrp] at hrq
  exact Option.some.inj hrq

/-- The arena has one slot per live inode and one per entry of the free list. -/
theorem size_eq (hv : s.Valid) : s.slots.size = s.live + s.free.length := by
  -- the free list is a permutation of the indices of the empty slots
  have hperm : s.free.Perm ((List.range s.slots.size).filter fun j => (s.slot j).isNone) := by
    refine (List.perm_ext_iff_of_nodup hv.freeNodup (List.nodup_range.filter _)).mpr fun j => ?_
    simp [hv.free j, Option.isNone_iff_eq_none]
  have hcount : ((List.range s.slots.size).filter fun j => (s.slot j).isNone).length =
      s.slots.toList.countP Option.isNone := by
    rw [← Array.length_toList]
    simpa [slot] using length_filter_range_getElem? s.slots.toList (fun o => o.join.isNone)
  rw [hv.live, liveCount, hperm.length_eq, hcount, ← Array.length_toList]
  have hsplit := List.length_eq_countP_add_countP Option.isSome (l := s.slots.toList)
  have hnone : (fun o : Option Record => decide ¬o.isSome = true) = Option.isNone := by
    funext o
    cases o <;> rfl
  rw [hnone] at hsplit
  exact hsplit

end Valid

theorem slot_empty (heap : Allocator) (budget i : Nat) :
    (empty heap budget).slot i = if i = rootIndex then some ⟨1, "/", none, none, .dir none⟩ else none := by
  cases i with
  | zero => rfl
  | succ i => simp [empty, slot, rootIndex]

theorem kids_empty (heap : Allocator) (budget d : Nat) : (empty heap budget).kids d = [] := by
  by_cases hd : d = rootIndex
  · rw [kids_of_dir _ (r := ⟨1, "/", none, none, .dir none⟩) (by rw [slot_empty, if_pos hd])
      rfl]
    rfl
  · refine kids_of_not_dir _ fun ⟨r, first, hr, _⟩ => ?_
    rw [slot_empty, if_neg hd] at hr
    cases hr

/-- A fresh store is valid. -/
theorem valid_empty (heap : Allocator) (budget : Nat) : (empty heap budget).Valid where
  root := ⟨_, slot_empty heap budget 0, rfl, rfl, rfl⟩
  chain d r first hd hb := by
    rw [slot_empty] at hd
    split at hd
    · cases hd
      cases hb
      rw [kids_empty]
      exact .nil
    · cases hd
  parent i r hi hr := by
    rw [slot_empty, if_neg hi] at hr
    cases hr
  rootFree d := by simp [kids_empty]
  names d := by simp [kids_empty]
  goodNames d := by simp [kids_empty]
  free i := by
    rw [slot_empty]
    constructor
    · intro h
      cases h
    · rintro ⟨hi, hn⟩
      have : i = rootIndex := by simpa [empty, rootIndex] using hi
      simp [this] at hn
  freeNodup := List.nodup_nil
  live := rfl
  inoInj i j ri rj hi hj _ := by
    rw [slot_empty] at hi hj
    split at hi <;> split at hj <;> simp_all
  inoLt i r hi := by
    rw [slot_empty] at hi
    split at hi
    · cases hi
      show 1 < 2
      omega
    · cases hi
  used := rfl
  budget _ := Nat.zero_le _

end KernelFs.Memory.Store
