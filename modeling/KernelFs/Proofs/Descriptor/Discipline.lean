import KernelFs.Descriptor.Table

/-!
# The discipline of a descriptor table

A descriptor table (`FDTable`, src/crates/vfs/src/fd_table.rs:14-106) is read through `get?`, the
file a descriptor holds if any. Every operation keeps the table `Bounded`, no more slots than its
limit, so every table that calls build from an empty one is bounded. On a bounded table:

* `alloc` installs the file at the least descriptor below the limit that holds none and returns
  it (`alloc_eq_ok`), and fails, with `descriptorsExhausted`, exactly when every descriptor below
  the limit holds a file (`alloc_fails_iff`);
* `hasFree` holds exactly when fewer than `limit` descriptors are in use (`hasFree_iff_used_lt`);
* `close` succeeds exactly on a descriptor that holds a file, and frees that one alone
  (`close_eq_ok`, `close_eq_error`);
* `takeAll` hands back exactly the held pairs, in increasing order of descriptor, and leaves
  every descriptor free (`mem_takeAll`, `pairwise_takeAll`, `get?_takeAll`).

What a descriptor holds after a run of calls is read off the calls' answers alone
(`get?_run`): the file of the last allocation that returned the descriptor, unless a close of it
or an emptying of the table came after.
-/

namespace KernelFs.FdTable

variable {α : Type} {t t' : FdTable α} {fd k : Nat} {a : α}

/-! ## The view -/

/-- The file a descriptor holds, if any. -/
def get? (t : FdTable α) (fd : Nat) : Option α := (t.slots[fd]?).join

theorem get_eq_ok_iff : t.get fd = .ok a ↔ t.get? fd = some a := by
  unfold get get?
  cases (t.slots[fd]?).join <;> simp

theorem get_eq_error_iff {e : FsError} :
    t.get fd = .error e ↔ t.get? fd = none ∧ e = .invalidDescriptor := by
  unfold get get?
  cases (t.slots[fd]?).join <;> simp [eq_comm]

theorem get?_eq_none_of_le (h : t.slots.size ≤ fd) : t.get? fd = none := by
  simp [get?, Array.getElem?_eq_none h]

theorem get?_of_lt (h : fd < t.slots.size) : t.get? fd = t.slots[fd] := by
  simp [get?, Array.getElem?_eq_getElem h]

/-- A replaced file shows under its descriptor, if that one is open; the rest is unchanged. -/
@[simp] theorem get?_update (b : α) :
    (t.update fd b).get? k = if k = fd then (t.get? fd).map fun _ => b else t.get? k := by
  unfold update get?
  rw [Array.getElem?_modify]
  by_cases hk : k = fd
  · subst hk
    cases t.slots[k]? with
    | none => simp
    | some x => cases x <;> simp
  · simp [Ne.symm hk, hk]

@[simp] theorem size_update (b : α) : (t.update fd b).slots.size = t.slots.size :=
  Array.size_modify ..

@[simp] theorem limit_update (b : α) : (t.update fd b).limit = t.limit := rfl

/-- Of two replacements under one descriptor only the later shows. -/
@[simp] theorem update_update (b c : α) : (t.update fd b).update fd c = t.update fd c := by
  unfold update
  congr 1
  apply Array.ext (by simp)
  intro i _ _
  by_cases h : fd = i <;> simp [Array.getElem_modify, h, Option.map_map, Function.comp_def]

/-! ## Bounded tables -/

/-- A table whose slots do not outnumber its limit. -/
def Bounded (t : FdTable α) : Prop := t.slots.size ≤ t.limit

theorem bounded_empty (limit : Nat) : (empty limit : FdTable α).Bounded := Nat.zero_le _

theorem Bounded.update (hb : t.Bounded) (b : α) : (t.update fd b).Bounded := by
  unfold Bounded
  rw [size_update, limit_update]
  exact hb

/-- `fd` is the least descriptor below the limit that holds no file. -/
structure LeastFree (t : FdTable α) (fd : Nat) : Prop where
  lt_limit : fd < t.limit
  free : t.get? fd = none
  held_below : ∀ k < fd, (t.get? k).isSome

/-! ## Allocation -/

/-- A successful allocation installs the file at the least free descriptor below the limit and
returns it; no other descriptor changes, and the table stays bounded. -/
theorem alloc_eq_ok {fd : Nat} (hb : t.Bounded) (h : t.alloc a = .ok (fd, t')) :
    LeastFree t fd ∧ t'.limit = t.limit ∧ t'.Bounded ∧
      ∀ k, t'.get? k = if k = fd then some a else t.get? k := by
  unfold alloc at h
  split at h
  · -- a free slot inside the table: the first one
    rename_i i hi
    cases h
    obtain ⟨hlt, hnone, hbelow⟩ := Array.findIdx?_eq_some_iff_getElem.mp hi
    refine ⟨⟨by unfold Bounded at hb; omega, ?_, fun k hk => ?_⟩, rfl, ?_, fun k => ?_⟩
    · rw [get?_of_lt hlt]
      simpa using hnone
    · rw [get?_of_lt (by omega)]
      simpa [Option.isSome_iff_ne_none] using hbelow k hk
    · unfold Bounded at hb ⊢
      simpa using hb
    · unfold get?
      rw [Array.getElem?_modify]
      by_cases hk : k = fd
      · subst hk
        simp [Array.getElem?_eq_getElem hlt]
      · simp [Ne.symm hk, hk]
  · -- every slot is held: the table grows by one, if the limit allows
    rename_i hi
    split at h
    · rename_i hsize
      cases h
      have hheld := Array.findIdx?_eq_none_iff.mp hi
      refine ⟨⟨hsize, get?_eq_none_of_le (Nat.le_refl _), fun k hk => ?_⟩, rfl, ?_, fun k => ?_⟩
      · rw [get?_of_lt hk]
        simpa using hheld _ (Array.getElem_mem hk)
      · unfold Bounded
        rw [Array.size_push]
        exact hsize
      · unfold get?
        rw [Array.getElem?_push]
        by_cases hk : k = t.slots.size <;> simp [hk]
    · cases h

/-- An allocation fails only with every slot held and no room to grow. -/
theorem alloc_eq_error {e : FsError} (h : t.alloc a = .error e) :
    e = .descriptorsExhausted ∧ t.limit ≤ t.slots.size ∧ ∀ k < t.slots.size, (t.get? k).isSome := by
  unfold alloc at h
  split at h
  · cases h
  · rename_i hi
    split at h
    · cases h
    · rename_i hsize
      cases h
      refine ⟨rfl, by omega, fun k hk => ?_⟩
      rw [get?_of_lt hk]
      simpa using Array.findIdx?_eq_none_iff.mp hi _ (Array.getElem_mem hk)

/-- On a bounded table an allocation fails exactly when every descriptor below the limit holds
a file. -/
theorem alloc_fails_iff (hb : t.Bounded) :
    (∃ e, t.alloc a = .error e) ↔ ∀ k < t.limit, (t.get? k).isSome := by
  constructor
  · rintro ⟨e, h⟩ k hk
    obtain ⟨-, hle, hheld⟩ := alloc_eq_error h
    exact hheld k (by omega)
  · intro hheld
    rcases h : t.alloc a with e | ⟨fd, t'⟩
    · exact ⟨e, rfl⟩
    · have hfree := (alloc_eq_ok hb h).1
      have := hheld fd hfree.lt_limit
      rw [hfree.free] at this
      cases this

/-! ## Free descriptors and use -/

/-- Some descriptor below the limit is free exactly when the table has room. -/
theorem hasFree_iff_exists (hb : t.Bounded) : t.hasFree = true ↔ ∃ k < t.limit, t.get? k = none := by
  unfold hasFree
  simp only [Bool.or_eq_true, decide_eq_true_eq, Array.any_eq_true]
  constructor
  · rintro (hsize | ⟨i, hi, hnone⟩)
    · exact ⟨t.slots.size, hsize, get?_eq_none_of_le (Nat.le_refl _)⟩
    · refine ⟨i, by unfold Bounded at hb; omega, ?_⟩
      rw [get?_of_lt hi]
      simpa using hnone
  · rintro ⟨k, hk, hnone⟩
    by_cases hks : k < t.slots.size
    · rw [get?_of_lt hks] at hnone
      exact .inr ⟨k, hks, by simpa using hnone⟩
    · exact .inl (by omega)

theorem used_le_size (t : FdTable α) : t.used ≤ t.slots.size := by
  unfold used
  simpa using List.countP_le_length (p := Option.isSome) (l := t.slots.toList)

/-- Fewer descriptors than the limit are in use exactly when one below the limit is free. -/
theorem used_lt_iff_exists (hb : t.Bounded) : t.used < t.limit ↔ ∃ k < t.limit, t.get? k = none := by
  unfold Bounded at hb
  constructor
  · intro hlt
    by_cases hsize : t.slots.size < t.limit
    · exact ⟨t.slots.size, hsize, get?_eq_none_of_le (Nat.le_refl _)⟩
    · -- the table is full, so some slot in it is free
      have hlt' : (t.slots.toList.filter Option.isSome).length < t.slots.toList.length := by
        rw [← List.countP_eq_length_filter]
        unfold used at hlt
        simp only [Array.length_toList]
        omega
      obtain ⟨x, hx, hfree⟩ := List.length_filter_lt_length_iff_exists.mp hlt'
      obtain ⟨i, hi, rfl⟩ := Array.mem_iff_getElem.mp (Array.mem_toList_iff.mp hx)
      exact ⟨i, by omega, by rw [get?_of_lt hi]; simpa using hfree⟩
  · rintro ⟨k, hk, hnone⟩
    by_cases hks : k < t.slots.size
    · -- a free slot inside the table is not counted
      rw [get?_of_lt hks] at hnone
      have hmem : t.slots[k] ∈ t.slots.toList := Array.mem_toList_iff.mpr (Array.getElem_mem hks)
      have hne : t.used ≠ t.slots.toList.length := by
        unfold used
        intro heq
        have := List.countP_eq_length.mp heq _ hmem
        rw [hnone] at this
        cases this
      have := used_le_size t
      simp only [Array.length_toList] at hne
      omega
    · have := used_le_size t
      omega

/-- On a bounded table, there is room exactly when fewer descriptors than the limit are used. -/
theorem hasFree_iff_used_lt (hb : t.Bounded) : t.hasFree = true ↔ t.used < t.limit :=
  (hasFree_iff_exists hb).trans (used_lt_iff_exists hb).symm

/-- With room in the table, an allocation succeeds. -/
theorem alloc_ok_of_hasFree (h : t.hasFree = true) : ∃ fd t', t.alloc a = .ok (fd, t') := by
  unfold alloc
  split
  · exact ⟨_, _, rfl⟩
  · rename_i hi
    rw [if_pos]
    · exact ⟨_, _, rfl⟩
    · -- no slot in the table is free, so the room is past its end
      unfold hasFree at h
      simp only [Bool.or_eq_true, decide_eq_true_eq, Array.any_eq_true] at h
      rcases h with hsize | ⟨i, hi', hnone⟩
      · exact hsize
      · have := Array.findIdx?_eq_none_iff.mp hi _ (Array.getElem_mem hi')
        rw [hnone] at this
        cases this

/-! ## Closing -/

/-- Closing a descriptor that holds a file hands it back and frees that descriptor alone. -/
theorem close_eq_ok (h : t.get? fd = some a) :
    ∃ t', t.close fd = .ok (a, t') ∧ t'.limit = t.limit ∧ t'.slots.size = t.slots.size ∧
      ∀ k, t'.get? k = if k = fd then none else t.get? k := by
  refine ⟨{ t with slots := t.slots.modify fd fun _ => none }, ?_, rfl, Array.size_modify .., ?_⟩
  · have hget : t.get fd = .ok a := get_eq_ok_iff.mpr h
    unfold close
    rw [hget]
    rfl
  · intro k
    unfold get?
    simp only [Array.getElem?_modify]
    by_cases hk : k = fd
    · subst hk
      simp only [if_true]
      cases t.slots[k]? <;> rfl
    · simp [Ne.symm hk, hk]

/-- Closing a descriptor that holds no file is refused. -/
theorem close_eq_error (h : t.get? fd = none) : t.close fd = .error .invalidDescriptor := by
  have hget : t.get fd = .error .invalidDescriptor := get_eq_error_iff.mpr ⟨h, rfl⟩
  unfold close
  rw [hget]
  rfl

/-! ## Emptying the table -/

theorem mem_held {a : α} (xs : List (Option α)) :
    ∀ fd k, (k, a) ∈ held fd xs ↔ ∃ i, k = fd + i ∧ xs[i]? = some (some a) := by
  induction xs with
  | nil => simp [held]
  | cons x rest ih =>
    intro fd k
    cases x with
    | none =>
      -- the first slot is free: the pairs are those of the rest, one descriptor further on
      rw [held, ih]
      constructor
      · rintro ⟨i, rfl, hi⟩
        exact ⟨i + 1, by omega, by simpa using hi⟩
      · rintro ⟨i, rfl, hi⟩
        cases i with
        | zero => simp at hi
        | succ i => exact ⟨i, by omega, by simpa using hi⟩
    | some b =>
      rw [held, List.mem_cons, ih]
      constructor
      · rintro (hk | ⟨i, rfl, hi⟩)
        · cases hk
          exact ⟨0, rfl, rfl⟩
        · exact ⟨i + 1, by omega, by simpa using hi⟩
      · rintro ⟨i, rfl, hi⟩
        cases i with
        | zero =>
          simp only [List.getElem?_cons_zero, Option.some.injEq] at hi
          exact .inl (by rw [hi]; rfl)
        | succ i => exact .inr ⟨i, by omega, by simpa using hi⟩

theorem le_of_mem_held (xs : List (Option α)) :
    ∀ fd (p : Nat × α), p ∈ held fd xs → fd ≤ p.1 := by
  intro fd p hp
  obtain ⟨i, hi, -⟩ := (mem_held xs fd p.1).mp hp
  omega

theorem pairwise_held (xs : List (Option α)) :
    ∀ fd, ((held fd xs).map Prod.fst).Pairwise (· < ·) := by
  induction xs with
  | nil => simp [held]
  | cons x rest ih =>
    intro fd
    cases x with
    | none => exact ih (fd + 1)
    | some b =>
      rw [held, List.map_cons, List.pairwise_cons]
      refine ⟨fun k hk => ?_, ih (fd + 1)⟩
      obtain ⟨p, hp, rfl⟩ := List.mem_map.mp hk
      have := le_of_mem_held rest (fd + 1) p hp
      omega

/-- `takeAll` hands back exactly the held pairs. -/
theorem mem_takeAll (p : Nat × α) : p ∈ t.takeAll.1 ↔ t.get? p.1 = some p.2 := by
  obtain ⟨k, b⟩ := p
  simp only [takeAll, mem_held, Nat.zero_add, exists_eq_left', Array.getElem?_toList, get?,
    Option.join_eq_some_iff]

/-- `takeAll` hands the pairs back in increasing order of descriptor. -/
theorem pairwise_takeAll (t : FdTable α) : (t.takeAll.1.map Prod.fst).Pairwise (· < ·) :=
  pairwise_held _ 0

/-- After `takeAll` every descriptor is free, and the table keeps its slots and limit. -/
@[simp] theorem get?_takeAll (t : FdTable α) (k : Nat) : t.takeAll.2.get? k = none := by
  simp only [takeAll, get?, Array.getElem?_map]
  cases t.slots[k]? <;> rfl

@[simp] theorem size_takeAll (t : FdTable α) : t.takeAll.2.slots.size = t.slots.size := by
  simp [takeAll]

@[simp] theorem limit_takeAll (t : FdTable α) : t.takeAll.2.limit = t.limit := rfl

theorem Bounded.takeAll (hb : t.Bounded) : t.takeAll.2.Bounded := by
  unfold Bounded
  rw [size_takeAll, limit_takeAll]
  exact hb

/-! ## Runs of calls -/

/-- A call that may change a descriptor table. -/
inductive Call (α : Type) where
  | alloc (a : α)
  | close (fd : Nat)
  | takeAll

/-- What a call answered its caller. -/
inductive Answer (α : Type) where
  /-- An allocation returned this descriptor for this file. -/
  | allocated (fd : Nat) (a : α)
  /-- A close of this descriptor succeeded. -/
  | closed (fd : Nat)
  /-- The table was emptied. -/
  | emptied
  /-- The call failed. -/
  | refused

/-- Makes a call, giving its answer and the table it left. -/
def Call.step (t : FdTable α) : Call α → Answer α × FdTable α
  | .alloc a =>
    match t.alloc a with
    | .ok (fd, t') => (.allocated fd a, t')
    | .error _ => (.refused, t)
  | .close fd =>
    match t.close fd with
    | .ok (_, t') => (.closed fd, t')
    | .error _ => (.refused, t)
  | .takeAll => (.emptied, t.takeAll.2)

/-- Makes calls in order, giving their answers, oldest first, and the table they left. -/
def run (t : FdTable α) : List (Call α) → List (Answer α) × FdTable α
  | [] => ([], t)
  | c :: cs =>
    let (r, t') := Call.step t c
    let (rs, t'') := run t' cs
    (r :: rs, t'')

/-- What a descriptor holds after an answer, given what it held before: the file of an
allocation that returned it, nothing after a close of it or an emptying, else as before. -/
def Answer.holds (fd : Nat) (held : Option α) : Answer α → Option α
  | .allocated fd' a => if fd' = fd then some a else held
  | .closed fd' => if fd' = fd then none else held
  | .emptied => none
  | .refused => held

/-- One call keeps the table bounded and its limit, and changes what each descriptor holds as
its answer says. -/
theorem step_spec (hb : t.Bounded) (c : Call α) :
    (c.step t).2.Bounded ∧ (c.step t).2.limit = t.limit ∧
      ∀ fd, (c.step t).2.get? fd = (c.step t).1.holds fd (t.get? fd) := by
  cases c with
  | alloc a =>
    dsimp only [Call.step]
    rcases h : t.alloc a with e | ⟨fd, t'⟩
    · exact ⟨hb, rfl, fun _ => rfl⟩
    · obtain ⟨-, hlim, hb', hget⟩ := alloc_eq_ok hb h
      exact ⟨hb', hlim, fun k => by rw [hget k]; simp [Answer.holds, eq_comm]⟩
  | close fd =>
    dsimp only [Call.step]
    cases hfd : t.get? fd with
    | none =>
      rw [close_eq_error hfd]
      exact ⟨hb, rfl, fun _ => rfl⟩
    | some a =>
      obtain ⟨t', hclose, hlim, hsize, hget⟩ := close_eq_ok hfd
      rw [hclose]
      refine ⟨by unfold Bounded; rw [hsize, hlim]; exact hb, hlim, fun k => ?_⟩
      rw [hget k]
      simp [Answer.holds, eq_comm]
  | takeAll =>
    exact ⟨hb.takeAll, rfl, fun k => by simp [Call.step, Answer.holds]⟩

/-- After any run of calls on a bounded table, the table is bounded, has its limit, and each
descriptor holds what the answers say, replayed from what it held at the start. -/
theorem run_spec (cs : List (Call α)) :
    ∀ t : FdTable α, t.Bounded → (run t cs).2.Bounded ∧ (run t cs).2.limit = t.limit ∧
      ∀ fd, (run t cs).2.get? fd = (run t cs).1.foldl (fun h r => r.holds fd h) (t.get? fd) := by
  induction cs with
  | nil => exact fun t hb => ⟨hb, rfl, fun _ => rfl⟩
  | cons c cs ih =>
    intro t hb
    obtain ⟨hb1, hlim1, hget1⟩ := step_spec hb c
    obtain ⟨hb2, hlim2, hget2⟩ := ih _ hb1
    refine ⟨hb2, hlim2.trans hlim1, fun fd => ?_⟩
    simp only [run, List.foldl_cons]
    rw [hget2, hget1]

/-- From an empty table, a descriptor holds the file of the last allocation that returned it,
unless a close of it or an emptying came after, and nothing otherwise. -/
theorem get?_run (limit : Nat) (cs : List (Call α)) (fd : Nat) :
    (run (empty limit) cs).2.get? fd = (run (empty limit) cs).1.foldl (fun h r => r.holds fd h) none :=
  (run_spec cs _ (bounded_empty limit)).2.2 fd

end KernelFs.FdTable
