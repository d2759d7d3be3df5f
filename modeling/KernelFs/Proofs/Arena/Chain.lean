import KernelFs.Memory.Store

/-!
# Sibling chains

A directory's children are linked through the slots of the arena (the `first_child` and
`next_sibling` links of `InodeTable`, src/crates/fs/src/memfs/inode.rs:28-59). `Chain s start l`
says that following the sibling links of `s` from `start` meets the live slots `l`, in order, and
then ends. Everything about the order of a listing is said through this predicate; the walk that the
store runs is tied to it once, by `Chain.chain_eq`.

Results:
* `Chain.unique`, `Chain.nodup`, `Chain.length_le`: a start determines its chain, a chain meets
  no slot twice and is no longer than the arena.
* `Chain.chain_eq`: the bounded walk of the store finds the whole chain.
* `Chain.frame`: a chain survives any change that keeps its slots live and their links.
* `Chain.extend`, `Chain.bypass`: linking a new chain after the last slot appends it; linking a
  slot's predecessor to its successor erases it.
-/

namespace KernelFs.Memory.Store

/-! ## Reading slots after a change -/

theorem slot_setSlot (s : Store) {i : Nat} (j : Nat) (o : Option Record) (hi : i < s.slots.size) :
    (s.setSlot i o).slot j = if j = i then o else s.slot j := by
  unfold slot setSlot
  rw [Array.getElem?_setIfInBounds]
  by_cases h : j = i
  · subst h
    simp [hi]
  · simp [h, Ne.symm h]

theorem slot_modifySlot (s : Store) (i j : Nat) (f : Record → Record) :
    (s.modifySlot i f).slot j = if j = i then (s.slot i).map f else s.slot j := by
  unfold slot modifySlot
  rw [Array.getElem?_modify]
  by_cases h : j = i
  · subst h
    cases s.slots[j]? with
    | none => simp
    | some o => cases o <;> simp
  · simp [h, Ne.symm h]

theorem slot_push (s : Store) (j : Nat) (o : Option Record) :
    ({ s with slots := s.slots.push o } : Store).slot j =
      if j = s.slots.size then o else s.slot j := by
  unfold slot
  rw [Array.getElem?_push]
  split <;> simp

@[simp] theorem size_setSlot (s : Store) (i : Nat) (o : Option Record) :
    (s.setSlot i o).slots.size = s.slots.size := by
  simp [setSlot]

@[simp] theorem size_modifySlot (s : Store) (i : Nat) (f : Record → Record) :
    (s.modifySlot i f).slots.size = s.slots.size := by
  simp [modifySlot]

theorem lt_size_of_slot {s : Store} {i : Nat} (h : s.slot i ≠ none) : i < s.slots.size := by
  rcases Nat.lt_or_ge i s.slots.size with hi | hi
  · exact hi
  · simp [slot, Array.getElem?_eq_none hi] at h

/-! ## Chains -/

/-- Following sibling links from `start` meets the live slots `l`, in order, and then ends. -/
inductive Chain (s : Store) : Option Nat → List Nat → Prop where
  | nil : Chain s none []
  | cons {i : Nat} {l : List Nat} : s.slot i ≠ none → Chain s (s.after i) l →
      Chain s (some i) (i :: l)

variable {s t : Store} {start : Option Nat} {l : List Nat}

/-- A start determines its chain. -/
theorem Chain.unique {l' : List Nat} (h : Chain s start l) (h' : Chain s start l') : l = l' := by
  induction h generalizing l' with
  | nil => cases h'; rfl
  | cons _ _ ih =>
    cases h' with
    | cons _ hrest => rw [ih hrest]

/-- A chain from a slot is that slot, live, followed by the chain from its successor. -/
theorem Chain.of_some {i : Nat} (h : Chain s (some i) l) :
    ∃ rest, l = i :: rest ∧ s.slot i ≠ none ∧ Chain s (s.after i) rest := by
  cases h with
  | cons hi hrest => exact ⟨_, rfl, hi, hrest⟩

theorem Chain.live (h : Chain s start l) {j : Nat} (hj : j ∈ l) : s.slot j ≠ none := by
  induction h with
  | nil => simp at hj
  | cons hi _ ih =>
    rcases List.mem_cons.mp hj with rfl | hj
    · exact hi
    · exact ih hj

/-- The slot that a chain's slot links to is on the chain too. -/
theorem Chain.mem_of_after (h : Chain s start l) {j k : Nat} (hj : j ∈ l)
    (hk : s.after j = some k) : k ∈ l := by
  induction h with
  | nil => simp at hj
  | cons _ hrest ih =>
    rcases List.mem_cons.mp hj with rfl | hj
    · rw [hk] at hrest
      cases hrest
      exact List.mem_cons_of_mem _ List.mem_cons_self
    · exact List.mem_cons_of_mem _ (ih hj)

/-- Each slot of a chain starts the rest of it, which is no longer. -/
theorem Chain.suffix (h : Chain s start l) {j : Nat} (hj : j ∈ l) :
    ∃ l', Chain s (some j) l' ∧ l'.length ≤ l.length := by
  induction h with
  | nil => simp at hj
  | cons hi hrest ih =>
    rcases List.mem_cons.mp hj with rfl | hj
    · exact ⟨_, .cons hi hrest, Nat.le_refl _⟩
    · obtain ⟨l', hl', hlen⟩ := ih hj
      exact ⟨l', hl', by simp only [List.length_cons]; omega⟩

/-- A chain that ends meets no slot twice. -/
theorem Chain.nodup (h : Chain s start l) : l.Nodup := by
  induction h with
  | nil => exact List.nodup_nil
  | @cons i l hi hrest ih =>
    refine List.nodup_cons.mpr ⟨fun hmem => ?_, ih⟩
    -- coming back to `i` would make the rest at least as long as the whole chain
    obtain ⟨l', hl', hlen⟩ := hrest.suffix hmem
    have heq := (Chain.cons hi hrest).unique hl'
    subst heq
    simp only [List.length_cons] at hlen
    omega

theorem Chain.length_le (h : Chain s start l) : l.length ≤ s.slots.size := by
  have hsub : l ⊆ List.range s.slots.size := fun j hj =>
    List.mem_range.mpr (lt_size_of_slot (h.live hj))
  simpa using h.nodup.length_le_of_subset hsub

/-- With fuel for every slot of the chain, the walk finds the whole chain. -/
theorem Chain.walk_eq (h : Chain s start l) {fuel : Nat} (hfuel : l.length ≤ fuel) :
    s.walk fuel start = l := by
  induction h generalizing fuel with
  | nil => cases fuel <;> rfl
  | cons _ _ ih =>
    cases fuel with
    | zero => simp at hfuel
    | succ fuel =>
      simp only [walk, List.cons.injEq, true_and]
      exact ih (by simpa using hfuel)

/-- The store's own walk, with one step per slot, finds the whole chain. -/
theorem Chain.chain_eq (h : Chain s start l) : s.chain start = l :=
  h.walk_eq h.length_le

/-- Every slot of a chain but the first is the successor of a slot of the chain. -/
theorem Chain.exists_pred (h : Chain s start l) {c : Nat} (hc : c ∈ l) (hne : start ≠ some c) :
    ∃ j ∈ l, s.after j = some c := by
  induction h with
  | nil => simp at hc
  | @cons i l _ hrest ih =>
    have hci : c ≠ i := fun e => hne (by rw [e])
    have hcl : c ∈ l := by
      rcases List.mem_cons.mp hc with e | e
      · exact absurd e hci
      · exact e
    by_cases hai : s.after i = some c
    · exact ⟨i, List.mem_cons_self, hai⟩
    · obtain ⟨j, hj, hjc⟩ := ih hcl hai
      exact ⟨j, List.mem_cons_of_mem _ hj, hjc⟩

/-! ## Changing the arena under a chain -/

/-- A chain survives any change that keeps its slots live and their links as they were. -/
theorem Chain.frame (h : Chain s start l)
    (hkeep : ∀ j ∈ l, t.slot j ≠ none ∧ t.after j = s.after j) : Chain t start l := by
  induction h with
  | nil => exact .nil
  | @cons i l hi _ ih =>
    have hk := hkeep i List.mem_cons_self
    refine .cons hk.1 ?_
    rw [hk.2]
    exact ih fun j hj => hkeep j (List.mem_cons_of_mem _ hj)

/-- Linking the last slot of a chain to a further chain appends it. -/
theorem Chain.extend (h : Chain s start l) {last : Nat} {m : List Nat}
    (hlast : l.getLast? = some last) (hlive : ∀ j ∈ l, t.slot j ≠ none)
    (hafter : ∀ j ∈ l, j ≠ last → t.after j = s.after j) (hm : Chain t (t.after last) m) :
    Chain t start (l ++ m) := by
  induction h with
  | nil => simp at hlast
  | @cons i l hi hrest ih =>
    have hti := hlive i List.mem_cons_self
    cases l with
    | nil =>
      simp at hlast
      subst hlast
      exact .cons hti hm
    | cons k l =>
      have hne : i ≠ last := by
        intro heq
        have hmem : last ∈ k :: l := List.mem_of_getLast? (by simpa using hlast)
        exact List.nodup_cons.mp (Chain.cons hi hrest).nodup |>.1 (heq ▸ hmem)
      refine .cons hti ?_
      rw [hafter i List.mem_cons_self hne]
      exact ih (by simpa using hlast) (fun j hj => hlive j (List.mem_cons_of_mem _ hj))
        (fun j hj => hafter j (List.mem_cons_of_mem _ hj))

/-- Linking the predecessor of a slot to the slot's successor takes the slot out of the chain. -/
theorem Chain.bypass (h : Chain s start l) {prev i : Nat} (hprev : prev ∈ l)
    (hpi : s.after prev = some i) (hlive : ∀ j ∈ l, j ≠ i → t.slot j ≠ none)
    (hafter : ∀ j ∈ l, j ≠ i → j ≠ prev → t.after j = s.after j)
    (hlink : t.after prev = s.after i) : Chain t start (l.erase i) := by
  induction h with
  | nil => simp at hprev
  | @cons x l hx hrest ih =>
    have hnd := (Chain.cons hx hrest).nodup
    by_cases hxp : x = prev
    · subst hxp
      rw [hpi] at hrest
      cases hrest with
      | @cons _ l' hi hrest' =>
        have hxi : x ≠ i := by
          rintro rfl
          exact (List.nodup_cons.mp hnd).1 List.mem_cons_self
        have hnd' := List.nodup_cons.mp (List.nodup_cons.mp hnd).2
        rw [List.erase_cons_tail (by simpa using hxi), List.erase_cons_head]
        refine .cons (hlive x List.mem_cons_self hxi) ?_
        rw [hlink]
        refine hrest'.frame fun j hj => ⟨?_, ?_⟩
        · have hji : j ≠ i := fun e => hnd'.1 (e ▸ hj)
          exact hlive j (by simp [hj]) hji
        · have hji : j ≠ i := fun e => hnd'.1 (e ▸ hj)
          have hjx : j ≠ x := fun e => (List.nodup_cons.mp hnd).1 (by simp [← e, hj])
          exact hafter j (by simp [hj]) hji hjx
    · have hprev' : prev ∈ l := by
        rcases List.mem_cons.mp hprev with e | e
        · exact absurd e.symm hxp
        · exact e
      -- the chain cannot start at `i`: its predecessor would bring it back
      have hxi : x ≠ i := by
        rintro rfl
        exact (List.nodup_cons.mp hnd).1 (hrest.mem_of_after hprev' hpi)
      rw [List.erase_cons_tail (by simpa using hxi)]
      refine .cons (hlive x List.mem_cons_self hxi) ?_
      rw [hafter x List.mem_cons_self hxi hxp]
      exact ih hprev' (fun j hj => hlive j (List.mem_cons_of_mem _ hj))
        (fun j hj => hafter j (List.mem_cons_of_mem _ hj))

end KernelFs.Memory.Store
