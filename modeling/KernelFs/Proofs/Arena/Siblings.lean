import KernelFs.Proofs.Arena.Invariant

/-!
# Walking a directory's children

The children of a directory are met by an iterator over slots (`Children`,
src/crates/fs/src/memfs/inode.rs:68-81): it stands on a slot, a call yields that slot and moves
along its sibling link, and once it stands on no slot every call yields nothing. `Store.advance n
start` is where the iterator stands after `n` calls from `start`, so call `n + 1` yields `advance n
start`; the store's own bounded walk `walk n start` collects the yields of the first `n` calls.

No step bound stops the iterator: it ends only because the links from a directory's oldest
child end. The invariant says that they do, within one link per slot, so the iterator yields
the directory's listing, in order, and then nothing (`Chain.advance_eq`), and the bounded walk
of the code, with one step per slot, loses none of it (`Chain.walk_take`). The listing holds
each live child of the directory once and nothing else (`Valid.mem_kids_iff`). The search for
the slot whose link leads to a child, which a removal runs from the head, finds the child's
predecessor in the listing whenever the child is not the head (`Valid.find_pred`).
-/

namespace KernelFs.Memory.Store

variable {s : Store} {start : Option Nat} {l : List Nat}

/-- Where the sibling iterator stands after `n` calls from `start`: each call yields the slot it
stands on and moves along that slot's sibling link; standing on no slot, it stays there. -/
def advance (s : Store) : Nat → Option Nat → Option Nat
  | 0, c => c
  | _ + 1, none => none
  | n + 1, some i => s.advance n (s.after i)

/-- Along a chain the iterator stands on the chain's slots in order, and then on none. -/
theorem Chain.advance_eq (h : Chain s start l) : ∀ n, s.advance n start = l[n]? := by
  induction h with
  | nil => intro n; cases n <;> rfl
  | cons _ _ ih =>
    intro n
    cases n with
    | zero => rfl
    | succ n => exact ih n

/-- The first `n` calls along a chain yield the first `n` slots of the chain. -/
theorem Chain.walk_take (h : Chain s start l) : ∀ n, s.walk n start = l.take n := by
  induction h with
  | nil => intro n; cases n <;> rfl
  | cons _ _ ih =>
    intro n
    cases n with
    | zero => rfl
    | succ n =>
      simp only [walk, List.take_succ_cons]
      rw [ih n]

/-- A slot of a chain whose link leads to `k` is followed by `k` in the chain. -/
theorem Chain.split_of_after (h : Chain s start l) {j k : Nat} (hj : j ∈ l)
    (hk : s.after j = some k) : ∃ l₁ l₂, l = l₁ ++ j :: k :: l₂ := by
  induction h with
  | nil => simp at hj
  | @cons i l _ hrest ih =>
    by_cases hji : j = i
    · subst hji
      rw [hk] at hrest
      obtain ⟨l₂, rfl, -, -⟩ := hrest.of_some
      exact ⟨[], l₂, rfl⟩
    · obtain ⟨l₁, l₂, rfl⟩ := ih (List.mem_of_ne_of_mem hji hj)
      exact ⟨i :: l₁, l₂, rfl⟩

namespace Valid

variable {d : Nat}

/-- A directory's listing holds exactly the live slots that name it as their parent. -/
theorem mem_kids_iff (hv : s.Valid) (i : Nat) :
    i ∈ s.kids d ↔ ∃ r, s.slot i = some r ∧ r.parent = some d := by
  constructor
  · exact hv.parent_of_mem_kids
  · rintro ⟨r, hr, hp⟩
    -- the root has no parent, so the slot hangs in the listing of its parent
    have hroot : i ≠ rootIndex := by
      rintro rfl
      obtain ⟨r0, h0, -, hnone, -⟩ := hv.root
      rw [hr] at h0
      cases h0
      rw [hp] at hnone
      cases hnone
    obtain ⟨q, hq, -, hcount, -⟩ := hv.parent i r hroot hr
    rw [hp] at hq
    cases hq
    exact List.count_pos_iff.mp (by omega)

/-- The search for the slot linking to a child that is not the head finds the child's
predecessor in the listing. -/
theorem find_pred (hv : s.Valid) {r : Record} {first : Option Nat} (hd : s.slot d = some r)
    (hb : r.body = .dir first) {c : Nat} (hc : c ∈ s.kids d) (hne : first ≠ some c) :
    ∃ prev l₁ l₂, s.kids d = l₁ ++ prev :: c :: l₂ ∧
      (s.chain first).find? (fun j => s.after j == some c) = some prev := by
  have hchain := hv.chain d r first hd hb
  rw [kids_of_dir s hd hb] at hchain hc ⊢
  rw [hchain.chain_eq] at hc ⊢
  obtain ⟨j, hj, hjc⟩ := hchain.exists_pred hc hne
  -- some slot of the chain links to the child, so the search stops at one
  obtain ⟨prev, hfind⟩ : ∃ prev, (s.chain first).find? (fun j => s.after j == some c) = some prev := by
    rw [hchain.chain_eq]
    exact Option.isSome_iff_exists.mp (List.find?_isSome.mpr ⟨j, hj, by simpa using hjc⟩)
  rw [hchain.chain_eq] at hfind
  have hprev : s.after prev = some c := by simpa using List.find?_some hfind
  obtain ⟨l₁, l₂, hsplit⟩ := hchain.split_of_after (List.mem_of_find?_eq_some hfind) hprev
  exact ⟨prev, l₁, l₂, hsplit, hfind⟩

end Valid

/-- The sibling iterator of a directory in a valid store ends, and yields exactly the
directory's children. The code lists the children of a directory record as the chain from its
oldest child, which is the directory's listing; following the sibling links from the oldest
child meets the listing's slots in order and then ends, within one link per slot of the arena.
So the iterator stands on the listing's slots one after the other and then on none, every later
call yielding nothing, and the bounded walk of the code collects the listing's first slots, all
of them once it has one step per slot. The listing meets no slot twice and holds exactly the
live slots that name the directory as their parent. The search for the slot that links to a
child that is not the head finds the child's predecessor in the listing. -/
theorem sibling_walk_lists_children {s : Store} (hv : s.Valid) {d : Nat} {r : Record}
    {first : Option Nat} (hd : s.slot d = some r) (hb : r.body = .dir first) :
    s.children r = .ok (s.kids d) ∧
    Chain s first (s.kids d) ∧
    (s.kids d).length ≤ s.slots.size ∧
    (∀ n, s.advance n first = (s.kids d)[n]?) ∧
    (∀ n, s.walk n first = (s.kids d).take n) ∧
    (s.kids d).Nodup ∧
    (∀ i, i ∈ s.kids d ↔ ∃ ri, s.slot i = some ri ∧ ri.parent = some d) ∧
    (∀ c ∈ s.kids d, first ≠ some c → ∃ prev l₁ l₂, s.kids d = l₁ ++ prev :: c :: l₂ ∧
      (s.chain first).find? (fun j => s.after j == some c) = some prev) := by
  have hchain := hv.chain d r first hd hb
  refine ⟨?_, hchain, hchain.length_le, hchain.advance_eq, hchain.walk_take, hv.kids_nodup d,
    hv.mem_kids_iff, fun c hc hne => hv.find_pred hd hb hc hne⟩
  rw [kids_of_dir s hd hb]
  simp [children, hb]

/-- Two files made in a fresh root are listed oldest first, and the search from the head finds
the first as the predecessor of the second. -/
theorem siblings_of_two_files :
    ∃ t u, (empty .host 0).insert rootIndex 1 "a" .file = .ok (t, 1, 2) ∧
      t.insert rootIndex 1 "b" .file = .ok (u, 2, 3) ∧ u.Valid ∧
      u.slot rootIndex = some ⟨1, "/", none, none, .dir (some 1)⟩ ∧ u.kids rootIndex = [1, 2] ∧
      (∀ n, u.advance n (some 1) = [1, 2][n]?) ∧
      ∃ prev l₁ l₂, u.kids rootIndex = l₁ ++ prev :: 2 :: l₂ ∧
        (u.chain (some 1)).find? (fun j => u.after j == some 2) = some prev := by
  have hga : GoodName "a" := by
    simp [GoodName, Path.fits, Path.nameLimit]
    decide
  have hgb : GoodName "b" := by
    simp [GoodName, Path.fits, Path.nameLimit]
    decide
  let t : Store :=
    { slots := #[some ⟨1, "/", none, none, .dir (some 1)⟩, some ⟨2, "a", some 0, none, .file .empty⟩]
      free := [], nextIno := 3, live := 2, used := 0, budget := 0, heap := .host }
  let u : Store :=
    { slots := #[some ⟨1, "/", none, none, .dir (some 1)⟩,
        some ⟨2, "a", some 0, some 2, .file .empty⟩, some ⟨3, "b", some 0, none, .file .empty⟩]
      free := [], nextIno := 4, live := 3, used := 0, budget := 0, heap := .host }
  have h1 : (empty .host 0).insert rootIndex 1 "a" .file = .ok (t, 1, 2) := rfl
  have h2 : t.insert rootIndex 1 "b" .file = .ok (u, 2, 3) := rfl
  have hv : u.Valid := ((valid_empty .host 0).insert h1 hga).insert h2 hgb
  have hroot : u.slot rootIndex = some ⟨1, "/", none, none, .dir (some 1)⟩ := rfl
  have hkids : u.kids rootIndex = [1, 2] := rfl
  obtain ⟨-, -, -, hadv, -, -, -, hpred⟩ := sibling_walk_lists_children hv hroot rfl
  refine ⟨t, u, h1, h2, hv, hroot, hkids, ?_, hpred 2 (by rw [hkids]; simp) (by simp)⟩
  rw [← hkids]
  exact hadv

end KernelFs.Memory.Store
