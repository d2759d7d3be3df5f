import KernelFs.Proofs.Vfs.Run
import KernelFs.Proofs.Arena.Listing
import KernelFs.Vfs.Tree

/-!
# Listing a memory directory

A view of a memory directory answers, position by position, the entries of its listing (`readdir`,
src/crates/fs/src/memfs/inode.rs:411-422); the virtual file system gathers them until the first
position with none, with fuel for more entries than any store holds. So listing the path of a
directory gathers exactly its listing, oldest child first.

Results:
* `run_entry_memory`: a current view of a memory directory reads the listing's entry at each
  position, and none past its end, changing nothing.
* `run_collect`: with fuel for the rest of a listing, gathering collects exactly the rest.
* `run_readdir`: listing the path of a current memory directory view answers its listing.
-/

namespace KernelFs.Vfs

open Memory Backend

variable {w : Vfs} {st slot ino : Nat} {s : Store}

/-- A current view of a memory directory reads the listing's entry at each position, and none
past its end; nothing changes. -/
theorem run_entry_memory (hw : w.stores[st]? = some s) (hv : s.Valid) (hcur : s.Current slot ino)
    (hdir : s.IsDir slot) {nd : Node Handle} (hnd : nd.inode = .memory st slot ino .directory)
    (k : Nat) : (nd.entry Handle.inode k).run w = (.ok (s.listing slot)[k]?, w) := by
  have hq := run_query_ok (f := (·.entryAt slot ino k)) hw (hv.entryAt_eq_listing hcur hdir k)
  have hcaps : nd.supports Handle.inode .list = true := by
    simp only [Node.supports, hnd, Handle.inode, memoryInode]
    decide
  simp only [Node.entry, hcaps, Bool.not_true, Bool.false_eq_true, if_false, Node.attempt,
    run_bind, run_lift]
  simp [hnd, Handle.inode, memoryInode, hq]

/-- With fuel for the rest of a listing, gathering from a position collects exactly the rest of
the listing; the induction is on the fuel, one position per step. -/
theorem run_collect {nd : Node Handle} {L : List DirEntry}
    (hent : ∀ k, (nd.entry Handle.inode k).run w = (.ok L[k]?, w)) :
    ∀ fuel i acc, L.length ≤ i + fuel →
      (collect nd fuel i acc).run w = (.ok (acc ++ (L.drop i).toArray), w) := by
  intro fuel
  induction fuel with
  | zero =>
    intro i acc hlen
    simp [collect, List.drop_eq_nil_of_le (by omega : L.length ≤ i)]
  | succ fuel ih =>
    intro i acc hlen
    simp only [collect, run_bind, hent]
    by_cases hi : i < L.length
    · rw [List.getElem?_eq_getElem hi]
      simp only
      rw [ih (i + 1) (acc.push L[i]) (by omega), List.drop_eq_getElem_cons hi]
      simp
    · rw [List.getElem?_eq_none (by omega), List.drop_eq_nil_of_le (by omega)]
      simp

/-- Every store is smaller than the bound on listings. -/
theorem size_le_entryBound (hw : w.stores[st]? = some s) : s.slots.size ≤ entryBound w := by
  have hmem : s ∈ w.stores.toList := by simpa using Array.mem_of_getElem? hw
  have hfold : ∀ (l : List Store) (init : Nat), init ≤ l.foldl (fun acc x => acc + x.slots.size) init ∧
      ∀ x ∈ l, x.slots.size ≤ l.foldl (fun acc x => acc + x.slots.size) init := by
    intro l
    induction l with
    | nil => simp
    | cons x l ih =>
      intro init
      obtain ⟨h1, h2⟩ := ih (init + x.slots.size)
      refine ⟨by simp only [List.foldl_cons]; omega, fun y hy => ?_⟩
      rcases List.mem_cons.mp hy with rfl | hy
      · simp only [List.foldl_cons]
        omega
      · exact h2 y hy
  unfold entryBound
  rw [← Array.foldl_toList]
  have := (hfold w.stores.toList 0).2 s hmem
  omega

/-- Listing the path of a current view of a memory directory answers the directory's listing,
changing nothing after the path is resolved. -/
theorem run_readdir {path : String} {w' : Vfs} {nd : Node Handle}
    (hlook : (lookup path).run w = (.ok nd, w')) (hw : w'.stores[st]? = some s) (hv : s.Valid)
    (hcur : s.Current slot ino) (hdir : s.IsDir slot)
    (hnd : nd.inode = .memory st slot ino .directory) (hkind : nd.kind = .directory) :
    (readdir path).run w = (.ok (s.listing slot), w') := by
  have hcollect := run_collect (run_entry_memory hw hv hcur hdir hnd) (entryBound w') 0 #[]
    (Nat.le_trans (hv.length_listing_le slot) (by simpa using size_le_entryBound hw))
  unfold readdir
  rw [run_bind_ok hlook]
  simp only [Node.isDir, hkind]
  rw [if_neg (by decide), run_bind_ok (run_get w'), run_bind_ok hcollect]
  simp

end KernelFs.Vfs
