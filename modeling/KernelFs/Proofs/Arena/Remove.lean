import KernelFs.Proofs.Arena.Insert

/-!
# Taking a child out

`remove` (`InodeTable::remove`, src/crates/fs/src/memfs/inode.rs:211-247) unlinks a slot from the
chain of the directory it names as parent and then empties it: when the slot is the oldest child the
directory starts at its successor, otherwise its predecessor skips it. The emptied slot goes on top
of the free list, where the next insertion takes it.

The two ways of unlinking are reduced to one statement, `Unlinked`: every slot keeps its record
up to links and every listing is the old one without the slot. Emptying the slot afterwards
touches no listing.

Results:
* `kids_remove`: every listing loses the removed slot and nothing else; the emptied slot lists
  nothing.
* `Valid.remove`: removing a slot that lists no children keeps the store valid.
-/

namespace KernelFs.Memory.Store

/-- What a successful removal did: it relinked the parent (oldest child) or the predecessor
(any other child), then emptied the slot. -/
theorem remove_eq_ok {s t : Store} {i : Nat} (h : s.remove i = .ok t) :
    ∃ r p first k g, s.slot i = some r ∧ r.parent = some p ∧ s.firstChild p = .ok first ∧
      t = (s.modifySlot k g).release i r.size ∧
      (first = some i ∧ k = p ∧ g = (·.withFirst r.next) ∨
        first ≠ some i ∧ (s.chain first).find? (fun j => s.after j == some i) = some k ∧
          g = ({ · with next := r.next })) := by
  unfold remove at h
  cases hr : s.slot i with
  | none => simp only [hr] at h; cases h
  | some r =>
    cases hp : r.parent with
    | none => simp only [hr, hp] at h; cases h
    | some p =>
      cases hf : s.firstChild p with
      | error e => simp only [hr, hp, hf, bind, Except.bind] at h; cases h
      | ok first =>
        simp only [hr, hp, hf, bind, Except.bind, pure, Except.pure] at h
        split at h
        · rename_i hhead
          cases h
          exact ⟨r, p, first, p, _, rfl, hp, hf, rfl,
            .inl ⟨hhead, rfl, rfl⟩⟩
        · rename_i hmid
          split at h
          · rename_i prev hprev
            cases h
            exact ⟨r, p, first, prev, _, rfl, hp, hf, rfl,
              .inr ⟨hmid, hprev, rfl⟩⟩
          · cases h

/-- A live slot with a parent is not the root, and sits in its parent's listing and in no
other. -/
theorem Valid.listed {s : Store} (hv : s.Valid) {i p : Nat} {r : Record}
    (hr : s.slot i = some r) (hp : r.parent = some p) :
    i ≠ rootIndex ∧ i ∈ s.kids p ∧ ∀ q, q ≠ p → i ∉ s.kids q := by
  have hi0 : i ≠ rootIndex := by
    rintro rfl
    obtain ⟨r0, hr0, -, hpar, -⟩ := hv.root
    rw [hr0] at hr
    cases hr
    rw [hpar] at hp
    cases hp
  obtain ⟨p', hp', -, hcount, hexcl⟩ := hv.parent i r hi0 hr
  rw [hp] at hp'
  cases hp'
  exact ⟨hi0, List.count_pos_iff.mp (by omega), hexcl⟩

/-- Removing a listed slot succeeds: its parent is a directory whose chain reaches it, either
first or after a predecessor. -/
theorem Valid.remove_ok {s : Store} (hv : s.Valid) {d c : Nat} (hc : c ∈ s.kids d) :
    ∃ t, s.remove c = .ok t := by
  obtain ⟨r, hr, hp⟩ := hv.parent_of_mem_kids hc
  cases hfirst : s.firstChild d with
  | error e => simp [kids, hfirst] at hc
  | ok first =>
    obtain ⟨rd, hrd, hbd⟩ := (firstChild_eq_ok_iff s d first).mp hfirst
    have hch : Chain s first (s.chain first) := kids_of_firstChild s hfirst ▸ hv.chain d rd first hrd hbd
    unfold remove
    simp only [hr, hp, hfirst, bind, Except.bind, pure, Except.pure]
    split
    · exact ⟨_, rfl⟩
    · rename_i hne
      obtain ⟨j, hj, hjc⟩ := hch.exists_pred (kids_of_firstChild s hfirst ▸ hc) hne
      have hsome : ((s.chain first).find? fun j => s.after j == some c).isSome :=
        List.find?_isSome.mpr ⟨j, hj, by simp [hjc]⟩
      obtain ⟨prev, hprev⟩ := Option.isSome_iff_exists.mp hsome
      rw [hprev]
      exact ⟨_, rfl⟩

/-! ## Unlinking -/

/-- `u` is `s` with slot `i` unlinked: every slot keeps its record up to links, and every other
listing is a chain, the one of `s` without `i`. -/
structure Unlinked (s u : Store) (i : Nat) : Prop where
  size : u.slots.size = s.slots.size
  slot : ∀ j, ∃ g : Record → Record, Record.Relinks g ∧ u.slot j = (s.slot j).map g
  listing : ∀ q, q ≠ i →
    u.kids q = (s.kids q).erase i ∧ ∀ f, u.firstChild q = .ok f → Chain u f (u.kids q)

section Unlink

variable {s : Store} {i p : Nat} {r : Record} (hv : s.Valid) (hr : s.slot i = some r)
  (hp : r.parent = some p)
include hv hr hp

/-- Unlinking the oldest child: the parent now starts at the child's successor. -/
theorem unlinked_head (hhead : s.firstChild p = .ok (some i)) :
    Unlinked s (s.modifySlot p (·.withFirst r.next)) i := by
  obtain ⟨-, -, hexcl⟩ := hv.listed hr hp
  obtain ⟨rp, hrp, hbp⟩ := (firstChild_eq_ok_iff s p _).mp hhead
  -- setting the oldest child keeps every slot live and every sibling link
  have hkeep : ∀ j, s.slot j ≠ none → (s.modifySlot p (·.withFirst r.next)).slot j ≠ none ∧
      (s.modifySlot p (·.withFirst r.next)).after j = s.after j := by
    intro j hj
    exact ⟨(live_modifySlot s p j _).mpr hj, after_modifySlot_of_next s p j (·.withFirst_next _)⟩
  have hfirst := fun q => firstChild_withFirst s q r.next ⟨rp, _, hrp, hbp⟩
  refine ⟨by simp, fun j => slot_modifySlot_relinks s p j (Record.relinks_withFirst _),
    fun q hq => ?_⟩
  generalize s.modifySlot p (·.withFirst r.next) = u at hkeep hfirst ⊢
  by_cases hqp : q = p
  · -- the listing of the parent was the child followed by the chain from its successor
    subst hqp
    obtain ⟨rest, hkq, -, hrest⟩ := (hv.chain q rp (some i) hrp hbp).of_some
    rw [show s.after i = r.next by simp [after, hr]] at hrest
    have hq' : u.firstChild q = .ok r.next := by rw [hfirst q, if_pos rfl]
    rw [hkq, List.erase_cons_head]
    exact listing_of_chain hq' (hrest.frame fun j hj => hkeep j (hrest.live hj))
  · have hq' : u.firstChild q = s.firstChild q := by rw [hfirst q, if_neg hqp]
    have hkeep' : ∀ j ∈ s.kids q, u.slot j ≠ none ∧ u.after j = s.after j :=
      fun j hj => hkeep j (hv.live_of_mem_kids hj)
    rw [List.erase_of_not_mem (hexcl q hqp)]
    exact ⟨hv.kids_frame hq' hkeep', hv.chain_frame hq' hkeep'⟩

/-- Unlinking any other child: its predecessor now links to its successor. -/
theorem unlinked_middle {first : Option Nat} {prev : Nat} (hfirst : s.firstChild p = .ok first)
    (hprev : (s.chain first).find? (fun j => s.after j == some i) = some prev) :
    Unlinked s (s.modifySlot prev ({ · with next := r.next })) i := by
  obtain ⟨-, -, hexcl⟩ := hv.listed hr hp
  have hprevp : prev ∈ s.kids p := kids_of_firstChild s hfirst ▸ List.mem_of_find?_eq_some hprev
  have hpi : s.after prev = some i := by simpa using List.find?_some hprev
  -- the new link of the predecessor is the old link of the child; nothing else changes
  have hlive : ∀ j, s.slot j ≠ none → (s.modifySlot prev ({ · with next := r.next })).slot j ≠ none :=
    fun j hj => (live_modifySlot s prev j _).mpr hj
  have hafter : ∀ j, j ≠ prev →
      (s.modifySlot prev ({ · with next := r.next })).after j = s.after j := by
    intro j hj
    rw [after_modifySlot, if_neg hj]
  have hlink : (s.modifySlot prev ({ · with next := r.next })).after prev = s.after i := by
    obtain ⟨x, hx⟩ := Option.ne_none_iff_exists'.mp (hv.live_of_mem_kids hprevp)
    rw [after_modifySlot, if_pos rfl, hx]
    simp [after, hr]
  have hfc : ∀ q, (s.modifySlot prev ({ · with next := r.next })).firstChild q = s.firstChild q :=
    fun q => firstChild_modifySlot s prev q fun _ => rfl
  refine ⟨by simp, fun j => slot_modifySlot_relinks s prev j (Record.relinks_next _),
    fun q hq => ?_⟩
  generalize s.modifySlot prev ({ · with next := r.next }) = u at hlive hafter hlink hfc ⊢
  by_cases hqp : q = p
  · -- the parent keeps its oldest child, and its chain skips the child
    subst hqp
    obtain ⟨rp, hrp, hbp⟩ := (firstChild_eq_ok_iff s q first).mp hfirst
    refine listing_of_chain (by rw [hfc, hfirst]) ?_
    exact (hv.chain q rp first hrp hbp).bypass hprevp hpi
      (fun j hj _ => hlive j (hv.live_of_mem_kids hj)) (fun j _ _ hjp => hafter j hjp) hlink
  · have hkeep : ∀ j ∈ s.kids q, u.slot j ≠ none ∧ u.after j = s.after j := by
      intro j hj
      refine ⟨hlive j (hv.live_of_mem_kids hj), hafter j fun e => hqp ?_⟩
      exact hv.eq_of_mem_kids hj (e ▸ hprevp)
    rw [List.erase_of_not_mem (hexcl q hqp)]
    exact ⟨hv.kids_frame (hfc q) hkeep, hv.chain_frame (hfc q) hkeep⟩

end Unlink

/-- Emptying an unlinked slot keeps the other listings: they are those of `s` without the
slot. -/
theorem Unlinked.release {s u : Store} {i : Nat} (hu : Unlinked s u i) (hv : s.Valid)
    (hi : s.slot i ≠ none) (size : Nat) {q : Nat} (hq : q ≠ i) :
    (u.release i size).kids q = (s.kids q).erase i ∧
      ∀ f, (u.release i size).firstChild q = .ok f →
        Chain (u.release i size) f ((u.release i size).kids q) := by
  have hiu : i < u.slots.size := hu.size ▸ lt_size_of_slot hi
  obtain ⟨hkids, hchain⟩ := hu.listing q hq
  have hfc := firstChild_release u size hiu hq
  rw [← hkids]
  cases hf : u.firstChild q with
  | error e =>
    refine ⟨by simp [kids, hfc, hf], fun f hf' => ?_⟩
    rw [hfc, hf] at hf'
    cases hf'
  | ok f =>
    have hni : i ∉ u.kids q := hkids ▸ (hv.kids_nodup q).not_mem_erase
    exact listing_of_chain (by rw [hfc, hf]) ((hchain f hf).release size hiu hni)

/-! ## After a removal -/

section Remove

variable {s t : Store} {i : Nat} (hv : s.Valid) (h : s.remove i = .ok t)
include hv h

/-- A successful removal unlinked a live slot by relinking one record, then emptied it. -/
theorem remove_shape :
    ∃ (r : Record) (p k : Nat) (g : Record → Record), s.slot i = some r ∧ r.parent = some p ∧
      Record.Relinks g ∧ Unlinked s (s.modifySlot k g) i ∧
      t = (s.modifySlot k g).release i r.size := by
  obtain ⟨r, p, first, k, g, hr, hp, hfirst, rfl, hcase⟩ := remove_eq_ok h
  refine ⟨r, p, k, g, hr, hp, ?_, ?_, rfl⟩
  · rcases hcase with ⟨-, -, rfl⟩ | ⟨-, -, rfl⟩
    · exact Record.relinks_withFirst _
    · exact Record.relinks_next _
  · rcases hcase with ⟨rfl, rfl, rfl⟩ | ⟨-, hprev, rfl⟩
    · exact unlinked_head hv hr hp hfirst
    · exact unlinked_middle hv hr hp hfirst hprev

theorem live_of_remove : s.slot i ≠ none := by
  obtain ⟨r, -, -, -, hr, -⟩ := remove_shape hv h
  simp [hr]

/-- The root is never removed: it has no parent. -/
theorem ne_root_of_remove : i ≠ rootIndex := by
  obtain ⟨r, p, -, -, hr, hp, -⟩ := remove_shape hv h
  exact (hv.listed hr hp).1

theorem slot_remove_self : t.slot i = none := by
  obtain ⟨r, -, k, g, hr, -, hg, hu, rfl⟩ := remove_shape hv h
  rw [slot_release _ _ (hu.size ▸ lt_size_of_slot (live_of_remove hv h)), if_pos rfl]

/-- Every other slot keeps its record up to links. -/
theorem slot_remove_of_ne {j : Nat} (hj : j ≠ i) :
    ∃ g : Record → Record, Record.Relinks g ∧ t.slot j = (s.slot j).map g := by
  obtain ⟨r, -, k, g, hr, -, hg, hu, rfl⟩ := remove_shape hv h
  rw [slot_release _ _ (hu.size ▸ lt_size_of_slot (live_of_remove hv h)), if_neg hj]
  exact hu.slot j

/-- A record left after a removal is one that was there, in another slot than the removed one,
with the same number, name, parent and kind. -/
theorem slot_remove_some {j : Nat} {x : Record} (hx : t.slot j = some x) :
    j ≠ i ∧ ∃ y, s.slot j = some y ∧ x.ino = y.ino ∧ x.name = y.name ∧ x.parent = y.parent ∧
      x.kind = y.kind := by
  have hj : j ≠ i := fun e => by rw [e, slot_remove_self hv h] at hx; cases hx
  obtain ⟨g, hg, hs⟩ := slot_remove_of_ne hv h hj
  exact ⟨hj, hg.map_eq_some (hs ▸ hx)⟩

theorem kids_chain_remove {q : Nat} (hq : q ≠ i) :
    t.kids q = (s.kids q).erase i ∧ ∀ f, t.firstChild q = .ok f → Chain t f (t.kids q) := by
  obtain ⟨r, -, k, g, hr, -, hg, hu, rfl⟩ := remove_shape hv h
  exact hu.release hv (live_of_remove hv h) r.size hq

/-- After a removal every listing is the old one without the removed slot, which lists
nothing. -/
theorem kids_remove (q : Nat) : t.kids q = if q = i then [] else (s.kids q).erase i := by
  split
  · rename_i hq
    subst hq
    exact kids_of_not_dir t fun ⟨_, _, hx, _⟩ => by rw [slot_remove_self hv h] at hx; cases hx
  · exact (kids_chain_remove hv h ‹_›).1

theorem kids_remove_sublist (q : Nat) : (t.kids q).Sublist (s.kids q) := by
  rw [kids_remove hv h]
  split
  · exact List.nil_sublist _
  · exact List.erase_sublist

theorem not_mem_kids_remove (q : Nat) : i ∉ t.kids q := by
  rw [kids_remove hv h]
  split
  · exact List.not_mem_nil
  · exact (hv.kids_nodup q).not_mem_erase

theorem counters_remove : t.free = i :: s.free ∧ t.nextIno = s.nextIno ∧ t.live = s.live - 1 ∧
    t.used = s.used - slotSize (s.slot i) ∧ t.budget = s.budget ∧
    t.slots.size = s.slots.size ∧ t.liveCount + 1 = s.liveCount ∧
    t.usedSum + slotSize (s.slot i) = s.usedSum := by
  obtain ⟨r, -, k, g, hr, -, hg, hu, rfl⟩ := remove_shape hv h
  have hiu := hu.size ▸ lt_size_of_slot (live_of_remove hv h)
  have hsize : slotSize ((s.modifySlot k g).slot i) = slotSize (s.slot i) := by
    rw [slot_modifySlot]
    split
    · rename_i hk
      subst hk
      rw [hr]
      exact hg.size r
    · rfl
  have hlive : (s.modifySlot k g).slot i ≠ none := (live_modifySlot s k i g).mpr (by simp [hr])
  refine ⟨rfl, rfl, rfl, by simp [release, modifySlot, hr, slotSize], rfl, by simp [release],
    ?_, ?_⟩
  · rw [liveCount_release _ _ hiu hlive, liveCount_modifySlot]
  · rw [← hsize, usedSum_release _ _ hiu, usedSum_modifySlot _ _ hg.size]

/-- Removing a slot that lists no children keeps the store valid. -/
theorem Valid.remove (hleaf : s.kids i = []) : t.Valid := by
  obtain ⟨hfree, hnext, hlive, hused, hbudget, hsize, hlc, hus⟩ := counters_remove hv h
  have hi := live_of_remove hv h
  have hti := slot_remove_self hv h
  have hsub := kids_remove_sublist hv h
  have hkeep : Keeps s t := fun j x hx => (slot_remove_some hv h hx).2
  refine ⟨?_, ?_, ?_, ?_, ?_, ?_, ?_, ?_, ?_, ?_, ?_, ?_, ?_⟩
  · obtain ⟨r0, hr0, h1, h2, h3⟩ := hv.root
    have h0i : rootIndex ≠ i := (ne_root_of_remove hv h).symm
    obtain ⟨g, hg, hs⟩ := slot_remove_of_ne hv h h0i
    exact ⟨g r0, by rw [hs, hr0]; rfl, by rw [hg.ino, h1], by rw [hg.parent, h2],
      by rw [hg.kind, h3]⟩
  · intro d x f hd hxb
    have hdi : d ≠ i := fun e => by rw [e, hti] at hd; cases hd
    exact (kids_chain_remove hv h hdi).2 f ((firstChild_eq_ok_iff t d f).mpr ⟨x, hd, hxb⟩)
  · intro j x hj0 hx
    obtain ⟨hji, y, hy, -, -, hpar, -⟩ := slot_remove_some hv h hx
    obtain ⟨p, hp, hpd, hcount, hexcl⟩ := hv.parent j y hj0 hy
    -- the parent is not the removed slot, which listed nothing
    have hpi : p ≠ i := by
      rintro rfl
      rw [hleaf] at hcount
      cases hcount
    obtain ⟨g, hg, hs⟩ := slot_remove_of_ne hv h hpi
    refine ⟨p, by rw [hpar, hp], (isDir_of_relinks hg hs).mpr hpd, ?_,
      fun q hq hm => hexcl q hq ((hsub q).subset hm)⟩
    rw [kids_remove hv h, if_neg hpi, List.count_erase_of_ne hji, hcount]
  · exact fun d hm => hv.rootFree d ((hsub d).subset hm)
  · intro d
    have hmap : (t.kids d).map t.nameAt = (t.kids d).map s.nameAt := by
      refine List.map_congr_left fun j hj => ?_
      have hji : j ≠ i := fun e => not_mem_kids_remove hv h d (e ▸ hj)
      obtain ⟨g, hg, hs⟩ := slot_remove_of_ne hv h hji
      exact nameAt_of_relinks hg hs
    rw [hmap]
    exact List.Nodup.sublist ((hsub d).map _) (hv.names d)
  · exact hv.goodNames_of_keeps hkeep fun d j hj => (hsub d).subset hj
  · -- the removed slot joins the free list; every other slot is empty exactly when it was
    intro j
    rw [hfree, hsize, List.mem_cons]
    by_cases hji : j = i
    · subst hji
      simp [hti, lt_size_of_slot hi]
    · obtain ⟨g, -, hs⟩ := slot_remove_of_ne hv h hji
      rw [hs, Option.map_eq_none_iff, ← hv.free j]
      simp [hji]
  · rw [hfree]
    exact List.nodup_cons.mpr ⟨fun hm => hi ((hv.free i).mp hm).2, hv.freeNodup⟩
  · rw [hlive, hv.live]
    omega
  · exact hv.inoInj_of_keeps hkeep
  · exact hv.inoLt_of_keeps hkeep (Nat.le_of_eq hnext.symm)
  · rw [hused, hv.used]
    omega
  · intro hb
    have := hv.budget (hbudget ▸ hb)
    omega

end Remove

end KernelFs.Memory.Store
