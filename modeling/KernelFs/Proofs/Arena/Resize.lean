import KernelFs.Proofs.Arena.Remove

/-!
# Changing a file's content

A file's content changes in place (`truncate` and `write_at`,
src/crates/fs/src/memfs/inode.rs:398-409 and 461-470): `resize` cuts it or grows it with zeros,
charging the bytes in use against the budget, and `writeAt` grows the file to the end of the write
before placing the bytes. Neither touches a link, a name or a number, so every listing stays as it
was.

Results:
* `Valid.setData`: replacing a file's content keeps the store valid, when the bytes in use are
  counted again and stay within the budget.
* `Valid.resize`, `Valid.writeAt`: every successful resize and write keeps the store valid.
-/

namespace KernelFs.Memory.Store

theorem fileData_eq_ok_iff (s : Store) (i ino : Nat) (d : ByteArray) :
    s.fileData i ino = .ok d ↔ ∃ r, s.slot i = some r ∧ r.ino = ino ∧ r.body = .file d := by
  unfold fileData
  cases hg : s.get i ino with
  | error e =>
    simp only [bind, Except.bind, reduceCtorEq, false_iff, not_exists, not_and]
    intro r hr hino _
    rw [(get_eq_ok_iff s i ino r).mpr ⟨hr, hino⟩] at hg
    cases hg
  | ok r =>
    obtain ⟨hr, hino⟩ := (get_eq_ok_iff s i ino r).mp hg
    simp only [bind, Except.bind]
    constructor
    · intro h
      cases hb : r.body with
      | file d' => simp only [hb, pure, Except.pure, Except.ok.injEq] at h; exact ⟨r, hr, hino, h ▸ hb⟩
      | dir f => simp only [hb] at h; cases h
    · rintro ⟨r', hr', -, hb⟩
      rw [hr] at hr'
      cases hr'
      simp [hb, pure, Except.pure]

/-- A granted charge stays within the word and the budget, and counts the new bytes. -/
theorem charge_eq_ok {s t : Store} {extra : Nat} (h : s.charge extra = .ok t) :
    s.used + extra < wordSize ∧ (s.budget ≠ 0 → s.used + extra ≤ s.budget) ∧
      t = { s with used := s.used + extra } := by
  unfold charge at h
  dsimp only at h
  split at h
  · cases h
  · split at h
    · cases h
    · cases h
      refine ⟨by omega, fun hb => ?_, rfl⟩
      omega

/-- What a successful resize did: cut the content and gave the bytes back, or grew it with
zeros within the word and the budget to a size the heap granted, and charged the new bytes. -/
theorem resize_eq_ok {s t : Store} {i ino n : Nat} {g : Option Growth}
    (h : s.resize i ino n = .ok (t, g)) :
    ∃ d, s.fileData i ino = .ok d ∧
      (n ≤ d.size ∧ g = none ∧ t = { s.setData i (cut d n) with used := s.used - (d.size - n) } ∨
        d.size < n ∧ s.heap.grants n = true ∧ s.used + (n - d.size) < wordSize ∧
          (s.budget ≠ 0 → s.used + (n - d.size) ≤ s.budget) ∧ g = some ⟨ino, d.size, n⟩ ∧
          t = { s.setData i (grow d n) with used := s.used + (n - d.size) }) := by
  unfold resize at h
  cases hd : s.fileData i ino with
  | error e => simp only [hd, bind, Except.bind] at h; cases h
  | ok d =>
    simp only [hd, bind, Except.bind, pure, Except.pure] at h
    refine ⟨d, rfl, ?_⟩
    split at h
    · cases h
      exact .inl ⟨by assumption, rfl, rfl⟩
    · rename_i hlt
      cases hc : s.charge (n - d.size) with
      | error e => simp only [hc] at h; cases h
      | ok c =>
        obtain ⟨hw, hb, rfl⟩ := charge_eq_ok hc
        simp only [hc] at h
        split at h
        · cases h
        · rename_i hgrant
          cases h
          exact .inr ⟨by omega, by simpa using hgrant, hw, hb, rfl, rfl⟩

/-! ## Replacing a file's content -/

section SetData

variable {s : Store} {i : Nat} {r : Record} {d : ByteArray} (hr : s.slot i = some r)
  (hb : r.body = .file d) (d' : ByteArray)
include hr hb

omit hb in
theorem slot_setData (j : Nat) :
    (s.setData i d').slot j = if j = i then some { r with body := .file d' } else s.slot j := by
  unfold setData
  rw [slot_modifySlot, hr]
  rfl

/-- A file slot stays a file slot, so no slot changes what it starts from. -/
theorem firstChild_setData (q : Nat) : (s.setData i d').firstChild q = s.firstChild q := by
  unfold firstChild
  rw [slot_setData hr]
  by_cases hq : q = i
  · subst hq
    simp [hr, hb]
  · rw [if_neg hq]

omit hb in
theorem slot_setData_self : (s.setData i d').slot i = some { r with body := .file d' } := by
  rw [slot_setData hr, if_pos rfl]

omit hb in
theorem slot_setData_of_ne {j : Nat} (hj : j ≠ i) : (s.setData i d').slot j = s.slot j := by
  rw [slot_setData hr, if_neg hj]

omit d' in
/-- A file's slot holds no directory. -/
theorem ne_of_isDir {q : Nat} (hq : s.IsDir q) : q ≠ i := by
  rintro rfl
  obtain ⟨x, f, hx, hxb⟩ := hq
  rw [hr] at hx
  cases hx
  rw [hb] at hxb
  cases hxb

theorem isDir_setData (q : Nat) : (s.setData i d').IsDir q ↔ s.IsDir q := by
  by_cases hq : q = i
  · -- the slot holds a file before and after
    subst hq
    exact iff_of_false (fun h => ne_of_isDir (slot_setData_self hr d') rfl h rfl)
      (fun h => ne_of_isDir hr hb h rfl)
  · unfold IsDir
    rw [slot_setData_of_ne hr d' hq]

omit hb in
theorem nameAt_setData (j : Nat) : (s.setData i d').nameAt j = s.nameAt j := by
  unfold nameAt
  by_cases hj : j = i
  · subst hj
    rw [slot_setData_self hr, hr]
    rfl
  · rw [slot_setData_of_ne hr d' hj]

omit hr hb in
/-- The new content moves no sibling link and empties no slot. -/
theorem frame_setData (hv : s.Valid) {q j : Nat} (hj : j ∈ s.kids q) :
    (s.setData i d').slot j ≠ none ∧ (s.setData i d').after j = s.after j :=
  ⟨(live_modifySlot s i j _).mpr (hv.live_of_mem_kids hj),
    after_modifySlot_of_next s i j fun _ => rfl⟩

omit hr hb in
theorem slot_setData_eq_none (j : Nat) : (s.setData i d').slot j = none ↔ s.slot j = none :=
  Decidable.not_iff_not.mp (live_modifySlot s i j _)

theorem kids_setData (hv : s.Valid) (q : Nat) : (s.setData i d').kids q = s.kids q :=
  hv.kids_frame (firstChild_setData hr hb d' q) fun _ hj => frame_setData d' hv hj

theorem slot_setData_some {j : Nat} {x : Record} (hx : (s.setData i d').slot j = some x) :
    ∃ y, s.slot j = some y ∧ x.ino = y.ino ∧ x.name = y.name ∧ x.parent = y.parent ∧
      x.kind = y.kind := by
  rw [slot_setData hr] at hx
  split at hx
  · rename_i hj
    cases hx
    subst hj
    exact ⟨r, hr, rfl, rfl, rfl, by simp [Record.kind, hb]⟩
  · exact ⟨x, hx, rfl, rfl, rfl, rfl⟩

/-- The bytes counted move by the difference of the two contents. -/
theorem usedSum_setData : (s.setData i d').usedSum + d.size = s.usedSum + d'.size := by
  have := usedSum_setSlot s (some { r with body := .file d' })
    (lt_size_of_slot (i := i) (by simp [hr]))
  rw [hr] at this
  simp only [slotSize, Record.size, hb] at this
  rw [Store.setData, modifySlot_eq_setSlot, hr]
  exact this

/-- Replacing a file's content keeps the store valid when the bytes in use are counted again
and stay within the budget. -/
theorem Valid.setData (hv : s.Valid) (used : Nat) (hused : used + d.size = s.used + d'.size)
    (hbudget : s.budget ≠ 0 → used ≤ s.budget) : ({ s.setData i d' with used } : Store).Valid := by
  -- the new counter is bookkeeping: the slots are those of `s.setData i d'`
  have hkids : ∀ q, ({ s.setData i d' with used } : Store).kids q = s.kids q := fun q =>
    (kids_congr (t := { s.setData i d' with used }) (s := s.setData i d') rfl q).trans
      (kids_setData hr hb d' hv q)
  have hsome : Keeps s { s.setData i d' with used } := fun _ _ => slot_setData_some hr hb d'
  refine ⟨?_, ?_, ?_, ?_, ?_, ?_, ?_, ?_, ?_, ?_, ?_, ?_, ?_⟩
  · obtain ⟨r0, hr0, h1, h2, h3⟩ := hv.root
    have hi0 := ne_of_isDir hr hb ((isDir_iff_kind s rootIndex).mpr ⟨r0, hr0, h3⟩)
    exact ⟨r0, (slot_setData_of_ne hr d' hi0).trans hr0, h1, h2, h3⟩
  · intro q x f hq hxb
    have hqi := ne_of_isDir (slot_setData_self hr d') rfl ⟨x, f, hq, hxb⟩
    rw [hkids]
    exact (hv.chain q x f ((slot_setData_of_ne hr d' hqi).symm.trans hq) hxb).frame
      fun _ hj => frame_setData d' hv hj
  · intro j x hj0 hx
    obtain ⟨y, hy, -, -, hpar, -⟩ := hsome j x hx
    obtain ⟨p, hp, hdir, hcount, hexcl⟩ := hv.parent j y hj0 hy
    refine ⟨p, by rw [hpar, hp], (isDir_setData hr hb d' p).mpr hdir, ?_, fun q hq => ?_⟩
    · rw [hkids]
      exact hcount
    · rw [hkids]
      exact hexcl q hq
  · intro q
    rw [hkids]
    exact hv.rootFree q
  · intro q
    have hmap : (s.kids q).map ({ s.setData i d' with used } : Store).nameAt =
        (s.kids q).map s.nameAt :=
      List.map_congr_left fun j _ => nameAt_setData hr d' j
    rw [hkids, hmap]
    exact hv.names q
  · exact hv.goodNames_of_keeps hsome fun q j hj => by rwa [hkids] at hj
  · intro j
    show j ∈ s.free ↔ j < (s.setData i d').slots.size ∧ (s.setData i d').slot j = none
    rw [Store.setData, size_modifySlot, ← Store.setData]
    exact (hv.free j).trans (and_congr_right fun _ => (slot_setData_eq_none d' j).symm)
  · exact hv.freeNodup
  · show s.live = (s.setData i d').liveCount
    rw [Store.setData, liveCount_modifySlot]
    exact hv.live
  · exact hv.inoInj_of_keeps hsome
  · exact hv.inoLt_of_keeps hsome (Nat.le_refl _)
  · show used = (s.setData i d').usedSum
    have := hv.used
    have := usedSum_setData hr hb d'
    omega
  · exact hbudget

omit hb in
theorem fileData_setData (ino : Nat) (hino : r.ino = ino) :
    (s.setData i d').fileData i ino = .ok d' :=
  (fileData_eq_ok_iff _ i ino d').mpr
    ⟨{ r with body := .file d' }, slot_setData_self hr d', hino, rfl⟩

end SetData

/-- A file holds at most the bytes in use. -/
theorem Valid.size_le_used {s : Store} (hv : s.Valid) {i : Nat} {r : Record}
    (hr : s.slot i = some r) : r.size ≤ s.used := by
  have := usedSum_setSlot s none (lt_size_of_slot (i := i) (by simp [hr]))
  rw [hr] at this
  simp only [slotSize] at this
  rw [hv.used]
  omega

/-! ## Resizing and writing -/

section Resize

variable {s t : Store} {i ino : Nat} {g : Option Growth}

/-- After a successful resize the file holds its old content cut or grown with zeros to the
asked size. -/
theorem fileData_resize {n : Nat} (h : s.resize i ino n = .ok (t, g)) :
    ∃ d, s.fileData i ino = .ok d ∧
      t.fileData i ino = .ok (if n ≤ d.size then cut d n else grow d n) := by
  obtain ⟨d, hd, hcase⟩ := resize_eq_ok h
  obtain ⟨r, hr, hino, hb⟩ := (fileData_eq_ok_iff s i ino d).mp hd
  refine ⟨d, hd, ?_⟩
  rcases hcase with ⟨hn, -, rfl⟩ | ⟨hn, -, -, -, -, rfl⟩
  · rw [if_pos hn]
    exact fileData_setData hr _ ino hino
  · rw [if_neg (by omega)]
    exact fileData_setData hr _ ino hino

/-- Every successful resize keeps the store valid. -/
theorem Valid.resize (hv : s.Valid) {n : Nat} (h : s.resize i ino n = .ok (t, g)) : t.Valid := by
  obtain ⟨d, hd, hcase⟩ := resize_eq_ok h
  obtain ⟨r, hr, -, hb⟩ := (fileData_eq_ok_iff s i ino d).mp hd
  have hle : d.size ≤ s.used := by simpa [Record.size, hb] using hv.size_le_used hr
  rcases hcase with ⟨hn, -, rfl⟩ | ⟨hn, -, -, hbud, -, rfl⟩
  · -- cutting gives the dropped bytes back
    refine Valid.setData hr hb (cut d n) hv _ ?_ fun hb0 => ?_
    · rw [size_cut d n hn]
      omega
    · have := hv.budget hb0
      omega
  · -- growing charges the new bytes, which the budget allowed
    refine Valid.setData hr hb (grow d n) hv _ ?_ hbud
    rw [size_grow d n (by omega)]
    omega

/-- What a successful write did: it grew the file to the end of the write when it was
shorter, then placed the bytes over the content. -/
theorem writeAt_eq_ok {offset : Nat} {b : ByteArray} (h : s.writeAt i ino offset b = .ok (t, g)) :
    offset + b.size < wordSize ∧ ∃ d u d1, s.fileData i ino = .ok d ∧
      (d.size < offset + b.size ∧ s.resize i ino (offset + b.size) = .ok (u, g) ∨
        offset + b.size ≤ d.size ∧ u = s ∧ g = none) ∧
      u.fileData i ino = .ok d1 ∧ t = u.setData i (splice d1 offset b) := by
  unfold writeAt at h
  dsimp only at h
  split at h
  · cases h
  · rename_i hw
    refine ⟨by omega, ?_⟩
    cases hd : s.fileData i ino with
    | error e => simp only [hd, bind, Except.bind] at h; cases h
    | ok d =>
      simp only [hd, bind, Except.bind, pure, Except.pure] at h
      split at h
      · rename_i hlt
        cases hr : s.resize i ino (offset + b.size) with
        | error e => simp only [hr] at h; cases h
        | ok ug =>
          obtain ⟨u, g'⟩ := ug
          simp only [hr] at h
          cases hd1 : u.fileData i ino with
          | error e => simp only [hd1] at h; cases h
          | ok d1 =>
            simp only [hd1, Except.ok.injEq, Prod.mk.injEq] at h
            obtain ⟨rfl, rfl⟩ := h
            exact ⟨d, u, d1, rfl, .inl ⟨hlt, rfl⟩, hd1, rfl⟩
      · rename_i hge
        simp only [Except.ok.injEq, Prod.mk.injEq] at h
        obtain ⟨rfl, rfl⟩ := h
        exact ⟨d, s, d, rfl, .inr ⟨by omega, rfl, rfl⟩, hd, rfl⟩

/-- The content a write starts from reaches the end of the write. -/
theorem reach_writeAt {offset : Nat} {b : ByteArray} (h : s.writeAt i ino offset b = .ok (t, g)) :
    ∃ d u d1, s.fileData i ino = .ok d ∧ u.fileData i ino = .ok d1 ∧
      d1 = (if d.size < offset + b.size then grow d (offset + b.size) else d) ∧
      offset + b.size ≤ d1.size ∧ t = u.setData i (splice d1 offset b) ∧
      (d.size < offset + b.size ∧ s.resize i ino (offset + b.size) = .ok (u, g) ∨ u = s) := by
  obtain ⟨-, d, u, d1, hd, hcase, hd1, rfl⟩ := writeAt_eq_ok h
  refine ⟨d, u, d1, hd, hd1, ?_⟩
  rcases hcase with ⟨hlt, hr⟩ | ⟨hle, rfl, -⟩
  · obtain ⟨d', hd', hd1'⟩ := fileData_resize hr
    rw [hd] at hd'
    cases hd'
    rw [hd1, if_neg (by omega)] at hd1'
    cases hd1'
    rw [if_pos hlt, size_grow _ _ (by omega)]
    exact ⟨rfl, Nat.le_refl _, rfl, .inl ⟨hlt, hr⟩⟩
  · rw [hd] at hd1
    cases hd1
    rw [if_neg (by omega)]
    exact ⟨rfl, hle, rfl, .inr rfl⟩

/-- Every successful write keeps the store valid. -/
theorem Valid.writeAt (hv : s.Valid) {offset : Nat} {b : ByteArray}
    (h : s.writeAt i ino offset b = .ok (t, g)) : t.Valid := by
  obtain ⟨d, u, d1, -, hd1, -, hreach, rfl, hcase⟩ := reach_writeAt h
  have hu : u.Valid := by
    rcases hcase with ⟨-, hr⟩ | rfl
    · exact hv.resize hr
    · exact hv
  -- the bytes land inside the content, so its size and the bytes in use stay
  obtain ⟨r, hr, -, hb⟩ := (fileData_eq_ok_iff u i ino d1).mp hd1
  exact Valid.setData hr hb (splice d1 offset b) hu u.used
    (by rw [size_splice d1 offset b hreach]) hu.budget

end Resize

end KernelFs.Memory.Store
