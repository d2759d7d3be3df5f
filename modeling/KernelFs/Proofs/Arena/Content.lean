import KernelFs.Proofs.Arena.Resize

/-!
# File contents as byte lists

Read as a list of bytes `c`, a file's content changes in two ways and is read in one (`resize_file`,
`read_at` and `write_at`, src/crates/fs/src/memfs/inode.rs:275-300 and 386-409). A write of `b` at
`off` pads `c` with zeros up to `off`, keeps the bytes before `off`, places `b`, and keeps what lay
past its end: `overwrite c off b`. A resize to `n` bytes cuts `c` or pads it with zeros to exactly
`n` bytes: `resizeTo c n`. A read of `len` bytes at `off` sees `(c.drop off).take len`.

A write whose end passes the machine word is refused, and so is a growth from `size` to `stop`
bytes that would take the bytes in use to the word or past a nonzero budget, or that asks the
allocator for a buffer it refuses (`Refuses`). Every refusal is reported as no space, and a
refused operation hands back no store, so nothing changed.

Results:
* `length_overwrite`, `getElem?_overwrite`: a write leaves the content `max |c| (off + |b|)`
  long, with `b` at `off`, zeros in any gap, and every other byte as it was.
* `writeAt_outcome`: a write to a live file either succeeds, exactly when it is not refused,
  leaving `overwrite c off b`, or is refused for lack of space.
* `resize_outcome`: likewise a resize, leaving `resizeTo c n`.
* `bytes_readAt`: a read of a live file sees `(c.drop off).take len`.
-/

namespace KernelFs.Memory

/-! ## The content model -/

/-- The content padded with zero bytes to at least `n` bytes. -/
def padTo (cs : List UInt8) (n : Nat) : List UInt8 := cs ++ List.replicate (n - cs.length) 0

/-- The content after writing `b` at `off`: the first `off` bytes of the content padded with
zeros, then `b`, then what lay past the end of `b`. -/
def overwrite (cs : List UInt8) (off : Nat) (b : List UInt8) : List UInt8 :=
  (padTo cs off).take off ++ b ++ cs.drop (off + b.length)

/-- The content cut or padded with zeros to exactly `n` bytes. -/
def resizeTo (cs : List UInt8) (n : Nat) : List UInt8 := (padTo cs n).take n

@[simp] theorem length_padTo (cs : List UInt8) (n : Nat) : (padTo cs n).length = max cs.length n := by
  simp only [padTo, List.length_append, List.length_replicate]
  omega

theorem getElem?_padTo (cs : List UInt8) (n k : Nat) (hk : k < n) :
    (padTo cs n)[k]? = some (cs.getD k 0) := by
  unfold padTo
  rw [List.getD_eq_getElem?_getD]
  by_cases hc : k < cs.length
  · rw [List.getElem?_append_left hc, List.getElem?_eq_getElem hc]
    rfl
  · rw [List.getElem?_append_right (by omega), List.getElem?_replicate,
      if_pos (by omega), List.getElem?_eq_none (by omega)]
    rfl

/-- Padding further and cutting back to `k` bytes is padding to `k`. -/
theorem take_padTo_of_le (cs : List UInt8) {k n : Nat} (h : k ≤ n) :
    (padTo cs n).take k = (padTo cs k).take k := by
  apply List.ext_getElem?
  intro j
  rw [List.getElem?_take, List.getElem?_take]
  split
  · rw [getElem?_padTo cs n j (by omega), getElem?_padTo cs k j (by omega)]
  · rfl

/-- Past `n` the padding adds nothing. -/
theorem drop_padTo (cs : List UInt8) (n : Nat) : (padTo cs n).drop n = cs.drop n := by
  simp only [padTo, List.drop_append, List.drop_replicate]
  by_cases h : n ≤ cs.length
  · simp [Nat.sub_eq_zero_of_le h]
  · simp [List.drop_eq_nil_of_le (by omega : cs.length ≤ n)]

theorem length_overwrite (cs : List UInt8) (off : Nat) (b : List UInt8) :
    (overwrite cs off b).length = max cs.length (off + b.length) := by
  simp only [overwrite, List.length_append, List.length_take, length_padTo, List.length_drop]
  omega

/-- A write places `b` at `off`, fills any gap between the old end and `off` with zeros, and
keeps every other byte. -/
theorem getElem?_overwrite (cs : List UInt8) (off : Nat) (b : List UInt8) (k : Nat) :
    (overwrite cs off b)[k]? =
      if k < off then some (cs.getD k 0)
      else if k < off + b.length then b[k - off]?
      else cs[k]? := by
  have hhead : ((padTo cs off).take off).length = off := by
    simp only [List.length_take, length_padTo]
    omega
  unfold overwrite
  split
  · rename_i hk
    rw [List.append_assoc, List.getElem?_append_left (by omega), List.getElem?_take,
      if_pos hk, getElem?_padTo cs off k hk]
  · rename_i hk
    rw [List.append_assoc, List.getElem?_append_right (by omega), hhead]
    split
    · rw [List.getElem?_append_left (by omega)]
    · rw [List.getElem?_append_right (by omega), List.getElem?_drop]
      congr 1
      omega

theorem resizeTo_of_le (cs : List UInt8) {n : Nat} (h : n ≤ cs.length) : resizeTo cs n = cs.take n := by
  simp [resizeTo, padTo, Nat.sub_eq_zero_of_le h]

theorem resizeTo_of_ge (cs : List UInt8) {n : Nat} (h : cs.length ≤ n) : resizeTo cs n = padTo cs n := by
  rw [resizeTo, List.take_of_length_le (by simp; omega)]

/-! ## Contents of byte arrays -/

@[simp] theorem bytes_empty : bytes ByteArray.empty = [] := rfl

theorem bytes_grow_eq_padTo (d : ByteArray) (n : Nat) : bytes (grow d n) = padTo (bytes d) n := by
  rw [bytes_grow, padTo, length_bytes]

/-- A write first grows the content to the end of the write, then splices `b` in. -/
theorem bytes_splice_grow (d b : ByteArray) (off : Nat) :
    bytes (splice (if d.size < off + b.size then grow d (off + b.size) else d) off b) =
      overwrite (bytes d) off (bytes b) := by
  have hpad : bytes (if d.size < off + b.size then grow d (off + b.size) else d) =
      padTo (bytes d) (off + b.size) := by
    split
    · exact bytes_grow_eq_padTo d _
    · rw [padTo, length_bytes, Nat.sub_eq_zero_of_le (by omega), List.replicate_zero,
        List.append_nil]
  rw [bytes_splice, hpad, take_padTo_of_le _ (Nat.le_add_right off b.size), drop_padTo,
    overwrite, length_bytes]

theorem bytes_cut_or_grow (d : ByteArray) (n : Nat) :
    bytes (if n ≤ d.size then cut d n else grow d n) = resizeTo (bytes d) n := by
  split
  · rename_i h
    rw [bytes_cut, resizeTo_of_le _ (by rw [length_bytes]; exact h)]
  · rename_i h
    rw [bytes_grow_eq_padTo, resizeTo_of_ge _ (by rw [length_bytes]; omega)]

namespace Store

/-! ## Refusals -/

/-- Whether a store refuses to grow a file of `size` bytes to `stop` bytes: the bytes in use
would reach the machine word or the growth exceed what remains of a nonzero budget, or the heap
refuses a buffer of `stop` bytes. -/
def Refuses (s : Store) (size stop : Nat) : Prop :=
  size < stop ∧ (wordSize ≤ s.used + (stop - size) ∨ (s.budget ≠ 0 ∧ s.budget - s.used < stop - size) ∨
    s.heap.grants stop = false)

instance (s : Store) (size stop : Nat) : Decidable (s.Refuses size stop) :=
  inferInstanceAs (Decidable (_ ∧ _))

/-- Every growth past the largest signed word is refused, whatever the heap. -/
theorem refuses_of_maxBuffer_lt (s : Store) {size stop : Nat} (hlt : size < stop)
    (hmax : maxBuffer < stop) : s.Refuses size stop := by
  refine ⟨hlt, .inr (.inr ?_)⟩
  cases hg : s.heap.grants stop with
  | false => rfl
  | true => exact absurd (s.heap.grants_le stop hg) (by omega)

/-- A charge is refused exactly when the bytes in use would reach the word or pass a nonzero
budget; the refusal is one of no space. -/
theorem charge_outcome (s : Store) (extra : Nat) (hextra : 0 < extra) :
    match s.charge extra with
    | .ok t => ¬ (wordSize ≤ s.used + extra ∨ (s.budget ≠ 0 ∧ s.budget - s.used < extra)) ∧
        t = { s with used := s.used + extra }
    | .error e => e.toFsError = .noSpace ∧
        (wordSize ≤ s.used + extra ∨ (s.budget ≠ 0 ∧ s.budget - s.used < extra)) := by
  unfold charge
  dsimp only
  by_cases hw : wordSize ≤ s.used + extra
  · rw [if_pos hw]
    exact ⟨rfl, .inl hw⟩
  · rw [if_neg hw]
    by_cases hb : s.budget ≠ 0 ∧ s.budget < s.used + extra
    · rw [if_pos hb]
      exact ⟨rfl, .inr ⟨hb.1, by omega⟩⟩
    · rw [if_neg hb]
      exact ⟨by omega, rfl⟩

variable {s : Store} {i ino : Nat} {d : ByteArray}

/-- A resize of a live file cuts or pads it to the asked size unless the growth is refused,
and a refusal is one of no space. -/
theorem resize_outcome (hd : s.fileData i ino = .ok d) (n : Nat) :
    match s.resize i ino n with
    | .ok (t, _) => ¬ s.Refuses d.size n ∧
        ∃ d', t.fileData i ino = .ok d' ∧ bytes d' = resizeTo (bytes d) n
    | .error e => e.toFsError = .noSpace ∧ s.Refuses d.size n := by
  split
  · rename_i t g h
    obtain ⟨d0, hd0, hcase⟩ := resize_eq_ok h
    rw [hd] at hd0
    cases hd0
    refine ⟨?_, ?_⟩
    · rintro ⟨hlt, hrefuse⟩
      rcases hcase with ⟨hn, -⟩ | ⟨-, hlim, hword, hbud, -⟩
      · omega
      · rcases hrefuse with h1 | ⟨h2, h3⟩ | h4
        · omega
        · have := hbud h2
          omega
        · rw [hlim] at h4
          cases h4
    · obtain ⟨d1, hd1, ht⟩ := fileData_resize h
      rw [hd] at hd1
      cases hd1
      exact ⟨_, ht, bytes_cut_or_grow d n⟩
  · rename_i e h
    unfold resize at h
    simp only [hd, bind, Except.bind, pure, Except.pure] at h
    split at h
    · cases h
    · rename_i hgt
      have hc := charge_outcome s (n - d.size) (by omega)
      cases hch : s.charge (n - d.size) with
      | error e' =>
        simp only [hch] at h hc
        cases h
        exact ⟨hc.1, by omega, hc.2.imp_right .inl⟩
      | ok c =>
        simp only [hch] at h
        split at h
        · rename_i hlim
          cases h
          exact ⟨rfl, by omega, .inr (.inr hlim)⟩
        · cases h

/-- A write to a live file places its bytes as `overwrite` says unless its end passes the
word or the growth it needs is refused, and a refusal is one of no space. -/
theorem writeAt_outcome (hd : s.fileData i ino = .ok d) (off : Nat) (b : ByteArray) :
    match s.writeAt i ino off b with
    | .ok (t, _) => ¬ (wordSize ≤ off + b.size ∨ s.Refuses d.size (off + b.size)) ∧
        ∃ d', t.fileData i ino = .ok d' ∧ bytes d' = overwrite (bytes d) off (bytes b)
    | .error e => e.toFsError = .noSpace ∧
        (wordSize ≤ off + b.size ∨ s.Refuses d.size (off + b.size)) := by
  split
  · rename_i t g h
    obtain ⟨d0, u, d1, hd0, hd1, hgrow, -, rfl, hcase⟩ := reach_writeAt h
    rw [hd] at hd0
    cases hd0
    obtain ⟨r, hr, hino, -⟩ := (fileData_eq_ok_iff u i ino d1).mp hd1
    refine ⟨?_, _, fileData_setData hr _ ino hino, by rw [hgrow, bytes_splice_grow]⟩
    rintro (hword | hrefuse)
    · exact absurd (writeAt_eq_ok h).1 (by omega)
    · -- a needed growth went through the resize, which does not refuse it
      rcases hcase with ⟨-, hres⟩ | rfl
      · have := resize_outcome hd (off + b.size)
        rw [hres] at this
        exact this.1 hrefuse
      · -- without a resize the content was already long enough
        rw [hd] at hd1
        cases hd1
        rw [if_pos hrefuse.1] at hgrow
        have hsize := size_grow d (off + b.size) (Nat.le_of_lt hrefuse.1)
        rw [← hgrow] at hsize
        exact absurd hrefuse.1 (by omega)
  · rename_i e h
    unfold writeAt at h
    dsimp only at h
    split at h
    · cases h
      exact ⟨rfl, .inl ‹_›⟩
    · simp only [hd, bind, Except.bind, pure, Except.pure] at h
      split at h
      · have hres := resize_outcome hd (off + b.size)
        cases hr : s.resize i ino (off + b.size) with
        | error e' =>
          simp only [hr] at h hres
          cases h
          exact ⟨hres.1, .inr hres.2⟩
        | ok ug =>
          obtain ⟨u, g⟩ := ug
          simp only [hr] at h hres
          obtain ⟨-, d', hd', -⟩ := hres
          rw [hd'] at h
          cases h
      · cases h

/-- A read of a live file sees at most `len` bytes of the content from `off` on. -/
theorem bytes_readAt (hd : s.fileData i ino = .ok d) (off len : Nat) :
    ∃ r, s.readAt i ino off len = .ok r ∧ bytes r = ((bytes d).drop off).take len := by
  unfold readAt
  simp only [hd, bind, Except.bind, pure, Except.pure]
  split
  · rename_i h
    refine ⟨_, rfl, ?_⟩
    rw [List.drop_eq_nil_of_le (by rw [length_bytes]; exact h), bytes_empty, List.take_nil]
  · exact ⟨_, rfl, bytes_slice d off len⟩

end Store

end KernelFs.Memory
