/-!
# File contents

A file's content is a byte array (the `data` of a file record, src/crates/fs/src/memfs/inode.rs:
`resize_file`, lines 275-300, `read_at` and `write_at`, lines 386-409). Writing places bytes at an
offset over what was there; growing appends zero bytes; shrinking keeps a prefix. These three are
the only changes a memory store makes to content.

* `bytes_splice`, `bytes_grow`, `bytes_cut`, `bytes_slice`: each change and read, seen as a list
  of bytes: a splice keeps what lies before the offset and after the written bytes, growing
  appends zeros, cutting and reading take a prefix.
* `size_splice`: a splice inside the content keeps its size.
* `size_grow`, `size_cut`: growing and cutting reach exactly the asked size.
* `size_slice_le`: a read takes at most the asked number of bytes.
-/

namespace KernelFs.Memory

/-- `n` zero bytes. -/
def zeros (n : Nat) : ByteArray := ⟨Array.replicate n 0⟩

/-- The content extended with zero bytes to size `n`; unchanged if it is already as long. -/
def grow (d : ByteArray) (n : Nat) : ByteArray := d ++ zeros (n - d.size)

/-- The first `n` bytes of the content. -/
def cut (d : ByteArray) (n : Nat) : ByteArray := d.extract 0 n

/-- The content with `b` written over it from `offset` on. The content must reach at least
`offset + b.size` bytes. -/
def splice (d : ByteArray) (offset : Nat) (b : ByteArray) : ByteArray :=
  d.extract 0 offset ++ b ++ d.extract (offset + b.size) d.size

/-- At most `len` bytes of the content from `offset` on. -/
def slice (d : ByteArray) (offset len : Nat) : ByteArray :=
  d.extract offset (offset + min len (d.size - offset))

theorem size_zeros (n : Nat) : (zeros n).size = n := by
  simp [zeros, ByteArray.size]

theorem size_grow (d : ByteArray) (n : Nat) (h : d.size ≤ n) : (grow d n).size = n := by
  simp only [grow, ByteArray.size_append, size_zeros]
  omega

theorem size_cut (d : ByteArray) (n : Nat) (h : n ≤ d.size) : (cut d n).size = n := by
  simp [cut, ByteArray.size_extract]
  omega

theorem size_splice (d : ByteArray) (offset : Nat) (b : ByteArray)
    (h : offset + b.size ≤ d.size) : (splice d offset b).size = d.size := by
  simp only [splice, ByteArray.size_append, ByteArray.size_extract]
  omega

theorem size_slice_le (d : ByteArray) (offset len : Nat) : (slice d offset len).size ≤ len := by
  simp only [slice, ByteArray.size_extract]
  omega

/-- The content as a list of bytes: the view every statement about content is made in. -/
def bytes (d : ByteArray) : List UInt8 := d.data.toList

theorem length_bytes (d : ByteArray) : (bytes d).length = d.size := by
  rw [bytes, Array.length_toList]
  rfl

theorem bytes_append (a b : ByteArray) : bytes (a ++ b) = bytes a ++ bytes b := by
  simp [bytes, ByteArray.data_append]

theorem bytes_extract (d : ByteArray) (i j : Nat) :
    bytes (d.extract i j) = ((bytes d).drop i).take (j - i) := by
  simp [bytes, ByteArray.data_extract, Array.toList_extract]

theorem bytes_zeros (n : Nat) : bytes (zeros n) = List.replicate n 0 := by
  simp only [bytes, zeros, Array.toList_replicate]

theorem bytes_grow (d : ByteArray) (n : Nat) :
    bytes (grow d n) = bytes d ++ List.replicate (n - d.size) 0 := by
  simp [grow, bytes_append, bytes_zeros]

theorem bytes_cut (d : ByteArray) (n : Nat) : bytes (cut d n) = (bytes d).take n := by
  simp [cut, bytes_extract]

theorem bytes_splice (d : ByteArray) (offset : Nat) (b : ByteArray) :
    bytes (splice d offset b) =
      (bytes d).take offset ++ bytes b ++ (bytes d).drop (offset + b.size) := by
  simp only [splice, bytes_append, bytes_extract, Nat.sub_zero, List.drop_zero]
  congr 1
  rw [← length_bytes d, List.take_of_length_le]
  simp

theorem bytes_slice (d : ByteArray) (offset len : Nat) :
    bytes (slice d offset len) = ((bytes d).drop offset).take len := by
  simp only [slice, bytes_extract, Nat.add_sub_cancel_left]
  rw [← length_bytes d, ← List.length_drop]
  exact List.take_eq_take_min.symm
end KernelFs.Memory
