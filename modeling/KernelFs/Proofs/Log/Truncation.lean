import KernelFs.Log.Entry

/-!
# What a stored message holds

A message is stored by appending its fragments one at a time, each cut to the room the earlier ones
left (`clip`, after `TruncatingWriter::write_str`, src/crates/klog/src/entry.rs:48-67). Read as
character lists that is `fill`: every fragment contributes the longest prefix of itself that fits in
what is left, and `fitPrefix` is that longest prefix (`fitPrefix_longest`).

So a stored message never holds more than `messageLimit` bytes, and holds the whole text when
that fits. It is not always the longest prefix of the whole text that fits. When a fragment is
cut before a character of several bytes, the bytes it would have taken stay free, and the
fragments after it fill them as far as their own characters fit. What holds instead is that
the stored message is the longest fitting prefix of the text followed by fewer bytes than the
character at which the text was cut (`message_is_cut_per_fragment`); where that character is a
single byte, nothing follows it (`clip_eq_fitPrefix_of_cut_at_byte`).

Results:
* `utf8ByteSize_ofList`: a string's size is that of its characters.
* `fitPrefix_append_of_le`, `fitPrefix_append_of_lt`, `fitPrefix_cut`: cutting a joined text,
  and the room a cut leaves.
* `toList_clip`: the stored message is the `fill` of the fragments.
* `fill_eq_fitPrefix_append`: a fill is the longest fitting prefix of the join and a short rest.
-/

namespace KernelFs.Log

/-! ## Byte sizes -/

@[simp] theorem byteSize_nil : byteSize [] = 0 := rfl

@[simp] theorem byteSize_cons (c : Char) (cs : List Char) :
    byteSize (c :: cs) = c.utf8Size + byteSize cs := rfl

@[simp] theorem byteSize_append (a b : List Char) :
    byteSize (a ++ b) = byteSize a + byteSize b := by
  induction a with
  | nil => simp
  | cons c a ih => simp [ih, Nat.add_assoc]

theorem utf8ByteSize_ofList (cs : List Char) : (String.ofList cs).utf8ByteSize = byteSize cs := by
  induction cs with
  | nil => rfl
  | cons c cs ih =>
    rw [String.ofList_cons, String.utf8ByteSize_append, String.utf8ByteSize_singleton, ih,
      byteSize_cons]

/-! ## Cutting a text -/

/-- `fitPrefix` keeps every prefix that fits in the room: it is the longest one. -/
theorem fitPrefix_longest {room : Nat} {p cs : List Char} (hp : p <+: cs)
    (hs : byteSize p ≤ room) : p <+: fitPrefix room cs := by
  induction cs generalizing room p with
  | nil =>
    rw [List.prefix_nil.mp hp]
    exact List.nil_prefix
  | cons c cs ih =>
    cases p with
    | nil => exact List.nil_prefix
    | cons d p =>
      obtain ⟨rfl, hp'⟩ := List.cons_prefix_cons.mp hp
      rw [byteSize_cons] at hs
      rw [fitPrefix, if_pos (by omega)]
      exact List.cons_prefix_cons.mpr ⟨rfl, ih hp' (by omega)⟩

/-- A text that starts with a part that fits is cut after that part. -/
theorem fitPrefix_append_of_le (room : Nat) (a b : List Char) (h : byteSize a ≤ room) :
    fitPrefix room (a ++ b) = a ++ fitPrefix (room - byteSize a) b := by
  induction a generalizing room with
  | nil => simp
  | cons c a ih =>
    rw [byteSize_cons] at h
    rw [List.cons_append, fitPrefix, if_pos (by omega), ih _ (by omega), byteSize_cons,
      Nat.sub_sub, List.cons_append]

/-- A text that starts with a part that does not fit is cut inside that part. -/
theorem fitPrefix_append_of_lt (room : Nat) (a b : List Char) (h : room < byteSize a) :
    fitPrefix room (a ++ b) = fitPrefix room a := by
  induction a generalizing room with
  | nil => simp at h
  | cons c a ih =>
    rw [byteSize_cons] at h
    rw [List.cons_append]
    by_cases hc : c.utf8Size ≤ room
    · rw [fitPrefix, fitPrefix, if_pos hc, if_pos hc, ih _ (by omega)]
    · rw [fitPrefix, fitPrefix, if_neg hc, if_neg hc]

/-- A text that does not fit is cut before a character, and the room the cut leaves is smaller
than that character. -/
theorem fitPrefix_cut (room : Nat) (cs : List Char) (h : room < byteSize cs) :
    ∃ c rest, cs = fitPrefix room cs ++ c :: rest ∧
      room - byteSize (fitPrefix room cs) < c.utf8Size := by
  induction cs generalizing room with
  | nil => simp at h
  | cons c cs ih =>
    rw [byteSize_cons] at h
    by_cases hc : c.utf8Size ≤ room
    · obtain ⟨d, rest, hcs, hd⟩ := ih (room - c.utf8Size) (by omega)
      refine ⟨d, rest, ?_, ?_⟩
      · rw [fitPrefix, if_pos hc, List.cons_append, ← hcs]
      · rw [fitPrefix, if_pos hc, byteSize_cons]
        omega
    · refine ⟨c, cs, ?_, ?_⟩
      · rw [fitPrefix, if_neg hc, List.nil_append]
      · rw [fitPrefix, if_neg hc, byteSize_nil]
        omega

/-! ## Filling a message fragment by fragment -/

/-- Character lists appended one after another, each cut to the room the earlier ones left. -/
def fill : Nat → List (List Char) → List Char
  | _, [] => []
  | room, f :: fs => fitPrefix room f ++ fill (room - byteSize (fitPrefix room f)) fs

theorem byteSize_fill_le (room : Nat) (fs : List (List Char)) : byteSize (fill room fs) ≤ room := by
  induction fs generalizing room with
  | nil => simp [fill]
  | cons f fs ih =>
    have hf := utf8Size_fitPrefix_le room f
    have hrest := ih (room - byteSize (fitPrefix room f))
    rw [fill, byteSize_append]
    omega

theorem fill_of_le (room : Nat) (fs : List (List Char)) (h : byteSize fs.flatten ≤ room) :
    fill room fs = fs.flatten := by
  induction fs generalizing room with
  | nil => rfl
  | cons f fs ih =>
    rw [List.flatten_cons, byteSize_append] at h
    rw [fill, fitPrefix_of_le room f (by omega), ih _ (by omega), List.flatten_cons]

/-- A fill is the longest prefix of the joined lists that fits, followed by fewer bytes than the
character at which the join was cut, or by nothing. -/
theorem fill_eq_fitPrefix_append (room : Nat) (fs : List (List Char)) :
    ∃ extra, fill room fs = fitPrefix room fs.flatten ++ extra ∧
      (extra = [] ∨ ∃ c rest, fs.flatten = fitPrefix room fs.flatten ++ c :: rest ∧
        byteSize extra < c.utf8Size) := by
  induction fs generalizing room with
  | nil => exact ⟨[], rfl, Or.inl rfl⟩
  | cons f fs ih =>
    rw [List.flatten_cons]
    by_cases hf : byteSize f ≤ room
    · -- the list fits whole, and the rest is filled from the room it leaves
      obtain ⟨extra, hfill, hextra⟩ := ih (room - byteSize f)
      refine ⟨extra, ?_, ?_⟩
      · rw [fill, fitPrefix_of_le room f hf, hfill, fitPrefix_append_of_le room f _ hf,
          List.append_assoc]
      · rcases hextra with h | ⟨c, rest, hcut, hc⟩
        · exact Or.inl h
        · refine Or.inr ⟨c, rest, ?_, hc⟩
          rw [fitPrefix_append_of_le room f _ hf, List.append_assoc, ← hcut]
    · -- the list is cut, so the join is cut at the same character, and what the later lists
      -- add fits in the room that cut leaves
      have hlt : room < byteSize f := by omega
      obtain ⟨c, rest, hcut, hc⟩ := fitPrefix_cut room f hlt
      have hrest := byteSize_fill_le (room - byteSize (fitPrefix room f)) fs
      refine ⟨fill (room - byteSize (fitPrefix room f)) fs, ?_,
        Or.inr ⟨c, rest ++ fs.flatten, ?_, by omega⟩⟩
      · rw [fill, fitPrefix_append_of_lt room f _ hlt]
      · rw [fitPrefix_append_of_lt room f _ hlt]
        calc f ++ fs.flatten = (fitPrefix room f ++ c :: rest) ++ fs.flatten := by rw [← hcut]
          _ = fitPrefix room f ++ c :: (rest ++ fs.flatten) := by simp

/-! ## Stored messages -/

/-- The whole text of a message: the characters of its fragments, joined. -/
def text (frags : List String) : List Char := (frags.map String.toList).flatten

theorem toList_foldl_appendFragment (msg : String) (frags : List String) :
    (frags.foldl appendFragment msg).toList =
      msg.toList ++ fill (messageLimit - msg.utf8ByteSize) (frags.map String.toList) := by
  induction frags generalizing msg with
  | nil => simp [fill]
  | cons frag frags ih =>
    rw [List.foldl_cons, ih, List.map_cons, fill]
    simp only [appendFragment, String.toList_append, String.toList_ofList,
      String.utf8ByteSize_append, utf8ByteSize_ofList, Nat.sub_sub, List.append_assoc]

/-- The stored message of a list of fragments is their fill within the limit. -/
theorem toList_clip (frags : List String) :
    (clip frags).toList = fill messageLimit (frags.map String.toList) := by
  rw [clip, toList_foldl_appendFragment]
  rfl

/-- What a stored message holds, for every list of fragments. It fits in the limit; it is the
whole text when that fits; and it is the longest prefix of the text that fits, followed by fewer
bytes than the character at which the text was cut, or by nothing. -/
theorem message_is_cut_per_fragment (frags : List String) :
    (clip frags).utf8ByteSize ≤ messageLimit ∧
    (byteSize (text frags) ≤ messageLimit → clip frags = String.ofList (text frags)) ∧
    (∀ p, p <+: text frags → byteSize p ≤ messageLimit → p <+: fitPrefix messageLimit (text frags)) ∧
    ∃ extra, clip frags = String.ofList (fitPrefix messageLimit (text frags) ++ extra) ∧
      (extra = [] ∨ ∃ c rest, text frags = fitPrefix messageLimit (text frags) ++ c :: rest ∧
        byteSize extra < c.utf8Size) := by
  have hclip : clip frags = String.ofList (fill messageLimit (frags.map String.toList)) := by
    rw [← toList_clip, String.ofList_toList]
  refine ⟨?_, fun hfit => ?_, fun p hp hs => fitPrefix_longest hp hs, ?_⟩
  · rw [hclip, utf8ByteSize_ofList]
    exact byteSize_fill_le _ _
  · rw [hclip, fill_of_le _ _ hfit, text]
  · obtain ⟨extra, hfill, hextra⟩ := fill_eq_fitPrefix_append messageLimit (frags.map String.toList)
    exact ⟨extra, by rw [hclip, hfill, text], hextra⟩

/-- Where the text is cut before a single-byte character, or not at all, the stored message is
exactly the longest prefix of the text that fits. -/
theorem clip_eq_fitPrefix_of_cut_at_byte (frags : List String)
    (h : ∀ c rest, text frags = fitPrefix messageLimit (text frags) ++ c :: rest → c.utf8Size = 1) :
    clip frags = String.ofList (fitPrefix messageLimit (text frags)) := by
  obtain ⟨extra, hfill, hextra⟩ := fill_eq_fitPrefix_append messageLimit (frags.map String.toList)
  -- a rest shorter than one byte is empty
  have hnil : extra = [] := by
    rcases hextra with hnil | ⟨c, rest, hcut, hc⟩
    · exact hnil
    · rw [h c rest hcut] at hc
      cases extra with
      | nil => rfl
      | cons d ds =>
        have hd := Char.utf8Size_pos d
        simp only [byteSize_cons] at hc
        omega
  rw [← String.ofList_toList (s := clip frags), toList_clip, hfill, hnil, List.append_nil, text]

/-- The log line of a directory made at a path of one slash and 127 two-byte characters: the
path is cut after 116 of them, one byte short of the limit, and the closing quote still fits
after the cut, so the stored message is no prefix of the text. -/
theorem mkdir_message_keeps_closing_quote :
    clip ["vfs::vfs", ": ", "vfs: mkdir '", "/" ++ String.ofList (List.replicate 127 'é'), "'"] =
      "vfs::vfs: vfs: mkdir '/" ++ String.ofList (List.replicate 116 'é') ++ "'" ∧
    fitPrefix messageLimit
        (text ["vfs::vfs", ": ", "vfs: mkdir '", "/" ++ String.ofList (List.replicate 127 'é'), "'"]) =
      ("vfs::vfs: vfs: mkdir '/" ++ String.ofList (List.replicate 116 'é')).toList := by
  simp only [← String.toList_inj, toList_clip, text, List.map, String.toList_append,
    String.toList_ofList]
  constructor <;> decide +kernel

end KernelFs.Log
