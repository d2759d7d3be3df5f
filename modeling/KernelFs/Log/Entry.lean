import KernelFs.Log.Level

/-!
# Log entries and their bounded messages

A message reaches the log as a sequence of text fragments: the literal pieces of a format and the
values put between them, each written separately (`LogEntry::from_args` and `TruncatingWriter`,
src/crates/klog/src/entry.rs:18-67). A message holds at most `messageLimit` bytes. Each fragment is
appended whole when it fits in the room that is left, and otherwise only its longest prefix that
fits and ends on a character boundary. A later short fragment may still fit after a long one was
cut, so the stored text is a prefix of the whole text only while no cut falls inside a multi-byte
character.

* `fitPrefix_prefix`, `utf8Size_fitPrefix_le`: a cut keeps a prefix that fits.
* `fitPrefix_of_le`: a fragment that fits is kept whole.
-/

namespace KernelFs.Log

/-- The most bytes a stored message holds. -/
def messageLimit : Nat := 256

/-- The encoded size of a character list, in bytes. -/
def byteSize (cs : List Char) : Nat := (cs.map Char.utf8Size).foldr (· + ·) 0

/-- The longest prefix of a character list whose encoding fits in `room` bytes. -/
def fitPrefix : Nat → List Char → List Char
  | _, [] => []
  | room, c :: cs => if c.utf8Size ≤ room then c :: fitPrefix (room - c.utf8Size) cs else []

/-- Appends one fragment to a message under construction, cut to the room that is left. -/
def appendFragment (msg frag : String) : String :=
  msg ++ String.ofList (fitPrefix (messageLimit - msg.utf8ByteSize) frag.toList)

/-- The stored text of a message written as the given fragments, in order. -/
def clip (frags : List String) : String := frags.foldl appendFragment ""

theorem fitPrefix_prefix (room : Nat) (cs : List Char) : fitPrefix room cs <+: cs := by
  induction cs generalizing room with
  | nil => simp [fitPrefix]
  | cons c cs ih =>
    unfold fitPrefix
    split
    · exact List.prefix_cons_inj c |>.mpr (ih _)
    · exact List.nil_prefix

theorem utf8Size_fitPrefix_le (room : Nat) (cs : List Char) :
    byteSize (fitPrefix room cs) ≤ room := by
  induction cs generalizing room with
  | nil => simp [fitPrefix, byteSize]
  | cons c cs ih =>
    unfold fitPrefix
    split
    · have := ih (room - c.utf8Size)
      simp only [byteSize, List.map_cons, List.foldr_cons] at this ⊢
      omega
    · simp [byteSize]

theorem fitPrefix_of_le (room : Nat) (cs : List Char) (h : byteSize cs ≤ room) :
    fitPrefix room cs = cs := by
  induction cs generalizing room with
  | nil => rfl
  | cons c cs ih =>
    simp only [byteSize, List.map_cons, List.foldr_cons] at h
    have hc : c.utf8Size ≤ room := by omega
    simp only [fitPrefix, hc, if_true]
    rw [ih]
    simp only [byteSize]
    omega

/-- One record of the kernel log: its sequence number, level and stored message. -/
structure LogEntry where
  seq : Nat
  level : LogLevel
  message : String
  deriving DecidableEq, Repr, Inhabited

/-- A decimal numeral padded on the left with blanks to at least six characters. -/
def padSeq (n : Nat) : String :=
  let digits := Nat.repr n
  String.ofList (List.replicate (6 - digits.length) ' ') ++ digits

/-- The printed form of an entry: tag, padded sequence number in brackets, message. -/
def LogEntry.line (e : LogEntry) : String :=
  e.level.tag ++ " [" ++ padSeq e.seq ++ "] " ++ e.message

end KernelFs.Log
