import KernelFs.Log.Entry

/-!
# The log ring

The kernel log keeps the newest entries in a ring of fixed capacity (`LogCore`, `_log`, `_read_log`,
`_peek_log`, src/crates/klog/src/log_core.rs:19-160). An entry is kept when its level is at most the
global level; every kept entry takes the next sequence number, and when the ring is full the oldest
entry is dropped and counted. A ring of capacity zero counts every kept entry as dropped. An entry
whose level is also at most the console level is printed to the console as its line and a newline.

The sequence and drop counters are `usize` counters advanced by `fetch_add`
(log_core.rs:65-100) and are kept here as `Nat`: they could only wrap after 2^64 kept
entries, far beyond any run.

* `size_le_capacity`: the ring never holds more than its capacity.
* `nextSeq_record`: each kept entry advances the sequence number by one.
-/

namespace KernelFs.Log

/-- A bounded log with its sequence counter, drop counter and console transcript. -/
structure LogRing where
  capacity : Nat
  globalLevel : LogLevel
  consoleLevel : LogLevel
  /-- Kept entries, oldest first. -/
  entries : List LogEntry := []
  nextSeq : Nat := 0
  dropped : Nat := 0
  /-- Text printed to the console and not yet collected. -/
  console : String := ""
  deriving Repr, Inhabited

namespace LogRing

/-- An empty ring with the given levels and capacity. -/
def empty (global console : LogLevel) (capacity : Nat) : LogRing :=
  { capacity, globalLevel := global, consoleLevel := console }

/-- Whether an entry at this level is kept. -/
def keeps (r : LogRing) (l : LogLevel) : Bool := decide (l ≤ r.globalLevel)

/-- Stores an entry, dropping the oldest one when the ring is full. -/
def store (r : LogRing) (e : LogEntry) : LogRing :=
  if r.capacity = 0 then { r with dropped := r.dropped + 1 }
  else if r.capacity ≤ r.entries.length then
    { r with entries := r.entries.tail ++ [e], dropped := r.dropped + 1 }
  else { r with entries := r.entries ++ [e] }

/-- Records a message written as fragments at a level. -/
def record (r : LogRing) (l : LogLevel) (frags : List String) : LogRing :=
  if r.keeps l then
    let e : LogEntry := ⟨r.nextSeq, l, clip frags⟩
    let r' := { r.store e with nextSeq := r.nextSeq + 1 }
    if l ≤ r.consoleLevel then { r' with console := r'.console ++ e.line ++ "\n" } else r'
  else r

/-- Records a message given as one piece of text. -/
def log (r : LogRing) (l : LogLevel) (msg : String) : LogRing := r.record l [msg]

/-- Sets the level up to which entries are kept. -/
def setGlobal (r : LogRing) (l : LogLevel) : LogRing := { r with globalLevel := l }

/-- Sets the level up to which kept entries are printed. -/
def setConsole (r : LogRing) (l : LogLevel) : LogRing := { r with consoleLevel := l }

/-- Removes and returns the oldest entry. -/
def pop (r : LogRing) : Option LogEntry × LogRing :=
  match r.entries with
  | [] => (none, r)
  | e :: rest => (some e, { r with entries := rest })

/-- The `i`-th oldest entry, left in place. -/
def peek (r : LogRing) (i : Nat) : Option LogEntry := r.entries[i]?

/-- The number of entries held. -/
def size (r : LogRing) : Nat := r.entries.length

/-- Collects the console text printed so far and clears it. -/
def takeConsole (r : LogRing) : String × LogRing := (r.console, { r with console := "" })

/-- Removes every entry, oldest first. -/
def drain (r : LogRing) : List LogEntry × LogRing := (r.entries, { r with entries := [] })

theorem size_store_le (r : LogRing) (e : LogEntry) (h : r.size ≤ r.capacity) :
    (r.store e).size ≤ (r.store e).capacity := by
  unfold store size at *
  split
  · simpa
  · split
    · simp only [List.length_append, List.length_tail, List.length_singleton]
      omega
    · simp only [List.length_append, List.length_singleton]
      omega

theorem size_le_capacity (r : LogRing) (l : LogLevel) (frags : List String)
    (h : r.size ≤ r.capacity) : (r.record l frags).size ≤ (r.record l frags).capacity := by
  have hs := size_store_le r ⟨r.nextSeq, l, clip frags⟩ h
  unfold record
  split
  · split <;> simpa [size] using hs
  · exact h

theorem nextSeq_record (r : LogRing) (l : LogLevel) (frags : List String) :
    (r.record l frags).nextSeq = if r.keeps l then r.nextSeq + 1 else r.nextSeq := by
  unfold record
  split <;> (try split) <;> rfl

end LogRing

end KernelFs.Log
