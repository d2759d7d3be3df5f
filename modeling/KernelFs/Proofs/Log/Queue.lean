import KernelFs.Log.Ring

/-!
# The log ring is a bounded queue of the newest kept entries

A log ring (`LogCore`, src/crates/klog/src/log_core.rs:19-160) takes seven calls: log a message at a
level, read the oldest entry, peek at an entry by position, ask for the length or the drop count,
and set either level. This module follows a ring through every sequence of calls from an empty one.

An entry is kept when its level is at most the global level at the moment of the call, and it
is numbered by the count of entries kept before it. The buffer always holds a run of
consecutive numbers that ends just below the next number, never more entries than the capacity
(none at capacity 0), so a kept entry evicts the oldest exactly when the ring is full. Every
number handed out is buffered, dropped or read, each once. The console hears of a kept entry,
as its line and a newline, exactly when its level is also at most the console level.

Results:
* `Accounts.record`, `Accounts.pop`, `Accounts.call`: one call keeps the accounting.
* `Accounts.run`, `nextSeq_run`: so does every run, and the next number counts the kept entries.
* `entries_record`, `dropped_record`, `console_record`: what one log call does to the buffer,
  the drop count and the console.
* `ring_is_bounded_queue`: all of it, from an empty ring of any capacity and levels.
-/

namespace KernelFs.Log

/-- A call on a log ring. -/
inductive RingCall where
  | log (level : LogLevel) (msg : String)
  | read
  | peek (index : Nat)
  | len
  | dropped
  | setGlobal (level : LogLevel)
  | setConsole (level : LogLevel)
  deriving Repr, Inhabited

namespace LogRing

/-- The ring after a call; peeking and the two counts leave it as it was. -/
def call (r : LogRing) : RingCall → LogRing
  | .log l msg => r.log l msg
  | .read => r.pop.2
  | .setGlobal l => r.setGlobal l
  | .setConsole l => r.setConsole l
  | .peek _ | .len | .dropped => r

/-- The ring after a sequence of calls. -/
def run (r : LogRing) (calls : List RingCall) : LogRing := calls.foldl call r

/-- Whether a call is a read that hands back an entry. -/
def readsEntry (r : LogRing) : RingCall → Bool
  | .read => r.pop.1.isSome
  | _ => false

/-- Whether a call logs an entry that the ring keeps. -/
def keepsEntry (r : LogRing) : RingCall → Bool
  | .log l _ => r.keeps l
  | _ => false

/-- How many calls of a sequence pass a test, each judged in the ring it meets. -/
def tally (p : LogRing → RingCall → Bool) : LogRing → List RingCall → Nat
  | _, [] => 0
  | r, c :: cs => (if p r c then 1 else 0) + tally p (r.call c) cs

/-- The accounting of a ring that has handed back `reads` entries: the buffer holds the entries
numbered `nextSeq - size` up to `nextSeq - 1`, oldest first, no more of them than the capacity,
and every number handed out is dropped, read or still buffered. -/
structure Accounts (r : LogRing) (reads : Nat) : Prop where
  seqs : r.entries.map (·.seq) = List.range' (r.nextSeq - r.size) r.size
  bounded : r.size ≤ r.capacity
  balance : r.nextSeq = r.dropped + reads + r.size

variable {r : LogRing} {reads : Nat}

theorem accounts_empty (global console : LogLevel) (capacity : Nat) :
    (empty global console capacity).Accounts 0 :=
  ⟨rfl, Nat.zero_le _, rfl⟩

theorem Accounts.entries_eq_nil_of_capacity (h : r.Accounts reads) (hc : r.capacity = 0) :
    r.entries = [] :=
  List.eq_nil_of_length_eq_zero (by have := h.bounded; simp only [size] at this; omega)

/-! ## One call -/

/-- Appending the entry numbered `nextSeq` to a run of numbers ending below it extends the
run by one. -/
theorem seqs_append {es : List LogEntry} {n : Nat} (hs : es.map (·.seq) = List.range' (n - es.length) es.length)
    (hle : es.length ≤ n) (e : LogEntry) (he : e.seq = n) :
    (es ++ [e]).map (·.seq) = List.range' (n + 1 - (es ++ [e]).length) (es ++ [e]).length := by
  rw [List.map_append, hs, List.length_append, List.length_singleton, List.range'_1_concat]
  simp only [List.map_cons, List.map_nil, he]
  have h1 : n + 1 - (es.length + 1) = n - es.length := by omega
  have h2 : n - es.length + es.length = n := by omega
  rw [h1, h2]

/-- Dropping the oldest of a run of numbers leaves the run one shorter, from the next number. -/
theorem seqs_tail {es : List LogEntry} {n : Nat} (hs : es.map (·.seq) = List.range' (n - es.length) es.length)
    (hle : es.length ≤ n) :
    es.tail.map (·.seq) = List.range' (n - es.tail.length) es.tail.length := by
  cases es with
  | nil => rfl
  | cons e rest =>
    simp only [List.length_cons, List.range'_succ, List.map_cons, List.cons.injEq] at hs
    simp only [List.tail_cons, hs.2]
    congr 1
    simp only [List.length_cons] at hle
    omega

/-- Storing the next entry keeps the accounting: at capacity 0 it is dropped at once, in a full
ring it drops the oldest, and otherwise it is added. -/
theorem Accounts.store (h : r.Accounts reads) (l : LogLevel) (m : String) :
    ({ r.store ⟨r.nextSeq, l, m⟩ with nextSeq := r.nextSeq + 1 } : LogRing).Accounts reads := by
  have hle : r.entries.length ≤ r.nextSeq := by have := h.balance; simp only [size] at this; omega
  have hseqs := h.seqs
  have hbal := h.balance
  have hb := h.bounded
  simp only [size] at hseqs hbal hb
  unfold LogRing.store
  split
  · rename_i hc
    -- at capacity 0 the buffer is empty and stays so; the new entry only counts as dropped
    have hnil := h.entries_eq_nil_of_capacity hc
    rw [hnil, List.length_nil] at hbal
    refine ⟨?_, ?_, ?_⟩
    · simp only [size, hnil, List.map_nil, List.length_nil, List.range'_zero]
    · exact hb
    · simp only [size, hnil, List.length_nil]
      omega
  · split
    · -- a full ring drops its oldest entry
      rename_i _ hfull
      have hpos : 0 < r.entries.length := by omega
      have ht := seqs_tail hseqs hle
      have htl : r.entries.tail.length ≤ r.nextSeq := by simp only [List.length_tail]; omega
      refine ⟨?_, ?_, ?_⟩
      · have := seqs_append (n := r.nextSeq) ht htl ⟨r.nextSeq, l, m⟩ rfl
        simp only [size]
        rw [this]
      · simp only [size, List.length_append, List.length_tail, List.length_singleton]
        omega
      · simp only [size, List.length_append, List.length_tail, List.length_singleton]
        omega
    · rename_i hc hroom
      refine ⟨?_, ?_, ?_⟩
      · exact seqs_append hseqs hle _ rfl
      · simp only [size, List.length_append, List.length_singleton]
        omega
      · simp only [size, List.length_append, List.length_singleton]
        omega

/-- Where a stored entry goes: at capacity 0 it is dropped at once, a full ring first drops its
oldest entry, and otherwise the entry is added at the back. -/
theorem Accounts.store_outcome (h : r.Accounts reads) (e : LogEntry) :
    (r.store e).entries = (if r.capacity = 0 then [] else
      (if r.size = r.capacity then r.entries.tail else r.entries) ++ [e]) ∧
    (r.store e).dropped = r.dropped + if r.size = r.capacity then 1 else 0 := by
  have hb := h.bounded
  unfold LogRing.store
  by_cases hc : r.capacity = 0
  · simp [hc, size, h.entries_eq_nil_of_capacity hc]
  · by_cases hfull : r.capacity ≤ r.entries.length
    · have hs : r.size = r.capacity := by simp only [size] at hb ⊢; omega
      simp [hc, hfull, hs]
    · have hs : r.size ≠ r.capacity := by simp only [size] at hb ⊢; omega
      simp [hc, hfull, hs]

theorem Accounts.record (h : r.Accounts reads) (l : LogLevel) (frags : List String) :
    (r.record l frags).Accounts reads := by
  have hs := h.store l (clip frags)
  unfold LogRing.record
  split
  · -- the console text is no part of the accounting
    split
    · exact ⟨hs.seqs, hs.bounded, hs.balance⟩
    · exact hs
  · exact h

/-- A read that hands back an entry moves one number from the buffer to the reads. -/
theorem Accounts.pop (h : r.Accounts reads) :
    r.pop.2.Accounts (reads + if r.pop.1.isSome then 1 else 0) := by
  unfold LogRing.pop
  cases hes : r.entries with
  | nil => simpa [hes] using h
  | cons e rest =>
    have hseqs := h.seqs
    have hbal := h.balance
    rw [size, hes] at hseqs hbal
    have hb := h.bounded
    rw [size, hes] at hb
    have hle : (e :: rest).length ≤ r.nextSeq := by omega
    refine ⟨?_, ?_, ?_⟩
    · simpa [size] using seqs_tail hseqs hle
    · simp only [size, List.length_cons] at hb ⊢
      omega
    · simp only [size, List.length_cons, Option.isSome_some, if_true] at hbal ⊢
      omega

theorem Accounts.call (h : r.Accounts reads) (c : RingCall) :
    (r.call c).Accounts (reads + if r.readsEntry c then 1 else 0) := by
  cases c with
  | log l msg => exact h.record l [msg]
  | read => exact h.pop
  -- the levels are no part of the accounting
  | setGlobal l => exact ⟨h.seqs, h.bounded, h.balance⟩
  | setConsole l => exact ⟨h.seqs, h.bounded, h.balance⟩
  | peek i => exact h
  | len => exact h
  | dropped => exact h

/-! ## Every run -/

/-- Every run keeps the accounting; the reads are those of the run that handed back an entry. -/
theorem Accounts.run (h : r.Accounts reads) (calls : List RingCall) :
    (r.run calls).Accounts (reads + tally readsEntry r calls) := by
  induction calls generalizing r reads with
  | nil => simpa [LogRing.run, tally] using h
  | cons c cs ih =>
    have := ih (h.call c)
    simp only [LogRing.run, List.foldl_cons, tally] at this ⊢
    rwa [Nat.add_assoc] at this

theorem nextSeq_call (r : LogRing) (c : RingCall) :
    (r.call c).nextSeq = r.nextSeq + if r.keepsEntry c then 1 else 0 := by
  cases c with
  | log l msg =>
    simp only [call, keepsEntry, log, nextSeq_record]
    by_cases hk : r.keeps l = true <;> simp [hk]
  | read =>
    simp only [call, keepsEntry, pop]
    split <;> rfl
  | _ => rfl

/-- The next number is the count of entries kept so far. -/
theorem nextSeq_run (r : LogRing) (calls : List RingCall) :
    (r.run calls).nextSeq = r.nextSeq + tally keepsEntry r calls := by
  induction calls generalizing r with
  | nil => rfl
  | cons c cs ih =>
    simp only [LogRing.run, List.foldl_cons, tally] at ih ⊢
    rw [ih, nextSeq_call]
    omega

/-! ## One log call -/

section Record

variable (r : LogRing) (l : LogLevel) (frags : List String)

theorem record_of_not_le (h : ¬ l ≤ r.globalLevel) : r.record l frags = r := by
  simp [record, keeps, h]

/-- A kept entry is stored under the next number, which moves on by one. -/
theorem record_of_le (h : l ≤ r.globalLevel) :
    (r.record l frags).entries = (r.store ⟨r.nextSeq, l, clip frags⟩).entries ∧
    (r.record l frags).dropped = (r.store ⟨r.nextSeq, l, clip frags⟩).dropped ∧
    (r.record l frags).nextSeq = r.nextSeq + 1 := by
  simp only [record, keeps, h, decide_true, if_true]
  split <;> exact ⟨rfl, rfl, rfl⟩

/-- A kept entry goes to the back of the buffer, which first drops its oldest entry when full;
at capacity 0 nothing is buffered. -/
theorem entries_record (hr : r.Accounts reads) (h : l ≤ r.globalLevel) :
    (r.record l frags).entries = if r.capacity = 0 then [] else
      (if r.size = r.capacity then r.entries.tail else r.entries) ++ [⟨r.nextSeq, l, clip frags⟩] := by
  rw [(record_of_le r l frags h).1]
  exact (hr.store_outcome _).1

/-- A kept entry is counted as dropped exactly when the ring is full, capacity 0 included. -/
theorem dropped_record (hr : r.Accounts reads) (h : l ≤ r.globalLevel) :
    (r.record l frags).dropped = r.dropped + if r.size = r.capacity then 1 else 0 := by
  rw [(record_of_le r l frags h).2.1]
  exact (hr.store_outcome _).2

/-- The console hears of a kept entry, as its line and a newline, exactly when its level is
also at most the console level. -/
theorem console_record :
    (r.record l frags).console = r.console ++
      if l ≤ r.globalLevel ∧ l ≤ r.consoleLevel then (⟨r.nextSeq, l, clip frags⟩ : LogEntry).line ++ "\n"
      else "" := by
  by_cases hg : l ≤ r.globalLevel
  · by_cases hc : l ≤ r.consoleLevel
    · simp [record, keeps, hg, hc, store]
      split <;> (try split) <;> simp [String.append_assoc]
    · simp [record, keeps, hg, hc, store]
      split <;> (try split) <;> rfl
  · simp [record_of_not_le r l frags hg, hg]

end Record

/-- A printed line is the level's tag, the entry's number right-aligned in six columns between
brackets, and the message. -/
theorem line_aligned (e : LogEntry) :
    ∃ k, e.line = e.level.tag ++ " [" ++ String.ofList (List.replicate k ' ') ++ Nat.repr e.seq ++
        "] " ++ e.message ∧ k + (Nat.repr e.seq).length = max 6 (Nat.repr e.seq).length :=
  ⟨6 - (Nat.repr e.seq).length, by simp only [LogEntry.line, padSeq, String.append_assoc], by omega⟩

/-- Only a log call prints. -/
theorem console_call (r : LogRing) (c : RingCall) (hc : ∀ l msg, c ≠ .log l msg) :
    (r.call c).console = r.console := by
  cases c with
  | log l msg => exact absurd rfl (hc l msg)
  | read =>
    simp only [call, pop]
    split <;> rfl
  | _ => rfl

/-- Read hands back the oldest entry, numbered `nextSeq - size`; a peek at position `i` hands
back the `i`-th oldest, numbered `nextSeq - size + i`, and leaves the ring as it was. -/
theorem pop_peek_seq (hr : r.Accounts reads) :
    r.pop = (r.entries.head?, { r with entries := r.entries.tail }) ∧
    (∀ e, r.pop.1 = some e → e.seq = r.nextSeq - r.size) ∧
    ∀ i, r.peek i = r.entries[i]? ∧ r.call (.peek i) = r ∧
      ∀ e, r.peek i = some e → e.seq = r.nextSeq - r.size + i := by
  have hseq : ∀ i e, r.entries[i]? = some e → e.seq = r.nextSeq - r.size + i := by
    intro i e he
    have hi : i < r.entries.length := (List.getElem?_eq_some_iff.mp he).1
    have := congrArg (·[i]?) hr.seqs
    simp only [List.getElem?_map, he, Option.map_some] at this
    rw [List.getElem?_range' (by simpa [size] using hi), Nat.one_mul] at this
    exact Option.some.inj this
  refine ⟨?_, ?_, fun i => ⟨rfl, rfl, hseq i⟩⟩
  · unfold pop
    cases h : r.entries with
    | nil =>
      have : r = { r with entries := [] } := by cases r; simp_all
      simp only [List.head?_nil, List.tail_nil]
      exact congrArg _ this
    | cons e rest => rfl
  · intro e he
    have := hseq 0 e
    unfold pop at he
    split at he
    · cases he
    · rename_i e' rest hes
      cases he
      simpa using this (by simp [hes])

end LogRing

open LogRing in
/-- A log ring is a bounded queue of the newest kept entries. From an empty ring of any capacity
and levels, along every sequence of calls: the next number counts the entries kept so far, the
buffer holds the entries numbered `nextSeq - size` up to `nextSeq - 1`, oldest first, at most
`capacity` of them, and every number handed out is dropped, read or buffered. A log call keeps
its entry exactly when its level is at most the global level at that moment, numbers it with the
next number, drops the oldest entry exactly when the ring is full (at capacity 0, the entry
itself), and prints its line and a newline exactly when the level is also at most the console
level; no other call prints, and a line shows the level's tag, the number right-aligned in six
columns and the message. Reading hands back the oldest entry, and peeking the `i`-th oldest
without removing it. -/
theorem ring_is_bounded_queue :
    (∀ (capacity : Nat) (global console : LogLevel) (calls : List RingCall),
      let r0 := empty global console capacity
      let r := r0.run calls
      r.nextSeq = tally keepsEntry r0 calls ∧
      r.Accounts (tally readsEntry r0 calls)) ∧
    (∀ (r : LogRing) (l : LogLevel) (frags : List String),
      ¬ l ≤ r.globalLevel → r.record l frags = r) ∧
    (∀ (r : LogRing) (reads : Nat) (l : LogLevel) (frags : List String), r.Accounts reads →
      l ≤ r.globalLevel →
      (r.record l frags).nextSeq = r.nextSeq + 1 ∧
      (r.record l frags).entries = (if r.capacity = 0 then [] else
        (if r.size = r.capacity then r.entries.tail else r.entries) ++ [⟨r.nextSeq, l, clip frags⟩]) ∧
      (r.record l frags).dropped = r.dropped + (if r.size = r.capacity then 1 else 0)) ∧
    (∀ (r : LogRing) (l : LogLevel) (frags : List String),
      (r.record l frags).console = r.console ++
        if l ≤ r.globalLevel ∧ l ≤ r.consoleLevel then (⟨r.nextSeq, l, clip frags⟩ : LogEntry).line ++ "\n"
        else "") ∧
    (∀ (r : LogRing) (c : RingCall), (∀ l msg, c ≠ .log l msg) → (r.call c).console = r.console) ∧
    (∀ e : LogEntry, ∃ k, e.line = e.level.tag ++ " [" ++ String.ofList (List.replicate k ' ') ++
        Nat.repr e.seq ++ "] " ++ e.message ∧ k + (Nat.repr e.seq).length = max 6 (Nat.repr e.seq).length) ∧
    (∀ (r : LogRing) (reads : Nat), r.Accounts reads →
      r.pop = (r.entries.head?, { r with entries := r.entries.tail }) ∧
      (∀ e, r.pop.1 = some e → e.seq = r.nextSeq - r.size) ∧
      ∀ i, r.peek i = r.entries[i]? ∧ r.call (.peek i) = r ∧
        ∀ e, r.peek i = some e → e.seq = r.nextSeq - r.size + i) := by
  refine ⟨fun capacity global console calls => ?_, record_of_not_le, ?_, console_record,
    console_call, line_aligned, fun r reads hr => pop_peek_seq hr⟩
  · have hrun := (accounts_empty global console capacity).run calls
    rw [Nat.zero_add] at hrun
    exact ⟨(nextSeq_run _ calls).trans (Nat.zero_add _), hrun⟩
  · intro r reads l frags hr h
    exact ⟨(record_of_le r l frags h).2.2, entries_record r l frags hr h,
      dropped_record r l frags hr h⟩

open LogRing in
/-- Two entries fill a ring of two; a third is numbered 2, and the first is dropped for it. -/
theorem full_ring_drops_oldest :
    let r := (empty .debug .emergency 2).run [.log .info "a", .log .info "b"]
    (r.record .info ["c"]).entries.map (·.seq) = [1, 2] ∧ (r.record .info ["c"]).dropped = 1 := by
  intro r
  have hacc : r.Accounts 0 := (ring_is_bounded_queue.1 2 .debug .emergency _).2
  obtain ⟨-, hes, hdrop⟩ := ring_is_bounded_queue.2.2.1 r 0 .info ["c"] hacc (by decide)
  rw [hes, hdrop]
  exact ⟨rfl, rfl⟩

end KernelFs.Log
