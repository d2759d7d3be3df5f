/-!
# Log levels

Kernel log records carry one of eight severities, from emergency (0) down to debug (7); a smaller
code is more urgent (`LogLevel`, src/crates/klog/src/level.rs:6-77). Library code reports through a
lighter scale of five note levels, which map onto the kernel scale. A subscriber's filter names the
most verbose note level it accepts, or none at all.

* `LogLevel.ofCode_code`: codes name levels faithfully.

The filter derived from a kernel level is coarser than the level itself (an emergency level
still lets error notes through), so the kernel checks the mapped level once more.
-/

namespace KernelFs

/-- The severity of a kernel log record. -/
inductive LogLevel where
  | emergency
  | alert
  | critical
  | error
  | warning
  | notice
  | info
  | debug
  deriving DecidableEq, Repr, Inhabited

namespace LogLevel

/-- The numeric code of a level: 0 is the most urgent. -/
def code : LogLevel → Nat
  | emergency => 0
  | alert => 1
  | critical => 2
  | error => 3
  | warning => 4
  | notice => 5
  | info => 6
  | debug => 7

/-- The level of a numeric code; every code from 7 up is debug. -/
def ofCode : Nat → LogLevel
  | 0 => emergency
  | 1 => alert
  | 2 => critical
  | 3 => error
  | 4 => warning
  | 5 => notice
  | 6 => info
  | _ => debug

/-- The bracketed tag that opens a printed record. -/
def tag : LogLevel → String
  | emergency => "[EMERG]"
  | alert => "[ALERT]"
  | critical => "[CRIT]"
  | error => "[ERR]"
  | warning => "[WARNING]"
  | notice => "[NOTICE]"
  | info => "[INFO]"
  | debug => "[DEBUG]"

/-- Levels are ordered by code: `a ≤ b` when `a` is at least as urgent as `b`. -/
instance : LE LogLevel := ⟨fun a b => a.code ≤ b.code⟩

/-- Comparing levels compares codes. -/
instance (a b : LogLevel) : Decidable (a ≤ b) := inferInstanceAs (Decidable (a.code ≤ b.code))

@[simp]
theorem ofCode_code (l : LogLevel) : ofCode l.code = l := by
  cases l <;> rfl

end LogLevel

/-- The level of a note written by library code. -/
inductive NoteLevel where
  | error
  | warn
  | info
  | debug
  | trace
  deriving DecidableEq, Repr, Inhabited

namespace NoteLevel

/-- The verbosity rank of a note level: error is 1, trace is 5. -/
def rank : NoteLevel → Nat
  | error => 1
  | warn => 2
  | info => 3
  | debug => 4
  | trace => 5

/-- The kernel level a note is recorded at: debug and trace both become debug. -/
def toLogLevel : NoteLevel → LogLevel
  | error => .error
  | warn => .warning
  | info => .info
  | debug => .debug
  | trace => .debug

/-- The upper-case name of a note level. -/
def label : NoteLevel → String
  | error => "ERROR"
  | warn => "WARN"
  | info => "INFO"
  | debug => "DEBUG"
  | trace => "TRACE"

end NoteLevel

/-- The most verbose note level a subscriber accepts; `none` accepts nothing. -/
abbrev NoteFilter := Option NoteLevel

/-- Whether a filter lets a note of the given level through. -/
def NoteFilter.allows : NoteFilter → NoteLevel → Bool
  | none, _ => false
  | some top, l => l.rank ≤ top.rank

/-- The filter a kernel level asks of library notes: the most verbose note level that is
recorded at a level no less urgent than it. -/
def LogLevel.noteFilter : LogLevel → NoteLevel
  | .emergency | .alert | .critical | .error => .error
  | .warning => .warn
  | .notice | .info => .info
  | .debug => .trace

end KernelFs
