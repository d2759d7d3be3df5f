import KernelFs.Log.Ring
import KernelFs.Log.Note

/-!
# The kernel log

The kernel keeps one log ring of 64 entries that starts at global level info and console level
warning (`GLOBAL_LOG`, `KernelLogger`, `init_logger` and `set_global_level`,
src/crates/klog/src/lib.rs:96-170). Kernel code prints to it directly. Library notes reach it only
through a subscriber: once the subscriber is installed, a note passes when the subscriber's filter
allows its level and its kernel level is at most the global level; it is then stored as its source,
a colon and a blank, followed by its fragments. Setting the global level also moves the subscriber's
filter, installed or not.

* `accept_of_not_installed`: before installation no note reaches the ring.
-/

namespace KernelFs.Log

/-- The kernel's log ring and the subscriber that carries library notes into it. -/
structure SystemLog where
  ring : LogRing := LogRing.empty .info .warning 64
  installed : Bool := false
  filter : NoteFilter := none
  deriving Repr, Inhabited

namespace SystemLog

/-- The log as the kernel starts: nothing installed, the filter closed. -/
def boot : SystemLog := {}

/-- Installs the subscriber and opens its filter to the global level. -/
def install (s : SystemLog) : SystemLog :=
  { s with installed := true, filter := some s.ring.globalLevel.noteFilter }

/-- Sets the global level and the subscriber's filter with it. -/
def setGlobal (s : SystemLog) (l : LogLevel) : SystemLog :=
  { s with ring := s.ring.setGlobal l, filter := some l.noteFilter }

/-- Sets the console level. -/
def setConsole (s : SystemLog) (l : LogLevel) : SystemLog :=
  { s with ring := s.ring.setConsole l }

/-- Kernel code prints a message, written as fragments, at a level. -/
def print (s : SystemLog) (l : LogLevel) (frags : List String) : SystemLog :=
  { s with ring := s.ring.record l frags }

/-- Whether a note gets through the subscriber. -/
def passes (s : SystemLog) (n : Note) : Bool :=
  s.installed && s.filter.allows n.level && s.ring.keeps n.level.toLogLevel

/-- Delivers a library note. -/
def accept (s : SystemLog) (n : Note) : SystemLog :=
  if s.passes n then s.print n.level.toLogLevel (n.source :: ": " :: n.pieces) else s

/-- Delivers notes in order. -/
def acceptAll (s : SystemLog) (ns : List Note) : SystemLog := ns.foldl accept s

/-- Removes every entry of the ring, oldest first. -/
def drain (s : SystemLog) : List LogEntry × SystemLog :=
  let (es, r) := s.ring.drain
  (es, { s with ring := r })

/-- Collects the console text printed so far. -/
def takeConsole (s : SystemLog) : String × SystemLog :=
  let (t, r) := s.ring.takeConsole
  (t, { s with ring := r })

theorem accept_of_not_installed (s : SystemLog) (n : Note) (h : s.installed = false) :
    s.accept n = s := by
  simp [accept, passes, h]

end SystemLog

end KernelFs.Log
