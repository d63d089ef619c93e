import ScopeScript.Fault

/-! # Program output

Output goes to a sink as a sequence of writes. A sink may be limited: a write that would make it
hold more bytes than its limit stores nothing and fails. Passing the output on may fail as well.
-/

namespace ScopeScript

/-- Where output goes. -/
structure Sink where
  /-- What has been written since the sink was last emptied. -/
  written : String := ""
  /-- The most bytes that the sink may hold, if there is a limit. -/
  limit : Option Nat := none
  /-- Whether passing the output on fails. -/
  flushFails : Bool := false

namespace Sink

/-- Whether a text fits. -/
def fits (sink : Sink) (text : String) : Bool :=
  match sink.limit with
  | none => true
  | some limit => sink.written.utf8ByteSize + text.utf8ByteSize ≤ limit

/-- The sink with a text stored behind what it holds. -/
def store (sink : Sink) (text : String) : Sink :=
  { sink with written := sink.written ++ text }

/-- Write a text as a whole or not at all. The fault, if any, comes with the sink as it is left. -/
def write (sink : Sink) (text : String) : Option SinkFault × Sink :=
  if sink.fits text then (none, sink.store text) else (some .full, sink)

/-- Write a line: its text, unless it is empty, and then the line break. -/
def writeLine (sink : Sink) (text : String) : Option SinkFault × Sink :=
  if text.isEmpty then sink.write "\n"
  else
    match sink.write text with
    | (none, sink) => sink.write "\n"
    | failed => failed

/-- Write lines until one fails. -/
def writeLines (sink : Sink) : List String → Option SinkFault × Sink
  | [] => (none, sink)
  | text :: rest =>
    match sink.writeLine text with
    | (none, sink) => sink.writeLines rest
    | failed => failed

/-- Empty the sink. -/
def clear (sink : Sink) : Sink :=
  { sink with written := "" }

/-- The fault of passing the output on, if there is one. -/
def flushFault? (sink : Sink) : Option SinkFault :=
  if sink.flushFails then some .flush else none

end Sink

end ScopeScript
