import Std.Time.DateTime.Timestamp
import ScopeScript.CommandLine.Transcript

/-! # The program

Everything that is shown is decided elsewhere. Here files and input are read, output is passed on
while a program is still running, and the clock is set.
-/

namespace ScopeScript.CommandLine

/-- The time in seconds, to the microsecond. -/
def now : IO Float := do
  let time ← Std.Time.Timestamp.now
  let micros := time.toNanosecondsSinceUnixEpoch.val.toNat / 1000
  return Float.ofNat (micros / 1000000) + Float.ofNat (micros % 1000000) / 1.0e6

/-- A clock that shows the present. -/
def present : IO Clock := do
  let seconds ← now
  return { readings := fun _ => seconds }

/-- The bytes of a file, or why it cannot be read. -/
def fileContent (file : String) : IO (Except FileFault (List UInt8)) := do
  try
    return .ok (← IO.FS.readBinFile file).toList
  catch error =>
    match error with
    | .noFileOrDirectory .. => return .error .missing
    | other => return .error (.other (toString other))

/-- Run a configuration to its end, showing what it writes as it goes. -/
partial def drive (config : Config) : IO Config := do
  let config := ScopeScript.run 4096 config
  let out ← IO.getStdout
  out.putStr config.state.sink.written
  out.flush
  let state := { config.state with sink := config.state.sink.clear, clock := ← present }
  let config := { config with state }
  if config.isDone then return config else drive config

/-- Run a source, report on it and give its exit status. -/
def runSource (session : Session) (source : String) : IO (Nat × Session) := do
  let (report, session) ← match session.prepare source with
    | (.error rejection, session) => pure (.error rejection, session)
    | (.ok prepared, session) =>
      let config ← drive
        (.ofProgram prepared.program prepared.resolution.locals session.state)
      let result := match config.outcome? with
        | some outcome => finish outcome config.state.sink
        | none => .ok ()
      pure (Session.report prepared result, { session with state := config.state })
  let (exit, text) := verdict report
  (← IO.getStderr).putStr text
  return (exit, session)

/-- The bytes of a line with its line break; none at the end of the input. -/
partial def readLine (line : List UInt8) : IO (List UInt8) := do
  match (← (← IO.getStdin).read 1).toList with
  | [] => return line.reverse
  | byte :: _ => if byte = 10 then return (byte :: line).reverse else readLine (byte :: line)

/-- Answer lines at the prompt and give the exit status. -/
partial def answerLines (session : Session) : IO Nat := do
  IO.print prompt
  (← IO.getStdout).flush
  match Action.ofLine (← readLine []) with
  | .leave exit report =>
    IO.eprint report
    return exit
  | .say text =>
    IO.print text
    answerLines session
  | .run source =>
    let (_, session) ← runSource session source
    answerLines session

/-- Carry out a command and give its exit status. -/
def perform (command : Command) : IO Nat := do
  let clock ← present
  let content ← match command.file? with
    | some file => fileContent file
    | none => pure (.error .missing)
  let display (transcript : Transcript) : IO Nat := do
    IO.print transcript.out
    IO.eprint transcript.err
    return transcript.exit
  match command with
  | .repl =>
    IO.print banner
    answerLines (.start {} clock)
  | .run (some file) =>
    match readText file content with
    | .error transcript => display transcript
    | .ok text => return (← runSource (.start {} clock) text).1
  | command => display ((transcript 0 clock (fun _ => content) [] command).getD misuse)

end ScopeScript.CommandLine

def main (arguments : List String) : IO UInt32 := do
  let exit ← ScopeScript.CommandLine.perform (.ofArguments arguments)
  return UInt32.ofNat exit
