import ScopeScript.CommandLine.Command
import ScopeScript.CommandLine.Directory
import ScopeScript.CommandLine.Prompt
import ScopeScript.Session
import ScopeScript.Syntax.Printer
import ScopeScript.Text.Quoted
import ScopeScript.Token.Display

/-! # What a command shows

The exit status of a command and all that it writes, as a function of its arguments, the files that
there are and the bytes of its input.
-/

namespace ScopeScript.CommandLine

/-- What a command leaves behind. -/
structure Transcript where
  exit : Nat := 0
  out : String := ""
  err : String := ""

/-- A text on a line of its own. -/
def line (text : String) : String :=
  text ++ "\n"

/-- Texts on lines of their own. -/
def lines (texts : List String) : String :=
  String.join (texts.map line)

/-- What a command shows that lacks a file. -/
def noFile : Transcript :=
  { out := line "No input filepath was provided. Exiting..." }

/-- The version. -/
def versionText : String := "cybro 0.1.0"

/-- The text of a file, or what is shown instead. -/
def readText (file : String) (content : Except FileFault (List UInt8)) :
    Except Transcript String :=
  let failed (context cause : String) : Except Transcript String :=
    .error { exit := 1, err := failureText context cause }
  let name := Text.quoted file
  match content with
  | .error fault => failed s!"Failed to {fault.action} file {name}" fault.cause
  | .ok bytes =>
    match Utf8.decode bytes with
    | .ok text => .ok text
    | .error fault => failed s!"File {name} is not valid UTF-8" fault.message

/-- Show the tokens of a text. -/
def tokenize (json : Bool) (text : String) : Transcript :=
  let bytes := Utf8.encode text
  let tokens := Source.tokens bytes
  let errors := Source.errors bytes
  { exit := if errors.isEmpty then 0 else 65
    out := if json then line (Token.jsonText tokens) else lines (tokens.map Token.display)
    err := lines (errors.map (·.diagnostic.text)) }

/-- The lines that report diagnostics. -/
def reportLines (diagnostics : List Diagnostic) : String :=
  lines (diagnostics.map Diagnostic.text)

/-- Show the trees of a text. -/
def parse (text : String) : Transcript :=
  match (parseSource 0 text).1 with
  | .ok program => { out := lines (program.map Stmt.render) }
  | .error rejection =>
    { exit := rejection.exitCode, err := reportLines rejection.diagnostics }

/-- The exit status and the report of a source that ran. -/
def verdict (report : Except Rejection (List Diagnostic)) : Nat × String :=
  match report with
  | .ok warnings => (0, reportLines warnings)
  | .error rejection => (rejection.exitCode, reportLines rejection.diagnostics)

/-- Run a text. -/
def runText (fuel : Nat) (clock : Clock) (text : String) : Option Transcript :=
  ((Session.start {} clock).run fuel text).map fun (report, session) =>
    let (exit, err) := verdict report
    { exit, out := session.state.sink.written, err }

/-- Split bytes behind every line break. -/
def splitLines : List UInt8 → List (List UInt8)
  | [] => []
  | byte :: rest =>
    if byte = 10 then [byte] :: splitLines rest
    else
      match splitLines rest with
      | [] => [[byte]]
      | first :: others => (byte :: first) :: others

/-- Answer lines at the prompt; `shown` is what was shown before. -/
def converse (fuel : Nat) (session : Session) (shown : Transcript) :
    List (List UInt8) → Option Transcript
  | [] => some { shown with out := shown.out ++ prompt }
  | bytes :: rest =>
    let shown := { shown with out := shown.out ++ prompt }
    match Action.ofLine bytes with
    | .leave exit report => some { shown with exit, err := shown.err ++ report }
    | .say text => converse fuel session { shown with out := shown.out ++ text } rest
    | .run source =>
      match session.run fuel source with
      | none => none
      | some (report, session) =>
        let output := session.state.sink.written
        let state := { session.state with sink := session.state.sink.clear }
        converse fuel { session with state }
          { shown with out := shown.out ++ output, err := shown.err ++ (verdict report).2 } rest

/-- What is shown for arguments that are not understood. -/
def misuse : Transcript :=
  { exit := 2, err := line "error: unrecognized arguments" }

/-- Do something with the text of a file. -/
def onFile (files : String → Except FileFault (List UInt8)) (file : Option String)
    (action : String → Option Transcript) : Option Transcript :=
  match file with
  | none => some noFile
  | some file =>
    match readText file (files file) with
    | .error transcript => some transcript
    | .ok text => action text

/-- What a command shows, if all that it runs ends within so many steps. -/
def transcript (fuel : Nat) (clock : Clock) (files : String → Except FileFault (List UInt8))
    (input : List UInt8) (command : Command) : Option Transcript :=
  match command with
  | .tokenize file json => onFile files file fun text => some (tokenize json text)
  | .parse file => onFile files file fun text => some (parse text)
  | .run file => onFile files file (runText fuel clock)
  | .repl => converse fuel (.start {} clock) { out := banner } (splitLines input)
  | .version => some { out := line versionText }
  | .misuse => some misuse

end ScopeScript.CommandLine
