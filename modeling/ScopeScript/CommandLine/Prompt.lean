import ScopeScript.Text.Blank
import ScopeScript.Utf8

/-! # The prompt

At the prompt a line is either a directive, which is answered at once, or a source.
-/

namespace ScopeScript.CommandLine

/-- What greets whoever opens the prompt. -/
def banner : String :=
  "Welcome to Cybro!
Type 'exit' to quit
Type 'help' for help
Type 'clear' to clear the screen
"

/-- What asks for a line. -/
def prompt : String := "⇝ "

/-- What the directive for help shows. -/
def help : String :=
  "Commands:
  exit          leave the REPL
  help          show this message
  clear         clear the screen
  echo <text>   print <text>
Anything else is run as CybroScript.
"

/-- A failure that has a cause, as it is reported. -/
def failureText (context cause : String) : String :=
  s!"Error: {context}\n\nCaused by:\n    {cause}\n"

/-- What is to be done after a line. -/
inductive Action where
  /-- Leave with an exit status, after reporting something. -/
  | leave (exit : Nat) (report : String)
  /-- Show a text. -/
  | say (text : String)
  /-- Run a source. -/
  | run (source : String)
  deriving DecidableEq

/-- What is to be done after a line that has no white space at its ends. -/
def Action.ofText (text : String) : Action :=
  match text with
  | "" => .say ""
  | "exit" => .leave 0 ""
  | "help" => .say help
  | "clear" => .say "\x1B[2J"
  | "echo" => .say "\n"
  | text =>
    if text.startsWith "echo " then .say ((text.drop 5).toString ++ "\n") else .run text

/-- What is to be done after the bytes of a line; there are none at the end of the input. -/
def Action.ofLine (bytes : List UInt8) : Action :=
  if bytes.isEmpty then .leave 0 ""
  else
    match Utf8.decode bytes with
    | .ok text => .ofText (Text.trim text)
    | .error _ =>
      .leave 1 (failureText "Failed to read from stdin" "stream did not contain valid UTF-8")

end ScopeScript.CommandLine
