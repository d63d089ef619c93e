/-! # Commands

What the arguments of the command line ask for. The flag for a log is accepted once in front of a
command and once behind it, and changes nothing that is seen.
-/

namespace ScopeScript.CommandLine

/-- What is asked for. -/
inductive Command where
  /-- Show the tokens of a file. -/
  | tokenize (file : Option String) (json : Bool)
  /-- Show the trees of a file. -/
  | parse (file : Option String)
  /-- Run a file. -/
  | run (file : Option String)
  /-- Run lines as they come. -/
  | repl
  /-- Show the version. -/
  | version
  /-- Nothing that is understood. -/
  | misuse
  deriving DecidableEq

/-- The flags and files of a command. -/
structure Options where
  log : Bool := false
  json : Bool := false
  files : List String := []

/-- Read flags and files; a flag comes at most once, and none after `--`. -/
def Options.read (options : Options) : List String → Option Options
  | [] => some options
  | "--" :: rest => some { options with files := options.files ++ rest }
  | "--log" :: rest => if options.log then none else { options with log := true }.read rest
  | "--json" :: rest => if options.json then none else { options with json := true }.read rest
  | argument :: rest =>
    if argument.startsWith "-" && argument ≠ "-" then none
    else { options with files := options.files ++ [argument] }.read rest

/-- A command that takes at most one file, whose name is not empty. -/
def withFile (options : Options) (command : Option String → Command) : Command :=
  match options.files with
  | [] => command none
  | [file] => if file.isEmpty then .misuse else command (some file)
  | _ => .misuse

/-- The command with a given name. -/
def Command.named (name : String) (options : Options) : Command :=
  match name with
  | "tokenize" => withFile options fun file => .tokenize file options.json
  | "parse" => if options.json then .misuse else withFile options .parse
  | "run" => if options.json then .misuse else withFile options .run
  | "repl" => if options.json || !options.files.isEmpty then .misuse else .repl
  | _ => .misuse

/-- The command that arguments stand for, the log flag having been seen or not. The short flag for
the version counts whatever is written behind its letter. -/
def Command.read (log : Bool) : List String → Command
  | [] => .misuse
  | "--log" :: rest => if log then .misuse else Command.read true rest
  | name :: rest =>
    if name = "--version" || name.startsWith "-V" then .version
    else
      match ({} : Options).read rest with
      | some options => .named name options
      | none => .misuse

/-- The command that arguments stand for. -/
def Command.ofArguments (arguments : List String) : Command :=
  Command.read false arguments

/-- The file that a command reads. -/
def Command.file? : Command → Option String
  | .tokenize file _ | .parse file | .run file => file
  | _ => none

end ScopeScript.CommandLine
