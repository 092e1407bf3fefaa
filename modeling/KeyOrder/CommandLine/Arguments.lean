import KeyOrder.CommandLine.Options
import KeyOrder.Files.Path

/-!
# Reading a command line

Arguments are read from left to right. A long option may carry its value behind an equals sign,
short options may stand together behind one dash, and the last of them may be followed by its
value. After two dashes everything is a path.

A value that is given as an argument of its own, and the paths given so far, are looked at only
when the next option turns up or the line ends. **So of two faults the one that stops the reading
is reported**: an unknown option behind a wrong value, but a wrong value before an option that is
known.
-/

namespace KeyOrder.CommandLine

/-- What is wrong with a command line. -/
inductive UsageError where
  /-- An option that does not exist, or an argument where none may stand. -/
  | unknownArgument
  /-- A value that is missing or is none of those allowed. -/
  | invalidValue
  /-- An option that may be given once is given twice. -/
  | repeatedOption
  /-- A value for an option that takes none. -/
  | unexpectedValue
  /-- Help is asked for on a command that does not exist. -/
  | unknownCommand
deriving DecidableEq, Repr

/-- The pages of help. -/
inductive HelpPage where
  /-- The program, at length. -/
  | full
  /-- The program, in short. -/
  | short
  /-- The command that lists the rules. -/
  | rules
  /-- The command that gives help. -/
  | help
deriving DecidableEq, Repr

/-- What a command line asks for in place of a run. -/
inductive Interrupt where
  | help (page : HelpPage)
  | version
  | usage (error : UsageError)
deriving DecidableEq, Repr

/-- What a command line says. -/
structure Arguments where
  /-- The rules are to be listed, for programs or not. -/
  listRules : Option Bool := none
  paths : List Path := []
  config : Option Path := none
  excludes : List String := []
  preset : Option Preset := none
  direction : Option Direction := none
  flags : List Flag := []
deriving DecidableEq, Repr

namespace Arguments

/-- Whether a flag is given. -/
def has (arguments : Arguments) (flag : Flag) : Bool := arguments.flags.contains flag

/-- The settings that lie on top of those of every rule. -/
def overrides (arguments : Arguments) : RuleSettings :=
  { direction := arguments.direction
    caseSensitive := if arguments.has .caseInsensitive then some false else none
    natural := if arguments.has .natural then some true else none
    requiredFirst := if arguments.has .requiredFirst then some true else none }

/-- The arguments with a flag. -/
def addFlag (arguments : Arguments) (flag : Flag) : Except Interrupt Arguments :=
  if arguments.has flag then .error (.usage .repeatedOption)
  else .ok { arguments with flags := arguments.flags ++ [flag] }

/-- A value that is given once, read from its text. -/
def giveOnce {α : Type} (known : Option α) (read? : String → Option α) (text : String) :
    Except Interrupt α :=
  match known with
  | some _ => .error (.usage .repeatedOption)
  | none =>
    match read? text with
    | some value => .ok value
    | none => .error (.usage .invalidValue)

/-- A path, which is not empty. -/
def readPath? (text : String) : Option Path := if text.isEmpty then none else some text

/-- The arguments with the value of an option. -/
def give (arguments : Arguments) (setting : Setting) (text : String) :
    Except Interrupt Arguments := do
  match setting with
  | .exclude => return { arguments with excludes := arguments.excludes ++ [text] }
  | .config => return { arguments with config := ← giveOnce arguments.config readPath? text }
  | .preset =>
    return { arguments with preset := ← giveOnce arguments.preset Preset.ofKeyword? text }
  | .order =>
    return { arguments with direction := ← giveOnce arguments.direction Direction.ofKeyword? text }

/-- The arguments with more paths. -/
def addPaths (arguments : Arguments) (paths : List String) : Except Interrupt Arguments :=
  if paths.any String.isEmpty then .error (.usage .invalidValue)
  else .ok { arguments with paths := arguments.paths ++ paths }

end Arguments

/-- What has been read and not yet looked at. -/
inductive Pending where
  | nothing
  /-- An option, and its value if there is one yet. -/
  | setting (setting : Setting) (value : Option String)
  | paths (paths : List String)
deriving DecidableEq, Repr

/-- The state of reading. -/
structure Reading where
  arguments : Arguments := {}
  pending : Pending := .nothing
deriving DecidableEq, Repr

namespace Reading

/-- Looks at what is pending. -/
def settle (reading : Reading) : Except Interrupt Arguments :=
  match reading.pending with
  | .nothing => .ok reading.arguments
  | .setting _ none => .error (.usage .invalidValue)
  | .setting setting (some value) => reading.arguments.give setting value
  | .paths paths => reading.arguments.addPaths paths

/-- Whether a command may stand here: not as the value of an option, and not among paths. -/
def takesCommand (reading : Reading) : Bool :=
  match reading.pending with
  | .nothing => true
  | .setting _ value => value.isSome
  | .paths _ => false

/-- Reads a flag. -/
def flag (reading : Reading) (flag : Flag) : Except Interrupt Reading := do
  return { arguments := ← (← reading.settle).addFlag flag }

/-- Reads an option with its value. -/
def settingWith (reading : Reading) (setting : Setting) (value : String) :
    Except Interrupt Reading := do
  return { arguments := ← (← reading.settle).give setting value }

/-- Reads an option whose value is to follow. -/
def settingAlone (reading : Reading) (setting : Setting) : Except Interrupt Reading := do
  return { arguments := ← reading.settle, pending := .setting setting none }

/-- Reads a request for help or the version. -/
def interrupt (reading : Reading) (request : Interrupt) : Except Interrupt Reading := do
  let _ ← reading.settle
  throw request

/-- Reads a path. -/
def path (reading : Reading) (path : String) : Except Interrupt Reading :=
  match reading.pending with
  | .paths paths => .ok { reading with pending := .paths (paths ++ [path]) }
  | _ => do return { arguments := ← reading.settle, pending := .paths [path] }

/-- Reads a value or a path. -/
def plain (reading : Reading) (text : String) : Except Interrupt Reading :=
  match reading.pending with
  | .setting setting none => .ok { reading with pending := .setting setting (some text) }
  | _ => reading.path text

/-- Reads a long option, given without its dashes. -/
def long (reading : Reading) (text : Text) : Except Interrupt Reading :=
  let name := String.ofList (text.takeWhile (· != '='))
  let value := (text.dropWhile (· != '=')).tail?.map String.ofList
  match findLong? programOptions name, value with
  | none, _ => .error (.usage .unknownArgument)
  | some (.setting setting), some value => reading.settingWith setting value
  | some (.setting setting), none => reading.settingAlone setting
  | some _, some _ => .error (.usage .unexpectedValue)
  | some (.flag flag), none => reading.flag flag
  | some .help, none => reading.interrupt (.help .full)
  | some .version, none => reading.interrupt .version

/-- Reads short options, given without their dash. -/
def short (reading : Reading) : Text → Except Interrupt Reading
  | [] => .ok reading
  | name :: rest =>
    match findShort? programOptions name with
    | none => .error (.usage .unknownArgument)
    | some (.flag flag) => do (← reading.flag flag).short rest
    | some .help => reading.interrupt (.help .short)
    | some .version => reading.interrupt .version
    | some (.setting setting) =>
      match rest with
      | [] => reading.settingAlone setting
      | '=' :: value => reading.settingWith setting (String.ofList value)
      | value => reading.settingWith setting (String.ofList value)

/-- Reads one argument in front of two dashes. -/
def argument (reading : Reading) (text : String) : Except Interrupt Reading :=
  match text.toList with
  | '-' :: '-' :: name => reading.long name
  | '-' :: name :: names => reading.short (name :: names)
  | _ => reading.plain text

end Reading

/-- Reads the arguments of the command that lists the rules, given whether its output for programs
has been asked for: the answer to that. -/
def readRules (json : Bool) : List String → Except Interrupt Bool
  | [] => .ok json
  | text :: rest =>
    match text.toList with
    | ['-', '-'] => if rest.isEmpty then .ok json else .error (.usage .unknownArgument)
    | '-' :: '-' :: option =>
      let name := String.ofList (option.takeWhile (· != '='))
      match findLong? rulesOptions name, option.contains '=' with
      | none, _ => .error (.usage .unknownArgument)
      | some _, true => .error (.usage .unexpectedValue)
      | some (.flag _), false =>
        if json then .error (.usage .repeatedOption) else readRules true rest
      | some _, false => .error (.help .rules)
    | '-' :: name :: _ =>
      match findShort? rulesOptions name with
      | some _ => .error (.help .rules)
      | none => .error (.usage .unknownArgument)
    | _ => .error (.usage .unknownArgument)

/-- The page of help on a command. -/
def helpOn : List String → Interrupt
  | [] => .help .full
  | ["rules"] => .help .rules
  | ["help"] => .help .help
  | _ => .usage .unknownCommand

/-- Reads paths up to the end. -/
def readPaths (reading : Reading) : List String → Except Interrupt Arguments
  | [] => reading.settle
  | text :: rest => do readPaths (← reading.path text) rest

/-- Reads the arguments that follow. -/
def readFrom (reading : Reading) : List String → Except Interrupt Arguments
  | [] => reading.settle
  | text :: rest =>
    if reading.takesCommand && text = "help" then .error (helpOn rest)
    else if reading.takesCommand && text = "rules" then do
      let json ← readRules false rest
      return { ← reading.settle with listRules := some json }
    else if text = "--" then readPaths reading rest
    else do readFrom (← reading.argument text) rest

/-- Reads a command line. -/
def read (arguments : List String) : Except Interrupt Arguments := readFrom {} arguments

end KeyOrder.CommandLine
