import KeyOrder.Settings.Basic

/-!
# Command-line options

The options there are, with their names and what is said about them. One table serves for reading a
command line and for the help pages.
-/

namespace KeyOrder.CommandLine

/-- Options that are given or not. -/
inductive Flag where
  | skipDeclarationFiles
  | noCache
  | fix
  | dryRun
  | json
  | verbose
  | quiet
  | statistics
  | caseInsensitive
  | natural
  | requiredFirst
deriving DecidableEq, Repr

/-- Options that take a value. -/
inductive Setting where
  | config
  | exclude
  | preset
  | order
deriving DecidableEq, Repr

/-- What an option does. -/
inductive OptionKind where
  | flag (flag : Flag)
  | setting (setting : Setting)
  /-- Asks for the help page. -/
  | help
  /-- Asks for the version. -/
  | version
deriving DecidableEq, Repr

/-- An option with its names and what is said about it. -/
structure OptionSpec where
  kind : OptionKind
  short : Option Char := none
  long : String
  /-- Other long names, of which the help pages do not speak. -/
  aliases : List String := []
  /-- What stands for the value in the help pages. -/
  valueName : Option String := none
  about : String
  /-- The values to choose from, with what is said about each. -/
  choices : List (String × String) := []
deriving Repr

/-- The option that asks for the help page, with what is said about it. -/
def helpOption (about : String) : OptionSpec :=
  { kind := .help, short := some 'h', long := "help", about }

/-- The options of the program, apart from those that ask for help or the version. -/
def workOptions : List OptionSpec :=
  [{ kind := .setting .config, short := some 'c', long := "config", valueName := some "CONFIG"
     about := "Use this configuration file instead of searching for one" },
   { kind := .setting .exclude, short := some 'e', long := "exclude", aliases := ["exclude-folder"]
     valueName := some "EXCLUDE", about := "Exclude folders" },
   { kind := .flag .skipDeclarationFiles, long := "skip-declaration-files"
     about := "Skip `.d.ts` declaration files" },
   { kind := .flag .noCache, long := "no-cache"
     about := "Do not memoize member list evaluations" },
   { kind := .flag .fix, long := "fix"
     about := "Sort unsorted member lists and write the files back" },
   { kind := .flag .dryRun, long := "dry-run"
     about := "Print fixed sources instead of writing them (implies --fix)" },
   { kind := .flag .json, long := "json", about := "Output raw JSON" },
   { kind := .flag .verbose, short := some 'v', long := "verbose"
     about := "Enable verbose output for debugging (debug logs on stderr)" },
   { kind := .flag .quiet, long := "quiet", about := "Quiet mode: show only the summary" },
   { kind := .flag .statistics, long := "statistics"
     about := "Print a per-rule statistics table" },
   { kind := .setting .preset, long := "preset", valueName := some "PRESET"
     about := "Rule preset to start from"
     choices :=
       [(Preset.recommended.keyword, "`interface` and `enum` at `error` with default options"),
        (Preset.requiredFirst.keyword,
          "`recommended` with required members first in interfaces")] },
   { kind := .setting .order, long := "order", valueName := some "ORDER", about := "Sort direction"
     choices :=
       [(Direction.ascending.keyword, "Ascending order (`a` before `b`)"),
        (Direction.descending.keyword, "Descending order (`b` before `a`)")] },
   { kind := .flag .caseInsensitive, long := "case-insensitive"
     about := "Compare names ignoring case" },
   { kind := .flag .natural, long := "natural", about := "Compare digit runs by numeric value" },
   { kind := .flag .requiredFirst, long := "required-first"
     about := "Place required interface keys before optional ones" }]

/-- The option that asks for the version. -/
def versionOption : OptionSpec :=
  { kind := .version, short := some 'V', long := "version", about := "Print version" }

/-- The options of the program, with what is said about the one that asks for help. -/
def optionsWith (helpAbout : String) : List OptionSpec :=
  workOptions ++ [helpOption helpAbout, versionOption]

/-- The options of the program. -/
def programOptions : List OptionSpec := optionsWith "Print help"

/-- The options of the command that lists the rules. -/
def rulesOptions : List OptionSpec :=
  [{ kind := .flag .json, long := "json", about := "Output JSON" }, helpOption "Print help"]

/-- The option with a long name. -/
def findLong? (options : List OptionSpec) (name : String) : Option OptionKind :=
  (options.find? fun option => option.long = name || option.aliases.contains name).map (·.kind)

/-- The option with a short name. -/
def findShort? (options : List OptionSpec) (name : Char) : Option OptionKind :=
  (options.find? fun option => option.short = some name).map (·.kind)

end KeyOrder.CommandLine
