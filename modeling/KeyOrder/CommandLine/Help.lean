import KeyOrder.CommandLine.Arguments
import KeyOrder.Output.Style

/-!
# Help pages

Options are described in short, one to a line, or at length, with the description below the option
and the values to choose from below that.
-/

namespace KeyOrder.CommandLine

/-- The name of the program. -/
def programName : String := "sortkeys"

/-- What `--version` prints. -/
def versionText : String := programName ++ " 0.4.0\n"

/-- What the program is for. -/
def programAbout : String :=
  "sortkeys - check and fix the order of TypeScript interface keys and enum members"

/-- What is said about the paths. -/
def pathsAbout : String := "Paths to lint (files or directories). Defaults to the current directory"

/-- What is said about the command that gives help. -/
def helpCommandAbout : String := "Print this message or the help of the given subcommand(s)"

/-- What is said about the command that lists the rules. -/
def rulesCommandAbout : String := "List the available rules"

/-- What is said about settings files below the options. -/
def settingsHelp : List String :=
  ["CONFIGURATION FILE (.sortkeys.toml, or a \"sortkeys\" key in package.json):",
   "  The first file found walking up from the linted path is used.",
   "",
   "  [sortkeys]",
   "  preset = \"recommended\"          # or \"required-first\"",
   "  exclude_folders = [\"generated\"]",
   "  skip_declaration_files = false",
   "",
   "  [sortkeys.rules.interface]",
   "  level = \"error\"                 # error | warn | off",
   "  order = \"asc\"                   # asc | desc",
   "  case_sensitive = true",
   "  natural = false",
   "  required_first = false",
   "",
   "  [sortkeys.rules.enum]",
   "  level = \"error\"",
   "  order = \"asc\"",
   "",
   "  [sortkeys.rules.string-enum]    # deprecated, use `enum`",
   "  level = \"off\""]

/-- The length of the longest text. -/
def longest (texts : List String) : Nat := texts.foldl (fun most text => max most text.length) 0

namespace OptionSpec

/-- The names of an option, and its value. -/
def usage (option : OptionSpec) : String :=
  let short := match option.short with
    | some c => "  -" ++ c.toString ++ ", "
    | none => "      "
  let value := match option.valueName with
    | some name => " <" ++ name ++ ">"
    | none => ""
  short ++ "--" ++ option.long ++ value

/-- An option on one line, its names padded to a width. -/
def shortLine (width : Nat) (option : OptionSpec) : String :=
  let choices := String.intercalate ", " (option.choices.map Prod.fst)
  padEnd width option.usage ++ "  " ++ option.about ++
    (if option.choices.isEmpty then "" else " [possible values: " ++ choices ++ "]")

/-- The values to choose from. -/
def choiceLines (option : OptionSpec) : List String :=
  if option.choices.isEmpty then []
  else
    let width := longest (option.choices.map Prod.fst) + 1
    ["", "          Possible values:"] ++ option.choices.map fun (name, about) =>
      "          - " ++ padEnd width (name ++ ":") ++ " " ++ about

/-- An option at length. -/
def longLines (option : OptionSpec) : List String :=
  [option.usage, "          " ++ option.about] ++ option.choiceLines

end OptionSpec

/-- Options in short. -/
def shortOptions (options : List OptionSpec) : List String :=
  let width := longest (options.map OptionSpec.usage)
  options.map (OptionSpec.shortLine width)

/-- Options at length, with empty lines between them. -/
def longOptions (options : List OptionSpec) : List String :=
  ((options.map OptionSpec.longLines).intersperse [""]).flatten

/-- The lines at the top of both pages on the program. -/
def programHead : List String :=
  [programAbout,
   "",
   "Usage: sortkeys [OPTIONS] [PATHS]... [COMMAND]",
   "",
   "Commands:",
   "  rules  " ++ rulesCommandAbout,
   "  help   " ++ helpCommandAbout,
   "",
   "Arguments:"]

namespace HelpPage

/-- The lines of a page. -/
def lines : HelpPage → List String
  | .full =>
    programHead ++ ["  [PATHS]...", "          " ++ pathsAbout, "", "Options:"] ++
      longOptions (optionsWith "Print help (see a summary with '-h')") ++ [""] ++ settingsHelp
  | .short =>
    programHead ++ ["  [PATHS]...  " ++ pathsAbout, "", "Options:"] ++
      shortOptions (optionsWith "Print help (see more with '--help')") ++ [""] ++ settingsHelp
  | .rules =>
    [rulesCommandAbout, "", "Usage: sortkeys rules [OPTIONS]", "", "Options:"] ++
      shortOptions rulesOptions
  | .help =>
    [helpCommandAbout, "", "Usage: sortkeys help [COMMAND]...", "", "Arguments:",
     "  [COMMAND]...  Print help for the subcommand(s)"]

/-- The text of a page. -/
def text (page : HelpPage) : String := String.intercalate "\n" page.lines ++ "\n"

end HelpPage

end KeyOrder.CommandLine
