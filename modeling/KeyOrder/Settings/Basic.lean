import KeyOrder.Rule.Basic

/-!
# Settings

Settings start from a preset; each rule's own settings lie on top of it, and the settings of the
command line on top of those. What is left unset falls through to the layer below.
-/

namespace KeyOrder

/-- How a rule reports. -/
inductive Level where
  | off
  | warn
  | error
deriving DecidableEq, Repr

namespace Level

/-- The keyword of a level. -/
def keyword : Level → String
  | .off => "off"
  | .warn => "warn"
  | .error => "error"

/-- The level with a given keyword. -/
def ofKeyword? : String → Option Level
  | "off" => some .off
  | "warn" | "warning" => some .warn
  | "error" => some .error
  | _ => none

/-- The severity of reports at a level; a rule that is off makes none. -/
def severity? : Level → Option Severity
  | .off => none
  | .warn => some .warning
  | .error => some .error

end Level

/-- Settings of one rule, of which any may be unset. -/
structure RuleSettings where
  level : Option Level := none
  direction : Option Direction := none
  caseSensitive : Option Bool := none
  natural : Option Bool := none
  requiredFirst : Option Bool := none
deriving DecidableEq, Repr

namespace RuleSettings

/-- Nothing set. -/
def unset : RuleSettings := {}

/-- Settings on top of others: what is unset falls through. -/
def orElse (upper lower : RuleSettings) : RuleSettings :=
  { level := upper.level <|> lower.level
    direction := upper.direction <|> lower.direction
    caseSensitive := upper.caseSensitive <|> lower.caseSensitive
    natural := upper.natural <|> lower.natural
    requiredFirst := upper.requiredFirst <|> lower.requiredFirst }

/-- Sort options with the settings on top. -/
def applyTo (settings : RuleSettings) (options : SortOptions) : SortOptions :=
  { direction := settings.direction.getD options.direction
    caseSensitive := settings.caseSensitive.getD options.caseSensitive
    natural := settings.natural.getD options.natural
    requiredFirst := settings.requiredFirst.getD options.requiredFirst }

/-- The severity of a rule with these settings, if a level is set and it is not off. -/
def severity? (settings : RuleSettings) : Option Severity :=
  settings.level.bind Level.severity?

end RuleSettings

/-- Settings to start from. -/
inductive Preset where
  | recommended
  | requiredFirst
deriving DecidableEq, Repr

namespace Preset

/-- The keyword of a preset. -/
def keyword : Preset → String
  | .recommended => "recommended"
  | .requiredFirst => "required-first"

/-- The preset with a given keyword. -/
def ofKeyword? : String → Option Preset
  | "recommended" => some .recommended
  | "required-first" => some .requiredFirst
  | _ => none

/-- What a preset says about a rule. -/
def rule (preset : Preset) : RuleId → RuleSettings
  | .interface =>
    { level := some .error
      requiredFirst := if preset = .requiredFirst then some true else none }
  | .enumeration => { level := some .error }
  | .stringEnumeration => { level := some .off }

/-- What a preset says about a rule with a given name; a rule that does not exist is off. -/
def ruleNamed (preset : Preset) (name : String) : RuleSettings :=
  match RuleId.ofName? name with
  | some id => preset.rule id
  | none => { level := some .off }

end Preset

/-- Why settings cannot be used. -/
inductive SettingsError where
  /-- The file at a path cannot be read, for a reason. -/
  | unreadable (path reason : String)
  /-- The TOML file at a path does not hold settings. -/
  | invalidToml (path : String)
  /-- The entry in the JSON file at a path does not hold settings. -/
  | invalidJson (path : String)
  /-- A rule is asked to put required members first that cannot. -/
  | unsupportedOption (rule : String)
deriving DecidableEq, Repr

/-- The wording of a settings error. -/
def SettingsError.message : SettingsError → String
  | .unreadable path reason => "failed to read config file " ++ path ++ ": " ++ reason
  | .invalidToml path => "invalid config file " ++ path
  | .invalidJson path => "invalid \"sortkeys\" entry in " ++ path
  | .unsupportedOption rule => "rule '" ++ rule ++ "' does not accept option 'required_first'"

/-- The settings of a run. -/
structure Settings where
  preset : Option Preset := none
  interface : Option RuleSettings := none
  enumeration : Option RuleSettings := none
  stringEnumeration : Option RuleSettings := none
  /-- Folders to leave out. -/
  excludeFolders : Option (List String) := none
  /-- Whether declaration files are left out. -/
  skipDeclarationFiles : Option Bool := none
deriving DecidableEq, Repr

/-- What a rule runs with. -/
structure ResolvedRule where
  /-- None if the rule is off. -/
  severity : Option Severity
  options : SortOptions
deriving DecidableEq, Repr

namespace Settings

/-- The own settings of a rule. -/
def ownRule (settings : Settings) : RuleId → Option RuleSettings
  | .interface => settings.interface
  | .enumeration => settings.enumeration
  | .stringEnumeration => settings.stringEnumeration

/-- The settings of a rule with those of the preset below them. -/
def mergedRule (settings : Settings) (id : RuleId) : RuleSettings :=
  let preset := (settings.preset.getD .recommended).rule id
  match settings.ownRule id with
  | some own => own.orElse preset
  | none => preset

/-- What a rule runs with. Only the interface rule can put required members first. -/
def resolve (settings : Settings) (id : RuleId) : Except SettingsError ResolvedRule :=
  let merged := settings.mergedRule id
  if id ≠ .interface ∧ merged.requiredFirst = some true then
    .error (.unsupportedOption id.name)
  else
    .ok ⟨(merged.level.getD .error).severity?, merged.applyTo {}⟩

/-- What a rule with a given name runs with; a rule that does not exist is off. -/
def resolveNamed (settings : Settings) (name : String) : Except SettingsError ResolvedRule :=
  match RuleId.ofName? name with
  | some id => settings.resolve id
  | none => .ok ⟨none, {}⟩

/-- The rules that are on. All rules are looked at, also those that are off. -/
def rules (settings : Settings) : Except SettingsError (List Rule) := do
  let resolved ← RuleId.all.mapM fun id => do return (id, ← settings.resolve id)
  return resolved.filterMap fun (id, rule) =>
    rule.severity.map fun severity => ⟨id, severity, rule.options⟩

/-- Whether a rule that has been replaced is switched on. -/
def usesDeprecatedRules (settings : Settings) : Bool :=
  (settings.stringEnumeration.bind RuleSettings.level).any (· ≠ .off)

/-- The settings of a rule with the command line's on top, which ask only the interface rule to put
required members first. -/
def overlay (overrides : RuleSettings) (id : RuleId) (own : Option RuleSettings) : RuleSettings :=
  let layer := if id = .interface then overrides else { overrides with requiredFirst := none }
  match own with
  | some own => layer.orElse own
  | none => layer

/-- The settings with those of the command line on top of every rule's. -/
def withOverrides (settings : Settings) (overrides : RuleSettings) : Settings :=
  if overrides = RuleSettings.unset then settings
  else
    { settings with
      interface := some (overlay overrides .interface settings.interface)
      enumeration := some (overlay overrides .enumeration settings.enumeration)
      stringEnumeration := some (overlay overrides .stringEnumeration settings.stringEnumeration) }

end Settings

end KeyOrder
