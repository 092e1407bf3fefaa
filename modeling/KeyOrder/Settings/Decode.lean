import KeyOrder.Data.Json
import KeyOrder.Data.Record
import KeyOrder.Settings.Basic

/-!
# Reading settings from values

Sort options, the settings of a rule and the settings of a run as they are written in JSON or TOML.
An unknown field, a field given twice or a value of another type is an error; a field that is left
out has its default.
-/

namespace KeyOrder

/-- Reads sort options. -/
def SortOptions.ofValue? (format : DataFormat) (value : Value) : Option SortOptions := do
  let fields ← value.fields? format
    [["order"], ["case_sensitive", "caseSensitive"], ["natural"],
      ["required_first", "requiredFirst"]]
  match fields with
  | [direction, caseSensitive, natural, requiredFirst] =>
    let direction ←
      Value.required? (Value.keyword? format Direction.ofKeyword?) .ascending direction
    let caseSensitive ← Value.required? Value.boolean? true caseSensitive
    let natural ← Value.required? Value.boolean? false natural
    let requiredFirst ← Value.required? Value.boolean? false requiredFirst
    some { direction, caseSensitive, natural, requiredFirst }
  | _ => none

/-- Reads the settings of a rule. -/
def RuleSettings.ofValue? (format : DataFormat) (value : Value) : Option RuleSettings := do
  let fields ← value.fields? format
    [["level"], ["order"], ["case_sensitive", "caseSensitive"], ["natural"],
     ["required_first", "requiredFirst"]]
  match fields with
  | [level, direction, caseSensitive, natural, requiredFirst] =>
    let level ← Value.optional? (Value.keyword? format Level.ofKeyword?) level
    let direction ← Value.optional? (Value.keyword? format Direction.ofKeyword?) direction
    let caseSensitive ← Value.optional? Value.boolean? caseSensitive
    let natural ← Value.optional? Value.boolean? natural
    let requiredFirst ← Value.optional? Value.boolean? requiredFirst
    some { level, direction, caseSensitive, natural, requiredFirst }
  | _ => none

namespace Settings

/-- Reads the settings of all rules into settings. -/
def withRules? (format : DataFormat) (settings : Settings) (value : Value) : Option Settings := do
  let fields ← value.fields? format [["interface"], ["enum"], ["string-enum"]]
  match fields with
  | [interface, enumeration, stringEnumeration] =>
    let interface ← Value.optional? (RuleSettings.ofValue? format) interface
    let enumeration ← Value.optional? (RuleSettings.ofValue? format) enumeration
    let stringEnumeration ← Value.optional? (RuleSettings.ofValue? format) stringEnumeration
    some { settings with interface, enumeration, stringEnumeration }
  | _ => none

/-- Reads settings. -/
def ofValue? (format : DataFormat) (value : Value) : Option Settings := do
  let fields ← value.fields? format
    [["preset"], ["rules"], ["exclude_folders"], ["skip_declaration_files"]]
  match fields with
  | [preset, rules, excludeFolders, skipDeclarationFiles] =>
    let preset ← Value.optional? (Value.keyword? format Preset.ofKeyword?) preset
    let excludeFolders ← Value.optional? Value.strings? excludeFolders
    let skipDeclarationFiles ← Value.optional? Value.boolean? skipDeclarationFiles
    let settings : Settings := { preset, excludeFolders, skipDeclarationFiles }
    Value.required? (settings.withRules? format) settings rules
  | _ => none

end Settings

/-- Reads sort options from a JSON text. -/
def SortOptions.ofJson? (text : Text) : Option SortOptions := do
  SortOptions.ofValue? .json (← Json.read? text)

/-- Reads the settings of a rule from a JSON text. -/
def RuleSettings.ofJson? (text : Text) : Option RuleSettings := do
  RuleSettings.ofValue? .json (← Json.read? text)

end KeyOrder
