import KeyOrder.Data.Toml
import KeyOrder.Files.Tree
import KeyOrder.Settings.Decode

/-!
# Finding settings

Settings are looked for in the directory of a path and then in each directory above it, as far as
the path is written. In a directory `.sortkeys.toml` comes before `package.json`, and the first
file that has settings decides: what stands further up is not looked at. A `package.json` that is
no JSON, or that says nothing about sorting, is passed over.
-/

namespace KeyOrder

/-- Name of the settings file. -/
def settingsFileName : String := ".sortkeys.toml"

/-- Name of the file that may hold settings beside other things. -/
def manifestName : String := "package.json"

/-- The key under which settings stand. -/
def settingsKey : String := "sortkeys"

/-- Settings and the file they come from. -/
structure LoadedSettings where
  settings : Settings := {}
  file : Option Path := none
deriving DecidableEq, Repr

/-- The readers of the two file formats. -/
structure Decoders where
  toml : Text → Option Value
  json : Text → Option Value

/-- Readers of plain TOML and JSON. Of repeated keys in JSON the last counts. -/
def Decoders.standard : Decoders where
  toml := Toml.read?
  json text := (Json.read? text).map Value.lastWins

namespace Settings

/-- Settings of a TOML document. What it says about other things is not looked at. -/
def ofToml? (decoders : Decoders) (text : Text) : Option Settings := do
  let document ← decoders.toml text
  match document.get? settingsKey with
  | none => some {}
  | some value => Settings.ofValue? .toml value

/-- The entry of a manifest that holds settings. -/
def manifestEntry? (decoders : Decoders) (text : Text) : Option Value := do
  (← decoders.json text).get? settingsKey

end Settings

namespace FileSystem

/-- Reads a settings file. -/
def loadSettingsFile (files : FileSystem) (path : Path) (decoders : Decoders := .standard) :
    Except SettingsError LoadedSettings :=
  match files.read path with
  | .error error => .error (.unreadable path error.message)
  | .ok text =>
    match Settings.ofToml? decoders text with
    | none => .error (.invalidToml path)
    | some settings => .ok ⟨settings, some path⟩

/-- Reads the settings of a manifest, if it has any. -/
def loadManifest (files : FileSystem) (decoders : Decoders) (path : Path) :
    Except SettingsError (Option LoadedSettings) :=
  match files.read path with
  | .error error => .error (.unreadable path error.message)
  | .ok text =>
    match Settings.manifestEntry? decoders text with
    | none => .ok none
    | some value =>
      match Settings.ofValue? .json value with
      | none => .error (.invalidJson path)
      | some settings => .ok (some ⟨settings, some path⟩)

/-- Looks for settings in one directory. -/
def settingsIn (files : FileSystem) (decoders : Decoders) (directory : Path) :
    Except SettingsError (Option LoadedSettings) :=
  let settingsFile := directory.join settingsFileName
  let manifest := directory.join manifestName
  if files.pathExists settingsFile then
    (files.loadSettingsFile settingsFile decoders).map some
  else if files.pathExists manifest then files.loadManifest decoders manifest
  else .ok none

/-- Looks for settings in directories one after another. -/
def firstSettings (files : FileSystem) (decoders : Decoders) :
    List Path → Except SettingsError LoadedSettings
  | [] => .ok {}
  | directory :: rest =>
    match files.settingsIn decoders directory with
    | .error error => .error error
    | .ok (some loaded) => .ok loaded
    | .ok none => files.firstSettings decoders rest

end FileSystem

namespace Path

/-- A path and the paths above it, for as many steps as there is fuel. -/
def ancestorsFrom : Nat → Path → List Path
  | 0, path => [path]
  | fuel + 1, path =>
    match path.parent? with
    | some parent => path :: ancestorsFrom fuel parent
    | none => [path]

/-- A path and the paths that come from taking away its last component again and again. -/
def ancestors (path : Path) : List Path := ancestorsFrom (path.length + 1) path

end Path

/-- The directories in which settings for a path are looked for: for a file, from its directory
on. -/
def FileSystem.settingsDirectories (files : FileSystem) (path : Path) : List Path :=
  let start := if files.isFile path then path.parent?.getD path else path
  start.ancestors

/-- The settings for a path. -/
def FileSystem.loadSettings (files : FileSystem) (path : Path)
    (decoders : Decoders := .standard) : Except SettingsError LoadedSettings :=
  files.firstSettings decoders (files.settingsDirectories path)

end KeyOrder
