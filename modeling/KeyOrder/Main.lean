import KeyOrder.CommandLine.Run

/-!
# The program

Loads the files that a command line is about, runs it on them, writes back the files that the run
has changed, and prints what it has to say.
-/

namespace KeyOrder.CommandLine

/-- A file as it stands on disk. -/
def loadFile (path : String) : IO FileNode := do
  let bytes ← IO.FS.readBinFile path
  match String.fromUTF8? bytes with
  | some text => return .file (.text text.toList)
  | none => return .file (.bytes bytes.toList)

/-- A directory with all that is below it. Links are left out. -/
partial def loadDirectory (path : String) : IO FileNode := do
  let base ← IO.currentDir
  let mut entries := #[]
  for entry in ← (base / path).readDir do
    let below := path ++ "/" ++ entry.fileName
    match (← entry.path.symlinkMetadata).type with
    | .dir => entries := entries.push (entry.fileName, ← loadDirectory below)
    | .file => entries := entries.push (entry.fileName, ← loadFile below)
    | _ => pure ()
  return .directory entries.toList

/-- What counts in the directories above those that are linted: settings and ignore files. -/
def outerFiles : List (List String) :=
  [[settingsFileName], [manifestName], [".ignore"], [".gitignore"], [".git", "info", "exclude"]]

/-- The tree with the outer files of a directory. -/
def loadOuter (tree : FileNode) (location : List String) : IO FileNode := do
  let base ← IO.currentDir
  let mut tree := tree
  if (tree.get? location).isNone then
    tree := tree.set location (.directory [])
  if ← (base / ("/" ++ String.intercalate "/" (location ++ [".git"]))).pathExists then
    if (tree.get? (location ++ [".git"])).isNone then
      tree := tree.set (location ++ [".git"]) (.directory [])
  for names in outerFiles do
    let path := "/" ++ String.intercalate "/" (location ++ names)
    if (← (base / path).pathExists) && !(← (base / path).isDir) then
      tree := tree.set (location ++ names) (← loadFile path)
  return tree

/-- The location of a path that need not lead anywhere. -/
def absoluteLocation (workingDirectory : List String) (path : Path) : List String :=
  path.components.foldl
    (fun location component =>
      match component with
      | .root => []
      | .current => location
      | .parent => location.dropLast
      | .name text => location ++ [text])
    workingDirectory

/-- The tree with what a path leads to. -/
def loadPath (tree : FileNode) (location : List String) : IO FileNode := do
  let base ← IO.currentDir
  let mut tree := tree
  for depth in List.range location.length do
    tree ← loadOuter tree (location.take depth)
  let path := "/" ++ String.intercalate "/" location
  if ← (base / path).isDir then
    return tree.set location (← loadDirectory path)
  else if ← (base / path).pathExists then
    return tree.set location (← loadFile path)
  else
    return tree

/-- The files that a command line is about. -/
def loadFiles (arguments : Arguments) : IO FileSystem := do
  let workingDirectory := absoluteLocation [] (← IO.currentDir).toString
  let mut tree ← loadOuter (.directory []) workingDirectory
  for path in arguments.lintPaths ++ arguments.config.toList do
    tree ← loadPath tree (absoluteLocation workingDirectory path)
  return ⟨tree, workingDirectory⟩

mutual

/-- The texts in a tree, each with its location below a directory. -/
def textsIn (location : List String) : FileNode → List (List String × Text)
  | .file (.text text) => [(location, text)]
  | .file (.bytes _) => []
  | .directory entries => textsInEntries location entries

/-- The texts in the entries of a directory. -/
def textsInEntries (location : List String) :
    List (String × FileNode) → List (List String × Text)
  | [] => []
  | (name, node) :: rest => textsIn (location ++ [name]) node ++ textsInEntries location rest

end

/-- The texts that a run has changed. -/
def changedTexts (before after : FileSystem) : List (List String × Text) :=
  (textsIn [] after.root).filter fun (location, text) =>
    match before.root.get? location with
    | some (.file (.text old)) => old ≠ text
    | _ => true

/-- Runs the program and gives its exit code. -/
def execute (arguments : List String) : IO UInt32 := do
  let files ← match read arguments with
    | .ok read => loadFiles read
    | .error _ => pure ⟨.directory [], []⟩
  let coloured := (← IO.getEnv "NO_COLOR").isNone && (← (← IO.getStdout).isTty)
  let result := run coloured arguments files
  for (location, text) in changedTexts files result.files do
    IO.FS.writeFile ("/" ++ String.intercalate "/" location) (String.ofList text)
  IO.print result.output
  if let some notice := result.notice then
    IO.eprintln notice
  return result.status.code.toUInt32

end KeyOrder.CommandLine

/-- The entry of the program. -/
def main (arguments : List String) : IO UInt32 := KeyOrder.CommandLine.execute arguments
