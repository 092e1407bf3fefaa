import KeyOrder.Files.Ignore
import KeyOrder.Files.Tree

/-!
# Walking through directories

What there is below a path, without anything that ignore files leave out: `.ignore` always counts,
`.gitignore` and `.git/info/exclude` only inside a repository, that is, where this directory or one
above it holds `.git`. Ignore files of a directory stand above those of the directories around it.
-/

namespace KeyOrder

/-- The ignore files of one directory. -/
structure IgnoreRules where
  /-- Number of names in the location of the directory. -/
  depth : Nat
  ownIgnore : IgnoreFile
  gitIgnore : IgnoreFile
  gitExclude : IgnoreFile
  /-- Whether the directory is the root of a repository. -/
  hasGit : Bool

namespace IgnoreRules

/-- The ignore file at the end of a list of names below a directory. -/
def fileBelow (node : FileNode) (names : List String) : IgnoreFile :=
  match node.get? names with
  | some (.file (.text text)) => IgnoreFile.ofText text
  | _ => []

/-- The ignore files of a directory. -/
def ofDirectory (depth : Nat) (node : FileNode) : IgnoreRules :=
  { depth
    ownIgnore := fileBelow node [".ignore"]
    gitIgnore := fileBelow node [".gitignore"]
    gitExclude := fileBelow node [".git", "info", "exclude"]
    hasGit := (node.get? [".git"]).isSome }

/-- The rules of a directory and of those inside it that lie in the same repository. -/
def withinRepository : List IgnoreRules → List IgnoreRules
  | [] => []
  | rules :: outer => if rules.hasGit then [rules] else rules :: withinRepository outer

/-- The first verdict of one kind of ignore file, from the innermost directory outwards. -/
def firstVerdict? (file : IgnoreRules → IgnoreFile) (location : List String) (isDirectory : Bool)
    (chain : List IgnoreRules) : Option Verdict :=
  chain.findSome? fun rules =>
    (file rules).verdict? (String.intercalate "/" (location.drop rules.depth)).toList isDirectory

/-- Whether the rules of the directories around a location, innermost first, leave it out. -/
def ignores (chain : List IgnoreRules) (location : List String) (isDirectory : Bool) : Bool :=
  let repository := if chain.any (·.hasGit) then withinRepository chain else []
  let verdict? :=
    firstVerdict? (·.ownIgnore) location isDirectory chain <|>
    firstVerdict? (·.gitIgnore) location isDirectory repository <|>
    firstVerdict? (·.gitExclude) location isDirectory repository
  verdict? = some .ignored

end IgnoreRules

/-- A file or directory that a walk comes by. -/
structure WalkEntry where
  /-- Where it is, written as the path that the walk starts from with names behind it. -/
  path : Path
  name : String
  isDirectory : Bool
deriving DecidableEq, Repr

/-- A walk from a path through what is below it. Entries that fail the test are left out, and
directories that fail it are not entered. -/
abbrev Walker := FileSystem → (WalkEntry → Bool) → Path → List WalkEntry

mutual

/-- Walks from a file or a directory with a name, a path and a location. -/
def walkNode (keep : WalkEntry → Bool) (chain : List IgnoreRules) (path : Path) (name : String)
    (location : List String) : FileNode → List WalkEntry
  | .file _ =>
    if IgnoreRules.ignores chain location false || !keep ⟨path, name, false⟩ then []
    else [⟨path, name, false⟩]
  | .directory entries =>
    if IgnoreRules.ignores chain location true || !keep ⟨path, name, true⟩ then []
    else
      let rules := IgnoreRules.ofDirectory location.length (.directory entries)
      ⟨path, name, true⟩ :: walkEntries keep (rules :: chain) path location entries

/-- Walks through the entries of a directory. -/
def walkEntries (keep : WalkEntry → Bool) (chain : List IgnoreRules) (path : Path)
    (location : List String) : List (String × FileNode) → List WalkEntry
  | [] => []
  | (name, node) :: rest =>
    walkNode keep chain (path.join name) name (location ++ [name]) node
      ++ walkEntries keep chain path location rest

end

namespace FileSystem

/-- The rules of the directories from the root to a location, innermost first. -/
def rulesAlong (files : FileSystem) (location : List String) : List IgnoreRules :=
  ((List.range (location.length + 1)).filterMap fun depth =>
    (files.nodeAt? (location.take depth)).map (IgnoreRules.ofDirectory depth)).reverse

/-- The walk that honours ignore files. The path that it starts from is never left out. -/
def walk : Walker := fun files keep path =>
  let name := path.fileName?.getD path
  match files.find? path with
  | none => []
  | some (.file _) => [⟨path, name, false⟩]
  | some (.directory entries) =>
    let location := (files.locate? path).getD []
    ⟨path, name, true⟩ :: walkEntries keep (files.rulesAlong location) path location entries

end FileSystem

end KeyOrder
