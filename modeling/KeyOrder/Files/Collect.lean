import KeyOrder.Files.Walk

/-!
# Collecting source files

All TypeScript files that a walk from a path comes by. Directories with an excluded name are not
entered, unless the walk starts from them.
-/

namespace KeyOrder

/-- Folders that are always left out. -/
def defaultExcludes : List String :=
  [".git", ".next", ".turbo", "build", "coverage", "dist", "node_modules"]

/-- Whether a name is excluded. A pattern that starts with a star and a dot stands for all names
with that ending, any other pattern for itself. -/
def isExcluded (name : String) (excludes : List String) : Bool :=
  excludes.any fun pattern =>
    match pattern.toList with
    | '*' :: '.' :: ending => ('.' :: ending).isSuffixOf name.toList
    | _ => name = pattern

/-- Files found, and the number of directories entered on the way. -/
structure Collected where
  files : List Path
  directories : Nat
deriving DecidableEq, Repr

namespace WalkEntry

/-- Whether a walk takes an entry in: a directory by its name, except for the one it starts from. -/
def isTaken (excludes : List String) (start : Path) (entry : WalkEntry) : Bool :=
  entry.path.components = start.components || !entry.isDirectory
    || !isExcluded entry.name excludes

/-- Whether an entry is a file to collect. -/
def isWanted (skipDeclarations : Bool) (entry : WalkEntry) : Bool :=
  !entry.isDirectory && entry.path.isTypeScript
    && !(skipDeclarations && entry.path.isDeclarationFile)

end WalkEntry

/-- The TypeScript files below a path, in order. A path that leads to a file gives that file,
whatever it is called. -/
def FileSystem.collect (files : FileSystem) (excludes : List String) (skipDeclarations : Bool)
    (path : Path) (walk : Walker := FileSystem.walk) : Collected :=
  if files.isFile path then ⟨[path], 0⟩
  else
    let entries := walk files (WalkEntry.isTaken (excludes ++ defaultExcludes) path) path
    { files := Path.sort ((entries.filter (WalkEntry.isWanted skipDeclarations)).map (·.path))
      directories := entries.countP fun entry =>
        entry.isDirectory && entry.path.components ≠ path.components }

end KeyOrder
