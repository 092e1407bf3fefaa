import KeyOrder.Files.Path

/-!
# Files

A file system without links: a tree of directories and files, and the directory from which paths
that are not rooted are followed.
-/

namespace KeyOrder

/-- What a file holds. -/
inductive FileContent where
  /-- A text in UTF-8. -/
  | text (text : Text)
  /-- Bytes that are no text in UTF-8. -/
  | bytes (bytes : List UInt8)
deriving DecidableEq, Repr

/-- A file or a directory. -/
inductive FileNode where
  | file (content : FileContent)
  | directory (entries : List (String × FileNode))
deriving Repr

/-- Why a file cannot be read. -/
inductive ReadError where
  | notFound
  | isDirectory
  | invalidText
deriving DecidableEq, Repr

/-- The wording of a read error. -/
def ReadError.message : ReadError → String
  | .notFound => "No such file or directory (os error 2)"
  | .isDirectory => "Is a directory (os error 21)"
  | .invalidText => "stream did not contain valid UTF-8"

namespace FileNode

/-- The entries of a directory; a file has none. -/
def entries : FileNode → List (String × FileNode)
  | .file _ => []
  | .directory entries => entries

/-- Whether the node is a directory. -/
def isDirectory : FileNode → Bool
  | .file _ => false
  | .directory _ => true

/-- The node at the end of a list of names. -/
def get? : FileNode → List String → Option FileNode
  | node, [] => some node
  | node, name :: rest => (node.entries.lookup name).bind (get? · rest)

/-- Entries with the one of a name replaced, or added at the end. -/
def setEntry (entries : List (String × FileNode)) (name : String) (node : FileNode) :
    List (String × FileNode) :=
  if entries.any (·.1 == name) then
    entries.map fun entry => if entry.1 == name then (name, node) else entry
  else entries ++ [(name, node)]

/-- The tree with a node put at the end of a list of names; missing directories are made. -/
def set (tree : FileNode) (names : List String) (node : FileNode) : FileNode :=
  match names with
  | [] => node
  | name :: rest =>
    let below := (tree.entries.lookup name).getD (.directory [])
    .directory (setEntry tree.entries name (set below rest node))

end FileNode

/-- A file system and its working directory. -/
structure FileSystem where
  root : FileNode
  workingDirectory : List String

namespace FileSystem

/-- The node at a location, given by its names from the root on. -/
def nodeAt? (files : FileSystem) (location : List String) : Option FileNode :=
  files.root.get? location

/-- Whether there is a directory at a location. -/
def isDirectoryAt (files : FileSystem) (location : List String) : Bool :=
  (files.nodeAt? location).any FileNode.isDirectory

/-- Follows one component from a location, which must be a directory. -/
def follow? (files : FileSystem) (location : List String) (component : PathComponent) :
    Option (List String) :=
  if files.isDirectoryAt location then
    match component with
    | .root => some []
    | .current => some location
    | .parent => some location.dropLast
    | .name text => some (location ++ [text])
  else none

/-- The location of a path. It need not exist, but the directories on the way to it do, and a path
that ends with a slash, or with a dot behind it, leads to a directory. -/
def locate? (files : FileSystem) (path : Path) : Option (List String) := do
  let start := if path.isRooted then [] else files.workingDirectory
  let location ← path.components.foldlM files.follow? start
  if path.endsAtDirectory && !files.isDirectoryAt location then none else some location

/-- The node that a path leads to. The empty path leads nowhere. -/
def find? (files : FileSystem) (path : Path) : Option FileNode :=
  if path.isEmpty then none else (files.locate? path).bind files.nodeAt?

/-- Whether a path leads to something. -/
def pathExists (files : FileSystem) (path : Path) : Bool := (files.find? path).isSome

/-- Whether a path leads to a file. -/
def isFile (files : FileSystem) (path : Path) : Bool :=
  (files.find? path).any fun node => !node.isDirectory

/-- The text of a file. -/
def read (files : FileSystem) (path : Path) : Except ReadError Text :=
  match files.find? path with
  | none => .error .notFound
  | some (.directory _) => .error .isDirectory
  | some (.file (.bytes _)) => .error .invalidText
  | some (.file (.text text)) => .ok text

/-- The file system after a text has been written to the file at a path. -/
def write (files : FileSystem) (path : Path) (text : Text) : FileSystem :=
  match files.locate? path with
  | some location => { files with root := files.root.set location (.file (.text text)) }
  | none => files

end FileSystem

end KeyOrder
