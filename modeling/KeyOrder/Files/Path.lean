import KeyOrder.Text.Basic
import KeyOrder.TypeScript.Grammar

/-!
# Paths

A path is a text in which slashes separate names. Repeated slashes count once, and a dot as a name
is left out, except at the very front of a path that is not rooted: `./a` and `a` are different
texts with different components.
-/

namespace KeyOrder

/-- A path as it is written. -/
abbrev Path := String

/-- A component of a path. -/
inductive PathComponent where
  | root
  | current
  | parent
  | name (text : String)
deriving DecidableEq, Repr

namespace PathComponent

/-- Rank of the kind of a component. -/
def rank : PathComponent → Nat
  | .root => 0
  | .current => 1
  | .parent => 2
  | .name _ => 3

/-- Order of components: by kind, names by code point. -/
def compare : PathComponent → PathComponent → Ordering
  | .name a, .name b => Ord.compare a b
  | a, b => Ord.compare a.rank b.rank

/-- The component that a name between slashes is. -/
def ofSegment (segment : String) : PathComponent :=
  if segment = "." then .current else if segment = ".." then .parent else .name segment

end PathComponent

namespace Path

/-- The names between slashes, each with the number of characters up to its end. -/
def segmentsFrom (start : Nat) (current : List Char) : List Char → List (String × Nat)
  | [] => [(String.ofList current.reverse, start)]
  | c :: rest =>
    if c = '/' then (String.ofList current.reverse, start) :: segmentsFrom (start + 1) [] rest
    else segmentsFrom (start + 1) (c :: current) rest

/-- Whether a path starts at the root. -/
def isRooted (path : Path) : Bool := path.toList.head? = some '/'

/-- The components of a path, each with the number of characters up to its end. -/
def componentEnds (path : Path) : List (PathComponent × Nat) :=
  let segments := segmentsFrom 0 [] path.toList
  let rooted := path.isRooted
  let leading := match segments with
    | (".", stop) :: _ => if rooted then [] else [(PathComponent.current, stop)]
    | _ => []
  let others := segments.filter fun segment => segment.1 ≠ "" && segment.1 ≠ "."
  (if rooted then [(PathComponent.root, 1)] else []) ++ leading ++
    others.map fun (segment, stop) => (PathComponent.ofSegment segment, stop)

/-- The components of a path. -/
def components (path : Path) : List PathComponent := path.componentEnds.map Prod.fst

/-- The path without its last component; the root and the empty path have none. -/
def parent? (path : Path) : Option Path :=
  match path.componentEnds.reverse with
  | [] => none
  | (.root, _) :: _ => none
  | [_] => some ""
  | _ :: (_, stop) :: _ => some (String.ofList (path.toList.take stop))

/-- Whether a path leads to a directory by the way it is written: behind its last slash stands
nothing, or a dot. -/
def endsAtDirectory (path : Path) : Bool :=
  let last := path.toList.reverse.takeWhile (· != '/')
  last = [] || last = ['.']

/-- A path below another one. -/
def join (directory : Path) (name : Path) : Path :=
  if name.isRooted || directory.isEmpty then name
  else if directory.toList.getLast? = some '/' then directory ++ name
  else directory ++ "/" ++ name

/-- The last component, if it is a name. -/
def fileName? (path : Path) : Option String :=
  match path.components.getLast? with
  | some (.name text) => some text
  | _ => none

/-- What follows the last dot of the file name; a dot at its very front does not count. -/
def extension? (path : Path) : Option String := do
  let name := (← path.fileName?).toList
  let reversed := name.reverse
  let extension := (reversed.takeWhile (· != '.')).reverse
  let stem := name.length - extension.length - 1
  if extension.length = name.length || stem = 0 then none else some (String.ofList extension)

/-- Lexicographic order of components. -/
def compareComponents : List PathComponent → List PathComponent → Ordering
  | [], [] => .eq
  | [], _ :: _ => .lt
  | _ :: _, [] => .gt
  | a :: as, b :: bs => (a.compare b).then (compareComponents as bs)

/-- Order of paths by their components. -/
def compare (a b : Path) : Ordering := compareComponents a.components b.components

/-- Paths in order. -/
def sort (paths : List Path) : List Path := paths.mergeSort fun a b => compare a b != .gt

/-- The list without paths that have the same components as the path before them. -/
def dedup : List Path → List Path
  | [] => []
  | [path] => [path]
  | path :: next :: rest =>
    match dedup (next :: rest) with
    | [] => [path]
    | kept :: others =>
      if components path = components kept then path :: others else path :: kept :: others

/-- Whether the text ends with one of the endings. -/
def endsWithAny (text : String) (endings : List String) : Bool :=
  endings.any fun ending => ending.toList.isSuffixOf text.toList

/-- Whether the extension is one of TypeScript. -/
def isTypeScript (path : Path) : Bool :=
  path.extension?.any ["ts", "tsx", "mts", "cts"].contains

/-- Whether the file only declares what is defined elsewhere. -/
def isDeclarationFile (path : Path) : Bool :=
  path.fileName?.any (endsWithAny · [".d.ts", ".d.mts", ".d.cts"])

/-- The dialect of a source file, by its extension. -/
def dialect (path : Path) : TypeScript.Dialect :=
  if path.extension? = some "tsx" then .elements else .plain

/-- The text behind any number of long-path marks. -/
def dropLongMarks : Nat → Text → Text
  | 0, text => text
  | fuel + 1, text =>
    match text with
    | '\\' :: '\\' :: '?' :: '\\' :: rest => dropLongMarks fuel rest
    | _ => text

/-- A path as it is shown: with slashes only, and without a leading `./`. -/
def display (path : Path) : String :=
  let clean := dropLongMarks path.length path.toList
  let slashed := clean.map fun c => if c = '\\' then '/' else c
  match slashed with
  | '.' :: '/' :: rest => String.ofList rest
  | other => String.ofList other

end Path

end KeyOrder
