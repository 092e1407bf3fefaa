import KeyOrder.Files.Collect
import KeyOrder.Proofs.Files.Merging
import KeyOrder.Proofs.Files.Resolution
import KeyOrder.Proofs.Files.Writing

/-!
# What is collected below a path

**A collected path is written as the path it is collected below, with names behind it, and leads to
the location of that path with the same names behind it** (`mem_collect`). All that this takes of a
walk is that the files it comes by are written in this way (`Walker.StaysBelow`), as they are in the
walk that honours ignore files.
-/

namespace KeyOrder

namespace FileNode

mutual

/-- Whether the names in every directory can be names and differ. -/
def wellNamed : FileNode → Bool
  | .file _ => true
  | .directory entries => wellNamedAll entries

/-- Whether the names of entries can be names and differ, as those below them do. -/
def wellNamedAll : List (String × FileNode) → Bool
  | [] => true
  | (name, node) :: rest =>
    Path.IsName name && rest.all (·.1 ≠ name) && node.wellNamed && wellNamedAll rest

end

theorem wellNamedAll_cons {name : String} {node : FileNode} {rest : List (String × FileNode)} :
    wellNamedAll ((name, node) :: rest) = true
      ↔ Path.IsName name ∧ (∀ entry ∈ rest, entry.1 ≠ name) ∧ node.wellNamed = true
        ∧ wellNamedAll rest = true := by
  simp [wellNamedAll, and_assoc]

theorem wellNamed_of_lookup {entries : List (String × FileNode)} {name : String} {node : FileNode}
    (h : wellNamedAll entries = true) (hlookup : entries.lookup name = some node) :
    node.wellNamed = true := by
  induction entries with
  | nil => cases hlookup
  | cons entry rest ih =>
      obtain ⟨key, value⟩ := entry
      obtain ⟨-, -, hvalue, hrest⟩ := wellNamedAll_cons.mp h
      rw [List.lookup_cons] at hlookup
      split at hlookup
      · cases hlookup
        exact hvalue
      · exact ih hrest hlookup

theorem wellNamed_of_get? {node found : FileNode} {names : List String}
    (h : node.wellNamed = true) (hget : node.get? names = some found) : found.wellNamed = true := by
  induction names generalizing node with
  | nil =>
      cases hget
      exact h
  | cons name rest ih =>
      obtain ⟨below, hlookup, hbelow⟩ := Option.bind_eq_some_iff.mp hget
      cases node with
      | file content => cases hlookup
      | directory entries =>
          rw [wellNamed] at h
          exact ih (wellNamed_of_lookup h hlookup) hbelow

/-- Whether a path is written as the path of a node with the names behind it that lead from the node
to a file. -/
def HasFile (node : FileNode) (path file : Path) : Prop :=
  ∃ names content, (∀ name ∈ names, Path.IsName name) ∧ file = names.foldl Path.join path
    ∧ node.get? names = some (.file content)

theorem HasFile.below {node : FileNode} {path file : Path} {name : String}
    (rest : List (String × FileNode)) (hname : Path.IsName name)
    (h : node.HasFile (path.join name) file) :
    (directory ((name, node) :: rest)).HasFile path file := by
  obtain ⟨names, content, hnames, rfl, hget⟩ := h
  refine ⟨name :: names, content, List.forall_mem_cons.mpr ⟨hname, hnames⟩, rfl, ?_⟩
  simpa [get?, entries] using hget

theorem HasFile.cons {node : FileNode} {path file : Path} {name : String}
    {rest : List (String × FileNode)} (hdiffer : ∀ entry ∈ rest, entry.1 ≠ name)
    (h : (directory rest).HasFile path file) :
    (directory ((name, node) :: rest)).HasFile path file := by
  obtain ⟨names, content, hnames, rfl, hget⟩ := h
  refine ⟨names, content, hnames, rfl, ?_⟩
  cases names with
  | nil => cases hget
  | cons first others =>
      obtain ⟨below, hlookup, hbelow⟩ := Option.bind_eq_some_iff.mp hget
      have hlookup : rest.lookup first = some below := hlookup
      have hfirst : (first == name) = false := by
        rw [beq_eq_false_iff_ne]
        rintro rfl
        rw [List.lookup_eq_none_iff.mpr] at hlookup
        · cases hlookup
        · intro entry hentry
          simpa using Ne.symm (hdiffer entry hentry)
      rw [get?, entries, List.lookup_cons, hfirst, hlookup]
      exact hbelow

end FileNode

mutual

theorem hasFile_of_mem_walkNode (keep : WalkEntry → Bool) (chain : List IgnoreRules) (path : Path)
    (name : String) (location : List String) {entry : WalkEntry}
    (hfile : entry.isDirectory = false) :
    ∀ (node : FileNode), node.wellNamed = true →
      entry ∈ walkNode keep chain path name location node → node.HasFile path entry.path
  | .file content, _, h => by
      rw [walkNode] at h
      obtain rfl : entry = ⟨path, name, false⟩ := by
        split at h
        · cases h
        · simpa using h
      exact ⟨[], content, by simp, rfl, rfl⟩
  | .directory entries, hwell, h => by
      rw [FileNode.wellNamed] at hwell
      rw [walkNode] at h
      split at h
      · cases h
      · rcases List.mem_cons.mp h with rfl | h
        · cases hfile
        · exact hasFile_of_mem_walkEntries keep _ path location hfile entries hwell h

theorem hasFile_of_mem_walkEntries (keep : WalkEntry → Bool) (chain : List IgnoreRules)
    (path : Path) (location : List String) {entry : WalkEntry}
    (hfile : entry.isDirectory = false) :
    ∀ (entries : List (String × FileNode)), FileNode.wellNamedAll entries = true →
      entry ∈ walkEntries keep chain path location entries →
      (FileNode.directory entries).HasFile path entry.path
  | [], _, h => by
      rw [walkEntries] at h
      cases h
  | (name, node) :: rest, hwell, h => by
      obtain ⟨hname, hdiffer, hnode, hrest⟩ := FileNode.wellNamedAll_cons.mp hwell
      rw [walkEntries] at h
      rcases List.mem_append.mp h with h | h
      · exact (hasFile_of_mem_walkNode keep chain _ name _ hfile node hnode h).below rest hname
      · exact (hasFile_of_mem_walkEntries keep chain path location hfile rest hrest h).cons hdiffer

end

/-- What is documented of walkers: each file that a walk comes by is written as the path that the
walk starts from with the names behind it that lead from there to the file. -/
def Walker.StaysBelow (walk : Walker) (files : FileSystem) : Prop :=
  ∀ (keep : WalkEntry → Bool) (path : Path), ∀ entry ∈ walk files keep path,
    entry.isDirectory = false →
      ∃ node, files.find? path = some node ∧ node.HasFile path entry.path

namespace FileSystem

variable {files : FileSystem}

theorem locate?_foldl_join {path : Path} {location names : List String} {node : FileNode}
    (hresolve : files.resolve? path.components = some location) (hne : names ≠ [])
    (hnames : ∀ name ∈ names, Path.IsName name)
    (hnode : files.nodeAt? (location ++ names) = some node) :
    files.locate? (names.foldl Path.join path) = some (location ++ names) := by
  have hends : (names.foldl Path.join path).endsAtDirectory = false := by
    rw [← List.dropLast_concat_getLast hne, List.foldl_append]
    exact Path.endsAtDirectory_join _ (hnames _ (List.getLast_mem hne))
  rw [locate?_eq, Path.components_foldl_join path hnames, resolve?_append _ (head?_names_ne_root names),
    hresolve, Option.bind_some, foldlM_names hnode, Option.bind_some, hends]
  rfl

/-- The walk that honours ignore files stays below the path it starts from. -/
theorem walk_staysBelow (hwell : files.root.wellNamed = true) :
    Walker.StaysBelow FileSystem.walk files := by
  intro keep path entry hentry hfile
  unfold walk at hentry
  dsimp only at hentry
  cases hfind : files.find? path with
  | none =>
      rw [hfind] at hentry
      cases hentry
  | some node =>
      refine ⟨node, rfl, ?_⟩
      rw [hfind] at hentry
      cases node with
      | file content =>
          obtain rfl := List.mem_singleton.mp hentry
          exact ⟨[], content, by simp, rfl, rfl⟩
      | directory entries =>
          obtain ⟨location, -, hnode⟩ := exists_location hfind
          have hentries := FileNode.wellNamed_of_get? hwell hnode
          rw [FileNode.wellNamed] at hentries
          rcases List.mem_cons.mp hentry with rfl | hbelow
          · cases hfile
          · exact hasFile_of_mem_walkEntries keep _ path _ hfile entries hentries hbelow

variable {walk : Walker} {excludes : List String} {skip : Bool} {path file : Path}

theorem files_collect (h : files.isFile path = false) :
    (files.collect excludes skip path walk).files =
      Path.sort (((walk files (WalkEntry.isTaken (excludes ++ defaultExcludes) path) path).filter
        (WalkEntry.isWanted skip)).map (·.path)) := by
  simp only [collect, h, Bool.false_eq_true, if_false]

theorem files_collect_of_pairwise {paths : List Path} (h : files.isFile path = false)
    (hfiles : ((walk files (WalkEntry.isTaken (excludes ++ defaultExcludes) path) path).filter
      (WalkEntry.isWanted skip)).map (·.path) = paths)
    (hsorted : paths.Pairwise fun a b => Path.compare a b ≠ .gt) :
    (files.collect excludes skip path walk).files = paths := by
  rw [files_collect h, hfiles, Path.sort_of_pairwise hsorted]

/-- A collected file lies below the path it is collected for. -/
theorem hasFile_of_mem_collect (hwalk : Walker.StaysBelow walk files)
    (h : file ∈ (files.collect excludes skip path walk).files) :
    ∃ node, files.find? path = some node ∧ node.HasFile path file := by
  by_cases hpath : files.isFile path = true
  · rw [collect, if_pos hpath] at h
    obtain rfl := List.mem_singleton.mp h
    obtain ⟨node, hfind, hfile⟩ := (Option.any_eq_true _ _).mp hpath
    refine ⟨node, hfind, ?_⟩
    cases node with
    | file content => exact ⟨[], content, by simp, rfl, rfl⟩
    | directory entries => cases hfile
  · rw [files_collect (eq_false_of_ne_true hpath)] at h
    obtain ⟨entry, hentry, rfl⟩ := List.mem_map.mp (List.mem_mergeSort.mp h)
    obtain ⟨hwalked, hwanted⟩ := List.mem_filter.mp hentry
    have hfile : entry.isDirectory = false := by
      simp only [WalkEntry.isWanted, Bool.and_eq_true, Bool.not_eq_true'] at hwanted
      exact hwanted.1.1
    exact hwalk _ path entry hwalked hfile

/-- **What is collected below a path** is written as the path with names behind it, and leads to the
location of the path with the names behind it. -/
theorem mem_collect (hwalk : Walker.StaysBelow walk files)
    (h : file ∈ (files.collect excludes skip path walk).files) :
    ∃ location names, files.resolve? path.components = some location
      ∧ file.components = path.components ++ names.map .name
      ∧ files.locate? file = some (location ++ names) := by
  obtain ⟨node, hfind, names, content, hnames, rfl, hget⟩ := hasFile_of_mem_collect hwalk h
  obtain ⟨location, hlocate, hnode⟩ := exists_location hfind
  have hresolve := resolve?_of_locate? hlocate
  refine ⟨location, names, hresolve, Path.components_foldl_join path hnames, ?_⟩
  by_cases hne : names = []
  · subst hne
    simpa using hlocate
  · have hfile : files.nodeAt? (location ++ names) = some (.file content) := by
      rw [nodeAt?, FileNode.get?_append, show files.root.get? location = _ from hnode]
      exact hget
    exact locate?_foldl_join hresolve hne hnames hfile

end FileSystem

end KeyOrder
