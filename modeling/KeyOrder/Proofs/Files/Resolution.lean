import Mathlib.Data.Set.List
import KeyOrder.Proofs.Files.Paths

/-!
# Where paths lead

Where a path leads is decided by its components, one after another. **Behind a path, names lead to
the location of the path with the names behind it, if something is there**
(`bind_nodeAt?_foldlM_names`), so that what is below a directory is found at the same place however
the directory is written (`find?_join`).
-/

namespace KeyOrder

namespace FileNode

theorem get?_append (node : FileNode) (names more : List String) :
    node.get? (names ++ more) = (node.get? names).bind (·.get? more) := by
  induction names generalizing node with
  | nil => rfl
  | cons name rest ih =>
      simp only [List.cons_append, get?, Option.bind_assoc, ih]

/-- Nothing is below a file. -/
theorem isDirectory_of_get?_cons {node found : FileNode} {name : String} {rest : List String}
    (h : node.get? (name :: rest) = some found) : node.isDirectory = true := by
  cases node with
  | file content => simp [get?, entries] at h
  | directory entries => rfl

end FileNode

namespace Path

/-- The root is not in a path that is not rooted. -/
theorem root_notMem_components {path : Path} (h : path.isRooted = false) :
    .root ∉ path.components := by
  obtain ⟨first, rest, hcomponents, hfirst, hrest⟩ := path.components_eq
  rw [h, if_neg Bool.false_ne_true] at hfirst
  rw [hcomponents, List.mem_append]
  rintro (hmem | hmem)
  · rcases hfirst with rfl | rfl <;> simp at hmem
  · rcases hrest _ hmem with heq | ⟨text, -, heq⟩ <;> cases heq

theorem isRooted_iff {path : Path} : path.isRooted = true ↔ path.components.head? = some .root := by
  cases hrooted : path.isRooted with
  | true =>
      obtain ⟨first, rest, hcomponents, hfirst, -⟩ := path.components_eq
      rw [hrooted, if_pos rfl] at hfirst
      simp [hcomponents, hfirst]
  | false =>
      simp only [Bool.false_eq_true, false_iff]
      intro hhead
      exact root_notMem_components hrooted (List.mem_of_mem_head? hhead)

theorem join_ne_empty (directory : Path) {name : Path} (hname : IsName name) :
    directory.join name ≠ "" := by
  intro h
  have hcomponents := components_join directory hname
  rw [h] at hcomponents
  exact List.append_ne_nil_of_right_ne_nil _ (List.cons_ne_nil _ _) hcomponents.symm

theorem endsAtDirectory_join (directory : Path) {name : Path} (hname : IsName name) :
    (directory.join name).endsAtDirectory = false := by
  have hlast : (directory.join name).toList.reverse.takeWhile (· != '/') = name.toList.reverse := by
    have hall : ∀ c ∈ name.toList.reverse, (c != '/') = true := by
      intro c hc
      rw [bne_iff_ne]
      rintro rfl
      exact hname.2.2.2 (List.mem_reverse.mp hc)
    by_cases hempty : directory = ""
    · subst hempty
      rw [empty_join, ← List.append_nil name.toList.reverse, List.takeWhile_append_of_pos hall]
      rfl
    · obtain ⟨base, hjoin, -⟩ := exists_join_eq hname hempty
      rw [hjoin, List.reverse_append, List.reverse_cons, List.append_assoc,
        List.takeWhile_append_of_pos hall]
      simp
  have hdot : name.toList ≠ ['.'] := fun h => hname.2.1 (String.toList_injective h)
  have hempty : name.toList ≠ [] := fun h => hname.1 (String.toList_injective h)
  simp only [endsAtDirectory, hlast]
  simp [List.reverse_eq_iff, hdot, hempty]

end Path

namespace FileSystem

variable {files : FileSystem} {location : List String}

/-- The location at the end of components, which start at the root or at the working directory. -/
def resolve? (files : FileSystem) (components : List PathComponent) : Option (List String) :=
  components.foldlM files.follow?
    (if components.head? = some .root then [] else files.workingDirectory)

theorem locate?_eq (path : Path) : files.locate? path =
    (files.resolve? path.components).bind fun location =>
      if path.endsAtDirectory && !files.isDirectoryAt location then none else some location := by
  have hstart : (if path.isRooted then [] else files.workingDirectory)
      = if path.components.head? = some .root then [] else files.workingDirectory := by
    simp only [Path.isRooted_iff]
  simp only [locate?, resolve?, hstart]
  rfl

theorem resolve?_of_locate? {path : Path} (h : files.locate? path = some location) :
    files.resolve? path.components = some location := by
  rw [locate?_eq] at h
  obtain ⟨found, hfound, hlocation⟩ := Option.bind_eq_some_iff.mp h
  split at hlocation
  · cases hlocation
  · cases hlocation
    exact hfound

theorem head?_names_ne_root (names : List String) :
    (names.map PathComponent.name).head? ≠ some .root := by
  cases names <;> simp

/-- Components behind others are followed from where those lead. -/
theorem resolve?_append (components : List PathComponent) {more : List PathComponent}
    (h : more.head? ≠ some .root) : files.resolve? (components ++ more) =
      (files.resolve? components).bind (more.foldlM files.follow?) := by
  cases components with
  | nil => simp [resolve?, h]
  | cons component rest =>
      simp only [resolve?, List.cons_append, List.head?_cons]
      rw [← List.cons_append, List.foldlM_append]
      rfl

/-! ## Names -/

theorem isDirectoryAt_of_nodeAt?_append {name : String} {rest : List String} {node : FileNode}
    (h : files.nodeAt? (location ++ name :: rest) = some node) :
    files.isDirectoryAt location = true := by
  rw [nodeAt?, FileNode.get?_append] at h
  obtain ⟨directory, hdirectory, hnode⟩ := Option.bind_eq_some_iff.mp h
  rw [isDirectoryAt, nodeAt?, hdirectory]
  exact FileNode.isDirectory_of_get?_cons hnode

theorem follow?_name (text : String) : files.follow? location (.name text) =
    if files.isDirectoryAt location then some (location ++ [text]) else none := rfl

theorem eq_append_of_foldlM_names {names found : List String}
    (h : (names.map PathComponent.name).foldlM files.follow? location = some found) :
    found = location ++ names := by
  induction names generalizing location with
  | nil =>
      cases h
      rw [List.append_nil]
  | cons name rest ih =>
      rw [List.map_cons, List.foldlM_cons, follow?_name] at h
      split at h
      · rw [ih h, List.append_assoc, List.singleton_append]
      · cases h

theorem foldlM_names {names : List String} {node : FileNode}
    (h : files.nodeAt? (location ++ names) = some node) :
    (names.map PathComponent.name).foldlM files.follow? location = some (location ++ names) := by
  induction names generalizing location with
  | nil => simp
  | cons name rest ih =>
      rw [List.map_cons, List.foldlM_cons, follow?_name,
        if_pos (isDirectoryAt_of_nodeAt?_append h)]
      rw [← List.singleton_append, ← List.append_assoc] at h
      simpa using ih h

/-- **What names lead to from a location** is what there is at the location with the names behind
it. -/
theorem bind_nodeAt?_foldlM_names (names : List String) :
    ((names.map PathComponent.name).foldlM files.follow? location).bind files.nodeAt?
      = files.nodeAt? (location ++ names) := by
  cases hnode : files.nodeAt? (location ++ names) with
  | some node => simp [foldlM_names hnode, hnode]
  | none =>
      refine Option.bind_eq_none_iff.mpr fun found hfound => ?_
      rw [eq_append_of_foldlM_names hfound, hnode]

/-- Above a directory are directories. -/
theorem isDirectoryAt_of_append {names : List String}
    (h : files.isDirectoryAt (location ++ names) = true) : files.isDirectoryAt location = true := by
  cases names with
  | nil => rwa [List.append_nil] at h
  | cons name rest =>
      cases hnode : files.nodeAt? (location ++ name :: rest) with
      | none => simp [isDirectoryAt, hnode] at h
      | some node => exact isDirectoryAt_of_nodeAt?_append hnode

/-- What a path leads to that ends with a name. -/
theorem find?_eq_bind {path : Path} (hempty : path ≠ "") (hends : path.endsAtDirectory = false) :
    files.find? path = (files.resolve? path.components).bind files.nodeAt? := by
  have hempty : path.isEmpty = false := by simpa [String.isEmpty_iff] using hempty
  simp [find?, hempty, locate?_eq, hends]

/-- **What a name below a directory leads to.** -/
theorem find?_join (directory : Path) {name : Path} (hname : Path.IsName name) :
    files.find? (directory.join name) =
      (files.resolve? directory.components).bind fun location =>
        files.nodeAt? (location ++ [name]) := by
  have hends := Path.endsAtDirectory_join directory hname
  rw [find?_eq_bind (Path.join_ne_empty directory hname) hends,
    Path.components_join directory hname, resolve?_append _ (by simp), Option.bind_assoc]
  congr 1
  funext location
  exact bind_nodeAt?_foldlM_names [name]

end FileSystem

/-! ## Locations -/

/-- The location at the end of a component that starts at a location. -/
def PathComponent.step (location : List String) : PathComponent → List String
  | .root => []
  | .current => location
  | .parent => location.dropLast
  | .name text => location ++ [text]

namespace Path

/-- The location of a path that starts at a location, whatever there is on the way. -/
def locationFrom (path : Path) (start : List String) : List String :=
  path.components.foldl PathComponent.step start

/-- The rooted path of a location. -/
def ofLocation (location : List String) : Path := location.foldl join "/"

theorem components_ofLocation {location : List String} (h : ∀ name ∈ location, IsName name) :
    (ofLocation location).components = [.root] ++ location.map .name :=
  components_foldl_join "/" h

theorem foldl_step_names (start names : List String) :
    (names.map PathComponent.name).foldl PathComponent.step start = start ++ names := by
  induction names generalizing start with
  | nil => simp
  | cons name rest ih =>
      rw [List.map_cons, List.foldl_cons, ih]
      simp [PathComponent.step]

/-- A path that is not rooted and does not step up has names only, behind a dot or not, and leads
from any start to them. -/
theorem exists_names {path : Path} (hrelative : path.isRooted = false)
    (hup : .parent ∉ path.components) :
    ∃ names : List String,
      (path.components = names.map .name ∨ path.components = [.current] ++ names.map .name)
        ∧ ∀ start, path.locationFrom start = start ++ names := by
  obtain ⟨first, rest, hcomponents, hfirst, hrest⟩ := path.components_eq
  rw [hrelative, if_neg Bool.false_ne_true] at hfirst
  obtain ⟨names, rfl⟩ : rest ∈ Set.range (List.map PathComponent.name) := by
    rw [Set.range_list_map]
    intro component hmem
    rcases hrest component hmem with rfl | ⟨text, -, heq⟩
    · exact absurd (by rw [hcomponents]; exact List.mem_append_right _ hmem) hup
    · exact ⟨text, heq.symm⟩
  refine ⟨names, ?_, fun start => ?_⟩
  · rcases hfirst with rfl | rfl
    · exact .inl hcomponents
    · exact .inr hcomponents
  · rw [locationFrom, hcomponents, List.foldl_append, foldl_step_names]
    rcases hfirst with rfl | rfl <;> rfl

/-- Names of components can be names of files. -/
theorem isName_of_mem_components {path : Path} {text : String}
    (h : .name text ∈ path.components) : IsName text := by
  obtain ⟨first, rest, hcomponents, hfirst, hrest⟩ := path.components_eq
  rw [hcomponents, List.mem_append] at h
  rcases h with h | h
  · split at hfirst
    · simp [hfirst] at h
    · rcases hfirst with rfl | rfl <;> simp at h
  · rcases hrest _ h with hparent | ⟨name, hname, heq⟩
    · cases hparent
    · cases heq
      exact hname

theorem isName_of_mem_locationFrom {path : Path} {start : List String}
    (hstart : ∀ name ∈ start, IsName name) :
    ∀ name ∈ path.locationFrom start, IsName name := by
  have hcomponents : ∀ text, .name text ∈ path.components → IsName text :=
    fun text => isName_of_mem_components
  rw [locationFrom]
  generalize path.components = components at hcomponents ⊢
  induction components generalizing start with
  | nil => exact hstart
  | cons component rest ih =>
      refine ih ?_ fun text htext => hcomponents text (List.mem_cons_of_mem _ htext)
      cases component with
      | root => simp [PathComponent.step]
      | current => exact hstart
      | parent => exact fun name hname => hstart name ((List.dropLast_sublist _).subset hname)
      | name text =>
          intro name hname
          rcases List.mem_append.mp hname with hname | hname
          · exact hstart name hname
          · obtain rfl := List.mem_singleton.mp hname
            exact hcomponents _ List.mem_cons_self

end Path

namespace FileSystem

variable {files : FileSystem} {location : List String}

theorem follow?_eq (component : PathComponent) : files.follow? location component =
    if files.isDirectoryAt location then some (component.step location) else none := by
  cases component <;> rfl

theorem eq_foldl_step {components : List PathComponent} {found : List String}
    (h : components.foldlM files.follow? location = some found) :
    found = components.foldl PathComponent.step location := by
  induction components generalizing location with
  | nil =>
      cases h
      rfl
  | cons component rest ih =>
      rw [List.foldlM_cons, follow?_eq] at h
      split at h
      · exact ih h
      · cases h

/-- **A path that leads somewhere leads to its location.** -/
theorem eq_locationFrom_of_locate? {path : Path} (h : files.locate? path = some location) :
    location = path.locationFrom files.workingDirectory := by
  have hresolve := eq_foldl_step (resolve?_of_locate? h)
  rw [Path.locationFrom, hresolve]
  -- where the first component is the root, it does not matter where it is followed from
  cases path.components with
  | nil => rfl
  | cons component rest => cases component <;> simp [PathComponent.step]

/-- The rooted components of a location are followed from the root. -/
theorem resolve?_root (hroot : files.isDirectoryAt [] = true) (location : List String) :
    files.resolve? ([.root] ++ location.map .name)
      = (location.map PathComponent.name).foldlM files.follow? [] := by
  simp [resolve?, follow?, hroot]

/-- **The rooted path of a location leads to what is there.** -/
theorem find?_ofLocation (hroot : files.isDirectoryAt [] = true)
    (hnames : ∀ name ∈ location, Path.IsName name) :
    files.find? (Path.ofLocation location) = files.nodeAt? location := by
  rcases List.eq_nil_or_concat location with rfl | ⟨before, name, rfl⟩
  · have hcomponents : Path.components (Path.ofLocation []) = [.root] := rfl
    have hresolve := resolve?_root hroot []
    simp only [List.map_nil, List.append_nil, List.foldlM_nil] at hresolve
    have hlocate : files.locate? (Path.ofLocation []) = some [] := by
      rw [locate?_eq, hcomponents, hresolve]
      simp [hroot]
    rw [find?, hlocate]
    rfl
  · rw [List.concat_eq_append] at hnames ⊢
    have hname : Path.IsName name := hnames name (by simp)
    have hjoin : Path.ofLocation (before ++ [name]) = (Path.ofLocation before).join name := by
      rw [Path.ofLocation, List.foldl_append]
      rfl
    have hends : (Path.ofLocation (before ++ [name])).endsAtDirectory = false := by
      rw [hjoin, Path.endsAtDirectory_join _ hname]
    have hempty : Path.ofLocation (before ++ [name]) ≠ "" := by
      rw [hjoin]
      exact Path.join_ne_empty _ hname
    rw [find?_eq_bind hempty hends, Path.components_ofLocation hnames, resolve?_root hroot,
      bind_nodeAt?_foldlM_names, List.nil_append]

/-- **A path and the rooted path of its location lead to the same.** -/
theorem find?_locationFrom {path : Path} {node : FileNode} (hroot : files.isDirectoryAt [] = true)
    (hnames : ∀ name ∈ files.workingDirectory, Path.IsName name)
    (h : files.find? path = some node) :
    files.find? (Path.ofLocation (path.locationFrom files.workingDirectory)) = some node := by
  rw [find?_ofLocation hroot (Path.isName_of_mem_locationFrom hnames)]
  unfold find? at h
  split at h
  · cases h
  · obtain ⟨location, hlocate, hnode⟩ := Option.bind_eq_some_iff.mp h
    rwa [← eq_locationFrom_of_locate? hlocate]

end FileSystem

end KeyOrder
