import KeyOrder.Proofs.Files.Writing
import KeyOrder.Proofs.Settings.Discovery

/-!
# Settings and the spelling of a path

The same location can be written in many ways, and the settings for it depend on the way. **A path
that is not rooted gives the settings of its location if a directory from the working directory on
decides, or if nothing above the working directory does**, and only then
(`loadSettings_spelling`).
-/

namespace KeyOrder

namespace FileSystem

variable {files : FileSystem} {decoders : Decoders} {location : List String}

/-! ## The directories a path is written with -/

/-- What the directory at the end of components decides. -/
def decided? (files : FileSystem) (decoders : Decoders) (components : List PathComponent) :
    Option SettingsOutcome :=
  (files.resolve? components).bind (files.settingsAt? decoders)

theorem outcome_firstSettings (directories : List Path) :
    LoadedSettings.outcome (files.firstSettings decoders directories) =
      ((directories.map Path.components).findSome? (files.decided? decoders)).getD (.ok {}) := by
  induction directories with
  | nil => rfl
  | cons directory rest ih =>
      rw [List.map_cons, List.findSome?_cons, decided?, ← decision?_settingsIn, firstSettings]
      cases files.settingsIn decoders directory with
      | error error => rfl
      | ok found =>
          cases found with
          | some loaded => rfl
          | none => exact ih

/-- A file decides nothing about settings. -/
theorem decided?_of_isFile {path : Path} (h : files.isFile path = true) :
    files.decided? decoders path.components = none := by
  obtain ⟨content, hfind⟩ : ∃ content, files.find? path = some (.file content) := by
    unfold isFile at h
    cases hfind : files.find? path with
    | none => simp [hfind] at h
    | some node =>
        cases node with
        | file content => exact ⟨content, rfl⟩
        | directory entries => simp [hfind, FileNode.isDirectory] at h
  obtain ⟨location, hlocate, hnode⟩ := exists_location hfind
  have hfile : files.isDirectoryAt location = false := by
    simp [isDirectoryAt, hnode, FileNode.isDirectory]
  rw [decided?, resolve?_of_locate? hlocate, Option.bind_some, settingsAt?_eq_none hfile]

/-- **The settings for a path come from the first directory it is written with that decides.** -/
theorem outcome_loadSettings {start rest : List PathComponent} {path : Path}
    (hstart : start = [] ∨ start = [.root]) (hrest : .root ∉ rest)
    (h : path.components = start ++ rest) :
    LoadedSettings.outcome (files.loadSettings path decoders) =
      (((upwards rest).map (start ++ ·)).findSome? (files.decided? decoders)).getD (.ok {}) := by
  rw [loadSettings, settingsDirectories, outcome_firstSettings]
  by_cases hfile : files.isFile path = true
  · rw [if_pos hfile]
    rcases List.eq_nil_or_concat rest with rfl | ⟨before, component, rfl⟩
    · have hnone : path.parent? = none := by
        rw [List.append_nil] at h
        exact Path.parent?_eq_none (by rwa [h])
      rw [hnone, Option.getD_none, Path.components_ancestors hstart hrest h]
    · -- a file is left out, but it decides nothing anyway
      rw [List.concat_eq_append] at h hrest
      have hroot : component ≠ .root := by
        rintro rfl
        simp at hrest
      obtain ⟨parent, hparent, hbefore⟩ :=
        Path.exists_parent? (h.trans (List.append_assoc ..).symm) hroot
      have hnone : files.decided? decoders path.components = none := decided?_of_isFile hfile
      rw [h] at hnone
      rw [hparent, Option.getD_some, List.concat_eq_append, upwards_concat, List.map_cons,
        List.findSome?_cons, hnone,
        Path.components_ancestors hstart (fun hmem => hrest (by simp [hmem])) hbefore]
  · rw [if_neg hfile, Path.components_ancestors hstart hrest h]

/-! ## Names and rooted paths -/

/-- Names lead to the directory that decides for the location with the names behind it. -/
theorem bind_settingsAt?_foldlM_names (names : List String) :
    ((names.map PathComponent.name).foldlM files.follow? location).bind (files.settingsAt? decoders)
      = files.settingsAt? decoders (location ++ names) := by
  cases hnode : files.nodeAt? (location ++ names) with
  | some node => rw [foldlM_names hnode, Option.bind_some]
  | none =>
      have hnone : files.settingsAt? decoders (location ++ names) = none :=
        settingsAt?_eq_none (by simp [isDirectoryAt, hnode])
      refine (Option.bind_eq_none_iff.mpr fun found hfound => ?_).trans hnone.symm
      rw [eq_append_of_foldlM_names hfound, hnone]

/-- **The settings for a rooted path** come from the first directory above it that decides. -/
theorem outcome_loadSettings_ofLocation (hroot : files.isDirectoryAt [] = true)
    (hnames : ∀ name ∈ location, Path.IsName name) :
    LoadedSettings.outcome (files.loadSettings (Path.ofLocation location) decoders)
      = files.settingsAlong decoders (upwards location) := by
  have hdecided : ∀ names : List String,
      files.decided? decoders ([.root] ++ names.map .name) = files.settingsAt? decoders names := by
    intro names
    rw [decided?, resolve?_root hroot, bind_settingsAt?_foldlM_names, List.nil_append]
  rw [outcome_loadSettings (.inr rfl) (by simp) (Path.components_ofLocation hnames), settingsAlong,
    upwards_map, List.map_map, List.findSome?_map]
  congr 2
  funext names
  exact hdecided names

/-! ## Paths that are not rooted -/

/-- The locations of the directories that a path which is not rooted is written with, the innermost
first. -/
def writtenDirectories (files : FileSystem) (path : Path) : List (List String) :=
  (upwards path.components).filterMap files.resolve?

theorem settingsAlong_filterMap (components : List (List PathComponent)) :
    files.settingsAlong decoders (components.filterMap files.resolve?)
      = (components.findSome? (files.decided? decoders)).getD (.ok {}) := by
  rw [settingsAlong]
  congr 1
  induction components with
  | nil => rfl
  | cons component rest ih =>
      rw [List.filterMap_cons, List.findSome?_cons, decided?]
      cases files.resolve? component with
      | none => exact ih
      | some location =>
          rw [List.findSome?_cons, ih]
          rfl

theorem outcome_loadSettings_relative {path : Path} (h : path.isRooted = false) :
    LoadedSettings.outcome (files.loadSettings path decoders)
      = files.settingsAlong decoders (files.writtenDirectories path) := by
  rw [writtenDirectories, settingsAlong_filterMap,
    outcome_loadSettings (.inl rfl) (Path.root_notMem_components h) rfl]
  simp

theorem decided?_names (names : List String) : files.decided? decoders (names.map .name)
    = files.settingsAt? decoders (files.workingDirectory ++ names) := by
  rw [decided?, resolve?, if_neg (head?_names_ne_root names), bind_settingsAt?_foldlM_names]

theorem decided?_current (hdirectory : files.isDirectoryAt files.workingDirectory = true)
    (names : List String) : files.decided? decoders ([.current] ++ names.map .name)
      = files.settingsAt? decoders (files.workingDirectory ++ names) := by
  have hcurrent : files.resolve? ([.current] ++ names.map .name)
      = (names.map PathComponent.name).foldlM files.follow? files.workingDirectory := by
    simp [resolve?, follow?, hdirectory]
  rw [decided?, hcurrent, bind_settingsAt?_foldlM_names]

/-- **A path without steps up is written with the directories from the working directory on.** -/
theorem settingsAlong_writtenDirectories {path : Path} {names : List String}
    (hdirectory : files.isDirectoryAt files.workingDirectory = true)
    (h : path.components = names.map .name ∨ path.components = [.current] ++ names.map .name) :
    files.settingsAlong decoders (files.writtenDirectories path)
      = files.settingsAlong decoders ((upwards names).map (files.workingDirectory ++ ·)) := by
  rw [writtenDirectories, settingsAlong_filterMap, settingsAlong, List.findSome?_map]
  congr 1
  rcases h with h | h
  · have hdecided : files.decided? decoders ∘ List.map PathComponent.name
        = files.settingsAt? decoders ∘ (files.workingDirectory ++ ·) := funext decided?_names
    rw [h, upwards_map, List.findSome?_map, hdecided]
  · have hdecided : files.decided? decoders ∘ ([.current] ++ ·) ∘ List.map PathComponent.name
        = files.settingsAt? decoders ∘ (files.workingDirectory ++ ·) :=
      funext (decided?_current hdirectory)
    have habove : (upwards [PathComponent.current]).tail = [[]] := rfl
    rw [h, upwards_append, upwards_map, List.map_map, List.findSome?_append, List.findSome?_map,
      hdecided, habove]
    -- the empty path stands for the working directory, which has been looked at before
    cases hfound :
        (upwards names).findSome? (files.settingsAt? decoders ∘ (files.workingDirectory ++ ·)) with
    | some outcome => rfl
    | none =>
        have hworking := List.findSome?_eq_none_iff.mp hfound [] (mem_upwards.mpr List.nil_prefix)
        rw [List.findSome?_singleton, Option.none_or]
        exact (decided?_names []).trans hworking

/-- Looking further changes nothing if something has decided before, or if nothing decides after
it. -/
theorem settingsAlong_append_iff (locations more : List (List String)) :
    files.settingsAlong decoders locations = files.settingsAlong decoders (locations ++ more)
      ↔ (∃ directory ∈ locations, (files.settingsAt? decoders directory).isSome)
        ∨ files.settingsAlong decoders more = .ok {} := by
  simp only [settingsAlong, List.findSome?_append]
  cases hfound : locations.findSome? (files.settingsAt? decoders) with
  | some outcome =>
      obtain ⟨directory, hdirectory, hdecides⟩ := List.exists_of_findSome?_eq_some hfound
      simp only [Option.some_or, Option.getD_some, true_iff]
      exact .inl ⟨directory, hdirectory, by rw [hdecides]; rfl⟩
  | none =>
      have hnone := List.findSome?_eq_none_iff.mp hfound
      simp only [Option.none_or, Option.getD_none]
      constructor
      · exact fun h => .inr h.symm
      · rintro (⟨directory, hdirectory, hdecides⟩ | h)
        · rw [hnone directory hdirectory] at hdecides
          cases hdecides
        · exact h.symm

/-- **Settings and the spelling of a path.** However the files are decoded, for a path that is not
rooted:

* the path and the rooted path of its location lead to the same;
* the settings for the path come from the first directory it is written with that decides, those for
  the rooted path from the first directory above its location that does;
* where the path does not step up, the two agree if and only if a directory between the working
  directory and the location decides, or what stands above the working directory comes to no
  settings. -/
theorem loadSettings_spelling (files : FileSystem) (decoders : Decoders) (path : Path)
    (hdirectory : files.isDirectoryAt files.workingDirectory = true)
    (hnames : ∀ name ∈ files.workingDirectory, Path.IsName name)
    (hrelative : path.isRooted = false) :
    let location := path.locationFrom files.workingDirectory
    let written := LoadedSettings.outcome (files.loadSettings path decoders)
    let rooted := LoadedSettings.outcome (files.loadSettings (Path.ofLocation location) decoders)
    (∀ node, files.find? path = some node → files.find? (Path.ofLocation location) = some node)
      ∧ written = files.settingsAlong decoders (files.writtenDirectories path)
      ∧ rooted = files.settingsAlong decoders (upwards location)
      ∧ (.parent ∉ path.components → (written = rooted ↔
          (∃ directory, files.workingDirectory <+: directory ∧ directory <+: location
            ∧ (files.settingsAt? decoders directory).isSome)
          ∨ files.settingsAlong decoders (upwards files.workingDirectory).tail = .ok {})) := by
  intro location written rooted
  have hroot : files.isDirectoryAt [] = true := isDirectoryAt_of_append hdirectory
  have hwritten : written = files.settingsAlong decoders (files.writtenDirectories path) :=
    outcome_loadSettings_relative hrelative
  have hrooted : rooted = files.settingsAlong decoders (upwards location) :=
    outcome_loadSettings_ofLocation hroot (Path.isName_of_mem_locationFrom hnames)
  refine ⟨fun node => find?_locationFrom hroot hnames, hwritten, hrooted, fun hup => ?_⟩
  obtain ⟨names, hcomponents, hlocation⟩ := Path.exists_names hrelative hup
  rw [hwritten, hrooted, settingsAlong_writtenDirectories hdirectory hcomponents,
    show location = files.workingDirectory ++ names from hlocation _, upwards_append,
    settingsAlong_append_iff]
  refine or_congr_left ⟨?_, ?_⟩
  · rintro ⟨_, hmem, hdecides⟩
    obtain ⟨more, hmore, rfl⟩ := List.mem_map.mp hmem
    exact ⟨_, List.prefix_append _ _, (List.prefix_append_right_inj _).mpr (mem_upwards.mp hmore),
      hdecides⟩
  · rintro ⟨_, ⟨more, rfl⟩, hmore, hdecides⟩
    exact ⟨_, List.mem_map.mpr ⟨more, mem_upwards.mpr ((List.prefix_append_right_inj _).mp hmore),
      rfl⟩, hdecides⟩

/-- Files with settings above the working directory and in a directory below it. -/
def settingsAround : FileSystem :=
  { root := .directory
      [(".sortkeys.toml", .file (.text "[sortkeys]\npreset = \"recommended\"\n".toList)),
        ("w", .directory [("sub", .directory
          [(".sortkeys.toml", .file (.text "[sortkeys]\npreset = \"required-first\"\n".toList))])])]
    workingDirectory := ["w"] }

/-- A directory that decides for itself gives the same settings however it is written. -/
theorem loadSettings_spelling_below :
    (settingsAround.isDirectoryAt settingsAround.workingDirectory = true
      ∧ (∀ name ∈ settingsAround.workingDirectory, Path.IsName name)
      ∧ Path.isRooted "./sub" = false)
      ∧ LoadedSettings.outcome (settingsAround.loadSettings "./sub")
        = LoadedSettings.outcome (settingsAround.loadSettings "/w/sub") := by
  have hdirectory : settingsAround.isDirectoryAt settingsAround.workingDirectory = true := by decide
  have hnames : ∀ name ∈ settingsAround.workingDirectory, Path.IsName name := by decide
  obtain ⟨-, -, -, hagree⟩ :=
    loadSettings_spelling settingsAround .standard "./sub" hdirectory hnames rfl
  have hagree := hagree (by decide +kernel)
  have hrooted : Path.ofLocation (Path.locationFrom "./sub" settingsAround.workingDirectory)
      = "/w/sub" := by decide +kernel
  rw [hrooted] at hagree
  have hdecides : (settingsAround.settingsAt? .standard ["w", "sub"]).isSome := by decide +kernel
  exact ⟨⟨hdirectory, hnames, rfl⟩,
    hagree.mpr (.inl ⟨["w", "sub"], by decide, by decide +kernel, hdecides⟩)⟩

/-- **The working directory by itself is not given the settings above it**, and a way back to it
from below gives it those of the directory it has been left for. -/
theorem loadSettings_depends_on_spelling :
    LoadedSettings.outcome (settingsAround.loadSettings "/w") = .ok { preset := some .recommended }
      ∧ LoadedSettings.outcome (settingsAround.loadSettings ".") = .ok {}
      ∧ LoadedSettings.outcome (settingsAround.loadSettings "sub/..")
        = .ok { preset := some .requiredFirst } := by
  decide +kernel

end FileSystem

end KeyOrder
