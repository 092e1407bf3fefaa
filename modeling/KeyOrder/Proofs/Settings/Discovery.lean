import Mathlib.Data.List.Infix
import KeyOrder.Proofs.Files.Resolution
import KeyOrder.Settings.Load

/-!
# Which directories decide about settings

Settings come from the first directory that decides, and the directories are those that the path is
written with. A rooted path is written with all directories above it. A path that is not rooted is
written with those from the working directory on, **so what stands above the working directory is
not looked at**, and one that steps up is written with directories that are not above it at all.
How the files are decoded plays no part in this.
-/

namespace KeyOrder

/-! ## Prefixes, the longest first -/

/-- A list and its prefixes, the longest first. -/
def upwards {α : Type} (list : List α) : List (List α) := list.inits.reverse

section Upwards

variable {α β : Type}

@[simp] theorem upwards_nil : upwards ([] : List α) = [[]] := rfl

theorem upwards_concat (front : List α) (last : α) :
    upwards (front ++ [last]) = (front ++ [last]) :: upwards front := by
  simp [upwards, List.inits_append]

theorem upwards_eq_cons (list : List α) : upwards list = list :: (upwards list).tail := by
  rcases List.eq_nil_or_concat list with rfl | ⟨front, last, rfl⟩
  · rfl
  · rw [List.concat_eq_append, upwards_concat, List.tail_cons]

theorem upwards_append (front back : List α) :
    upwards (front ++ back) = (upwards back).map (front ++ ·) ++ (upwards front).tail := by
  induction back using List.reverseRecOn with
  | nil => simpa using upwards_eq_cons front
  | append_singleton back last ih =>
      rw [← List.append_assoc, upwards_concat, ih, upwards_concat, List.map_cons,
        List.cons_append, List.append_assoc]

theorem upwards_map (f : α → β) (list : List α) :
    upwards (list.map f) = (upwards list).map (List.map f) := by
  rw [upwards, List.map_inits, upwards, List.map_reverse]

theorem mem_upwards {list found : List α} : found ∈ upwards list ↔ found <+: list := by
  rw [upwards, List.mem_reverse, List.mem_inits]

end Upwards

namespace Path

/-- **The paths above a path have its components without the last ones**, up to the root or to the
empty path. -/
theorem components_ancestorsFrom {start rest : List PathComponent} {path : Path} {fuel : Nat}
    (hstart : start = [] ∨ start = [.root]) (hrest : .root ∉ rest)
    (h : path.components = start ++ rest) (hfuel : rest.length ≤ fuel) :
    (ancestorsFrom fuel path).map components = (upwards rest).map (start ++ ·) := by
  -- a step up takes the last component away, so the induction is on the components from their end
  induction rest using List.reverseRecOn generalizing path fuel with
  | nil =>
      rw [List.append_nil] at h
      have hnone : path.parent? = none := parent?_eq_none (by rwa [h])
      cases fuel <;> simp [ancestorsFrom, hnone, h]
  | append_singleton before component ih =>
      have hroot : component ≠ .root := by
        rintro rfl
        simp at hrest
      obtain ⟨parent, hparent, hbefore⟩ :=
        exists_parent? (h.trans (List.append_assoc ..).symm) hroot
      rw [List.length_append, List.length_singleton] at hfuel
      obtain ⟨fuel, rfl⟩ : ∃ more, fuel = more + 1 := ⟨fuel - 1, by omega⟩
      have habove := ih (fun hmem => hrest (by simp [hmem])) hbefore
        (Nat.le_of_succ_le_succ hfuel)
      simp only [ancestorsFrom, hparent, List.map_cons, h, habove, upwards_concat]

theorem components_ancestors {start rest : List PathComponent} {path : Path}
    (hstart : start = [] ∨ start = [.root]) (hrest : .root ∉ rest)
    (h : path.components = start ++ rest) :
    path.ancestors.map components = (upwards rest).map (start ++ ·) := by
  refine components_ancestorsFrom hstart hrest h ?_
  have hlength := length_components_le path
  rw [h, List.length_append] at hlength
  omega

end Path

/-! ## What a directory decides -/

/-- The kinds of settings errors. -/
inductive SettingsErrorKind where
  | unreadable
  | invalidToml
  | invalidJson
  | unsupportedOption
deriving DecidableEq, Repr

/-- The kind of a settings error. -/
def SettingsError.kind : SettingsError → SettingsErrorKind
  | .unreadable _ _ => .unreadable
  | .invalidToml _ => .invalidToml
  | .invalidJson _ => .invalidJson
  | .unsupportedOption _ => .unsupportedOption

/-- What looking for settings comes to, without the path of the file that decides. -/
abbrev SettingsOutcome := Except SettingsErrorKind Settings

/-- What loaded settings come to. -/
def LoadedSettings.outcome (loaded : Except SettingsError LoadedSettings) : SettingsOutcome :=
  (loaded.map LoadedSettings.settings).mapError SettingsError.kind

/-- What looking in one directory comes to, if that decides. -/
def LoadedSettings.decision? :
    Except SettingsError (Option LoadedSettings) → Option SettingsOutcome
  | .error error => some (.error error.kind)
  | .ok none => none
  | .ok (some loaded) => some (.ok loaded.settings)

namespace FileNode

/-- What a settings file says. -/
def settings (decoders : Decoders) : FileNode → SettingsOutcome
  | .file (.text text) =>
    match Settings.ofToml? decoders text with
    | some settings => .ok settings
    | none => .error .invalidToml
  | _ => .error .unreadable

/-- What a manifest says about settings, if anything. -/
def manifestSettings? (decoders : Decoders) : FileNode → Option SettingsOutcome
  | .file (.text text) =>
    (Settings.manifestEntry? decoders text).map fun value =>
      match Settings.ofValue? .json value with
      | some settings => .ok settings
      | none => .error .invalidJson
  | _ => some (.error .unreadable)

end FileNode

namespace FileSystem

variable {files : FileSystem} {decoders : Decoders} {location : List String}

/-- What the directory at a location decides about settings: a settings file always decides, a
manifest does if it says something about them. -/
def settingsAt? (files : FileSystem) (decoders : Decoders) (location : List String) :
    Option SettingsOutcome :=
  match files.nodeAt? (location ++ [settingsFileName]) with
  | some node => some (node.settings decoders)
  | none =>
    (files.nodeAt? (location ++ [manifestName])).bind (FileNode.manifestSettings? decoders)

/-- What the first directory that decides says; if none does, there are no settings. -/
def settingsAlong (files : FileSystem) (decoders : Decoders) (locations : List (List String)) :
    SettingsOutcome :=
  (locations.findSome? (files.settingsAt? decoders)).getD (.ok {})

/-- Only directories decide. -/
theorem settingsAt?_eq_none (h : files.isDirectoryAt location = false) :
    files.settingsAt? decoders location = none := by
  have hbelow : ∀ name, files.nodeAt? (location ++ [name]) = none := by
    intro name
    cases hnode : files.nodeAt? (location ++ [name]) with
    | none => rfl
    | some node =>
        rw [isDirectoryAt_of_nodeAt?_append hnode] at h
        cases h
  rw [settingsAt?, hbelow, hbelow]
  rfl

theorem decision?_loadSettingsFile {path : Path} {node : FileNode}
    (h : files.find? path = some node) :
    LoadedSettings.decision? ((files.loadSettingsFile path decoders).map some)
      = some (node.settings decoders) := by
  unfold loadSettingsFile read
  rw [h]
  cases node with
  | directory entries => rfl
  | file content =>
      cases content with
      | bytes bytes => rfl
      | text text =>
          cases hsettings : Settings.ofToml? decoders text <;> simp [FileNode.settings, hsettings,
            LoadedSettings.decision?, Except.map, SettingsError.kind]

theorem decision?_loadManifest {path : Path} {node : FileNode}
    (h : files.find? path = some node) :
    LoadedSettings.decision? (files.loadManifest decoders path)
      = node.manifestSettings? decoders := by
  unfold loadManifest read
  rw [h]
  cases node with
  | directory entries => rfl
  | file content =>
      cases content with
      | bytes bytes => rfl
      | text text =>
          cases hentry : Settings.manifestEntry? decoders text with
          | none => simp [FileNode.manifestSettings?, hentry, LoadedSettings.decision?]
          | some value =>
              cases hsettings : Settings.ofValue? .json value <;> simp [FileNode.manifestSettings?,
                hentry, hsettings, LoadedSettings.decision?, SettingsError.kind]

/-- **What a directory decides depends on its location only**, not on how it is written. -/
theorem decision?_settingsIn (directory : Path) :
    LoadedSettings.decision? (files.settingsIn decoders directory)
      = (files.resolve? directory.components).bind (files.settingsAt? decoders) := by
  have hsettings := @find?_join files directory settingsFileName (by decide)
  have hmanifest := @find?_join files directory manifestName (by decide)
  unfold settingsIn pathExists
  cases hresolve : files.resolve? directory.components with
  | none =>
      rw [hresolve, Option.bind_none] at hsettings hmanifest
      simp [hsettings, hmanifest, LoadedSettings.decision?]
  | some location =>
      rw [hresolve, Option.bind_some] at hsettings hmanifest
      rw [Option.bind_some, settingsAt?]
      cases hfile : files.nodeAt? (location ++ [settingsFileName]) with
      | some node =>
          rw [hfile] at hsettings
          simp [hsettings, decision?_loadSettingsFile hsettings]
      | none =>
          rw [hfile] at hsettings
          cases hother : files.nodeAt? (location ++ [manifestName]) with
          | some node =>
              rw [hother] at hmanifest
              simp [hsettings, hmanifest, decision?_loadManifest hmanifest]
          | none =>
              rw [hother] at hmanifest
              simp [hsettings, hmanifest, LoadedSettings.decision?]

end FileSystem

end KeyOrder
