import KeyOrder.Proofs.Files.Writing
import KeyOrder.Proofs.Settings.Discovery

/-!
# The nearest settings

Settings are looked for along a path upwards: in the directory of the path, and then in what is left
when the last component is taken away, until there is none to take away. **The first directory on
the way that decides gives the answer**, its file with it (`loadSettings_nearest`): a directory
decides that has a settings file, or a manifest that cannot be read or has an entry for settings.
Nothing behind it is looked at, and only where no directory decides there are no settings.
-/

namespace KeyOrder

namespace Path

/-! ## The way up -/

/-- A path, what is left of it without its last component, and so on up to a path that has no
component to take away. -/
inductive Ascends : Path → List Path → Prop where
  | top {path : Path} (h : path.parent? = none) : Ascends path [path]
  | up {path parent : Path} {above : List Path} (h : path.parent? = some parent)
      (habove : Ascends parent above) : Ascends path (path :: above)

/-- **Looking upwards ends at a path without a parent**, for there are no more steps than
components. -/
theorem ascends_ancestorsFrom {path : Path} {fuel : Nat} (h : path.components.length ≤ fuel) :
    path.Ascends (ancestorsFrom fuel path) := by
  induction fuel generalizing path with
  | zero =>
      have hnil : path.components = [] := List.length_eq_zero_iff.mp (Nat.le_zero.mp h)
      exact .top (parent?_eq_none (.inl hnil))
  | succ fuel ih =>
      cases hparent : path.parent? with
      | none =>
          simp only [ancestorsFrom, hparent]
          exact .top hparent
      | some parent =>
          obtain ⟨component, hcomponents⟩ := exists_of_parent? hparent
          rw [hcomponents, List.length_append, List.length_singleton] at h
          simp only [ancestorsFrom, hparent]
          exact .up hparent (ih (Nat.le_of_succ_le_succ h))

theorem ascends_ancestors (path : Path) : path.Ascends path.ancestors :=
  ascends_ancestorsFrom path.length_components_le

end Path

namespace FileSystem

variable {files other : FileSystem} {decoders : Decoders} {directory : Path}
  {nearer further : List Path} {outcome : Except SettingsError LoadedSettings}

/-! ## What a directory answers -/

/-- Whether a directory decides about settings: it has a settings file, or a manifest that cannot be
read or is JSON with an entry for settings. -/
def Decides (files : FileSystem) (decoders : Decoders) (directory : Path) : Prop :=
  files.pathExists (directory.join settingsFileName) = true
    ∨ files.pathExists (directory.join manifestName) = true
      ∧ ((∃ error, files.read (directory.join manifestName) = .error error)
        ∨ ∃ text document value, files.read (directory.join manifestName) = .ok text
          ∧ decoders.json text = some document ∧ document.get? settingsKey = some value)

/-- What a directory that decides answers, with the file that the answer comes from. A manifest is
looked at only where there is no settings file. -/
inductive Answers (files : FileSystem) (decoders : Decoders) (directory : Path) :
    Except SettingsError LoadedSettings → Prop where
  | settingsFile {text : Text} {settings : Settings}
      (hexists : files.pathExists (directory.join settingsFileName) = true)
      (hread : files.read (directory.join settingsFileName) = .ok text)
      (hsettings : Settings.ofToml? decoders text = some settings) :
      Answers files decoders directory (.ok ⟨settings, some (directory.join settingsFileName)⟩)
  | invalidSettingsFile {text : Text}
      (hexists : files.pathExists (directory.join settingsFileName) = true)
      (hread : files.read (directory.join settingsFileName) = .ok text)
      (hsettings : Settings.ofToml? decoders text = none) :
      Answers files decoders directory (.error (.invalidToml (directory.join settingsFileName)))
  | unreadableSettingsFile {error : ReadError}
      (hexists : files.pathExists (directory.join settingsFileName) = true)
      (hread : files.read (directory.join settingsFileName) = .error error) :
      Answers files decoders directory
        (.error (.unreadable (directory.join settingsFileName) error.message))
  | manifest {text : Text} {value : Value} {settings : Settings}
      (hnone : files.pathExists (directory.join settingsFileName) = false)
      (hexists : files.pathExists (directory.join manifestName) = true)
      (hread : files.read (directory.join manifestName) = .ok text)
      (hentry : Settings.manifestEntry? decoders text = some value)
      (hsettings : Settings.ofValue? .json value = some settings) :
      Answers files decoders directory (.ok ⟨settings, some (directory.join manifestName)⟩)
  | invalidManifest {text : Text} {value : Value}
      (hnone : files.pathExists (directory.join settingsFileName) = false)
      (hexists : files.pathExists (directory.join manifestName) = true)
      (hread : files.read (directory.join manifestName) = .ok text)
      (hentry : Settings.manifestEntry? decoders text = some value)
      (hsettings : Settings.ofValue? .json value = none) :
      Answers files decoders directory (.error (.invalidJson (directory.join manifestName)))
  | unreadableManifest {error : ReadError}
      (hnone : files.pathExists (directory.join settingsFileName) = false)
      (hexists : files.pathExists (directory.join manifestName) = true)
      (hread : files.read (directory.join manifestName) = .error error) :
      Answers files decoders directory
        (.error (.unreadable (directory.join manifestName) error.message))

theorem manifestEntry?_eq_some_iff {text : Text} {value : Value} :
    Settings.manifestEntry? decoders text = some value
      ↔ ∃ document, decoders.json text = some document
        ∧ document.get? settingsKey = some value :=
  Option.bind_eq_some_iff

/-- A directory that answers is not passed over. -/
theorem Answers.settingsIn_eq (h : files.Answers decoders directory outcome) :
    files.settingsIn decoders directory = outcome.map some := by
  cases h with
  | settingsFile hexists hread hsettings =>
      simp [settingsIn, hexists, loadSettingsFile, hread, hsettings, Except.map]
  | invalidSettingsFile hexists hread hsettings =>
      simp [settingsIn, hexists, loadSettingsFile, hread, hsettings, Except.map]
  | unreadableSettingsFile hexists hread =>
      simp [settingsIn, hexists, loadSettingsFile, hread, Except.map]
  | manifest hnone hexists hread hentry hsettings =>
      simp [settingsIn, hnone, hexists, loadManifest, hread, hentry, hsettings, Except.map]
  | invalidManifest hnone hexists hread hentry hsettings =>
      simp [settingsIn, hnone, hexists, loadManifest, hread, hentry, hsettings, Except.map]
  | unreadableManifest hnone hexists hread =>
      simp [settingsIn, hnone, hexists, loadManifest, hread, Except.map]

/-- An answer never comes without a file. -/
theorem Answers.ne_default (h : files.Answers decoders directory outcome) : outcome ≠ .ok {} := by
  cases h <;> simp

/-- **A directory that decides answers.** -/
theorem Decides.exists_answers (h : files.Decides decoders directory) :
    ∃ outcome, files.Answers decoders directory outcome := by
  by_cases hfile : files.pathExists (directory.join settingsFileName) = true
  · cases hread : files.read (directory.join settingsFileName) with
    | error error => exact ⟨_, .unreadableSettingsFile hfile hread⟩
    | ok text =>
        cases hsettings : Settings.ofToml? decoders text with
        | none => exact ⟨_, .invalidSettingsFile hfile hread hsettings⟩
        | some settings => exact ⟨_, .settingsFile hfile hread hsettings⟩
  · obtain ⟨hexists, hmanifest⟩ := h.resolve_left hfile
    rw [Bool.not_eq_true] at hfile
    rcases hmanifest with ⟨error, hread⟩ | ⟨text, document, value, hread, hjson, hvalue⟩
    · exact ⟨_, .unreadableManifest hfile hexists hread⟩
    · have hentry := manifestEntry?_eq_some_iff.mpr ⟨document, hjson, hvalue⟩
      cases hsettings : Settings.ofValue? .json value with
      | none => exact ⟨_, .invalidManifest hfile hexists hread hentry hsettings⟩
      | some settings => exact ⟨_, .manifest hfile hexists hread hentry hsettings⟩

/-- **A directory that does not decide is passed over.** -/
theorem settingsIn_of_not_decides (h : ¬ files.Decides decoders directory) :
    files.settingsIn decoders directory = .ok none := by
  obtain ⟨hfile, hmanifest⟩ := not_or.mp h
  simp only [settingsIn, if_neg hfile]
  by_cases hexists : files.pathExists (directory.join manifestName) = true
  · obtain ⟨hreads, hentry⟩ := not_or.mp (not_and.mp hmanifest hexists)
    rw [if_pos hexists, loadManifest]
    cases hread : files.read (directory.join manifestName) with
    | error error => exact absurd ⟨error, hread⟩ hreads
    | ok text =>
        cases hvalue : Settings.manifestEntry? decoders text with
        | none => simp [hvalue]
        | some value =>
            obtain ⟨document, hjson, hget⟩ := manifestEntry?_eq_some_iff.mp hvalue
            exact absurd ⟨text, document, value, hread, hjson, hget⟩ hentry
  · rw [if_neg hexists]

/-- The directories that decide are those that are not passed over. -/
theorem decides_iff :
    files.Decides decoders directory ↔ files.settingsIn decoders directory ≠ .ok none := by
  constructor
  · intro h
    obtain ⟨outcome, hanswers⟩ := h.exists_answers
    rw [hanswers.settingsIn_eq]
    cases outcome <;> simp [Except.map]
  · intro h
    by_cases hdecides : files.Decides decoders directory
    · exact hdecides
    · exact absurd (settingsIn_of_not_decides hdecides) h

instance (files : FileSystem) (decoders : Decoders) (directory : Path) :
    Decidable (files.Decides decoders directory) :=
  decidable_of_iff _ decides_iff.symm

theorem read_congr {path : Path} (h : other.find? path = files.find? path) :
    other.read path = files.read path := by
  unfold read
  rw [h]

/-- What a directory answers depends on its two files only. -/
theorem settingsIn_congr
    (hsettings : other.find? (directory.join settingsFileName)
      = files.find? (directory.join settingsFileName))
    (hmanifest : other.find? (directory.join manifestName)
      = files.find? (directory.join manifestName)) :
    other.settingsIn decoders directory = files.settingsIn decoders directory := by
  unfold settingsIn loadSettingsFile loadManifest pathExists
  dsimp only
  rw [hsettings, hmanifest, read_congr hsettings, read_congr hmanifest]

/-! ## The first answer -/

theorem firstSettings_append
    (h : ∀ directory ∈ nearer, files.settingsIn decoders directory = .ok none) (rest : List Path) :
    files.firstSettings decoders (nearer ++ rest) = files.firstSettings decoders rest := by
  induction nearer with
  | nil => rfl
  | cons directory nearer ih =>
      rw [List.forall_mem_cons] at h
      rw [List.cons_append, firstSettings, h.1]
      exact ih h.2

theorem firstSettings_cons (h : files.settingsIn decoders directory = outcome.map some)
    (further : List Path) : files.firstSettings decoders (directory :: further) = outcome := by
  rw [firstSettings, h]
  cases outcome <;> rfl

/-- There are no settings exactly where no directory decides. -/
theorem firstSettings_eq_default_iff (directories : List Path) :
    files.firstSettings decoders directories = .ok {}
      ↔ ∀ directory ∈ directories, ¬ files.Decides decoders directory := by
  induction directories with
  | nil => simp [firstSettings]
  | cons directory rest ih =>
      rw [List.forall_mem_cons]
      by_cases hdecides : files.Decides decoders directory
      · obtain ⟨outcome, hanswers⟩ := hdecides.exists_answers
        rw [firstSettings_cons hanswers.settingsIn_eq]
        exact ⟨fun h => absurd h hanswers.ne_default, fun h => absurd hdecides h.1⟩
      · rw [firstSettings, settingsIn_of_not_decides hdecides]
        exact ih.trans ⟨fun h => ⟨hdecides, h⟩, fun h => h.2⟩

/-! ## The nearest directory that decides -/

/-- A path to a file has a parent. -/
theorem exists_parent?_of_isFile {path : Path} (h : files.isFile path = true) :
    ∃ parent, path.parent? = some parent := by
  obtain ⟨node, hfind, hfile⟩ := (Option.any_eq_true _ _).mp h
  obtain ⟨location, hlocate, hnode⟩ := exists_location hfind
  have hresolve := resolve?_of_locate? hlocate
  cases hparent : path.parent? with
  | some parent => exact ⟨parent, rfl⟩
  | none =>
      rcases Path.parent?_eq_none_iff.mp hparent with hnil | hroot
      · refine absurd hnil (Path.components_ne_nil ?_)
        rintro rfl
        simp [find?] at hfind
      · -- the root is followed only where it is a directory
        rw [hroot] at hresolve
        simp only [resolve?, List.head?_cons, if_true, List.foldlM_cons, List.foldlM_nil, follow?,
          Option.bind_eq_bind] at hresolve
        split at hresolve
        next hdirectory =>
          obtain rfl : [] = location := by simpa using hresolve
          have hnot : node.isDirectory = true := by simpa [isDirectoryAt, hnode] using hdirectory
          simp [hnot] at hfile
        next => simp at hresolve

/-- **The nearest directory that decides gives the settings**, however the files are decoded. From
the path, or from its parent where it leads to a file, the way upwards comes to an end. Of the
directories on the way:

* the first one that decides gives the answer, and the answer stays the same whatever the files
  further up are;
* there are no settings, and no error, exactly where none of them decides. -/
theorem loadSettings_nearest (files : FileSystem) (decoders : Decoders) (path : Path) :
    (∃ start : Path,
      (if files.isFile path = true then path.parent? = some start else start = path)
        ∧ start.Ascends (files.settingsDirectories path))
      ∧ (∀ nearer directory further,
          files.settingsDirectories path = nearer ++ directory :: further →
          (∀ passed ∈ nearer, ¬ files.Decides decoders passed) → files.Decides decoders directory →
          files.Answers decoders directory (files.loadSettings path decoders)
          ∧ ∀ other : FileSystem, other.isFile path = files.isFile path →
            (∀ seen ∈ nearer ++ [directory],
              other.find? (seen.join settingsFileName) = files.find? (seen.join settingsFileName)
              ∧ other.find? (seen.join manifestName) = files.find? (seen.join manifestName)) →
            other.loadSettings path decoders = files.loadSettings path decoders)
      ∧ (files.loadSettings path decoders = .ok {}
          ↔ ∀ directory ∈ files.settingsDirectories path, ¬ files.Decides decoders directory) := by
  refine ⟨⟨if files.isFile path then path.parent?.getD path else path, ?_,
    Path.ascends_ancestors _⟩, ?_, firstSettings_eq_default_iff _⟩
  · by_cases hfile : files.isFile path = true
    · obtain ⟨parent, hparent⟩ := exists_parent?_of_isFile hfile
      simp [hfile, hparent]
    · simp [hfile]
  · intro nearer directory further hdirectories hnearer hdecides
    obtain ⟨outcome, hanswers⟩ := hdecides.exists_answers
    have hpassed : ∀ passed ∈ nearer, files.settingsIn decoders passed = .ok none :=
      fun passed hmem => settingsIn_of_not_decides (hnearer passed hmem)
    have houtcome : files.loadSettings path decoders = outcome := by
      rw [loadSettings, hdirectories, firstSettings_append hpassed,
        firstSettings_cons hanswers.settingsIn_eq]
    refine ⟨houtcome ▸ hanswers, fun other hfile hsame => ?_⟩
    -- the other files give the same answers as far as they are looked at
    have hsettings : ∀ seen ∈ nearer ++ [directory],
        other.settingsIn decoders seen = files.settingsIn decoders seen := fun seen hseen =>
      settingsIn_congr (hsame seen hseen).1 (hsame seen hseen).2
    have hotherPassed : ∀ passed ∈ nearer, other.settingsIn decoders passed = .ok none :=
      fun passed hmem =>
        (hsettings passed (List.mem_append_left _ hmem)).trans (hpassed passed hmem)
    have hotherAnswer : other.settingsIn decoders directory = outcome.map some :=
      (hsettings directory (List.mem_append_right _ List.mem_cons_self)).trans
        hanswers.settingsIn_eq
    have hway : other.settingsDirectories path = files.settingsDirectories path := by
      rw [settingsDirectories, settingsDirectories, hfile]
    rw [houtcome, loadSettings, hway, hdirectories, firstSettings_append hotherPassed,
      firstSettings_cons hotherAnswer]

/-- Manifests without settings and one that is no JSON below a settings file that is no TOML. -/
def settingsAbove : FileSystem :=
  { root := .directory
      [(".sortkeys.toml", .file (.text "[sortkeys".toList)),
        ("package.json", .file (.text "\x7b\"sortkeys\": \x7b\x7d\x7d".toList)),
        ("w", .directory
          [("package.json", .file (.text "\x7b\"name\": \"w\"\x7d".toList)),
            ("sub", .directory
              [("a.ts", .file (.text [])), ("package.json", .file (.text "sortkeys".toList))])])]
    workingDirectory := [] }

/-- The manifests on the way are passed over, and the settings file is preferred to the manifest
beside it although it holds no settings. -/
theorem loadSettings_nearest_above :
    settingsAbove.settingsDirectories "/w/sub/a.ts" = ["/w/sub", "/w"] ++ "/" :: []
      ∧ (∀ passed ∈ ["/w/sub", "/w"], ¬ settingsAbove.Decides .standard passed)
      ∧ settingsAbove.Decides .standard "/"
      ∧ settingsAbove.Answers .standard "/" (settingsAbove.loadSettings "/w/sub/a.ts")
      ∧ settingsAbove.loadSettings "/w/sub/a.ts" = .error (.invalidToml "/.sortkeys.toml") := by
  have hway : settingsAbove.settingsDirectories "/w/sub/a.ts" = ["/w/sub", "/w"] ++ "/" :: [] := by
    decide +kernel
  have hpassed : ∀ passed ∈ ["/w/sub", "/w"], ¬ settingsAbove.Decides .standard passed := by
    decide +kernel
  have hdecides : settingsAbove.Decides .standard "/" := by decide +kernel
  obtain ⟨-, hnearest, -⟩ := loadSettings_nearest settingsAbove .standard "/w/sub/a.ts"
  exact ⟨hway, hpassed, hdecides, (hnearest _ _ _ hway hpassed hdecides).1, by decide +kernel⟩

end FileSystem

end KeyOrder
