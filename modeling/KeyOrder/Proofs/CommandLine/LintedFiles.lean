import Mathlib.Data.List.Nodup
import KeyOrder.CommandLine.Run
import KeyOrder.Proofs.Files.Collecting

/-!
# The files of a run

What is collected below the paths of a command line is merged by components. So **a file that is
reached below two paths is linted once if one of the paths is written as the other with names behind
it, and twice if not** (`lintedFiles_nodup_iff`): `src` and `src/a` overlap safely, `.` and `src` do
not.
-/

namespace KeyOrder

/-- Whether a path is written as another one with names behind it. -/
def Path.SpelledBelow (path other : Path) : Prop :=
  ∃ names : List String, path.components = other.components ++ names.map .name

/-- If two paths with names behind them are written alike, one of the two is written below the
other. -/
theorem Path.spelledBelow_or {a b : Path} {more others : List String}
    (h : a.components ++ more.map .name = b.components ++ others.map .name) :
    b.SpelledBelow a ∨ a.SpelledBelow b := by
  rcases List.append_eq_append_iff.mp h with ⟨middle, hb, hmore⟩ | ⟨middle, ha, hothers⟩
  · obtain ⟨names, _, -, rfl, -⟩ := List.map_eq_append_iff.mp hmore
    exact .inl ⟨names, hb⟩
  · obtain ⟨names, _, -, rfl, -⟩ := List.map_eq_append_iff.mp hothers
    exact .inr ⟨names, ha⟩

namespace FileSystem

variable {files : FileSystem}

/-- Where a path leads that is written below another one. -/
theorem resolve?_spelledBelow {path other : Path} {location base names : List String}
    (h : path.components = other.components ++ names.map .name)
    (hpath : files.resolve? path.components = some location)
    (hother : files.resolve? other.components = some base) : location = base ++ names := by
  rw [h, resolve?_append _ (head?_names_ne_root names), hother] at hpath
  exact eq_append_of_foldlM_names hpath

/-- Paths with the same components lead to the same location, if they lead to one. -/
theorem locate?_eq_of_components {a b : Path} {location other : List String}
    (ha : files.locate? a = some location) (hb : files.locate? b = some other)
    (h : a.components = b.components) : files.locate? a = files.locate? b := by
  have hresolve := resolve?_of_locate? ha
  rw [h, resolve?_of_locate? hb] at hresolve
  rw [ha, hb, hresolve]

end FileSystem

namespace CommandLine.Arguments

/-- What is collected for one path of a command line. -/
def collected (arguments : Arguments) (settings : Settings) (files : FileSystem) (walk : Walker)
    (path : Path) : List Path :=
  let excludes := settings.excludeFolders.getD [] ++ arguments.excludes
  let skip := arguments.has .skipDeclarationFiles || settings.skipDeclarationFiles.getD false
  (files.collect excludes skip path walk).files

variable {arguments : Arguments} {settings : Settings} {files : FileSystem} {walk : Walker}

theorem lintedFiles_eq : arguments.lintedFiles settings files walk =
    Path.dedup (Path.sort
      (arguments.lintPaths.flatMap (arguments.collected settings files walk))) := rfl

theorem exists_lintPath {file : Path} (h : file ∈ arguments.lintedFiles settings files walk) :
    ∃ path ∈ arguments.lintPaths, file ∈ arguments.collected settings files walk path := by
  rw [lintedFiles_eq] at h
  exact List.mem_flatMap.mp (Path.mem_of_mem_dedup_sort h)

theorem exists_lintedFile {path file : Path} (hpath : path ∈ arguments.lintPaths)
    (hfile : file ∈ arguments.collected settings files walk path) :
    ∃ linted ∈ arguments.lintedFiles settings files walk, linted.components = file.components :=
  Path.exists_mem_dedup_sort (List.mem_flatMap.mpr ⟨path, hpath, hfile⟩)

/-- **Files that lead to the same location are written alike if their paths are written one below
the other.** -/
theorem components_eq_of_spelledBelow {a b f g : Path} (hwalk : Walker.StaysBelow walk files)
    (hf : f ∈ arguments.collected settings files walk a)
    (hg : g ∈ arguments.collected settings files walk b)
    (hlocate : files.locate? f = files.locate? g) (hbelow : b.SpelledBelow a) :
    f.components = g.components := by
  obtain ⟨base, more, hbase, hfcomponents, hflocate⟩ := FileSystem.mem_collect hwalk hf
  obtain ⟨location, others, hlocation, hgcomponents, hglocate⟩ := FileSystem.mem_collect hwalk hg
  obtain ⟨names, hnames⟩ := hbelow
  have hbehind : location = base ++ names :=
    FileSystem.resolve?_spelledBelow hnames hlocation hbase
  have hmore : more = names ++ others := by
    have hsame : base ++ more = location ++ others := by
      rw [hflocate, hglocate] at hlocate
      exact Option.some.inj hlocate
    rw [hbehind, List.append_assoc] at hsame
    exact List.append_cancel_left hsame
  rw [hfcomponents, hgcomponents, hnames, hmore, List.map_append, List.append_assoc]

/-- What is collected for a path is merged into a linted path that leads to the same location. -/
theorem exists_lintedFile_locate? {path file : Path} (hwalk : Walker.StaysBelow walk files)
    (hpath : path ∈ arguments.lintPaths)
    (hfile : file ∈ arguments.collected settings files walk path) :
    ∃ linted ∈ arguments.lintedFiles settings files walk, linted.components = file.components
      ∧ files.locate? linted = files.locate? file := by
  obtain ⟨linted, hlinted, hcomponents⟩ := exists_lintedFile hpath hfile
  obtain ⟨other, -, hcollected⟩ := exists_lintPath hlinted
  obtain ⟨_, _, -, -, hlocate⟩ := FileSystem.mem_collect hwalk hcollected
  obtain ⟨_, _, -, -, hfileLocate⟩ := FileSystem.mem_collect hwalk hfile
  exact ⟨linted, hlinted, hcomponents,
    FileSystem.locate?_eq_of_components hlocate hfileLocate hcomponents⟩

/-- **When every file is linted once.** Whatever a walk leaves out, no two linted paths are written
alike, and no two lead to the same file if and only if, wherever the same file is collected for two
paths of the command line, one of the two is written as the other with names behind it. -/
theorem lintedFiles_nodup_iff (arguments : Arguments) (settings : Settings) (files : FileSystem)
    (walk : Walker) (hwalk : Walker.StaysBelow walk files) :
    ((arguments.lintedFiles settings files walk).map Path.components).Nodup
      ∧ (((arguments.lintedFiles settings files walk).map files.locate?).Nodup ↔
        ∀ a ∈ arguments.lintPaths, ∀ b ∈ arguments.lintPaths,
          (∃ f ∈ arguments.collected settings files walk a,
            ∃ g ∈ arguments.collected settings files walk b, files.locate? f = files.locate? g) →
          b.SpelledBelow a ∨ a.SpelledBelow b) := by
  have hwritten : ((arguments.lintedFiles settings files walk).map Path.components).Nodup :=
    Path.nodup_dedup_sort _
  refine ⟨hwritten, ?_, ?_⟩
  · rintro honce a ha b hb ⟨f, hf, g, hg, hlocate⟩
    obtain ⟨linted, hlinted, hfwritten, hflocate⟩ := exists_lintedFile_locate? hwalk ha hf
    obtain ⟨other, hother, hgwritten, hglocate⟩ := exists_lintedFile_locate? hwalk hb hg
    have hsame : linted = other := by
      apply List.inj_on_of_nodup_map honce hlinted hother
      rw [hflocate, hlocate, hglocate]
    have hcomponents : f.components = g.components := by
      rw [← hfwritten, ← hgwritten, hsame]
    obtain ⟨_, more, -, hfbehind, -⟩ := FileSystem.mem_collect hwalk hf
    obtain ⟨_, others, -, hgbehind, -⟩ := FileSystem.mem_collect hwalk hg
    rw [hfbehind, hgbehind] at hcomponents
    exact Path.spelledBelow_or hcomponents
  · intro hpaths
    apply List.Nodup.map_on
    · intro f hf g hg hlocate
      obtain ⟨a, ha, hfbelow⟩ := exists_lintPath hf
      obtain ⟨b, hb, hgbelow⟩ := exists_lintPath hg
      have hcomponents : f.components = g.components := by
        rcases hpaths a ha b hb ⟨f, hfbelow, g, hgbelow, hlocate⟩ with hbelow | hbelow
        · exact components_eq_of_spelledBelow hwalk hfbelow hgbelow hlocate hbelow
        · exact (components_eq_of_spelledBelow hwalk hgbelow hfbelow hlocate.symm hbelow).symm
      exact List.inj_on_of_nodup_map hwritten hf hg hcomponents
    · exact hwritten.of_map _

/-- A directory with a source file. -/
def sourceDirectory : FileNode := .directory [("a.ts", .file (.text []))]

/-- A working directory with a source file in a directory below it. -/
def sourceBelow : FileSystem :=
  { root := .directory [("w", .directory [("src", sourceDirectory)])]
    workingDirectory := ["w"] }

/-- A file inside a directory that is listed too is linted once. -/
theorem lintedFiles_nodup_inside :
    Walker.StaysBelow FileSystem.walk sourceBelow
      ∧ ((lintedFiles { paths := ["src", "src/a.ts"] } {} sourceBelow).map
          sourceBelow.locate?).Nodup := by
  have hwalk : Walker.StaysBelow FileSystem.walk sourceBelow :=
    FileSystem.walk_staysBelow (by decide +kernel)
  have hself : ∀ path : Path, path.SpelledBelow path := fun path => ⟨[], by simp⟩
  have hbelow : Path.SpelledBelow "src/a.ts" "src" := ⟨["a.ts"], by decide +kernel⟩
  refine ⟨hwalk, (lintedFiles_nodup_iff _ _ _ _ hwalk).2.mpr fun a ha b hb _ => ?_⟩
  obtain rfl | rfl : a = "src" ∨ a = "src/a.ts" := by simpa [lintPaths] using ha
  · obtain rfl | rfl : b = "src" ∨ b = "src/a.ts" := by simpa [lintPaths] using hb
    · exact .inl (hself _)
    · exact .inl hbelow
  · obtain rfl | rfl : b = "src" ∨ b = "src/a.ts" := by simpa [lintPaths] using hb
    · exact .inr hbelow
    · exact .inl (hself _)

/-- **A file that is reached from two paths which are not written one below the other is linted
twice.** -/
theorem lintedFiles_twice :
    lintedFiles { paths := [".", "src"] } {} sourceBelow = ["./src/a.ts", "src/a.ts"]
      ∧ sourceBelow.locate? "./src/a.ts" = some ["w", "src", "a.ts"]
      ∧ sourceBelow.locate? "src/a.ts" = some ["w", "src", "a.ts"] := by
  have hdot : collected { paths := [".", "src"] } {} sourceBelow FileSystem.walk "."
      = ["./src/a.ts"] :=
    FileSystem.files_collect_of_pairwise rfl (by decide +kernel) (List.pairwise_singleton _ _)
  have hsource : collected { paths := [".", "src"] } {} sourceBelow FileSystem.walk "src"
      = ["src/a.ts"] :=
    FileSystem.files_collect_of_pairwise rfl (by decide +kernel) (List.pairwise_singleton _ _)
  have hsorted : Path.sort ["./src/a.ts", "src/a.ts"] = ["./src/a.ts", "src/a.ts"] :=
    Path.sort_of_pairwise (by decide +kernel)
  refine ⟨?_, by decide +kernel, by decide +kernel⟩
  rw [lintedFiles_eq]
  simp only [lintPaths, List.isEmpty_cons, Bool.false_eq_true, if_false, List.flatMap_cons,
    List.flatMap_nil, hdot, hsource, List.append_nil, List.singleton_append, hsorted]
  decide +kernel

end CommandLine.Arguments

end KeyOrder
