import KeyOrder.Files.Tree

/-!
# What writing a file changes

Writing to a file that is there **changes the content of that file and nothing else**: the same
locations hold directories and files as before, so every path leads to the same location, and every
other file keeps its content.
-/

namespace KeyOrder

namespace FileNode

/-- The content of a file; a directory has none. -/
def content? : FileNode → Option FileContent
  | .file content => some content
  | .directory _ => none

theorem isDirectory_iff {node : FileNode} : node.isDirectory = true ↔ node.content? = none := by
  cases node <;> simp [isDirectory, content?]

theorem lookup_setEntry_self (entries : List (String × FileNode)) (name : String)
    (node : FileNode) : (setEntry entries name node).lookup name = some node := by
  unfold setEntry
  split
  · rename_i hany
    induction entries with
    | nil => simp at hany
    | cons entry rest ih =>
        obtain ⟨key, value⟩ := entry
        by_cases hname : key = name
        · simp [hname]
        · have hother : (name == key) = false := beq_eq_false_iff_ne.mpr (Ne.symm hname)
          simp only [List.any_cons, beq_eq_false_iff_ne.mpr hname, Bool.false_or] at hany
          simpa [List.lookup_cons, hname, hother] using ih hany
  · rename_i hany
    have hnone : entries.lookup name = none := by
      rw [List.lookup_eq_none_iff]
      intro entry hentry
      have hname : entry.1 ≠ name := by
        simpa using List.any_eq_false.mp (eq_false_of_ne_true hany) entry hentry
      simpa using Ne.symm hname
    simp [List.lookup_append, hnone]

theorem lookup_setEntry_ne (entries : List (String × FileNode)) {name other : String}
    (node : FileNode) (h : other ≠ name) :
    (setEntry entries name node).lookup other = entries.lookup other := by
  have hother : (other == name) = false := beq_eq_false_iff_ne.mpr h
  unfold setEntry
  split
  · rename_i hany
    clear hany
    induction entries with
    | nil => rfl
    | cons entry rest ih =>
        obtain ⟨key, value⟩ := entry
        by_cases hname : key = name
        · simpa [List.lookup_cons, hname, hother] using ih
        · simp only [List.map_cons, beq_eq_false_iff_ne.mpr hname, Bool.false_eq_true, if_false,
            List.lookup_cons, ih]
  · simp [List.lookup_append, List.lookup_cons, hother]

/-- **A file that is replaced by another one**: the other file is where the old one was, and every
other place keeps its file or stays a directory. -/
theorem get?_set {tree : FileNode} {names : List String} {old new : FileContent}
    (h : tree.get? names = some (.file old)) (others : List String) :
    ((tree.set names (.file new)).get? others).map content?
      = if others = names then some (some new) else (tree.get? others).map content? := by
  induction names generalizing tree others with
  | nil =>
      cases h
      cases others <;> simp [set, get?, content?, entries]
  | cons name rest ih =>
      cases tree with
      | file content => cases h
      | directory entries =>
          obtain ⟨below, hlookup, hbelow⟩ := Option.bind_eq_some_iff.mp h
          have hlookup : entries.lookup name = some below := hlookup
          cases others with
          | nil => simp [set, get?, content?]
          | cons other others =>
              simp only [set, get?, FileNode.entries, hlookup, Option.getD_some]
              by_cases hname : other = name
              · subst hname
                rw [lookup_setEntry_self, hlookup]
                simpa using ih hbelow others
              · rw [lookup_setEntry_ne _ _ hname]
                simp [hname]

end FileNode

namespace FileSystem

variable {files : FileSystem} {path : Path} {location : List String} {content : FileContent}

/-- What is at a location: nothing, a directory, or a file with its content. -/
def contentAt? (files : FileSystem) (location : List String) : Option (Option FileContent) :=
  (files.nodeAt? location).map FileNode.content?

theorem isDirectoryAt_iff : files.isDirectoryAt location = true
    ↔ files.contentAt? location = some none := by
  simp [isDirectoryAt, contentAt?, Option.any_eq_true, FileNode.isDirectory_iff]

theorem find?_of_read {text : Text} (h : files.read path = .ok text) :
    files.find? path = some (.file (.text text)) := by
  unfold read at h
  split at h
  · cases h
  · cases h
  · cases h
  · cases h
    assumption

/-- The location of what a path leads to. -/
theorem exists_location {node : FileNode} (h : files.find? path = some node) :
    ∃ location, files.locate? path = some location ∧ files.nodeAt? location = some node := by
  unfold find? at h
  split at h
  · cases h
  · exact Option.bind_eq_some_iff.mp h

/-- **Writing to a file changes what is at its location and nothing else.** -/
theorem contentAt?_write {text : Text} (h : files.find? path = some (.file content))
    (location : List String) :
    (files.write path text).contentAt? location
      = if files.locate? path = some location then some (some (.text text))
        else files.contentAt? location := by
  obtain ⟨written, hlocate, hnode⟩ := exists_location h
  simp only [write, hlocate, contentAt?, nodeAt?, FileNode.get?_set hnode, Option.some.injEq]
  simp only [eq_comm]

theorem isDirectoryAt_write {text : Text} (h : files.find? path = some (.file content))
    (location : List String) :
    (files.write path text).isDirectoryAt location = files.isDirectoryAt location := by
  obtain ⟨written, hlocate, hnode⟩ := exists_location h
  rw [Bool.eq_iff_iff, isDirectoryAt_iff, isDirectoryAt_iff, contentAt?_write h]
  split
  · rename_i heq
    obtain rfl : written = location := by simpa [hlocate] using heq
    simp [contentAt?, hnode, FileNode.content?]
  · rfl

/-- Paths lead where they led before. -/
theorem locate?_write {text : Text} (h : files.find? path = some (.file content)) (other : Path) :
    (files.write path text).locate? other = files.locate? other := by
  have hfollow : (files.write path text).follow? = files.follow? := by
    funext location component
    simp only [follow?, isDirectoryAt_write h]
  have hworking : (files.write path text).workingDirectory = files.workingDirectory := by
    unfold write
    split <;> rfl
  simp only [locate?, hfollow, hworking, isDirectoryAt_write h]

/-- **A text that has been written is there.** -/
theorem find?_write {text : Text} (h : files.find? path = some (.file content)) :
    (files.write path text).find? path = some (.file (.text text)) := by
  obtain ⟨location, hlocate, hnode⟩ := exists_location h
  have hcontent : (files.write path text).contentAt? location = some (some (.text text)) := by
    rw [contentAt?_write h, if_pos hlocate]
  obtain ⟨node, hnode, hfile⟩ := Option.map_eq_some_iff.mp hcontent
  have hnonempty : path.isEmpty = false := by
    unfold find? at h
    split at h
    · cases h
    · exact eq_false_of_ne_true ‹_›
  have hfind : (files.write path text).find? path = some node := by
    rw [find?, hnonempty, locate?_write h, hlocate]
    exact hnode
  cases node with
  | file content => rw [hfind, Option.some.inj hfile]
  | directory entries => cases hfile

end FileSystem

end KeyOrder
