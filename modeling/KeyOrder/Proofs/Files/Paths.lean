import KeyOrder.Files.Tree

/-!
# Paths and their components

What a path means is decided by its components. **Joining a name to a path adds a component, and
taking the parent of a path takes the last one away** (`components_join`, `components_parent?`),
whatever slashes and dots the path is written with.
-/

namespace KeyOrder

namespace Path

/-- Whether a text can be the name of a file or a directory. -/
def IsName (text : String) : Prop :=
  text ≠ "" ∧ text ≠ "." ∧ text ≠ ".." ∧ '/' ∉ text.toList

instance (text : String) : Decidable (IsName text) := inferInstanceAs (Decidable (_ ∧ _))

/-! ## Names between slashes -/

theorem segmentsFrom_ne_nil (start : Nat) (current chars : List Char) :
    segmentsFrom start current chars ≠ [] := by
  induction chars generalizing start current with
  | nil => simp [segmentsFrom]
  | cons c rest ih =>
      rw [segmentsFrom]
      split
      · simp
      · exact ih _ _

/-- A slash ends the names in front of it. -/
theorem segmentsFrom_append (start : Nat) (current before behind : List Char) :
    segmentsFrom start current (before ++ '/' :: behind) =
      segmentsFrom start current before
        ++ segmentsFrom (start + before.length + 1) [] behind := by
  induction before generalizing start current with
  | nil => simp [segmentsFrom]
  | cons c rest ih =>
      have hstart : start + (c :: rest).length + 1 = start + 1 + rest.length + 1 := by
        rw [List.length_cons]
        omega
      simp only [List.cons_append, segmentsFrom, ih, hstart]
      split <;> rfl

/-- Characters without a slash are one name. -/
theorem segmentsFrom_of_notMem (start : Nat) (current : List Char) {chars : List Char}
    (h : '/' ∉ chars) : segmentsFrom start current chars =
      [(String.ofList (current.reverse ++ chars), start + chars.length)] := by
  induction chars generalizing start current with
  | nil => simp [segmentsFrom]
  | cons c rest ih =>
      rw [List.mem_cons, not_or] at h
      rw [segmentsFrom, if_neg (Ne.symm h.1), ih _ _ h.2, List.length_cons]
      simp [Nat.add_comm, Nat.add_left_comm]

/-- A name has no slash, and ends as far behind the start as it is long, at least. -/
theorem segmentsFrom_bounds {start stop : Nat} {current chars : List Char} {segment : String}
    (hcurrent : '/' ∉ current) (h : (segment, stop) ∈ segmentsFrom start current chars) :
    '/' ∉ segment.toList ∧ start ≤ stop
      ∧ start + segment.toList.length ≤ stop + current.length := by
  induction chars generalizing start current with
  | nil =>
      obtain ⟨rfl, rfl⟩ : segment = String.ofList current.reverse ∧ stop = start := by
        simpa [segmentsFrom] using h
      simpa using hcurrent
  | cons c rest ih =>
      rw [segmentsFrom] at h
      split at h
      · rcases List.mem_cons.mp h with heq | hrest
        · obtain ⟨rfl, rfl⟩ : segment = String.ofList current.reverse ∧ stop = start := by
            simpa using heq
          simpa using hcurrent
        · have hbounds := ih (by simp) hrest
          simp only [List.length_nil] at hbounds
          exact ⟨hbounds.1, by omega, by omega⟩
      · rename_i hslash
        have hbounds := ih (by simp [Ne.symm hslash, hcurrent]) h
        simp only [List.length_cons] at hbounds
        exact ⟨hbounds.1, by omega, by omega⟩

/-- **The characters up to the end of a name hold the names up to that one.** -/
theorem segmentsFrom_take {start stop : Nat} {current chars : List Char} {segment : String}
    {before behind : List (String × Nat)} (hcurrent : '/' ∉ current)
    (h : segmentsFrom start current chars = before ++ (segment, stop) :: behind) :
    segmentsFrom start current (chars.take (stop - start)) = before ++ [(segment, stop)] := by
  induction chars generalizing start current before with
  | nil =>
      cases before with
      | nil =>
          obtain ⟨hsegment, -⟩ : (String.ofList current.reverse, start) = (segment, stop)
              ∧ [] = behind := by simpa [segmentsFrom] using h
          simpa [segmentsFrom] using hsegment
      | cons first rest => simp [segmentsFrom] at h
  | cons c rest ih =>
      have hmem : (segment, stop) ∈ segmentsFrom start current (c :: rest) := by simp [h]
      rw [segmentsFrom] at h hmem
      split at h
      · rename_i hslash
        cases before with
        | nil =>
            obtain ⟨hsegment, -⟩ : (String.ofList current.reverse, start) = (segment, stop)
                ∧ segmentsFrom (start + 1) [] rest = behind := by simpa using h
            obtain ⟨rfl, rfl⟩ : String.ofList current.reverse = segment ∧ start = stop := by
              simpa using hsegment
            simp [segmentsFrom]
        | cons first before =>
            obtain ⟨rfl, hrest⟩ : (String.ofList current.reverse, start) = first
                ∧ segmentsFrom (start + 1) [] rest = before ++ (segment, stop) :: behind := by
              simpa using h
            have hle := (segmentsFrom_bounds (by simp)
              (show (segment, stop) ∈ segmentsFrom (start + 1) [] rest by simp [hrest])).2.1
            obtain ⟨more, rfl⟩ : ∃ more, stop = start + 1 + more := ⟨stop - (start + 1), by omega⟩
            have htake := ih (by simp) hrest
            rw [Nat.add_sub_cancel_left] at htake
            rw [show start + 1 + more - start = more + 1 by omega, List.take_succ_cons,
              segmentsFrom, if_pos hslash, htake]
            rfl
      · rename_i hslash
        rw [if_neg hslash] at hmem
        have hnext : '/' ∉ c :: current := by simp [Ne.symm hslash, hcurrent]
        have hle := (segmentsFrom_bounds hnext hmem).2.1
        obtain ⟨more, rfl⟩ : ∃ more, stop = start + 1 + more := ⟨stop - (start + 1), by omega⟩
        have htake := ih hnext h
        rw [Nat.add_sub_cancel_left] at htake
        rw [show start + 1 + more - start = more + 1 by omega, List.take_succ_cons, segmentsFrom,
          if_neg hslash, htake]

/-! ## Components -/

/-- The components that names between slashes are; empty names and dots are none. -/
def named (segments : List (String × Nat)) : List (PathComponent × Nat) :=
  (segments.filter fun segment => segment.1 ≠ "" && segment.1 ≠ ".").map fun (segment, stop) =>
    (PathComponent.ofSegment segment, stop)

/-- The components in front of those that are names. -/
def leading (rooted : Bool) (segments : List (String × Nat)) : List (PathComponent × Nat) :=
  (if rooted then [(PathComponent.root, 1)] else []) ++
    match segments with
    | (".", stop) :: _ => if rooted then [] else [(PathComponent.current, stop)]
    | _ => []

theorem componentEnds_eq (path : Path) : path.componentEnds =
    leading path.isRooted (segmentsFrom 0 [] path.toList)
      ++ named (segmentsFrom 0 [] path.toList) := rfl

theorem leading_cons (rooted : Bool) (segment : String × Nat) (rest : List (String × Nat)) :
    leading rooted (segment :: rest) =
      if rooted then [(.root, 1)] else if segment.1 = "." then [(.current, segment.2)] else [] := by
  obtain ⟨text, stop⟩ := segment
  cases rooted with
  | true =>
      simp only [leading, if_true]
      split <;> rfl
  | false =>
      simp only [leading, Bool.false_eq_true, if_false, List.nil_append]
      split
      next stop tail heq =>
        obtain ⟨⟨rfl, rfl⟩, rfl⟩ := by simpa using heq
        rfl
      next hother =>
        have hdot : text ≠ "." := by
          rintro rfl
          exact hother _ _ rfl
        simp [hdot]

theorem leading_length_le (rooted : Bool) (segments : List (String × Nat)) :
    (leading rooted segments).length ≤ 1 := by
  cases segments with
  | nil => cases rooted <;> simp [leading]
  | cons segment rest =>
      rw [leading_cons]
      split
      · simp
      · split <;> simp

theorem leading_append (rooted : Bool) {segments : List (String × Nat)}
    (more : List (String × Nat)) (h : segments ≠ []) :
    leading rooted (segments ++ more) = leading rooted segments := by
  cases segments with
  | nil => exact absurd rfl h
  | cons segment rest => rw [List.cons_append, leading_cons, leading_cons]

theorem named_append (segments more : List (String × Nat)) :
    named (segments ++ more) = named segments ++ named more := by
  simp [named]

theorem named_singleton (segment : String × Nat) : named [segment] =
    if segment.1 = "" ∨ segment.1 = "." then []
    else [(PathComponent.ofSegment segment.1, segment.2)] := by
  by_cases hskip : segment.1 = "" ∨ segment.1 = "."
  · rcases hskip with hempty | hdot
    · simp [named, hempty]
    · simp [named, hdot]
  · rw [if_neg hskip]
    rw [not_or] at hskip
    simp [named, hskip.1, hskip.2]

/-- A component that is a name is read off a segment. -/
theorem exists_segment {segments : List (String × Nat)} {before behind : List (PathComponent × Nat)}
    {component : PathComponent} {stop : Nat}
    (h : named segments = before ++ (component, stop) :: behind) :
    ∃ front text back, segments = front ++ (text, stop) :: back ∧ named front = before
      ∧ named [(text, stop)] = [(component, stop)] ∧ text ≠ "" := by
  induction segments generalizing before with
  | nil => simp [named] at h
  | cons segment rest ih =>
      obtain ⟨text, stop'⟩ := segment
      have hcons : ∀ more, named ((text, stop') :: more) = named [(text, stop')] ++ named more :=
        fun more => named_append [(text, stop')] more
      have hone := named_singleton (text, stop')
      rw [hcons] at h
      by_cases hskip : text = "" ∨ text = "."
      · rw [if_pos hskip] at hone
        rw [hone, List.nil_append] at h
        obtain ⟨front, text', back, rfl, hfront, hnamed⟩ := ih h
        exact ⟨(text, stop') :: front, text', back, rfl, by rw [hcons, hone, hfront]; rfl, hnamed⟩
      · rw [if_neg hskip] at hone
        rw [hone] at h
        cases before with
        | nil =>
            obtain ⟨⟨rfl, rfl⟩, -⟩ : (PathComponent.ofSegment text = component ∧ stop' = stop)
              ∧ named rest = behind := by simpa using h
            exact ⟨[], text, rest, rfl, rfl, hone, fun hempty => hskip (.inl hempty)⟩
        | cons first before =>
            obtain ⟨rfl, hrest⟩ : (PathComponent.ofSegment text, stop') = first
              ∧ named rest = before ++ (component, stop) :: behind := by simpa using h
            obtain ⟨front, text', back, rfl, hfront, hnamed⟩ := ih hrest
            exact ⟨(text, stop') :: front, text', back, rfl, by rw [hcons, hone, hfront]; rfl,
              hnamed⟩

theorem ofSegment_of_isName {text : String} (h : IsName text) :
    PathComponent.ofSegment text = .name text := by
  simp [PathComponent.ofSegment, h.2.1, h.2.2.1]

theorem named_of_isName {text : String} (h : IsName text) (stop : Nat) :
    named [(text, stop)] = [(.name text, stop)] := by
  simp [named, h.1, h.2.1, ofSegment_of_isName h]

theorem isRooted_eq (path : Path) : path.isRooted = (path.toList.head? == some '/') := by
  rw [isRooted, Bool.eq_iff_iff]
  simp

theorem isRooted_of_isName {name : Path} (h : IsName name) : name.isRooted = false := by
  rw [isRooted_eq]
  cases hchars : name.toList with
  | nil => rfl
  | cons c rest =>
      have hslash := h.2.2.2
      rw [hchars, List.mem_cons, not_or] at hslash
      simpa using Ne.symm hslash.1

theorem empty_join (name : Path) : join "" name = name := by
  simp [join]

/-- A joined path is a path, a slash and a name. -/
theorem exists_join_eq {directory name : Path} (hname : IsName name) (h : directory ≠ "") :
    ∃ base : List Char, (directory.join name).toList = base ++ '/' :: name.toList
      ∧ (directory.toList = base ∨ directory.toList = base ++ ['/']) := by
  have hempty : directory.isEmpty = false := by
    simpa [String.isEmpty_iff] using h
  unfold join
  rw [isRooted_of_isName hname, hempty]
  simp only [Bool.or_self, Bool.false_eq_true, if_false]
  split
  · rename_i hlast
    obtain ⟨base, hbase⟩ := List.getLast?_eq_some_iff.mp hlast
    exact ⟨base, by simp [String.toList_append, hbase], .inr hbase⟩
  · exact ⟨directory.toList, by simp [String.toList_append], .inl rfl⟩

/-- A name joined to a path keeps it rooted or not. -/
theorem isRooted_join (directory : Path) {name : Path} (hname : IsName name) :
    (directory.join name).isRooted = directory.isRooted := by
  by_cases hempty : directory = ""
  · subst hempty
    rw [empty_join, isRooted_of_isName hname]
    rfl
  · obtain ⟨base, hjoin, hbase⟩ := exists_join_eq hname hempty
    rw [isRooted_eq, isRooted_eq, hjoin]
    have hne : directory.toList ≠ [] := by simpa using hempty
    rcases hbase with hbase | hbase
    · cases base with
      | nil => exact absurd hbase hne
      | cons c rest => simp [hbase]
    · cases base with
      | nil => simp [hbase]
      | cons c rest => simp [hbase]

/-- **Joining a name to a path adds a component.** -/
theorem components_join (directory : Path) {name : Path} (hname : IsName name) :
    (directory.join name).components = directory.components ++ [.name name] := by
  by_cases hempty : directory = ""
  · subst hempty
    rw [empty_join, components, componentEnds_eq, segmentsFrom_of_notMem 0 [] hname.2.2.2, leading_cons,
      isRooted_of_isName hname]
    simp [named_of_isName hname, hname.2.1]
    rfl
  · obtain ⟨base, hjoin, hbase⟩ := exists_join_eq hname hempty
    have hne := segmentsFrom_ne_nil 0 [] base
    -- a slash at the end of the path adds an empty name, which is no component
    have hdirectory : directory.componentEnds =
        leading directory.isRooted (segmentsFrom 0 [] base) ++ named (segmentsFrom 0 [] base) := by
      rcases hbase with hbase | hbase
      · rw [componentEnds_eq, hbase]
      · rw [componentEnds_eq, hbase, segmentsFrom_append, leading_append _ _ hne, named_append]
        simp [segmentsFrom, named]
    rw [components, componentEnds_eq, hjoin, segmentsFrom_append, leading_append _ _ hne,
      named_append, segmentsFrom_of_notMem _ _ hname.2.2.2, isRooted_join _ hname]
    simp [named_of_isName hname, components, hdirectory]

/-- **Joining names one after another adds a component for each.** -/
theorem components_foldl_join (directory : Path) {names : List String}
    (h : ∀ name ∈ names, IsName name) :
    (names.foldl join directory).components = directory.components ++ names.map .name := by
  induction names generalizing directory with
  | nil => simp
  | cons name rest ih =>
      rw [List.foldl_cons, ih _ fun other hother => h other (List.mem_cons_of_mem _ hother),
        components_join _ (h name List.mem_cons_self)]
      simp

theorem isRooted_take (path : Path) {stop : Nat} (h : 0 < stop) :
    isRooted (String.ofList (path.toList.take stop)) = path.isRooted := by
  obtain ⟨more, rfl⟩ : ∃ more, stop = more + 1 := ⟨stop - 1, by omega⟩
  rw [isRooted_eq, isRooted_eq, String.toList_ofList]
  cases path.toList <;> rfl

/-- A path up to the end of a name has the components up to that one. -/
theorem componentEnds_take_named {path : Path} {before behind : List (PathComponent × Nat)}
    {component : PathComponent} {stop : Nat}
    (h : named (segmentsFrom 0 [] path.toList) = before ++ (component, stop) :: behind) :
    componentEnds (String.ofList (path.toList.take stop)) =
      leading path.isRooted (segmentsFrom 0 [] path.toList) ++ before ++ [(component, stop)] := by
  obtain ⟨front, text, back, hsegments, rfl, hnamed, htext⟩ := exists_segment h
  have hstop : 0 < stop := by
    have hbounds := segmentsFrom_bounds List.not_mem_nil
      (show (text, stop) ∈ segmentsFrom 0 [] path.toList by simp [hsegments])
    have hlength : 0 < text.toList.length := List.length_pos_iff.mpr (by simpa using htext)
    simp only [List.length_nil] at hbounds
    omega
  have htake := segmentsFrom_take List.not_mem_nil hsegments
  rw [Nat.sub_zero] at htake
  have hleading : leading path.isRooted (segmentsFrom 0 [] path.toList) =
      leading path.isRooted (front ++ [(text, stop)]) := by
    rw [hsegments, ← List.singleton_append, ← List.append_assoc, leading_append _ _ (by simp)]
  rw [componentEnds_eq, String.toList_ofList, htake, isRooted_take path hstop, hleading,
    named_append, hnamed, List.append_assoc]

/-- A path up to the end of what stands in front of the names has that as its components. -/
theorem componentEnds_take_leading {path : Path} {component : PathComponent} {stop : Nat}
    (h : leading path.isRooted (segmentsFrom 0 [] path.toList) = [(component, stop)]) :
    componentEnds (String.ofList (path.toList.take stop)) = [(component, stop)] := by
  obtain ⟨⟨text, textEnd⟩, rest, hsegments⟩ :=
    List.exists_cons_of_ne_nil (segmentsFrom_ne_nil 0 [] path.toList)
  rw [hsegments, leading_cons] at h
  cases hrooted : path.isRooted with
  | true =>
      obtain ⟨rfl, rfl⟩ : .root = component ∧ 1 = stop := by simpa [hrooted] using h
      have htake : path.toList.take 1 = ['/'] := by
        rw [isRooted_eq, beq_iff_eq, List.head?_eq_some_iff] at hrooted
        obtain ⟨chars, hchars⟩ := hrooted
        simp [hchars]
      rw [htake]
      rfl
  | false =>
      obtain ⟨rfl, rfl, rfl⟩ : text = "." ∧ .current = component ∧ textEnd = stop := by
        by_cases hdot : text = "."
        · simpa [hrooted, hdot] using h
        · simp [hrooted, hdot] at h
      have hbounds := segmentsFrom_bounds List.not_mem_nil
        (show (".", textEnd) ∈ segmentsFrom 0 [] path.toList by simp [hsegments])
      have hpos : 0 < textEnd := by
        have hlength : ".".toList.length = 1 := rfl
        simp only [List.length_nil] at hbounds
        omega
      have hsplit : segmentsFrom 0 [] path.toList = [] ++ (".", textEnd) :: rest := hsegments
      have htake := segmentsFrom_take List.not_mem_nil hsplit
      rw [Nat.sub_zero] at htake
      rw [componentEnds_eq, String.toList_ofList, htake, isRooted_take path hpos, hrooted,
        List.nil_append, leading_cons]
      simp [named]

/-- **A path up to the end of a component has the components up to that one.** -/
theorem componentEnds_take {path : Path} {before behind : List (PathComponent × Nat)}
    {component : PathComponent} {stop : Nat}
    (h : path.componentEnds = before ++ (component, stop) :: behind) :
    componentEnds (String.ofList (path.toList.take stop)) = before ++ [(component, stop)] := by
  rw [componentEnds_eq] at h
  rcases List.append_eq_append_iff.mp h with ⟨more, rfl, hnamed⟩ | ⟨more, hleading, hnamed⟩
  · exact componentEnds_take_named hnamed
  · cases more with
    | nil =>
        rw [List.append_nil] at hleading
        have hfirst := @componentEnds_take_named path [] behind component stop hnamed.symm
        rw [hfirst, hleading, List.append_nil]
    | cons found more =>
        obtain ⟨rfl, -⟩ : (component, stop) = found ∧ _ := by simpa using hnamed
        -- at most one component stands in front of the names
        obtain ⟨rfl, rfl⟩ : before = [] ∧ more = [] := by
          have hlength := leading_length_le path.isRooted (segmentsFrom 0 [] path.toList)
          rw [hleading, List.length_append, List.length_cons] at hlength
          exact ⟨List.length_eq_zero_iff.mp (by omega), List.length_eq_zero_iff.mp (by omega)⟩
        exact componentEnds_take_leading hleading

/-! ## Parents -/

/-- **The parent of a path has its components without the last.** -/
theorem exists_parent? {path : Path} {before : List PathComponent} {component : PathComponent}
    (h : path.components = before ++ [component]) (hroot : component ≠ .root) :
    ∃ parent, path.parent? = some parent ∧ parent.components = before := by
  obtain ⟨ends, stop, hends, rfl⟩ : ∃ ends stop, path.componentEnds = ends ++ [(component, stop)]
      ∧ ends.map Prod.fst = before := by
    obtain ⟨ends, lasts, hends, hbefore, hlasts⟩ := List.map_eq_append_iff.mp h
    obtain ⟨⟨_, stop⟩, rfl, rfl⟩ := List.map_eq_singleton_iff.mp hlasts
    exact ⟨ends, stop, hends, hbefore⟩
  rcases List.eq_nil_or_concat ends with rfl | ⟨front, ⟨kind, cut⟩, rfl⟩
  · refine ⟨"", ?_, rfl⟩
    simp only [parent?, hends]
    split <;> simp_all
  · rw [List.concat_eq_append, List.append_assoc] at hends
    refine ⟨String.ofList (path.toList.take cut), ?_, ?_⟩
    · simp only [parent?, hends]
      split <;> simp_all
    · rw [components, componentEnds_take hends, List.concat_eq_append]

/-- The empty path and the root have no parent. -/
theorem parent?_eq_none {path : Path} (h : path.components = [] ∨ path.components = [.root]) :
    path.parent? = none := by
  rcases h with h | h
  · have hends : path.componentEnds = [] := List.map_eq_nil_iff.mp h
    simp [parent?, hends]
  · obtain ⟨⟨_, stop⟩, hends, rfl⟩ := List.map_eq_singleton_iff.mp h
    simp [parent?, hends]

/-! ## What components there are -/

theorem exists_text_of_mem_named {segments : List (String × Nat)} {component : PathComponent}
    (h : component ∈ (named segments).map Prod.fst) : ∃ text stop, (text, stop) ∈ segments
      ∧ text ≠ "" ∧ text ≠ "." ∧ component = PathComponent.ofSegment text := by
  obtain ⟨found, hfound, rfl⟩ := List.mem_map.mp h
  obtain ⟨⟨text, stop⟩, hmem, rfl⟩ := List.mem_map.mp hfound
  obtain ⟨hsegment, hkept⟩ := List.mem_filter.mp hmem
  obtain ⟨hempty, hdot⟩ : text ≠ "" ∧ text ≠ "." := by simpa using hkept
  exact ⟨text, stop, hsegment, hempty, hdot, rfl⟩

/-- A component between slashes is a step up or a name. -/
theorem named_spec {path : Path} {component : PathComponent}
    (h : component ∈ (named (segmentsFrom 0 [] path.toList)).map Prod.fst) :
    component = .parent ∨ ∃ text, IsName text ∧ component = .name text := by
  obtain ⟨text, stop, hmem, hempty, hdot, rfl⟩ := exists_text_of_mem_named h
  by_cases hup : text = ".."
  · left
    simp [PathComponent.ofSegment, hup]
  · right
    have hname : IsName text :=
      ⟨hempty, hdot, hup, (segmentsFrom_bounds List.not_mem_nil hmem).1⟩
    exact ⟨text, hname, ofSegment_of_isName hname⟩

/-- **The components of a path**: the root if it is rooted, a dot at the very front if it is not,
and behind that steps up and names. -/
theorem components_eq (path : Path) : ∃ first rest,
    path.components = first ++ rest
      ∧ (if path.isRooted then first = [.root] else first = [] ∨ first = [.current])
      ∧ ∀ component ∈ rest, component = .parent ∨ ∃ text, IsName text ∧ component = .name text := by
  refine ⟨_, _, List.map_append, ?_, fun component => named_spec⟩
  obtain ⟨segment, rest, hsegments⟩ :=
    List.exists_cons_of_ne_nil (segmentsFrom_ne_nil 0 [] path.toList)
  change if path.isRooted then (leading path.isRooted _).map Prod.fst = _ else
    (leading path.isRooted _).map Prod.fst = _ ∨ (leading path.isRooted _).map Prod.fst = _
  rw [hsegments, leading_cons]
  cases path.isRooted with
  | true => rfl
  | false => by_cases hdot : segment.1 = "." <;> simp [hdot]

/-- A path that ends with the root is the root. -/
theorem components_eq_root {path : Path} {before : List PathComponent}
    (h : path.components = before ++ [.root]) : path.components = [.root] := by
  obtain ⟨first, rest, hcomponents, hfirst, hrest⟩ := path.components_eq
  rcases List.eq_nil_or_concat rest with rfl | ⟨front, component, rfl⟩
  · rw [List.append_nil] at hcomponents
    split at hfirst
    · rw [hcomponents, hfirst]
    · rcases hfirst with rfl | rfl
      · simp [hcomponents] at h
      · simp [hcomponents, List.singleton_eq_append_iff] at h
  · rw [hcomponents, List.concat_eq_append, ← List.append_assoc] at h
    obtain rfl : component = .root := by simpa using (List.append_inj' h rfl).2
    simpa using hrest .root (by simp)

/-- **Only the empty path and the root have no parent.** -/
theorem parent?_eq_none_iff {path : Path} :
    path.parent? = none ↔ path.components = [] ∨ path.components = [.root] := by
  refine ⟨fun h => ?_, parent?_eq_none⟩
  rcases List.eq_nil_or_concat path.components with hnil | ⟨before, component, hlast⟩
  · exact .inl hnil
  · rw [List.concat_eq_append] at hlast
    by_cases hroot : component = .root
    · exact .inr (components_eq_root (hroot ▸ hlast))
    · obtain ⟨parent, hparent, -⟩ := exists_parent? hlast hroot
      rw [hparent] at h
      cases h

/-- What has a parent has one component more than it. -/
theorem exists_of_parent? {path parent : Path} (h : path.parent? = some parent) :
    ∃ component, path.components = parent.components ++ [component] := by
  have hsome : path.parent? ≠ none := by simp [h]
  rw [ne_eq, parent?_eq_none_iff, not_or] at hsome
  rcases List.eq_nil_or_concat path.components with hnil | ⟨before, component, hlast⟩
  · exact absurd hnil hsome.1
  · rw [List.concat_eq_append] at hlast
    have hroot : component ≠ .root := by
      rintro rfl
      exact hsome.2 (components_eq_root hlast)
    obtain ⟨found, hfound, hbefore⟩ := exists_parent? hlast hroot
    obtain rfl : found = parent := Option.some.inj (hfound.symm.trans h)
    exact ⟨component, by rw [hbefore, hlast]⟩

/-- A name that has begun is not empty. -/
theorem exists_segmentsFrom_cons (start : Nat) {current : List Char} (chars : List Char)
    (h : current ≠ []) : ∃ text stop rest,
      segmentsFrom start current chars = (text, stop) :: rest ∧ text ≠ "" := by
  induction chars generalizing start current with
  | nil => exact ⟨_, _, [], rfl, by simpa [← String.toList_inj] using h⟩
  | cons c rest ih =>
      rw [segmentsFrom]
      split
      · exact ⟨_, _, _, rfl, by simpa [← String.toList_inj] using h⟩
      · exact ih (start + 1) (List.cons_ne_nil c current)

/-- Only the empty path has no components. -/
theorem components_ne_nil {path : Path} (h : path ≠ "") : path.components ≠ [] := by
  intro hnil
  have hends : path.componentEnds = [] := List.map_eq_nil_iff.mp hnil
  rw [componentEnds_eq, List.append_eq_nil_iff] at hends
  obtain ⟨hleading, hnamed⟩ := hends
  cases hchars : path.toList with
  | nil => exact h (String.toList_injective hchars)
  | cons c chars =>
      by_cases hslash : c = '/'
      · have hrooted : path.isRooted = true := by simp [isRooted, hchars, hslash]
        simp [leading, hrooted] at hleading
      · -- the first name is a component, or the dot at the very front
        obtain ⟨text, stop, rest, hsegments, htext⟩ :=
          exists_segmentsFrom_cons 1 chars (List.cons_ne_nil c [])
        have hfirst : segmentsFrom 0 [] path.toList = (text, stop) :: rest := by
          rw [hchars, segmentsFrom, if_neg hslash]
          exact hsegments
        rw [hfirst, leading_cons] at hleading
        rw [hfirst, ← List.singleton_append, named_append, List.append_eq_nil_iff,
          named_singleton] at hnamed
        by_cases hdot : text = "."
        · split at hleading <;> simp at hleading
        · simp [htext, hdot] at hnamed

theorem length_segmentsFrom_le (start : Nat) (current chars : List Char) :
    (segmentsFrom start current chars).length ≤ chars.length + 1 := by
  induction chars generalizing start current with
  | nil => simp [segmentsFrom]
  | cons c rest ih =>
      rw [segmentsFrom, List.length_cons]
      split
      · rw [List.length_cons]
        have := ih (start + 1) []
        omega
      · have := ih (start + 1) (c :: current)
        omega

theorem length_named_le (segments : List (String × Nat)) :
    (named segments).length ≤ segments.length := by
  rw [named, List.length_map]
  exact List.length_filter_le _ _

/-- A path has at most one component more than characters. -/
theorem length_components_le (path : Path) : path.components.length ≤ path.length + 1 := by
  have hbound := length_segmentsFrom_le 0 [] path.toList
  obtain ⟨segment, rest, hsegments⟩ :=
    List.exists_cons_of_ne_nil (segmentsFrom_ne_nil 0 [] path.toList)
  -- what stands in front of the names takes the place of the first, which then is none
  have hfirst :
      (leading path.isRooted (segment :: rest)).length + (named [segment]).length ≤ 1 := by
    rw [leading_cons, named_singleton]
    cases hrooted : path.isRooted with
    | true =>
        have hempty : segment.1 = "" := by
          rw [isRooted_eq, beq_iff_eq, List.head?_eq_some_iff] at hrooted
          obtain ⟨chars, hchars⟩ := hrooted
          rw [hchars, segmentsFrom, if_pos rfl] at hsegments
          rw [← (List.cons.inj hsegments).1]
          rfl
        simp [hempty]
    | false =>
        by_cases hdot : segment.1 = "."
        · simp [hdot]
        · rw [if_neg Bool.false_ne_true, if_neg hdot]
          split <;> simp
  have hrest := length_named_le rest
  rw [hsegments, List.length_cons] at hbound
  rw [components, List.length_map, componentEnds_eq, hsegments, ← List.singleton_append,
    named_append, List.length_append, List.length_append, List.singleton_append,
    ← String.length_toList]
  omega

end Path

end KeyOrder
