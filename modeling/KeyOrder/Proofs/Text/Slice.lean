import KeyOrder.Text.Blank

/-!
# Cutting a text at byte offsets

A byte offset that is a character boundary cuts the text in two, and two of them cut it in three: a
slice is then the middle piece, adjacent slices join to one, and the white space in front of an
offset is white space indeed. **Everything about slices in the theory of bodies goes through these
facts**; `takeBytes` and `dropBytes` are opened nowhere else.
-/

namespace KeyOrder

namespace Text

/-- White space only. -/
def Blank (text : Text) : Prop := ∀ c ∈ text, isBlank c = true

-- stated by name: going through all characters would decide it too, far more slowly
instance (text : Text) : Decidable text.Blank := List.decidableBAll _ text

/-- The row of a byte offset: the number of line feeds in front of it. -/
def rowAt (text : Text) (offset : Nat) : Nat := (text.takeBytes offset).count '\n'

@[simp] theorem blank_nil : Blank [] := by simp [Blank]

@[simp] theorem blank_append {a b : Text} : Blank (a ++ b) ↔ Blank a ∧ Blank b := by
  simp only [Blank, List.mem_append]
  constructor
  · intro h
    exact ⟨fun c hc => h c (.inl hc), fun c hc => h c (.inr hc)⟩
  · rintro ⟨ha, hb⟩ c (hc | hc)
    · exact ha c hc
    · exact hb c hc

/-! ## Boundaries -/

theorem isBoundary_append (a b : Text) : isBoundary (a ++ b) (byteLength a) = true := by
  induction a with
  | nil => cases b <;> simp [isBoundary]
  | cons c rest ih => simp [isBoundary, ih]

/-- **A boundary is the length of a leading piece.** -/
theorem isBoundary_iff {text : Text} {n : Nat} :
    text.isBoundary n = true ↔ ∃ before behind, text = before ++ behind ∧ byteLength before = n := by
  constructor
  · intro h
    induction text generalizing n with
    | nil =>
        have hn : n = 0 := by simpa [isBoundary] using h
        exact ⟨[], [], rfl, hn.symm⟩
    | cons c rest ih =>
        by_cases hn : n = 0
        · exact ⟨[], c :: rest, rfl, hn.symm⟩
        · simp only [isBoundary, beq_iff_eq, hn, Bool.or_eq_true, false_or, Bool.and_eq_true,
            decide_eq_true_eq] at h
          obtain ⟨before, behind, rfl, hlen⟩ := ih h.2
          exact ⟨c :: before, behind, rfl, by simp only [byteLength_cons]; omega⟩
  · rintro ⟨before, behind, rfl, rfl⟩
    exact isBoundary_append before behind

theorem byteLength_takeBytes {text : Text} {n : Nat} (h : text.isBoundary n = true) :
    (text.takeBytes n).byteLength = n := by
  obtain ⟨before, behind, rfl, rfl⟩ := isBoundary_iff.mp h
  rw [takeBytes_append]

theorem isBoundary_append_add (a b : Text) (n : Nat) :
    isBoundary (a ++ b) (byteLength a + n) = isBoundary b n := by
  induction a with
  | nil => simp
  | cons c rest ih =>
      have hc := c.utf8Size_pos
      have hsub : c.utf8Size + byteLength rest + n - c.utf8Size = byteLength rest + n := by omega
      have hle : c.utf8Size ≤ c.utf8Size + byteLength rest + n := by omega
      have hne : (c.utf8Size + byteLength rest + n == 0) = false := by
        rw [beq_eq_false_iff_ne]
        omega
      simp only [List.cons_append, byteLength_cons, isBoundary, hne, hle, hsub, ih, Bool.false_or,
        decide_true, Bool.true_and]

theorem dropBytes_append_add (a b : Text) (n : Nat) :
    dropBytes (a ++ b) (byteLength a + n) = dropBytes b n := by
  induction a with
  | nil => simp
  | cons c rest ih =>
      have hc := c.utf8Size_pos
      rw [List.cons_append, byteLength_cons, dropBytes, if_neg (by omega),
        show c.utf8Size + byteLength rest + n - c.utf8Size = byteLength rest + n from by omega, ih]

theorem takeBytes_append_add (a b : Text) (n : Nat) :
    takeBytes (a ++ b) (byteLength a + n) = a ++ takeBytes b n := by
  induction a with
  | nil => simp
  | cons c rest ih =>
      have hc := c.utf8Size_pos
      rw [List.cons_append, byteLength_cons, takeBytes, if_neg (by omega),
        show c.utf8Size + byteLength rest + n - c.utf8Size = byteLength rest + n from by omega, ih,
        List.cons_append]

/-- **Two boundaries cut the text in three.** -/
theorem exists_cut {text : Text} {a b : Nat} (ha : text.isBoundary a = true)
    (hb : text.isBoundary b = true) (hab : a ≤ b) :
    ∃ before middle behind, text = before ++ (middle ++ behind) ∧ byteLength before = a
      ∧ byteLength before + byteLength middle = b := by
  obtain ⟨before, rest, rfl, rfl⟩ := isBoundary_iff.mp ha
  have hb' : rest.isBoundary (b - before.byteLength) = true := by
    rw [← isBoundary_append_add before rest, show byteLength before + (b - byteLength before) = b
      from by omega]
    exact hb
  obtain ⟨middle, behind, rfl, hlen⟩ := isBoundary_iff.mp hb'
  exact ⟨before, middle, behind, rfl, rfl, by omega⟩

/-! ## Slices -/

theorem slice_middle (a b c : Text) {n m : Nat} (hn : n = byteLength a)
    (hm : m = byteLength a + byteLength b) : slice (a ++ (b ++ c)) n m = b := by
  subst hn hm
  rw [← List.append_assoc]
  exact slice_append a b c

@[simp] theorem slice_self (text : Text) (n : Nat) : slice text n n = [] := by
  simp [slice]

theorem slice_eq_nil {text : Text} {a b : Nat} (h : b ≤ a) : slice text a b = [] := by
  rw [slice, Nat.sub_eq_zero_of_le h, takeBytes_zero]

/-- **Adjacent slices join.** -/
theorem slice_append_slice {text : Text} {a b c : Nat} (ha : text.isBoundary a = true)
    (hb : text.isBoundary b = true) (hab : a ≤ b) (hbc : b ≤ c) :
    text.slice a b ++ text.slice b c = text.slice a c := by
  obtain ⟨before, middle, behind, rfl, rfl, rfl⟩ := exists_cut ha hb hab
  have hmid : slice (before ++ (middle ++ behind)) (byteLength before)
      (byteLength before + byteLength middle) = middle := slice_middle _ _ _ rfl rfl
  have hwhole : slice (before ++ (middle ++ behind)) (byteLength before) c
      = middle ++ takeBytes behind (c - (byteLength before + byteLength middle)) := by
    rw [slice, dropBytes_append, show c - byteLength before
      = byteLength middle + (c - (byteLength before + byteLength middle)) from by omega,
      takeBytes_append_add]
  have hrest : slice (before ++ (middle ++ behind)) (byteLength before + byteLength middle) c
      = takeBytes behind (c - (byteLength before + byteLength middle)) := by
    rw [slice, dropBytes_append_add, dropBytes_append]
  rw [hmid, hrest, hwhole]

/-- The beginning of a text is cut off at a boundary inside it. -/
theorem takeBytes_append_slice {text : Text} {a b : Nat} (ha : text.isBoundary a = true)
    (hab : a ≤ b) : text.takeBytes a ++ text.slice a b = text.takeBytes b := by
  have hzero : text.isBoundary 0 = true := isBoundary_append [] text
  have hjoin := slice_append_slice hzero ha (Nat.zero_le a) hab
  simpa [slice] using hjoin

theorem slice_append_dropBytes {text : Text} {a b : Nat} (ha : text.isBoundary a = true)
    (hb : text.isBoundary b = true) (hab : a ≤ b) :
    text.slice a b ++ text.dropBytes b = text.dropBytes a := by
  obtain ⟨before, middle, behind, rfl, rfl, rfl⟩ := exists_cut ha hb hab
  rw [slice_middle _ _ _ rfl rfl, dropBytes_append, dropBytes_append_add, dropBytes_append]

theorem takeBytes_mono (text : Text) {n m : Nat} (h : n ≤ m) :
    takeBytes text n <+: takeBytes text m := by
  induction text generalizing n m with
  | nil => simp [takeBytes]
  | cons c rest ih =>
      by_cases hn : n = 0
      · simp [hn]
      · have hm : m ≠ 0 := by omega
        simp only [takeBytes, hn, hm, if_false, List.prefix_cons_inj]
        exact ih (by omega)

theorem byteLength_takeBytes_le (text : Text) (n : Nat) :
    (text.takeBytes n).byteLength ≤ text.byteLength := by
  induction text generalizing n with
  | nil => exact Nat.le_refl _
  | cons c rest ih =>
      rw [takeBytes]
      split
      · exact Nat.zero_le _
      · exact Nat.add_le_add_left (ih _) _

theorem slice_zero (text : Text) (n : Nat) : text.slice 0 n = text.takeBytes n := by
  simp [slice]

/-- A slice that ends later begins with one that ends earlier. -/
theorem mem_slice_of_le {text : Text} {a b c : Nat} (hbc : b ≤ c) {x : Char}
    (hx : x ∈ text.slice a b) : x ∈ text.slice a c :=
  (takeBytes_mono _ (Nat.sub_le_sub_right hbc a)).subset hx

theorem byteLength_slice {text : Text} {a b : Nat} (ha : text.isBoundary a = true)
    (hb : text.isBoundary b = true) (hab : a ≤ b) : (text.slice a b).byteLength = b - a := by
  obtain ⟨before, middle, behind, rfl, rfl, rfl⟩ := exists_cut ha hb hab
  rw [slice_middle _ _ _ rfl rfl]
  omega

theorem slice_ne_nil {text : Text} {a b : Nat} (ha : text.isBoundary a = true)
    (hb : text.isBoundary b = true) (hab : a < b) : text.slice a b ≠ [] := by
  intro h
  have hlen := byteLength_slice ha hb (Nat.le_of_lt hab)
  rw [h, byteLength_nil] at hlen
  omega

/-- A text whose every character is white space, offset by offset. -/
theorem blank_slice {text : Text} {a b : Nat} (ha : text.isBoundary a = true)
    (hb : text.isBoundary b = true) (hab : a ≤ b)
    (h : ∀ n, a ≤ n → n < b → text.isBoundary n = true → (text.slice n (n + 1)).Blank) :
    (text.slice a b).Blank := by
  obtain ⟨before, middle, behind, rfl, rfl, rfl⟩ := exists_cut ha hb hab
  rw [slice_middle _ _ _ rfl rfl]
  intro c hc
  obtain ⟨u, v, rfl⟩ := List.append_of_mem hc
  have hsize := c.utf8Size_pos
  have hassoc : before ++ (u ++ c :: v ++ behind) = (before ++ u) ++ (c :: (v ++ behind)) := by simp
  have hlen : byteLength (before ++ u) < byteLength before + byteLength (u ++ c :: v) := by
    simp only [byteLength_append, byteLength_cons]
    omega
  have hone : slice (before ++ (u ++ c :: v ++ behind)) (byteLength (before ++ u))
      (byteLength (before ++ u) + 1) = [c] := by
    rw [hassoc, slice, dropBytes_append, Nat.add_sub_cancel_left, takeBytes, if_neg (by omega),
      show 1 - c.utf8Size = 0 from by omega, takeBytes_zero]
  have hbound : isBoundary (before ++ (u ++ c :: v ++ behind)) (byteLength (before ++ u)) = true := by
    rw [hassoc]
    exact isBoundary_append _ _
  have hblank := h _ (by simp) hlen hbound
  rw [hone] at hblank
  exact hblank c (by simp)

/-! ## White space in front of an offset -/

/-- What stands right in front of an offset is not white space. -/
def SolidBefore (text : Text) (offset : Nat) : Prop :=
  (text.takeBytes offset).getLast?.any isBlank = false

instance (text : Text) (offset : Nat) : Decidable (text.SolidBefore offset) :=
  inferInstanceAs (Decidable (_ = _))

theorem trimEnd_append_blank (text : Text) :
    trimEnd text ++ (text.reverse.takeWhile isBlank).reverse = text := by
  rw [trimEnd, ← List.reverse_append, List.takeWhile_append_dropWhile, List.reverse_reverse]

/-- **A boundary cuts the text behind a run of white space**: nothing of it is left out, and what
stands in front of it does not end in white space. -/
theorem exists_blankRun {text : Text} {n : Nat} (h : text.isBoundary n = true) :
    ∃ front run behind, text = front ++ (run ++ behind) ∧ byteLength front = text.blankStart n
      ∧ byteLength front + byteLength run = n ∧ Blank run ∧ front.getLast?.any isBlank = false := by
  obtain ⟨before, behind, rfl, rfl⟩ := isBoundary_iff.mp h
  have hrun := trimEnd_append_blank before
  refine ⟨trimEnd before, (before.reverse.takeWhile isBlank).reverse, behind, ?_, ?_, ?_, ?_, ?_⟩
  · rw [← List.append_assoc, hrun]
  · rw [blankStart, takeBytes_append]
  · rw [← byteLength_append, hrun]
  · intro c hc
    exact List.all_eq_true.mp List.all_takeWhile c (List.mem_reverse.mp hc)
  · have hhead := List.head?_dropWhile_not isBlank before.reverse
    rw [trimEnd, List.getLast?_reverse]
    cases hdrop : (before.reverse.dropWhile isBlank).head? with
    | none => rfl
    | some c => simpa [hdrop] using hhead

theorem isBoundary_blankStart {text : Text} {n : Nat} (h : text.isBoundary n = true) :
    text.isBoundary (text.blankStart n) = true := by
  obtain ⟨front, run, behind, htext, hfront, -⟩ := exists_blankRun h
  rw [← hfront, htext]
  exact isBoundary_append _ _

theorem blankStart_le {text : Text} {n : Nat} (h : text.isBoundary n = true) :
    text.blankStart n ≤ n := by
  obtain ⟨front, run, behind, -, hfront, hn, -⟩ := exists_blankRun h
  omega

/-- Cut character or not, the white space in front of an offset starts inside the text. -/
theorem blankStart_le_byteLength (text : Text) (n : Nat) :
    text.blankStart n ≤ text.byteLength := by
  have hrun := congrArg byteLength (trimEnd_append_blank (text.takeBytes n))
  have hle := byteLength_takeBytes_le text n
  rw [byteLength_append] at hrun
  rw [blankStart]
  omega

theorem solidBefore_blankStart {text : Text} {n : Nat} (h : text.isBoundary n = true) :
    text.SolidBefore (text.blankStart n) := by
  obtain ⟨front, run, behind, htext, hfront, -, -, hsolid⟩ := exists_blankRun h
  rw [SolidBefore, ← hfront, htext, takeBytes_append]
  exact hsolid

/-- **The white space in front of a boundary is white space.** -/
theorem blank_blankBefore {text : Text} {n : Nat} (h : text.isBoundary n = true) :
    (text.blankBefore n).Blank := by
  obtain ⟨front, run, behind, htext, hfront, hn, hblank, -⟩ := exists_blankRun h
  have hslice : text.blankBefore n = run := by
    rw [blankBefore, ← hfront]
    conv => lhs; rw [htext]
    exact slice_middle _ _ _ rfl hn.symm
  rw [hslice]
  exact hblank

/-- Behind something solid, white space at the end is white space of what follows. -/
theorem trimEnd_append {x y : Text} (h : x.getLast?.any isBlank = false) :
    trimEnd (x ++ y) = x ++ trimEnd y := by
  have hsolid : x.reverse.dropWhile isBlank = x.reverse := by
    rw [List.getLast?_eq_head?_reverse] at h
    cases hx : x.reverse with
    | nil => rfl
    | cons c rest =>
        rw [hx] at h
        exact List.dropWhile_cons_of_neg (by simpa using h)
  rw [trimEnd, trimEnd, List.reverse_append, List.dropWhile_append]
  split
  · rename_i hempty
    rw [hsolid, List.isEmpty_iff.mp hempty]
    simp
  · simp

theorem blankStart_eq_add {text : Text} {a b : Nat} (ha : text.isBoundary a = true)
    (hb : text.isBoundary b = true) (hab : a ≤ b) (hsolid : text.SolidBefore a) :
    text.blankStart b = a + (trimEnd (text.slice a b)).byteLength := by
  obtain ⟨x, y, z, rfl, rfl, rfl⟩ := exists_cut ha hb hab
  rw [SolidBefore, takeBytes_append] at hsolid
  rw [slice_middle _ _ _ rfl rfl, blankStart, takeBytes_append_add, takeBytes_append,
    trimEnd_append hsolid, byteLength_append]

/-- **White space behind something solid is all that stands in front of an offset.** -/
theorem blankStart_eq {text : Text} {a b : Nat} (ha : text.isBoundary a = true)
    (hb : text.isBoundary b = true) (hab : a ≤ b) (hblank : (text.slice a b).Blank)
    (hsolid : text.SolidBefore a) : text.blankStart b = a := by
  have hnone : trimEnd (text.slice a b) = [] := by
    have hdrop := @List.dropWhile_append_of_pos _ isBlank (text.slice a b).reverse []
      fun c hc => hblank c (List.mem_reverse.mp hc)
    simpa [trimEnd] using hdrop
  rw [blankStart_eq_add ha hb hab hsolid, hnone, byteLength_nil, Nat.add_zero]

/-- The white space in front of an offset does not reach beyond something solid. -/
theorem le_blankStart {text : Text} {a b : Nat} (ha : text.isBoundary a = true)
    (hb : text.isBoundary b = true) (hab : a ≤ b) (hsolid : text.SolidBefore a) :
    a ≤ text.blankStart b := by
  rw [blankStart_eq_add ha hb hab hsolid]
  exact Nat.le_add_right _ _

end Text

end KeyOrder
