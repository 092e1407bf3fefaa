import KeyOrder.Text.LineIndex
import KeyOrder.Proofs.Text.Halving
import KeyOrder.Proofs.Text.Slice
import Mathlib.Data.List.TakeWhile

/-!
# Lines and columns are exact

No character but the line feed itself has the byte of a line feed in its UTF-8 form, so lines may be
counted in bytes or in characters. **The line of any offset is one more than the line feeds at bytes
below it**, and at a character boundary **the column is one more than the characters behind the last
of them**. Hence lines and columns rise strictly from boundary to boundary, whatever the width of
the characters between them.
-/

namespace KeyOrder

namespace Text

/-- The bytes of a text in UTF-8. -/
def bytes (text : Text) : List UInt8 := text.flatMap String.utf8EncodeChar

/-- Number of line feeds at byte positions below an offset. -/
def lineFeedsBelow (text : Text) (offset : Nat) : Nat := (text.bytes.take offset).count 10

/-- Number of characters behind the last line feed in front of an offset. -/
def columnsBelow (text : Text) (offset : Nat) : Nat :=
  ((text.takeBytes offset).reverse.takeWhile (· != '\n')).length

/-! ## Line feeds in bytes and in characters -/

/-- **Only the line feed has a byte of a line feed**: the bytes of a longer form are all 128 or
more. -/
theorem lineFeed_notMem_utf8EncodeChar {c : Char} (h : c ≠ '\n') :
    (10 : UInt8) ∉ String.utf8EncodeChar c := by
  have hvalue : c.val.toNat ≠ 10 := fun heq => h (Char.ext (UInt32.toNat_inj.mp heq))
  have hbyte : ∀ n : Nat, n < 256 → n ≠ 10 → ¬ (10 : UInt8) = UInt8.ofNat n := by
    intro n hn hne heq
    have := congrArg UInt8.toNat heq
    simp only [UInt8.toNat_ofNat', UInt8.reduceToNat] at this
    omega
  simp only [String.utf8EncodeChar]
  split
  · rw [List.mem_singleton]
    exact hbyte _ (by omega) hvalue
  · split
    · simp only [List.mem_cons, List.not_mem_nil, or_false, not_or]
      exact ⟨hbyte _ (by omega) (by omega), hbyte _ (by omega) (by omega)⟩
    · split
      · simp only [List.mem_cons, List.not_mem_nil, or_false, not_or]
        exact ⟨hbyte _ (by omega) (by omega), hbyte _ (by omega) (by omega),
          hbyte _ (by omega) (by omega)⟩
      · simp only [List.mem_cons, List.not_mem_nil, or_false, not_or]
        exact ⟨hbyte _ (by omega) (by omega), hbyte _ (by omega) (by omega),
          hbyte _ (by omega) (by omega), hbyte _ (by omega) (by omega)⟩

theorem count_take_utf8EncodeChar (c : Char) (n : Nat) :
    ((String.utf8EncodeChar c).take n).count 10 = if c = '\n' ∧ n ≠ 0 then 1 else 0 := by
  by_cases hc : c = '\n'
  · subst hc
    cases n with
    | zero => rfl
    | succ n => simp [String.utf8EncodeChar]
  · rw [if_neg fun h => hc h.1]
    exact List.count_eq_zero_of_not_mem fun hmem =>
      lineFeed_notMem_utf8EncodeChar hc (List.mem_of_mem_take hmem)

/-- Line feeds may be counted in bytes or in characters. -/
theorem lineFeedsBelow_eq_rowAt (text : Text) (offset : Nat) :
    text.lineFeedsBelow offset = text.rowAt offset := by
  induction text generalizing offset with
  | nil => simp [lineFeedsBelow, rowAt, bytes, takeBytes]
  | cons c rest ih =>
      have hrest : ((bytes rest).take (offset - c.utf8Size)).count 10
          = rowAt rest (offset - c.utf8Size) := ih _
      have hbytes : bytes (c :: rest) = String.utf8EncodeChar c ++ bytes rest := rfl
      rw [lineFeedsBelow, hbytes, List.take_append, List.count_append, count_take_utf8EncodeChar,
        String.length_utf8EncodeChar, hrest, rowAt, rowAt, takeBytes]
      by_cases hoffset : offset = 0
      · simp [hoffset]
      · by_cases hc : c = '\n'
        · simp [hoffset, hc, Nat.add_comm]
        · simp [hoffset, hc]

end Text

namespace LineIndex

open Text

/-! ## The starts of lines -/

theorem startsFrom_append (base : Nat) (a b : Text) :
    startsFrom base (a ++ b) = startsFrom base a ++ startsFrom (base + byteLength a) b := by
  induction a generalizing base with
  | nil => simp [startsFrom]
  | cons c rest ih =>
      simp only [List.cons_append, startsFrom, ih, byteLength_cons, Nat.add_assoc]
      split <;> rfl

theorem length_startsFrom (base : Nat) (text : Text) :
    (startsFrom base text).length = text.count '\n' := by
  induction text generalizing base with
  | nil => rfl
  | cons c rest ih =>
      by_cases hc : c = '\n'
      · simp [startsFrom, hc, ih]
      · simp [startsFrom, hc, ih]

theorem lt_of_mem_startsFrom {base start : Nat} {text : Text} (h : start ∈ startsFrom base text) :
    base < start := by
  induction text generalizing base with
  | nil => simp [startsFrom] at h
  | cons c rest ih =>
      have hsize := c.utf8Size_pos
      simp only [startsFrom] at h
      split at h
      · rcases List.mem_cons.mp h with rfl | hrest
        · omega
        · exact Nat.lt_trans (by omega) (ih hrest)
      · exact Nat.lt_trans (by omega) (ih h)

theorem le_of_mem_startsFrom_cons {base start : Nat} {c : Char} {rest : Text}
    (h : start ∈ startsFrom base (c :: rest)) : base + c.utf8Size ≤ start := by
  simp only [startsFrom] at h
  split at h
  · rcases List.mem_cons.mp h with rfl | hrest
    · exact Nat.le_refl _
    · exact Nat.le_of_lt (lt_of_mem_startsFrom hrest)
  · exact Nat.le_of_lt (lt_of_mem_startsFrom h)

theorem pairwise_startsFrom (base : Nat) (text : Text) :
    (base :: startsFrom base text).Pairwise (· < ·) := by
  refine List.pairwise_cons.mpr ⟨fun _ => lt_of_mem_startsFrom, ?_⟩
  induction text generalizing base with
  | nil => simp [startsFrom]
  | cons c rest ih =>
      simp only [startsFrom]
      split
      · exact List.pairwise_cons.mpr ⟨fun _ => lt_of_mem_startsFrom, ih _⟩
      · exact ih _

/-- The starts of lines up to an offset are as many as the line feeds in front of it. -/
theorem countP_startsFrom (base offset : Nat) (text : Text) :
    (startsFrom base text).countP (· ≤ base + offset) = text.rowAt offset := by
  induction text generalizing base offset with
  | nil => simp [startsFrom, rowAt, takeBytes]
  | cons c rest ih =>
      have hsize := c.utf8Size_pos
      by_cases hoffset : c.utf8Size ≤ offset
      · have hrest := ih (base + c.utf8Size) (offset - c.utf8Size)
        rw [show base + c.utf8Size + (offset - c.utf8Size) = base + offset by omega] at hrest
        rw [rowAt, takeBytes, if_neg (by omega), List.count_cons, ← rowAt, ← hrest, startsFrom]
        split
        · rename_i hc
          rw [List.countP_cons_of_pos (by simpa using hoffset), if_pos (by simpa using hc)]
        · rename_i hc
          rw [if_neg (by simpa using hc), Nat.add_zero]
      · -- the offset falls into the first character: nothing starts up to it
        have hnone : (startsFrom base (c :: rest)).countP (· ≤ base + offset) = 0 := by
          refine List.countP_eq_zero.mpr fun start hstart => ?_
          have := le_of_mem_startsFrom_cons hstart
          simp only [decide_eq_true_eq]
          omega
        rw [hnone, rowAt, takeBytes]
        split
        · rfl
        · have hc : c ≠ '\n' := by
            rintro rfl
            exact hoffset (Nat.pos_of_ne_zero ‹_›)
          rw [show offset - c.utf8Size = 0 by omega, takeBytes_zero]
          simp [hc]

/-! ## Lines -/

variable {text : Text} {offset : Nat}

theorem line_eq_rowAt : (ofText text).line offset = text.rowAt offset + 1 := by
  have hsorted := (pairwise_startsFrom 0 text).imp fun {a b} (hab : a < b)
    (hb : decide (b ≤ offset) = true) => show decide (a ≤ offset) = true by
      simp only [decide_eq_true_eq] at hb ⊢
      omega
  have hcount := countP_startsFrom 0 offset text
  rw [Nat.zero_add] at hcount
  rw [line, ofText, partitionPoint_eq_countP hsorted, List.countP_cons_of_pos (by simp), hcount]

/-- **The line of an offset is one more than the line feeds at bytes below it.** -/
theorem line_eq (text : Text) (offset : Nat) :
    (ofText text).line offset = 1 + text.lineFeedsBelow offset := by
  rw [line_eq_rowAt, lineFeedsBelow_eq_rowAt, Nat.add_comm]

/-! ## Columns -/

/-- **A text is what stands in front of its last line, and that line**; the last of the starts in it
is where the line begins. -/
theorem exists_lastLine (text : Text) : ∃ front line, text = front ++ line ∧ '\n' ∉ line
    ∧ text.reverse.takeWhile (· != '\n') = line.reverse
    ∧ (0 :: startsFrom 0 front)[front.count '\n']? = some (byteLength front) := by
  by_cases h : '\n' ∈ text.reverse
  · obtain ⟨line, front, htext, hfree⟩ := List.eq_append_cons_of_mem h
    have hline : ∀ c ∈ line, (c != '\n') = true := fun c hc => by
      simpa using fun heq : c = '\n' => hfree (heq ▸ hc)
    refine ⟨front.reverse ++ ['\n'], line.reverse, ?_, by simpa using hfree, ?_, ?_⟩
    · simpa using congrArg List.reverse htext
    · rw [htext, List.takeWhile_append_of_pos hline]
      simp
    · have hlength : (startsFrom 0 front.reverse).length = front.reverse.count '\n' :=
        length_startsFrom 0 _
      rw [startsFrom_append, List.count_append, ← hlength]
      simp [startsFrom]
  · have htext : ∀ c ∈ text.reverse, (c != '\n') = true := fun c hc => by
      simpa using fun heq : c = '\n' => h (heq ▸ hc)
    refine ⟨[], text, rfl, by simpa using h, ?_, rfl⟩
    exact List.takeWhile_eq_self_iff.mpr htext

/-- **At a boundary, the column is one more than the characters behind the last line feed in
front.** -/
theorem lineColumn_eq (h : text.isBoundary offset = true) :
    (ofText text).lineColumn text offset
      = (1 + text.lineFeedsBelow offset, 1 + text.columnsBelow offset) := by
  obtain ⟨before, behind, rfl, rfl⟩ := isBoundary_iff.mp h
  obtain ⟨front, line, rfl, hfree, hline, hstart⟩ := exists_lastLine before
  have hrow : rowAt (front ++ line ++ behind) (byteLength (front ++ line)) = front.count '\n' := by
    rw [rowAt, takeBytes_append, List.count_append, List.count_eq_zero_of_not_mem hfree,
      Nat.add_zero]
  have hcolumns : columnsBelow (front ++ line ++ behind) (byteLength (front ++ line))
      = line.length := by
    rw [columnsBelow, takeBytes_append, hline, List.length_reverse]
  have hbegins : (ofText (front ++ line ++ behind)).starts.getD (front.count '\n') 0
      = byteLength front := by
    have hcount : front.count '\n' < (0 :: startsFrom 0 front).length :=
      List.getElem?_eq_some_iff.mp hstart |>.1
    rw [ofText, List.append_assoc, startsFrom_append, ← List.cons_append, Array.getD_eq_getD_getElem?,
      List.getElem?_toArray, List.getElem?_append_left hcount, hstart]
    rfl
  have hslice : slice? (front ++ line ++ behind) (byteLength front) (byteLength (front ++ line))
      = some line := by
    have hfront : isBoundary (front ++ line ++ behind) (byteLength front) = true := by
      rw [List.append_assoc]
      exact isBoundary_append _ _
    have hle : byteLength front ≤ byteLength (front ++ line) := by simp
    simp only [slice?, hfront, h, hle, decide_true, Bool.and_self, if_true]
    rw [byteLength_append, slice_append]
  rw [lineFeedsBelow_eq_rowAt, hrow, hcolumns, lineColumn, line_eq_rowAt, hrow, Nat.add_sub_cancel,
    hbegins, hslice, Nat.add_comm 1, Nat.add_comm 1]

/-- **Lines and columns rise strictly from boundary to boundary.** -/
theorem lineColumn_lt {a b : Nat} (ha : text.isBoundary a = true) (hb : text.isBoundary b = true)
    (hab : a < b) : Prod.Lex (· < ·) (· < ·) ((ofText text).lineColumn text a)
      ((ofText text).lineColumn text b) := by
  obtain ⟨x, y, z, rfl, rfl, rfl⟩ := exists_cut ha hb (Nat.le_of_lt hab)
  have hrows : rowAt (x ++ (y ++ z)) (byteLength x + byteLength y)
      = rowAt (x ++ (y ++ z)) (byteLength x) + y.count '\n' := by
    rw [rowAt, rowAt, takeBytes_append_add, takeBytes_append, takeBytes_append, List.count_append]
  rw [lineColumn_eq ha, lineColumn_eq hb, Prod.lex_def, lineFeedsBelow_eq_rowAt,
    lineFeedsBelow_eq_rowAt, hrows]
  by_cases hfeed : '\n' ∈ y
  · have hcount := List.count_pos_iff.mpr hfeed
    exact .inl (by simp only; omega)
  · have hfree : ∀ c ∈ y.reverse, (c != '\n') = true := fun c hc => by
      simpa using fun heq : c = '\n' => hfeed (heq ▸ List.mem_reverse.mp hc)
    have hcolumns : columnsBelow (x ++ (y ++ z)) (byteLength x + byteLength y)
        = columnsBelow (x ++ (y ++ z)) (byteLength x) + y.length := by
      rw [columnsBelow, columnsBelow, takeBytes_append_add, takeBytes_append, takeBytes_append,
        List.reverse_append, List.takeWhile_append_of_pos hfree, List.length_append,
        List.length_reverse, Nat.add_comm]
    have hlength : y.length ≠ 0 := by
      rintro hzero
      rw [List.eq_nil_of_length_eq_zero hzero, byteLength_nil] at hab
      omega
    refine .inr ⟨?_, ?_⟩
    · rw [List.count_eq_zero_of_not_mem hfeed, Nat.add_zero]
    · rw [hcolumns]
      omega

end LineIndex

end KeyOrder
