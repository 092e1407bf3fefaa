import KeyOrder.Order.Compare

/-!
# Names are totally preordered

**The order of names is a total preorder under all options**, whatever the folding of case does to a
name: a name equals itself, exchanging two names reverses the answer, and "not greater" is
transitive. Sorting relies on all three.

The layers around the natural order (weight, folding, direction) keep these laws one by one. The
natural order itself is where they could break, since how far it reads in one name depends on what
stands in the other. **It is a lexicographic order nonetheless**: a name can be cut into tokens on
its own, each a whole number or one character, so that comparing two names is comparing their tokens
one by one. A number met by a character is decided by their codes alone, because no character that
starts no number has a code among those of `1` to `9`.
-/

namespace KeyOrder

open Std

/-! ## Texts and runs of digits -/

/-- Comparing through a function keeps the laws of the comparison. -/
theorem transCmp_on {α β : Type} (f : α → β) (cmp : β → β → Ordering) [TransCmp cmp] :
    TransCmp fun a b => cmp (f a) (f b) where
  eq_swap := OrientedCmp.eq_swap
  isLE_trans := TransCmp.isLE_trans

theorem compareChars_eq_compareLex (a b : Text) :
    compareChars a b = List.compareLex (compareOn Char.toNat) a b := by
  fun_induction compareChars a b with
  | case1 => rfl
  | case2 => rfl
  | case3 => rfl
  | case4 c cs d ds ih => rw [List.compareLex_cons_cons, ih, compareOn]

instance : TransCmp compareChars := by
  have h : compareChars = List.compareLex (compareOn Char.toNat) :=
    funext fun a => funext fun b => compareChars_eq_compareLex a b
  rw [h]
  infer_instance

instance : TransCmp compareRuns :=
  inferInstanceAs (TransCmp (compareLex (compareOn List.length) compareChars))

/-! ## The natural order as a lexicographic order -/

/-- What the natural order reads in one step. -/
structure NameToken where
  /-- Collation code of a character; all numbers have that of the digit `1`. -/
  code : Nat
  /-- The digits of a number, and nothing for a character. -/
  digits : Text

/-- Order of two tokens: by code, and two numbers by value. -/
def NameToken.compare (a b : NameToken) : Ordering :=
  (Ord.compare a.code b.code).then (compareRuns a.digits b.digits)

instance : TransCmp NameToken.compare :=
  have := transCmp_on NameToken.digits compareRuns
  inferInstanceAs (TransCmp (compareLex (compareOn NameToken.code)
    fun a b => compareRuns a.digits b.digits))

/-- The tokens of a name, up to its end or the first character of code 0. -/
def nameTokens : Text → List NameToken
  | [] => []
  | c :: cs =>
    if startsNumber c then
      ⟨collationCode '1', c :: cs.takeWhile isDigit⟩ :: nameTokens (cs.dropWhile isDigit)
    else if collationCode c = 0 then []
    else ⟨collationCode c, []⟩ :: nameTokens cs
termination_by name => name.length
decreasing_by
  · have := length_dropWhile_le isDigit cs
    simp only [List.length_cons]
    omega
  · simp

/-- The codes of the digits from 1 to 9 are no other character's. -/
theorem startsNumber_iff (c : Char) :
    startsNumber c = true ↔ 67 ≤ collationCode c ∧ collationCode c ≤ 75 := by
  have h : startsNumber c = true ↔ 49 ≤ c.toNat ∧ c.toNat ≤ 57 := by
    simp only [startsNumber, decide_eq_true_eq, Char.le_def, UInt32.le_iff_toNat_le]
    rfl
  rw [h]
  unfold collationCode
  grind

theorem nameTokens_number {c : Char} (cs : Text) (h : startsNumber c = true) :
    nameTokens (c :: cs) =
      ⟨67, c :: cs.takeWhile isDigit⟩ :: nameTokens (cs.dropWhile isDigit) := by
  rw [nameTokens, if_pos h]
  rfl

theorem nameTokens_zero {c : Char} (cs : Text) (h : collationCode c = 0) :
    nameTokens (c :: cs) = [] := by
  have hn : ¬ startsNumber c = true := by
    rw [startsNumber_iff]
    omega
  rw [nameTokens, if_neg hn, if_pos h]

theorem nameTokens_char {c : Char} (cs : Text) (hn : ¬ startsNumber c = true)
    (h : collationCode c ≠ 0) :
    nameTokens (c :: cs) = ⟨collationCode c, []⟩ :: nameTokens cs := by
  rw [nameTokens, if_neg hn, if_neg h]

/-- A name of which something is read starts with a token, whose code is that of the first character
unless it is a number. -/
theorem exists_nameTokens_cons {c : Char} (cs : Text) (h : collationCode c ≠ 0) :
    ∃ token tokens, nameTokens (c :: cs) = token :: tokens ∧
      token.code = if startsNumber c then 67 else collationCode c := by
  by_cases hn : startsNumber c = true
  · exact ⟨_, _, nameTokens_number cs hn, by rw [if_pos hn]⟩
  · exact ⟨_, _, nameTokens_char cs hn h, by rw [if_neg hn]⟩

theorem then_of_ne_eq {first : Ordering} (h : first ≠ .eq) (second : Ordering) :
    first.then second = first := by
  cases first with
  | lt => rfl
  | eq => exact absurd rfl h
  | gt => rfl

/-- Codes that differ decide, unless both are the codes of a number's first digit. -/
theorem compareLex_nameTokens_of_ne {c d : Char} (cs ds : Text)
    (hn : ¬ (startsNumber c = true ∧ startsNumber d = true))
    (hne : collationCode c ≠ collationCode d) :
    List.compareLex NameToken.compare (nameTokens (c :: cs)) (nameTokens (d :: ds)) =
      compare (collationCode c) (collationCode d) := by
  rw [startsNumber_iff, startsNumber_iff] at hn
  by_cases hc : collationCode c = 0
  · have hd : collationCode d ≠ 0 := by omega
    obtain ⟨token, tokens, htokens, -⟩ := exists_nameTokens_cons ds hd
    rw [nameTokens_zero cs hc, htokens, List.compareLex_nil_cons, hc,
      Nat.compare_eq_lt.mpr (by omega)]
  obtain ⟨token, tokens, htokens, hcode⟩ := exists_nameTokens_cons cs hc
  by_cases hd : collationCode d = 0
  · rw [nameTokens_zero ds hd, htokens, List.compareLex_cons_nil, hd,
      Nat.compare_eq_gt.mpr (by omega)]
  obtain ⟨token', tokens', htokens', hcode'⟩ := exists_nameTokens_cons ds hd
  -- one of the two may be a number: its code 67 is on the same side of the other's code
  have hside : compare token.code token'.code =
      compare (collationCode c) (collationCode d) := by
    rw [hcode, hcode']
    simp only [startsNumber_iff]
    rcases Nat.lt_or_gt_of_ne hne with hlt | hgt
    · rw [Nat.compare_eq_lt.mpr hlt]
      exact Nat.compare_eq_lt.mpr (by split <;> split <;> omega)
    · rw [Nat.compare_eq_gt.mpr hgt]
      exact Nat.compare_eq_gt.mpr (by split <;> split <;> omega)
  have hdecided : compare (collationCode c) (collationCode d) ≠ .eq :=
    fun h => hne (Nat.compare_eq_eq.mp h)
  rw [htokens, htokens', List.compareLex_cons_cons, NameToken.compare, hside,
    then_of_ne_eq hdecided, then_of_ne_eq hdecided]

/-- **The natural order compares the tokens of the two names one by one.** -/
theorem naturalCompare_eq_compareLex (a b : Text) :
    naturalCompare a b = List.compareLex NameToken.compare (nameTokens a) (nameTokens b) := by
  fun_induction naturalCompare a b with
  | case1 => simp only [nameTokens, List.compareLex_nil_nil]
  | case2 d ds =>
    rw [nameTokens]
    by_cases hd : collationCode d = 0
    · rw [nameTokens_zero ds hd, hd, List.compareLex_nil_nil]
      rfl
    · obtain ⟨token, tokens, htokens, -⟩ := exists_nameTokens_cons ds hd
      rw [htokens, List.compareLex_nil_cons, Nat.compare_eq_lt.mpr (by omega)]
  | case3 c cs =>
    rw [nameTokens.eq_def []]
    by_cases hc : collationCode c = 0
    · rw [nameTokens_zero cs hc, hc, List.compareLex_nil_nil]
      rfl
    · obtain ⟨token, tokens, htokens, -⟩ := exists_nameTokens_cons cs hc
      rw [htokens, List.compareLex_cons_nil, Nat.compare_eq_gt.mpr (by omega)]
  | case4 c cs d ds h heq ih =>
    -- two numbers of one value
    rw [Bool.and_eq_true] at h
    rw [nameTokens_number cs h.1, nameTokens_number ds h.2, List.compareLex_cons_cons,
      NameToken.compare, heq, ih]
    rfl
  | case5 c cs d ds h hne =>
    -- two numbers that differ
    rw [Bool.and_eq_true] at h
    rw [nameTokens_number cs h.1, nameTokens_number ds h.2, List.compareLex_cons_cons,
      NameToken.compare]
    exact (then_of_ne_eq hne _).symm
  | case6 c cs d ds h heq hd =>
    have hc : collationCode c = 0 := (Nat.compare_eq_eq.mp heq).trans hd
    rw [nameTokens_zero cs hc, nameTokens_zero ds hd, List.compareLex_nil_nil]
  | case7 c cs d ds h heq hd ih =>
    -- one character of two: it starts no number, or both would
    have hcode : collationCode c = collationCode d := Nat.compare_eq_eq.mp heq
    have hstarts : startsNumber c = startsNumber d := by
      rw [Bool.eq_iff_iff, startsNumber_iff, startsNumber_iff, hcode]
    rw [hstarts, Bool.and_self] at h
    rw [nameTokens_char cs (by rwa [hstarts]) (by rwa [hcode]), nameTokens_char ds h hd,
      List.compareLex_cons_cons, NameToken.compare, heq, ih]
    rfl
  | case8 c cs d ds h hne =>
    rw [Bool.and_eq_true] at h
    exact (compareLex_nameTokens_of_ne cs ds h fun hcode => hne (Nat.compare_eq_eq.mpr hcode)).symm

instance : TransCmp naturalCompare := by
  have h : naturalCompare = fun a b =>
      List.compareLex NameToken.compare (nameTokens a) (nameTokens b) :=
    funext fun a => funext fun b => naturalCompare_eq_compareLex a b
  rw [h]
  exact transCmp_on nameTokens _

/-! ## Weight, case and direction -/

instance (natural : Bool) : TransCmp (compareWeighted natural) := by
  have : TransCmp fun a b : Text => compare (nameWeight b) (nameWeight a) :=
    transCmp_on nameWeight fun m n => compare n m
  cases natural with
  | false =>
    exact inferInstanceAs (TransCmp (compareLex
      (fun a b => compare (nameWeight b) (nameWeight a)) compareChars))
  | true =>
    exact inferInstanceAs (TransCmp (compareLex
      (fun a b => compare (nameWeight b) (nameWeight a)) naturalCompare))

theorem transCmp_compareAscending (fold : Text → Text) (options : SortOptions) :
    TransCmp (compareNamesFolding fold { options with direction := .ascending }) := by
  by_cases h : options.caseSensitive = true
  · have heq : compareNamesFolding fold { options with direction := .ascending } =
        compareWeighted options.natural := by
      funext a b
      simp only [compareNamesFolding, h, if_true]
    rw [heq]
    infer_instance
  · have heq : compareNamesFolding fold { options with direction := .ascending } =
        fun a b => compareWeighted options.natural (fold a) (fold b) := by
      funext a b
      simp only [compareNamesFolding, if_neg h]
    rw [heq]
    exact transCmp_on fold _

instance (fold : Text → Text) (options : SortOptions) :
    TransCmp (compareNamesFolding fold options) := by
  have hascending := transCmp_compareAscending fold options
  obtain ⟨direction, caseSensitive, natural, requiredFirst⟩ := options
  cases direction with
  | ascending => exact hascending
  | descending =>
    exact inferInstanceAs (TransCmp fun a b =>
      compareNamesFolding fold ⟨.ascending, caseSensitive, natural, requiredFirst⟩ b a)

/-- **The order of names is a total preorder under all options and every folding of case**, and the
descending order is the ascending one with the two names exchanged. -/
theorem compareNamesFolding_total_preorder (fold : Text → Text) (options : SortOptions) :
    (∀ a, compareNamesFolding fold options a a = .eq) ∧
    (∀ a b, compareNamesFolding fold options a b =
      (compareNamesFolding fold options b a).swap) ∧
    (∀ a b c, compareNamesFolding fold options a b ≠ .gt →
      compareNamesFolding fold options b c ≠ .gt → compareNamesFolding fold options a c ≠ .gt) ∧
    ∀ a b, compareNamesFolding fold { options with direction := .descending } a b =
      compareNamesFolding fold { options with direction := .ascending } b a := by
  refine ⟨fun a => ReflCmp.compare_self, fun a b => OrientedCmp.eq_swap, ?_, fun a b => rfl⟩
  intro a b c hab hbc
  have hac := TransCmp.isLE_trans (Ordering.isLE_iff_ne_gt.mpr hab)
    (Ordering.isLE_iff_ne_gt.mpr hbc)
  exact Ordering.isLE_iff_ne_gt.mp hac

/-- An index signature, a number and a longer number. -/
theorem compareNamesFolding_numbers :
    let order := compareNamesFolding Text.toLower { caseSensitive := false, natural := true }
    order "[Index: k]".toList "A2".toList ≠ .gt ∧ order "A2".toList "a11".toList ≠ .gt ∧
      order "[Index: k]".toList "a11".toList ≠ .gt := by
  have hfirst : compareNamesFolding Text.toLower { caseSensitive := false, natural := true }
      "[Index: k]".toList "A2".toList ≠ .gt := by decide +kernel
  have hsecond : compareNamesFolding Text.toLower { caseSensitive := false, natural := true }
      "A2".toList "a11".toList ≠ .gt := by decide +kernel
  exact ⟨hfirst, hsecond, (compareNamesFolding_total_preorder _ _).2.2.1 _ _ _ hfirst hsecond⟩

end KeyOrder
