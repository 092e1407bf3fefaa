import KeyOrder.Proofs.Order.TotalPreorder
import Mathlib.Algebra.Group.Nat.Defs
import Mathlib.Data.List.TakeWhile

/-!
# What the natural order compares

A name is read up to its end or its first `U+0000` (`readable`) and falls into lexemes: at a digit
from 1 to 9 a whole number, everywhere else one character. **The natural order is the lexicographic
order of lexemes**, in which two numbers are compared by value and all else by the collation code of
the first character. Values have no bound: that the longer of two runs of digits is the greater one,
and that runs of one length compare digit by digit, is all that is used of them.

Two names are equal in this order only if what is read of them is the same text, since no two
characters share a collation code and no number starts with a zero.
-/

namespace KeyOrder

open Std

/-! ## Lexemes of a name -/

/-- A whole number in a name: a digit from 1 to 9 and the digits behind it. -/
structure Numeral where
  first : Char
  rest : Text
  starts : startsNumber first = true
  digits : ∀ c ∈ rest, isDigit c = true

namespace Numeral

/-- The digits of a number. -/
def text (numeral : Numeral) : Text := numeral.first :: numeral.rest

/-- The value of a number in decimal notation. -/
def value (numeral : Numeral) : Nat := Nat.ofDigitChars 10 numeral.text 0

end Numeral

/-- What a name is made of: whole numbers, and characters that start none. -/
inductive Lexeme where
  | number (numeral : Numeral)
  | character (c : Char) (other : startsNumber c = false)

namespace Lexeme

/-- The first character of a lexeme. -/
def first : Lexeme → Char
  | .number numeral => numeral.first
  | .character c _ => c

/-- The text of a lexeme. -/
def text : Lexeme → Text
  | .number numeral => numeral.text
  | .character c _ => [c]

/-- Order of two lexemes: two numbers by value, and all else by the collation code of the first
character. -/
def compare : Lexeme → Lexeme → Ordering
  | .number a, .number b => Ord.compare a.value b.value
  | a, b => Ord.compare (collationCode a.first) (collationCode b.first)

end Lexeme

/-- What is read of a name: everything in front of its first `U+0000`. -/
def readable (name : Text) : Text := name.takeWhile (· != '\x00')

/-- The lexemes of a text from left to right. -/
def lexemes : Text → List Lexeme
  | [] => []
  | c :: cs =>
    if h : startsNumber c = true then
      .number ⟨c, cs.takeWhile isDigit, h, fun _ hc => List.mem_takeWhile_imp hc⟩
        :: lexemes (cs.dropWhile isDigit)
    else
      .character c (eq_false_of_ne_true h) :: lexemes cs
termination_by text => text.length
decreasing_by
  · have := length_dropWhile_le isDigit cs
    simp only [List.length_cons]
    omega
  · simp

/-! ## Numbers by value -/

theorem isDigit_iff (c : Char) : isDigit c = true ↔ 48 ≤ c.toNat ∧ c.toNat ≤ 57 := by
  simp only [isDigit, decide_eq_true_eq, Char.le_def, UInt32.le_iff_toNat_le]
  rfl

theorem startsNumber_iff_toNat (c : Char) :
    startsNumber c = true ↔ 49 ≤ c.toNat ∧ c.toNat ≤ 57 := by
  simp only [startsNumber, decide_eq_true_eq, Char.le_def, UInt32.le_iff_toNat_le]
  rfl

/-- The first digit counts as many times as the power of ten of the digits behind it. -/
theorem ofDigitChars_cons_zero (c : Char) (cs : Text) : Nat.ofDigitChars 10 (c :: cs) 0 =
    10 ^ cs.length * (c.toNat - 48) + Nat.ofDigitChars 10 cs 0 := by
  rw [Nat.ofDigitChars_cons, Nat.ofDigitChars_eq_ofDigitChars_zero]
  simp

theorem ofDigitChars_lt {digits : Text} (h : ∀ c ∈ digits, isDigit c = true) :
    Nat.ofDigitChars 10 digits 0 < 10 ^ digits.length := by
  induction digits with
  | nil => simp
  | cons c cs ih =>
      rw [List.forall_mem_cons, isDigit_iff] at h
      have hrest := ih h.2
      have hdigit : 10 ^ cs.length * (c.toNat - 48) ≤ 10 ^ cs.length * 9 :=
        Nat.mul_le_mul_left _ (by omega)
      rw [ofDigitChars_cons_zero, List.length_cons, Nat.pow_succ]
      omega

/-- **Runs of digits of one length compare as their values.** -/
theorem compareChars_eq_compare_value {a b : Text} (hlength : a.length = b.length)
    (ha : ∀ c ∈ a, isDigit c = true) (hb : ∀ c ∈ b, isDigit c = true) :
    compareChars a b = compare (Nat.ofDigitChars 10 a 0) (Nat.ofDigitChars 10 b 0) := by
  fun_induction compareChars a b with
  | case1 => rfl
  | case2 => simp at hlength
  | case3 => simp at hlength
  | case4 c cs d ds ih =>
      rw [List.forall_mem_cons, isDigit_iff] at ha hb
      have hlength : cs.length = ds.length := by simpa using hlength
      have hcs := ofDigitChars_lt ha.2
      have hds := ofDigitChars_lt hb.2
      rw [ih hlength ha.2 hb.2, ofDigitChars_cons_zero, ofDigitChars_cons_zero, ← hlength]
      rw [← hlength] at hds
      -- the first digits decide unless they are equal
      rcases Nat.lt_trichotomy c.toNat d.toNat with hlt | heq | hgt
      · have hdigit := Nat.mul_le_mul_left (10 ^ cs.length)
          (show c.toNat - 48 + 1 ≤ d.toNat - 48 by omega)
        rw [Nat.mul_add] at hdigit
        rw [Nat.compare_eq_lt.mpr hlt]
        exact (Nat.compare_eq_lt.mpr (by omega)).symm
      · rw [Nat.compare_eq_eq.mpr heq, heq]
        simp only [Nat.compare_eq_ite_lt, Nat.add_lt_add_iff_left]
        rfl
      · have hdigit := Nat.mul_le_mul_left (10 ^ cs.length)
          (show d.toNat - 48 + 1 ≤ c.toNat - 48 by omega)
        rw [Nat.mul_add] at hdigit
        rw [Nat.compare_eq_gt.mpr hgt]
        exact (Nat.compare_eq_gt.mpr (by omega)).symm

namespace Numeral

theorem isDigit_of_mem_text (numeral : Numeral) : ∀ c ∈ numeral.text, isDigit c = true := by
  have hfirst : isDigit numeral.first = true := by
    have := (startsNumber_iff_toNat _).mp numeral.starts
    rw [isDigit_iff]
    omega
  exact List.forall_mem_cons.mpr ⟨hfirst, numeral.digits⟩

/-- Without a leading zero a number is at least the power of ten of its length. -/
theorem pow_le_value (numeral : Numeral) : 10 ^ numeral.rest.length ≤ numeral.value := by
  have hfirst := (startsNumber_iff_toNat _).mp numeral.starts
  have hdigit := Nat.mul_le_mul_left (10 ^ numeral.rest.length)
    (show 1 ≤ numeral.first.toNat - 48 by omega)
  rw [value, text, ofDigitChars_cons_zero]
  omega

/-- The longer of two numbers is the greater one. -/
theorem value_lt_of_length_lt {a b : Numeral} (h : a.text.length < b.text.length) :
    a.value < b.value := by
  have hless := ofDigitChars_lt a.isDigit_of_mem_text
  have hpow : 10 ^ a.text.length ≤ 10 ^ b.rest.length := by
    refine Nat.pow_le_pow_right (by omega) ?_
    rw [text, text, List.length_cons, List.length_cons] at h
    rw [text, List.length_cons]
    omega
  exact Nat.lt_of_lt_of_le hless (Nat.le_trans hpow b.pow_le_value)

/-- **Comparing two numbers as runs of digits is comparing their values**, however long they are. -/
theorem compareRuns_text (a b : Numeral) :
    compareRuns a.text b.text = compare a.value b.value := by
  unfold compareRuns
  rcases Nat.lt_trichotomy a.text.length b.text.length with hlt | heq | hgt
  · rw [Nat.compare_eq_lt.mpr hlt, Nat.compare_eq_lt.mpr (value_lt_of_length_lt hlt)]
    rfl
  · rw [Nat.compare_eq_eq.mpr heq,
      compareChars_eq_compare_value heq a.isDigit_of_mem_text b.isDigit_of_mem_text]
    rfl
  · rw [Nat.compare_eq_gt.mpr hgt, Nat.compare_eq_gt.mpr (value_lt_of_length_lt hgt)]
    rfl

end Numeral

/-! ## The order of lexemes is the natural order -/

/-- The code point of a character with a given collation code. -/
def codePointOf (code : Nat) : Nat :=
  if code ≤ 44 then code
  else if code ≤ 46 then code + 1
  else if code ≤ 53 then code + 11
  else if code ≤ 59 then code + 37
  else if code ≤ 64 then code + 63
  else if code = 65 then 45
  else if code ≤ 75 then code - 18
  else if code ≤ 101 then code - 11
  else if code ≤ 127 then code - 5
  else code

theorem codePointOf_collationCode (c : Char) : codePointOf (collationCode c) = c.toNat := by
  unfold collationCode
  dsimp only
  -- one case for each range of the table
  repeat' split
  all_goals
    unfold codePointOf
    grind

/-- **No two characters share a collation code.** -/
theorem collationCode_injective : Function.Injective collationCode := by
  intro c d h
  rw [← Char.toNat_inj, ← codePointOf_collationCode, h, codePointOf_collationCode]

theorem collationCode_eq_zero_iff (c : Char) : collationCode c = 0 ↔ c = '\x00' := by
  have hzero : collationCode '\x00' = 0 := rfl
  rw [← hzero, collationCode_injective.eq_iff]

/-- A lexeme as the natural order reads it. -/
def Lexeme.token : Lexeme → NameToken
  | .number numeral => ⟨67, numeral.text⟩
  | .character c _ => ⟨collationCode c, []⟩

/-- Lexemes are ordered as they are read: a number met by a character is decided by the code of its
first digit, or by that of the digit 1 in its place. -/
theorem Lexeme.compare_token (a b : Lexeme) : NameToken.compare a.token b.token = a.compare b := by
  cases a with
  | number a =>
      have ha := (startsNumber_iff _).mp a.starts
      cases b with
      | number b => exact a.compareRuns_text b
      | character d hd =>
          have hd := (not_congr (startsNumber_iff d)).mp (ne_true_of_eq_false hd)
          show (Ord.compare 67 (collationCode d)).then _
            = Ord.compare (collationCode a.first) (collationCode d)
          rcases Nat.lt_or_gt_of_ne (show collationCode d ≠ 67 by omega) with hlt | hgt
          · rw [Nat.compare_eq_gt.mpr hlt, Nat.compare_eq_gt.mpr (by omega)]
            rfl
          · rw [Nat.compare_eq_lt.mpr hgt, Nat.compare_eq_lt.mpr (by omega)]
            rfl
  | character c hc =>
      have hc := (not_congr (startsNumber_iff c)).mp (ne_true_of_eq_false hc)
      cases b with
      | number b =>
          have hb := (startsNumber_iff _).mp b.starts
          show (Ord.compare (collationCode c) 67).then _
            = Ord.compare (collationCode c) (collationCode b.first)
          rcases Nat.lt_or_gt_of_ne (show collationCode c ≠ 67 by omega) with hlt | hgt
          · rw [Nat.compare_eq_lt.mpr hlt, Nat.compare_eq_lt.mpr (by omega)]
            rfl
          · rw [Nat.compare_eq_gt.mpr hgt, Nat.compare_eq_gt.mpr (by omega)]
            rfl
      | character d hd =>
          show (Ord.compare (collationCode c) (collationCode d)).then .eq = _
          rw [Ordering.then_eq]
          rfl

/-- A run of characters that are read does not reach beyond what is read. -/
theorem takeWhile_readable {p : Char → Bool} (hp : p '\x00' = false) (name : Text) :
    (readable name).takeWhile p = name.takeWhile p
      ∧ (readable name).dropWhile p = readable (name.dropWhile p) := by
  induction name with
  | nil => exact ⟨rfl, rfl⟩
  | cons c cs ih =>
      by_cases hc : c = '\x00'
      · subst hc
        simp [readable, hp]
      · have hcons : readable (c :: cs) = c :: readable cs := by simp [readable, hc]
        rw [hcons]
        by_cases hpc : p c = true
        · simp [hpc, ih]
        · simp [hpc, hcons]

/-- What is read of a name, lexeme by lexeme. -/
theorem nameTokens_eq (name : Text) :
    nameTokens name = (lexemes (readable name)).map Lexeme.token := by
  fun_induction nameTokens name with
  | case1 => rw [readable, List.takeWhile_nil, lexemes, List.map_nil]
  | case2 c cs hstarts ih =>
      have hne : c ≠ '\x00' := by
        rintro rfl
        exact absurd hstarts (by decide)
      have hcons : readable (c :: cs) = c :: readable cs := by simp [readable, hne]
      have hrun := @takeWhile_readable isDigit rfl cs
      rw [hcons, lexemes, dif_pos hstarts, List.map_cons, hrun.2, ← ih]
      simp only [Lexeme.token, Numeral.text, hrun.1]
      rfl
  | case3 c cs hstarts hzero =>
      rw [(collationCode_eq_zero_iff c).mp hzero, readable, List.takeWhile_cons_of_neg (by decide),
        lexemes, List.map_nil]
  | case4 c cs hstarts hzero ih =>
      have hne := (not_congr (collationCode_eq_zero_iff c)).mp hzero
      have hcons : readable (c :: cs) = c :: readable cs := by simp [readable, hne]
      rw [hcons, lexemes, dif_neg hstarts, List.map_cons, ← ih]
      rfl

theorem compareLex_map {α β : Type} (f : α → β) (cmp : β → β → Ordering) (as bs : List α) :
    List.compareLex cmp (as.map f) (bs.map f) =
      List.compareLex (fun a b => cmp (f a) (f b)) as bs := by
  induction as generalizing bs with
  | nil => cases bs <;> rfl
  | cons a as ih =>
      cases bs with
      | nil => rfl
      | cons b bs => simp only [List.map_cons, List.compareLex_cons_cons, ih]

/-- **The natural order is the lexicographic order of lexemes.** -/
theorem naturalCompare_eq_lexemes (a b : Text) : naturalCompare a b =
    List.compareLex Lexeme.compare (lexemes (readable a)) (lexemes (readable b)) := by
  rw [naturalCompare_eq_compareLex, nameTokens_eq, nameTokens_eq, compareLex_map]
  simp only [Lexeme.compare_token]

/-! ## Names that are equal -/

/-- The lexemes of a text are the text. -/
theorem flatMap_text_lexemes (text : Text) : (lexemes text).flatMap Lexeme.text = text := by
  fun_induction lexemes text with
  | case1 => rfl
  | case2 c cs hstarts ih =>
      simp only [List.flatMap_cons, ih, Lexeme.text, Numeral.text, List.cons_append,
        List.takeWhile_append_dropWhile]
  | case3 c cs hstarts ih => simp only [List.flatMap_cons, ih, Lexeme.text, List.singleton_append]

instance : LawfulEqCmp compareChars where
  compare_self := ReflCmp.compare_self
  eq_of_compare {a b} h := by
    fun_induction compareChars a b with
    | case1 => rfl
    | case2 => cases h
    | case3 => cases h
    | case4 c cs d ds ih =>
        rw [Ordering.then_eq_eq, Nat.compare_eq_eq, Char.toNat_inj] at h
        rw [h.1, ih h.2]

/-- Lexemes that are equal in order have the same text. -/
theorem Lexeme.text_eq_of_compare {a b : Lexeme} (h : a.compare b = .eq) : a.text = b.text := by
  cases a with
  | number a =>
      cases b with
      | number b =>
          have hruns : compareRuns a.text b.text = .eq := (a.compareRuns_text b).trans h
          rw [compareRuns, Ordering.then_eq_eq] at hruns
          exact LawfulEqCmp.eq_of_compare hruns.2
      | character d hd =>
          obtain rfl : a.first = d := collationCode_injective (Nat.compare_eq_eq.mp h)
          exact absurd a.starts (ne_true_of_eq_false hd)
  | character c hc =>
      cases b with
      | number b =>
          obtain rfl : c = b.first := collationCode_injective (Nat.compare_eq_eq.mp h)
          exact absurd b.starts (ne_true_of_eq_false hc)
      | character d hd =>
          obtain rfl : c = d := collationCode_injective (Nat.compare_eq_eq.mp h)
          rfl

theorem flatMap_text_eq_of_compareLex {as bs : List Lexeme}
    (h : List.compareLex Lexeme.compare as bs = .eq) :
    as.flatMap Lexeme.text = bs.flatMap Lexeme.text := by
  induction as generalizing bs with
  | nil =>
      cases bs with
      | nil => rfl
      | cons b bs => cases h
  | cons a as ih =>
      cases bs with
      | nil => cases h
      | cons b bs =>
          rw [List.compareLex_cons_cons, Ordering.then_eq_eq] at h
          rw [List.flatMap_cons, List.flatMap_cons, Lexeme.text_eq_of_compare h.1, ih h.2]

/-- **Two names are equal exactly if what is read of them is.** -/
theorem naturalCompare_eq_eq_iff (a b : Text) :
    naturalCompare a b = .eq ↔ readable a = readable b := by
  rw [naturalCompare_eq_lexemes]
  constructor
  · intro h
    have htext := flatMap_text_eq_of_compareLex h
    rwa [flatMap_text_lexemes, flatMap_text_lexemes] at htext
  · intro h
    rw [h, ← naturalCompare_eq_lexemes]
    exact ReflCmp.compare_self

/-! ## Codes in words of 32 bits -/

/-- The collation code of a character computed in words of 32 bits, in which sums and differences
wrap around. -/
def collationWord (c : Char) : UInt32 :=
  let code := c.val
  if code ≤ 44 then code
  else if code = 45 then 65
  else if code ≤ 47 then code - 1
  else if code ≤ 57 then code + 18
  else if code ≤ 64 then code - 11
  else if code ≤ 90 then code + 11
  else if code ≤ 96 then code - 37
  else if code ≤ 122 then code + 5
  else if code ≤ 127 then code - 63
  else code

theorem toNat_ite {p q : Prop} [Decidable p] [Decidable q] {a b : UInt32} {m n : Nat} (h : p ↔ q)
    (ha : q → a.toNat = m) (hb : ¬ q → b.toNat = n) :
    (if p then a else b).toNat = if q then m else n := by
  by_cases hq : q
  · rw [if_pos (h.mpr hq), if_pos hq, ha hq]
  · rw [if_neg (mt h.mp hq), if_neg hq, hb hq]

/-- **No collation code overflows**: words of 32 bits give the same code. -/
theorem toNat_collationWord (c : Char) : (collationWord c).toNat = collationCode c := by
  have hsum : ∀ n : UInt32, c.toNat ≤ 127 → n.toNat ≤ 127 →
      (c.val + n).toNat = c.toNat + n.toNat := by
    intro n hc hn
    have hval : c.val.toNat = c.toNat := rfl
    rw [UInt32.toNat_add, hval, Nat.mod_eq_of_lt (by omega)]
  have hdifference : ∀ n : UInt32, n.toNat ≤ c.toNat →
      (c.val - n).toNat = c.toNat - n.toNat :=
    fun n hn => UInt32.toNat_sub_of_le _ _ (UInt32.le_iff_toNat_le.mpr hn)
  unfold collationWord collationCode
  refine toNat_ite UInt32.le_iff_toNat_le (fun _ => rfl) fun h44 => ?_
  refine toNat_ite UInt32.toNat_inj.symm (fun _ => rfl) fun h45 => ?_
  refine toNat_ite UInt32.le_iff_toNat_le
    (fun _ => hdifference 1 (show 1 ≤ c.toNat by omega)) fun h47 => ?_
  refine toNat_ite UInt32.le_iff_toNat_le
    (fun _ => hsum 18 (by omega) (by decide)) fun h57 => ?_
  refine toNat_ite UInt32.le_iff_toNat_le
    (fun _ => hdifference 11 (show 11 ≤ c.toNat by omega)) fun h64 => ?_
  refine toNat_ite UInt32.le_iff_toNat_le
    (fun _ => hsum 11 (by omega) (by decide)) fun h90 => ?_
  refine toNat_ite UInt32.le_iff_toNat_le
    (fun _ => hdifference 37 (show 37 ≤ c.toNat by omega)) fun h96 => ?_
  refine toNat_ite UInt32.le_iff_toNat_le
    (fun _ => hsum 5 (by omega) (by decide)) fun h122 => ?_
  exact toNat_ite UInt32.le_iff_toNat_le
    (fun _ => hdifference 63 (show 63 ≤ c.toNat by omega)) fun _ => rfl

/-- **The natural order of two names is the lexicographic order of what they are made of.** A name
is read up to its first `U+0000`; there, numbers are compared by value, however long they are, and
all else by collation code, which words of 32 bits hold. Two names are equal exactly if what is read
of them is the same. -/
theorem naturalCompare_refines (a b : Text) :
    naturalCompare a b =
        List.compareLex Lexeme.compare (lexemes (readable a)) (lexemes (readable b))
      ∧ (naturalCompare a b = .eq ↔ readable a = readable b)
      ∧ ∀ c, (collationWord c).toNat = collationCode c :=
  ⟨naturalCompare_eq_lexemes a b, naturalCompare_eq_eq_iff a b, toNat_collationWord⟩

end KeyOrder
