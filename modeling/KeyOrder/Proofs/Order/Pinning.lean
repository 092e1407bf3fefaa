import KeyOrder.Proofs.Order.Specification

/-!
# Index signatures stand apart

A name that stands for an index signature is the heavier one, and weight is compared before anything
else. So **the index signatures of a partition stand together in sorted order**: in front of all
other named members if the order is ascending, and behind them if it is descending. That the weight
is looked up after folding case does no harm, since the name that is made up for a parameter stands
for an index signature in lower case as well.
-/

namespace KeyOrder

open Std

/-! ## The pattern -/

/-- **The pattern of index signatures**: brackets around the word `index`, a colon, a space and at
least one character of one line. What follows the closing bracket is of no account. -/
def IndexPattern (name : Text) : Prop :=
  ∃ inner behind, name = "[index: ".toList ++ (inner ++ ']' :: behind) ∧ inner ≠ [] ∧ '\n' ∉ inner

/-- Whether a closing bracket stands behind the first character and on the same line. -/
theorem contains_bracket_iff (text : Text) :
    ((text.takeWhile (· != '\n')).drop 1).contains ']' = true
      ↔ ∃ inner behind, text = inner ++ ']' :: behind ∧ inner ≠ [] ∧ '\n' ∉ inner := by
  rw [List.contains_iff_mem]
  constructor
  · intro hmem
    obtain ⟨middle, later, hdrop⟩ := List.append_of_mem hmem
    have hline := List.takeWhile_append_dropWhile (p := (· != '\n')) (l := text)
    have hfree : ∀ c ∈ text.takeWhile (· != '\n'), c ≠ '\n' := fun c hc => by
      simpa using List.all_eq_true.mp List.all_takeWhile c hc
    cases hfirst : text.takeWhile (· != '\n') with
    | nil => simp [hfirst] at hdrop
    | cons first rest =>
        rw [hfirst] at hdrop hline hfree
        simp only [List.drop_succ_cons, List.drop_zero] at hdrop
        subst hdrop
        refine ⟨first :: middle, later ++ text.dropWhile (· != '\n'), ?_, by simp, ?_⟩
        · simpa using hline.symm
        · exact fun hfeed => hfree '\n' (by simpa using (List.mem_cons.mp hfeed).imp_right .inl) rfl
  · rintro ⟨inner, behind, rfl, hne, hfree⟩
    have hinner : ∀ c ∈ inner, (c != '\n') = true := fun c hc => by
      simpa using fun heq : c = '\n' => hfree (heq ▸ hc)
    obtain ⟨first, rest, rfl⟩ := List.exists_cons_of_ne_nil hne
    rw [List.takeWhile_append_of_pos hinner]
    simp

theorem standsForIndex_iff (name : Text) : standsForIndex name = true ↔ IndexPattern name := by
  simp only [standsForIndex, Bool.and_eq_true, contains_bracket_iff, List.isPrefixOf_iff_prefix]
  constructor
  · rintro ⟨⟨rest, rfl⟩, inner, behind, hrest, hne, hfree⟩
    rw [List.drop_left] at hrest
    exact ⟨inner, behind, by rw [hrest], hne, hfree⟩
  · rintro ⟨inner, behind, rfl, hne, hfree⟩
    exact ⟨List.prefix_append _ _, inner, behind, List.drop_left, hne, hfree⟩

instance (name : Text) : Decidable (IndexPattern name) :=
  decidable_of_iff _ (standsForIndex_iff name)

theorem nameWeight_of_pattern {name : Text} (h : IndexPattern name) : nameWeight name = 100 := by
  rw [nameWeight, if_pos ((standsForIndex_iff name).mpr h)]

theorem nameWeight_of_not_pattern {name : Text} (h : ¬ IndexPattern name) : nameWeight name = 0 := by
  rw [nameWeight, if_neg fun hstands => h ((standsForIndex_iff name).mp hstands)]

/-! ## The order of names -/

/-- A name that stands in front of one of the pattern is of the pattern as well. -/
theorem pattern_of_compareWeighted {natural : Bool} {a b : Text}
    (h : compareWeighted natural a b ≠ .gt) (hb : IndexPattern b) : IndexPattern a := by
  by_contra ha
  refine h ?_
  rw [compareWeighted, nameWeight_of_pattern hb, nameWeight_of_not_pattern ha]
  rfl

namespace SortOptions

/-- A name as it is compared: in lower case unless case counts. -/
def compared (options : SortOptions) (name : String) : Text :=
  if options.caseSensitive then name.toList else Text.toLower name.toList

/-- Whether the member at an index has a name that stands for an index signature. -/
def Pinned (options : SortOptions) (members : List Member) (index : Nat) : Prop :=
  ∃ name, Plan.nameAt members index = some name ∧ IndexPattern (options.compared name)

instance (options : SortOptions) (members : List Member) (index : Nat) :
    Decidable (options.Pinned members index) :=
  decidable_of_iff ((Plan.nameAt members index).any fun name => IndexPattern (options.compared name))
    (by simp [Pinned, Option.any_eq_true])

variable {options : SortOptions} {members : List Member}

/-- In ascending order names are compared as they stand, in descending order exchanged. -/
theorem compareNames_eq (a b : String) :
    options.compareNames a b = match options.direction with
      | .ascending => compareWeighted options.natural (options.compared a) (options.compared b)
      | .descending => compareWeighted options.natural (options.compared b) (options.compared a) := by
  obtain ⟨direction, caseSensitive, natural, requiredFirst⟩ := options
  cases direction <;> cases caseSensitive <;> rfl

/-- **What stands in front of what**: in ascending order an index signature has only index
signatures in front of it, in descending order only index signatures behind it. -/
theorem pinned_of_compare {a b : Nat} (ha : Plan.namedAt members a = true)
    (hb : Plan.namedAt members b = true)
    (h : options.compare (Plan.nameAt members a) (Plan.nameAt members b) ≠ .gt) :
    match options.direction with
    | .ascending => options.Pinned members b → options.Pinned members a
    | .descending => options.Pinned members a → options.Pinned members b := by
  obtain ⟨x, hx⟩ := Option.isSome_iff_exists.mp ha
  obtain ⟨y, hy⟩ := Option.isSome_iff_exists.mp hb
  have hnames : options.compareNames x y ≠ .gt := by
    rw [hx, hy] at h
    exact h
  rw [compareNames_eq] at hnames
  split at hnames
  · rintro ⟨name, hname, hpattern⟩
    rw [hy] at hname
    cases hname
    exact ⟨x, hx, pattern_of_compareWeighted hnames hpattern⟩
  · rintro ⟨name, hname, hpattern⟩
    rw [hx] at hname
    cases hname
    exact ⟨y, hy, pattern_of_compareWeighted hnames hpattern⟩

end SortOptions

/-! ## Lower case -/

/-- Only a line feed becomes a line feed. -/
theorem lowerChar_ne_lineFeed {c : Char} (h : c ≠ '\n') : lowerChar c ≠ '\n' := by
  have hrows : ∀ row ∈ lowerCaseRows, (10 : Int) < (row.1 : Int) + row.2.2.2 := by decide +kernel
  have hother : ∀ n : Nat, n ≠ 10 → Char.ofNat n ≠ '\n' := by
    intro n hn heq
    by_cases hvalid : n.isValidChar
    · have hof : Char.ofNat n = Char.ofNatAux n hvalid := dif_pos hvalid
      exact hn (congrArg Char.toNat (hof.symm.trans heq))
    · have hof : Char.ofNat n = '\x00' := dif_neg hvalid
      cases congrArg Char.toNat (hof.symm.trans heq)
  simp only [lowerChar]
  split
  · split
    · rename_i hcapital
      have hle : 'A'.toNat ≤ c.toNat := hcapital.1
      exact hother _ (by simp only [Char.reduceToNat] at hle; omega)
    · exact h
  · split
    · rename_i low high step shift hfind
      split
      · have hrow := hrows _ (List.mem_of_find?_eq_some hfind)
        have hbounds := List.find?_some hfind
        simp only [Bool.and_eq_true, decide_eq_true_eq] at hbounds hrow
        exact hother _ (by omega)
      · exact h
    · exact h

/-- In lower case, a text in front of a closing bracket stays one of one line, and stays one at
all. -/
theorem exists_lowerAfter_bracket (before : Text) {text : Text} (h : '\n' ∉ text) :
    ∃ inner, lowerAfter before (text ++ [']']) = inner ++ [']'] ∧ '\n' ∉ inner
      ∧ (text ≠ [] → inner ≠ []) := by
  induction text generalizing before with
  | nil => exact ⟨[], by simp [lowerAfter, lowerChar], by simp, by simp⟩
  | cons c rest ih =>
      obtain ⟨hc, hrest⟩ := not_or.mp (mt List.mem_cons.mpr h)
      obtain ⟨inner, hinner, hfree, -⟩ := ih (c :: before) hrest
      rw [List.cons_append]
      unfold lowerAfter
      split
      · rename_i heq
        cases heq
      · rename_i heq
        cases heq
        refine ⟨(if startsCased before && !startsCased (rest ++ [']']) then 'ς' else 'σ') :: inner,
          by rw [hinner]; rfl, ?_, by simp⟩
        split <;> simpa using hfree
      · rename_i heq
        cases heq
        exact ⟨'i' :: '\u0307' :: inner, by rw [hinner]; rfl, by simpa using hfree, by simp⟩
      · rename_i heq
        cases heq
        refine ⟨lowerChar c :: inner, by rw [hinner]; rfl, ?_, by simp⟩
        exact fun hmem => (List.mem_cons.mp hmem).elim
          (fun heq => lowerChar_ne_lineFeed (Ne.symm hc) heq.symm) hfree

/-- **The name made up for a parameter stands for an index signature**, in lower case too. -/
theorem pattern_indexSignatureName {parameter : Text} (hne : parameter ≠ [])
    (hfree : '\n' ∉ parameter) :
    IndexPattern (indexSignatureName parameter).toList
      ∧ IndexPattern (Text.toLower (indexSignatureName parameter).toList) := by
  have hname : (indexSignatureName parameter).toList = "[index: ".toList ++ (parameter ++ [']']) := by
    unfold indexSignatureName
    rw [String.toList_ofList]
    exact List.append_assoc _ _ _
  refine ⟨⟨parameter, [], hname, hne, hfree⟩, ?_⟩
  obtain ⟨inner, hinner, hlower, hsome⟩ := exists_lowerAfter_bracket "[index: ".toList.reverse hfree
  refine ⟨inner, [], ?_, hsome hne, hlower⟩
  rw [hname, ← hinner]
  simp [Text.toLower, lowerAfter, lowerChar]

/-- **Index signatures are pinned.** Of the named members of a partition in sorted order, those whose
name stands for an index signature come in front of all others in ascending order, and behind them
in descending order. The name made up for a parameter stands for an index signature, also in lower
case. -/
theorem SortOptions.indexSignatures_pinned (options : SortOptions) (members : List Member) :
    (∀ part ∈ Plan.partitions options.requiredFirst members, ∃ signatures others,
      (∀ index ∈ signatures, options.Pinned members index)
        ∧ (∀ index ∈ others, ¬ options.Pinned members index)
        ∧ (signatures ++ others).Perm
          (((List.range members.length).filter part).filter (Plan.namedAt members))
        ∧ ((options.plan members).sorted.filter part).filter (Plan.namedAt members)
          = match options.direction with
            | .ascending => signatures ++ others
            | .descending => others ++ signatures)
    ∧ ∀ parameter : Text, parameter ≠ [] → '\n' ∉ parameter →
      IndexPattern (indexSignatureName parameter).toList
        ∧ IndexPattern (Text.toLower (indexSignatureName parameter).toList) := by
  refine ⟨fun part hpart => ?_, fun parameter => pattern_indexSignatureName⟩
  have hspecified : Plan.Specified options.compareNames options.requiredFirst members
      (options.plan members).sorted := Plan.specified_ofMembers options.requiredFirst
  have hpairs := (hspecified.inOrder part hpart).stable
  have hperm := ((hspecified.perm.filter part).filter (Plan.namedAt members))
  generalize hnamed : ((options.plan members).sorted.filter part).filter (Plan.namedAt members)
    = named at hpairs hperm
  have hname : ∀ index ∈ named, Plan.namedAt members index = true := fun index hindex =>
    (List.mem_filter.mp (hnamed ▸ hindex)).2
  let pinned : Nat → Bool := fun index => decide (options.Pinned members index)
  refine ⟨named.filter pinned, named.filter fun index => !pinned index,
    fun index hindex => of_decide_eq_true (List.mem_filter.mp hindex).2,
    fun index hindex => by simpa [pinned] using (List.mem_filter.mp hindex).2,
    (List.filter_append_perm pinned named).trans hperm, ?_⟩
  have hcompare : named.Pairwise fun a b => match options.direction with
      | .ascending => options.Pinned members b → options.Pinned members a
      | .descending => options.Pinned members a → options.Pinned members b :=
    hpairs.imp_of_mem fun {a b} ha hb hab => pinned_of_compare (hname a ha) (hname b hb) hab.1
  cases hdirection : options.direction with
  | ascending =>
      -- those that are not pinned come last
      have hlast := filter_not_append_filter (p := fun index => !pinned index) (l := named)
        (hcompare.imp fun hab => by simpa [pinned, hdirection, not_imp_not] using hab)
      simpa using hlast.symm
  | descending =>
      exact (filter_not_append_filter (p := pinned)
        (hcompare.imp fun hab => by simpa [pinned, hdirection] using hab)).symm

/-- An index signature and two properties, of which one is required. -/
def signatureFirst : List Member :=
  [⟨.indexSignature, some "[Index: K]", true, ⟨0, 1, 0, 0⟩, none⟩,
    ⟨.property, some "b2", true, ⟨1, 2, 0, 0⟩, none⟩,
    ⟨.property, some "a", false, ⟨2, 3, 0, 0⟩, none⟩]

/-- Without regard to case and in descending order, the index signature of the optional members
goes behind the other one. -/
theorem SortOptions.indexSignatures_pinned_last :
    let options : SortOptions :=
      { direction := .descending, caseSensitive := false, natural := true, requiredFirst := true }
    Plan.optionalAt signatureFirst ∈ Plan.partitions options.requiredFirst signatureFirst
      ∧ options.Pinned signatureFirst 0 ∧ ¬ options.Pinned signatureFirst 1
      ∧ (∃ signatures others, (∀ index ∈ signatures, options.Pinned signatureFirst index)
        ∧ (∀ index ∈ others, ¬ options.Pinned signatureFirst index)
        ∧ (signatures ++ others).Perm [0, 1]
        ∧ ((options.plan signatureFirst).sorted.filter (Plan.optionalAt signatureFirst)).filter
            (Plan.namedAt signatureFirst) = others ++ signatures)
      ∧ IndexPattern (Text.toLower (indexSignatureName ['K']).toList) := by
  intro options
  have hpart : Plan.optionalAt signatureFirst
      ∈ Plan.partitions options.requiredFirst signatureFirst := by simp [Plan.partitions, options]
  have hpinned := indexSignatures_pinned options signatureFirst
  exact ⟨hpart, by decide +kernel, by decide +kernel, hpinned.1 _ hpart,
    (hpinned.2 ['K'] (by decide) (by decide)).2⟩

end KeyOrder
