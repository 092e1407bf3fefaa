import KeyOrder.Proofs.Syntax.ReadOff
import KeyOrder.TypeScript.Parse

/-!
# Trees of the parser are well-formed

What a parsing expression matches lies between the place where it starts to match and the place
behind the match, and each of its nodes starts at a place (`Between`): that holds of a token with the
comments in front of it, and every kind of expression keeps it. So **the tree of every source is
well-formed, and its nodes start on character boundaries**, also of a source that is not TypeScript.
-/

namespace KeyOrder.TypeScript

open SyntaxNode (orderedAll orderedAll_cons orderedAll_append nodesOfAll)

/-! ## Places -/

/-- Whether a place of a source is followed by another one, or is the same. -/
def Place.Before (first last : Place) : Prop :=
  ∃ passed, first.rest = passed ++ last.rest ∧ last.offset = first.offset + Text.byteLength passed

namespace Place

variable {first middle last place : Place}

theorem Before.offset_le (h : first.Before last) : first.offset ≤ last.offset := by
  obtain ⟨passed, -, hoffset⟩ := h
  omega

theorem Before.end_eq (h : first.Before last) :
    last.offset + last.rest.byteLength = first.offset + first.rest.byteLength := by
  obtain ⟨passed, hrest, hoffset⟩ := h
  rw [hrest, hoffset, Text.byteLength_append, Nat.add_assoc]

/-- A place behind the start of a source is a character boundary. -/
theorem Before.isBoundary {source : Text} (h : (start source).Before place) :
    source.isBoundary place.offset = true := by
  obtain ⟨passed, hrest, hoffset⟩ := h
  have hsource : source = passed ++ place.rest := hrest
  rw [hoffset, hsource]
  simpa [start] using Text.isBoundary_append passed place.rest

theorem Before.refl (place : Place) : place.Before place := ⟨[], rfl, rfl⟩

theorem Before.trans (h : first.Before middle) (h' : middle.Before last) : first.Before last := by
  obtain ⟨passed, hrest, hoffset⟩ := h
  obtain ⟨further, hrest', hoffset'⟩ := h'
  refine ⟨passed ++ further, ?_, ?_⟩
  · rw [hrest, hrest', List.append_assoc]
  · rw [hoffset', hoffset, Text.byteLength_append, Nat.add_assoc]

theorem before_next (place : Place) : place.Before place.next := by
  unfold next
  split
  · exact .refl place
  · rename_i c rest hrest
    exact ⟨[c], hrest, by simp⟩

theorem before_skip (place : Place) (count : Nat) : place.Before (place.skip count) := by
  induction count generalizing place with
  | zero => exact .refl place
  | succ count ih => exact place.before_next.trans (ih place.next)

theorem rest_skip (place : Place) (count : Nat) :
    (place.skip count).rest = place.rest.drop count := by
  induction count generalizing place with
  | zero => rfl
  | succ count ih =>
      rw [skip, ih, next]
      split
      · rename_i hrest
        simp [hrest]
      · rename_i hrest
        simp [hrest]

/-- Behind all characters of a source is its end. -/
theorem offset_skip_length (source : Text) :
    ((start source).skip source.length).offset = source.byteLength := by
  have hend := ((start source).before_skip source.length).end_eq
  rw [rest_skip] at hend
  simpa [start] using hend

/-- The end of a source is behind every place of it. -/
theorem Before.end {source : Text} (h : (start source).Before place) :
    place.Before ((start source).skip source.length) := by
  refine ⟨place.rest, ?_, ?_⟩
  · rw [rest_skip]
    simp [start]
  · rw [offset_skip_length, h.end_eq]
    simp [start]

end Place

/-! ## Forests between places -/

/-- Whether every node of a forest starts at a place that follows a given one. -/
def StartsBehind (first : Place) (forest : Forest) : Prop :=
  ∀ node ∈ nodesOfAll forest, ∃ place, first.Before place ∧ node.span.start = place.offset

theorem nodesOfAll_append (forest others : Forest) :
    nodesOfAll (forest ++ others) = nodesOfAll forest ++ nodesOfAll others := by
  induction forest with
  | nil => rfl
  | cons node rest ih => simp [nodesOfAll, ih]

/-- Nodes that lie in order between two places and start at places. -/
structure Between (first last : Place) (forest : Forest) : Prop where
  before : first.Before last
  ordered : orderedAll first.offset last.offset forest = true
  starts : StartsBehind first forest

namespace Between

variable {first middle last : Place} {forest others : Forest}

theorem nil (h : first.Before last) : Between first last [] :=
  ⟨h, by simpa [orderedAll] using h.offset_le, by simp [StartsBehind, nodesOfAll]⟩

theorem append (h : Between first middle forest) (h' : Between middle last others) :
    Between first last (forest ++ others) := by
  refine ⟨h.before.trans h'.before, orderedAll_append.mpr ⟨middle.offset, h.ordered, h'.ordered⟩, ?_⟩
  intro node hnode
  rw [nodesOfAll_append] at hnode
  rcases List.mem_append.mp hnode with hnode | hnode
  · exact h.starts node hnode
  · obtain ⟨place, hplace, hstart⟩ := h'.starts node hnode
    exact ⟨place, h.before.trans hplace, hstart⟩

theorem widen {earlier later : Place} (h : Between first last forest)
    (hfirst : earlier.Before first) (hlast : last.Before later) : Between earlier later forest := by
  simpa using ((nil hfirst).append h).append (nil hlast)

theorem leaf (kind : NodeKind) (isNamed : Bool) (h : first.Before last) :
    Between first last [leaf kind isNamed first last] := by
  refine ⟨h, orderedAll_cons.mpr ⟨Nat.le_refl _, ?_, ?_⟩, ?_⟩
  · simpa [TypeScript.leaf, SyntaxNode.ordered, orderedAll, Place.spanTo] using h.offset_le
  · simp [TypeScript.leaf, orderedAll, SyntaxNode.span, Place.spanTo]
  · intro node hnode
    obtain rfl : node = TypeScript.leaf kind isNamed first last := by
      simpa [TypeScript.leaf, nodesOfAll, SyntaxNode.nodes] using hnode
    exact ⟨first, .refl first, rfl⟩

end Between

theorem ordered_withRole (role : NodeRole) (node : SyntaxNode) :
    (withRole role node).ordered = node.ordered := by
  cases node
  simp [withRole, SyntaxNode.ordered]

theorem span_withRole (role : NodeRole) (node : SyntaxNode) :
    (withRole role node).span = node.span := by
  cases node
  rfl

theorem orderedAll_assignRole {role : NodeRole} {forest : Forest} {start stop : Nat}
    (h : orderedAll start stop forest = true) :
    orderedAll start stop (assignRole role forest) = true := by
  unfold assignRole
  split
  · rename_i hreverse
    rwa [List.reverse_eq_nil_iff.mp hreverse] at h
  · rename_i last earlier hreverse
    have hforest : forest = earlier.reverse ++ [last] := by
      rw [← List.reverse_cons, ← hreverse, List.reverse_reverse]
    rw [hforest] at h
    rw [List.reverse_cons]
    obtain ⟨middle, hearlier, hlast⟩ := orderedAll_append.mp h
    refine orderedAll_append.mpr ⟨middle, hearlier, ?_⟩
    rw [orderedAll_cons] at hlast ⊢
    rwa [ordered_withRole, span_withRole]

/-- A node around others starts with the first and ends with the last of them. -/
theorem orderedAll_wrap {kind : NodeKind} {isError : Bool} {forest : Forest} {start stop : Nat}
    (h : orderedAll start stop forest = true) :
    orderedAll start stop (wrap kind isError forest) = true := by
  simp only [wrap]
  split
  · rename_i first last hfirst hlast
    obtain ⟨before, hbefore⟩ := List.getLast?_eq_some_iff.mp hlast
    obtain ⟨behind, hbehind⟩ := List.head?_eq_some_iff.mp hfirst
    rw [← List.takeWhile_append_dropWhile (p := SyntaxNode.isComment) (l := forest)] at h
    obtain ⟨middle, houtside, hinside⟩ := orderedAll_append.mp h
    refine orderedAll_append.mpr ⟨middle, houtside, ?_⟩
    -- the nodes inside lie between the start of the first and the end of the last
    have hstart : middle ≤ first.span.start
        ∧ orderedAll first.span.start stop (forest.dropWhile SyntaxNode.isComment) = true := by
      rw [hbehind, orderedAll_cons] at hinside ⊢
      exact ⟨hinside.1, Nat.le_refl _, hinside.2⟩
    have hstop : orderedAll first.span.start last.span.stop
          (forest.dropWhile SyntaxNode.isComment) = true
        ∧ orderedAll last.span.stop stop [] = true := by
      obtain ⟨-, hinside⟩ := hstart
      rw [hbefore] at hinside ⊢
      obtain ⟨offset, hearlier, hlast⟩ := orderedAll_append.mp hinside
      obtain ⟨hle, hordered, hend⟩ := orderedAll_cons.mp hlast
      refine ⟨orderedAll_append.mpr ⟨offset, hearlier, ?_⟩, hend⟩
      exact orderedAll_cons.mpr ⟨hle, hordered, by simp [orderedAll]⟩
    refine orderedAll_cons.mpr ⟨hstart.1, ?_, hstop.2⟩
    rw [SyntaxNode.ordered]
    exact hstop.1
  · exact h

/-- Whether every node of a forest starts where one of another forest does. -/
def StartsAmong (forest reshaped : Forest) : Prop :=
  ∀ node ∈ nodesOfAll reshaped, ∃ other ∈ nodesOfAll forest, node.span.start = other.span.start

theorem StartsAmong.refl (forest : Forest) : StartsAmong forest forest :=
  fun node hnode => ⟨node, hnode, rfl⟩

theorem StartsAmong.append {forest others reshaped reshapedOthers : Forest}
    (h : StartsAmong forest reshaped) (h' : StartsAmong others reshapedOthers) :
    StartsAmong (forest ++ others) (reshaped ++ reshapedOthers) := by
  intro node hnode
  rw [nodesOfAll_append] at hnode ⊢
  rcases List.mem_append.mp hnode with hnode | hnode
  · obtain ⟨other, hother, hstart⟩ := h node hnode
    exact ⟨other, List.mem_append_left _ hother, hstart⟩
  · obtain ⟨other, hother, hstart⟩ := h' node hnode
    exact ⟨other, List.mem_append_right _ hother, hstart⟩

/-- One node in the place of a forest that starts with it. -/
theorem startsAmong_node {kind : NodeKind} {role : NodeRole} {span : Span} {isNamed hasError : Bool}
    {children forest : Forest} {first : SyntaxNode} (hfirst : first ∈ forest)
    (hstart : span.start = first.span.start) (hbelow : nodesOfAll children ⊆ nodesOfAll forest) :
    StartsAmong forest [.node kind role span isNamed hasError children] := by
  intro node hnode
  simp only [nodesOfAll, SyntaxNode.nodes, List.append_nil] at hnode
  rcases List.mem_cons.mp hnode with rfl | hnode
  · exact ⟨first, SyntaxNode.nodes_subset_nodesOfAll hfirst first.self_mem_nodes, hstart⟩
  · exact ⟨node, hbelow hnode, rfl⟩

theorem startsAmong_assignRole (role : NodeRole) (forest : Forest) :
    StartsAmong forest (assignRole role forest) := by
  unfold assignRole
  split
  · simp [StartsAmong, nodesOfAll]
  · rename_i last earlier hreverse
    have hforest : forest = earlier.reverse ++ [last] := by
      rw [← List.reverse_cons, ← hreverse, List.reverse_reverse]
    rw [hforest, List.reverse_cons]
    obtain ⟨kind, old, span, isNamed, hasError, children⟩ := last
    exact (StartsAmong.refl _).append (startsAmong_node List.mem_cons_self rfl
      (by simp [nodesOfAll, SyntaxNode.nodes]))

theorem startsAmong_wrap (kind : NodeKind) (isError : Bool) (forest : Forest) :
    StartsAmong forest (wrap kind isError forest) := by
  simp only [wrap]
  split
  · rename_i first last hfirst hlast
    have hforest := List.takeWhile_append_dropWhile (p := SyntaxNode.isComment) (l := forest)
    have hinside : StartsAmong (forest.dropWhile SyntaxNode.isComment)
        [.node kind .none (SyntaxNode.spanning first.span last.span) true
          (isError || (forest.dropWhile SyntaxNode.isComment).any SyntaxNode.hasError)
          (forest.dropWhile SyntaxNode.isComment)] :=
      startsAmong_node (List.mem_of_mem_head? hfirst) rfl (List.Subset.refl _)
    have hwhole := (StartsAmong.refl (forest.takeWhile SyntaxNode.isComment)).append hinside
    rwa [hforest] at hwhole
  · exact .refl forest

/-! ## Tokens -/

theorem skipTrivia_between (fuel : Nat) {comments : List SyntaxNode} (lineBreak : Bool)
    {first place : Place} (h : Between first place comments.reverse) :
    Between first (skipTrivia fuel comments lineBreak place).2.2
      (skipTrivia fuel comments lineBreak place).1 := by
  induction fuel generalizing comments lineBreak place with
  | zero => exact h
  | succ fuel ih =>
      simp only [skipTrivia]
      split
      · exact h
      · split
        · exact ih _ (h.widen (.refl first) place.before_next)
        · split
          · rename_i length _
            refine ih _ ?_
            rw [List.reverse_cons]
            exact h.append (.leaf .comment true (place.before_skip length))
          · exact h

/-- Comments and then a token stand behind a place. -/
theorem Place.lookahead_between (place : Place) :
    Between place place.lookahead.start place.lookahead.comments
      ∧ place.lookahead.start.Before place.lookahead.stop :=
  ⟨skipTrivia_between (place.rest.length + 1) false (.nil (.refl place)), Place.before_skip _ _⟩

/-- What a match at a place gives: a cursor at a later place, and nodes between the two. -/
def Consumes (place : Place) (result : Forest × Cursor) : Prop :=
  ∃ last, result.2 = Cursor.at last ∧ Between place last result.1

variable {place middle last : Place} {kind : Option NodeKind} {result : Forest × Cursor}

theorem consumes_take {comments : Forest} {nodeKind : NodeKind} {isNamed : Bool}
    (h : Between place middle comments) (hlast : middle.Before last) :
    Consumes place (Cursor.take comments nodeKind isNamed middle last) :=
  ⟨last, rfl, h.append (.leaf nodeKind isNamed hlast)⟩

theorem consumes_of_takeIf {test : Bool}
    (h : (Cursor.at place).takeIf kind test = some result) : Consumes place result := by
  simp only [Cursor.takeIf] at h
  split at h
  · cases h
    exact consumes_take place.lookahead_between.1 place.lookahead_between.2
  · cases h

theorem consumes_of_takeLength {comments : Forest} {length : Nat}
    (hcomments : Between place middle comments)
    (h : Cursor.takeLength comments kind middle length = some result) : Consumes place result := by
  unfold Cursor.takeLength at h
  split at h
  · cases h
  · cases h
    exact consumes_take hcomments (middle.before_skip length)

/-- **A token is taken from behind the place.** -/
theorem consumes_of_accept {terminal : Terminal}
    (h : (Cursor.at place).accept terminal kind = some result) : Consumes place result := by
  obtain ⟨hcomments, htoken⟩ := place.lookahead_between
  have hhere : Between place place [] := .nil (.refl place)
  cases terminal with
  | mark text =>
      simp only [Cursor.accept] at h
      split at h
      · cases h
        exact consumes_take hcomments htoken
      · cases h
  | word | anyWord | identifier | privateName | number | string | anyToken =>
      exact consumes_of_takeIf h
  | exact text =>
      simp only [Cursor.accept] at h
      split at h
      · cases h
        exact consumes_take hcomments (Place.before_skip _ _)
      · cases h
  | adjacent text =>
      simp only [Cursor.accept] at h
      split at h
      · exact consumes_of_takeLength hhere h
      · cases h
  | regex =>
      obtain ⟨length, -, h⟩ := Option.bind_eq_some_iff.mp h
      exact consumes_of_takeLength hcomments h
  | templateText | elementText => exact consumes_of_takeLength hhere h
  | endOfSource =>
      simp only [Cursor.accept] at h
      split at h
      · cases h
        exact ⟨_, rfl, hcomments⟩
      · cases h

/-! ## Expressions -/

theorem consumes_nil (place : Place) : Consumes place ([], Cursor.at place) :=
  ⟨place, rfl, .nil (.refl place)⟩

theorem Consumes.append {forest others : Forest} {after : Cursor}
    (h : Between place middle forest) (h' : Consumes middle (others, after)) :
    Consumes place (forest ++ others, after) := by
  obtain ⟨last, hafter, hbetween⟩ := h'
  exact ⟨last, hafter, h.append hbetween⟩

theorem Consumes.reshape {forest reshaped : Forest} {after : Cursor}
    (h : Consumes place (forest, after))
    (hordered : ∀ start stop, orderedAll start stop forest = true →
      orderedAll start stop reshaped = true)
    (hstarts : StartsAmong forest reshaped) : Consumes place (reshaped, after) := by
  obtain ⟨last, hafter, hbetween⟩ := h
  refine ⟨last, hafter, hbetween.before, hordered _ _ hbetween.ordered, fun node hnode => ?_⟩
  obtain ⟨other, hother, hstart⟩ := hstarts node hnode
  exact hstart ▸ hbetween.starts other hother

/-- **What an expression matches lies behind the place where it starts to match.** -/
theorem consumes_of_run {σ : Type} {grammar : σ → Peg σ} {fuel : Nat} {peg : Peg σ}
    (h : peg.run grammar fuel (Cursor.at place) = some result) : Consumes place result := by
  induction fuel generalizing peg place result with
  | zero => cases h
  | succ fuel ih =>
      cases peg with
      | empty =>
          cases h
          exact consumes_nil place
      | token terminal kind => exact consumes_of_accept h
      | symbol name => exact ih h
      | seq first second =>
          simp only [Peg.run] at h
          split at h
          · cases h
          · rename_i forest after hfirst
            obtain ⟨middle, rfl, hforest⟩ := ih hfirst
            split at h
            · cases h
            · rename_i hsecond
              cases h
              exact .append hforest (ih hsecond)
      | choice first second =>
          simp only [Peg.run] at h
          split at h
          · rename_i hfirst
            cases h
            exact ih hfirst
          · exact ih h
      | many item =>
          simp only [Peg.run] at h
          split at h
          · cases h
            exact consumes_nil place
          · rename_i forest after hitem
            split at h
            · cases h
              exact consumes_nil place
            · split at h
              · cases h
                exact ih hitem
              · rename_i hothers
                cases h
                obtain ⟨middle, rfl, hforest⟩ := ih hitem
                exact .append hforest (ih hothers)
      | ahead item =>
          obtain ⟨-, -, rfl⟩ := Option.map_eq_some_iff.mp h
          exact consumes_nil place
      | notAhead item =>
          simp only [Peg.run] at h
          split at h
          · cases h
          · cases h
            exact consumes_nil place
      | sameLine =>
          simp only [Peg.run] at h
          split at h
          · cases h
          · cases h
            exact consumes_nil place
      | endWithoutMark =>
          simp only [Peg.run] at h
          split at h
          · cases h
            exact consumes_nil place
          · cases h
      | node kind item =>
          obtain ⟨⟨forest, after⟩, hitem, rfl⟩ := Option.map_eq_some_iff.mp h
          exact (ih hitem).reshape (fun _ _ => orderedAll_wrap) (startsAmong_wrap _ _ _)
      | broken item =>
          obtain ⟨⟨forest, after⟩, hitem, rfl⟩ := Option.map_eq_some_iff.mp h
          exact (ih hitem).reshape (fun _ _ => orderedAll_wrap) (startsAmong_wrap _ _ _)
      | role part item =>
          obtain ⟨⟨forest, after⟩, hitem, rfl⟩ := Option.map_eq_some_iff.mp h
          exact (ih hitem).reshape (fun _ _ => orderedAll_assignRole) (startsAmong_assignRole _ _)

theorem start_before_skipInterpreterLine (source : Text) :
    (Place.start source).Before (skipInterpreterLine source) := by
  unfold skipInterpreterLine
  split
  · exact Place.before_skip _ _
  · exact .refl _

/-- The tree of a source is a node over all of it, with nodes below that lie between its ends. -/
theorem exists_parse (dialect : Dialect) (source : Text) : ∃ hasError forest,
    let finish := (Place.start source).skip source.length
    parse dialect source = .node (.other "program") .none ((Place.start source).spanTo finish) true
        hasError forest
      ∧ Between (Place.start source) finish forest := by
  unfold parse
  extract_lets start whole
  split
  · rename_i forest after hrun
    obtain ⟨last, -, hforest⟩ := consumes_of_run hrun
    have hstart := start_before_skipInterpreterLine source
    exact ⟨_, forest, rfl, hforest.widen hstart (hstart.trans hforest.before).end⟩
  · exact ⟨true, [], rfl, .nil (Place.before_skip _ _)⟩

/-- **The tree of every source is well-formed.** -/
theorem parse_wellFormed (dialect : Dialect) (source : Text) :
    (parse dialect source).WellFormed source := by
  obtain ⟨hasError, forest, hparse, hforest⟩ := exists_parse dialect source
  rw [hparse]
  refine ⟨?_, Nat.le_of_eq (Place.offset_skip_length source)⟩
  rw [SyntaxNode.ordered]
  exact hforest.ordered

/-- **The nodes of every source start on character boundaries.** -/
theorem parse_startsOnBoundaries (dialect : Dialect) (source : Text) :
    ∀ node ∈ (parse dialect source).nodes, source.isBoundary node.span.start = true := by
  obtain ⟨hasError, forest, hparse, hforest⟩ := exists_parse dialect source
  rw [hparse, SyntaxNode.nodes]
  refine List.forall_mem_cons.mpr ⟨(Place.Before.refl _).isBoundary, fun node hnode => ?_⟩
  obtain ⟨place, hplace, hstart⟩ := hforest.starts node hnode
  rw [hstart]
  exact hplace.isBoundary

end KeyOrder.TypeScript
