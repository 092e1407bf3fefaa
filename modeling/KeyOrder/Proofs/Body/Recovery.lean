import KeyOrder.Proofs.Body.Attribution

/-!
# When attribution gives back what was shared out

Members stand in a text, each between the comments meant for it: leading ones in front of its
declaration and trailing ones behind it. Attribution sees the comments only as one sequence. **It
gives every member the comments meant for it exactly if each comment between two declarations passes
the test for the side it is on** (`MemberComments.Stays`): the trailing comments of a member must not
lead the next one, the leading comments of a member must lead it, and behind the last member the
trailing comments must trail it and the first comment of the end must not.
-/

namespace KeyOrder

/-- A list that is cut where its first part ends: the test holds up to there and fails next. -/
theorem takeWhile_dropWhile_append_iff {α : Type} {p : α → Bool} {l m : List α} :
    (l ++ m).takeWhile p = l ∧ (l ++ m).dropWhile p = m
      ↔ (∀ a ∈ l, p a = true) ∧ ∀ b ∈ m.head?, p b = false := by
  induction l with
  | nil =>
      cases m with
      | nil => simp
      | cons b rest => by_cases hb : p b = true <;> simp [hb]
  | cons a rest ih =>
      by_cases ha : p a = true
      · simp [ha, ih]
      · simp [ha]

theorem filter_append_iff {α : Type} {p : α → Bool} {l m : List α} :
    (l ++ m).filter (fun a => !p a) = l ∧ (l ++ m).filter p = m
      ↔ (∀ a ∈ l, p a = false) ∧ ∀ b ∈ m, p b = true := by
  constructor
  · rintro ⟨hl, hm⟩
    refine ⟨fun a ha => ?_, fun b hb => ?_⟩
    · rw [← hl] at ha
      simpa using (List.mem_filter.mp ha).2
    · rw [← hm] at hb
      exact (List.mem_filter.mp hb).2
  · rintro ⟨hl, hm⟩
    have h1 : l.filter (fun a => !p a) = l := List.filter_eq_self.mpr fun a ha => by simp [hl a ha]
    have h2 : m.filter (fun a => !p a) = [] := List.filter_eq_nil_iff.mpr fun b hb => by
      simp [hm b hb]
    have h3 : l.filter p = [] := List.filter_eq_nil_iff.mpr fun a ha => by simp [hl a ha]
    have h4 : m.filter p = m := List.filter_eq_self.mpr hm
    rw [List.filter_append, List.filter_append, h1, h2, h3, h4]
    exact ⟨List.append_nil _, List.nil_append _⟩

namespace MemberComments

theorem leads_iff {previous member : Member} {comment : Comment} :
    leads (some previous) member comment = true ↔ previous.lastToken.stop ≤ comment.span.start
      ∧ (comment.span.startRow = member.declaration.startRow
        ∨ previous.lastToken.endRow < comment.span.startRow) := by
  simp [leads]

/-- The comments of slots one after another, between those `pending` in front of the first slot and
those of the end. -/
def sequence (pending : List Comment) (slots : List (Member × MemberComments))
    (final : List Comment) : List Comment :=
  pending ++ (slots.flatMap (·.2.all) ++ final)

/-- **Every declaration stands between its leading and its trailing comments.** -/
def Aligned : List Comment → List (Member × MemberComments) → List Comment → Prop
  | _, [], _ => True
  | pending, (member, share) :: rest, final =>
    (∀ comment ∈ pending ++ share.leading, startsBefore member comment = true)
      ∧ (∀ comment ∈ sequence share.trailing rest final, startsBefore member comment = false)
      ∧ Aligned share.trailing rest final

/-- **Every comment passes the test for the side it is on.** Those `pending` trail the member
before the first slot. -/
def Stays : Option Member → List Comment → List (Member × MemberComments) → List Comment → Prop
  | _, _, [], _ => True
  | previous, pending, [(member, share)], final =>
    ((∀ comment ∈ pending, leads previous member comment = false)
        ∧ ∀ comment ∈ share.leading, leads previous member comment = true)
      ∧ (∀ comment ∈ share.trailing, trailsLast member comment = true)
      ∧ ∀ comment ∈ final.head?, trailsLast member comment = false
  | previous, pending, (member, share) :: next :: rest, final =>
    ((∀ comment ∈ pending, leads previous member comment = false)
        ∧ ∀ comment ∈ share.leading, leads previous member comment = true)
      ∧ Stays (some member) share.trailing (next :: rest) final

theorem Aligned.cut {pending final : List Comment} {member : Member} {share : MemberComments}
    {rest : List (Member × MemberComments)} (h : Aligned pending ((member, share) :: rest) final) :
    (sequence pending ((member, share) :: rest) final).takeWhile (startsBefore member)
        = pending ++ share.leading
      ∧ (sequence pending ((member, share) :: rest) final).dropWhile (startsBefore member)
        = sequence share.trailing rest final := by
  have hsplit : sequence pending ((member, share) :: rest) final
      = (pending ++ share.leading) ++ sequence share.trailing rest final := by
    simp [sequence, all]
  rw [hsplit]
  refine takeWhile_dropWhile_append_iff.mpr ⟨h.1, fun b hb => h.2.1 b ?_⟩
  exact List.mem_of_head? hb

/-- **Attribution gives back what was shared out exactly if every comment stays on its side.** -/
theorem attach_sequence_iff {slots : List (Member × MemberComments)} (hne : slots ≠ [])
    (previous : Option Member) {pending final : List Comment} (h : Aligned pending slots final) :
    (unclaimed previous (slots.map Prod.fst) (sequence pending slots final) = pending
        ∧ attach previous (slots.map Prod.fst) (sequence pending slots final)
          = (slots.map Prod.snd, final))
      ↔ Stays previous pending slots final := by
  induction slots generalizing previous pending with
  | nil => exact absurd rfl hne
  | cons slot rest ih =>
      obtain ⟨member, ⟨leading, trailing⟩⟩ := slot
      obtain ⟨htake, hdrop⟩ := h.cut
      cases rest with
      | nil =>
          rw [Stays, ← filter_append_iff, ← takeWhile_dropWhile_append_iff]
          have hbehind : sequence trailing [] final = trailing ++ final := by simp [sequence]
          simp only [List.map_cons, List.map_nil, unclaimed, attach, htake, hdrop, hbehind,
            Prod.mk.injEq, List.cons.injEq, MemberComments.mk.injEq, and_true, and_assoc]
      | cons next rest =>
          rw [Stays, ← filter_append_iff, ← ih (by simp) (some member) h.2.2]
          simp only [List.map_cons, unclaimed, attach, htake, hdrop, Prod.ext_iff,
            List.cons.injEq, MemberComments.mk.injEq, and_assoc]

end MemberComments

end KeyOrder
