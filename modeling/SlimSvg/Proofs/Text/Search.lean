import SlimSvg.Text.Search

namespace SlimSvg
namespace Text

/-!
# Where a piece of text can occur

A piece cannot reach over a character that it does not have.  So its occurrences in a
longer text are those in the parts between such characters.
-/

section Search

variable {piece : List Char}

theorem isPrefixOf?_append (piece after : List Char) : piece.isPrefixOf? (piece ++ after) = some after := by
  induction piece with
  | nil => rfl
  | cons p rest inductionHypothesis =>
      change (if p == p then rest.isPrefixOf? (rest ++ after) else none) = some after
      rw [if_pos (beq_self_eq_true p)]
      exact inductionHypothesis

theorem isPrefixOf?_eq_none {cs : List Char} : piece.isPrefixOf? cs = none ↔ ¬ piece <+: cs := by
  constructor
  · rintro none ⟨after, rfl⟩
    rw [isPrefixOf?_append] at none
    cases none
  · intro other
    cases found : piece.isPrefixOf? cs with
    | none => rfl
    | some after => exact absurd ⟨after, (eq_append_of_isPrefixOf? found).symm⟩ other

/-- The first occurrence of a piece does not depend on what follows it. -/
theorem cut?_exchange {before after after' : List Char}
    (found : cut? piece (before ++ (piece ++ after)) = some (before, after)) :
    cut? piece (before ++ (piece ++ after')) = some (before, after') := by
  induction before with
  | nil =>
      cases whole : [] ++ (piece ++ after') with
      | nil =>
          rcases List.append_eq_nil_iff.mp (show piece ++ after' = [] from whole) with ⟨rfl, rfl⟩
          rfl
      | cons c rest =>
          rw [cut?, ← whole, List.nil_append, isPrefixOf?_append]
  | cons c before inductionHypothesis =>
      rw [List.cons_append, cut?] at found ⊢
      split at found
      · cases found
      · next absent =>
        rcases Option.map_eq_some_iff.mp found with ⟨⟨front, behind⟩, later, same⟩
        cases same
        have stillAbsent : piece.isPrefixOf? (c :: (before ++ (piece ++ after'))) = none := by
          rw [isPrefixOf?_eq_none] at absent ⊢
          intro front
          have inside : piece <+: c :: (before ++ piece) := by
            refine List.prefix_of_prefix_length_le front ⟨after', by simp⟩ ?_
            simp only [List.length_cons, List.length_append]
            omega
          exact absent (inside.trans ⟨after, by simp⟩)
        rw [stillAbsent, inductionHypothesis later]
        rfl

/-- Searching finds a piece if there is one. -/
theorem hasPiece_iff (piece cs : List Char) : hasPiece piece cs = true ↔ piece <:+: cs := by
  rw [hasPiece]
  induction cs with
  | nil =>
      rw [cut?, List.infix_nil]
      cases piece with
      | nil => exact ⟨fun _ => rfl, fun _ => rfl⟩
      | cons p rest =>
          constructor
          · intro impossible
            cases impossible
          · intro impossible
            cases impossible
  | cons c rest inductionHypothesis =>
      rw [cut?, List.infix_cons_iff, ← inductionHypothesis]
      cases starts : piece.isPrefixOf? (c :: rest) with
      | some after =>
          have front : piece <+: c :: rest := ⟨after, (eq_append_of_isPrefixOf? starts).symm⟩
          exact ⟨fun _ => Or.inl front, fun _ => rfl⟩
      | none =>
          have notFront : ¬ piece <+: c :: rest := by
            rintro ⟨after, same⟩
            rw [← same, isPrefixOf?_append] at starts
            cases starts
          dsimp only
          rw [Option.isSome_map, or_iff_right notFront]

theorem prefix_append_cons_iff {c : Char} (apart : c ∉ piece) (before after : List Char) :
    piece <+: before ++ c :: after ↔ piece <+: before := by
  induction before generalizing piece with
  | nil =>
      cases piece with
      | nil => exact ⟨fun _ => List.nil_prefix, fun _ => List.nil_prefix⟩
      | cons p rest =>
          constructor
          · intro front
            have same := (List.cons_prefix_cons.mp front).1
            exact absurd (same ▸ List.mem_cons_self) apart
          · intro impossible
            cases List.prefix_nil.mp impossible
  | cons b before inductionHypothesis =>
      cases piece with
      | nil => exact ⟨fun _ => List.nil_prefix, fun _ => List.nil_prefix⟩
      | cons p rest =>
          rw [List.cons_append, List.cons_prefix_cons, List.cons_prefix_cons,
            inductionHypothesis fun listed => apart (List.mem_cons_of_mem p listed)]

/-- A piece does not reach over a character that it does not have. -/
theorem infix_append_cons_iff {c : Char} (apart : c ∉ piece) (before after : List Char) :
    piece <:+: before ++ c :: after ↔ piece <:+: before ∨ piece <:+: after := by
  induction before with
  | nil =>
      have front := prefix_append_cons_iff apart [] after
      rw [List.nil_append] at front
      rw [List.nil_append, List.infix_cons_iff, front, List.infix_nil, List.prefix_nil]
  | cons b before inductionHypothesis =>
      have front := prefix_append_cons_iff apart (b :: before) after
      rw [List.cons_append] at front ⊢
      rw [List.infix_cons_iff, front, inductionHypothesis, List.infix_cons_iff, or_assoc]

/-- A piece does not begin where its first character is missing. -/
theorem infix_append_left_iff_of_head {first : Char} (begins : piece.head? = some first) {front : List Char}
    (absent : first ∉ front) (cs : List Char) : piece <:+: front ++ cs ↔ piece <:+: cs := by
  induction front with
  | nil => exact Iff.rfl
  | cons c front inductionHypothesis =>
      rw [List.mem_cons, not_or] at absent
      have notHere : ¬ piece <+: c :: (front ++ cs) := by
        rintro ⟨after, same⟩
        rcases List.head?_eq_some_iff.mp begins with ⟨rest, rfl⟩
        exact absent.1 (List.cons.inj same).1
      rw [List.cons_append, List.infix_cons_iff, or_iff_right notHere]
      exact inductionHypothesis absent.2

variable (nonempty : piece ≠ [])

include nonempty

/-- Characters that a piece does not have can be left off at the front of a text. -/
theorem infix_append_left_iff {front : List Char} (apart : ∀ c ∈ front, c ∉ piece) (cs : List Char) :
    piece <:+: front ++ cs ↔ piece <:+: cs := by
  induction front with
  | nil => exact Iff.rfl
  | cons c front inductionHypothesis =>
      have first := infix_append_cons_iff (apart c List.mem_cons_self) [] (front ++ cs)
      rw [List.nil_append] at first
      rw [List.cons_append, first, List.infix_nil, or_iff_right nonempty]
      exact inductionHypothesis fun d listed => apart d (List.mem_cons_of_mem c listed)

/-- Characters that a piece does not have can be left off at the end of a text. -/
theorem infix_append_right_iff {back : List Char} (apart : ∀ c ∈ back, c ∉ piece) (cs : List Char) :
    piece <:+: cs ++ back ↔ piece <:+: cs := by
  cases back with
  | nil => rw [List.append_nil]
  | cons c back =>
      have behind := infix_append_left_iff nonempty
        (fun d listed => apart d (List.mem_cons_of_mem c listed)) []
      rw [List.append_nil, List.infix_nil] at behind
      rw [infix_append_cons_iff (apart c List.mem_cons_self), behind]
      exact or_iff_left nonempty

end Search

end Text
end SlimSvg
