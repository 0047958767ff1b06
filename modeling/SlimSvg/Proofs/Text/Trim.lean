import Mathlib.Data.List.TakeWhile
import SlimSvg.Text.Space

namespace SlimSvg
namespace Text

/-!
# Trimmed texts

Trimming takes white space off both ends and nothing else, so it changes no text
whose first and last characters are none.
-/

section Trimming

variable {cs : List Char} {p : Char → Bool}

theorem isWhiteSpace_of_isXmlSpace {c : Char} (blank : isXmlSpace c = true) : isWhiteSpace c = true := by
  simp only [isXmlSpace, Bool.or_eq_true, beq_iff_eq] at blank
  rcases blank with ((rfl | rfl) | rfl) | rfl <;> rfl

/-- Whether a text neither begins nor ends with white space. -/
structure Tight (cs : List Char) : Prop where
  first : ∀ c ∈ cs.head?, isWhiteSpace c = false
  last : ∀ c ∈ cs.getLast?, isWhiteSpace c = false

instance (cs : List Char) : Decidable (Tight cs) :=
  decidable_of_iff (cs.head?.any isWhiteSpace = false ∧ cs.getLast?.any isWhiteSpace = false) <| by
    rw [Option.any_eq_false, Option.any_eq_false]
    exact ⟨fun ⟨first, last⟩ => ⟨first, last⟩, fun ⟨first, last⟩ => ⟨first, last⟩⟩

theorem dropWhile_append_of_all {front : List Char} (blank : ∀ c ∈ front, p c = true)
    (solid : ∀ c ∈ cs.head?, p c = false) : (front ++ cs).dropWhile p = cs := by
  rw [List.dropWhile_append_of_pos blank]
  cases cs with
  | nil => rfl
  | cons c rest =>
      have here : p c = false := solid c rfl
      exact List.dropWhile_cons_of_neg (by rw [here]; decide)

theorem takeWhile_append_of_all {front : List Char} (inside : ∀ c ∈ front, p c = true)
    (stop : ∀ c ∈ cs.head?, p c = false) : (front ++ cs).takeWhile p = front := by
  rw [List.takeWhile_append_of_pos inside]
  cases cs with
  | nil => exact List.append_nil front
  | cons c rest =>
      have here : p c = false := stop c rfl
      rw [List.takeWhile_cons_of_neg (by rw [here]; decide), List.append_nil]

theorem dropSuffix_append_of_all {back : List Char} (blank : ∀ c ∈ back, p c = true)
    (solid : ∀ c ∈ cs.getLast?, p c = false) : dropSuffix p (cs ++ back) = cs := by
  rw [dropSuffix, List.reverse_append, dropWhile_append_of_all, List.reverse_reverse]
  · exact fun c listed => blank c (List.mem_reverse.mp listed)
  · intro c first
    rw [List.head?_reverse] at first
    exact solid c first

theorem last_append {xs ys : List Char} (first : ys = [] → ∀ c ∈ xs.getLast?, p c = false)
    (second : ∀ c ∈ ys.getLast?, p c = false) : ∀ c ∈ (xs ++ ys).getLast?, p c = false := by
  intro c last
  rw [List.getLast?_append] at last
  cases behind : ys.getLast? with
  | none =>
      rw [behind, Option.none_or] at last
      exact first (List.getLast?_eq_none_iff.mp behind) c last
  | some d =>
      rw [behind, Option.some_or] at last
      exact second c (behind.trans last)

/-- Between blanks a tight text is found again. -/
theorem trimChars_of_tight (tight : Tight cs) {front back : List Char}
    (frontBlank : ∀ c ∈ front, isWhiteSpace c = true) (backBlank : ∀ c ∈ back, isWhiteSpace c = true)
    (nonempty : cs ≠ []) : trimChars (front ++ cs ++ back) = cs := by
  have solid : ∀ c ∈ (cs ++ back).head?, isWhiteSpace c = false := by
    intro c first
    rw [List.head?_append, List.head?_eq_some_head nonempty, Option.some_or,
      ← List.head?_eq_some_head nonempty] at first
    exact tight.first c first
  rw [trimChars, List.append_assoc, dropWhile_append_of_all frontBlank solid,
    dropSuffix_append_of_all backBlank tight.last]

/-- A tight text ends with no blanks. -/
theorem Tight.eq_nil_of_blank {front back : List Char} (tight : Tight (front ++ back))
    (blank : ∀ c ∈ back, isWhiteSpace c = true) : back = [] := by
  by_contra nonempty
  have last : (front ++ back).getLast? = some (back.getLast nonempty) := by
    rw [List.getLast?_append, List.getLast?_eq_some_getLast nonempty, Option.some_or]
  have solid := tight.last _ last
  rw [blank _ (List.getLast_mem nonempty)] at solid
  cases solid

theorem exists_append_dropSuffix (p : Char → Bool) (cs : List Char) :
    ∃ back, cs = dropSuffix p cs ++ back ∧ (∀ c ∈ back, p c = true) ∧
      ∀ c ∈ (dropSuffix p cs).getLast?, p c = false := by
  refine ⟨(cs.reverse.takeWhile p).reverse, ?_, ?_, ?_⟩
  · rw [dropSuffix, ← List.reverse_append, List.takeWhile_append_dropWhile, List.reverse_reverse]
  · intro c listed
    exact List.mem_takeWhile_imp (List.mem_reverse.mp listed)
  · intro c last
    rw [dropSuffix, List.getLast?_reverse] at last
    have first := List.head?_dropWhile_not p cs.reverse
    rw [Option.mem_def.mp last] at first
    exact first

/-- What is left off by trimming is white space. -/
theorem exists_append_trimChars (cs : List Char) :
    ∃ front back, cs = front ++ trimChars cs ++ back ∧ (∀ c ∈ front, isWhiteSpace c = true) ∧
      (∀ c ∈ back, isWhiteSpace c = true) ∧ Tight (trimChars cs) := by
  rcases exists_append_dropSuffix isWhiteSpace (cs.dropWhile isWhiteSpace) with
    ⟨back, rest, blank, last⟩
  refine ⟨cs.takeWhile isWhiteSpace, back, ?_, fun c listed => List.mem_takeWhile_imp listed, blank, ?_, last⟩
  · rw [trimChars, List.append_assoc, ← rest]
    exact List.takeWhile_append_dropWhile.symm
  · intro c first
    have begins := List.head?_dropWhile_not isWhiteSpace cs
    rw [rest] at begins
    change c ∈ (dropSuffix isWhiteSpace (cs.dropWhile isWhiteSpace)).head? at first
    rw [List.head?_append, Option.mem_def.mp first] at begins
    exact begins

theorem trimChars_sublist (cs : List Char) : (trimChars cs).Sublist cs := by
  rcases exists_append_trimChars cs with ⟨front, back, whole, -⟩
  have piece : (trimChars cs).Sublist (front ++ trimChars cs ++ back) :=
    (List.sublist_append_right front _).trans (List.sublist_append_left _ back)
  rwa [← whole] at piece

theorem trimChars_eq_self (tight : Tight cs) : trimChars cs = cs := by
  cases cs with
  | nil => rfl
  | cons c rest =>
      have nothing : ∀ d ∈ ([] : List Char), isWhiteSpace d = true := fun _ impossible => nomatch impossible
      have same := trimChars_of_tight tight nothing nothing (List.cons_ne_nil c rest)
      rw [List.nil_append, List.append_nil] at same
      exact same

theorem trimChars_trimChars (cs : List Char) : trimChars (trimChars cs) = trimChars cs := by
  rcases exists_append_trimChars cs with ⟨-, -, -, -, -, tight⟩
  exact trimChars_eq_self tight

theorem trim_trim (s : String) : trim (trim s) = trim s := by
  rw [trim, trim, String.toList_ofList, trimChars_trimChars]

theorem toList_trim (s : String) : (trim s).toList = trimChars s.toList :=
  String.toList_ofList

theorem tight_trim (s : String) : Tight (trim s).toList := by
  rcases exists_append_trimChars s.toList with ⟨-, -, -, -, -, tight⟩
  rw [toList_trim]
  exact tight

theorem trim_of_tight {s : String} (tight : Tight s.toList) : trim s = s := by
  rw [trim, trimChars_eq_self tight, String.ofList_toList]

theorem trim_of_solid {s : String} (solid : ∀ c ∈ s.toList, isWhiteSpace c = false) : trim s = s := by
  refine trim_of_tight ⟨?_, ?_⟩
  · exact fun c first => solid c (List.mem_of_mem_head? first)
  · exact fun c last => solid c (List.mem_of_mem_getLast? last)

theorem intercalate_ne_nil {separator first : List Char} (nonempty : first ≠ []) {words : List (List Char)} :
    separator.intercalate (first :: words) ≠ [] := by
  cases words with
  | nil =>
      rw [List.intercalate_singleton]
      exact nonempty
  | cons next rest =>
      rw [List.intercalate_cons_cons, List.append_assoc]
      exact List.append_ne_nil_of_left_ne_nil nonempty _

/-- Tight texts are tight together, whatever separates them. -/
theorem trim_intercalate {separator : String} {words : List String}
    (each : ∀ word ∈ words, word.toList ≠ [] ∧ Tight word.toList) :
    trim (separator.intercalate words) = separator.intercalate words := by
  have tight : Tight (separator.toList.intercalate (words.map String.toList)) := by
    induction words with
    | nil => exact show Tight [] by decide
    | cons word rest inductionHypothesis =>
        rcases List.forall_mem_cons.mp each with ⟨⟨nonempty, tight⟩, later⟩
        have behind := inductionHypothesis later
        cases rest with
        | nil =>
            rw [List.map_singleton, List.intercalate_singleton]
            exact tight
        | cons next rest =>
            have following : separator.toList.intercalate ((next :: rest).map String.toList) ≠ [] :=
              intercalate_ne_nil (later next List.mem_cons_self).1
            rw [List.map_cons, List.map_cons, List.intercalate_cons_cons, List.append_assoc]
            constructor
            · intro c first
              rw [List.head?_append, List.head?_eq_some_head nonempty, Option.some_or,
                ← List.head?_eq_some_head nonempty] at first
              exact tight.first c first
            · refine last_append (fun none => ?_) (last_append (fun none => ?_) behind.last)
              · exact absurd (List.append_eq_nil_iff.mp none).2 following
              · exact absurd none following
  rw [← String.toList_intercalate] at tight
  exact trim_of_tight tight

end Trimming

end Text
end SlimSvg
