import Mathlib.Data.List.SplitBy
import SlimSvg.Css.StyleEdits
import SlimSvg.Proofs.Tree.Pruning

namespace SlimSvg
namespace Css

/-!
# Writing sheets back

Sheets that are left without text are forgotten and their elements are taken out of
the document.  That loses no rule, since every rule is written with its braces.  In
the document nothing changes but texts and the places of style elements.
-/

namespace SheetText

theorem writeRules_ne_empty {group : List Rule} (nonempty : group ≠ []) : writeRules group ≠ "" := by
  cases group with
  | nil => exact absurd rfl nonempty
  | cons r rest =>
      rw [writeRules]
      intro empty
      have parts := String.append_eq_empty_iff.mp empty
      exact absurd parts.2 (by decide)

/-- A set with a rule is written as some text. -/
theorem writeSet_ne_empty {set : RuleSet} {r : Rule} (ruled : r ∈ set.rules) : writeSet set ≠ "" := by
  have inner : String.join (set.fontFaces ++
      (set.rules.splitBy fun a b => a.declarations == b.declarations).map writeRules) ≠ "" := by
    rw [← List.flatten_splitBy (fun a b => a.declarations == b.declarations) set.rules] at ruled
    rcases List.mem_flatten.mp ruled with ⟨group, listed, member⟩
    intro empty
    rw [String.join_append] at empty
    have groups := (String.append_eq_empty_iff.mp empty).2
    rw [← String.toList_eq_nil_iff, String.toList_join, List.flatMap_eq_nil_iff] at groups
    have nothing := groups _ (List.mem_map_of_mem listed)
    exact writeRules_ne_empty (List.ne_nil_of_mem member) (String.toList_eq_nil_iff.mp nothing)
  rw [writeSet]
  split
  · split
    · intro empty
      exact absurd (String.append_eq_empty_iff.mp empty).2 (by decide)
    · exact inner
  · exact inner

end SheetText

/-- A sheet without text has no rules. -/
theorem rules_eq_nil_of_writeSheet {sets : List RuleSet} (empty : writeSheet sets = "") :
    sets.flatMap (·.rules) = [] := by
  rw [List.flatMap_eq_nil_iff]
  intro set listed
  by_contra ruled
  rcases List.exists_mem_of_ne_nil _ ruled with ⟨r, member⟩
  have written : set.isEmpty = false := by
    rw [RuleSet.isEmpty, List.isEmpty_eq_false_iff.mpr ruled, Bool.false_and]
  rw [writeSheet, ← String.toList_eq_nil_iff, String.toList_join, List.flatMap_eq_nil_iff] at empty
  have kept : set ∈ sets.filter fun s => !s.isEmpty := by
    rw [List.mem_filter, written]
    exact ⟨listed, rfl⟩
  have nothing := empty _ (List.mem_map_of_mem kept)
  exact SheetText.writeSet_ne_empty member (String.toList_eq_nil_iff.mp nothing)

namespace Derived

theorem rules_cons (sheet : Sheet) (rest : List Sheet) :
    rules (sheet :: rest) = sheet.sets.flatMap (·.rules) ++ rules rest := by
  simp only [rules, List.flatMap_cons, List.flatMap_append]

end Derived

namespace Styles

theorem rules_mapRules (s : Styles) (f : Rule → Rule) :
    Derived.rules (s.mapRules f).sheets = (Derived.rules s.sheets).map f := by
  simp only [Derived.rules, mapRules, mapSets, ofSheets, List.flatMap_map, List.map_flatMap,
    List.flatMap_assoc]

/-- Writing back loses no rules. -/
theorem rules_writeBack (s : Styles) (doc : Document) :
    Derived.rules (s.writeBack doc).1.sheets = Derived.rules s.sheets := by
  change Derived.rules (s.sheets.filter fun sheet => !(writeSheet sheet.sets).isEmpty) = _
  induction s.sheets with
  | nil => rfl
  | cons sheet rest inductionHypothesis =>
      rw [List.filter_cons, Derived.rules_cons]
      split
      · rw [Derived.rules_cons, inductionHypothesis]
      · next unwritten =>
        have empty : writeSheet sheet.sets = "" := by
          simpa using unwritten
        rw [rules_eq_nil_of_writeSheet empty, List.nil_append, inductionHypothesis]

variable {P : Element → Prop} {doc : Document}

theorem trimmed_writeSheetOf (grown : doc.Grown P) {sheet : Sheet}
    (element : doc.isElement sheet.element) : Document.Trimmed P doc (writeSheetOf doc sheet) := by
  rw [writeSheetOf]
  split
  · exact Document.trimmed_detach grown sheet.element
  · exact Document.trimmed_setText grown element _

/-- Writing back takes nodes out and changes texts; elements stay what they were. -/
theorem trimmed_writeBack (s : Styles) (grown : doc.Grown P)
    (elements : ∀ sheet ∈ s.sheets, doc.isElement sheet.element) :
    Document.Trimmed P doc (s.writeBack doc).2 := by
  change Document.Trimmed P doc (s.sheets.foldl writeSheetOf doc)
  generalize s.sheets = sheets at elements
  induction sheets generalizing doc with
  | nil => exact .refl grown
  | cons sheet rest inductionHypothesis =>
      have first := trimmed_writeSheetOf grown (elements sheet List.mem_cons_self)
      refine first.trans (inductionHypothesis first.grown ?_)
      intro other listed
      rw [first.pruned.isElement_eq]
      exact elements other (List.mem_cons_of_mem sheet listed)

end Styles

end Css
end SlimSvg
