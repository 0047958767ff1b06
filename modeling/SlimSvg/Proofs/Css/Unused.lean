import SlimSvg.Proofs.Css.Forms
import SlimSvg.Proofs.Css.Remaining
import SlimSvg.Proofs.Css.WriteBack
import SlimSvg.Proofs.Tree.Walk

namespace SlimSvg
namespace Css

/-!
# Rules that select nothing

When the sheets are minified, rules can go that name a class, an id or a type that no
element has.  The names are collected from all compounds of a selector at once, without
regard to combinators and to what stands in a pseudo-class.  That never loses a rule that
selects something: an element is selected along a line of elements, one for each compound,
and if the last of them is part of the document, so are the others, with the names that
their compounds ask for.
-/

/-! ## Lines stay in the document -/

section Attached

variable {P : Element → Prop} {doc : Document}

theorem Combinator.Relates.isAttached (grown : doc.Grown P) {c : Combinator} {outer inner : NodeId}
    (relates : c.Relates doc outer inner) (attached : doc.isAttached inner = true) :
    doc.isAttached outer = true := by
  cases c with
  | descendant => exact Document.isAttached_of_above grown relates attached
  | child => exact Document.isAttached_of_above grown (.parent relates) attached
  | adjacent =>
      obtain ⟨between, siblings, -⟩ := relates
      exact Document.isAttached_of_siblings grown siblings attached
  | sibling =>
      obtain ⟨between, siblings⟩ := relates
      exact Document.isAttached_of_siblings grown siblings attached

/-- A line that ends in the document never leaves it. -/
theorem LineTo.isAttached (grown : doc.Grown P) {compounds : List Compound} {node : NodeId}
    {line : Nat → NodeId} (fits : LineTo doc compounds node line) (attached : doc.isAttached node = true)
    {i : Nat} (inside : i < compounds.length) : doc.isAttached (line i) = true := by
  -- The induction is on how far a node stands from the end of the line.
  obtain ⟨distance, place⟩ : ∃ distance, i + distance = compounds.length - 1 :=
    ⟨compounds.length - 1 - i, by omega⟩
  induction distance generalizing i with
  | zero =>
      rw [Nat.add_zero] at place
      rw [place, fits.ends]
      exact attached
  | succ distance inductionHypothesis =>
      have next : i + 1 < compounds.length := by omega
      obtain ⟨combinator, -, relates⟩ := fits.related i _ (List.getElem?_eq_getElem next)
      exact relates.isAttached grown (inductionHypothesis next (by omega))

end Attached

/-! ## Names that a selected element needs -/

/-- A test that is true of an element names nothing that the element does not have. -/
def SimpleSelector.IsNamedIn (used : Styles.UsedNames) : SimpleSelector → Prop
  | .className name => name ∈ used.classes
  | .idName id => id ∈ used.ids
  | .typeName name => name ∈ used.types
  | _ => True

theorem SimpleSelector.Holds.isNamedIn {doc : Document} {node : NodeId} {e : Element} {test : SimpleSelector}
    (holds : test.Holds e) (listed : node ∈ doc.elements) (found : doc.element? node = some e) :
    test.IsNamedIn (Styles.usedNames doc) := by
  have among : e ∈ doc.elements.filterMap doc.element? := List.mem_filterMap.mpr ⟨node, listed, found⟩
  cases test with
  | className name => exact List.mem_eraseDups.mpr (List.mem_flatMap.mpr ⟨e, among, holds⟩)
  | idName id => exact List.mem_filterMap.mpr ⟨e, among, holds⟩
  | typeName name => exact List.mem_eraseDups.mpr (List.mem_map.mpr ⟨e, among, holds⟩)
  | universal | attributeTest t | pseudoClass name args | pseudoElement name args => exact True.intro

theorem Styles.maySelect_of_named {used : Styles.UsedNames} {s : Selector}
    (named : ∀ test ∈ s.topTests, test.IsNamedIn used) : used.maySelect s = true := by
  rw [UsedNames.maySelect, Bool.and_eq_true_iff, Bool.and_eq_true_iff, List.all_eq_true, List.all_eq_true,
    List.all_eq_true]
  refine ⟨⟨?_, ?_⟩, ?_⟩
  -- For each kind of name, the tests that require one are those that name it.
  all_goals
    intro name required
    obtain ⟨test, listed, said⟩ := List.mem_filterMap.mp required
    rw [List.contains_iff_mem]
    cases test <;> cases said
    exact named _ listed

/-- A selector that selects an element of the document asks for no name that is missing
there. -/
theorem Selector.maySelect_of_selects {P : Element → Prop} {doc : Document} (grown : doc.Grown P)
    {s : Selector} (read : s.WasRead) {node : NodeId} (attached : doc.isAttached node = true)
    (selects : s.selects doc node = true) : (Styles.usedNames doc).maySelect s = true := by
  obtain ⟨-, line, fits⟩ := (Selector.selects_iff grown read).mp selects
  apply Styles.maySelect_of_named
  intro test tested
  obtain ⟨c, listed, inCompound⟩ := List.mem_flatMap.mp tested
  obtain ⟨i, inside, place⟩ := List.getElem_of_mem listed
  obtain ⟨e, found, holds⟩ := fits.described i c (place ▸ List.getElem?_eq_getElem inside)
  refine (holds test inCompound).isNamedIn (List.mem_filter.mpr ⟨?_, ?_⟩) found
  · exact (Document.isAttached_iff grown).mp (fits.isAttached grown attached inside)
  · exact Document.isElement_of_element? found

/-! ## What minifying does to the rules -/

theorem Selector.wasRead_of_form {relative : Bool} {s : Selector} (form : s.HasForm relative) : s.WasRead := by
  obtain ⟨compounds, isSimple⟩ := s
  obtain ⟨lead, -, joined⟩ := form.2.1
  exact ⟨⟨lead, joined⟩, form.1⟩

theorem holdsOfRead_selector : HoldsOfRead fun _ r => r.selector.WasRead := by
  intro start selectors selector block inMedia _ read listed
  exact Selector.wasRead_of_form (Selector.form_of_readList read selector listed)

/-- Whether a rule says of the same elements the same properties as another one, with the
same weight.  The values may be written in another way. -/
structure Rule.Restates (old new : Rule) : Prop where
  selector : new.selector = old.selector
  specificity : new.specificity = old.specificity
  inMedia : new.inMedia = old.inMedia
  hasPseudos : new.hasPseudos = old.hasPseudos
  properties : new.declarations.items.map (fun (name, d) => (name, d.important)) =
    old.declarations.items.map fun (name, d) => (name, d.important)

namespace Rule

/-- A rule with its values in their shortest form. -/
def minified (r : Rule) : Rule :=
  { r with declarations := r.declarations.minifyValues }

theorem restates_minified (r : Rule) : r.Restates r.minified := by
  refine ⟨rfl, rfl, rfl, rfl, ?_⟩
  change (r.declarations.items.map _).map _ = _
  rw [List.map_map]
  rfl

theorem isEmpty_minified (r : Rule) : r.minified.declarations.isEmpty = r.declarations.isEmpty :=
  List.isEmpty_map

end Rule

namespace Styles

/-- Whether minifying keeps a rule. -/
def keepsRule (doc : Document) (removeUnused : Bool) (r : Rule) : Bool :=
  !r.declarations.isEmpty && (!removeUnused || (usedNames doc).maySelect r.selector)

theorem keepsRule_minified (doc : Document) (removeUnused : Bool) (r : Rule) :
    keepsRule doc removeUnused r.minified = keepsRule doc removeUnused r := by
  rw [keepsRule, keepsRule, r.isEmpty_minified]
  rfl

theorem rules_minify (s : Styles) (doc : Document) (removeUnused : Bool) :
    Derived.rules (s.minify doc removeUnused).1.sheets =
      ((Derived.rules s.sheets).filter (keepsRule doc removeUnused)).map Rule.minified := by
  have oneSet (rules : List Rule) :
      (rules.map Rule.minified).filter (keepsRule doc removeUnused) =
        (rules.filter (keepsRule doc removeUnused)).map Rule.minified := by
    rw [List.filter_map]
    congr 2
    funext r
    exact keepsRule_minified doc removeUnused r
  rw [minify, rules_writeBack]
  simp only [Derived.rules, mapSets, ofSheets, List.flatMap_map, List.map_flatMap, List.filter_flatMap,
    List.flatMap_assoc]
  refine List.flatMap_congr fun sheet _ => List.flatMap_congr fun set _ => ?_
  exact oneSet set.rules

/-- In the cascade the rules that are kept stand as before. -/
theorem sorted_minify (s : Styles) (doc : Document) (removeUnused : Bool) :
    (s.minify doc removeUnused).1.derived.sorted =
      (s.derived.sorted.filter (keepsRule doc removeUnused)).map Rule.minified := by
  rw [(s.minify doc removeUnused).1.derived_eq, s.derived_eq, filter_sorted]
  change (Derived.rules _).mergeSort _ = _
  rw [rules_minify]
  exact (List.map_mergeSort (f := Rule.minified) fun a _ b _ => rfl).symm

/-- Removing unused rules is safe.  Whether or not unused rules are to go, minifying the
sheets for a document, be it the one they were read from or what has become of it, keeps
some rules and drops the others.  The ones it keeps stand in the cascade as before, with
their selectors, properties and importance; and each one that it drops declares nothing or
selects no element of the document. -/
theorem minify_drops_idle_rules_only {origin doc : Document} {s : Styles} (tree : doc.IsTree)
    (collected : ofDocument origin = .ok s) (removeUnused : Bool) :
    ∃ keep : Rule → Bool,
      List.Forall₂ Rule.Restates (s.derived.sorted.filter keep) (s.minify doc removeUnused).1.derived.sorted ∧
        ∀ r ∈ s.derived.sorted, keep r = false →
          r.declarations.items = [] ∨
            ∀ node, doc.isAttached node = true → r.selector.selects doc node = false := by
  refine ⟨keepsRule doc removeUnused, ?_, ?_⟩
  · rw [sorted_minify, List.forall₂_map_right_iff, List.forall₂_same]
    exact fun r _ => r.restates_minified
  · intro r listed dropped
    rw [s.derived_eq] at listed
    have ruled : r ∈ Derived.rules s.sheets := List.mem_mergeSort.mp listed
    rw [keepsRule, Bool.and_eq_false_iff] at dropped
    rcases dropped with nothing | unused
    · rw [Bool.not_eq_false'] at nothing
      exact Or.inl (List.isEmpty_iff.mp nothing)
    · rw [Bool.or_eq_false_iff] at unused
      refine Or.inr fun node attached => ?_
      by_contra selected
      rw [Bool.not_eq_false] at selected
      obtain ⟨-, read⟩ := exists_holds_of_ofDocument holdsOfRead_selector collected r ruled
      have may := r.selector.maySelect_of_selects tree read attached selected
      rw [may] at unused
      exact absurd unused.2 Bool.noConfusion

/-- Of three rules one is left: no element has the class that the second one names, and
the third one says nothing. -/
theorem idle_rules_are_dropped :
    ∃ doc s keep,
      Document.read
          "<svg><style>.a>g\x7bfill:#ff0000\x7d.b g\x7bfill:red\x7dg\x7b\x7d</style><g class='a'><g/></g></svg>"
          none = .ok doc ∧
        ofDocument doc = .ok s ∧ (Derived.rules s.sheets).length = 3 ∧
          (Derived.rules (s.minify doc true).1.sheets).length = 1 ∧
          List.Forall₂ Rule.Restates (s.derived.sorted.filter keep) (s.minify doc true).1.derived.sorted ∧
          ∀ r ∈ s.derived.sorted, keep r = false →
            r.declarations.items = [] ∨
              ∀ node, doc.isAttached node = true → r.selector.selects doc node = false := by
  have computed : ((Document.read
      "<svg><style>.a>g\x7bfill:#ff0000\x7d.b g\x7bfill:red\x7dg\x7b\x7d</style><g class='a'><g/></g></svg>"
      none).toOption.bind fun doc =>
        (ofDocument doc).toOption.map fun s =>
          ((Derived.rules s.sheets).length, (Derived.rules (s.minify doc true).1.sheets).length)) = some (3, 1) := by
    decide +kernel
  obtain ⟨doc, parsed, computed⟩ := Option.bind_eq_some_iff.mp computed
  obtain ⟨s, collected, computed⟩ := Option.map_eq_some_iff.mp computed
  rw [toOption_eq_some] at parsed collected
  obtain ⟨three, one⟩ := Prod.mk.inj computed
  have tree : doc.IsTree := (Document.grown_of_read parsed).isTree
  obtain ⟨keep, kept, idle⟩ := minify_drops_idle_rules_only tree collected true
  exact ⟨doc, s, keep, parsed, collected, three, one, kept, idle⟩

end Styles

end Css
end SlimSvg
