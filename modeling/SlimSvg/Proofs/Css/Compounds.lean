import SlimSvg.Css.Matching
import SlimSvg.Css.StyleEdits

namespace SlimSvg
namespace Css

/-!
# Compounds, also those inside of pseudo-classes

A selector is a tree of compounds, because a pseudo-class may hold selectors.
Whatever an edit of tests does, it does to the tests of every compound of that
tree, so compounds can be compared one by one before and after it.
-/

/-! ## All compounds of a selector -/

mutual

/-- The compounds of a selector in order; those inside of a pseudo-class follow the
one that has it. -/
def Selector.allCompounds : Selector → List Compound
  | ⟨compounds, _⟩ => compoundsWithin compounds

def compoundsWithin : List Compound → List Compound
  | [] => []
  | ⟨combinator, tests⟩ :: rest => ⟨combinator, tests⟩ :: (compoundsInside tests ++ compoundsWithin rest)

/-- The compounds inside of tests. -/
def compoundsInside : List SimpleSelector → List Compound
  | [] => []
  | .pseudoClass _ args :: rest => args.allCompounds ++ compoundsInside rest
  | _ :: rest => compoundsInside rest

def PseudoArguments.allCompounds : PseudoArguments → List Compound
  | .selectors list => selectorsCompounds list
  | _ => []

def selectorsCompounds : List Selector → List Compound
  | [] => []
  | s :: rest => s.allCompounds ++ selectorsCompounds rest

end

theorem mem_compoundsWithin {c : Compound} {compounds : List Compound} (listed : c ∈ compounds) :
    c ∈ compoundsWithin compounds := by
  induction compounds with
  | nil => cases listed
  | cons first rest inductionHypothesis =>
      rcases first with ⟨combinator, tests⟩
      rw [compoundsWithin]
      rcases List.mem_cons.mp listed with here | further
      · rw [here]
        exact List.mem_cons_self
      · exact List.mem_cons_of_mem _ (List.mem_append_right _ (inductionHypothesis further))

theorem Selector.mem_allCompounds {c : Compound} {s : Selector} (listed : c ∈ s.compounds) :
    c ∈ s.allCompounds := by
  rcases s with ⟨compounds, text⟩
  rw [allCompounds]
  exact mem_compoundsWithin listed

theorem subset_nestedTests {t : SimpleSelector} {tests : List SimpleSelector} (listed : t ∈ tests) :
    t ∈ nestedTests tests := by
  induction tests with
  | nil => cases listed
  | cons first rest inductionHypothesis =>
      have later : t ∈ rest → t ∈ nestedTests (first :: rest) := by
        intro among
        have found := inductionHypothesis among
        cases first with
        | pseudoClass name args =>
            exact List.mem_cons_of_mem _ (List.mem_append_right _ found)
        | _ => exact List.mem_cons_of_mem _ found
      rcases List.mem_cons.mp listed with here | among
      · rw [here]
        cases first <;> exact List.mem_cons_self
      · exact later among

mutual

/-- The tests of all compounds are those of the selector. -/
theorem Selector.mem_allTests {t : SimpleSelector} {c : Compound} (tested : t ∈ c.tests) :
    ∀ s : Selector, c ∈ s.allCompounds → t ∈ s.allTests
  | ⟨compounds, _⟩, listed => mem_compoundsTests tested compounds listed

theorem mem_compoundsTests {t : SimpleSelector} {c : Compound} (tested : t ∈ c.tests) :
    ∀ compounds : List Compound, c ∈ compoundsWithin compounds → t ∈ compoundsTests compounds
  | [], listed => by cases listed
  | ⟨combinator, tests⟩ :: rest, listed => by
    rcases List.mem_cons.mp listed with here | below
    · rw [here] at tested
      exact List.mem_append_left _ (subset_nestedTests tested)
    · rcases List.mem_append.mp below with inside | later
      · exact List.mem_append_left _ (mem_nestedTests tested tests inside)
      · exact List.mem_append_right _ (mem_compoundsTests tested rest later)

theorem mem_nestedTests {t : SimpleSelector} {c : Compound} (tested : t ∈ c.tests) :
    ∀ tests : List SimpleSelector, c ∈ compoundsInside tests → t ∈ nestedTests tests
  | [], listed => by cases listed
  | .pseudoClass _ args :: rest, listed => by
    rcases List.mem_append.mp listed with inside | later
    · exact List.mem_cons_of_mem _ (List.mem_append_left _ (args.mem_allTests tested inside))
    · exact List.mem_cons_of_mem _ (List.mem_append_right _ (mem_nestedTests tested rest later))
  | .universal :: rest, listed | .typeName _ :: rest, listed | .className _ :: rest, listed
  | .idName _ :: rest, listed | .attributeTest _ :: rest, listed
  | .pseudoElement _ _ :: rest, listed =>
    List.mem_cons_of_mem _ (mem_nestedTests tested rest listed)

theorem PseudoArguments.mem_allTests {t : SimpleSelector} {c : Compound} (tested : t ∈ c.tests) :
    ∀ args : PseudoArguments, c ∈ args.allCompounds → t ∈ args.allTests
  | .selectors list, listed => mem_selectorsTests tested list listed
  | .none, listed | .raw _, listed => by cases listed

theorem mem_selectorsTests {t : SimpleSelector} {c : Compound} (tested : t ∈ c.tests) :
    ∀ list : List Selector, c ∈ selectorsCompounds list → t ∈ selectorsTests list
  | [], listed => by cases listed
  | s :: rest, listed => by
    rcases List.mem_append.mp listed with here | later
    · exact List.mem_append_left _ (s.mem_allTests tested here)
    · exact List.mem_append_right _ (mem_selectorsTests tested rest later)

end

/-! ## Changes of names -/

/-- Whether nothing is changed in a test but the name of a class or an id. -/
def ChangesNames (f : SimpleSelector → SimpleSelector) : Prop :=
  ∀ t, f t = t ∨ (∃ old new, t = .className old ∧ f t = .className new) ∨
    ∃ old new, t = .idName old ∧ f t = .idName new

/-- Exchange the class that a test asks for, if a map knows it. -/
def SimpleSelector.renameClass (map : String → Option String) : SimpleSelector → SimpleSelector
  | .className name => .className ((map name).getD name)
  | t => t

/-- Exchange the id that a test asks for, if a map knows it. -/
def SimpleSelector.renameId (map : String → Option String) : SimpleSelector → SimpleSelector
  | .idName id => .idName ((map id).getD id)
  | t => t

/-- Exchange the classes that the tests of a compound ask for. -/
def Compound.renameClasses (map : String → Option String) (c : Compound) : Compound :=
  ⟨c.combinator, mapNested (.renameClass map) c.tests⟩

/-- Exchange the ids that the tests of a compound ask for. -/
def Compound.renameIds (map : String → Option String) (c : Compound) : Compound :=
  ⟨c.combinator, mapNested (.renameId map) c.tests⟩

theorem changesNames_renameClass (map : String → Option String) : ChangesNames (.renameClass map) := by
  intro t
  cases t with
  | className name => exact .inr (.inl ⟨name, _, rfl, rfl⟩)
  | _ => exact .inl rfl

theorem changesNames_renameId (map : String → Option String) : ChangesNames (.renameId map) := by
  intro t
  cases t with
  | idName id => exact .inr (.inr ⟨id, _, rfl, rfl⟩)
  | _ => exact .inl rfl

theorem mapNested_cons {f : SimpleSelector → SimpleSelector} {t : SimpleSelector}
    (bare : ∀ name list, t ≠ .pseudoClass name (.selectors list)) (rest : List SimpleSelector) :
    mapNested f (t :: rest) = f t :: mapNested f rest := by
  rw [mapNested]
  exact bare

theorem ChangesNames.compoundsInside_cons {f : SimpleSelector → SimpleSelector} (changes : ChangesNames f)
    {t : SimpleSelector} (bare : ∀ name list, t ≠ .pseudoClass name (.selectors list)) (rest : List SimpleSelector) :
    compoundsInside (f t :: rest) = compoundsInside rest := by
  rcases changes t with same | ⟨old, new, -, result⟩ | ⟨old, new, -, result⟩
  · rw [same]
    cases t with
    | pseudoClass name args =>
        cases args with
        | selectors list => exact absurd rfl (bare name list)
        | none => rfl
        | raw text => rfl
    | _ => rfl
  · rw [result]
    rfl
  · rw [result]
    rfl

section Renaming

variable {f : SimpleSelector → SimpleSelector}

mutual

/-- If no test is changed, neither is a selector. -/
theorem Selector.mapTests_eq_self (same : ∀ t, f t = t) : ∀ s : Selector, s.mapTests f = s
  | ⟨compounds, isSimple⟩ => congrArg (Selector.mk · isSimple) (mapCompounds_eq_self same compounds)

theorem mapCompounds_eq_self (same : ∀ t, f t = t) : ∀ compounds : List Compound, mapCompounds f compounds = compounds
  | [] => rfl
  | ⟨combinator, tests⟩ :: rest => by
    rw [mapCompounds, mapNested_eq_self same tests, mapCompounds_eq_self same rest]

theorem mapNested_eq_self (same : ∀ t, f t = t) : ∀ tests : List SimpleSelector, mapNested f tests = tests
  | [] => rfl
  | .pseudoClass name (.selectors list) :: rest => by
    rw [mapNested, mapSelectors_eq_self same list, mapNested_eq_self same rest]
  | .pseudoClass _ .none :: rest | .pseudoClass _ (.raw _) :: rest
  | .universal :: rest | .typeName _ :: rest | .className _ :: rest | .idName _ :: rest
  | .attributeTest _ :: rest | .pseudoElement _ _ :: rest => by
    rw [mapNested_cons (by simp), same, mapNested_eq_self same rest]

theorem mapSelectors_eq_self (same : ∀ t, f t = t) : ∀ list : List Selector, mapSelectors f list = list
  | [] => rfl
  | s :: rest => by rw [mapSelectors, s.mapTests_eq_self same, mapSelectors_eq_self same rest]

end

mutual

/-- The compounds of a changed selector are the changed compounds. -/
theorem Selector.allCompounds_mapTests (changes : ChangesNames f) :
    ∀ s : Selector, (s.mapTests f).allCompounds =
      s.allCompounds.map fun c => ⟨c.combinator, mapNested f c.tests⟩
  | ⟨compounds, _⟩ => compoundsWithin_mapCompounds changes compounds

theorem compoundsWithin_mapCompounds (changes : ChangesNames f) :
    ∀ compounds : List Compound, compoundsWithin (mapCompounds f compounds) =
      (compoundsWithin compounds).map fun c => ⟨c.combinator, mapNested f c.tests⟩
  | [] => rfl
  | ⟨combinator, tests⟩ :: rest => by
    rw [mapCompounds, compoundsWithin, compoundsWithin, compoundsInside_mapNested changes tests,
      compoundsWithin_mapCompounds changes rest, List.map_cons, List.map_append]

theorem compoundsInside_mapNested (changes : ChangesNames f) :
    ∀ tests : List SimpleSelector, compoundsInside (mapNested f tests) =
      (compoundsInside tests).map fun c => ⟨c.combinator, mapNested f c.tests⟩
  | [] => rfl
  | .pseudoClass name (.selectors list) :: rest => by
    rw [mapNested, compoundsInside, compoundsInside, PseudoArguments.allCompounds,
      PseudoArguments.allCompounds, selectorsCompounds_mapSelectors changes list,
      compoundsInside_mapNested changes rest, List.map_append]
  | .pseudoClass _ .none :: rest | .pseudoClass _ (.raw _) :: rest
  | .universal :: rest | .typeName _ :: rest | .className _ :: rest | .idName _ :: rest
  | .attributeTest _ :: rest | .pseudoElement _ _ :: rest => by
    rw [mapNested_cons (by simp), changes.compoundsInside_cons (by simp), compoundsInside_mapNested changes rest]
    rfl

theorem selectorsCompounds_mapSelectors (changes : ChangesNames f) :
    ∀ list : List Selector, selectorsCompounds (mapSelectors f list) =
      (selectorsCompounds list).map fun c => ⟨c.combinator, mapNested f c.tests⟩
  | [] => rfl
  | s :: rest => by
    rw [mapSelectors, selectorsCompounds, selectorsCompounds, s.allCompounds_mapTests changes,
      selectorsCompounds_mapSelectors changes rest, List.map_append]

end

/-- If every test says of a new element what it said of the old one, so do all
tests together. -/
theorem all_mapNested {e new : Element}
    {tests : List SimpleSelector} (same : ∀ t ∈ tests, (f t).accepts new = t.accepts e) :
    (mapNested f tests).all (·.accepts new) = tests.all (·.accepts e) := by
  induction tests with
  | nil => rfl
  | cons t rest inductionHypothesis =>
      have here := same t List.mem_cons_self
      have later := inductionHypothesis fun other listed => same other (List.mem_cons_of_mem t listed)
      -- Selectors inside of a pseudo-class are renamed too, but are not asked.
      unfold mapNested
      split
      · next nothing => cases nothing
      · next split =>
        rcases List.cons.inj split with ⟨pseudo, restEq⟩
        rw [List.all_cons, List.all_cons, ← restEq, later, pseudo]
        rfl
      · next split =>
        rcases List.cons.inj split with ⟨testEq, restEq⟩
        rw [List.all_cons, List.all_cons, ← testEq, ← restEq, here, later]

end Renaming

/-! ## What is known of the tests of rules -/

namespace Derived

variable {sheets : List Sheet} {r : Rule} {c : Compound}

theorem mem_tests (ruled : r ∈ rules sheets) (listed : c ∈ r.selector.allCompounds)
    {t : SimpleSelector} (tested : t ∈ c.tests) :
    t ∈ (rules sheets).flatMap (·.selector.allTests) :=
  List.mem_flatMap.mpr ⟨r, ruled, r.selector.mem_allTests tested listed⟩

/-- The classes that compounds ask for are the derived ones. -/
theorem mem_classes (ruled : r ∈ rules sheets) (listed : c ∈ r.selector.allCompounds)
    {name : String} (tested : .className name ∈ c.tests) : name ∈ (ofSheets sheets).classes :=
  List.mem_eraseDups.mpr
    (List.mem_filterMap.mpr ⟨.className name, mem_tests ruled listed tested, rfl⟩)

/-- The ids that compounds ask for are the derived ones. -/
theorem mem_ids (ruled : r ∈ rules sheets) (listed : c ∈ r.selector.allCompounds)
    {id : String} (tested : .idName id ∈ c.tests) : id ∈ (ofSheets sheets).ids :=
  List.mem_eraseDups.mpr
    (List.mem_filterMap.mpr ⟨.idName id, mem_tests ruled listed tested, rfl⟩)

/-- The attributes that compounds ask for are the derived ones. -/
theorem mem_attributeNames (ruled : r ∈ rules sheets) (listed : c ∈ r.selector.allCompounds)
    {t : AttributeTest} (tested : .attributeTest t ∈ c.tests) :
    t.name ∈ (ofSheets sheets).attributeNames :=
  List.mem_eraseDups.mpr
    (List.mem_filterMap.mpr ⟨.attributeTest t, mem_tests ruled listed tested, rfl⟩)

end Derived

/-- The sheets know which attributes their compounds ask for. -/
theorem Styles.testsAttribute_of_tested {s : Styles} {r : Rule} (ruled : r ∈ Derived.rules s.sheets) {c : Compound}
    (listed : c ∈ r.selector.allCompounds) {t : AttributeTest} (tested : .attributeTest t ∈ c.tests) :
    s.testsAttribute (some t.name) = true := by
  rw [testsAttribute, List.contains_iff_mem, s.derived_eq]
  exact Derived.mem_attributeNames ruled listed tested

end Css
end SlimSvg
