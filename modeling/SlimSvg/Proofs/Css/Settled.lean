import SlimSvg.Proofs.Css.Compounds
import SlimSvg.Proofs.Css.Forms
import SlimSvg.Proofs.Css.Sheets

namespace SlimSvg
namespace Css

/-!
# What rules remember of their selectors

A rule keeps the weight of its selector, whether that has pseudo-classes, and whether its
set has a media query; a selector keeps whether it is simple.  All of it is found out when
the rule is read, and no change of the sheets looks at it again.  That does no harm as long
as changes touch nothing in a selector but the names of classes and ids, however deep these
stand, and leave a rule in a set with the same media query.
-/

/-! ## All selectors of a selector -/

mutual

/-- A selector and the selectors inside of it. -/
def Selector.within : Selector → List Selector
  | ⟨compounds, isSimple⟩ => ⟨compounds, isSimple⟩ :: selectorsOfCompounds compounds

def selectorsOfCompounds : List Compound → List Selector
  | [] => []
  | ⟨_, tests⟩ :: rest => selectorsOfTests tests ++ selectorsOfCompounds rest

/-- The selectors that pseudo-classes among some tests hold. -/
def selectorsOfTests : List SimpleSelector → List Selector
  | [] => []
  | .pseudoClass _ args :: rest => args.within ++ selectorsOfTests rest
  | _ :: rest => selectorsOfTests rest

def PseudoArguments.within : PseudoArguments → List Selector
  | .selectors list => selectorsOfList list
  | _ => []

def selectorsOfList : List Selector → List Selector
  | [] => []
  | s :: rest => s.within ++ selectorsOfList rest

end

mutual

/-- A selector that was read knows whether it is simple, and so do those inside of it. -/
theorem Selector.isSimple_of_form {relative : Bool} :
    ∀ s : Selector, s.HasForm relative → ∀ inner ∈ s.within, inner.isSimple = areSimple inner.compounds
  | ⟨compounds, isSimple⟩, form, inner, listed => by
    rcases List.mem_cons.mp listed with here | deeper
    · rw [here]
      exact form.1
    · exact isSimple_of_compounds compounds form.2.2 inner deeper
termination_by structural s => s

theorem isSimple_of_compounds :
    ∀ compounds : List Compound, compoundsHaveForm compounds →
      ∀ inner ∈ selectorsOfCompounds compounds, inner.isSimple = areSimple inner.compounds
  | [], _, inner, listed => by cases listed
  | ⟨_, tests⟩ :: rest, form, inner, listed => by
    rcases List.mem_append.mp listed with here | later
    · exact isSimple_of_tests tests form.2.1 inner here
    · exact isSimple_of_compounds rest form.2.2 inner later
termination_by structural compounds => compounds

theorem isSimple_of_tests {isFirst : Bool} :
    ∀ tests : List SimpleSelector, testsHaveForm isFirst tests →
      ∀ inner ∈ selectorsOfTests tests, inner.isSimple = areSimple inner.compounds
  | [], _, inner, listed => by cases listed
  | .pseudoClass name args :: rest, form, inner, listed => by
    rcases List.mem_append.mp listed with here | later
    · exact args.isSimple_of_form form.2.1.2.2.2 inner here
    · exact isSimple_of_tests rest form.2.2 inner later
  | .universal :: rest, form, inner, listed | .typeName _ :: rest, form, inner, listed
  | .className _ :: rest, form, inner, listed | .idName _ :: rest, form, inner, listed
  | .attributeTest _ :: rest, form, inner, listed | .pseudoElement _ _ :: rest, form, inner, listed =>
    isSimple_of_tests rest form.2.2 inner listed
termination_by structural tests => tests

theorem PseudoArguments.isSimple_of_form {relative : Bool} :
    ∀ args : PseudoArguments, args.HasForm relative →
      ∀ inner ∈ args.within, inner.isSimple = areSimple inner.compounds
  | .selectors list, form, inner, listed => isSimple_of_list list form.2 inner listed
  | .none, _, inner, listed | .raw _, _, inner, listed => by cases listed
termination_by structural args => args

theorem isSimple_of_list {relative : Bool} :
    ∀ list : List Selector, selectorsHaveForm relative list →
      ∀ inner ∈ selectorsOfList list, inner.isSimple = areSimple inner.compounds
  | [], _, inner, listed => by cases listed
  | s :: rest, form, inner, listed => by
    rcases List.mem_append.mp listed with here | later
    · exact s.isSimple_of_form form.1 inner here
    · exact isSimple_of_list rest form.2 inner later
termination_by structural list => list

end

/-! ## Changes of names -/

section Renaming

variable {f : SimpleSelector → SimpleSelector}

theorem ChangesNames.isPlain_eq (changes : ChangesNames f) (t : SimpleSelector) : (f t).isPlain = t.isPlain := by
  rcases changes t with same | ⟨old, new, shape, result⟩ | ⟨old, new, shape, result⟩
  · rw [same]
  · rw [result, shape]
    rfl
  · rw [result, shape]
    rfl

theorem ChangesNames.all_isPlain_mapNested (changes : ChangesNames f) (tests : List SimpleSelector) :
    (mapNested f tests).all SimpleSelector.isPlain = tests.all SimpleSelector.isPlain := by
  induction tests with
  | nil => rfl
  | cons t rest inductionHypothesis =>
      by_cases nested : ∃ name list, t = .pseudoClass name (.selectors list)
      · rcases nested with ⟨name, list, shape⟩
        rw [shape]
        rfl
      · rw [mapNested_cons fun name list shape => nested ⟨name, list, shape⟩, List.all_cons, List.all_cons,
          changes.isPlain_eq, inductionHypothesis]

theorem ChangesNames.areSimple_mapCompounds (changes : ChangesNames f) (compounds : List Compound) :
    areSimple (mapCompounds f compounds) = areSimple compounds := by
  match compounds with
  | [] => rfl
  | [⟨combinator, tests⟩] =>
    change (combinator.isNone && (mapNested f tests).all SimpleSelector.isPlain) = _
    rw [changes.all_isPlain_mapNested]
    rfl
  | ⟨_, _⟩ :: ⟨_, _⟩ :: _ => rfl

/-- A test that is no pseudo-class adds only itself to the tests of a selector. -/
theorem any_isPseudo_nestedTests (t : SimpleSelector) (rest : List SimpleSelector) :
    (nestedTests (t :: rest)).any (·.isPseudo) = (t.isPseudo || (nestedTests rest).any (·.isPseudo)) := by
  cases t <;> rfl

theorem ChangesNames.any_isPseudo_mapNested (changes : ChangesNames f) (tests : List SimpleSelector) :
    (nestedTests (mapNested f tests)).any (·.isPseudo) = (nestedTests tests).any (·.isPseudo) := by
  induction tests with
  | nil => rfl
  | cons t rest inductionHypothesis =>
      by_cases nested : ∃ name list, t = .pseudoClass name (.selectors list)
      · rcases nested with ⟨name, list, shape⟩
        rw [shape]
        rfl
      · have isPseudo_eq : (f t).isPseudo = t.isPseudo := by
          rcases changes t with same | ⟨old, new, shape, result⟩ | ⟨old, new, shape, result⟩
          · rw [same]
          · rw [result, shape]
            rfl
          · rw [result, shape]
            rfl
        rw [mapNested_cons fun name list shape => nested ⟨name, list, shape⟩, any_isPseudo_nestedTests,
          any_isPseudo_nestedTests, isPseudo_eq, inductionHypothesis]

theorem ChangesNames.hasPseudos_mapTests (changes : ChangesNames f) (s : Selector) :
    (s.mapTests f).hasPseudos = s.hasPseudos := by
  rcases s with ⟨compounds, isSimple⟩
  change (compoundsTests (mapCompounds f compounds)).any (·.isPseudo) = (compoundsTests compounds).any (·.isPseudo)
  induction compounds with
  | nil => rfl
  | cons c rest inductionHypothesis =>
      rcases c with ⟨combinator, tests⟩
      rw [mapCompounds, compoundsTests, compoundsTests, List.any_append, List.any_append,
        changes.any_isPseudo_mapNested, inductionHypothesis]

theorem ChangesNames.weight_cons (changes : ChangesNames f) {t : SimpleSelector} {rest : List SimpleSelector}
    (first : mapNested f (t :: rest) = f t :: mapNested f rest)
    (later : testsWeight (mapNested f rest) = testsWeight rest) :
    testsWeight (mapNested f (t :: rest)) = testsWeight (t :: rest) := by
  rw [first, testsWeight, testsWeight, later]
  rcases changes t with same | ⟨old, new, shape, result⟩ | ⟨old, new, shape, result⟩
  · rw [same]
  · rw [result, shape]
    rfl
  · rw [result, shape]
    rfl

mutual

/-- New names do not change the weight of a selector. -/
theorem ChangesNames.specificity_mapTests (changes : ChangesNames f) :
    ∀ s : Selector, (s.mapTests f).specificity = s.specificity
  | ⟨compounds, _⟩ => changes.weight_mapCompounds compounds

theorem ChangesNames.weight_mapCompounds (changes : ChangesNames f) :
    ∀ compounds : List Compound, compoundsWeight (mapCompounds f compounds) = compoundsWeight compounds
  | [] => rfl
  | ⟨combinator, tests⟩ :: rest => by
    rw [mapCompounds, compoundsWeight, compoundsWeight, changes.weight_mapNested tests,
      changes.weight_mapCompounds rest]

theorem ChangesNames.weight_mapNested (changes : ChangesNames f) :
    ∀ tests : List SimpleSelector, testsWeight (mapNested f tests) = testsWeight tests
  | [] => rfl
  | .pseudoClass name (.selectors list) :: rest => by
    rw [mapNested, testsWeight, testsWeight, SimpleSelector.specificity, SimpleSelector.specificity,
      PseudoArguments.specificity, PseudoArguments.specificity, changes.heaviest_mapSelectors list,
      changes.weight_mapNested rest]
  | .pseudoClass _ .none :: rest | .pseudoClass _ (.raw _) :: rest
  | .universal :: rest | .typeName _ :: rest | .className _ :: rest | .idName _ :: rest
  | .attributeTest _ :: rest | .pseudoElement _ _ :: rest =>
    changes.weight_cons rfl (changes.weight_mapNested rest)

theorem ChangesNames.heaviest_mapSelectors (changes : ChangesNames f) :
    ∀ list : List Selector, heaviest (mapSelectors f list) = heaviest list
  | [] => rfl
  | s :: rest => by
    rw [mapSelectors, heaviest, heaviest, changes.specificity_mapTests s, changes.heaviest_mapSelectors rest]

end

theorem ChangesNames.selectors_cons (changes : ChangesNames f) {t : SimpleSelector} {rest : List SimpleSelector}
    (first : mapNested f (t :: rest) = f t :: mapNested f rest)
    (bare : ∀ others, selectorsOfTests (t :: others) = selectorsOfTests others)
    (later : selectorsOfTests (mapNested f rest) = (selectorsOfTests rest).map (·.mapTests f)) :
    selectorsOfTests (mapNested f (t :: rest)) = (selectorsOfTests (t :: rest)).map (·.mapTests f) := by
  rw [first, bare, ← later]
  rcases changes t with same | ⟨old, new, shape, result⟩ | ⟨old, new, shape, result⟩
  · rw [same, bare]
  · rw [result]
    rfl
  · rw [result]
    rfl

mutual

/-- The selectors inside of a renamed selector are the renamed selectors. -/
theorem ChangesNames.within_mapTests (changes : ChangesNames f) :
    ∀ s : Selector, (s.mapTests f).within = s.within.map (·.mapTests f)
  | ⟨compounds, isSimple⟩ => by
    rw [Selector.mapTests, Selector.within, Selector.within, changes.selectors_mapCompounds compounds,
      List.map_cons, Selector.mapTests]

theorem ChangesNames.selectors_mapCompounds (changes : ChangesNames f) :
    ∀ compounds : List Compound,
      selectorsOfCompounds (mapCompounds f compounds) = (selectorsOfCompounds compounds).map (·.mapTests f)
  | [] => rfl
  | ⟨combinator, tests⟩ :: rest => by
    rw [mapCompounds, selectorsOfCompounds, selectorsOfCompounds, changes.selectors_mapNested tests,
      changes.selectors_mapCompounds rest, List.map_append]

theorem ChangesNames.selectors_mapNested (changes : ChangesNames f) :
    ∀ tests : List SimpleSelector,
      selectorsOfTests (mapNested f tests) = (selectorsOfTests tests).map (·.mapTests f)
  | [] => rfl
  | .pseudoClass name (.selectors list) :: rest => by
    rw [mapNested, selectorsOfTests, selectorsOfTests, PseudoArguments.within, PseudoArguments.within,
      changes.selectors_mapSelectors list, changes.selectors_mapNested rest, List.map_append]
  | .pseudoClass _ .none :: rest | .pseudoClass _ (.raw _) :: rest
  | .universal :: rest | .typeName _ :: rest | .className _ :: rest | .idName _ :: rest
  | .attributeTest _ :: rest | .pseudoElement _ _ :: rest =>
    changes.selectors_cons rfl (fun _ => rfl) (changes.selectors_mapNested rest)

theorem ChangesNames.selectors_mapSelectors (changes : ChangesNames f) :
    ∀ list : List Selector,
      selectorsOfList (mapSelectors f list) = (selectorsOfList list).map (·.mapTests f)
  | [] => rfl
  | s :: rest => by
    rw [mapSelectors, selectorsOfList, selectorsOfList, changes.within_mapTests s,
      changes.selectors_mapSelectors rest, List.map_append]

end

end Renaming

/-! ## Settled rules -/

/-- Whether all that a rule remembers is still true of its selector and of a set in or
outside of media. -/
structure Rule.Settled (inMedia : Bool) (r : Rule) : Prop where
  specificity : r.specificity = r.selector.specificity
  hasPseudos : r.hasPseudos = r.selector.hasPseudos
  isSimple : ∀ s ∈ r.selector.within, s.isSimple = areSimple s.compounds
  inMedia : r.inMedia = inMedia

theorem holdsOfRead_settled : HoldsOfRead Rule.Settled := by
  intro start selectors selector block inMedia _ read listed
  have form := Selector.form_of_readList read selector listed
  exact ⟨rfl, rfl, selector.isSimple_of_form form, rfl⟩

theorem Rule.Settled.mapTests {f : SimpleSelector → SimpleSelector} (changes : ChangesNames f) {inMedia : Bool}
    {r : Rule} (settled : r.Settled inMedia) : (r.mapTests f).Settled inMedia := by
  refine ⟨?_, ?_, ?_, settled.inMedia⟩
  · change r.specificity = (r.selector.mapTests f).specificity
    rw [changes.specificity_mapTests, settled.specificity]
  · change r.hasPseudos = (r.selector.mapTests f).hasPseudos
    rw [changes.hasPseudos_mapTests, settled.hasPseudos]
  · intro s listed
    change s ∈ (r.selector.mapTests f).within at listed
    rw [changes.within_mapTests] at listed
    rcases List.mem_map.mp listed with ⟨inner, among, same⟩
    have known := settled.isSimple inner among
    rcases inner with ⟨compounds, isSimple⟩
    rw [← same, Selector.mapTests, changes.areSimple_mapCompounds]
    exact known

/-- What a rule remembers does not hang on its declarations. -/
theorem Rule.Settled.withDeclarations {inMedia : Bool} {r : Rule} (settled : r.Settled inMedia)
    (declarations : Declarations) : ({ r with declarations } : Rule).Settled inMedia :=
  ⟨settled.specificity, settled.hasPseudos, settled.isSimple, settled.inMedia⟩

/-- Whether all rules of some sheets are settled. -/
def SheetsSettled (sheets : List Sheet) : Prop :=
  ∀ sheet ∈ sheets, AllRules Rule.Settled sheet.sets

namespace Styles

variable {s : Styles}

theorem settled_ofDocument {doc : Document} (collected : ofDocument doc = .ok s) : SheetsSettled s.sheets :=
  allRules_of_ofDocument holdsOfRead_settled collected

/-- A change of all sets that keeps the rules of each settled keeps all rules settled. -/
theorem settled_mapSets (settled : SheetsSettled s.sheets) {f : RuleSet → RuleSet}
    (keeps : ∀ set, (∀ r ∈ set.rules, r.Settled set.media.isSome) →
      ∀ r ∈ (f set).rules, r.Settled (f set).media.isSome) :
    SheetsSettled (s.mapSets f).sheets := by
  intro sheet listed set inSheet
  rcases List.mem_map.mp listed with ⟨old, among, same⟩
  rw [← same] at inSheet
  rcases List.mem_map.mp inSheet with ⟨oldSet, amongSets, sameSet⟩
  rw [← sameSet]
  exact keeps oldSet (settled old among oldSet amongSets)

theorem settled_mapRules (settled : SheetsSettled s.sheets) {f : Rule → Rule}
    (keeps : ∀ {inMedia r}, Rule.Settled inMedia r → (f r).Settled inMedia) :
    SheetsSettled (s.mapRules f).sheets := by
  refine settled_mapSets settled ?_
  intro set known r listed
  rcases List.mem_map.mp listed with ⟨old, among, same⟩
  rw [← same]
  exact keeps (known old among)

theorem settled_renameClasses (settled : SheetsSettled s.sheets) (map : String → Option String) :
    SheetsSettled (s.renameClasses map).sheets :=
  settled_mapRules settled fun known => known.mapTests (changesNames_renameClass map)

theorem settled_renameIds (settled : SheetsSettled s.sheets) (map : String → Option String) :
    SheetsSettled (s.renameIds map).sheets :=
  settled_mapRules settled fun known => (known.mapTests (changesNames_renameId map)).withDeclarations _

theorem settled_writeBack (settled : SheetsSettled s.sheets) (doc : Document) :
    SheetsSettled (s.writeBack doc).1.sheets := by
  intro sheet listed
  exact settled sheet (List.mem_filter.mp listed).1

theorem asBlock_media (set : RuleSet) : (asBlock set).media = set.media := by
  rw [asBlock]
  split
  · rfl
  · rfl

theorem asBlock_rules (set : RuleSet) : (asBlock set).rules = set.rules := by
  rw [asBlock]
  split
  · rfl
  · rfl

theorem settled_merge (settled : SheetsSettled s.sheets) (doc : Document) :
    SheetsSettled (s.merge doc).2.1.sheets := by
  rw [merge]
  split
  · next first second others sheetsEq =>
    refine settled_writeBack ?_ _
    intro sheet listed set inSheet
    rw [List.mem_singleton.mp listed] at inSheet
    rcases List.mem_map.mp inSheet with ⟨old, among, same⟩
    rcases List.mem_flatMap.mp among with ⟨oldSheet, amongSheets, inOldSheet⟩
    rw [← same, asBlock_media, asBlock_rules]
    exact settled oldSheet amongSheets old inOldSheet
  · exact settled

theorem settled_minify (settled : SheetsSettled s.sheets) (doc : Document) (removeUnused : Bool) :
    SheetsSettled (s.minify doc removeUnused).1.sheets := by
  rw [minify]
  refine settled_writeBack (settled_mapSets settled ?_) doc
  intro set known r listed
  rcases List.mem_map.mp (List.mem_filter.mp listed).1 with ⟨old, among, same⟩
  rw [← same]
  exact (known old among).withDeclarations _

theorem settled_addText (settled : SheetsSettled s.sheets) {doc after : Document} {css : String} {later : Styles}
    (added : s.addText doc css = .ok (later, after)) : SheetsSettled later.sheets := by
  rw [addText] at added
  rcases bind_eq_ok.mp added with ⟨sets, setsRead, added⟩
  have new : AllRules Rule.Settled sets := allRules_of_readSheet holdsOfRead_settled setsRead
  split at added
  · next last found =>
    have among : last ∈ s.sheets := by
      rcases Option.filter_eq_some_iff.mp found with ⟨isLast, -⟩
      exact List.mem_of_getLast? isLast
    rw [← (Prod.mk.inj (pure_eq_ok.mp added)).1]
    refine settled_writeBack ?_ doc
    intro sheet listed
    rcases List.mem_append.mp listed with before | here
    · exact settled sheet ((List.dropLast_sublist _).subset before)
    · rw [List.mem_singleton.mp here]
      intro set inSheet
      rcases List.mem_append.mp inSheet with old | added
      · exact settled last among set old
      · exact new set added
  · split at added
    · rw [← (Prod.mk.inj (pure_eq_ok.mp added)).1]
      exact settled
    · next parent index placed =>
      rcases doc.insertAt parent index (.element (.ofName "style")) with ⟨element, grown⟩
      rw [← (Prod.mk.inj (pure_eq_ok.mp added)).1]
      refine settled_writeBack ?_ grown
      intro sheet listed
      rcases List.mem_append.mp listed with before | here
      · exact settled sheet before
      · rw [List.mem_singleton.mp here]
        exact new

end Styles
end Css
end SlimSvg
