import SlimSvg.Proofs.Css.Selection
import SlimSvg.Proofs.Css.Sheets
import SlimSvg.Proofs.Css.WriteBack
import SlimSvg.Proofs.Tree.Attributes
import SlimSvg.Proofs.Tree.Reading

namespace SlimSvg
namespace Css

/-!
# Sheets in one style element

Merging keeps all rules in their order.  It takes the other style elements out of the
tree and the attribute `media` from the first one, and both can be seen by selectors:
by those that look at elements beside another one, and by those that test `media`.
Where no such rule selects anything else than before, the cascade is what it was.
-/

/-! ## What merging does to an element -/

/-- Whether a selector asks for elements before another one. -/
def Selector.looksAside (s : Selector) : Bool :=
  s.compounds.any fun c => c.combinator == some .adjacent || c.combinator == some .sibling

/-- Whether a selector tests an attribute of some name. -/
def Selector.testsAttribute (s : Selector) (name : String) : Bool :=
  s.topTests.any fun
    | .attributeTest t => t.name == name
    | _ => false

section Media

variable {e : Element}

theorem accepts_removeAttribute {name : String} (notClass : name ≠ "class") (notId : name ≠ "id")
    {t : SimpleSelector} (untested : ∀ test, t = .attributeTest test → test.name ≠ name) :
    t.accepts (e.removeAttribute name) = t.accepts e :=
  SimpleSelector.accepts_congr rfl rfl (Element.attribute?_removeAttribute_of_ne e (Ne.symm notClass))
    (Element.attribute?_removeAttribute_of_ne e (Ne.symm notId))
    fun test same => Element.attribute?_removeAttribute_of_ne e (untested test same)

theorem isGeometry_media (element : String) : Vocabulary.isGeometry element "media" = false := by
  unfold Vocabulary.isGeometry Vocabulary.geometryNames
  split <;> rfl

/-- The attribute `media` is no property. -/
theorem attributeStyle_removeAttribute_media :
    Styles.attributeStyle (e.removeAttribute "media") = Styles.attributeStyle e := by
  have skipped : ∀ (items : List Attribute) (style : ComputedStyle),
      (items.eraseP (·.name == "media")).foldl
          (fun style a =>
            if Vocabulary.isPresentation a.name || Vocabulary.isGeometry e.name a.name then
              style.set a.name (.ofText a.value.text)
            else style) style =
        items.foldl
          (fun style a =>
            if Vocabulary.isPresentation a.name || Vocabulary.isGeometry e.name a.name then
              style.set a.name (.ofText a.value.text)
            else style) style := by
    intro items
    induction items with
    | nil => exact fun _ => rfl
    | cons a rest inductionHypothesis =>
        intro style
        rw [Attributes.eraseP_name_cons]
        split
        · next here =>
          have presentation : Vocabulary.isPresentation "media" = false := by decide
          rw [List.foldl_cons, here, presentation, isGeometry_media]
          rfl
        · rw [List.foldl_cons, List.foldl_cons, inductionHypothesis]
  exact skipped e.attributes.items .empty

end Media

namespace Styles

/-! ## What merging does to a document -/

theorem rules_asBlock (sets : List RuleSet) :
    (sets.map asBlock).flatMap (·.rules) = sets.flatMap (·.rules) := by
  rw [List.flatMap_map]
  congr 1
  funext set
  rw [asBlock]
  split <;> rfl

/-- Merging loses no rule and changes no order. -/
theorem rules_merge (s : Styles) (doc : Document) :
    Derived.rules (s.merge doc).2.1.sheets = Derived.rules s.sheets := by
  rw [merge]
  split
  · next first second others sheetsEq =>
    change Derived.rules (writeBack (ofSheets [_]) _).1.sheets = _
    rw [rules_writeBack]
    change ([_].flatMap Sheet.sets).flatMap (·.rules) = _
    rw [List.flatMap_singleton, rules_asBlock, Derived.rules]
  · rfl

/-- A document in which style elements were merged, compared with the one before. -/
structure Merged (doc other : Document) : Prop where
  grown : other.Grown fun _ => True
  pruned : Document.Pruned doc other
  element?_eq : ∀ id, other.element? id = doc.element? id ∨
    ∃ e, doc.element? id = some e ∧ other.element? id = some (e.removeAttribute "media")

theorem merged_merge {P : Element → Prop} (s : Styles) {doc : Document} (grown : doc.Grown P)
    (held : ∀ sheet ∈ s.sheets, doc.isElement sheet.element) : Merged doc (s.merge doc).2.2 := by
  have weakGrown : doc.Grown fun _ => True := (Document.SameShape.refl doc).grown grown fun _ => True.intro
  rw [merge]
  split
  · next first second others sheetsEq =>
    have removed := Document.trimmed_foldl_detach weakGrown ((second :: others).map (·.element))
    rw [List.foldl_map] at removed
    let rest := (second :: others).foldl (fun doc sheet => doc.detach sheet.element) doc
    have shape := Document.sameShape_modifyElement rest first.element (·.removeAttribute "media")
    have changed := Document.element?_modifyElement rest first.element (·.removeAttribute "media")
    have changedGrown := shape.grown (Q := fun _ => True) removed.grown fun _ => True.intro
    have firstHeld : doc.isElement first.element := held first (sheetsEq ▸ List.mem_cons_self)
    have written := trimmed_writeBack (ofSheets [⟨first.element, (s.sheets.flatMap (·.sets)).map asBlock⟩])
      changedGrown (by
        intro sheet listed
        rw [List.mem_singleton.mp listed, shape.isElement_eq, removed.pruned.isElement_eq]
        exact firstHeld)
    refine ⟨written.grown, (removed.pruned.trans shape.pruned).trans written.pruned, ?_⟩
    intro id
    rw [written.element?_eq, changed, removed.element?_eq]
    split
    · cases found : doc.element? id with
      | none => exact Or.inl rfl
      | some e => exact Or.inr ⟨e, rfl, rfl⟩
    · exact Or.inl rfl
  · exact ⟨weakGrown, .refl doc, fun _ => Or.inl rfl⟩

/-! ## What rules select afterwards -/

section Selecting

variable {doc other : Document}

/-- A selector that looks neither aside nor at `media` selects what it did, among the
elements that are still there. -/
theorem Merged.selects_eq {P : Element → Prop} (merged : Merged doc other) (grown : doc.Grown P)
    {selector : Selector} (upwards : selector.looksAside = false)
    (untested : selector.testsAttribute "media" = false) {node : NodeId}
    (element : doc.isElement node) (attached : other.isAttached node = true) :
    selector.selects other node = selector.selects doc node := by
  suffices agree : ∀ c ∈ selector.compounds,
      c.Agrees doc other fun id => doc.isElement id ∧ other.isAttached id = true from
    Selector.selects_congr merged.pruned.isElement_eq agree ⟨element, attached⟩
  intro c listed
  have lines := fun {id : NodeId} (reached : doc.isElement id ∧ other.isAttached id = true) =>
    merged.pruned.elementAncestors_eq grown merged.grown reached.1 reached.2
  have parents : ∀ id, doc.isElement id ∧ other.isAttached id = true →
      other.parentElement? id = doc.parentElement? id := by
    intro id reached
    rw [Document.parentElement?_eq_head?, Document.parentElement?_eq_head?, (lines reached).1]
  have upper : ∀ id, doc.isElement id ∧ other.isAttached id = true →
      ∀ outer ∈ doc.elementAncestors id, doc.isElement outer ∧ other.isAttached outer = true := by
    intro id reached outer above
    rw [← (lines reached).1] at above
    exact ⟨((Document.mem_elementAncestors grown).mp ((lines reached).1 ▸ above)).2,
      (lines reached).2 outer above⟩
  have straight : c.combinator.getD .descendant = .descendant ∨
      c.combinator.getD .descendant = .child := by
    rw [Selector.looksAside, List.any_eq_false] at upwards
    have here := upwards c listed
    cases combined : c.combinator with
    | none => exact Or.inl rfl
    | some combinator => rw [combined] at here; cases combinator <;> simp_all
  refine ⟨?_, ?_, ?_⟩
  · intro id _
    apply Compound.accepts_congr
    rcases merged.element?_eq id with same | ⟨e, found, changed⟩
    · exact Or.inl same
    · refine Or.inr ⟨e, _, found, changed, ?_⟩
      intro t tested
      apply accepts_removeAttribute (by decide) (by decide)
      intro test same named
      rw [Selector.testsAttribute, List.any_eq_false] at untested
      apply untested t (List.mem_flatMap.mpr ⟨c, listed, tested⟩)
      rw [same]
      exact beq_iff_eq.mpr named
  · intro id reached
    rcases straight with descendant | child
    · rw [descendant]
      exact (lines reached).1
    · rw [child]
      exact congrArg Option.toList (parents id reached)
  · intro id reached outer related
    rcases straight with descendant | child
    · rw [descendant] at related
      exact upper id reached outer related
    · rw [child] at related
      apply upper id reached
      apply List.mem_of_mem_head?
      rw [← Document.parentElement?_eq_head?]
      exact Option.mem_toList.mp related

end Selecting

/-- Merging keeps what the cascade gives to an element of the tree, unless some rule
that looks at elements beside others or tests `media` no longer selects the element,
or selects it only now. -/
theorem ownStyle_merge {text : String} {title : Option String} {doc : Document} {s : Styles}
    {node : NodeId} (parsed : Document.read text title = .ok doc)
    (collected : ofDocument doc = .ok s)
    (attached : (s.merge doc).2.2.isAttached node = true) :
    (s.merge doc).2.1.ownStyle (s.merge doc).2.2 node = s.ownStyle doc node ∨
      ∃ r ∈ Derived.rules s.sheets,
        (r.selector.looksAside = true ∨ r.selector.testsAttribute "media" = true) ∧
          r.selector.selects (s.merge doc).2.2 node ≠ r.selector.selects doc node := by
  have grown := Document.grown_of_read parsed
  have held : ∀ sheet ∈ s.sheets, doc.isElement sheet.element := by
    intro sheet listed
    rcases exists_sheetOf_of_ofDocument collected sheet listed with ⟨e, -, found, -⟩
    exact Document.isElement_of_element? found
  have merged := merged_merge s grown held
  have rulesEq := rules_merge s doc
  generalize (s.merge doc).2.1 = others at rulesEq ⊢
  generalize (s.merge doc).2.2 = other at merged attached ⊢
  by_cases changed : ∃ r ∈ Derived.rules s.sheets,
      (r.selector.looksAside = true ∨ r.selector.testsAttribute "media" = true) ∧
        r.selector.selects other node ≠ r.selector.selects doc node
  · exact Or.inr changed
  · left
    cases found : doc.element? node with
    | none =>
        have gone : other.element? node = none := by
          rcases merged.element?_eq node with same | ⟨e, present, -⟩
          · exact same.trans found
          · rw [found] at present
            cases present
        rw [ownStyle, ownStyle, ownStyleWith, ownStyleWith, found, gone]
    | some e =>
        have element := Document.isElement_of_element? found
        have selectsEq : ∀ r ∈ Derived.rules s.sheets,
            r.selector.selects other node = r.selector.selects doc node := by
          intro r ruled
          by_contra different
          apply changed
          refine ⟨r, ruled, ?_, different⟩
          by_contra blind
          rw [not_or, Bool.not_eq_true, Bool.not_eq_true] at blind
          exact different (merged.selects_eq grown blind.1 blind.2 element attached)
        have matchingEq := matchingRules_congr rulesEq selectsEq
        rcases merged.element?_eq node with same | ⟨old, present, changed⟩
        · simp only [ownStyle, ownStyleWith, applyRules, same, found, matchingEq]
        · rw [found] at present
          rw [← Option.some.inj present] at changed
          have style : (e.removeAttribute "media").attribute? "style" = e.attribute? "style" :=
            Element.attribute?_removeAttribute_of_ne e (by decide)
          simp only [ownStyle, ownStyleWith, applyRules, changed, found, matchingEq,
            attributeStyle_removeAttribute_media, Option.bind_some, style]
          rfl

theorem child_rule_is_kept :
    ∃ doc s,
      Document.read "<svg><style>svg>g\x7bfill:red\x7d</style><style/><g/></svg>" none = .ok doc ∧
      ofDocument doc = .ok s ∧ (s.merge doc).2.2.isAttached ⟨5⟩ = true ∧
      (s.merge doc).2.1.ownStyle (s.merge doc).2.2 ⟨5⟩ = s.ownStyle doc ⟨5⟩ := by
  have computed : ((Document.read "<svg><style>svg>g\x7bfill:red\x7d</style><style/><g/></svg>"
      none).toOption.bind fun doc => (ofDocument doc).toOption.map fun s =>
        (s.merge doc).2.2.isAttached ⟨5⟩ &&
          (Derived.rules s.sheets).all fun r =>
            !(r.selector.looksAside || r.selector.testsAttribute "media")) = some true := by
    decide +kernel
  rcases Option.bind_eq_some_iff.mp computed with ⟨doc, parsed, computed⟩
  rcases Option.map_eq_some_iff.mp computed with ⟨s, collected, computed⟩
  rw [toOption_eq_some] at parsed collected
  rw [Bool.and_eq_true, List.all_eq_true] at computed
  refine ⟨doc, s, parsed, collected, computed.1, ?_⟩
  rcases ownStyle_merge parsed collected computed.1 with same | ⟨r, ruled, sighted, -⟩
  · exact same
  · have blind := computed.2 r ruled
    simp only [Bool.not_or, Bool.and_eq_true, Bool.not_eq_true'] at blind
    rw [blind.1, blind.2] at sighted
    rcases sighted with impossible | impossible <;> cases impossible

/-- The second style element stood between `a` and `g`; without it the element before
`g` is no longer a style element. -/
theorem merge_changes_the_element_before :
    ∃ doc s,
      Document.read "<svg><style>style+g\x7bfill:red\x7d</style><a/><style/><g/></svg>" none =
        .ok doc ∧
      ofDocument doc = .ok s ∧ (s.merge doc).2.2.isAttached ⟨6⟩ = true ∧
      (s.ownStyle doc ⟨6⟩).get? "fill" = some (.known "red") ∧
      ((s.merge doc).2.1.ownStyle (s.merge doc).2.2 ⟨6⟩).get? "fill" = none := by
  have computed : ((Document.read "<svg><style>style+g\x7bfill:red\x7d</style><a/><style/><g/></svg>"
      none).toOption.bind fun doc => (ofDocument doc).toOption.map fun s =>
        ((s.merge doc).2.2.isAttached ⟨6⟩, (s.ownStyle doc ⟨6⟩).get? "fill",
          ((s.merge doc).2.1.ownStyle (s.merge doc).2.2 ⟨6⟩).get? "fill")) =
      some (true, some (.known "red"), none) := by
    decide +kernel
  rcases Option.bind_eq_some_iff.mp computed with ⟨doc, parsed, computed⟩
  rcases Option.map_eq_some_iff.mp computed with ⟨s, collected, values⟩
  rw [toOption_eq_some] at parsed collected
  rcases Prod.mk.inj values with ⟨attached, values⟩
  rcases Prod.mk.inj values with ⟨before, behind⟩
  exact ⟨doc, s, parsed, collected, attached, before, behind⟩

end Styles

end Css
end SlimSvg
