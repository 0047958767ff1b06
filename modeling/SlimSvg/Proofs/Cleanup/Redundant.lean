import SlimSvg.Cleanup.Redundant
import SlimSvg.Proofs.Css.Cascade
import SlimSvg.Proofs.Css.Memory
import SlimSvg.Proofs.Value.Variables
import SlimSvg.Proofs.Cleanup.Revision
import SlimSvg.Proofs.Tree.Attributes

namespace SlimSvg

namespace Css

/-!
# What a property comes to

Two styles can differ and still come to the same: a property that is not set has its
initial value, and the shortest texts tell what values mean.  A presentation attribute
that is redundant where an element stands can be left out without a change of what
the properties of the element come to.
-/

/-! ## Texts of known values -/

/-- Whether the texts of known values are trimmed and refer to no custom property. -/
def ComputedStyle.Plain (style : ComputedStyle) : Prop :=
  ∀ name text, style.get? name = some (.known text) →
    Text.trim text = text ∧ Text.hasVariable text = false

theorem ComputedStyle.plain_empty : ComputedStyle.empty.Plain := by
  intro name text found
  cases found

theorem ComputedStyle.Plain.inheritFrom {style parent : ComputedStyle} (distinct : style.Distinct)
    (plain : style.Plain) (parentPlain : parent.Plain) : (style.inheritFrom parent).Plain := by
  intro name text found
  rw [get?_inheritFrom distinct] at found
  split at found
  · next v own =>
    split at found
    · exact parentPlain name text found
    · rw [found] at own
      exact plain name text own
  · split at found
    · exact parentPlain name text found
    · cases found

theorem Candidate.plain_of_value {element name text : String} {c : Candidate}
    (value : c.value element name = .known text) : Text.trim text = text ∧ Text.hasVariable text = false := by
  rw [Candidate.value] at value
  split at value
  · cases value
  · next static =>
    rcases ComputedValue.known.inj value
    rw [Text.hasVariable_trim]
    refine ⟨Text.trim_trim c.text, ?_⟩
    unfold Candidate.isDynamic at static
    rw [Bool.or_eq_true, not_or] at static
    exact Bool.eq_false_iff.mpr static.1

section Document

variable {doc : Document} {s : Styles}

theorem Styles.plain_ownStyle (grown : doc.Grown Element.Typed)
    (distinct : ∀ r ∈ Derived.rules s.sheets, r.declarations.Distinct) (node : NodeId) :
    (s.ownStyle doc node).Plain := by
  cases found : doc.element? node with
  | none =>
      rw [ownStyle, ownStyleWith, found]
      exact ComputedStyle.plain_empty
  | some e =>
      intro name text set
      rcases ((get?_ownStyle (grown.element_fits found) found distinct (placement_zipIdx _) name).2 _).mp
        set with ⟨c, -, value⟩
      exact c.plain_of_value value

theorem Styles.plain_inherited (grown : doc.Grown Element.Typed)
    (distinct : ∀ r ∈ Derived.rules s.sheets, r.declarations.Distinct) (nodes : List NodeId) :
    (inherited (s.ownStyle doc) nodes).Plain := by
  induction nodes with
  | nil => exact ComputedStyle.plain_empty
  | cons node outer inductionHypothesis =>
      exact (plain_ownStyle grown distinct node).inheritFrom (s.distinct_ownStyle doc node)
        inductionHypothesis

end Document

/-! ## Effects -/

/-- What a property comes to. -/
inductive Effect where
  | unset
  /-- A value with its shortest text. -/
  | shows (minified : String)
  /-- The value depends on more than the document. -/
  | dynamic
deriving DecidableEq, Repr

namespace Effect

/-- What a value comes to that is the text of a property. -/
def ofText (name text : String) : Effect :=
  shows (AttributeValue.ofProperty name text).minified

/-- What a property comes to for which some style sets a value or none. -/
def of (name : String) : Option ComputedValue → Effect
  | some (.known text) => ofText name text
  | some .dynamic => dynamic
  | none =>
    match Vocabulary.defaultValue? name with
    | some text => ofText name text
    | none => unset

end Effect

/-! ## Initial values -/

/-- What is to be known of the texts of initial values. -/
structure PlainDefault (name text : String) : Prop where
  trim_eq : Text.trim text = text
  hasVariable_eq : Text.hasVariable text = false
  asksNot : (PropertyValue.ofText name "inherit").minified ≠ (PropertyValue.ofText name text).minified

instance (name text : String) : Decidable (PlainDefault name text) :=
  decidable_of_iff
    (Text.trim text = text ∧ Text.hasVariable text = false ∧
      (PropertyValue.ofText name "inherit").minified ≠ (PropertyValue.ofText name text).minified)
    ⟨fun ⟨trimmed, plain, asks⟩ => ⟨trimmed, plain, asks⟩,
      fun ⟨trimmed, plain, asks⟩ => ⟨trimmed, plain, asks⟩⟩

theorem plainDefault_of_presentation {name text : String} (presentation : Vocabulary.isPresentation name = true)
    (initial : Vocabulary.defaultValue? name = some text) : PlainDefault name text := by
  have all : ∀ name ∈ Vocabulary.presentationNames, ∀ text ∈ Vocabulary.defaultValue? name,
      PlainDefault name text := by
    decide +kernel
  exact all name (List.contains_iff_mem.mp presentation) text initial

end Css

namespace Cleanup

open Css (ComputedStyle ComputedValue Effect)

/-! ## Redundant values -/

/-- Only what can be inherited is inherited. -/
theorem Inheritance.get?_eq_some {place : Inheritance} {name : String} {v : ComputedValue}
    (found : place.get? name = some v) :
    Vocabulary.isInheritable name = true ∧ place.parent.get? name = some v := by
  rw [get?] at found
  split at found
  · next inheritable => exact ⟨inheritable, found⟩
  · cases found

/-- A redundant attribute repeats the initial value or an inherited one. -/
theorem Inheritance.exists_of_isRedundant {place : Inheritance} {policy : RedundancyPolicy} {a : Attribute}
    (redundant : place.isRedundant policy a = true) :
    (place.get? a.name = none ∧ ∃ text, Vocabulary.defaultValue? a.name = some text ∧
        (AttributeValue.ofProperty a.name text).minified = a.value.minified) ∨
      ∃ text, place.get? a.name = some (.known text) ∧
        (AttributeValue.ofProperty a.name text).minified = a.value.minified := by
  rw [isRedundant, Bool.or_eq_true, Bool.and_eq_true, Bool.and_eq_true] at redundant
  rcases redundant with ⟨-, initial⟩ | ⟨-, outer⟩
  · rw [repeatsInitial, Bool.and_eq_true, isInitial, Bool.and_eq_true, Option.isNone_iff_eq_none] at initial
    rcases initial with ⟨⟨nothing, -⟩, equal⟩
    refine Or.inl ⟨nothing, ?_⟩
    split at equal
    · next text default => exact ⟨text, default, eq_of_beq equal⟩
    · cases equal
  · rw [repeatsParent] at outer
    split at outer
    · next text found => exact Or.inr ⟨text, found, eq_of_beq outer⟩
    · cases outer

/-- What can be drawn in other places is redundant only beside an inherited value, if the
property is inherited at all. -/
theorem Inheritance.get?_isSome_of_reusable {place : Inheritance} {policy : RedundancyPolicy} {a : Attribute}
    (reusable : place.reusable = true) (inheritable : Vocabulary.isInheritable a.name = true)
    (redundant : place.isRedundant policy a = true) : (place.get? a.name).isSome := by
  rw [isRedundant, repeatsInitial, isInitial, inheritable, reusable, Bool.and_self, Bool.not_true, Bool.and_false,
    Bool.false_and, Bool.and_false, Bool.false_or, Bool.and_eq_true, repeatsParent] at redundant
  rcases redundant with ⟨-, repeats⟩
  split at repeats
  · next text found =>
    rw [found]
    rfl
  · cases repeats

/-- No list of transformations is redundant. -/
theorem Inheritance.ne_transform {place : Inheritance} {policy : RedundancyPolicy} {a : Attribute}
    (redundant : place.isRedundant policy a = true) : a.name ≠ "transform" := by
  intro same
  rcases exists_of_isRedundant redundant with ⟨-, text, default, -⟩ | ⟨text, found, -⟩
  · rw [same] at default
    cases default
  · have alone : Vocabulary.isInheritable "transform" = false := by decide
    rw [get?, same, alone] at found
    cases found

/-- A text with the shortest text of a plain one is as good as that one. -/
theorem effect_trim_of_minified_eq {name text plain : String} (other : name ≠ "transform")
    (trimmed : Text.trim plain = plain) (constant : Text.hasVariable plain = false)
    (same : (AttributeValue.ofProperty name plain).minified = (AttributeValue.ofProperty name text).minified) :
    ComputedValue.ofText text = .known (Text.trim text) ∧
      Effect.ofText name (Text.trim text) = Effect.ofText name plain := by
  have same : (PropertyValue.ofText name text).minified = (PropertyValue.ofText name plain).minified :=
    same.symm
  have noVariable : Text.hasVariable text = false := by
    rw [← PropertyValue.hasVariable_minified other, same, PropertyValue.hasVariable_minified other]
    exact constant
  constructor
  · rw [ComputedValue.ofText, noVariable]
    rfl
  · exact congrArg Effect.shows (PropertyValue.minified_trim_of_eq other trimmed same)

/-- What is redundant depends on nothing but what is inherited for the property. -/
theorem Inheritance.isRedundant_congr {place other : Inheritance} {policy : RedundancyPolicy} {a : Attribute}
    (inheritedEq : other.get? a.name = place.get? a.name) (reusableEq : other.reusable = place.reusable) :
    other.isRedundant policy a = place.isRedundant policy a := by
  rw [isRedundant, isRedundant, repeatsInitial, repeatsInitial, isInitial, isInitial, repeatsParent, repeatsParent,
    inheritedEq, reusableEq]

/-- Whether a style sets for a property what another one sets, or leaves out a value that
is redundant where an element stands. -/
def Relieved (name : String) (style slim : ComputedStyle) (place : Inheritance) : Prop :=
  slim.get? name = style.get? name ∨
    slim.get? name = none ∧ ∃ text policy, style.get? name = some (.ofText text) ∧
      place.isRedundant policy ⟨name, .ofProperty name text⟩ = true

theorem Relieved.congr {name : String} {style slim : ComputedStyle} {place : Inheritance}
    (relieved : Relieved name style slim place) (other : Inheritance) (inheritedEq : other.get? name = place.get? name)
    (reusableEq : other.reusable = place.reusable) : Relieved name style slim other := by
  rcases relieved with equal | ⟨left, text, policy, set, redundant⟩
  · exact Or.inl equal
  · refine Or.inr ⟨left, text, policy, set, ?_⟩
    rw [Inheritance.isRedundant_congr inheritedEq reusableEq]
    exact redundant

/-- If a property comes to the same for two parents, it also does for children that set the
same. -/
theorem effect_inheritFrom_congr {name : String} {style slim parent newParent : ComputedStyle}
    (equal : slim.get? name = style.get? name) (distinct : style.Distinct) (slimDistinct : slim.Distinct)
    (same : Effect.of name (newParent.get? name) = Effect.of name (parent.get? name)) :
    Effect.of name ((slim.inheritFrom newParent).get? name) =
      Effect.of name ((style.inheritFrom parent).get? name) := by
  rw [ComputedStyle.get?_inheritFrom slimDistinct, ComputedStyle.get?_inheritFrom distinct, equal]
  cases style.get? name with
  | none =>
      dsimp only
      split
      · exact same
      · rfl
  | some v =>
      dsimp only
      split
      · exact same
      · rfl

/-- If a property comes to the same for two parents, it also does for their children, even
if a value that is redundant under the second parent is left out. -/
theorem Relieved.effect_inheritFrom {name : String} {style slim parent : ComputedStyle} {place : Inheritance}
    (relieved : Relieved name style slim place) (distinct : style.Distinct) (slimDistinct : slim.Distinct)
    (plain : ∀ text, place.get? name = some (.known text) →
      Text.trim text = text ∧ Text.hasVariable text = false)
    (same : Effect.of name (place.parent.get? name) = Effect.of name (parent.get? name))
    (presentation : Vocabulary.isPresentation name = true) :
    Effect.of name ((slim.inheritFrom place.parent).get? name) =
      Effect.of name ((style.inheritFrom parent).get? name) := by
  rcases relieved with equal | ⟨left, text, policy, set, redundant⟩
  · exact effect_inheritFrom_congr equal distinct slimDistinct same
  · have other := Inheritance.ne_transform redundant
    have placeEq : place.get? name = if Vocabulary.isInheritable name then place.parent.get? name else none := rfl
    rw [ComputedStyle.get?_inheritFrom slimDistinct, ComputedStyle.get?_inheritFrom distinct, left, set]
    dsimp only
    rw [← placeEq]
    rcases Inheritance.exists_of_isRedundant redundant with ⟨nothing, initial, default, equal⟩ | ⟨v, found, equal⟩
    · have known := Css.plainDefault_of_presentation presentation default
      rcases effect_trim_of_minified_eq other known.trim_eq known.hasVariable_eq equal with ⟨valueEq, effectEq⟩
      -- The text cannot ask for the value of the parent, for no initial value does.
      have asks : ComputedStyle.asksParent (.known (Text.trim text)) = false := by
        apply beq_false_of_ne
        intro inherits
        apply known.asksNot
        rw [← ComputedValue.known.inj inherits]
        exact Effect.shows.inj effectEq
      rw [nothing, valueEq, asks, if_neg Bool.false_ne_true]
      change (match Vocabulary.defaultValue? name with | some text => _ | none => _) = _
      rw [default]
      exact effectEq.symm
    · have inheritable := (Inheritance.get?_eq_some found).2
      rcases plain v found with ⟨trimmed, constant⟩
      rcases effect_trim_of_minified_eq other trimmed constant equal with ⟨valueEq, effectEq⟩
      rw [found, valueEq]
      split
      · rw [← same, inheritable]
      · exact effectEq.symm

/-- The same along a line of ancestors. -/
theorem effect_inherited {P : Element → Prop} {doc : Document} (grown : doc.Grown P)
    {own slim : NodeId → ComputedStyle} {reusable : NodeId → Bool} {name : String}
    (relieved : ∀ node, Relieved name (own node) (slim node)
      ⟨Css.inherited slim (doc.elementAncestors node), reusable node⟩)
    (distinct : ∀ node, (own node).Distinct) (slimDistinct : ∀ node, (slim node).Distinct)
    (plain : ∀ nodes, (Css.inherited slim nodes).Plain) {nodes : List NodeId}
    (lineage : Css.IsLineage doc nodes) (presentation : Vocabulary.isPresentation name = true) :
    Effect.of name ((Css.inherited slim nodes).get? name) =
      Effect.of name ((Css.inherited own nodes).get? name) := by
  induction nodes with
  | nil => rfl
  | cons node outer inductionHypothesis =>
      have outerEq : outer = doc.elementAncestors node := lineage
      have outerLineage : Css.IsLineage doc outer := outerEq ▸ Css.isLineage_elementAncestors grown node
      have here := relieved node
      rw [← outerEq] at here
      refine here.effect_inheritFrom (distinct node) (slimDistinct node) ?_ (inductionHypothesis outerLineage)
        presentation
      intro text found
      exact plain outer name text (Inheritance.get?_eq_some found).2

end Cleanup

/-! ## Leaving out redundant attributes

What is redundant on an element is judged by the style of its parent, which comes from
the memory and from a document of which a part has been worked on.  The elements above
an element come first and are not touched again, so the style of the parent is the one
it has in the end, and the memory stays right although the document changes.
-/

namespace Cleanup

open Css (ComputedStyle Styles)

/-! ### One element -/

section Element

variable {policy : RedundancyPolicy} {styles : Styles} {ruled : ComputedStyle} {place : Inheritance} {e : Element}

theorem typed_dropRedundant (typed : e.Typed) : (dropRedundant policy styles ruled place e).Typed :=
  typed.retain _

/-- An attribute is kept unless it is redundant and no rule is concerned. -/
theorem attribute?_dropRedundant {name : String}
    (kept : ∀ a ∈ e.attributes.items, a.name = name →
      Vocabulary.isPresentation name = true → isRuled styles ruled name = false →
        place.isRedundant policy a = false) :
    (dropRedundant policy styles ruled place e).attribute? name = e.attribute? name := by
  apply Attributes.get?_retain_of_kept
  intro a listed named
  rw [Bool.not_eq_true', Bool.eq_false_iff, named]
  intro dropped
  rw [Bool.and_eq_true, Bool.and_eq_true, Bool.not_eq_true'] at dropped
  rcases dropped with ⟨⟨presentation, unruled⟩, redundant⟩
  rw [kept a listed named presentation unruled] at redundant
  cases redundant

theorem attribute?_dropRedundant_of_other {name : String} (other : Vocabulary.isPresentation name = false) :
    (dropRedundant policy styles ruled place e).attribute? name = e.attribute? name := by
  apply attribute?_dropRedundant
  intro a _ _ presentation
  rw [other] at presentation
  cases presentation

theorem isReuseTarget_dropRedundant :
    isReuseTarget (dropRedundant policy styles ruled place e) = isReuseTarget e := by
  rw [isReuseTarget, isReuseTarget, Element.id?, Element.id?, Element.attributeText?, Element.attributeText?,
    attribute?_dropRedundant_of_other (by decide)]
  rfl

/-- The tests of the rules say of an element what they said before. -/
theorem accepts_dropRedundant {r : Css.Rule} (listed : r ∈ Css.Derived.rules styles.sheets)
    {c : Css.Compound} (among : c ∈ r.selector.allCompounds) {t : Css.SimpleSelector} (tested : t ∈ c.tests) :
    t.accepts (dropRedundant policy styles ruled place e) = t.accepts e := by
  apply Css.SimpleSelector.accepts_congr
  · rfl
  · rfl
  · exact attribute?_dropRedundant_of_other (by decide)
  · exact attribute?_dropRedundant_of_other (by decide)
  · intro test asks
    apply attribute?_dropRedundant
    intro a _ _ _ unruled
    have derived := Styles.testsAttribute_of_tested listed among (asks ▸ tested)
    rw [isRuled, derived, Bool.or_true] at unruled
    cases unruled

theorem ofAttribute_of_presentation {name : String} (presentation : Vocabulary.isPresentation name = true)
    (element text : String) : AttributeValue.ofAttribute element name text = .ofProperty name text := by
  unfold AttributeValue.ofAttribute
  split
  all_goals first
    | rfl
    | exact absurd presentation (by decide +kernel)

/-- A property loses its attribute only if this is redundant and no rule is concerned. -/
theorem attributeCandidate?_dropRedundant (typed : e.Typed) {name : String}
    (presentation : Vocabulary.isPresentation name = true) :
    Css.attributeCandidate? (dropRedundant policy styles ruled place e) name = Css.attributeCandidate? e name ∨
      Css.attributeCandidate? (dropRedundant policy styles ruled place e) name = none ∧
        isRuled styles ruled name = false ∧
        ∃ text, Css.attributeCandidate? e name = some (.ofAttribute (.ofProperty name text)) ∧
          place.isRedundant policy ⟨name, .ofProperty name text⟩ = true := by
  have counts (e : Element) : Css.countsAsProperty e name = true := by
    rw [Css.countsAsProperty, presentation, Bool.true_or]
  rw [Css.attributeCandidate?, Css.attributeCandidate?, counts, counts, if_pos rfl, if_pos rfl]
  by_cases dropped : ∃ a ∈ e.attributes.items, a.name = name ∧ isRuled styles ruled name = false ∧
      place.isRedundant policy a = true
  · rcases dropped with ⟨⟨other, value⟩, listed, named, unruled, redundant⟩
    change other = name at named
    subst other
    rcases typed.value_eq _ listed with ⟨text, valueEq⟩
    change value = .ofAttribute e.name name text at valueEq
    rw [ofAttribute_of_presentation presentation] at valueEq
    have present : e.attribute? name = some value := Attributes.get?_of_mem typed.nodup_names listed
    have gone : (dropRedundant policy styles ruled place e).attribute? name = none := by
      apply Attributes.get?_retain_of_dropped typed.nodup_names listed
      rw [presentation, unruled, redundant]
      rfl
    refine Or.inr ⟨?_, unruled, text, ?_, ?_⟩
    · rw [gone]
      rfl
    · rw [present, valueEq]
      rfl
    · rw [← valueEq]
      exact redundant
  · left
    rw [attribute?_dropRedundant]
    intro a listed named _ unruled
    exact Bool.eq_false_iff.mpr fun redundant => dropped ⟨a, listed, named, unruled, redundant⟩

end Element

/-! ### One node -/

/-- Leaving out what is redundant, as a change under the style of the parent. -/
def redundancy (policy : RedundancyPolicy) (styles : Styles) (doc : Document) : Revision styles where
  Changes parent node e new :=
    new = dropRedundant policy styles (styles.ruleStyle doc node)
      ⟨parent, isReusable doc (doc.elementAncestors node).reverse⟩ e
  name_eq := by
    rintro parent node e new rfl
    rfl
  style_eq := by
    rintro parent node e new rfl
    exact attribute?_dropRedundant_of_other (by decide)
  typed := by
    rintro parent node e new rfl typed
    exact typed_dropRedundant typed
  isReuseTarget_eq := by
    rintro parent node e new rfl
    exact isReuseTarget_dropRedundant
  accepts_eq := by
    rintro parent node e new rfl r listed c among t tested
    exact accepts_dropRedundant listed among tested

section Node

variable {policy : RedundancyPolicy} {styles : Styles} {doc other : Document} {parent : ComputedStyle}
  {node : NodeId}

/-- A redundant attribute was the only candidate for its property, or none that counted. -/
theorem relieved_of_revised (revised : (redundancy policy styles doc).Revised doc other parent node)
    (grown : doc.Grown Element.Typed)
    (distinct : ∀ r ∈ Css.Derived.rules styles.sheets, r.declarations.Distinct)
    (selectsEq : ∀ r ∈ Css.Derived.rules styles.sheets,
      r.selector.selects other node = r.selector.selects doc node)
    {name : String} (presentation : Vocabulary.isPresentation name = true) :
    Relieved name (styles.ownStyle doc node) (styles.ownStyle other node)
      ⟨parent, isReusable doc (doc.elementAncestors node).reverse⟩ := by
  rcases revised with equal | ⟨e, new, found, now, rfl⟩
  · rw [Styles.ownStyle_congr equal (Styles.matchingRules_congr rfl selectsEq)]
    exact Or.inl rfl
  · have typed : e.Typed := grown.element_fits found
    have styleEq : Css.styleCandidate? (dropRedundant policy styles (styles.ruleStyle doc node)
        ⟨parent, isReusable doc (doc.elementAncestors node).reverse⟩ e) name = Css.styleCandidate? e name := by
      rw [Css.styleCandidate?, Css.styleCandidate?, attribute?_dropRedundant_of_other (by decide)]
    rw [Relieved, Styles.get?_ownStyle_eq distinct typed found,
      Styles.get?_ownStyle_eq distinct (typed_dropRedundant typed) now, Styles.ruleCandidates_congr selectsEq, styleEq]
    rcases attributeCandidate?_dropRedundant typed presentation with kept | ⟨gone, unruled, text, present, redundant⟩
    · rw [kept]
      exact Or.inl rfl
    · rw [isRuled, Bool.or_eq_false_iff, ComputedStyle.has, Styles.get?_ruleStyle_eq distinct found,
        Option.isSome_map, Option.isSome_eq_false_iff, Option.isNone_iff_eq_none] at unruled
      rw [gone, present, Css.Candidate.eq_nil_of_last unruled.1]
      cases Css.styleCandidate? e name with
      | some c =>
          -- The style attribute decides with and without the attribute.
          have light : (some (Css.Candidate.ofAttribute (.ofProperty name text))).any (·.important) = false := rfl
          have decides : Css.Candidate.override (some (.ofAttribute (.ofProperty name text))) c = some c := by
            rw [Css.Candidate.override, light, Bool.and_false]
            rfl
          left
          change (Css.Candidate.override none c).map _ = (Css.Candidate.override _ c).map _
          rw [Css.Candidate.override_none]
          exact congrArg (Option.map _) decides.symm
      | none =>
          refine Or.inr ⟨rfl, text, policy, ?_, redundant⟩
          change some ((Css.Candidate.ofAttribute (.ofProperty name text)).value e.name name) = _
          rw [Css.Candidate.value_ofAttribute]
          exact congrArg (fun t => some (Css.ComputedValue.ofText t)) (PropertyValue.text_ofText name text)

end Node

/-! ### One step -/

/-- What entering an element does. -/
def enterStep (policy : RedundancyPolicy) (styles : Styles) (node : NodeId) (ancestors : List NodeId)
    (scene : Scene Styles.Memo) : Scene Styles.Memo :=
  let doc := scene.document
  match doc.element? node with
  | some e =>
    if e.isSvg && e.id?.isNone then
      let (parent, memo) := styles.parentStyle doc ancestors scene.state
      ⟨memo, doc.modifyElement node
        (dropRedundant policy styles (styles.ruleStyle doc node) ⟨parent, isReusable doc ancestors⟩)⟩
    else scene
  | none => scene

theorem enters_enterRedundant (policy : RedundancyPolicy) (styles : Styles) :
    Visitor.Enters { enter := enterRedundant policy styles } (enterStep policy styles) where
  visitor_eq := rfl
  gives node ancestors scene := by
    change (enterRedundant policy styles node ancestors).Gives scene .descend _
    rw [enterRedundant, enterStep]
    refine (Visit.gives_document scene).bind ?_
    cases scene.document.element? node with
    | none => exact Visit.gives_pure _ _
    | some e =>
        dsimp only
        split
        · exact (Visit.gives_state scene).bind ((Visit.gives_editState _ scene).bind
            ((Visit.gives_editDocument _ _).bind (Visit.gives_pure _ _)))
        · exact Visit.gives_pure _ _
  sameShape node ancestors scene := by
    rw [enterStep]
    split
    · split
      · exact Document.sameShape_modifyElement _ _ _
      · exact .refl _
    · exact .refl _

/-! ### The whole visit -/

section Visit

variable {policy : RedundancyPolicy} {styles : Styles} {doc : Document} {done : List NodeId}
  {scene : Scene Styles.Memo}

/-- Entering the next element makes progress. -/
theorem progress_enterStep (progress : (redundancy policy styles doc).Progress doc done scene)
    (grown : doc.Grown Element.Typed) {node : NodeId} {after : List NodeId}
    (split : doc.elements = done ++ node :: after) :
    (redundancy policy styles doc).Progress doc (done ++ [node])
      (enterStep policy styles node (doc.elementAncestors node).reverse scene) := by
  have same := progress.untouched node (Document.notMem_before grown split)
  rcases progress.consult grown split with ⟨parentEq, progressed⟩
  rw [enterStep]
  dsimp only
  rw [same]
  cases found : doc.element? node with
  | none => exact progress.leave grown split
  | some e =>
      dsimp only
      split
      · rw [progress.ruleStyle_eq, progress.parentStyle_eq grown, progress.isReusable_eq]
        refine progressed.change grown split found ?_
        rw [← parentEq]
        rfl
      · exact progress.leave grown split

/-- Every node sets what it set, or leaves out what is redundant where it stands. -/
theorem relieved_of_progress (progress : (redundancy policy styles doc).Progress doc done scene)
    (grown : doc.Grown Element.Typed)
    (distinct : ∀ r ∈ Css.Derived.rules styles.sheets, r.declarations.Distinct) {name : String}
    (presentation : Vocabulary.isPresentation name = true) (node : NodeId) :
    Relieved name (styles.ownStyle doc node) (styles.ownStyle scene.document node)
      ⟨Css.inherited (styles.ownStyle scene.document) (doc.elementAncestors node),
        isReusable doc (doc.elementAncestors node).reverse⟩ :=
  relieved_of_revised (progress.exists_revised node) grown distinct
    (fun _ listed => progress.selects_eq listed node) presentation

theorem effect_eq {nodes : List NodeId} (progress : (redundancy policy styles doc).Progress doc done scene)
    (grown : doc.Grown Element.Typed)
    (distinct : ∀ r ∈ Css.Derived.rules styles.sheets, r.declarations.Distinct)
    (lineage : Css.IsLineage doc nodes) {name : String} (presentation : Vocabulary.isPresentation name = true) :
    Css.Effect.of name ((Css.inherited (styles.ownStyle scene.document) nodes).get? name) =
      Css.Effect.of name ((Css.inherited (styles.ownStyle doc) nodes).get? name) :=
  effect_inherited grown (relieved_of_progress progress grown distinct presentation)
    (styles.distinct_ownStyle doc) (styles.distinct_ownStyle scene.document)
    (Styles.plain_inherited (progress.grown grown) distinct) lineage presentation

end Visit

/-- The visit of a whole document. -/
theorem exists_redundancy_progress {text : String} {title path : Option String} {pass : Nat} {doc : Document}
    {parameters : Parameters} {edit : DocumentEdit} (parsed : Document.read text title = .ok doc)
    (prepared : removeRedundantAttributes.prepare ⟨pass, path, .ofDocument doc⟩ parameters = some edit) :
    ∃ styles scene, Styles.ofDocument doc = .ok styles ∧ edit doc = .ok { document := scene.document } ∧
      (redundancy (.ofParameters parameters) styles doc).Progress doc doc.elements scene := by
  have grown := Document.grown_of_read parsed
  rcases Option.map_eq_some_iff.mp prepared with ⟨styles, trusted, rfl⟩
  rcases (enters_enterRedundant (.ofParameters parameters) styles).run_induction grown
      (Document.isElement_root_of_read parsed) (Revision.Progress.start _ doc)
      (fun _ _ _ _ split progress => progress_enterStep progress grown split) with ⟨scene, ran, progress⟩
  exact ⟨styles, scene, Summary.ofDocument_of_reliableStyles? trusted, DocumentEdit.visiting_of_run ran, progress⟩

/-- Leaving out redundant attributes changes no property of any node beyond its writing.
A property that is not set counts as its initial value, and known values count by their
shortest texts. -/
theorem removeRedundantAttributes_keeps_effects {text : String} {title path : Option String} {pass : Nat}
    {doc : Document} {parameters : Parameters} {edit : DocumentEdit}
    (parsed : Document.read text title = .ok doc)
    (prepared : removeRedundantAttributes.prepare ⟨pass, path, .ofDocument doc⟩ parameters = some edit) :
    ∃ styles out, Styles.ofDocument doc = .ok styles ∧ edit doc = .ok out ∧
      ∀ node name, Vocabulary.isPresentation name = true →
        Css.Effect.of name ((styles.computedStyle out.document node []).1.get? name) =
          Css.Effect.of name ((styles.computedStyle doc node []).1.get? name) := by
  have grown := Document.grown_of_read parsed
  rcases exists_redundancy_progress parsed prepared with ⟨styles, scene, collected, ran, progress⟩
  refine ⟨styles, { document := scene.document }, collected, ran, ?_⟩
  intro node name presentation
  have sound (other : Document) : Styles.Memo.Sound styles other [] := by
    rintro _ _ ⟨⟩
  rw [(Styles.computedStyle_sound grown (sound doc) node).1,
    (Styles.computedStyle_sound (progress.grown grown) (sound scene.document) node).1,
    progress.sameShape.elementAncestors_eq]
  have distinct : ∀ r ∈ Css.Derived.rules styles.sheets, r.declarations.Distinct :=
    fun r listed => (Styles.wasRead_of_ofDocument collected r listed).distinct
  have lineage : Css.IsLineage doc (node :: doc.elementAncestors node) := rfl
  exact effect_eq progress grown distinct lineage presentation

/-- The inner element has the fill of the outer one and the initial stroke; both of its
attributes go, and the fill stays red. -/
theorem inherited_fill_stays_red :
    ∃ doc edit styles out,
      Document.read "<svg fill='red'><g fill=' #f00 ' stroke='none'/></svg>" none = .ok doc ∧
      removeRedundantAttributes.prepare ⟨1, none, .ofDocument doc⟩ .empty = some edit ∧
      Styles.ofDocument doc = .ok styles ∧ edit doc = .ok out ∧
      (out.document.element? ⟨2⟩).map (·.attributes.items.length) = some 0 ∧
      Css.Effect.of "fill" ((styles.computedStyle out.document ⟨2⟩ []).1.get? "fill") = .shows "red" := by
  have computed : ((Document.read "<svg fill='red'><g fill=' #f00 ' stroke='none'/></svg>"
      none).toOption.bind fun doc =>
        (removeRedundantAttributes.prepare ⟨1, none, .ofDocument doc⟩ .empty).bind fun edit =>
          (Styles.ofDocument doc).toOption.bind fun styles => (edit doc).toOption.map fun out =>
            ((out.document.element? ⟨2⟩).map (·.attributes.items.length),
              Css.Effect.of "fill" ((styles.computedStyle doc ⟨2⟩ []).1.get? "fill"))) =
      some (some 0, .shows "red") := by
    decide +kernel
  rcases Option.bind_eq_some_iff.mp computed with ⟨doc, parsed, computed⟩
  rcases Option.bind_eq_some_iff.mp computed with ⟨edit, prepared, computed⟩
  rcases Option.bind_eq_some_iff.mp computed with ⟨styles, collected, computed⟩
  rcases Option.map_eq_some_iff.mp computed with ⟨out, ran, computed⟩
  rw [toOption_eq_some] at parsed collected ran
  rcases Prod.mk.inj computed with ⟨bare, red⟩
  rcases removeRedundantAttributes_keeps_effects parsed prepared with ⟨others, result, same, ranToo, kept⟩
  have stylesEq : styles = others := Except.ok.inj (collected.symm.trans same)
  have outEq : out = result := Except.ok.inj (ran.symm.trans ranToo)
  refine ⟨doc, edit, styles, out, parsed, prepared, collected, ran, bare, ?_⟩
  rw [stylesEq, outEq, kept ⟨2⟩ "fill" (by decide), ← stylesEq]
  exact red

end Cleanup

end SlimSvg
