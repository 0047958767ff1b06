import SlimSvg.Proofs.Cleanup.Painting
import SlimSvg.Proofs.Cleanup.Redundant

namespace SlimSvg
namespace Cleanup

open Css (ComputedStyle Effect Styles)

/-!
# Attributes of what is drawn in other places

A `use` element draws a copy of some element with everything below it, and the copy
inherits from the `use` element.  What is left out of it is missed there, unless it
follows from what the copied part itself sets: the style that comes from outside is
another one for every copy.
-/

/-! ## Parts that can be copied -/

/-- A node below an element that can be copied, with the elements between them and those
around, the innermost one first. -/
structure Copied (doc : Document) (node root : NodeId) (between around : List NodeId) : Prop where
  ancestors_eq : doc.elementAncestors node = between ++ root :: around
  isTarget : (doc.element? root).any isReuseTarget = true
  notOutermost : around ≠ []

theorem isReusable_of_below {doc : Document} {root : NodeId} {around : List NodeId}
    (isTarget : (doc.element? root).any isReuseTarget = true) (notOutermost : around ≠ []) (inner : List NodeId) :
    isReusable doc (inner ++ root :: around).reverse = true := by
  rw [isReusable, List.any_eq_true]
  refine ⟨root, ?_, isTarget⟩
  rcases List.exists_cons_of_ne_nil (mt List.reverse_eq_nil_iff.mp notOutermost) with ⟨top, others, reversed⟩
  rw [List.reverse_append, List.reverse_cons, reversed]
  exact List.mem_append_left _ (List.mem_append_right others List.mem_cons_self)

/-- The style of a node with some elements above it, the last of which inherits a given style
instead of the one of its parent. -/
def styleUnder (styles : Styles) (doc : Document) (context : ComputedStyle) (node : NodeId) (above : List NodeId) :
    ComputedStyle :=
  Css.inheritedUnder (styles.ownStyle doc) context (node :: above)

/-- Where a copied part stands itself, its root inherits the style of its parent. -/
theorem computedStyle_eq_styleUnder {P : Element → Prop} {styles : Styles} {doc : Document} (grown : doc.Grown P)
    {node root : NodeId} {between around : List NodeId} (ancestorsEq : doc.elementAncestors node = between ++ root :: around) :
    (styles.computedStyle doc node []).1 =
      styleUnder styles doc (Css.inherited (styles.ownStyle doc) around) node (between ++ [root]) := by
  have sound : Styles.Memo.Sound styles doc [] := by
    rintro _ _ ⟨⟩
  rw [(Styles.computedStyle_sound grown sound node).1, ancestorsEq, List.append_cons, ← List.cons_append,
    Css.inherited_append, styleUnder]

/-- Whether a node has for a property what it would have if nothing came from outside of the
elements above it. -/
def HasFromInside (styles : Styles) (doc : Document) (node : NodeId) (above : List NodeId) (name : String) : Prop :=
  (styleUnder styles doc .empty node above).get? name = (styles.computedStyle doc node []).1.get? name

instance (styles : Styles) (doc : Document) (node : NodeId) (above : List NodeId) (name : String) :
    Decidable (HasFromInside styles doc node above name) :=
  inferInstanceAs (Decidable (_ = _))

/-- What comes from inside is set there, or nothing is handed down to it. -/
theorem HasFromInside.isSome_or_eq_none {P : Element → Prop} {styles : Styles} {doc : Document} {node root : NodeId}
    {between around : List NodeId} {name : String} (inside : HasFromInside styles doc node (between ++ [root]) name)
    (grown : doc.Grown P) (ancestorsEq : doc.elementAncestors node = between ++ root :: around)
    (inheritable : Vocabulary.isInheritable name = true) :
    ((Css.inherited (styles.ownStyle doc) (node :: (between ++ [root]))).get? name).isSome ∨
      (Css.inherited (styles.ownStyle doc) around).get? name = none := by
  rw [HasFromInside, computedStyle_eq_styleUnder grown ancestorsEq, styleUnder, styleUnder, Css.inheritedUnder_empty,
    Css.get?_inheritedUnder (styles.distinct_ownStyle doc) _ _ inheritable] at inside
  cases found : (Css.inherited (styles.ownStyle doc) (node :: (between ++ [root]))).get? name with
  | none =>
      rw [found, Option.none_or] at inside
      exact Or.inr inside.symm
  | some v => exact Or.inl rfl

theorem HasFromInside.get?_eq {P : Element → Prop} {styles : Styles} {doc : Document} {node : NodeId}
    {above : List NodeId} {name : String} (inside : HasFromInside styles doc node above name) (grown : doc.Grown P) :
    (Css.inherited (styles.ownStyle doc) (node :: above)).get? name =
      (Css.inherited (styles.ownStyle doc) (node :: doc.elementAncestors node)).get? name := by
  have sound : Styles.Memo.Sound styles doc [] := by
    rintro _ _ ⟨⟩
  rw [HasFromInside, styleUnder, Css.inheritedUnder_empty, (Styles.computedStyle_sound grown sound node).1] at inside
  exact inside

/-! ## Redundant attributes -/

section Redundant

variable {policy : RedundancyPolicy} {styles : Styles} {doc : Document} {scene : Scene Styles.Memo}
  {name : String}

/-- A property that is not inherited comes to the same whatever comes from outside. -/
theorem effect_inheritedUnder_of_alone (progress : (redundancy policy styles doc).Progress doc doc.elements scene)
    (grown : doc.Grown Element.Typed) (distinct : ∀ r ∈ Css.Derived.rules styles.sheets, r.declarations.Distinct)
    (presentation : Vocabulary.isPresentation name = true) (alone : Vocabulary.isInheritable name = false)
    (context : ComputedStyle) (nodes : List NodeId) :
    Effect.of name ((Css.inheritedUnder (styles.ownStyle scene.document) context nodes).get? name) =
      Effect.of name ((Css.inheritedUnder (styles.ownStyle doc) context nodes).get? name) := by
  have nothing (place : Inheritance) : place.get? name = none := by
    rw [Inheritance.get?, alone, if_neg Bool.false_ne_true]
  induction nodes with
  | nil => rfl
  | cons node outer inductionHypothesis =>
      have relieved := (relieved_of_progress progress grown distinct presentation node).congr
        ⟨Css.inheritedUnder (styles.ownStyle scene.document) context outer, _⟩
        ((nothing _).trans (nothing _).symm) rfl
      refine relieved.effect_inheritFrom (styles.distinct_ownStyle doc node)
        (styles.distinct_ownStyle scene.document node) ?_ inductionHypothesis presentation
      intro text found
      rw [nothing] at found
      cases found

/-- A redundant value of an inherited property repeats one from inside, if none comes from
outside. -/
theorem isSome_of_isRedundant {own : NodeId → ComputedStyle} (distinct : ∀ node, (own node).Distinct)
    {outside : ComputedStyle} {nodes : List NodeId} {a : Attribute}
    (inheritable : Vocabulary.isInheritable a.name = true)
    (redundant : (Inheritance.mk (Css.inheritedUnder own outside nodes) true).isRedundant policy a = true)
    (inside : ((Css.inherited own nodes).get? a.name).isSome ∨ outside.get? a.name = none) :
    ((Css.inherited own nodes).get? a.name).isSome := by
  rcases inside with here | nothing
  · exact here
  · have found := Inheritance.get?_isSome_of_reusable rfl inheritable redundant
    rw [Inheritance.get?, inheritable, if_pos rfl, Css.get?_inheritedUnder distinct _ _ inheritable, nothing,
      Option.or_none] at found
    exact found

/-- An inherited property comes to the same whatever comes from outside, if the root has kept
its attribute and what the first node has for it comes from inside. -/
theorem effect_inheritedUnder_of_inside (progress : (redundancy policy styles doc).Progress doc doc.elements scene)
    (grown : doc.Grown Element.Typed) (distinct : ∀ r ∈ Css.Derived.rules styles.sheets, r.declarations.Distinct)
    (presentation : Vocabulary.isPresentation name = true) (inheritable : Vocabulary.isInheritable name = true)
    {root : NodeId} {around : List NodeId} (isTarget : (doc.element? root).any isReuseTarget = true)
    (notOutermost : around ≠ []) (rootKept : KeepsAttribute doc scene.document name root) (context : ComputedStyle)
    {inner : List NodeId} (lineage : Css.IsLineage doc (inner ++ root :: around))
    (inside : ((Css.inherited (styles.ownStyle scene.document) (inner ++ [root])).get? name).isSome ∨
      (Css.inherited (styles.ownStyle scene.document) around).get? name = none) :
    Effect.of name ((Css.inheritedUnder (styles.ownStyle scene.document) context (inner ++ [root])).get? name) =
      Effect.of name ((Css.inheritedUnder (styles.ownStyle doc) context (inner ++ [root])).get? name) := by
  have slimDistinct := styles.distinct_ownStyle scene.document
  induction inner with
  | nil =>
      apply congrArg (Effect.of name)
      apply Css.get?_inheritedUnder_congr (styles.distinct_ownStyle doc) slimDistinct
      intro node listed
      rw [List.mem_singleton.mp listed]
      exact progress.get?_ownStyle_eq grown distinct rootKept
  | cons node between inductionHypothesis =>
      have aboveEq : between ++ root :: around = doc.elementAncestors node := lineage
      have betweenLineage : Css.IsLineage doc (between ++ root :: around) :=
        aboveEq ▸ Css.isLineage_elementAncestors grown node
      have relieved := relieved_of_progress progress grown distinct presentation node
      rw [← aboveEq, isReusable_of_below isTarget notOutermost, List.append_cons, Css.inherited_append] at relieved
      by_cases decided : ∃ v, (styles.ownStyle scene.document node).get? name = some v ∧
          ComputedStyle.asksParent v = false
      · rcases decided with ⟨v, set, decides⟩
        rcases relieved with kept | ⟨left, -⟩
        · rw [List.cons_append, Css.inheritedUnder, Css.inheritedUnder,
            ComputedStyle.get?_inheritFrom (slimDistinct node),
            ComputedStyle.get?_inheritFrom (styles.distinct_ownStyle doc node), ← kept, set]
          dsimp only
          rw [decides, if_neg Bool.false_ne_true, if_neg Bool.false_ne_true]
        · rw [left] at set
          cases set
      · have handsDown : (Css.inherited (styles.ownStyle scene.document) (node :: (between ++ [root]))).get? name =
            (Css.inherited (styles.ownStyle scene.document) (between ++ [root])).get? name := by
          rw [Css.inherited, ComputedStyle.get?_inheritFrom (slimDistinct node), inheritable, if_pos rfl]
          split
          · next v set =>
            exact if_pos (eq_true_of_ne_false fun decides => decided ⟨v, set, decides⟩)
          · rfl
        rw [List.cons_append, handsDown] at inside
        have same := inductionHypothesis betweenLineage inside
        rcases relieved with kept | ⟨left, text, policy, set, redundant⟩
        · exact effect_inheritFrom_congr kept (styles.distinct_ownStyle doc node) (slimDistinct node) same
        · rcases Option.isSome_iff_exists.mp (isSome_of_isRedundant slimDistinct inheritable redundant inside) with
            ⟨v, found⟩
          have inherits (outside : ComputedStyle) :
              (Inheritance.mk (Css.inheritedUnder (styles.ownStyle scene.document) outside (between ++ [root]))
                true).get? name = some v := by
            rw [Inheritance.get?, inheritable, if_pos rfl]
            exact Css.get?_inheritedUnder_of_inside slimDistinct outside inheritable found
          have here := Relieved.congr (Or.inr ⟨left, text, policy, set, redundant⟩)
            ⟨Css.inheritedUnder (styles.ownStyle scene.document) context (between ++ [root]), true⟩
            ((inherits _).trans (inherits _).symm) rfl
          refine here.effect_inheritFrom (styles.distinct_ownStyle doc node) (slimDistinct node) ?_ same presentation
          intro known plainly
          rw [inherits] at plainly
          exact Styles.plain_inherited (progress.grown grown) distinct _ name known (found.trans plainly)

end Redundant

/-! ## What is left out of a copied part -/

/-- Whether all elements of a copied part have kept an attribute, or the root has, and what a
node has instead of its own comes from inside. -/
def EffectIsSettled (styles : Styles) (doc out : Document) (node root : NodeId) (between : List NodeId)
    (name : String) : Prop :=
  (∀ n ∈ node :: (between ++ [root]), KeepsAttribute doc out name n) ∨
    KeepsAttribute doc out name root ∧ HasFromInside styles out node (between ++ [root]) name

/-- Whether a shape has kept its stroke, or a stroke is set inside and nothing about it comes
from outside.  The elements above have kept theirs. -/
structure StrokeIsSettled (styles : Styles) (doc out : Document) (node : NodeId) (above : List NodeId) : Prop where
  aboveKept : ∀ upper ∈ doc.elementAncestors node, ∀ name ∈ strokeProperties, KeepsAttribute doc out name upper
  keptOrInside : (∀ name ∈ strokeProperties, KeepsAttribute doc out name node) ∨
    (∀ name ∈ strokeProperties, HasFromInside styles doc node above name) ∧
      (styleUnder styles doc .empty node above).has "stroke" = true

/-- Whether a shape has kept its fill, or nothing about it comes from outside.  The elements
above have kept theirs. -/
structure FillIsSettled (styles : Styles) (doc out : Document) (node : NodeId) (above : List NodeId) : Prop where
  aboveKept : ∀ upper ∈ doc.elementAncestors node, ∀ name ∈ fillProperties, KeepsAttribute doc out name upper
  keptOrInside : (∀ name ∈ fillProperties, KeepsAttribute doc out name node) ∨
    ∀ name ∈ fillProperties, HasFromInside styles doc node above name

/-- Whatever a copied part inherits, leaving out attributes changes neither what a property
comes to nor what is painted, as long as it hangs on nothing that comes from outside. -/
theorem attribute_removal_is_safe_for_copies {text : String} {title path : Option String} {pass : Nat} {doc : Document}
    {parameters : Parameters} (parsed : Document.read text title = .ok doc) {node root : NodeId}
    {between around : List NodeId} (copied : Copied doc node root between around) (context : ComputedStyle) :
    (∀ edit, removeRedundantAttributes.prepare ⟨pass, path, .ofDocument doc⟩ parameters = some edit →
      ∃ styles out, Styles.ofDocument doc = .ok styles ∧ edit doc = .ok out ∧
        ∀ name, Vocabulary.isPresentation name = true →
          (Vocabulary.isInheritable name = true → EffectIsSettled styles doc out.document node root between name) →
          Effect.of name ((styleUnder styles out.document context node (between ++ [root])).get? name) =
            Effect.of name ((styleUnder styles doc context node (between ++ [root])).get? name)) ∧
    ∀ edit, removeUnpaintedAttributes.prepare ⟨pass, path, .ofDocument doc⟩ parameters = some edit →
      parameters.truth "removeNone" false = false →
      ∃ styles out, Styles.ofDocument doc = .ok styles ∧ edit doc = .ok out ∧
        ((∀ name, isPaintProperty name = true → styles.testsAttribute (some name) = false) →
          (StrokeIsSettled styles doc out.document node (between ++ [root]) →
            paintsStroke (styleUnder styles out.document context node (between ++ [root])) =
              paintsStroke (styleUnder styles doc context node (between ++ [root]))) ∧
          (FillIsSettled styles doc out.document node (between ++ [root]) →
            paintsFill (styleUnder styles out.document context node (between ++ [root])) =
              paintsFill (styleUnder styles doc context node (between ++ [root])))) := by
  have grown := Document.grown_of_read parsed
  have distinct {styles : Styles} (collected : Styles.ofDocument doc = .ok styles) :
      ∀ r ∈ Css.Derived.rules styles.sheets, r.declarations.Distinct :=
    fun r listed => (Styles.wasRead_of_ofDocument collected r listed).distinct
  constructor
  · intro edit prepared
    rcases exists_redundancy_progress parsed prepared with ⟨styles, scene, collected, ran, progress⟩
    refine ⟨styles, { document := scene.document }, collected, ran, ?_⟩
    intro name presentation settled
    cases inheritable : Vocabulary.isInheritable name with
    | false => exact effect_inheritedUnder_of_alone progress grown (distinct collected) presentation inheritable context _
    | true =>
        rcases settled inheritable with kept | ⟨rootKept, inside⟩
        · exact congrArg (Effect.of name) (progress.get?_inheritedUnder_eq grown (distinct collected) kept context)
        · have lineage : Css.IsLineage doc (node :: between ++ root :: around) := copied.ancestors_eq.symm
          have ancestorsEq := (progress.sameShape.elementAncestors_eq node).trans copied.ancestors_eq
          exact effect_inheritedUnder_of_inside progress grown (distinct collected) presentation inheritable
            copied.isTarget copied.notOutermost rootKept context lineage
            (inside.isSome_or_eq_none (progress.grown grown) ancestorsEq inheritable)
  · intro edit prepared keeps
    rcases exists_repainting_progress parsed prepared keeps with ⟨styles, scene, collected, ran, progress⟩
    refine ⟨styles, { document := scene.document }, collected, ran, ?_⟩
    intro unseen
    have line : doc.elementAncestors node = (between ++ [root]) ++ around := by
      rw [copied.ancestors_eq, List.append_cons]
    have reusable : isReusable doc (doc.elementAncestors node).reverse = true := by
      rw [copied.ancestors_eq]
      exact isReusable_of_below copied.isTarget copied.notOutermost between
    constructor
    · rintro ⟨aboveKept, settled⟩
      apply paintsStroke_inheritedUnder (progress unseen) grown (distinct collected) line aboveKept reusable context
      rcases settled with kept | ⟨inside, set⟩
      · exact Or.inl kept
      · rw [styleUnder, Css.inheritedUnder_empty] at set
        exact Or.inr ⟨fun name listed => (inside name listed).get?_eq grown, set⟩
    · rintro ⟨aboveKept, settled⟩
      apply paintsFill_inheritedUnder (progress unseen) grown (distinct collected) line aboveKept context
      rcases settled with kept | inside
      · exact Or.inl kept
      · exact Or.inr fun name listed => (inside name listed).get?_eq grown

/-- Here the inner fill repeats that of the root, and the stroke is refused inside; every copy
of the root has a red fill and no stroke, also a copy below something blue. -/
theorem copy_below_blue_stays_red :
    ∃ doc editFill editStroke styles outFill outStroke,
      Document.read "<svg><g id='r'><g fill='red'><rect fill='red' stroke='none' stroke-width='2'/></g></g></svg>"
        none = .ok doc ∧
      removeRedundantAttributes.prepare ⟨1, none, .ofDocument doc⟩ .empty = some editFill ∧
      removeUnpaintedAttributes.prepare ⟨1, none, .ofDocument doc⟩ .empty = some editStroke ∧
      Styles.ofDocument doc = .ok styles ∧ editFill doc = .ok outFill ∧ editStroke doc = .ok outStroke ∧
      (outFill.document.element? ⟨4⟩).map (·.attributes.items.map (·.name)) = some ["stroke", "stroke-width"] ∧
      (outStroke.document.element? ⟨4⟩).map (·.attributes.items.map (·.name)) = some ["fill", "stroke"] ∧
      Effect.of "fill" ((styleUnder styles outFill.document
        ⟨[("fill", .known "blue"), ("stroke", .known "blue")]⟩ ⟨4⟩ [⟨3⟩, ⟨2⟩]).get? "fill") = .shows "red" ∧
      paintsStroke (styleUnder styles outStroke.document
        ⟨[("fill", .known "blue"), ("stroke", .known "blue")]⟩ ⟨4⟩ [⟨3⟩, ⟨2⟩]) = false := by
  have computed : ((Document.read
      "<svg><g id='r'><g fill='red'><rect fill='red' stroke='none' stroke-width='2'/></g></g></svg>"
      none).toOption.bind fun doc =>
        (removeRedundantAttributes.prepare ⟨1, none, .ofDocument doc⟩ .empty).bind fun editFill =>
          (removeUnpaintedAttributes.prepare ⟨1, none, .ofDocument doc⟩ .empty).bind fun editStroke =>
            (Styles.ofDocument doc).toOption.bind fun styles => (editFill doc).toOption.bind fun outFill =>
              (editStroke doc).toOption.map fun outStroke =>
                ((decide (doc.elementAncestors ⟨4⟩ = [⟨3⟩, ⟨2⟩, ⟨1⟩]) && (doc.element? ⟨2⟩).any isReuseTarget
                    && styles.derived.attributeNames.isEmpty,
                  (((doc.element? ⟨2⟩).bind (·.attribute? "fill")).isNone
                    && ((outFill.document.element? ⟨2⟩).bind (·.attribute? "fill")).isNone
                    && decide (HasFromInside styles outFill.document ⟨4⟩ [⟨3⟩, ⟨2⟩] "fill")),
                  ([⟨3⟩, ⟨2⟩, ⟨1⟩].all fun n => strokeProperties.all fun name =>
                      ((doc.element? n).bind (·.attribute? name)).isNone
                        && ((outStroke.document.element? n).bind (·.attribute? name)).isNone)
                    && (strokeProperties.all fun name => decide (HasFromInside styles doc ⟨4⟩ [⟨3⟩, ⟨2⟩] name))
                    && (styleUnder styles doc .empty ⟨4⟩ [⟨3⟩, ⟨2⟩]).has "stroke"),
                  ((outFill.document.element? ⟨4⟩).map (·.attributes.items.map (·.name)),
                    (outStroke.document.element? ⟨4⟩).map (·.attributes.items.map (·.name)),
                  Effect.of "fill" ((styleUnder styles doc
                    ⟨[("fill", .known "blue"), ("stroke", .known "blue")]⟩ ⟨4⟩ [⟨3⟩, ⟨2⟩]).get? "fill"),
                  paintsStroke (styleUnder styles doc
                    ⟨[("fill", .known "blue"), ("stroke", .known "blue")]⟩ ⟨4⟩ [⟨3⟩, ⟨2⟩])))) =
      some ((true, true, true), (some ["stroke", "stroke-width"], some ["fill", "stroke"], .shows "red", false)) := by
    decide +kernel
  rcases Option.bind_eq_some_iff.mp computed with ⟨doc, parsed, computed⟩
  rcases Option.bind_eq_some_iff.mp computed with ⟨editFill, preparedFill, computed⟩
  rcases Option.bind_eq_some_iff.mp computed with ⟨editStroke, preparedStroke, computed⟩
  rcases Option.bind_eq_some_iff.mp computed with ⟨styles, collected, computed⟩
  rcases Option.bind_eq_some_iff.mp computed with ⟨outFill, ranFill, computed⟩
  rcases Option.map_eq_some_iff.mp computed with ⟨outStroke, ranStroke, computed⟩
  rw [toOption_eq_some] at parsed collected ranFill ranStroke
  rcases Prod.mk.inj computed with ⟨checks, results⟩
  rcases Prod.mk.inj checks with ⟨standing, checks⟩
  rcases Prod.mk.inj checks with ⟨fillChecks, strokeChecks⟩
  rcases Prod.mk.inj results with ⟨fillNames, results⟩
  rcases Prod.mk.inj results with ⟨strokeNames, results⟩
  rcases Prod.mk.inj results with ⟨red, unpainted⟩
  simp only [Bool.and_eq_true, decide_eq_true_eq, List.all_eq_true, List.isEmpty_iff, Option.isNone_iff_eq_none]
    at standing fillChecks strokeChecks
  rcases standing with ⟨⟨line, isTarget⟩, noTests⟩
  rcases fillChecks with ⟨⟨before, after⟩, fillInside⟩
  rcases strokeChecks with ⟨⟨above, strokeInside⟩, set⟩
  have copied : Copied doc ⟨4⟩ ⟨2⟩ [⟨3⟩] [⟨1⟩] := ⟨line, isTarget, List.cons_ne_nil _ _⟩
  rcases (attribute_removal_is_safe_for_copies parsed copied
    ⟨[("fill", .known "blue"), ("stroke", .known "blue")]⟩).1 editFill preparedFill with
    ⟨others, result, same, ranToo, keepsEffects⟩
  cases Except.ok.inj (collected.symm.trans same)
  cases Except.ok.inj (ranFill.symm.trans ranToo)
  rcases (attribute_removal_is_safe_for_copies parsed copied
    ⟨[("fill", .known "blue"), ("stroke", .known "blue")]⟩).2 editStroke preparedStroke rfl with
    ⟨others, result, same, ranToo, keepsPaint⟩
  cases Except.ok.inj (collected.symm.trans same)
  cases Except.ok.inj (ranStroke.symm.trans ranToo)
  have unseen : ∀ name, isPaintProperty name = true → styles.testsAttribute (some name) = false := by
    intro name _
    rw [Styles.testsAttribute, noTests]
    rfl
  have strokeIsSettled : StrokeIsSettled styles doc outStroke.document ⟨4⟩ [⟨3⟩, ⟨2⟩] := by
    refine ⟨fun upper higher name listed => ?_, Or.inr ⟨strokeInside, set⟩⟩
    rw [line] at higher
    rw [KeepsAttribute, (above upper higher name listed).1, (above upper higher name listed).2]
  refine ⟨doc, editFill, editStroke, styles, outFill, outStroke, parsed, preparedFill, preparedStroke, collected, ranFill,
    ranStroke, fillNames, strokeNames, ?_, ?_⟩
  · refine (keepsEffects "fill" (by decide) fun _ => Or.inr ⟨?_, fillInside⟩).trans red
    rw [KeepsAttribute, before, after]
  · exact ((keepsPaint unseen).1 strokeIsSettled).trans unpainted

/-- Outside of the copied part there is a red fill, and the inner fill repeats it.  It is left
out, so a copy below something blue becomes blue. -/
theorem overriding_fill_is_missed_in_copy :
    ∃ doc edit styles out,
      Document.read "<svg><g fill='red'><g id='r'><rect fill='red'/></g></g><use href='#r' fill='blue'/></svg>"
        none = .ok doc ∧
      removeRedundantAttributes.prepare ⟨1, none, .ofDocument doc⟩ .empty = some edit ∧
      Styles.ofDocument doc = .ok styles ∧ edit doc = .ok out ∧ Copied doc ⟨4⟩ ⟨3⟩ [] [⟨2⟩, ⟨1⟩] ∧
      Effect.of "fill" ((styleUnder styles doc ⟨[("fill", .known "blue")]⟩ ⟨4⟩ [⟨3⟩]).get? "fill") = .shows "red" ∧
      Effect.of "fill" ((styleUnder styles out.document ⟨[("fill", .known "blue")]⟩ ⟨4⟩ [⟨3⟩]).get? "fill") ≠
        .shows "red" := by
  have computed : ((Document.read
      "<svg><g fill='red'><g id='r'><rect fill='red'/></g></g><use href='#r' fill='blue'/></svg>"
      none).toOption.bind fun doc =>
        (removeRedundantAttributes.prepare ⟨1, none, .ofDocument doc⟩ .empty).bind fun edit =>
          (Styles.ofDocument doc).toOption.bind fun styles => (edit doc).toOption.map fun out =>
            (doc.elementAncestors ⟨4⟩ == [⟨3⟩, ⟨2⟩, ⟨1⟩] && (doc.element? ⟨3⟩).any isReuseTarget,
              Effect.of "fill" ((styleUnder styles doc ⟨[("fill", .known "blue")]⟩ ⟨4⟩ [⟨3⟩]).get? "fill"),
              decide (Effect.of "fill"
                ((styleUnder styles out.document ⟨[("fill", .known "blue")]⟩ ⟨4⟩ [⟨3⟩]).get? "fill") = .shows "red"))) =
      some (true, .shows "red", false) := by
    decide +kernel
  rcases Option.bind_eq_some_iff.mp computed with ⟨doc, parsed, computed⟩
  rcases Option.bind_eq_some_iff.mp computed with ⟨edit, prepared, computed⟩
  rcases Option.bind_eq_some_iff.mp computed with ⟨styles, collected, computed⟩
  rcases Option.map_eq_some_iff.mp computed with ⟨out, ran, computed⟩
  rw [toOption_eq_some] at parsed collected ran
  rcases Prod.mk.inj computed with ⟨stands, computed⟩
  rcases Prod.mk.inj computed with ⟨before, after⟩
  rw [Bool.and_eq_true, beq_iff_eq] at stands
  refine ⟨doc, edit, styles, out, parsed, prepared, collected, ran, ?_, before, of_decide_eq_false after⟩
  exact ⟨stands.1, stands.2, List.cons_ne_nil _ _⟩

end Cleanup
end SlimSvg
