import SlimSvg.Proofs.Cleanup.Painting

namespace SlimSvg
namespace Cleanup

open Css (ComputedStyle ComputedValue Styles)

/-!
# Shapes that look as before

The stroke and the fill of a shape are judged one by one and edited on one list of
attributes.  They cannot get into each other's way, since no name begins like a stroke and
like a fill.  Where the attributes of an unpainted stroke go, a stroke may come in from the
parent; it is only let in if it is no stroke either.  So a shape paints after the edits what
it painted before, and what it paints keeps its values.
-/

/-- Whether a paint shows under two styles or under neither, with the same values if it
shows. -/
structure PaintsAlike (paints : ComputedStyle → Bool) (start : String) (before after : ComputedStyle) : Prop where
  same : paints after = paints before
  kept : paints before = true → ∀ name, Text.startsWith name start = true → after.get? name = before.get? name

theorem PaintsAlike.of_unpainted {paints : ComputedStyle → Bool} {start : String} {before after : ComputedStyle}
    (gone : paints before = false) (still : paints after = false) : PaintsAlike paints start before after where
  same := still.trans gone.symm
  kept painted := by
    rw [gone] at painted
    cases painted

/-- A shape in a document and the same shape in another one, with its strokes and fills
edited and under the same rules. -/
structure Repainted (styles : Styles) (doc other : Document) (node : NodeId) (e : Element) (edits : PaintEdits) :
    Prop where
  found : doc.element? node = some e
  distinct : (e.attributes.items.map (·.name)).Nodup
  plain : isPlainlyPainted styles doc node e = true
  edited : other.element? node = some (edits.apply e)
  sameRules : styles.matchingRules other node = styles.matchingRules doc node

namespace Repainted

variable {styles : Styles} {doc other : Document} {node : NodeId} {e : Element} {edits : PaintEdits} {name : String}

/-- The edited shape is still painted by its attributes and by what it inherits alone. -/
theorem plain_edited (repainted : Repainted styles doc other node e edits) :
    isPlainlyPainted styles other node (edits.apply e) = true := by
  refine isPlainlyPainted_apply (Styles.ruleStyle_congr ?_ repainted.sameRules) repainted.plain
  rw [repainted.edited, repainted.found, Option.map_some, Option.map_some, PaintEdits.name_apply]

theorem get?_ownStyle (repainted : Repainted styles doc other node e edits) (paint : isPaintProperty name = true) :
    (styles.ownStyle other node).get? name =
      (Css.attributeCandidate? (edits.apply e) name).map (·.value e.name name) := by
  rw [get?_ownStyle_of_isPlainlyPainted (PaintEdits.nodup_names_apply repainted.distinct) repainted.edited
    repainted.plain_edited paint, PaintEdits.name_apply]

/-- Where the attribute of a paint stays, so does the value of the shape, whatever the parent
has. -/
theorem get?_of_kept (repainted : Repainted styles doc other node e edits) (parent : ComputedStyle)
    (paint : isPaintProperty name = true) (kept : (edits.apply e).attribute? name = e.attribute? name) :
    ((styles.ownStyle other node).inheritFrom parent).get? name =
      ((styles.ownStyle doc node).inheritFrom parent).get? name := by
  have own : (styles.ownStyle other node).get? name = (styles.ownStyle doc node).get? name := by
    rw [repainted.get?_ownStyle paint, Css.attributeCandidate?, kept, Css.countsAsProperty, PaintEdits.name_apply,
      get?_ownStyle_of_isPlainlyPainted repainted.distinct repainted.found repainted.plain paint]
    rfl
  rw [ComputedStyle.get?_inheritFrom (styles.distinct_ownStyle other node),
    ComputedStyle.get?_inheritFrom (styles.distinct_ownStyle doc node), own]

/-- A paint that was disabled is refused, whatever the parent has. -/
theorem get?_of_disabled (repainted : Repainted styles doc other node e edits) (parent : ComputedStyle)
    (paint : isPaintProperty name = true) (presentation : Vocabulary.isPresentation name = true)
    (disabled : (edits.apply e).attribute? name = some (.ofAttribute e.name name "none")) :
    ((styles.ownStyle other node).inheritFrom parent).get? name = some (.known "none") :=
  get?_inheritFrom_of_none (styles.distinct_ownStyle other node) parent
    (get?_ownStyle_of_disabled (PaintEdits.nodup_names_apply repainted.distinct) repainted.edited
      repainted.plain_edited paint presentation disabled)

/-- A stroke that was dropped lets in what the parent has. -/
theorem get?_of_stroke_dropped (repainted : Repainted styles doc other node e edits) (parent : ComputedStyle)
    (dropped : edits.stroke = .drop) :
    ((styles.ownStyle other node).inheritFrom parent).get? "stroke" = parent.get? "stroke" := by
  have own : (styles.ownStyle other node).get? "stroke" = none := by
    rw [repainted.get?_ownStyle (by decide), Css.attributeCandidate?,
      PaintEdits.attribute?_apply_of_stroke_dropped dropped (by decide), Option.map_none, ite_self]
    rfl
  have inheritable : Vocabulary.isInheritable "stroke" = true := by decide
  rw [ComputedStyle.get?_inheritFrom (styles.distinct_ownStyle other node), own, inheritable]
  rfl

theorem isPaintProperty_of_stroke (stroke : Text.startsWith name "stroke" = true) : isPaintProperty name = true := by
  rw [isPaintProperty, stroke, Bool.true_or]

theorem isPaintProperty_of_fill (fill : Text.startsWith name "fill" = true) : isPaintProperty name = true := by
  rw [isPaintProperty, fill, Bool.or_true]

/-- A stroke is painted as before, and if it is painted, with the values from before. -/
theorem stroke_as_before (repainted : Repainted styles doc other node e edits) {policy : PaintPolicy}
    {parent : ComputedStyle} {reusable : Bool}
    (planned : edits = .make policy ((styles.ownStyle doc node).inheritFrom parent) parent reusable) :
    PaintsAlike paintsStroke "stroke" ((styles.ownStyle doc node).inheritFrom parent)
      ((styles.ownStyle other node).inheritFrom parent) := by
  have choices := PaintEdits.stroke_make policy ((styles.ownStyle doc node).inheritFrom parent) parent reusable
  rw [← planned] at choices
  rcases choices with kept | ⟨dropped, gone, -, outside⟩ | ⟨disabled, gone⟩
  · have same (name : String) (stroke : Text.startsWith name "stroke" = true) :
        ((styles.ownStyle other node).inheritFrom parent).get? name =
          ((styles.ownStyle doc node).inheritFrom parent).get? name :=
      repainted.get?_of_kept parent (isPaintProperty_of_stroke stroke)
        (PaintEdits.attribute?_apply_of_stroke_kept kept stroke)
    exact ⟨paintsStroke_congr fun name listed => same name (startsWith_stroke name listed), fun _ => same⟩
  · refine .of_unpainted gone ?_
    have letIn : ((styles.ownStyle other node).inheritFrom parent).text? "stroke" = parent.text? "stroke" :=
      congrArg (Option.bind · ComputedValue.text?) (repainted.get?_of_stroke_dropped parent dropped)
    rw [paintsStroke, letIn, outside, Bool.false_and, Bool.false_and]
  · exact .of_unpainted gone (paintsStroke_of_none (repainted.get?_of_disabled parent (by decide) (by decide)
      (PaintEdits.attribute?_apply_of_stroke_disabled disabled)))

/-- A fill is painted as before, and if it is painted, with the values from before. -/
theorem fill_as_before (repainted : Repainted styles doc other node e edits) {policy : PaintPolicy}
    {parent : ComputedStyle} {reusable : Bool}
    (planned : edits = .make policy ((styles.ownStyle doc node).inheritFrom parent) parent reusable) :
    PaintsAlike paintsFill "fill" ((styles.ownStyle doc node).inheritFrom parent)
      ((styles.ownStyle other node).inheritFrom parent) := by
  have choices := PaintEdits.fill_make policy ((styles.ownStyle doc node).inheritFrom parent) parent reusable
  rw [← planned] at choices
  rcases choices with kept | ⟨dropped, refused⟩ | ⟨disabled, gone⟩
  · have same (name : String) (fill : Text.startsWith name "fill" = true) :
        ((styles.ownStyle other node).inheritFrom parent).get? name =
          ((styles.ownStyle doc node).inheritFrom parent).get? name :=
      repainted.get?_of_kept parent (isPaintProperty_of_fill fill) (PaintEdits.attribute?_apply_of_fill_kept kept fill)
    exact ⟨paintsFill_congr fun name listed => same name (startsWith_fill name listed), fun _ => same⟩
  · have refusedBefore := get?_of_text? refused
    have refusedAfter := (repainted.get?_of_kept parent (by decide)
      (PaintEdits.attribute?_apply_of_fill_dropped dropped)).trans refusedBefore
    exact .of_unpainted (paintsFill_of_none refusedBefore) (paintsFill_of_none refusedAfter)
  · exact .of_unpainted gone (paintsFill_of_none (repainted.get?_of_disabled parent (by decide) (by decide)
      (PaintEdits.attribute?_apply_of_fill_disabled disabled)))

end Repainted

/-- The edits for a shape are made only if it is plainly painted and its paints are known, and
by its style and that of its parent. -/
theorem make_of_paintEdits? {policy : PaintPolicy} {styles : Styles} {doc : Document} {node : NodeId}
    {ancestors : List NodeId} {memo later : Styles.Memo} {e : Element} {edits : PaintEdits}
    (found : doc.element? node = some e)
    (planned : paintEdits? policy styles doc node ancestors memo = (some edits, later)) :
    isPlainlyPainted styles doc node e = true ∧ isPaintKnown (styles.computedStyle doc node memo).1 = true ∧
      edits = .make policy (styles.computedStyle doc node memo).1
        (styles.parentStyle doc ancestors (styles.computedStyle doc node memo).2).1 (isReusable doc ancestors) := by
  rw [paintEdits?, found] at planned
  dsimp only at planned
  split at planned
  · cases (Prod.mk.inj planned).1
  · next plain =>
    rw [Bool.not_eq_true, Bool.not_eq_false'] at plain
    split at planned
    · cases (Prod.mk.inj planned).1
    · next known =>
      rw [Bool.not_eq_true, Bool.not_eq_false'] at known
      exact ⟨plain, known, (Option.some.inj (Prod.mk.inj planned).1).symm⟩

/-- Editing strokes and fills does not change what is painted.  For every policy, every
memory of styles and so every style of the parent: if the edits for a shape were made, the
edited shape under the same parent and the same rules has its stroke painted exactly if it
was, and its fill; and a stroke or a fill that is painted keeps all its values. -/
theorem repainted_shape_is_painted_alike {P : Element → Prop} {policy : PaintPolicy} {styles : Styles}
    {doc other : Document} {node : NodeId} {e : Element} {edits : PaintEdits} {memo later : Styles.Memo}
    (grown : doc.Grown P) (found : doc.element? node = some e)
    (distinct : (e.attributes.items.map (·.name)).Nodup)
    (planned : paintEdits? policy styles doc node (doc.elementAncestors node).reverse memo = (some edits, later))
    (edited : other.element? node = some (edits.apply e))
    (sameRules : styles.matchingRules other node = styles.matchingRules doc node) :
    let parent := (styles.parentStyle doc (doc.elementAncestors node).reverse memo).1
    let before := (styles.ownStyle doc node).inheritFrom parent
    let after := (styles.ownStyle other node).inheritFrom parent
    PaintsAlike paintsStroke "stroke" before after ∧ PaintsAlike paintsFill "fill" before after := by
  intro parent before after
  obtain ⟨plain, -, made⟩ := make_of_paintEdits? found planned
  have line : parent = (styles.chainStyle doc (doc.elementAncestors node) memo).1 :=
    congrArg Prod.fst (styles.parentStyle_elementAncestors grown node memo)
  -- The parent is asked twice, the second time with what the first answer left behind.
  have again : (styles.parentStyle doc (doc.elementAncestors node).reverse (styles.computedStyle doc node memo).2).1 =
      parent := by
    rw [styles.parentStyle_elementAncestors grown, line]
    exact congrArg Prod.fst (styles.chainStyle_again doc (doc.elementAncestors node) memo)
  have judged : (styles.computedStyle doc node memo).1 = before :=
    congrArg (styles.ownStyle doc node).inheritFrom line.symm
  rw [again, judged] at made
  have repainted : Repainted styles doc other node e edits := ⟨found, distinct, plain, edited, sameRules⟩
  exact ⟨repainted.stroke_as_before made, repainted.fill_as_before made⟩

/-- The stroke would come back from the group, so it is refused; the fill is refused already
and loses its detail. -/
theorem transparent_stroke_is_not_painted_again :
    ∃ doc styles e later,
      Document.read
          "<svg><style>rect\x7bopacity:.5\x7d</style><g stroke='red'><rect stroke-opacity='0' fill='none' fill-rule='evenodd'/></g></svg>"
          none = .ok doc ∧
      Styles.ofDocument doc = .ok styles ∧ doc.element? ⟨5⟩ = some e ∧
      paintEdits? (.ofParameters .empty) styles doc ⟨5⟩ (doc.elementAncestors ⟨5⟩).reverse [] =
        (some ⟨.disable, .drop⟩, later) ∧
      let edits : PaintEdits := ⟨.disable, .drop⟩
      let other := doc.modifyElement ⟨5⟩ edits.apply
      let parent := (styles.parentStyle doc (doc.elementAncestors ⟨5⟩).reverse []).1
      let before := (styles.ownStyle doc ⟨5⟩).inheritFrom parent
      let after := (styles.ownStyle other ⟨5⟩).inheritFrom parent
      other.element? ⟨5⟩ = some (edits.apply e) ∧
        styles.matchingRules other ⟨5⟩ = styles.matchingRules doc ⟨5⟩ ∧
        (styles.matchingRules doc ⟨5⟩).length = 1 ∧
        PaintsAlike paintsStroke "stroke" before after ∧ PaintsAlike paintsFill "fill" before after := by
  have computed : ((Document.read
      "<svg><style>rect\x7bopacity:.5\x7d</style><g stroke='red'><rect stroke-opacity='0' fill='none' fill-rule='evenodd'/></g></svg>"
      none).toOption.bind fun doc => (Styles.ofDocument doc).toOption.bind fun styles =>
        (doc.element? ⟨5⟩).map fun e =>
          let edits : PaintEdits := ⟨.disable, .drop⟩
          ((Css.Derived.rules styles.sheets).all fun r =>
              r.selector.selects (doc.modifyElement ⟨5⟩ edits.apply) ⟨5⟩ == r.selector.selects doc ⟨5⟩,
            decide (e.attributes.items.map (·.name)).Nodup,
            (paintEdits? (.ofParameters .empty) styles doc ⟨5⟩ (doc.elementAncestors ⟨5⟩).reverse []).1,
            (styles.matchingRules doc ⟨5⟩).length)) =
      some (true, true, some ⟨.disable, .drop⟩, 1) := by
    decide +kernel
  rcases Option.bind_eq_some_iff.mp computed with ⟨doc, parsed, computed⟩
  rcases Option.bind_eq_some_iff.mp computed with ⟨styles, collected, computed⟩
  rcases Option.map_eq_some_iff.mp computed with ⟨e, found, facts⟩
  rw [toOption_eq_some] at parsed collected
  rcases Prod.mk.inj facts with ⟨alike, facts⟩
  rcases Prod.mk.inj facts with ⟨distinct, facts⟩
  rcases Prod.mk.inj facts with ⟨planned, single⟩
  have made : paintEdits? (.ofParameters .empty) styles doc ⟨5⟩ (doc.elementAncestors ⟨5⟩).reverse [] =
      (some ⟨.disable, .drop⟩, _) := Prod.ext planned rfl
  have edited : (doc.modifyElement ⟨5⟩ (PaintEdits.apply ⟨.disable, .drop⟩)).element? ⟨5⟩ =
      some (PaintEdits.apply ⟨.disable, .drop⟩ e) := by
    rw [Document.element?_modifyElement, if_pos rfl, found, Option.map_some]
  have sameRules : styles.matchingRules (doc.modifyElement ⟨5⟩ (PaintEdits.apply ⟨.disable, .drop⟩)) ⟨5⟩ =
      styles.matchingRules doc ⟨5⟩ :=
    Styles.matchingRules_congr rfl fun r listed => eq_of_beq (List.all_eq_true.mp alike r listed)
  exact ⟨doc, styles, e, _, parsed, collected, found, made, edited, sameRules, single,
    repainted_shape_is_painted_alike (Document.grown_of_read parsed) found (of_decide_eq_true distinct) made edited
      sameRules⟩

end Cleanup
end SlimSvg
