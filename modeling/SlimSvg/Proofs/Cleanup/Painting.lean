import SlimSvg.Cleanup.Painting
import SlimSvg.Proofs.Cleanup.Revision
import SlimSvg.Proofs.Css.Cascade
import SlimSvg.Proofs.Tree.Attributes
import SlimSvg.Proofs.Value.Shortest

namespace SlimSvg
namespace Cleanup

open Css (ComputedStyle ComputedValue Styles)

/-!
# What becomes of strokes and fills

The attributes of a paint are the only ones that change, and a shape without rules and
style attribute for its paint has the paint that its attributes say.  So what a shape
sets itself for its stroke and its fill after the change follows from the edits.
-/

/-- The properties that decide whether a stroke is painted. -/
def strokeProperties : List String :=
  ["stroke", "stroke-opacity", "stroke-width"]

/-- The properties that decide whether a fill is painted. -/
def fillProperties : List String :=
  ["fill", "fill-opacity"]

theorem startsWith_stroke : ∀ name ∈ strokeProperties, Text.startsWith name "stroke" = true := by decide

theorem startsWith_fill : ∀ name ∈ fillProperties, Text.startsWith name "fill" = true := by decide

theorem paintsStroke_congr {style other : ComputedStyle}
    (same : ∀ name ∈ strokeProperties, other.get? name = style.get? name) :
    paintsStroke other = paintsStroke style := by
  have stroke := same "stroke" (by decide)
  have opacity := same "stroke-opacity" (by decide)
  have width := same "stroke-width" (by decide)
  simp only [paintsStroke, ComputedStyle.isZero, ComputedStyle.text?, stroke, opacity, width]

theorem paintsFill_congr {style other : ComputedStyle}
    (same : ∀ name ∈ fillProperties, other.get? name = style.get? name) :
    paintsFill other = paintsFill style := by
  have fill := same "fill" (by decide)
  have opacity := same "fill-opacity" (by decide)
  simp only [paintsFill, ComputedStyle.isZero, ComputedStyle.text?, fill, opacity]

section Styles

variable {inside style : ComputedStyle}

theorem text?_of_get? {name text : String} (kept : ∀ v, inside.get? name = some v → style.get? name = some v)
    (found : inside.text? name = some text) : style.text? name = some text := by
  rcases Option.bind_eq_some_iff.mp found with ⟨v, set, known⟩
  exact Option.bind_eq_some_iff.mpr ⟨v, kept v set, known⟩

theorem get?_of_text? {name text : String} (found : style.text? name = some text) :
    style.get? name = some (.known text) := by
  rcases Option.bind_eq_some_iff.mp found with ⟨v, set, known⟩
  cases v with
  | known other => rw [set, Option.some.inj known]
  | dynamic => cases known

theorem isZero_of_get? {name : String} (kept : ∀ v, inside.get? name = some v → style.get? name = some v)
    (zero : inside.isZero name = true) : style.isZero name = true := by
  rcases (Option.any_eq_true _ _).mp zero with ⟨text, found, isZero⟩
  exact (Option.any_eq_true _ _).mpr ⟨text, text?_of_get? kept found, isZero⟩

/-- A stroke that is set and not painted stays so, whatever else is set. -/
theorem paintsStroke_of_get? (kept : ∀ name ∈ strokeProperties, ∀ v, inside.get? name = some v →
      style.get? name = some v) (set : inside.has "stroke" = true)
    (unpainted : paintsStroke inside = false) : paintsStroke style = false := by
  have sameText : style.text? "stroke" = inside.text? "stroke" := by
    rcases Option.isSome_iff_exists.mp set with ⟨v, found⟩
    rw [ComputedStyle.text?, ComputedStyle.text?, found, kept "stroke" (by decide) v found]
  rw [paintsStroke, Bool.and_eq_false_iff, Bool.and_eq_false_iff, Bool.not_eq_false', Bool.not_eq_false'] at unpainted ⊢
  rcases unpainted with (refused | transparent) | thin
  · rw [sameText]
    exact Or.inl (Or.inl refused)
  · exact Or.inl (Or.inr (isZero_of_get? (kept "stroke-opacity" (by decide)) transparent))
  · exact Or.inr (isZero_of_get? (kept "stroke-width" (by decide)) thin)

/-- A fill that is not painted stays so, whatever else is set. -/
theorem paintsFill_of_get? (kept : ∀ name ∈ fillProperties, ∀ v, inside.get? name = some v →
      style.get? name = some v) (unpainted : paintsFill inside = false) : paintsFill style = false := by
  rw [paintsFill, Bool.and_eq_false_iff, Bool.not_eq_false', bne_eq_false_iff_eq] at unpainted ⊢
  rcases unpainted with refused | transparent
  · exact Or.inl (text?_of_get? (kept "fill" (by decide)) refused)
  · exact Or.inr (isZero_of_get? (kept "fill-opacity" (by decide)) transparent)

theorem paintsStroke_of_none (refused : style.get? "stroke" = some (.known "none")) :
    paintsStroke style = false := by
  rw [paintsStroke, ComputedStyle.text?, refused]
  rfl

theorem paintsFill_of_none (refused : style.get? "fill" = some (.known "none")) : paintsFill style = false := by
  rw [paintsFill, ComputedStyle.text?, refused]
  rfl

/-- A paint that is refused is refused whatever the parent has. -/
theorem get?_inheritFrom_of_none (distinct : style.Distinct) (parent : ComputedStyle) {name : String}
    (refused : style.get? name = some (.known "none")) :
    (style.inheritFrom parent).get? name = some (.known "none") := by
  rw [ComputedStyle.get?_inheritFrom distinct, refused]
  rfl

end Styles

/-! ## The edits -/

/-- Where the parent has no stroke but one that is refused, none comes in from there. -/
theorem not_any_of_refused (parent : ComputedStyle)
    (refused : ((parent.get? "stroke").any fun value => value.text? != some "none") = false) :
    (parent.text? "stroke").any (· != "none") = false := by
  rw [ComputedStyle.text?]
  cases inherited : parent.get? "stroke" with
  | none => rfl
  | some v =>
      rw [inherited, Option.any_some, bne_eq_false_iff_eq] at refused
      rw [Option.bind_some, refused]
      rfl

/-- A stroke is kept, or it is not painted and disabled; it is only dropped if none can come
from the parent or from another place where the shape is drawn. -/
theorem strokeEdit_spec (style parent : ComputedStyle) (reusable : Bool) :
    strokeEdit style parent reusable = .keep ∨
      (strokeEdit style parent reusable = .drop ∧ paintsStroke style = false ∧ reusable = false ∧
        (parent.text? "stroke").any (· != "none") = false) ∨
      strokeEdit style parent reusable = .disable ∧ paintsStroke style = false := by
  rw [strokeEdit]
  split
  · exact Or.inl rfl
  · next unpainted =>
    rw [Bool.not_eq_true] at unpainted
    split
    · exact Or.inl rfl
    · dsimp only
      split
      · exact Or.inr (Or.inr ⟨rfl, unpainted⟩)
      · next gone =>
        rw [Bool.not_eq_true, Bool.or_eq_false_iff] at gone
        exact Or.inr (Or.inl ⟨rfl, unpainted, gone.1, not_any_of_refused parent gone.2⟩)

theorem fillEdit_spec (style : ComputedStyle) :
    fillEdit style = .keep ∨ fillEdit style = .drop ∧ style.text? "fill" = some "none" ∨
      fillEdit style = .disable ∧ paintsFill style = false := by
  rw [fillEdit]
  split
  · exact Or.inl rfl
  · next unpainted =>
    split
    · next refused => exact Or.inr (Or.inl ⟨rfl, eq_of_beq refused⟩)
    · exact Or.inr (Or.inr ⟨rfl, Bool.eq_false_iff.mpr unpainted⟩)

theorem PaintEdits.stroke_make (policy : PaintPolicy) (style parent : ComputedStyle) (reusable : Bool) :
    (make policy style parent reusable).stroke = .keep ∨
      ((make policy style parent reusable).stroke = .drop ∧ paintsStroke style = false ∧ reusable = false ∧
        (parent.text? "stroke").any (· != "none") = false) ∨
      (make policy style parent reusable).stroke = .disable ∧ paintsStroke style = false := by
  rw [make]
  cases policy.stroke with
  | true => exact strokeEdit_spec style parent reusable
  | false => exact Or.inl rfl

/-- Where a shape may be drawn in other places, a stroke is disabled or kept. -/
theorem PaintEdits.stroke_make_reusable (policy : PaintPolicy) (style parent : ComputedStyle) :
    (make policy style parent true).stroke = .keep ∨
      (make policy style parent true).stroke = .disable ∧ paintsStroke style = false := by
  rcases stroke_make policy style parent true with kept | ⟨-, -, impossible, -⟩ | disabled
  · exact Or.inl kept
  · cases impossible
  · exact Or.inr disabled

theorem PaintEdits.fill_make (policy : PaintPolicy) (style parent : ComputedStyle) (reusable : Bool) :
    (make policy style parent reusable).fill = .keep ∨
      (make policy style parent reusable).fill = .drop ∧ style.text? "fill" = some "none" ∨
      (make policy style parent reusable).fill = .disable ∧ paintsFill style = false := by
  rw [make]
  cases policy.fill with
  | true => exact fillEdit_spec style
  | false => exact Or.inl rfl

/-! ## The attributes of an edited shape -/

namespace PaintEdits

variable {edit : PaintEdit} {edits : PaintEdits} {name start other : String} {e : Element}

theorem typed_editPaint (typed : e.Typed) : (editPaint edit name start e).Typed := by
  have bare := typed.retain fun a => !Text.startsWith a.name start
  cases edit with
  | keep => exact typed
  | drop => exact bare
  | disable => exact bare.setAttribute name "none"

theorem typed_apply (typed : e.Typed) : (edits.apply e).Typed :=
  typed_editPaint (typed_editPaint typed)

theorem nodup_names_editPaint (distinct : (e.attributes.items.map (·.name)).Nodup) :
    ((editPaint edit name start e).attributes.items.map (·.name)).Nodup := by
  have bare := distinct.sublist
    ((List.filter_sublist (p := fun a => !Text.startsWith a.name start)).map Attribute.name)
  cases edit with
  | keep => exact distinct
  | drop => exact bare
  | disable => exact Attributes.nodup_names_insert name _ bare

theorem nodup_names_apply (distinct : (e.attributes.items.map (·.name)).Nodup) :
    ((edits.apply e).attributes.items.map (·.name)).Nodup :=
  nodup_names_editPaint (nodup_names_editPaint distinct)

theorem get?_retain_of_other (apart : Text.startsWith other start = false) :
    (e.attributes.retain fun a => !Text.startsWith a.name start).get? other = e.attribute? other := by
  apply Attributes.get?_retain_of_kept
  intro a _ named
  rw [named, apart]
  rfl

/-- An attribute that is no detail of the paint and not the paint itself stays. -/
theorem attribute?_editPaint_of_other (apart : Text.startsWith other start = false) (different : other ≠ name) :
    (editPaint edit name start e).attribute? other = e.attribute? other := by
  cases edit with
  | keep => rfl
  | drop => exact get?_retain_of_other apart
  | disable =>
      exact (Element.attribute?_setAttribute_of_ne _ "none" different).trans (get?_retain_of_other apart)

theorem attribute?_editPaint_disable :
    (editPaint .disable name start e).attribute? name = some (.ofAttribute e.name name "none") :=
  Element.attribute?_setAttribute_self _ name "none"

theorem name_editPaint : (editPaint edit name start e).name = e.name := by
  cases edit <;> rfl

theorem isSvg_editPaint : (editPaint edit name start e).isSvg = e.isSvg := by
  cases edit <;> rfl

theorem foreign_editPaint : (editPaint edit name start e).foreign = e.foreign := by
  cases edit <;> rfl

theorem name_apply : (edits.apply e).name = e.name :=
  name_editPaint.trans name_editPaint

theorem isSvg_apply : (edits.apply e).isSvg = e.isSvg :=
  isSvg_editPaint.trans isSvg_editPaint

theorem foreign_apply : (edits.apply e).foreign = e.foreign :=
  foreign_editPaint.trans foreign_editPaint

/-- Nothing but strokes and fills is edited. -/
theorem attribute?_apply_of_other (other_ : isPaintProperty other = false) :
    (edits.apply e).attribute? other = e.attribute? other := by
  rw [isPaintProperty, Bool.or_eq_false_iff] at other_
  rcases other_ with ⟨noStroke, noFill⟩
  have noDetail : Text.startsWith other "fill-" = false := by
    rw [Bool.eq_false_iff, Text.startsWith, ne_eq, List.isPrefixOf_iff_prefix] at noFill ⊢
    have shorter : "fill".toList <+: "fill-".toList := ⟨['-'], rfl⟩
    exact fun long => noFill (shorter.trans long)
  have named {paint : String} (begins : Text.startsWith paint paint = true)
      (apart : Text.startsWith other paint = false) : other ≠ paint := by
    rintro rfl
    rw [begins] at apart
    cases apart
  rw [apply, attribute?_editPaint_of_other noDetail (named (by decide) noFill),
    attribute?_editPaint_of_other noStroke (named (by decide) noStroke)]

/-- A text cannot begin with two texts neither of which begins with the other. -/
theorem not_startsWith_of_apart {one two : String} (begins : Text.startsWith name one = true)
    (apart : ¬ one.toList <+: two.toList ∧ ¬ two.toList <+: one.toList) : Text.startsWith name two = false := by
  rw [Text.startsWith, List.isPrefixOf_iff_prefix] at begins
  rw [Bool.eq_false_iff, Text.startsWith, ne_eq, List.isPrefixOf_iff_prefix]
  intro both
  rcases List.prefix_or_prefix_of_prefix begins both with first | second
  · exact apart.1 first
  · exact apart.2 second

/-- What belongs to the stroke is not touched with the fill. -/
theorem attribute?_apply_of_stroke (stroke : Text.startsWith name "stroke" = true) :
    (edits.apply e).attribute? name = (editPaint edits.stroke "stroke" "stroke" e).attribute? name := by
  refine attribute?_editPaint_of_other (not_startsWith_of_apart stroke (by decide)) ?_
  rintro rfl
  exact absurd stroke (by decide)

/-- What belongs to the fill is not touched with the stroke. -/
theorem attribute?_editStroke_of_fill (fill : Text.startsWith name "fill" = true) :
    (editPaint edits.stroke "stroke" "stroke" e).attribute? name = e.attribute? name := by
  refine attribute?_editPaint_of_other (not_startsWith_of_apart fill (by decide)) ?_
  rintro rfl
  exact absurd fill (by decide)

theorem attribute?_apply_of_stroke_kept (kept : edits.stroke = .keep) (stroke : Text.startsWith name "stroke" = true) :
    (edits.apply e).attribute? name = e.attribute? name := by
  rw [attribute?_apply_of_stroke stroke, kept]
  rfl

theorem attribute?_apply_of_stroke_dropped (dropped : edits.stroke = .drop)
    (stroke : Text.startsWith name "stroke" = true) : (edits.apply e).attribute? name = none := by
  rw [attribute?_apply_of_stroke stroke, dropped]
  apply Attributes.get?_retain_of_all_dropped
  intro a _ named
  rw [named, stroke]
  rfl

theorem attribute?_apply_of_stroke_disabled (disabled : edits.stroke = .disable) :
    (edits.apply e).attribute? "stroke" = some (.ofAttribute e.name "stroke" "none") := by
  rw [attribute?_apply_of_stroke (by decide), disabled]
  exact attribute?_editPaint_disable

theorem attribute?_apply_of_fill_kept (kept : edits.fill = .keep) (fill : Text.startsWith name "fill" = true) :
    (edits.apply e).attribute? name = e.attribute? name := by
  rw [apply, kept]
  exact attribute?_editStroke_of_fill fill

theorem attribute?_apply_of_fill_dropped (dropped : edits.fill = .drop) :
    (edits.apply e).attribute? "fill" = e.attribute? "fill" := by
  have apart : Text.startsWith "fill" "fill-" = false := by decide
  rw [apply, dropped]
  exact (get?_retain_of_other apart).trans (attribute?_editStroke_of_fill (by decide))

theorem attribute?_apply_of_fill_disabled (disabled : edits.fill = .disable) :
    (edits.apply e).attribute? "fill" = some (.ofAttribute e.name "fill" "none") := by
  rw [apply, disabled, attribute?_editPaint_disable, name_editPaint]

theorem isReuseTarget_apply : isReuseTarget (edits.apply e) = isReuseTarget e := by
  rw [isReuseTarget, isReuseTarget, Element.id?, Element.id?, Element.attributeText?, Element.attributeText?,
    Element.hasName, Element.hasName, isSvg_apply, name_apply, attribute?_apply_of_other (by decide)]

end PaintEdits

/-- Whether an element is another one with other paint attributes. -/
structure Recolored (e new : Element) : Prop where
  name_eq : new.name = e.name
  foreign_eq : new.foreign = e.foreign
  attribute?_eq : ∀ {name}, isPaintProperty name = false → new.attribute? name = e.attribute? name
  typed : e.Typed → new.Typed

namespace Recolored

variable {e new third : Element}

theorem refl (e : Element) : Recolored e e :=
  ⟨rfl, rfl, fun _ => rfl, id⟩

theorem trans (first : Recolored e new) (second : Recolored new third) : Recolored e third where
  name_eq := second.name_eq.trans first.name_eq
  foreign_eq := second.foreign_eq.trans first.foreign_eq
  attribute?_eq other := (second.attribute?_eq other).trans (first.attribute?_eq other)
  typed known := second.typed (first.typed known)

theorem apply (edits : PaintEdits) (e : Element) : Recolored e (edits.apply e) where
  name_eq := PaintEdits.name_apply
  foreign_eq := PaintEdits.foreign_apply
  attribute?_eq other := PaintEdits.attribute?_apply_of_other other
  typed := PaintEdits.typed_apply

/-- Rules that ask for no paint do not see the difference. -/
theorem accepts_eq (recolored : Recolored e new) {styles : Styles}
    (unseen : ∀ name, isPaintProperty name = true → styles.testsAttribute (some name) = false) {r : Css.Rule}
    (listed : r ∈ Css.Derived.rules styles.sheets) {c : Css.Compound} (among : c ∈ r.selector.allCompounds)
    {t : Css.SimpleSelector} (tested : t ∈ c.tests) : t.accepts new = t.accepts e := by
  refine Css.SimpleSelector.accepts_congr recolored.name_eq recolored.foreign_eq
    (recolored.attribute?_eq (by decide)) (recolored.attribute?_eq (by decide)) fun test asks => ?_
  refine recolored.attribute?_eq (Bool.eq_false_iff.mpr fun paint => ?_)
  have derived := Styles.testsAttribute_of_tested listed among (asks ▸ tested)
  rw [unseen test.name paint] at derived
  cases derived

end Recolored

/-! ## The style of an edited shape -/

section Shape

variable {styles : Styles} {doc other : Document} {node : NodeId} {e new : Element}

/-- A shape that is plainly painted sets for its paint what its attributes say. -/
theorem get?_ownStyle_of_isPlainlyPainted (distinct : (e.attributes.items.map (·.name)).Nodup)
    (found : doc.element? node = some e) (plain : isPlainlyPainted styles doc node e = true)
    {name : String} (paint : isPaintProperty name = true) :
    (styles.ownStyle doc node).get? name = (Css.attributeCandidate? e name).map (·.value e.name name) := by
  rw [isPlainlyPainted, Bool.and_eq_true, Bool.and_eq_true, Bool.not_eq_true', Bool.not_eq_true',
    Element.hasAttribute, Attributes.has_eq_isSome_get?, Option.isSome_eq_false_iff, Option.isNone_iff_eq_none,
    List.any_eq_false] at plain
  rcases plain with ⟨⟨-, unstyled⟩, unruled⟩
  have noStyle : ((doc.element? node).bind (·.attribute? "style")).bind (·.declarations?) = none := by
    rw [found, Option.bind_some, Element.attribute?, unstyled]
    rfl
  have noRule : (styles.ruleStyle doc node).get? name = none := by
    apply lookup_eq_none_of_notMem
    intro listed
    rcases List.mem_map.mp listed with ⟨entry, ruled, rfl⟩
    exact unruled entry ruled paint
  rw [Styles.ownStyle, noStyle, Styles.ownStyleWith, found]
  exact (Styles.get?_applyRules_of_unset noRule _).trans (Css.get?_attributeStyle distinct name)

/-- Leaving attributes of paints out or setting them, as a change under the style of the
parent. -/
def repainting (policy : PaintPolicy) (styles : Styles) (doc : Document)
    (unseen : ∀ name, isPaintProperty name = true → styles.testsAttribute (some name) = false) :
    Revision styles where
  Changes parent node e new :=
    let style := (styles.ownStyle doc node).inheritFrom parent
    isPlainlyPainted styles doc node e = true ∧
      new = (PaintEdits.make policy style parent (isReusable doc (doc.elementAncestors node).reverse)).apply e
  name_eq := by
    rintro parent node e new ⟨-, rfl⟩
    exact PaintEdits.name_apply
  style_eq := by
    rintro parent node e new ⟨-, rfl⟩
    exact PaintEdits.attribute?_apply_of_other (by decide)
  typed := by
    rintro parent node e new ⟨-, rfl⟩ typed
    exact PaintEdits.typed_apply typed
  isReuseTarget_eq := by
    rintro parent node e new ⟨-, rfl⟩
    exact PaintEdits.isReuseTarget_apply
  accepts_eq := by
    rintro parent node e new ⟨-, rfl⟩ r listed c among t tested
    exact (Recolored.apply _ e).accepts_eq unseen listed among tested

theorem isPlainlyPainted_apply {edits : PaintEdits}
    (ruledEq : styles.ruleStyle other node = styles.ruleStyle doc node)
    (plain : isPlainlyPainted styles doc node e = true) :
    isPlainlyPainted styles other node (edits.apply e) = true := by
  rw [isPlainlyPainted, Element.id?, Element.attributeText?, Element.hasAttribute,
    Attributes.has_eq_isSome_get?] at plain ⊢
  rw [ruledEq, PaintEdits.isSvg_apply, PaintEdits.attribute?_apply_of_other (by decide)]
  have styleEq : (edits.apply e).attributes.get? "style" = e.attributes.get? "style" :=
    PaintEdits.attribute?_apply_of_other (by decide)
  rw [styleEq]
  exact plain

end Shape

/-! ## One step -/

/-- What entering an element does, if no shapes are taken away. -/
def paintStep (policy : PaintPolicy) (styles : Styles) (node : NodeId) (ancestors : List NodeId)
    (scene : Scene Styles.Memo) : Scene Styles.Memo :=
  let doc := scene.document
  if (doc.element? node).any fun e => Vocabulary.isShape e.name then
    let (edits?, memo) := paintEdits? policy styles doc node ancestors scene.state
    ⟨memo, edits?.elim doc fun edits => doc.modifyElement node edits.apply⟩
  else scene

theorem enters_enterPainted {policy : PaintPolicy} (keeps : policy.removeUnpainted = false) (styles : Styles) :
    Visitor.Enters { enter := enterPainted policy styles } (paintStep policy styles) where
  visitor_eq := rfl
  gives node ancestors scene := by
    change (enterPainted policy styles node ancestors).Gives scene .descend _
    rw [enterPainted, paintStep]
    refine (Visit.gives_document scene).bind ?_
    dsimp only
    cases shaped : (scene.document.element? node).any fun e => Vocabulary.isShape e.name with
    | false => exact Visit.gives_pure _ _
    | true =>
        refine (Visit.gives_state scene).bind ?_
        rcases paintEdits? policy styles scene.document node ancestors scene.state with ⟨edits?, memo⟩
        refine (Visit.gives_editState _ scene).bind ?_
        cases edits? with
        | none => exact Visit.gives_pure _ _
        | some edits =>
            dsimp only
            rw [keeps, Bool.false_and]
            exact (Visit.gives_editDocument _ _).bind (Visit.gives_pure _ _)
  sameShape node ancestors scene := by
    rw [paintStep]
    dsimp only
    split
    · cases (paintEdits? policy styles scene.document node ancestors scene.state).1 with
      | none => exact .refl _
      | some edits => exact Document.sameShape_modifyElement _ _ _
    · exact .refl _

/-! ## The whole visit -/

section Visit

variable {policy : PaintPolicy} {styles : Styles} {doc : Document}
  {unseen : ∀ name, isPaintProperty name = true → styles.testsAttribute (some name) = false}
  {done : List NodeId} {scene : Scene Styles.Memo}

/-- Entering the next element makes progress. -/
theorem progress_paintStep (progress : (repainting policy styles doc unseen).Progress doc done scene)
    (grown : doc.Grown Element.Typed) {node : NodeId} {after : List NodeId}
    (split : doc.elements = done ++ node :: after) :
    (repainting policy styles doc unseen).Progress doc (done ++ [node])
      (paintStep policy styles node (doc.elementAncestors node).reverse scene) := by
  have same := progress.untouched node (Document.notMem_before grown split)
  rcases progress.consult grown split with ⟨parentEq, consulted⟩
  rcases consulted.consult grown split with ⟨againEq, progressed⟩
  rw [paintStep]
  dsimp only
  split
  · rw [paintEdits?, same]
    cases found : doc.element? node with
    | none => exact progress.leave grown split
    | some e =>
        have plainEq : isPlainlyPainted styles scene.document node e = isPlainlyPainted styles doc node e := by
          rw [isPlainlyPainted, isPlainlyPainted, progress.ruleStyle_eq]
        have ownEq : styles.ownStyle scene.document node = styles.ownStyle doc node :=
          Styles.ownStyle_congr same (progress.matchingRules_eq node)
        have styleEq : styles.computedStyle scene.document node scene.state =
            ((styles.ownStyle doc node).inheritFrom
              (Css.inherited (styles.ownStyle scene.document) (doc.elementAncestors node)),
              (styles.chainStyle scene.document (doc.elementAncestors node) scene.state).2) := by
          rw [Styles.computedStyle, progress.sameShape.elementAncestors_eq]
          dsimp only
          rw [ownEq, parentEq]
        dsimp only
        rw [plainEq, styleEq]
        cases plain : isPlainlyPainted styles doc node e with
        | false => exact progress.leave grown split
        | true =>
            dsimp only
            cases known : isPaintKnown ((styles.ownStyle doc node).inheritFrom
                (Css.inherited (styles.ownStyle scene.document) (doc.elementAncestors node))) with
            | false => exact consulted.leave grown split
            | true =>
                rw [progress.parentStyle_eq grown, progress.isReusable_eq]
                refine progressed.change grown split found ⟨plain, ?_⟩
                rw [← againEq]
  · exact progress.leave grown split

/-- A shape that was changed was edited by the style that it had when its turn came. -/
theorem Revision.Progress.exists_edits (progress : (repainting policy styles doc unseen).Progress doc done scene)
    {node : NodeId} (changed : scene.document.element? node ≠ doc.element? node) :
    let parent := Css.inherited (styles.ownStyle scene.document) (doc.elementAncestors node)
    let style := (styles.ownStyle doc node).inheritFrom parent
    let edits := PaintEdits.make policy style parent (isReusable doc (doc.elementAncestors node).reverse)
    ∃ e, doc.element? node = some e ∧ scene.document.element? node = some (edits.apply e) ∧
      isPlainlyPainted styles doc node e = true := by
  rcases progress.exists_revised node with same | ⟨e, new, found, now, plain, rfl⟩
  · exact absurd same changed
  · exact ⟨e, found, now, plain⟩

/-- The style by which a shape was judged has a property as in the first document, if all
elements above have kept their attribute. -/
theorem get?_judged_eq {v : Revision styles} (progress : v.Progress doc done scene) (grown : doc.Grown Element.Typed)
    (distinct : ∀ r ∈ Css.Derived.rules styles.sheets, r.declarations.Distinct) {node : NodeId} {name : String}
    (above : ∀ upper ∈ doc.elementAncestors node, KeepsAttribute doc scene.document name upper) :
    ((styles.ownStyle doc node).inheritFrom
        (Css.inherited (styles.ownStyle scene.document) (doc.elementAncestors node))).get? name =
      (Css.inherited (styles.ownStyle doc) (node :: doc.elementAncestors node)).get? name := by
  have parentEq := progress.get?_inheritedUnder_eq grown distinct above .empty
  rw [Css.inheritedUnder_empty, Css.inheritedUnder_empty] at parentEq
  rw [Css.inherited, ComputedStyle.get?_inheritFrom (styles.distinct_ownStyle doc node),
    ComputedStyle.get?_inheritFrom (styles.distinct_ownStyle doc node), parentEq]

/-! ## What is painted -/

section Paint

variable {node : NodeId} {inner outer : List NodeId}

/-- What a plainly painted shape sets for a paint that was disabled. -/
theorem get?_ownStyle_of_disabled {other : Document} {e : Element}
    (distinct : (e.attributes.items.map (·.name)).Nodup) (found : other.element? node = some e) (plain : isPlainlyPainted styles other node e = true) {name element : String}
    (paint : isPaintProperty name = true) (presentation : Vocabulary.isPresentation name = true)
    (disabled : e.attribute? name = some (.ofAttribute element name "none")) :
    (styles.ownStyle other node).get? name = some (.known "none") := by
  rw [get?_ownStyle_of_isPlainlyPainted distinct found plain paint, Css.attributeCandidate?,
    Css.countsAsProperty, presentation, Bool.true_or, if_pos rfl, disabled, Option.map_some, Option.map_some,
    Css.Candidate.value_ofAttribute, AttributeValue.text_ofAttribute]
  rfl

variable (progress : (repainting policy styles doc unseen).Progress doc done scene)
  (grown : doc.Grown Element.Typed) (distinct : ∀ r ∈ Css.Derived.rules styles.sheets, r.declarations.Distinct)

include progress grown distinct

/-- Where a shape may be drawn in other places, its stroke is left alone or refused, and it is
refused only if it is not painted. -/
theorem stroke_kept_or_refused
    (above : ∀ upper ∈ doc.elementAncestors node, ∀ name ∈ strokeProperties,
      KeepsAttribute doc scene.document name upper)
    (reusable : isReusable doc (doc.elementAncestors node).reverse = true) :
    let style := Css.inherited (styles.ownStyle doc) (node :: doc.elementAncestors node)
    (∀ name ∈ strokeProperties, KeepsAttribute doc scene.document name node) ∨
      paintsStroke style = false ∧
        (styles.ownStyle scene.document node).get? "stroke" = some (.known "none") := by
  by_cases same : scene.document.element? node = doc.element? node
  · exact Or.inl fun name _ => by rw [KeepsAttribute, same]
  have judged : ∀ name ∈ strokeProperties, _ = _ := fun name listed =>
    get?_judged_eq progress grown distinct fun upper higher => above upper higher name listed
  rcases progress.exists_edits same with ⟨e, found, now, plain⟩
  rw [reusable] at now
  rcases PaintEdits.stroke_make_reusable policy _ _ with kept | ⟨disabled, unpainted⟩
  · refine Or.inl fun name listed => ?_
    rw [KeepsAttribute, found, now]
    exact PaintEdits.attribute?_apply_of_stroke_kept kept (startsWith_stroke name listed)
  · refine Or.inr ⟨?_, ?_⟩
    · rw [← paintsStroke_congr judged]
      exact unpainted
    · exact get?_ownStyle_of_disabled (PaintEdits.nodup_names_apply (grown.element_fits found).nodup_names) now
        (isPlainlyPainted_apply (progress.ruleStyle_eq node) plain) (by decide) (by decide)
        (PaintEdits.attribute?_apply_of_stroke_disabled disabled)

/-- The fill of a shape is left alone, or it is refused already and loses its details, or it is
refused now because it is not painted. -/
theorem fill_kept_or_refused
    (above : ∀ upper ∈ doc.elementAncestors node, ∀ name ∈ fillProperties,
      KeepsAttribute doc scene.document name upper) :
    let style := Css.inherited (styles.ownStyle doc) (node :: doc.elementAncestors node)
    (∀ name ∈ fillProperties, KeepsAttribute doc scene.document name node) ∨
      KeepsAttribute doc scene.document "fill" node ∧ style.get? "fill" = some (.known "none") ∨
      paintsFill style = false ∧ (styles.ownStyle scene.document node).get? "fill" = some (.known "none") := by
  by_cases same : scene.document.element? node = doc.element? node
  · exact Or.inl fun name _ => by rw [KeepsAttribute, same]
  have judged : ∀ name ∈ fillProperties, _ = _ := fun name listed =>
    get?_judged_eq progress grown distinct fun upper higher => above upper higher name listed
  rcases progress.exists_edits same with ⟨e, found, now, plain⟩
  rcases PaintEdits.fill_make policy _ _ _ with kept | ⟨dropped, refused⟩ | ⟨disabled, unpainted⟩
  · refine Or.inl fun name listed => ?_
    rw [KeepsAttribute, found, now]
    exact PaintEdits.attribute?_apply_of_fill_kept kept (startsWith_fill name listed)
  · refine Or.inr (Or.inl ⟨?_, ?_⟩)
    · rw [KeepsAttribute, found, now]
      exact PaintEdits.attribute?_apply_of_fill_dropped dropped
    · rw [← judged "fill" (by decide)]
      exact get?_of_text? refused
  · refine Or.inr (Or.inr ⟨?_, ?_⟩)
    · rw [← paintsFill_congr judged]
      exact unpainted
    · exact get?_ownStyle_of_disabled (PaintEdits.nodup_names_apply (grown.element_fits found).nodup_names) now
        (isPlainlyPainted_apply (progress.ruleStyle_eq node) plain) (by decide) (by decide)
        (PaintEdits.attribute?_apply_of_fill_disabled disabled)

/-- Whether the stroke of a shape is painted stays under every style from outside, if it is
set inside and not decided by what comes from outside where the shape stands. -/
theorem paintsStroke_inheritedUnder (line : doc.elementAncestors node = inner ++ outer)
    (above : ∀ upper ∈ doc.elementAncestors node, ∀ name ∈ strokeProperties,
      KeepsAttribute doc scene.document name upper)
    (reusable : isReusable doc (doc.elementAncestors node).reverse = true) (context : ComputedStyle)
    (settled : (∀ name ∈ strokeProperties, KeepsAttribute doc scene.document name node) ∨
      (∀ name ∈ strokeProperties, (Css.inherited (styles.ownStyle doc) (node :: inner)).get? name =
        (Css.inherited (styles.ownStyle doc) (node :: doc.elementAncestors node)).get? name) ∧
      (Css.inherited (styles.ownStyle doc) (node :: inner)).has "stroke" = true) :
    paintsStroke (Css.inheritedUnder (styles.ownStyle scene.document) context (node :: inner)) =
      paintsStroke (Css.inheritedUnder (styles.ownStyle doc) context (node :: inner)) := by
  have ofKept (kept : ∀ name ∈ strokeProperties, KeepsAttribute doc scene.document name node) :
      paintsStroke (Css.inheritedUnder (styles.ownStyle scene.document) context (node :: inner)) =
        paintsStroke (Css.inheritedUnder (styles.ownStyle doc) context (node :: inner)) := by
    refine paintsStroke_congr fun name listed => progress.get?_inheritedUnder_eq grown distinct ?_ context
    rw [List.forall_mem_cons]
    exact ⟨kept name listed, fun upper higher => above upper (line ▸ List.mem_append_left outer higher) name listed⟩
  rcases settled with kept | ⟨inside, set⟩
  · exact ofKept kept
  rcases stroke_kept_or_refused progress grown distinct above reusable with kept | ⟨unpainted, refused⟩
  · exact ofKept kept
  · have inheritable : ∀ name ∈ strokeProperties, Vocabulary.isInheritable name = true := by decide
    rw [← paintsStroke_congr fun name listed => inside name listed] at unpainted
    have before : paintsStroke (Css.inheritedUnder (styles.ownStyle doc) context (node :: inner)) = false :=
      paintsStroke_of_get? (fun name listed v found =>
        Css.get?_inheritedUnder_of_inside (styles.distinct_ownStyle doc) context (inheritable name listed) found)
        set unpainted
    rw [before]
    exact paintsStroke_of_none (get?_inheritFrom_of_none (styles.distinct_ownStyle scene.document node) _ refused)

/-- Whether the fill of a shape is painted stays under every style from outside, if it is not
decided by what comes from outside where the shape stands. -/
theorem paintsFill_inheritedUnder (line : doc.elementAncestors node = inner ++ outer)
    (above : ∀ upper ∈ doc.elementAncestors node, ∀ name ∈ fillProperties,
      KeepsAttribute doc scene.document name upper)
    (context : ComputedStyle)
    (settled : (∀ name ∈ fillProperties, KeepsAttribute doc scene.document name node) ∨
      ∀ name ∈ fillProperties, (Css.inherited (styles.ownStyle doc) (node :: inner)).get? name =
        (Css.inherited (styles.ownStyle doc) (node :: doc.elementAncestors node)).get? name) :
    paintsFill (Css.inheritedUnder (styles.ownStyle scene.document) context (node :: inner)) =
      paintsFill (Css.inheritedUnder (styles.ownStyle doc) context (node :: inner)) := by
  have keptLine {name : String} (listed : name ∈ fillProperties) (kept : KeepsAttribute doc scene.document name node) :
      ∀ n ∈ node :: inner, KeepsAttribute doc scene.document name n := by
    rw [List.forall_mem_cons]
    exact ⟨kept, fun upper higher => above upper (line ▸ List.mem_append_left outer higher) name listed⟩
  have ofKept (kept : ∀ name ∈ fillProperties, KeepsAttribute doc scene.document name node) :
      paintsFill (Css.inheritedUnder (styles.ownStyle scene.document) context (node :: inner)) =
        paintsFill (Css.inheritedUnder (styles.ownStyle doc) context (node :: inner)) :=
    paintsFill_congr fun name listed =>
      progress.get?_inheritedUnder_eq grown distinct (keptLine listed (kept name listed)) context
  rcases settled with kept | inside
  · exact ofKept kept
  rcases fill_kept_or_refused progress grown distinct above with kept | ⟨kept, refused⟩ | ⟨unpainted, refused⟩
  · exact ofKept kept
  · rw [← inside "fill" (by decide)] at refused
    have before := Css.get?_inheritedUnder_of_inside (styles.distinct_ownStyle doc) context (by decide) refused
    have after := (progress.get?_inheritedUnder_eq grown distinct (keptLine (by decide) kept) context).trans before
    rw [paintsFill_of_none before, paintsFill_of_none after]
  · have inheritable : ∀ name ∈ fillProperties, Vocabulary.isInheritable name = true := by decide
    rw [← paintsFill_congr fun name listed => inside name listed] at unpainted
    have before : paintsFill (Css.inheritedUnder (styles.ownStyle doc) context (node :: inner)) = false :=
      paintsFill_of_get? (fun name listed v found =>
        Css.get?_inheritedUnder_of_inside (styles.distinct_ownStyle doc) context (inheritable name listed) found)
        unpainted
    rw [before]
    exact paintsFill_of_none (get?_inheritFrom_of_none (styles.distinct_ownStyle scene.document node) _ refused)

end Paint

end Visit

/-- The visit of a whole document that takes no shapes away. -/
theorem exists_repainting_progress {text : String} {title path : Option String} {pass : Nat} {doc : Document}
    {parameters : Parameters} {edit : DocumentEdit} (parsed : Document.read text title = .ok doc)
    (prepared : removeUnpaintedAttributes.prepare ⟨pass, path, .ofDocument doc⟩ parameters = some edit)
    (keeps : parameters.truth "removeNone" false = false) :
    ∃ styles scene, Styles.ofDocument doc = .ok styles ∧ edit doc = .ok { document := scene.document } ∧
      ∀ unseen, (repainting (.ofParameters parameters) styles doc unseen).Progress doc doc.elements scene := by
  have grown := Document.grown_of_read parsed
  rcases Option.map_eq_some_iff.mp prepared with ⟨styles, still, rfl⟩
  have staying : (PaintPolicy.ofParameters parameters).removeUnpainted = false := keeps
  rcases (enters_enterPainted staying styles).run_induction grown
      (Document.isElement_root_of_read parsed)
      (motive := fun done scene => ∀ unseen,
        (repainting (.ofParameters parameters) styles doc unseen).Progress doc done scene)
      (fun _ => Revision.Progress.start _ doc)
      (fun _ _ _ _ split progress unseen => progress_paintStep (progress unseen) grown split)
    with ⟨scene, ran, progress⟩
  exact ⟨styles, scene, Summary.ofDocument_of_stillStyles? still, DocumentEdit.visiting_of_run ran, progress⟩

end Cleanup
end SlimSvg
