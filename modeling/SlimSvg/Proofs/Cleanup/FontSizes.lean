import SlimSvg.Proofs.Cleanup.Redundant
import SlimSvg.Proofs.Value.Meaning
import SlimSvg.Proofs.Value.WrittenTransforms

namespace SlimSvg

/-!
# Font sizes

What is inherited of a font size is the size that it comes to, and not the text that says
it.  Texts are compared nevertheless where attributes are found to be redundant.  For a size
that does not depend on the parent this is the same: equal texts come to equal sizes.  A
size that is relative to the parent may repeat the text that the parent has and come to
another size, and leaving it out keeps all sizes only if it comes to that of the parent.
-/

open Number

/-- What a document does not say about font sizes. -/
structure FontMetrics where
  /-- The size if no other one is given. -/
  initial : ℚ
  /-- The height of the letter x in a font of size one. -/
  xHeight : ℚ
  /-- The sizes of texts that are no lengths, by the size of the parent. -/
  named : String → ℚ → ℚ
  /-- The sizes of nodes whose value depends on more than the document, by the size of the
  parent. -/
  unknown : NodeId → ℚ → ℚ
  xHeight_pos : 0 < xHeight
  named_medium : ∀ outer, named "medium" outer = initial

namespace FontMetrics

/-- Text of 16 pixels to begin with, letters that are half as high as the font, and the
steps that CSS proposes for the words.  Other texts are no sizes and leave the inherited one. -/
def usual : FontMetrics where
  initial := 16
  xHeight := 1 / 2
  named text outer :=
    match text with
    | "medium" => 16
    | "xx-small" => 3 / 5 * 16
    | "x-small" => 3 / 4 * 16
    | "small" => 8 / 9 * 16
    | "large" => 6 / 5 * 16
    | "x-large" => 3 / 2 * 16
    | "xx-large" => 2 * 16
    | "larger" => 6 / 5 * outer
    | "smaller" => 5 / 6 * outer
    | _ => outer
  unknown _ outer := outer
  xHeight_pos := by norm_num
  named_medium _ := rfl

variable (m : FontMetrics)

/-! ## Sizes of texts -/

/-- The size of a unit by the size of the parent. -/
def unitSize (outer : ℚ) : LengthUnit → ℚ
  | .none | .px => 1
  | .em => outer
  | .ex => m.xHeight * outer
  | .percent => outer / 100
  | .inch => 96
  | .cm => 4800 / 127
  | .mm => 480 / 127
  | .pt => 4 / 3
  | .pc => 16

/-- The size that a text stands for, by the size of the parent. -/
def textSize (text : String) (outer : ℚ) : ℚ :=
  match (TextForm.read? text : Option Length) with
  | some l => l.number.exact * m.unitSize outer l.unit
  | none => m.named (Text.trim text) outer

/-- Whether a text stands for the same size whatever the size of the parent is. -/
def IsAbsolute (text : String) : Prop :=
  ∀ outer other, m.textSize text outer = m.textSize text other

theorem textSize_of_read? {text : String} {l : Length} (read : TextForm.read? text = some l) (outer : ℚ) :
    m.textSize text outer = l.number.exact * m.unitSize outer l.unit := by
  rw [textSize, read]

theorem textSize_of_unread {text : String} (unread : (TextForm.read? text : Option Length) = none) (outer : ℚ) :
    m.textSize text outer = m.named (Text.trim text) outer := by
  rw [textSize, unread]

theorem textSize_medium (outer : ℚ) : m.textSize "medium" outer = m.initial := by
  rw [m.textSize_of_unread (by decide +kernel), show Text.trim "medium" = "medium" by decide, m.named_medium]

/-- A length depends on the size of the parent if its unit does and it is not zero. -/
theorem isAbsolute_length_iff {text : String} {l : Length} (read : TextForm.read? text = some l) :
    m.IsAbsolute text ↔ l.number.exact = 0 ∨ l.unit ≠ .em ∧ l.unit ≠ .ex ∧ l.unit ≠ .percent := by
  simp only [IsAbsolute, m.textSize_of_read? read]
  constructor
  · intro same
    have apart := same 1 0
    have tall := m.xHeight_pos.ne'
    cases unit : l.unit <;> simp_all [unitSize]
  · rintro (zero | ⟨notEm, notEx, notPercent⟩) outer other
    · rw [zero, zero_mul, zero_mul]
    · cases unit : l.unit <;> simp_all [unitSize]

/-- Lengths that mean the same come to the same size. -/
theorem size_of_means {again l : Length} (means : again.Means l) (outer : ℚ) :
    again.number.exact * m.unitSize outer again.unit = l.number.exact * m.unitSize outer l.unit := by
  have number := Binary.exact_of_eq means.1
  rcases means.2 with sameUnit | ⟨zero, -, -⟩
  · rw [number, sameUnit]
  · rw [number, Binary.exact_of_isZero zero, zero_mul, zero_mul]

/-- The shortest text of a font size stands for the size. -/
theorem textSize_minified (text : String) :
    m.textSize (PropertyValue.ofText "font-size" text).minified = m.textSize text := by
  funext outer
  have alike := Cached.read?_minified (Length.lawful text)
  change m.textSize (Cached.ofText text : Cached Length).minified outer = _
  cases read : (TextForm.read? text : Option Length) with
  | some l =>
      rw [read] at alike
      generalize readAgain : (TextForm.read? (Cached.ofText text : Cached Length).minified : Option Length) = again at alike
      cases alike with
      | some means => rw [m.textSize_of_read? readAgain, m.textSize_of_read? read, m.size_of_means means]
  | none =>
      have trimmed := (Length.trimsFirst text).trans read
      rw [Cached.minified_of_unread read, m.textSize_of_unread trimmed, m.textSize_of_unread read, Text.trim_trim]

theorem textSize_congr {first second : String}
    (same : (PropertyValue.ofText "font-size" first).minified = (PropertyValue.ofText "font-size" second).minified) :
    m.textSize first = m.textSize second := by
  rw [← m.textSize_minified first, same, m.textSize_minified]

theorem textSize_trim (text : String) : m.textSize (Text.trim text) = m.textSize text := by
  funext outer
  rw [textSize, textSize, Length.trimsFirst text, Text.trim_trim]

/-! ## Sizes of nodes -/

open Css (ComputedStyle ComputedValue Styles)

/-- The size of a node that sets some value or none, by the size of its parent. -/
def valueSize (node : NodeId) (value : Option ComputedValue) (outer : ℚ) : ℚ :=
  match value with
  | none => outer
  | some .dynamic => m.unknown node outer
  | some (.known text) => if ComputedStyle.asksParent (.known text) then outer else m.textSize text outer

/-- The size at the end of a line of nodes, the innermost one first. -/
def lineSize (own : NodeId → ComputedStyle) : List NodeId → ℚ
  | [] => m.initial
  | node :: outer => m.valueSize node ((own node).get? "font-size") (lineSize own outer)

/-- The font size of a node. -/
def size (styles : Styles) (doc : Document) (node : NodeId) : ℚ :=
  m.lineSize (styles.ownStyle doc) (node :: doc.elementAncestors node)

/-- The font size around a node. -/
def outerSize (styles : Styles) (doc : Document) (node : NodeId) : ℚ :=
  m.lineSize (styles.ownStyle doc) (doc.elementAncestors node)

/-- Whether a size can be that of a node with some inherited value or none. -/
def Allows (value : Option ComputedValue) (size : ℚ) : Prop :=
  match value with
  | none => size = m.initial
  | some .dynamic => True
  | some (.known text) => ∃ outer, size = m.textSize text outer

/-- The value that is inherited says what the size comes to, up to the size above the node
that has set it. -/
theorem allows_lineSize {own : NodeId → ComputedStyle} (distinct : ∀ node, (own node).Distinct) (nodes : List NodeId) :
    m.Allows ((Css.inherited own nodes).get? "font-size") (m.lineSize own nodes) := by
  induction nodes with
  | nil => rfl
  | cons node outer inductionHypothesis =>
      have inheritable : Vocabulary.isInheritable "font-size" = true := by decide
      rw [Css.inherited, ComputedStyle.get?_inheritFrom (distinct node), lineSize, inheritable, if_pos rfl]
      cases (own node).get? "font-size" with
      | none => exact inductionHypothesis
      | some v =>
          cases v with
          | dynamic => trivial
          | known text =>
              dsimp only [valueSize]
              split
              · exact inductionHypothesis
              · exact ⟨_, rfl⟩

end FontMetrics

namespace Cleanup

open Css (ComputedStyle ComputedValue Styles)

variable {m : FontMetrics}

/-! ## Redundant font sizes -/

/-- A redundant font size that does not depend on the parent is that of the parent. -/
theorem textSize_eq_of_redundant {own : NodeId → ComputedStyle} (distinct : ∀ node, (own node).Distinct)
    {nodes : List NodeId} {reusable : Bool} {policy : RedundancyPolicy} {text : String}
    (redundant : Inheritance.isRedundant ⟨Css.inherited own nodes, reusable⟩ policy
      ⟨"font-size", .ofProperty "font-size" text⟩ = true)
    (absolute : m.IsAbsolute text) (outer : ℚ) : m.textSize text outer = m.lineSize own nodes := by
  have allowed := m.allows_lineSize distinct nodes
  have inheritable : Vocabulary.isInheritable "font-size" = true := by decide
  rcases Inheritance.exists_of_isRedundant redundant with ⟨nothing, initial, default, equal⟩ | ⟨v, found, equal⟩
  · rw [Inheritance.get?, inheritable, if_pos rfl] at nothing
    rw [nothing] at allowed
    rw [show initial = "medium" from (Option.some.inj default).symm] at equal
    rw [← m.textSize_congr equal, m.textSize_medium]
    exact allowed.symm
  · rw [(Inheritance.get?_eq_some found).2] at allowed
    obtain ⟨above, sizeEq⟩ := allowed
    rw [sizeEq, m.textSize_congr equal]
    exact absolute outer above

/-- A redundant value depends on nothing but the document. -/
theorem ofText_of_redundant {place : Inheritance} {policy : RedundancyPolicy} {name text : String}
    (redundant : place.isRedundant policy ⟨name, .ofProperty name text⟩ = true)
    (plain : ∀ v, place.get? name = some (.known v) → Text.trim v = v ∧ Text.hasVariable v = false)
    (presentation : Vocabulary.isPresentation name = true) : ComputedValue.ofText text = .known (Text.trim text) := by
  have other := Inheritance.ne_transform redundant
  rcases Inheritance.exists_of_isRedundant redundant with ⟨-, initial, default, equal⟩ | ⟨v, found, equal⟩
  · have known := Css.plainDefault_of_presentation presentation default
    exact (effect_trim_of_minified_eq other known.trim_eq known.hasVariable_eq equal).1
  · exact (effect_trim_of_minified_eq other (plain v found).1 (plain v found).2 equal).1

/-- Whether a node has not lost a relative size that was different from the size around it. -/
def LosesNoSize (m : FontMetrics) (own slim : NodeId → ComputedStyle) (node : NodeId) (outer : List NodeId) : Prop :=
  ∀ text, (own node).get? "font-size" = some (.known text) → (slim node).get? "font-size" = none →
    ¬ m.IsAbsolute text → m.lineSize own (node :: outer) = m.lineSize own outer

section Lines

variable {P : Element → Prop} {doc : Document} {own slim : NodeId → ComputedStyle} {reusable : NodeId → Bool}

/-- Sizes are kept along a line if no node has lost one. -/
theorem lineSize_eq (grown : doc.Grown P)
    (relieved : ∀ node, Relieved "font-size" (own node) (slim node)
      ⟨Css.inherited slim (doc.elementAncestors node), reusable node⟩)
    (slimDistinct : ∀ node, (slim node).Distinct) (plain : ∀ nodes, (Css.inherited slim nodes).Plain)
    (losesNoSize : ∀ node, LosesNoSize m own slim node (doc.elementAncestors node)) {nodes : List NodeId}
    (lineage : Css.IsLineage doc nodes) : m.lineSize slim nodes = m.lineSize own nodes := by
  induction nodes with
  | nil => rfl
  | cons node outer inductionHypothesis =>
      have outerEq : outer = doc.elementAncestors node := lineage
      have outerLineage : Css.IsLineage doc outer := outerEq ▸ Css.isLineage_elementAncestors grown node
      have above := inductionHypothesis outerLineage
      have here := relieved node
      have kept := losesNoSize node
      rw [← outerEq] at here kept
      rcases here with equal | ⟨left, text, policy, set, redundant⟩
      · rw [FontMetrics.lineSize, FontMetrics.lineSize, equal, above]
      · rw [ofText_of_redundant redundant (fun v found => plain outer _ v (Inheritance.get?_eq_some found).2)
          (by decide)] at set
        have slimSize : m.lineSize slim (node :: outer) = m.lineSize slim outer := by
          rw [FontMetrics.lineSize, left]
          rfl
        by_cases absolute : m.IsAbsolute (Text.trim text)
        · rw [slimSize, FontMetrics.lineSize, set, FontMetrics.valueSize]
          rw [FontMetrics.IsAbsolute, m.textSize_trim] at absolute
          split
          · exact above
          · rw [m.textSize_trim, textSize_eq_of_redundant slimDistinct redundant absolute]
        · rw [slimSize, above, kept _ set left absolute]

/-- If the sizes are kept on a node and around it, the node has not lost one. -/
theorem losesNoSize_of_lineSize_eq {node : NodeId} {outer : List NodeId}
    (here : m.lineSize slim (node :: outer) = m.lineSize own (node :: outer))
    (around : m.lineSize slim outer = m.lineSize own outer) : LosesNoSize m own slim node outer := by
  intro text _ left _
  have slimSize : m.lineSize slim (node :: outer) = m.lineSize slim outer := by
    rw [FontMetrics.lineSize, left]
    rfl
  rw [← here, slimSize, around]

end Lines

/-! ## The whole document -/

/-- Leaving out redundant attributes keeps the font sizes of all nodes exactly if every
relative size that a node has lost was the size around the node.  Sizes that do not depend
on the parent can be left out where they are redundant. -/
theorem removeRedundantAttributes_keeps_sizes_iff {text : String} {title path : Option String} {pass : Nat}
    {doc : Document} {parameters : Parameters} {edit : DocumentEdit} (parsed : Document.read text title = .ok doc)
    (prepared : removeRedundantAttributes.prepare ⟨pass, path, .ofDocument doc⟩ parameters = some edit) :
    ∃ styles out, Styles.ofDocument doc = .ok styles ∧ edit doc = .ok out ∧ ∀ m : FontMetrics,
      (∀ node, m.size styles out.document node = m.size styles doc node) ↔
        ∀ node value, (styles.ownStyle doc node).get? "font-size" = some (.known value) →
          (styles.ownStyle out.document node).get? "font-size" = none →
          ¬ m.IsAbsolute value → m.size styles doc node = m.outerSize styles doc node := by
  have grown := Document.grown_of_read parsed
  obtain ⟨styles, scene, collected, ran, progress⟩ := exists_redundancy_progress parsed prepared
  refine ⟨styles, { document := scene.document }, collected, ran, fun m => ?_⟩
  have distinct : ∀ r ∈ Css.Derived.rules styles.sheets, r.declarations.Distinct :=
    fun r listed => (Styles.wasRead_of_ofDocument collected r listed).distinct
  have relieved := relieved_of_progress progress grown distinct (show Vocabulary.isPresentation "font-size" = true by decide)
  have plain := Styles.plain_inherited (progress.grown grown) distinct
  have lines : scene.document.elementAncestors = doc.elementAncestors := funext progress.sameShape.elementAncestors_eq
  constructor
  · intro kept node value set left
    refine losesNoSize_of_lineSize_eq ?_ ?_ value set left
    · have here := kept node
      rw [FontMetrics.size, lines] at here
      exact here
    · cases line : doc.elementAncestors node with
      | nil => rfl
      | cons upper outer =>
          have above := kept upper
          rw [FontMetrics.size, FontMetrics.size, lines, ← Document.elementAncestors_eq_cons grown line] at above
          exact above
  · intro losesNoSize node
    rw [FontMetrics.size, lines]
    exact lineSize_eq grown relieved (styles.distinct_ownStyle scene.document) plain losesNoSize rfl

/-- A length in pixels that the parent has too, in other letters, can be left out. -/
theorem repeated_pixels_are_kept :
    ∃ doc edit styles out,
      Document.read "<svg font-size='12px'><text font-size=' 12.0px '/></svg>" none = .ok doc ∧
      removeRedundantAttributes.prepare ⟨1, none, .ofDocument doc⟩ .empty = some edit ∧
      Styles.ofDocument doc = .ok styles ∧ edit doc = .ok out ∧
      (out.document.element? ⟨2⟩).map (·.attributes.items.length) = some 0 ∧
      ∀ (m : FontMetrics) node, m.size styles out.document node = m.size styles doc node := by
  have computed : ((Document.read "<svg font-size='12px'><text font-size=' 12.0px '/></svg>"
      none).toOption.bind fun doc =>
        (removeRedundantAttributes.prepare ⟨1, none, .ofDocument doc⟩ .empty).bind fun edit =>
          (Styles.ofDocument doc).toOption.bind fun styles => (edit doc).toOption.map fun out =>
            ((out.document.element? ⟨2⟩).map (·.attributes.items.length), doc.nodes.size,
              [⟨0⟩, ⟨1⟩, ⟨2⟩].map fun node => (styles.ownStyle doc node).get? "font-size")) =
      some (some 0, 3, [none, some (.known "12px"), some (.known "12.0px")]) := by
    decide +kernel
  obtain ⟨doc, parsed, computed⟩ := Option.bind_eq_some_iff.mp computed
  obtain ⟨edit, prepared, computed⟩ := Option.bind_eq_some_iff.mp computed
  obtain ⟨styles, collected, computed⟩ := Option.bind_eq_some_iff.mp computed
  obtain ⟨out, ran, computed⟩ := Option.map_eq_some_iff.mp computed
  rw [toOption_eq_some] at parsed collected ran
  simp only [Prod.mk.injEq, List.map_cons, List.map_nil, List.cons.injEq, and_true] at computed
  obtain ⟨bare, sizeEq, atRoot, outside, inside⟩ := computed
  obtain ⟨others, result, same, ranToo, kept⟩ := removeRedundantAttributes_keeps_sizes_iff parsed prepared
  have stylesEq : styles = others := Except.ok.inj (collected.symm.trans same)
  have outEq : out = result := Except.ok.inj (ran.symm.trans ranToo)
  refine ⟨doc, edit, styles, out, parsed, prepared, collected, ran, bare, fun m => ?_⟩
  rw [stylesEq, outEq]
  refine (kept m).mpr fun node value set _ relative => absurd ?_ relative
  rw [← stylesEq] at set
  have pixels : ∀ text ∈ ["12px", "12.0px"], m.IsAbsolute text := by
    intro text listed
    have read : (TextForm.read? text : Option Length) = some ⟨.finite false 3 2, .px⟩ := by
      revert text
      decide +kernel
    exact (m.isAbsolute_length_iff read).mpr (Or.inr (by decide))
  obtain ⟨index⟩ := node
  match index, set with
  | 0, set => rw [atRoot] at set; cases set
  | 1, set => rw [outside] at set; cases set; exact pixels _ (by decide)
  | 2, set => rw [inside] at set; cases set; exact pixels _ (by decide)
  | index + 3, set =>
      have beyond : doc.element? ⟨index + 3⟩ = none := by
        rw [Document.element?, Document.content, Document.node_of_size_le (sizeEq ▸ Nat.le_add_left 3 index)]
        rfl
      rw [Styles.ownStyle, Styles.ownStyleWith, beyond] at set
      cases set

/-- A size in em that the parent has too is twice as large, and is left out. -/
theorem repeated_em_is_lost :
    ∃ doc edit styles out,
      Document.read "<svg font-size='2em'><text font-size='2em'/></svg>" none = .ok doc ∧
      removeRedundantAttributes.prepare ⟨1, none, .ofDocument doc⟩ .empty = some edit ∧
      Styles.ofDocument doc = .ok styles ∧ edit doc = .ok out ∧
      (∀ m : FontMetrics, m.size styles doc ⟨2⟩ = 4 * m.initial ∧ m.size styles out.document ⟨2⟩ = 2 * m.initial) ∧
      FontMetrics.usual.size styles out.document ⟨2⟩ ≠ FontMetrics.usual.size styles doc ⟨2⟩ := by
  have computed : ((Document.read "<svg font-size='2em'><text font-size='2em'/></svg>"
      none).toOption.bind fun doc =>
        (removeRedundantAttributes.prepare ⟨1, none, .ofDocument doc⟩ .empty).bind fun edit =>
          (Styles.ofDocument doc).toOption.bind fun styles => (edit doc).toOption.map fun out =>
            (doc.elementAncestors ⟨2⟩, out.document.elementAncestors ⟨2⟩,
              [⟨1⟩, ⟨2⟩].map (fun node => (styles.ownStyle doc node).get? "font-size"),
              [⟨1⟩, ⟨2⟩].map fun node => (styles.ownStyle out.document node).get? "font-size")) =
      some ([⟨1⟩], [⟨1⟩], [some (.known "2em"), some (.known "2em")], [some (.known "2em"), none]) := by
    decide +kernel
  obtain ⟨doc, parsed, computed⟩ := Option.bind_eq_some_iff.mp computed
  obtain ⟨edit, prepared, computed⟩ := Option.bind_eq_some_iff.mp computed
  obtain ⟨styles, collected, computed⟩ := Option.bind_eq_some_iff.mp computed
  obtain ⟨out, ran, computed⟩ := Option.map_eq_some_iff.mp computed
  rw [toOption_eq_some] at parsed collected ran
  simp only [Prod.mk.injEq, List.map_cons, List.map_nil, List.cons.injEq, and_true] at computed
  obtain ⟨line, newLine, ⟨outside, inside⟩, stillOutside, gone⟩ := computed
  have read : (TextForm.read? "2em" : Option Length) = some ⟨.finite false 1 1, .em⟩ := by decide +kernel
  have sizes (m : FontMetrics) :
      m.size styles doc ⟨2⟩ = 4 * m.initial ∧ m.size styles out.document ⟨2⟩ = 2 * m.initial := by
    have twice : ∀ node outer, m.valueSize node (some (.known "2em")) outer = 2 * outer := by
      intro node outer
      rw [FontMetrics.valueSize, if_neg (by decide), m.textSize_of_read? read]
      simp [Binary.exact, FontMetrics.unitSize]
    constructor
    · rw [FontMetrics.size, line]
      simp only [FontMetrics.lineSize, outside, inside, twice]
      ring
    · rw [FontMetrics.size, newLine]
      simp only [FontMetrics.lineSize, stillOutside, gone, twice]
      rfl
  refine ⟨doc, edit, styles, out, parsed, prepared, collected, ran, sizes, ?_⟩
  rw [(sizes .usual).1, (sizes .usual).2]
  norm_num [FontMetrics.usual]

end Cleanup
end SlimSvg
