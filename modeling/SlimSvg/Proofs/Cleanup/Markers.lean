import SlimSvg.Proofs.Cleanup.Repainting
import SlimSvg.Proofs.Cleanup.Thrift

namespace SlimSvg
namespace Cleanup

open Css (ComputedStyle Styles)
open Document (SameShape)

/-!
# Markers and the stroke that they grow with

A marker is drawn as large as the stroke is wide, also if the stroke is not painted.  So
the stroke of a shape with a marker at its end is left alone.  What is taken out or edited
elsewhere on the way does not get at it: only shapes are edited, and no style is handed
down by a shape to a shape that stands outside of it.
-/

/-! ## When a stroke is left alone -/

/-- Whether the edits for a shape with some style leave its stroke alone. -/
def sparesStroke (policy : PaintPolicy) (style : ComputedStyle) : Bool :=
  !policy.stroke || paintsStroke style || hasMarker style && !style.isZero "stroke-width"

theorem strokeEdit_eq_keep_iff {style parent : ComputedStyle} {reusable : Bool} :
    strokeEdit style parent reusable = .keep ↔
      paintsStroke style = true ∨ hasMarker style = true ∧ style.isZero "stroke-width" = false := by
  rw [strokeEdit]
  split
  · next painted => exact iff_of_true rfl (Or.inl painted)
  · next unpainted =>
    have both : (hasMarker style && !style.isZero "stroke-width") = true ↔
        hasMarker style = true ∧ style.isZero "stroke-width" = false := by
      rw [Bool.and_eq_true, Bool.not_eq_true']
    split
    · next marked => exact iff_of_true rfl (Or.inr (both.mp marked))
    · next unmarked =>
      refine iff_of_false ?_ (not_or.mpr ⟨unpainted, fun marked => unmarked (both.mpr marked)⟩)
      dsimp only
      split
      · exact PaintEdit.noConfusion
      · exact PaintEdit.noConfusion

theorem stroke_make_eq_keep_iff {policy : PaintPolicy} {style parent : ComputedStyle} {reusable : Bool} :
    (PaintEdits.make policy style parent reusable).stroke = .keep ↔ sparesStroke policy style = true := by
  rw [PaintEdits.make, sparesStroke]
  cases policy.stroke with
  | false => exact iff_of_true rfl rfl
  | true =>
      rw [if_pos rfl, strokeEdit_eq_keep_iff, Bool.not_true, Bool.false_or, Bool.or_eq_true, Bool.and_eq_true,
        Bool.not_eq_true']

theorem sparesStroke_congr {policy : PaintPolicy} {style other : ComputedStyle}
    (same : ∀ name, Text.startsWith name "fill" = false → other.get? name = style.get? name) :
    sparesStroke policy other = sparesStroke policy style := by
  have apart : ∀ name ∈ strokeProperties, Text.startsWith name "fill" = false := by decide
  have stroke := paintsStroke_congr fun name listed => same name (apart name listed)
  have width := same "stroke-width" (by decide)
  have marker := same "marker-end" (by decide)
  simp only [sparesStroke, stroke, hasMarker, ComputedStyle.isZero, ComputedStyle.text?, width, marker]

/-! ## Documents with other shapes -/

/-- Whether a node is a shape. -/
def isShapeNode (doc : Document) (node : NodeId) : Bool :=
  (doc.element? node).any fun e => Vocabulary.isShape e.name

theorem ne_of_isShapeNode {doc : Document} {id node : NodeId} (shape : isShapeNode doc id = true)
    (noShape : isShapeNode doc node = false) : node ≠ id := by
  rintro rfl
  rw [noShape] at shape
  cases shape

theorem isStyleElement_of_isShape {e : Element} (shape : Vocabulary.isShape e.name = true) :
    Styles.isStyleElement e = false := by
  have different : e.name ≠ "style" := by
    intro same
    rw [same] at shape
    exact absurd shape (by decide)
  rw [Styles.isStyleElement, Element.hasName, beq_false_of_ne different, Bool.and_false, Bool.false_and]

/-- Whether a document is another one in which shapes were repainted or taken out.  One
may think of the repainting as done before anything is taken out. -/
structure Overpainted (doc other : Document) : Prop where
  grown : other.Grown Element.Typed
  recolored : ∀ id, other.element? id = doc.element? id ∨
    isShapeNode doc id = true ∧ ∃ e new, doc.element? id = some e ∧ other.element? id = some new ∧ Recolored e new
  parent?_eq : ∀ {id}, isShapeNode doc id = false → other.parent? id = doc.parent? id
  exists_culled : ∃ painted, SameShape doc painted ∧ painted.Culled other ∧
    ∀ id, isShapeNode doc id = false → painted.content id = doc.content id

namespace Overpainted

variable {doc other : Document} {id : NodeId}

theorem refl (grown : doc.Grown Element.Typed) : Overpainted doc doc :=
  ⟨grown, fun _ => Or.inl rfl, fun _ => rfl, doc, .refl doc, .refl grown.isTree, fun _ _ => rfl⟩

theorem size_eq (overpainted : Overpainted doc other) : other.nodes.size = doc.nodes.size := by
  rcases overpainted.exists_culled with ⟨painted, same, culled, -⟩
  exact culled.size_eq.trans same.size_eq

theorem parent?_of_parent? (overpainted : Overpainted doc other) {parent : NodeId}
    (linked : other.parent? id = some parent) : doc.parent? id = some parent := by
  rcases overpainted.exists_culled with ⟨painted, same, culled, -⟩
  exact same.parent?_eq id ▸ culled.parent?_of_parent? linked

theorem element?_eq (overpainted : Overpainted doc other) (noShape : isShapeNode doc id = false) :
    other.element? id = doc.element? id := by
  rcases overpainted.recolored id with same | ⟨shape, -⟩
  · exact same
  · rw [noShape] at shape
    cases shape

/-- An element of the document is there, with other paint at most. -/
theorem exists_recolored (overpainted : Overpainted doc other) {e : Element} (found : doc.element? id = some e) :
    ∃ new, other.element? id = some new ∧ Recolored e new := by
  rcases overpainted.recolored id with same | ⟨-, old, new, before, now, recolored⟩
  · exact ⟨e, same.trans found, .refl e⟩
  · rw [found] at before
    exact ⟨new, now, Option.some.inj before ▸ recolored⟩

theorem isShapeNode_eq (overpainted : Overpainted doc other) (id : NodeId) :
    isShapeNode other id = isShapeNode doc id := by
  rcases overpainted.recolored id with same | ⟨-, e, new, found, now, recolored⟩
  · rw [isShapeNode, same, isShapeNode]
  · rw [isShapeNode, isShapeNode, found, now, Option.any_some, Option.any_some, recolored.name_eq]

/-- A shape is edited. -/
theorem modifyElement (overpainted : Overpainted doc other) (shape : isShapeNode doc id = true) (edits : PaintEdits) :
    Overpainted doc (other.modifyElement id edits.apply) := by
  have same := Document.sameShape_modifyElement other id edits.apply
  have fits : ∀ {node e}, (other.modifyElement id edits.apply).element? node = some e → e.Typed := by
    intro node e now
    rw [Document.element?_modifyElement] at now
    split at now
    · rcases Option.map_eq_some_iff.mp now with ⟨old, found, rfl⟩
      exact PaintEdits.typed_apply (overpainted.grown.element_fits found)
    · exact overpainted.grown.element_fits now
  refine ⟨same.grown overpainted.grown fits, fun node => ?_,
    fun noShape => (same.parent?_eq _).trans (overpainted.parent?_eq noShape), ?_⟩
  · rw [Document.element?_modifyElement]
    split
    · next here =>
      rcases (Option.any_eq_true _ _).mp shape with ⟨e, found, -⟩
      rcases overpainted.exists_recolored found with ⟨new, now, recolored⟩
      rw [here, now]
      exact Or.inr ⟨shape, e, edits.apply new, found, rfl, recolored.trans (.apply edits new)⟩
    · exact overpainted.recolored node
  · rcases overpainted.exists_culled with ⟨painted, alike, culled, kept⟩
    refine ⟨painted.modifyElement id edits.apply, alike.trans (Document.sameShape_modifyElement painted id edits.apply),
      culled.modifyElement id edits.apply, fun node noShape => ?_⟩
    rw [Document.content, Document.node_modifyElement, if_neg (ne_of_isShapeNode shape noShape)]
    exact kept node noShape

/-- A shape is taken out. -/
theorem detach (overpainted : Overpainted doc other) (shape : isShapeNode doc id = true) :
    Overpainted doc (other.detach id) := by
  have links := overpainted.grown.toLinked
  refine ⟨overpainted.grown.detach id, fun node => ?_, fun {node} noShape => ?_, ?_⟩
  · rw [Document.element?_detach id links]
    exact overpainted.recolored node
  · rw [Document.parent?_detach id links, if_neg (ne_of_isShapeNode shape noShape)]
    exact overpainted.parent?_eq noShape
  · rcases overpainted.exists_culled with ⟨painted, alike, culled, kept⟩
    rcases (Option.any_eq_true _ _).mp shape with ⟨e, found, -⟩
    rcases overpainted.exists_recolored found with ⟨new, now, -⟩
    exact ⟨painted, alike, culled.trans (.detach culled.tree (Document.isElement_of_element? now)), kept⟩

theorem pruned (overpainted : Overpainted doc other) : doc.Pruned other where
  isElement_eq id := by
    rcases overpainted.exists_culled with ⟨painted, same, culled, -⟩
    exact (culled.isElement_eq id).trans (same.isElement_eq id)
  parent?_of_parent? _ linked := overpainted.parent?_of_parent? linked

/-- What stands in no shape and was not taken out itself can be reached as before. -/
theorem isAttached (overpainted : Overpainted doc other) (grown : doc.Grown Element.Typed)
    (attached : doc.isAttached id = true) (inPlace : other.parent? id = doc.parent? id)
    (free : ∀ upper ∈ doc.elementAncestors id, isShapeNode doc upper = false) : other.isAttached id = true := by
  induction id using grown.upward_induction with
  | step id above =>
    rw [Document.isAttached_eq overpainted.grown]
    rcases (Document.isAttached_eq grown id).mp attached with atRoot | ⟨parent, linked, reached⟩
    · exact Or.inl atRoot
    · refine Or.inr ⟨parent, inPlace.trans linked, ?_⟩
      rw [Document.elementAncestors_eq grown, linked] at free
      dsimp only at free
      rcases grown.parent_holds linked with atRoot | element
      · rw [atRoot]
        exact (Document.isAttached_eq overpainted.grown Document.root).mpr (Or.inl rfl)
      · rw [if_pos element, List.forall_mem_cons] at free
        exact above parent linked reached (overpainted.parent?_eq free.1) free.2

/-- The style sheets are those of the document, if all of them are left. -/
theorem ofDocument_eq (overpainted : Overpainted doc other) (grown : doc.Grown Element.Typed) {styles : Styles}
    (collected : Styles.ofDocument doc = .ok styles)
    (stay : ∀ sheet ∈ styles.sheets, other.isAttached sheet.element = true) :
    Styles.ofDocument other = .ok styles := by
  rcases overpainted.exists_culled with ⟨painted, same, culled, kept⟩
  have read : Styles.ofDocument painted = .ok styles := by
    refine Styles.ofDocument_sameShape same (fun node => ?_) collected
    cases shape : isShapeNode doc node with
    | false => exact Or.inl (kept node shape)
    | true =>
        rcases (Option.any_eq_true _ _).mp shape with ⟨e, found, shapely⟩
        rcases overpainted.exists_recolored found with ⟨new, now, recolored⟩
        rw [culled.element?_eq] at now
        exact Or.inr ⟨e, new, Document.content_of_element? found, Document.content_of_element? now,
          isStyleElement_of_isShape shapely, isStyleElement_of_isShape (recolored.name_eq ▸ shapely),
          congrArg (Option.map AttributeValue.text) (recolored.attribute?_eq (by decide))⟩
  have left := Styles.ofDocument_culled (same.grown grown.isTree fun _ => True.intro) culled read
  rw [List.filter_eq_self.mpr stay, Styles.ofSheets_sheets] at left
  exact left

/-- Rules that ask for no paint select what they selected, unless they look aside where
something may have been taken out. -/
theorem selects_eq (overpainted : Overpainted doc other) (grown : doc.Grown Element.Typed) {styles : Styles}
    (unseen : ∀ name, isPaintProperty name = true → styles.testsAttribute (some name) = false)
    (straight : SameShape doc other ∨ ∀ r ∈ Css.Derived.rules styles.sheets, r.selector.looksAside = false)
    (element : doc.isElement id = true) (attached : other.isAttached id = true) {r : Css.Rule}
    (listed : r ∈ Css.Derived.rules styles.sheets) : r.selector.selects other id = r.selector.selects doc id := by
  rcases overpainted.exists_culled with ⟨painted, alike, culled, -⟩
  have repainted : r.selector.selects painted id = r.selector.selects doc id := by
    refine Css.Selector.selects_of_accepts alike (fun c among node => ?_) id
    have sameElement := culled.element?_eq node
    rcases overpainted.recolored node with same | ⟨-, e, new, found, now, recolored⟩
    · exact Css.Compound.accepts_congr (Or.inl (sameElement.symm.trans same))
    · exact Css.Compound.accepts_congr (Or.inr ⟨e, new, found, sameElement.symm.trans now, fun t tested =>
        recolored.accepts_eq unseen listed (Css.Selector.mem_allCompounds among) tested⟩)
  rw [← repainted]
  rcases straight with same | straight
  · exact Css.Selector.selects_of_accepts (alike.symm.trans same)
      (fun c _ node => Css.Compound.accepts_congr (Or.inl (culled.element?_eq node))) id
  · have tree : painted.IsTree := alike.grown grown fun _ => True.intro
    refine Css.Selector.selects_culled tree culled ⟨(alike.isElement_eq id).trans element, attached, fun aside => ?_⟩
    rw [straight r listed] at aside
    cases aside

end Overpainted

/-! ## Styles that no shape hands down -/

/-- Whether an element of the tree is no shape and stands in none. -/
structure Steady (doc : Document) (id : NodeId) : Prop where
  attached : doc.isAttached id = true
  element : doc.isElement id = true
  noShape : isShapeNode doc id = false
  free : ∀ upper ∈ doc.elementAncestors id, isShapeNode doc upper = false

section Steady

variable {styles : Styles} {doc other : Document} {id : NodeId}

/-- The elements above a node that stands in no shape. -/
theorem steady_of_free (grown : doc.Grown Element.Typed) (attached : doc.isAttached id = true)
    (free : ∀ upper ∈ doc.elementAncestors id, isShapeNode doc upper = false) :
    ∀ upper ∈ doc.elementAncestors id, Steady doc upper := by
  intro upper listed
  rcases (Document.mem_elementAncestors grown).mp listed with ⟨above, element⟩
  refine ⟨Document.isAttached_of_above grown above attached, element, free upper listed, fun further beyond => ?_⟩
  rcases (Document.mem_elementAncestors grown).mp beyond with ⟨higher, furtherElement⟩
  exact free further ((Document.mem_elementAncestors grown).mpr ⟨higher.trans above, furtherElement⟩)

/-- What a memory has to know: the styles of elements that are no shapes and stand in none. -/
def Remembers (styles : Styles) (doc : Document) (memo : Styles.Memo) : Prop :=
  ∀ id style, Steady doc id → memo.lookup id = some style →
    style = Css.inherited (styles.ownStyle doc) (id :: doc.elementAncestors id)

theorem remembers_nil (styles : Styles) (doc : Document) : Remembers styles doc [] :=
  fun _ _ _ impossible => nomatch impossible

variable (overpainted : Overpainted doc other) (grown : doc.Grown Element.Typed)
  (unseen : ∀ name, isPaintProperty name = true → styles.testsAttribute (some name) = false)
  (straight : SameShape doc other ∨ ∀ r ∈ Css.Derived.rules styles.sheets, r.selector.looksAside = false)

include overpainted grown

/-- Such an element is left, below the same elements. -/
theorem Steady.inPlace (steady : Steady doc id) :
    other.isAttached id = true ∧ other.elementAncestors id = doc.elementAncestors id := by
  have attached := overpainted.isAttached grown steady.attached (overpainted.parent?_eq steady.noShape) steady.free
  exact ⟨attached, (overpainted.pruned.elementAncestors_eq grown overpainted.grown steady.element attached).1⟩

include unseen straight

/-- Such an element sets what it set. -/
theorem Steady.ownStyle_eq (steady : Steady doc id) : styles.ownStyle other id = styles.ownStyle doc id :=
  Styles.ownStyle_congr (overpainted.element?_eq steady.noShape) (Styles.matchingRules_congr rfl fun _ =>
    overpainted.selects_eq grown unseen straight steady.element (steady.inPlace overpainted grown).1)

/-- Asking for styles on the way gives the old answers for such elements and remembers no
others of them. -/
theorem chainStyle_steady {memo : Styles.Memo} (remembers : Remembers styles doc memo) {nodes : List NodeId}
    (lineage : Css.IsLineage other nodes) :
    ((∀ id ∈ nodes, Steady doc id) →
        (styles.chainStyle other nodes memo).1 = Css.inherited (styles.ownStyle doc) nodes) ∧
      Remembers styles doc (styles.chainStyle other nodes memo).2 := by
  induction nodes with
  | nil => exact ⟨fun _ => rfl, remembers⟩
  | cons node outer inductionHypothesis =>
      have outerEq : outer = other.elementAncestors node := lineage
      rw [Styles.chainStyle]
      cases known : memo.lookup node with
      | some style =>
          refine ⟨fun steady => ?_, remembers⟩
          have here := steady node List.mem_cons_self
          rw [outerEq, (here.inPlace overpainted grown).2]
          exact remembers node style here known
      | none =>
          have outerLineage : Css.IsLineage other outer := by
            rw [outerEq]
            exact Css.isLineage_elementAncestors overpainted.grown node
          rcases inductionHypothesis outerLineage with ⟨parentEq, stays⟩
          refine ⟨fun steady => ?_, fun id style here found => ?_⟩
          · rw [List.forall_mem_cons] at steady
            dsimp only
            rw [parentEq steady.2, steady.1.ownStyle_eq overpainted grown unseen straight, Css.inherited]
          · by_cases same : id = node
            · subst same
              have line := (here.inPlace overpainted grown).2
              rw [← outerEq] at line
              have above : ∀ upper ∈ outer, Steady doc upper := by
                rw [line]
                exact steady_of_free grown here.attached here.free
              rw [List.lookup_cons_self, Option.some_inj, parentEq above,
                here.ownStyle_eq overpainted grown unseen straight] at found
              rw [← found, ← line, Css.inherited]
            · rw [List.lookup_cons, beq_false_of_ne same] at found
              exact stays id style here found

end Steady

/-! ## Shapes whose stroke is left alone -/

/-- Whether an element is in the tree and stands in no shape. -/
structure Standing (doc : Document) (node : NodeId) (e : Element) : Prop where
  found : doc.element? node = some e
  attached : doc.isAttached node = true
  free : ∀ upper ∈ doc.elementAncestors node, isShapeNode doc upper = false

/-- Whether the stroke of an element is left alone: by its style in the document it keeps
its stroke, if it is edited at all. -/
structure Spared (policy : PaintPolicy) (styles : Styles) (doc : Document) (node : NodeId) (e : Element) : Prop extends
    Standing doc node e where
  spares : isPlainlyPainted styles doc node e = true →
    isPaintKnown (Css.inherited (styles.ownStyle doc) (node :: doc.elementAncestors node)) = true →
      sparesStroke policy (Css.inherited (styles.ownStyle doc) (node :: doc.elementAncestors node)) = true

theorem Standing.spared {policy : PaintPolicy} {styles : Styles} {doc : Document} {node : NodeId} {e : Element}
    {style : ComputedStyle} (standing : Standing doc node e)
    (judged : style = Css.inherited (styles.ownStyle doc) (node :: doc.elementAncestors node))
    (spares : hasMarker style = true ∧ style.isZero "stroke-width" = false ∨ paintsStroke style = true ∨
      policy.stroke = false ∨ isPlainlyPainted styles doc node e = false ∨ isPaintKnown style = false) :
    Spared policy styles doc node e := by
  refine ⟨standing, fun plain known => ?_⟩
  rw [← judged] at known ⊢
  rw [sparesStroke, Bool.or_eq_true, Bool.or_eq_true, Bool.and_eq_true, Bool.not_eq_true', Bool.not_eq_true']
  rcases spares with marked | painted | ignored | other | unknown
  · exact Or.inr marked
  · exact Or.inl (Or.inr painted)
  · exact Or.inl (Or.inl ignored)
  · rw [plain] at other
    cases other
  · rw [known] at unknown
    cases unknown

/-- What holds on the way: the stroke of such an element is what it was, and one that may
not be edited at all is untouched.  No other attribute is new on a shape than the two
paints. -/
structure Sparing (policy : PaintPolicy) (styles : Styles) (doc : Document) (scene : Scene Styles.Memo) : Prop where
  overpainted : Overpainted doc scene.document
  sameShape : policy.removeUnpainted = false → SameShape doc scene.document
  remembers : Remembers styles doc scene.state
  inPlace : ∀ {node e}, Spared policy styles doc node e → scene.document.parent? node = doc.parent? node
  kept : ∀ {node e}, Spared policy styles doc node e → ∀ name, Text.startsWith name "fill" = false →
    KeepsAttribute doc scene.document name node
  untouched : ∀ {node e}, Spared policy styles doc node e →
    ¬ (isPlainlyPainted styles doc node e = true ∧
      isPaintKnown (Css.inherited (styles.ownStyle doc) (node :: doc.elementAncestors node)) = true) →
    scene.document.element? node = doc.element? node
  unset : ∀ {node e name}, doc.element? node = some e → name ∉ ["stroke", "fill"] → e.attribute? name = none →
    KeepsAttribute doc scene.document name node

namespace PaintEdits

variable {edits : PaintEdits} {e : Element} {name : String}

/-- An edit leaves what is no fill, if it keeps the stroke. -/
theorem attribute?_apply_of_no_fill (keeps : edits.stroke = .keep) (noFill : Text.startsWith name "fill" = false) :
    (edits.apply e).attribute? name = e.attribute? name := by
  cases stroke : Text.startsWith name "stroke" with
  | true => exact attribute?_apply_of_stroke_kept keeps stroke
  | false =>
      refine attribute?_apply_of_other ?_
      rw [isPaintProperty, stroke, noFill]
      rfl

theorem attribute?_editPaint_eq_none {edit : PaintEdit} {paint start : String} (different : name ≠ paint)
    (unset : e.attribute? name = none) : (editPaint edit paint start e).attribute? name = none := by
  have bare : (e.attributes.retain fun a => !Text.startsWith a.name start).get? name = none := by
    rw [Element.attribute?, Attributes.get?, Option.map_eq_none_iff, List.find?_eq_none] at unset
    rw [Attributes.get?, Option.map_eq_none_iff, List.find?_eq_none]
    exact fun a listed => unset a (List.mem_filter.mp listed).1
  cases edit with
  | keep => exact unset
  | drop => exact bare
  | disable => exact (Element.attribute?_setAttribute_of_ne _ "none" different).trans bare

/-- An edit sets nothing but the two paints. -/
theorem attribute?_apply_eq_none (other : name ∉ ["stroke", "fill"]) (unset : e.attribute? name = none) :
    (edits.apply e).attribute? name = none := by
  rw [List.mem_cons, List.mem_singleton, not_or] at other
  exact attribute?_editPaint_eq_none other.2 (attribute?_editPaint_eq_none other.1 unset)

end PaintEdits

namespace Sparing

variable {policy : PaintPolicy} {styles : Styles} {doc : Document} {scene : Scene Styles.Memo} {node : NodeId}
  {e : Element} {memo : Styles.Memo}

theorem start (policy : PaintPolicy) (styles : Styles) (grown : doc.Grown Element.Typed) :
    Sparing policy styles doc ⟨[], doc⟩ where
  overpainted := .refl grown
  sameShape _ := .refl doc
  remembers := remembers_nil styles doc
  inPlace _ := rfl
  kept _ _ _ := rfl
  untouched _ _ := rfl
  unset _ _ _ := rfl

theorem forget (sparing : Sparing policy styles doc scene) (remembers : Remembers styles doc memo) :
    Sparing policy styles doc ⟨memo, scene.document⟩ :=
  { sparing with remembers }

/-- What edits leave on a shape is left when the shape is edited in the scene. -/
theorem keepsAttribute_modify (sparing : Sparing policy styles doc scene) {edits : PaintEdits} {name : String}
    {other : NodeId} (found : doc.element? other = some e) (kept : KeepsAttribute doc scene.document name other)
    (same : other = node → ∀ new, scene.document.element? node = some new → new.attribute? name = e.attribute? name →
      (edits.apply new).attribute? name = e.attribute? name) :
    KeepsAttribute doc (scene.document.modifyElement node edits.apply) name other := by
  rw [KeepsAttribute, Document.element?_modifyElement]
  split
  · next here =>
    subst here
    rcases sparing.overpainted.exists_recolored found with ⟨new, now, -⟩
    rw [KeepsAttribute, now, found, Option.bind_some, Option.bind_some] at kept
    rw [now, found, Option.map_some, Option.bind_some, Option.bind_some]
    exact same rfl new now kept
  · exact kept

/-- A shape is edited.  If its stroke is to be left alone, the edits do so. -/
theorem modify (sparing : Sparing policy styles doc scene) (shape : isShapeNode doc node = true) {edits : PaintEdits}
    (keeps : ∀ e, Spared policy styles doc node e → edits.stroke = .keep ∧ isPlainlyPainted styles doc node e = true ∧
      isPaintKnown (Css.inherited (styles.ownStyle doc) (node :: doc.elementAncestors node)) = true) :
    Sparing policy styles doc ⟨scene.state, scene.document.modifyElement node edits.apply⟩ := by
  have same := Document.sameShape_modifyElement scene.document node edits.apply
  refine ⟨sparing.overpainted.modifyElement shape edits, fun stays => (sparing.sameShape stays).trans same,
    sparing.remembers, fun spared => (same.parent?_eq _).trans (sparing.inPlace spared), ?_, ?_, ?_⟩
  · intro other e spared name noFill
    refine sparing.keepsAttribute_modify spared.found (sparing.kept spared name noFill) fun here new _ before => ?_
    subst here
    exact (PaintEdits.attribute?_apply_of_no_fill (keeps e spared).1 noFill).trans before
  · intro other e spared unplanned
    rw [Document.element?_modifyElement]
    split
    · next here =>
      subst here
      exact absurd (keeps e spared).2 unplanned
    · exact sparing.untouched spared unplanned
  · intro other e name found apart unset
    refine sparing.keepsAttribute_modify found (sparing.unset found apart unset) fun _ new _ before => ?_
    rw [unset] at before ⊢
    exact PaintEdits.attribute?_apply_eq_none apart before

/-- A shape is taken out whose stroke need not be left alone. -/
theorem detach (sparing : Sparing policy styles doc scene) (shape : isShapeNode doc node = true)
    (removes : policy.removeUnpainted = true) (unspared : ∀ e, ¬ Spared policy styles doc node e) :
    Sparing policy styles doc ⟨scene.state, scene.document.detach node⟩ := by
  have links := sparing.overpainted.grown.toLinked
  refine ⟨sparing.overpainted.detach shape, fun stays => ?_, sparing.remembers, ?_, ?_, ?_, ?_⟩
  · rw [removes] at stays
    cases stays
  · intro other e spared
    have different : other ≠ node := fun same => unspared e (same ▸ spared)
    rw [Document.parent?_detach node links, if_neg different]
    exact sparing.inPlace spared
  · intro other e spared name noFill
    rw [KeepsAttribute, Document.element?_detach node links]
    exact sparing.kept spared name noFill
  · intro other e spared unplanned
    rw [Document.element?_detach node links]
    exact sparing.untouched spared unplanned
  · intro other e name found apart unset
    rw [KeepsAttribute, Document.element?_detach node links]
    exact sparing.unset found apart unset

/-! ## One step -/

variable (sparing : Sparing policy styles doc scene) (grown : doc.Grown Element.Typed)
  (unseen : ∀ name, isPaintProperty name = true → styles.testsAttribute (some name) = false)
  (straight : policy.removeUnpainted = true → ∀ r ∈ Css.Derived.rules styles.sheets, r.selector.looksAside = false)

include sparing grown

/-- An element that has its place can be reached, below the same elements. -/
theorem isAttached (standing : Standing doc node e) (inPlace : scene.document.parent? node = doc.parent? node) :
    scene.document.isAttached node = true ∧
      scene.document.elementAncestors node = doc.elementAncestors node := by
  have element := Document.isElement_of_element? standing.found
  have attached := sparing.overpainted.isAttached grown standing.attached inPlace standing.free
  exact ⟨attached, (sparing.overpainted.pruned.elementAncestors_eq grown sparing.overpainted.grown element attached).1⟩

include straight in
omit grown in
theorem sameShape_or_straight :
    SameShape doc scene.document ∨ ∀ r ∈ Css.Derived.rules styles.sheets, r.selector.looksAside = false := by
  cases removes : policy.removeUnpainted with
  | true => exact Or.inr (straight removes)
  | false => exact Or.inl (sparing.sameShape removes)

include unseen straight

theorem selects_eq (standing : Standing doc node e) (inPlace : scene.document.parent? node = doc.parent? node)
    {r : Css.Rule} (listed : r ∈ Css.Derived.rules styles.sheets) :
    r.selector.selects scene.document node = r.selector.selects doc node :=
  sparing.overpainted.selects_eq grown unseen (sparing.sameShape_or_straight straight)
    (Document.isElement_of_element? standing.found) (sparing.isAttached grown standing inPlace).1 listed

/-- Such an element inherits what it inherited. -/
theorem computedStyle_spec (standing : Standing doc node e)
    (inPlace : scene.document.parent? node = doc.parent? node) (remembers : Remembers styles doc memo) :
    (styles.computedStyle scene.document node memo).1 = (styles.ownStyle scene.document node).inheritFrom
      (Css.inherited (styles.ownStyle doc) (doc.elementAncestors node)) := by
  have lineage := Css.isLineage_elementAncestors sparing.overpainted.grown node
  have steady := steady_of_free grown standing.attached standing.free
  rw [← (sparing.isAttached grown standing inPlace).2] at steady
  have parentEq := (chainStyle_steady sparing.overpainted grown unseen
    (sparing.sameShape_or_straight straight) remembers lineage).1 steady
  rw [Styles.computedStyle]
  dsimp only
  rw [parentEq, (sparing.isAttached grown standing inPlace).2]

/-- What such an element keeps is computed as in the document. -/
theorem get?_computedStyle (distinct : ∀ r ∈ Css.Derived.rules styles.sheets, r.declarations.Distinct)
    (standing : Standing doc node e) (inPlace : scene.document.parent? node = doc.parent? node)
    (remembers : Remembers styles doc memo) {name : String} (kept : KeepsAttribute doc scene.document name node) :
    (styles.computedStyle scene.document node memo).1.get? name =
      (Css.inherited (styles.ownStyle doc) (node :: doc.elementAncestors node)).get? name := by
  have own : (styles.ownStyle scene.document node).get? name = (styles.ownStyle doc node).get? name := by
    rcases sparing.overpainted.exists_recolored standing.found with ⟨new, now, recolored⟩
    rw [KeepsAttribute, standing.found, now] at kept
    have typed := grown.element_fits standing.found
    exact Styles.get?_ownStyle_congr distinct typed (recolored.typed typed) standing.found now recolored.name_eq kept
      (recolored.attribute?_eq (by decide)) fun r listed =>
        sparing.selects_eq grown unseen straight standing inPlace listed
  rw [sparing.computedStyle_spec grown unseen straight standing inPlace remembers, Css.inherited,
    ComputedStyle.get?_inheritFrom (styles.distinct_ownStyle scene.document node),
    ComputedStyle.get?_inheritFrom (styles.distinct_ownStyle doc node), own]

/-- Where an element whose stroke is left alone is edited on the way, it is one that is
edited by its style in the document, and the edits keep its stroke. -/
theorem keeps_of_paintEdits? (distinct : ∀ r ∈ Css.Derived.rules styles.sheets, r.declarations.Distinct)
    (spared : Spared policy styles doc node e) {ancestors : List NodeId} {edits : PaintEdits} {later : Styles.Memo}
    (planned : paintEdits? policy styles scene.document node ancestors scene.state = (some edits, later)) :
    edits.stroke = .keep ∧ isPlainlyPainted styles doc node e = true ∧
      isPaintKnown (Css.inherited (styles.ownStyle doc) (node :: doc.elementAncestors node)) = true := by
  have inPlace := sparing.inPlace spared
  rcases sparing.overpainted.exists_recolored spared.found with ⟨new, now, recolored⟩
  rcases make_of_paintEdits? now planned with ⟨plain, known, made⟩
  have plannedBefore : isPlainlyPainted styles doc node e = true ∧
      isPaintKnown (Css.inherited (styles.ownStyle doc) (node :: doc.elementAncestors node)) = true := by
    by_contra unplanned
    have same := sparing.untouched spared unplanned
    rw [now, spared.found, Option.some_inj] at same
    have rulesEq : styles.matchingRules scene.document node = styles.matchingRules doc node :=
      Styles.matchingRules_congr rfl fun _ => sparing.selects_eq grown unseen straight spared.toStanding inPlace
    have element?_eq : scene.document.element? node = doc.element? node := by rw [now, spared.found, same]
    rw [same, isPlainlyPainted, Styles.ruleStyle_congr (congrArg _ element?_eq) rulesEq] at plain
    rw [sparing.computedStyle_spec grown unseen straight spared.toStanding inPlace sparing.remembers,
      Styles.ownStyle_congr element?_eq rulesEq] at known
    exact unplanned ⟨plain, known⟩
  refine ⟨?_, plannedBefore⟩
  rw [made, stroke_make_eq_keep_iff, sparesStroke_congr fun name noFill =>
    sparing.get?_computedStyle grown unseen straight distinct spared.toStanding inPlace sparing.remembers
      (sparing.kept spared name noFill)]
  exact spared.spares plannedBefore.1 plannedBefore.2

/-- Asking for the edits of a shape does no harm to what is remembered. -/
theorem remembers_paintEdits? (node : NodeId) (ancestors : List NodeId) :
    Remembers styles doc (paintEdits? policy styles scene.document node ancestors scene.state).2 := by
  have asked : ∀ {memo}, Remembers styles doc memo → ∀ {nodes}, Css.IsLineage scene.document nodes →
      Remembers styles doc (styles.chainStyle scene.document nodes memo).2 := fun remembers _ lineage =>
    (chainStyle_steady sparing.overpainted grown unseen (sparing.sameShape_or_straight straight) remembers lineage).2
  have own : Remembers styles doc (styles.computedStyle scene.document node scene.state).2 :=
    asked sparing.remembers (Css.isLineage_elementAncestors sparing.overpainted.grown node)
  rw [paintEdits?]
  split
  · exact sparing.remembers
  · split
    · exact sparing.remembers
    · dsimp only
      split
      · exact own
      · dsimp only
        rw [Styles.parentStyle]
        split
        · exact asked own rfl
        · exact own

/-- What holds once the edits for a shape are made and have not been applied. -/
structure Planned (policy : PaintPolicy) (styles : Styles) (doc : Document) (node : NodeId)
    (edits? : Option PaintEdits) (scene : Scene Styles.Memo) : Prop where
  sparing : Sparing policy styles doc scene
  shape : isShapeNode doc node = true
  keeps : ∀ edits, edits? = some edits → ∀ e, Spared policy styles doc node e →
    edits.stroke = .keep ∧ isPlainlyPainted styles doc node e = true ∧
      isPaintKnown (Css.inherited (styles.ownStyle doc) (node :: doc.elementAncestors node)) = true

theorem planned_paintEdits? (distinct : ∀ r ∈ Css.Derived.rules styles.sheets, r.declarations.Distinct)
    (shape : isShapeNode scene.document node = true) (ancestors : List NodeId) :
    Planned policy styles doc node (paintEdits? policy styles scene.document node ancestors scene.state).1
      ⟨(paintEdits? policy styles scene.document node ancestors scene.state).2, scene.document⟩ where
  sparing := sparing.forget (sparing.remembers_paintEdits? grown unseen straight node ancestors)
  shape := sparing.overpainted.isShapeNode_eq node ▸ shape
  keeps _ made _ spared := sparing.keeps_of_paintEdits? grown unseen straight distinct spared (Prod.ext made rfl)

omit sparing in
/-- Entering an element keeps what holds on the way. -/
theorem leads_enterPainted (distinct : ∀ r ∈ Css.Derived.rules styles.sheets, r.declarations.Distinct)
    (node : NodeId) (ancestors : List NodeId) :
    (enterPainted policy styles node ancestors).Leads (Sparing policy styles doc) (Sparing policy styles doc) := by
  rw [enterPainted]
  refine Visit.leads_document_bind fun current => ?_
  dsimp only
  split
  · exact (Visit.leads_pure _).of_imp fun _ both => both.1
  · next shapely =>
    have shape : isShapeNode current node = true := by
      rw [Bool.not_eq_true, Bool.not_eq_false'] at shapely
      exact shapely
    refine Visit.leads_state_bind fun memo => ?_
    refine (Visit.leads_editState
      (J := Planned policy styles doc node (paintEdits? policy styles current node ancestors memo).1) ?_).bind
        fun _ => ?_
    · rintro ⟨state, document⟩ ⟨⟨sparing, rfl⟩, rfl⟩
      exact sparing.planned_paintEdits? grown unseen straight distinct shape ancestors
    · split
      · next edits made =>
        split
        · next removed =>
          rw [Bool.and_eq_true] at removed
          refine (Visit.leads_editDocument fun scene planned => ?_).bind fun _ => Visit.leads_pure _
          refine planned.sparing.detach planned.shape removed.1 fun e spared => ?_
          have stroked := (planned.keeps edits made e spared).1
          rw [PaintEdits.paintsNothing, stroked] at removed
          cases removed.2
        · refine (Visit.leads_editDocument fun scene planned => ?_).bind fun _ => Visit.leads_pure _
          exact planned.sparing.modify planned.shape (planned.keeps edits made)
      · exact (Visit.leads_pure _).of_imp fun _ planned => planned.sparing

end Sparing

/-! ## The whole visit -/

/-- Whether no rule can tell what is done to shapes: none asks for strokes and fills, and if
shapes may be taken out, none looks aside and none is written in a shape. -/
structure Unnoticed (policy : PaintPolicy) (styles : Styles) (doc : Document) : Prop where
  unseen : ∀ name, isPaintProperty name = true → styles.testsAttribute (some name) = false
  straight : policy.removeUnpainted = true → ∀ r ∈ Css.Derived.rules styles.sheets, r.selector.looksAside = false
  outside : policy.removeUnpainted = true → ∀ sheet ∈ styles.sheets,
    ∀ upper ∈ doc.elementAncestors sheet.element, isShapeNode doc upper = false

/-- The sheets of a document are where they were. -/
theorem Sparing.ofDocument_eq {policy : PaintPolicy} {styles : Styles} {doc : Document} {scene : Scene Styles.Memo}
    (sparing : Sparing policy styles doc scene) (grown : doc.Grown Element.Typed)
    (unnoticed : Unnoticed policy styles doc) (collected : Styles.ofDocument doc = .ok styles) :
    Styles.ofDocument scene.document = .ok styles := by
  refine sparing.overpainted.ofDocument_eq grown collected fun sheet listed => ?_
  have attached := (Styles.held_ofDocument grown.isTree collected).2 sheet.element (List.mem_map_of_mem listed)
  cases removes : policy.removeUnpainted with
  | false => exact ((sparing.sameShape removes).isAttached_eq sheet.element).trans attached
  | true =>
      rcases Styles.exists_sheetOf_of_ofDocument collected sheet listed with ⟨e, -, found, styled, -⟩
      have noShape : isShapeNode doc sheet.element = false := by
        rw [isShapeNode, found, Option.any_some, Bool.eq_false_iff]
        intro shape
        rw [isStyleElement_of_isShape shape] at styled
        cases styled
      have steady : Steady doc sheet.element :=
        ⟨attached, Document.isElement_of_element? found, noShape, unnoticed.outside removes sheet listed⟩
      exact (steady.inPlace sparing.overpainted grown).1

theorem exists_sparing_outcome {policy : PaintPolicy} {styles : Styles} {doc : Document}
    (grown : doc.Grown Element.Typed) (collected : Styles.ofDocument doc = .ok styles)
    (unnoticed : Unnoticed policy styles doc) :
    ∃ scene : Scene Styles.Memo, Sparing policy styles doc scene ∧
      DocumentEdit.visiting { enter := enterPainted policy styles } [] doc = .ok { document := scene.document } := by
  have distinct : ∀ r ∈ Css.Derived.rules styles.sheets, r.declarations.Distinct :=
    fun r listed => (Styles.wasRead_of_ofDocument collected r listed).distinct
  have idle : Visitor.Safe Element.Typed doc.nodes.size (Sparing policy styles doc) (Sparing policy styles doc) {} :=
    .idle (fun sparing => sparing.overpainted.grown) fun sparing => sparing.overpainted.size_eq
  have safe : Visitor.Safe Element.Typed doc.nodes.size (Sparing policy styles doc) (Sparing policy styles doc)
      { enter := enterPainted policy styles } :=
    { idle with
      enter := fun node _ ancestors _ =>
        (Sparing.leads_enterPainted grown unnoticed.unseen unnoticed.straight distinct node ancestors).of_imp
          fun _ both => both.1 }
  rcases safe.run_succeeds (Sparing.start policy styles grown) with ⟨scene, ran, sparing⟩
  exact ⟨scene, sparing, DocumentEdit.visiting_of_run ran⟩

/-- An element that stands in no shape and has a marker at its end stays with all that is
no fill, its stroke width too, unless the width is zero.  So does one whose stroke is
painted or is not looked at, or that is not edited for another reason.  What was not set
is not lost either, as long as shapes are not taken out. -/
theorem marked_shape_keeps_its_stroke {pass : Nat} {path : Option String} {parameters : Parameters} {doc : Document}
    {edit : DocumentEdit} (grown : doc.Grown Element.Typed)
    (prepared : removeUnpaintedAttributes.prepare ⟨pass, path, .ofDocument doc⟩ parameters = some edit) :
    let policy := PaintPolicy.ofParameters parameters
    ∃ styles outcome, Styles.ofDocument doc = .ok styles ∧ edit doc = .ok outcome ∧
      (Unnoticed policy styles doc → Styles.ofDocument outcome.document = .ok styles ∧
        ∀ node e, Standing doc node e →
          let before := (styles.computedStyle doc node []).1
          let after := (styles.computedStyle outcome.document node []).1
          (hasMarker before = true ∧ before.isZero "stroke-width" = false ∨ paintsStroke before = true ∨
              policy.stroke = false ∨ isPlainlyPainted styles doc node e = false ∨ isPaintKnown before = false →
            outcome.document.isAttached node = true ∧
              ∀ name, Text.startsWith name "fill" = false → after.get? name = before.get? name) ∧
          (policy.removeUnpainted = false → outcome.document.isAttached node = true ∧
            ∀ name ∉ ["stroke", "fill"], e.attribute? name = none → after.get? name = before.get? name)) := by
  intro policy
  have frugal : doc.Grown Element.Frugal :=
    (SameShape.refl doc).grown grown fun found => .of_typed (grown.element_fits found)
  rcases Plugin.thrifty_removeUnpaintedAttributes _ _ _ _ prepared frugal fun styles known =>
    (Styles.held_ofDocument grown.isTree (toOption_eq_some.mp known)).1 with ⟨outcome, edited, -⟩
  rcases Option.map_eq_some_iff.mp prepared with ⟨styles, still, rfl⟩
  have collected := Summary.ofDocument_of_stillStyles? still
  refine ⟨styles, outcome, collected, edited, fun unnoticed => ?_⟩
  rcases exists_sparing_outcome grown collected unnoticed with ⟨scene, sparing, ran⟩
  have distinct : ∀ r ∈ Css.Derived.rules styles.sheets, r.declarations.Distinct :=
    fun r listed => (Styles.wasRead_of_ofDocument collected r listed).distinct
  cases edited.symm.trans ran
  refine ⟨sparing.ofDocument_eq grown unnoticed collected, fun node e standing => ?_⟩
  intro before after
  have judged : before = Css.inherited (styles.ownStyle doc) (node :: doc.elementAncestors node) :=
    (Styles.computedStyle_sound grown (Styles.Memo.Built.empty.sound grown) node).1
  have computed : ∀ {name}, scene.document.parent? node = doc.parent? node →
      KeepsAttribute doc scene.document name node → after.get? name = before.get? name := by
    intro name inPlace kept
    rw [judged]
    exact sparing.get?_computedStyle grown unnoticed.unseen unnoticed.straight distinct standing inPlace
      (remembers_nil styles doc) kept
  refine ⟨fun spares => ?_, fun stays => ?_⟩
  · have spared := standing.spared judged spares
    have inPlace := sparing.inPlace spared
    exact ⟨(sparing.isAttached grown standing inPlace).1, fun name noFill =>
      computed inPlace (sparing.kept spared name noFill)⟩
  · have inPlace := (sparing.sameShape stays).parent?_eq node
    exact ⟨(sparing.isAttached grown standing inPlace).1, fun name apart unset =>
      computed inPlace (sparing.unset standing.found apart unset)⟩

/-- The path paints nothing and stays with its width for the sake of the marker.  The
rectangle behind it goes. -/
theorem marked_path_outlives_its_neighbour :
    ∃ doc edit styles outcome,
      Document.read ("<svg><style>path\x7bopacity:.5\x7d</style>" ++
        "<path stroke='none' stroke-width='2' fill='none' marker-end='url(#m)'/><rect fill='none'/></svg>") none =
          .ok doc ∧
      removeUnpaintedAttributes.prepare ⟨1, none, .ofDocument doc⟩ (.set .empty "removeNone" (.truth true)) =
        some edit ∧
      Styles.ofDocument doc = .ok styles ∧ edit doc = .ok outcome ∧ Styles.ofDocument outcome.document = .ok styles ∧
      outcome.document.isAttached ⟨5⟩ = false ∧ outcome.document.isAttached ⟨4⟩ = true ∧
      (styles.computedStyle outcome.document ⟨4⟩ []).1.get? "stroke-width" = some (.known "2") := by
  have computed : ((Document.read ("<svg><style>path\x7bopacity:.5\x7d</style>" ++
      "<path stroke='none' stroke-width='2' fill='none' marker-end='url(#m)'/><rect fill='none'/></svg>")
      none).toOption.bind fun doc =>
        (removeUnpaintedAttributes.prepare ⟨1, none, .ofDocument doc⟩ (.set .empty "removeNone" (.truth true))).bind
          fun edit => (Styles.ofDocument doc).toOption.bind fun styles => (edit doc).toOption.bind fun outcome =>
            (doc.element? ⟨4⟩).map fun _ =>
              let before := (styles.computedStyle doc ⟨4⟩ []).1
              (decide (styles.derived.attributeNames = [] ∧
                  (∀ r ∈ Css.Derived.rules styles.sheets, r.selector.looksAside = false) ∧
                  ∀ sheet ∈ styles.sheets, ∀ upper ∈ doc.elementAncestors sheet.element, isShapeNode doc upper = false),
                decide (doc.isAttached ⟨4⟩ = true ∧ ∀ upper ∈ doc.elementAncestors ⟨4⟩, isShapeNode doc upper = false),
                decide (hasMarker before = true ∧ before.isZero "stroke-width" = false),
                outcome.document.isAttached ⟨5⟩, before.get? "stroke-width")) =
      some (true, true, true, false, some (.known "2")) := by
    decide +kernel
  rcases Option.bind_eq_some_iff.mp computed with ⟨doc, parsed, computed⟩
  rcases Option.bind_eq_some_iff.mp computed with ⟨edit, prepared, computed⟩
  rcases Option.bind_eq_some_iff.mp computed with ⟨styles, collected, computed⟩
  rcases Option.bind_eq_some_iff.mp computed with ⟨outcome, ran, computed⟩
  rcases Option.map_eq_some_iff.mp computed with ⟨e, found, facts⟩
  rw [toOption_eq_some] at parsed collected ran
  rcases Prod.mk.inj facts with ⟨quiet, facts⟩
  rcases Prod.mk.inj facts with ⟨stands, facts⟩
  rcases Prod.mk.inj facts with ⟨marked, facts⟩
  rcases Prod.mk.inj facts with ⟨gone, width⟩
  rw [decide_eq_true_eq] at quiet stands marked
  rcases quiet with ⟨noTests, straight, outside⟩
  rcases marked_shape_keeps_its_stroke (Document.grown_of_read parsed) prepared with
    ⟨others, result, same, ranToo, keeps⟩
  cases Except.ok.inj (collected.symm.trans same)
  cases Except.ok.inj (ran.symm.trans ranToo)
  have unseen : ∀ name, isPaintProperty name = true → styles.testsAttribute (some name) = false := by
    intro name _
    rw [Styles.testsAttribute, noTests]
    rfl
  rcases keeps ⟨unseen, fun _ => straight, fun _ => outside⟩ with ⟨recollected, keeps⟩
  rcases (keeps ⟨4⟩ e ⟨found, stands.1, stands.2⟩).1 (Or.inl marked) with ⟨stays, kept⟩
  exact ⟨doc, edit, styles, outcome, parsed, prepared, collected, ran, recollected, gone, stays,
    (kept "stroke-width" (by decide)).trans width⟩

/-- A marker at the start of a path grows with the stroke just as well, and is not looked
for.  The path loses its stroke width, and goes itself if shapes may be taken out. -/
theorem marker_at_start_changes_its_size :
    ∃ doc edit removal styles outcome removed,
      Document.read "<svg><path d='M0 0' stroke='none' stroke-width='2' fill='none' marker-start='url(#m)'/></svg>"
        none = .ok doc ∧
      removeUnpaintedAttributes.prepare ⟨1, none, .ofDocument doc⟩ .empty = some edit ∧
      removeUnpaintedAttributes.prepare ⟨1, none, .ofDocument doc⟩ (.set .empty "removeNone" (.truth true)) =
        some removal ∧
      Styles.ofDocument doc = .ok styles ∧ edit doc = .ok outcome ∧ removal doc = .ok removed ∧
      let before := (styles.computedStyle doc ⟨2⟩ []).1
      let after := (styles.computedStyle outcome.document ⟨2⟩ []).1
      before.text? "marker-start" = some "url(#m)" ∧ before.get? "stroke-width" = some (.known "2") ∧
        after.get? "stroke-width" = none ∧ removed.document.isAttached ⟨2⟩ = false := by
  have computed : ((Document.read
      "<svg><path d='M0 0' stroke='none' stroke-width='2' fill='none' marker-start='url(#m)'/></svg>"
      none).toOption.bind fun doc =>
        (removeUnpaintedAttributes.prepare ⟨1, none, .ofDocument doc⟩ .empty).bind fun edit =>
          (removeUnpaintedAttributes.prepare ⟨1, none, .ofDocument doc⟩ (.set .empty "removeNone" (.truth true))).bind
            fun removal => (Styles.ofDocument doc).toOption.bind fun styles => (edit doc).toOption.bind fun outcome =>
              (removal doc).toOption.map fun removed =>
                let before := (styles.computedStyle doc ⟨2⟩ []).1
                let after := (styles.computedStyle outcome.document ⟨2⟩ []).1
                decide (before.text? "marker-start" = some "url(#m)" ∧
                  before.get? "stroke-width" = some (.known "2") ∧ after.get? "stroke-width" = none ∧
                    removed.document.isAttached ⟨2⟩ = false)) = some true := by
    decide +kernel
  rcases Option.bind_eq_some_iff.mp computed with ⟨doc, parsed, computed⟩
  rcases Option.bind_eq_some_iff.mp computed with ⟨edit, prepared, computed⟩
  rcases Option.bind_eq_some_iff.mp computed with ⟨removal, preparedToo, computed⟩
  rcases Option.bind_eq_some_iff.mp computed with ⟨styles, collected, computed⟩
  rcases Option.bind_eq_some_iff.mp computed with ⟨outcome, ran, computed⟩
  rcases Option.map_eq_some_iff.mp computed with ⟨removed, ranToo, known⟩
  rw [toOption_eq_some] at parsed collected ran ranToo
  exact ⟨doc, edit, removal, styles, outcome, removed, parsed, prepared, preparedToo, collected, ran, ranToo,
    of_decide_eq_true known⟩

end Cleanup
end SlimSvg
