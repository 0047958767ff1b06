import SlimSvg.Cleanup.Link
import SlimSvg.Proofs.Css.Cascade
import SlimSvg.Proofs.Css.Compounds
import SlimSvg.Proofs.Css.Memory
import SlimSvg.Proofs.Css.Selection
import SlimSvg.Proofs.Tree.Visit

namespace SlimSvg
namespace Cleanup

open Css (ComputedStyle Styles)

/-!
# Visits that revise elements under the style of their parent

Some plugins change an element on entering it, by the style of its parent.  This style
comes from the memory and from a document of which a part has been worked on.  If the
rules do not see the changes, it is still the one that the parent has in the end: the
elements above an element come first and are not touched again, and so the memory stays
right although the document changes.
-/

/-! ## Changes that rules do not see -/

/-- Changes of single elements under the style of their parent. -/
structure Revision (styles : Styles) where
  Changes : (parent : ComputedStyle) → NodeId → (e new : Element) → Prop
  name_eq : ∀ {parent node e new}, Changes parent node e new → new.name = e.name
  style_eq : ∀ {parent node e new}, Changes parent node e new → new.attribute? "style" = e.attribute? "style"
  typed : ∀ {parent node e new}, Changes parent node e new → e.Typed → new.Typed
  isReuseTarget_eq : ∀ {parent node e new}, Changes parent node e new → isReuseTarget new = isReuseTarget e
  accepts_eq : ∀ {parent node e new}, Changes parent node e new →
    ∀ r ∈ Css.Derived.rules styles.sheets, ∀ c ∈ r.selector.allCompounds, ∀ t ∈ c.tests,
      t.accepts new = t.accepts e

/-- Whether a node has the attribute of a name that it had. -/
def KeepsAttribute (doc other : Document) (name : String) (node : NodeId) : Prop :=
  (other.element? node).bind (·.attribute? name) = (doc.element? node).bind (·.attribute? name)

namespace Revision

variable {styles : Styles} {v : Revision styles} {doc other : Document} {parent : ComputedStyle} {node : NodeId}

/-- Whether a node holds what it held, or something else after a change under a parent. -/
def Revised (v : Revision styles) (doc other : Document) (parent : ComputedStyle) (node : NodeId) : Prop :=
  other.element? node = doc.element? node ∨
    ∃ e new, doc.element? node = some e ∧ other.element? node = some new ∧ v.Changes parent node e new

theorem Revised.congr {third : Document} {newParent : ComputedStyle} (revised : v.Revised doc other parent node)
    (element?_eq : third.element? node = other.element? node) (parentEq : newParent = parent) :
    v.Revised doc third newParent node := by
  rw [Revised, element?_eq, parentEq]
  exact revised

/-- The rules of a revised document select what they selected. -/
theorem selects_eq (same : Document.SameShape doc other) (revised : ∀ node, ∃ parent, v.Revised doc other parent node)
    {r : Css.Rule} (listed : r ∈ Css.Derived.rules styles.sheets) (node : NodeId) :
    r.selector.selects other node = r.selector.selects doc node := by
  apply Css.Selector.selects_of_accepts same
  intro c among node
  apply Css.Compound.accepts_congr
  rcases revised node with ⟨parent, equal | ⟨e, new, found, now, changes⟩⟩
  · exact Or.inl equal
  · exact Or.inr ⟨e, new, found, now, v.accepts_eq changes r listed c (Css.Selector.mem_allCompounds among)⟩

theorem matchingRules_eq (same : Document.SameShape doc other)
    (revised : ∀ node, ∃ parent, v.Revised doc other parent node) (node : NodeId) :
    styles.matchingRules other node = styles.matchingRules doc node :=
  Styles.matchingRules_congr rfl fun _ listed => selects_eq same revised listed node

/-! ## The whole visit -/

/-- What is known after some elements have been worked on. -/
structure Progress (v : Revision styles) (doc : Document) (done : List NodeId) (scene : Scene Styles.Memo) :
    Prop where
  sameShape : Document.SameShape doc scene.document
  untouched : ∀ node, node ∉ done → scene.document.element? node = doc.element? node
  revised : ∀ node ∈ done, v.Revised doc scene.document
    (Css.inherited (styles.ownStyle scene.document) (doc.elementAncestors node)) node
  sound : Styles.Memo.Sound styles scene.document scene.state
  remembered : ∀ node style, scene.state.lookup node = some style → node ∈ done

namespace Progress

variable {done : List NodeId} {scene : Scene Styles.Memo}

theorem start (v : Revision styles) (doc : Document) : v.Progress doc [] ⟨[], doc⟩ where
  sameShape := .refl doc
  untouched _ _ := rfl
  revised := by
    rintro node ⟨⟩
  sound := by
    rintro node style ⟨⟩
  remembered := by
    rintro node style ⟨⟩

theorem exists_revised (progress : v.Progress doc done scene) (node : NodeId) :
    v.Revised doc scene.document
      (Css.inherited (styles.ownStyle scene.document) (doc.elementAncestors node)) node := by
  by_cases worked : node ∈ done
  · exact progress.revised node worked
  · exact Or.inl (progress.untouched node worked)

theorem selects_eq (progress : v.Progress doc done scene) {r : Css.Rule}
    (listed : r ∈ Css.Derived.rules styles.sheets) (node : NodeId) :
    r.selector.selects scene.document node = r.selector.selects doc node :=
  Revision.selects_eq progress.sameShape (fun node => ⟨_, progress.exists_revised node⟩) listed node

theorem matchingRules_eq (progress : v.Progress doc done scene) (node : NodeId) :
    styles.matchingRules scene.document node = styles.matchingRules doc node :=
  Revision.matchingRules_eq progress.sameShape (fun node => ⟨_, progress.exists_revised node⟩) node

theorem ruleStyle_eq (progress : v.Progress doc done scene) (node : NodeId) :
    styles.ruleStyle scene.document node = styles.ruleStyle doc node := by
  refine Styles.ruleStyle_congr ?_ (progress.matchingRules_eq node)
  rcases progress.exists_revised node with same | ⟨e, new, found, now, changes⟩
  · rw [same]
  · rw [found, now, Option.map_some, Option.map_some, v.name_eq changes]

theorem isReusable_eq (progress : v.Progress doc done scene) (ancestors : List NodeId) :
    isReusable scene.document ancestors = isReusable doc ancestors := by
  have targetEq : ∀ n, (scene.document.element? n).any isReuseTarget = (doc.element? n).any isReuseTarget := by
    intro n
    rcases progress.exists_revised n with same | ⟨e, new, found, now, changes⟩
    · rw [same]
    · rw [found, now]
      exact v.isReuseTarget_eq changes
  rw [isReusable, isReusable]
  simp only [targetEq]

/-- An element that keeps what it holds keeps its style, even if others are revised. -/
theorem ownStyle_eq (progress : v.Progress doc done scene) (shape : Document.SameShape doc other)
    (revised : ∀ node, ∃ parent, v.Revised doc other parent node)
    (element?_eq : other.element? node = scene.document.element? node) :
    styles.ownStyle other node = styles.ownStyle scene.document node := by
  apply Styles.ownStyle_congr element?_eq
  rw [Revision.matchingRules_eq shape revised, progress.matchingRules_eq]

theorem grown (progress : v.Progress doc done scene) (grown : doc.Grown Element.Typed) :
    scene.document.Grown Element.Typed := by
  apply progress.sameShape.grown grown
  intro node e now
  rcases progress.exists_revised node with same | ⟨old, new, found, holds, changes⟩
  · rw [same] at now
    exact grown.element_fits now
  · rw [holds] at now
    rw [← Option.some.inj now]
    exact v.typed changes (grown.element_fits found)

/-- A node that has kept an attribute sets its property as before. -/
theorem get?_ownStyle_eq (progress : v.Progress doc done scene) (grown : doc.Grown Element.Typed)
    (distinct : ∀ r ∈ Css.Derived.rules styles.sheets, r.declarations.Distinct) {name : String}
    (kept : KeepsAttribute doc scene.document name node) :
    (styles.ownStyle scene.document node).get? name = (styles.ownStyle doc node).get? name := by
  rcases progress.exists_revised node with same | ⟨e, new, found, now, changes⟩
  · rw [Styles.ownStyle_congr same (progress.matchingRules_eq node)]
  · rw [KeepsAttribute, found, now] at kept
    have typed := grown.element_fits found
    exact Styles.get?_ownStyle_congr distinct typed (v.typed changes typed) found now (v.name_eq changes) kept
      (v.style_eq changes) fun _ listed => progress.selects_eq listed node

/-- If all nodes of a line have kept an attribute, the property is as before, whatever comes
from outside. -/
theorem get?_inheritedUnder_eq (progress : v.Progress doc done scene) (grown : doc.Grown Element.Typed)
    (distinct : ∀ r ∈ Css.Derived.rules styles.sheets, r.declarations.Distinct) {nodes : List NodeId}
    {name : String} (kept : ∀ n ∈ nodes, KeepsAttribute doc scene.document name n) (context : ComputedStyle) :
    (Css.inheritedUnder (styles.ownStyle scene.document) context nodes).get? name =
      (Css.inheritedUnder (styles.ownStyle doc) context nodes).get? name :=
  Css.get?_inheritedUnder_congr (styles.distinct_ownStyle doc) (styles.distinct_ownStyle scene.document)
    fun n listed => progress.get?_ownStyle_eq grown distinct (kept n listed)

/-- The ancestors that an element comes with lead to what its parent hands down. -/
theorem parentStyle_eq (progress : v.Progress doc done scene) (grown : doc.Grown Element.Typed) (node : NodeId)
    (memo : Styles.Memo) :
    styles.parentStyle scene.document (doc.elementAncestors node).reverse memo =
      styles.chainStyle scene.document (doc.elementAncestors node) memo := by
  rw [← progress.sameShape.elementAncestors_eq]
  exact styles.parentStyle_elementAncestors (progress.grown grown) node memo

/-- Asking for the style of the parent of the next element gives the right answer, and
what is remembered of it does no harm. -/
theorem consult (progress : v.Progress doc done scene) (grown : doc.Grown Element.Typed) {after : List NodeId}
    (split : doc.elements = done ++ node :: after) :
    let answer := styles.chainStyle scene.document (doc.elementAncestors node) scene.state
    answer.1 = Css.inherited (styles.ownStyle scene.document) (doc.elementAncestors node) ∧
      v.Progress doc done ⟨answer.2, scene.document⟩ := by
  intro answer
  have stillGrown := progress.grown grown
  have lineage : Css.IsLineage scene.document (doc.elementAncestors node) := by
    rw [← progress.sameShape.elementAncestors_eq]
    exact Css.isLineage_elementAncestors stillGrown node
  rcases Styles.chainStyle_sound stillGrown progress.sound lineage with ⟨answerEq, sound⟩
  refine ⟨answerEq, { progress with sound, remembered := ?_ }⟩
  intro n style known
  rcases Styles.chainStyle_remembers styles scene.document _ known with before | above
  · exact progress.remembered n style before
  · exact Document.ancestors_before grown split above

/-- Working on one more element.  What was known stays, because the nodes that it is known
of neither are this element nor inherit from it. -/
theorem extend (progress : v.Progress doc done scene) (grown : doc.Grown Element.Typed) {after : List NodeId}
    (split : doc.elements = done ++ node :: after) (otherShape : Document.SameShape scene.document other)
    (elsewhere : ∀ n, n ≠ node → other.element? n = scene.document.element? n)
    (here : v.Revised doc other
      (Css.inherited (styles.ownStyle scene.document) (doc.elementAncestors node)) node) :
    v.Progress doc (done ++ [node]) ⟨scene.state, other⟩ := by
  have shape : Document.SameShape doc other := progress.sameShape.trans otherShape
  have different : ∀ n ∈ done, n ≠ node :=
    fun n met same => Document.notMem_before grown split (same ▸ met)
  have around : ∀ n ∈ done, ∀ upper ∈ doc.elementAncestors n, upper ∈ done :=
    fun _ met _ above => Document.ancestors_met grown split met above
  have revised : ∀ n, ∃ parent, v.Revised doc other parent n := by
    intro n
    by_cases same : n = node
    · exact ⟨_, same ▸ here⟩
    · exact ⟨_, (progress.exists_revised n).congr (elsewhere n same) rfl⟩
  have ownEq : ∀ n ∈ done, styles.ownStyle other n = styles.ownStyle scene.document n :=
    fun n met => progress.ownStyle_eq shape revised (elsewhere n (different n met))
  have inheritedEq : ∀ n, (∀ upper ∈ doc.elementAncestors n, upper ∈ done) →
      Css.inherited (styles.ownStyle other) (doc.elementAncestors n) =
        Css.inherited (styles.ownStyle scene.document) (doc.elementAncestors n) :=
    fun n met => Css.inherited_congr fun upper above => ownEq upper (met upper above)
  refine ⟨shape, ?_, ?_, ?_, ?_⟩
  · intro n notMet
    rw [List.mem_append, List.mem_singleton, not_or] at notMet
    exact (elsewhere n notMet.2).trans (progress.untouched n notMet.1)
  · intro n met
    rcases List.mem_append.mp met with before | last
    · exact (progress.revised n before).congr (elsewhere n (different n before))
        (inheritedEq n (around n before))
    · rw [List.mem_singleton.mp last,
        inheritedEq node fun _ above => Document.ancestors_before grown split above]
      exact here
  · apply progress.sound.of_sameShape otherShape
    intro n style known upper listed
    have met := progress.remembered n style known
    rcases List.mem_cons.mp listed with same | above
    · rw [same]
      exact ownEq n met
    · rw [progress.sameShape.elementAncestors_eq] at above
      exact ownEq upper (around n met upper above)
  · intro n style known
    exact List.mem_append_left [node] (progress.remembered n style known)

/-- An element that is left as it is. -/
theorem leave (progress : v.Progress doc done scene) (grown : doc.Grown Element.Typed) {after : List NodeId}
    (split : doc.elements = done ++ node :: after) : v.Progress doc (done ++ [node]) scene :=
  progress.extend grown split (.refl scene.document) (fun _ _ => rfl) (progress.exists_revised node)

/-- An element that is changed. -/
theorem change (progress : v.Progress doc done scene) (grown : doc.Grown Element.Typed) {after : List NodeId}
    (split : doc.elements = done ++ node :: after) {e : Element} (found : doc.element? node = some e)
    {f : Element → Element}
    (changes : v.Changes (Css.inherited (styles.ownStyle scene.document) (doc.elementAncestors node)) node e (f e)) :
    v.Progress doc (done ++ [node]) ⟨scene.state, scene.document.modifyElement node f⟩ := by
  refine progress.extend grown split (Document.sameShape_modifyElement _ _ _) ?_ (Or.inr ⟨e, f e, found, ?_, changes⟩)
  · intro n different
    rw [Document.element?_modifyElement, if_neg different]
  · rw [Document.element?_modifyElement, if_pos rfl, progress.untouched node (Document.notMem_before grown split),
      found]
    rfl

end Progress

end Revision

end Cleanup
end SlimSvg
