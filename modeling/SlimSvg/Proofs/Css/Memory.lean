import SlimSvg.Proofs.Css.Computed
import SlimSvg.Css.Cascade
import SlimSvg.Proofs.Tree.Edits

namespace SlimSvg
namespace Css

/-!
# Inherited styles do not depend on the memory

A style is what an element sets itself, and what it inherits along its line of
ancestors.  The memory of earlier answers shortens the way to it.  As long as the
document and the rules stay, every entry of the memory is the answer that would
be found without it.
-/

/-- The style of the first of some nodes, each of which inherits from the next. -/
def inherited (own : NodeId → ComputedStyle) : List NodeId → ComputedStyle
  | [] => .empty
  | node :: outer => (own node).inheritFrom (inherited own outer)

/-- Whether some nodes are a node with all its element ancestors, or none at all. -/
def IsLineage (doc : Document) : List NodeId → Prop
  | [] => True
  | node :: outer => outer = doc.elementAncestors node

theorem isLineage_elementAncestors {P : Element → Prop} {doc : Document} (grown : doc.Grown P)
    (node : NodeId) : IsLineage doc (doc.elementAncestors node) := by
  cases line : doc.elementAncestors node with
  | nil => exact True.intro
  | cons upper outer => exact Document.elementAncestors_eq_cons grown line

theorem inherited_congr {own other : NodeId → ComputedStyle} {nodes : List NodeId}
    (same : ∀ node ∈ nodes, other node = own node) : inherited other nodes = inherited own nodes := by
  induction nodes with
  | nil => rfl
  | cons node outer inductionHypothesis =>
      rw [inherited, inherited, same node List.mem_cons_self,
        inductionHypothesis fun upper listed => same upper (List.mem_cons_of_mem node listed)]

/-! ## Inheriting from outside -/

/-- The style of the first of some nodes, each of which inherits from the next, and the
last one from a given style. -/
def inheritedUnder (own : NodeId → ComputedStyle) (context : ComputedStyle) : List NodeId → ComputedStyle
  | [] => context
  | node :: outer => (own node).inheritFrom (inheritedUnder own context outer)

theorem inheritedUnder_empty (own : NodeId → ComputedStyle) (nodes : List NodeId) :
    inheritedUnder own .empty nodes = inherited own nodes := by
  induction nodes with
  | nil => rfl
  | cons node outer inductionHypothesis => rw [inheritedUnder, inherited, inductionHypothesis]

/-- What is inherited for a property depends on nothing that is set for other ones. -/
theorem get?_inheritedUnder_congr {own other : NodeId → ComputedStyle} (distinct : ∀ node, (own node).Distinct)
    (otherDistinct : ∀ node, (other node).Distinct) {context : ComputedStyle} {name : String} {nodes : List NodeId}
    (same : ∀ node ∈ nodes, (other node).get? name = (own node).get? name) :
    (inheritedUnder other context nodes).get? name = (inheritedUnder own context nodes).get? name := by
  induction nodes with
  | nil => rfl
  | cons node outer inductionHypothesis =>
      rw [inheritedUnder, inheritedUnder, ComputedStyle.get?_inheritFrom (otherDistinct node),
        ComputedStyle.get?_inheritFrom (distinct node), same node List.mem_cons_self,
        inductionHypothesis fun upper listed => same upper (List.mem_cons_of_mem node listed)]

theorem inherited_append (own : NodeId → ComputedStyle) (inner outer : List NodeId) :
    inherited own (inner ++ outer) = inheritedUnder own (inherited own outer) inner := by
  induction inner with
  | nil => rfl
  | cons node rest inductionHypothesis =>
      rw [List.cons_append, inherited, inheritedUnder, inductionHypothesis]

/-- An inheritable property comes from outside exactly if nothing inside sets it. -/
theorem get?_inheritedUnder {own : NodeId → ComputedStyle} (distinct : ∀ node, (own node).Distinct)
    (context : ComputedStyle) (nodes : List NodeId) {name : String}
    (inheritable : Vocabulary.isInheritable name = true) :
    (inheritedUnder own context nodes).get? name = ((inherited own nodes).get? name).or (context.get? name) := by
  induction nodes with
  | nil => rfl
  | cons node outer inductionHypothesis =>
      rw [inheritedUnder, inherited, ComputedStyle.get?_inheritFrom (distinct node),
        ComputedStyle.get?_inheritFrom (distinct node), inheritable, if_pos rfl, if_pos rfl, inductionHypothesis]
      cases (own node).get? name with
      | none => rfl
      | some v =>
          dsimp only
          split
          · rfl
          · rw [Option.some_or]

/-- What is set inside stays under every style from outside. -/
theorem get?_inheritedUnder_of_inside {own : NodeId → ComputedStyle} (distinct : ∀ node, (own node).Distinct)
    (context : ComputedStyle) {nodes : List NodeId} {name : String} (inheritable : Vocabulary.isInheritable name = true)
    {v : ComputedValue} (inside : (inherited own nodes).get? name = some v) :
    (inheritedUnder own context nodes).get? name = some v := by
  rw [get?_inheritedUnder distinct context nodes inheritable, inside, Option.some_or]

namespace Styles

/-- Whether every entry of a memory is the style that its node has without it. -/
def Memo.Sound (s : Styles) (doc : Document) (memo : Memo) : Prop :=
  ∀ node style, memo.lookup node = some style →
    style = inherited (s.ownStyle doc) (node :: doc.elementAncestors node)

/-- The memories that questions about one document can leave behind. -/
inductive Memo.Built (s : Styles) (doc : Document) : Memo → Prop
  | empty : Memo.Built s doc []
  | computedStyle {memo : Memo} (earlier : Memo.Built s doc memo) (node : NodeId) :
    Memo.Built s doc (s.computedStyle doc node memo).2
  | parentStyle {memo : Memo} (earlier : Memo.Built s doc memo) (ancestors : List NodeId) :
    Memo.Built s doc (s.parentStyle doc ancestors memo).2

variable {P : Element → Prop} {s : Styles} {doc : Document} {memo : Memo}

/-- If inheriting respects a relation between styles, a memory whose entries are related to
the styles that would be found without it gives related answers and stays so. -/
theorem chainStyle_related (grown : doc.Grown P) {related : ComputedStyle → ComputedStyle → Prop}
    (reflexive : related .empty .empty)
    (respected : ∀ node {a b}, related a b →
      related ((s.ownStyle doc node).inheritFrom a) ((s.ownStyle doc node).inheritFrom b))
    (remembers : ∀ node style, memo.lookup node = some style →
      related style (inherited (s.ownStyle doc) (node :: doc.elementAncestors node)))
    {nodes : List NodeId} (lineage : IsLineage doc nodes) :
    related (s.chainStyle doc nodes memo).1 (inherited (s.ownStyle doc) nodes) ∧
      ∀ node style, (s.chainStyle doc nodes memo).2.lookup node = some style →
        related style (inherited (s.ownStyle doc) (node :: doc.elementAncestors node)) := by
  induction nodes with
  | nil => exact ⟨reflexive, remembers⟩
  | cons node outer inductionHypothesis =>
      have outerEq : outer = doc.elementAncestors node := lineage
      rw [chainStyle]
      cases remembered : memo.lookup node with
      | some style =>
          refine ⟨?_, remembers⟩
          rw [outerEq]
          exact remembers node style remembered
      | none =>
          have outerLineage : IsLineage doc outer := by
            rw [outerEq]
            exact isLineage_elementAncestors grown node
          obtain ⟨parentRelated, stays⟩ := inductionHypothesis outerLineage
          refine ⟨respected node parentRelated, ?_⟩
          intro other style found
          by_cases same : other = node
          · rw [same, List.lookup_cons_self, Option.some.injEq] at found
            rw [same, ← found, ← outerEq]
            exact respected node parentRelated
          · rw [List.lookup_cons, beq_false_of_ne same] at found
            exact stays other style found

/-- A sound memory changes no answer and stays sound. -/
theorem chainStyle_sound (grown : doc.Grown P) (sound : Memo.Sound s doc memo)
    {nodes : List NodeId} (lineage : IsLineage doc nodes) :
    (s.chainStyle doc nodes memo).1 = inherited (s.ownStyle doc) nodes ∧
      Memo.Sound s doc (s.chainStyle doc nodes memo).2 :=
  chainStyle_related grown rfl (fun node _ _ same => congrArg (s.ownStyle doc node).inheritFrom same) sound lineage

/-- A question leaves behind what was remembered before and answers for the nodes it was
about. -/
theorem chainStyle_remembers (s : Styles) (doc : Document) (nodes : List NodeId) {memo : Memo}
    {node : NodeId} {style : ComputedStyle}
    (found : (s.chainStyle doc nodes memo).2.lookup node = some style) :
    memo.lookup node = some style ∨ node ∈ nodes := by
  induction nodes generalizing style with
  | nil => exact Or.inl found
  | cons first outer inductionHypothesis =>
      rw [chainStyle] at found
      split at found
      · exact Or.inl found
      · dsimp only at found
        by_cases same : node = first
        · rw [same]
          exact Or.inr List.mem_cons_self
        · rw [List.lookup_cons, beq_false_of_ne same] at found
          rcases inductionHypothesis found with before | listed
          · exact Or.inl before
          · exact Or.inr (List.mem_cons_of_mem first listed)

/-- A memory stays sound as long as nothing changes on the lines of the nodes that it
knows. -/
theorem Memo.Sound.of_sameShape {other : Document} (sound : Memo.Sound s doc memo)
    (same : Document.SameShape doc other)
    (unchanged : ∀ node style, memo.lookup node = some style →
      ∀ upper ∈ node :: doc.elementAncestors node, s.ownStyle other upper = s.ownStyle doc upper) :
    Memo.Sound s other memo := by
  intro node style found
  rw [sound node style found, same.elementAncestors_eq]
  exact (inherited_congr (unchanged node style found)).symm

/-- A question that is asked again gets the same answer and leaves nothing new behind. -/
theorem chainStyle_again (s : Styles) (doc : Document) (nodes : List NodeId) (memo : Memo) :
    s.chainStyle doc nodes (s.chainStyle doc nodes memo).2 = s.chainStyle doc nodes memo := by
  cases nodes with
  | nil => rfl
  | cons node outer =>
      cases known : memo.lookup node with
      | some style => simp only [chainStyle, known]
      | none => simp only [chainStyle, known, List.lookup_cons_self]

/-- Children of the innermost ancestor inherit what the ancestors hand down. -/
theorem parentStyle_elementAncestors (s : Styles) (grown : doc.Grown P) (node : NodeId) (memo : Memo) :
    s.parentStyle doc (doc.elementAncestors node).reverse memo =
      s.chainStyle doc (doc.elementAncestors node) memo := by
  rw [parentStyle, List.getLast?_reverse]
  cases line : doc.elementAncestors node with
  | nil => rfl
  | cons upper outer =>
      rw [Document.elementAncestors_eq_cons grown line]
      rfl

theorem computedStyle_sound (grown : doc.Grown P) (sound : Memo.Sound s doc memo) (node : NodeId) :
    (s.computedStyle doc node memo).1 =
        inherited (s.ownStyle doc) (node :: doc.elementAncestors node) ∧
      Memo.Sound s doc (s.computedStyle doc node memo).2 := by
  obtain ⟨parentEq, stays⟩ :=
    chainStyle_sound grown sound (isLineage_elementAncestors grown node)
  rw [computedStyle]
  dsimp only
  rw [parentEq]
  exact ⟨rfl, stays⟩

theorem Memo.Built.sound (grown : doc.Grown P) (built : Memo.Built s doc memo) :
    Memo.Sound s doc memo := by
  induction built with
  | empty =>
      intro node style found
      cases found
  | computedStyle _ node inductionHypothesis =>
      exact (computedStyle_sound grown inductionHypothesis node).2
  | parentStyle _ ancestors inductionHypothesis =>
      rw [Styles.parentStyle]
      split
      · next parent _ =>
        have lineage : IsLineage doc (parent :: doc.elementAncestors parent) := rfl
        exact (chainStyle_sound grown inductionHypothesis lineage).2
      · exact inductionHypothesis

end Styles

end Css
end SlimSvg
