import SlimSvg.Css.Cascade
import SlimSvg.Proofs.Tree.Pruning

namespace SlimSvg
namespace Css

/-!
# Documents in which a selector selects the same

The matcher looks at a node, at nodes that stand in the relation of some combinator
to it, and so on.  If two documents agree on what it can reach that way, it gives
one answer in both.
-/

section Congruence

variable {doc other : Document} {Reached : NodeId → Prop}

/-- Whether two documents agree on what a compound looks at, from any of certain
nodes on, and lead to such nodes again. -/
structure Compound.Agrees (doc other : Document) (Reached : NodeId → Prop) (c : Compound) : Prop where
  accepts_eq : ∀ node, Reached node → c.accepts other node = c.accepts doc node
  related_eq : ∀ node, Reached node →
    (c.combinator.getD .descendant).related other node =
      (c.combinator.getD .descendant).related doc node
  reached : ∀ node, Reached node →
    ∀ outer ∈ (c.combinator.getD .descendant).related doc node, Reached outer

theorem leadTo_congr {compounds : List Compound}
    (agree : ∀ c ∈ compounds, c.Agrees doc other Reached) {node : NodeId} (here : Reached node) :
    leadTo other compounds node = leadTo doc compounds node := by
  induction compounds generalizing node with
  | nil => rfl
  | cons c outer inductionHypothesis =>
      have agrees := agree c List.mem_cons_self
      have further := fun {upper : NodeId} (reached : Reached upper) =>
        inductionHypothesis (fun other listed => agree other (List.mem_cons_of_mem c listed)) reached
      have searched : ((c.combinator.getD .descendant).related doc node).any (leadTo other outer) =
          ((c.combinator.getD .descendant).related doc node).any (leadTo doc outer) := by
        rw [Bool.eq_iff_iff, List.any_eq_true, List.any_eq_true]
        constructor
        · rintro ⟨upper, related, leads⟩
          exact ⟨upper, related, further (agrees.reached node here upper related) ▸ leads⟩
        · rintro ⟨upper, related, leads⟩
          exact ⟨upper, related, (further (agrees.reached node here upper related)).symm ▸ leads⟩
      rw [leadTo, leadTo, agrees.accepts_eq node here, agrees.related_eq node here, searched]

theorem Selector.selects_congr {s : Selector} (isElement_eq : ∀ id, other.isElement id = doc.isElement id)
    (agree : ∀ c ∈ s.compounds, c.Agrees doc other Reached) {node : NodeId} (here : Reached node) :
    s.selects other node = s.selects doc node := by
  rw [selects, selects]
  split
  · cases compoundsEq : s.compounds with
    | nil => rfl
    | cons c rest => exact (agree c (compoundsEq ▸ List.mem_cons_self)).accepts_eq node here
  · have fromBack : ∀ c ∈ s.compounds.reverse, c.Agrees doc other Reached :=
      fun c listed => agree c (List.mem_reverse.mp listed)
    rw [isElement_eq, leadTo_congr fromBack here]

/-- If the tree is the same and every compound accepts the same nodes, a selector selects
the same nodes. -/
theorem Selector.selects_of_accepts {s : Selector} (same : Document.SameShape doc other)
    (accepts : ∀ c ∈ s.compounds, ∀ node, c.accepts other node = c.accepts doc node) (node : NodeId) :
    s.selects other node = s.selects doc node := by
  have agree : ∀ c ∈ s.compounds, c.Agrees doc other fun _ => True := by
    intro c listed
    refine ⟨fun node _ => accepts c listed node, ?_, fun _ _ _ _ => True.intro⟩
    intro node _
    unfold Combinator.related
    split
    · exact same.elementAncestors_eq node
    · rw [same.parentElement?_eq]
    · rw [Document.previousElement?, Document.previousElement?, same.previousElements_eq]
    · exact same.previousElements_eq node
  exact selects_congr same.isElement_eq agree True.intro

/-- A test looks at the name, the class and the id of an element, and at the attribute
that it names. -/
theorem SimpleSelector.accepts_congr {e new : Element} {t : SimpleSelector} (name_eq : new.name = e.name)
    (foreign_eq : new.foreign = e.foreign) (class_eq : new.attribute? "class" = e.attribute? "class")
    (id_eq : new.attribute? "id" = e.attribute? "id")
    (tested : ∀ test, t = .attributeTest test → new.attribute? test.name = e.attribute? test.name) :
    t.accepts new = t.accepts e := by
  cases t with
  | universal => rfl
  | typeName _ =>
      rw [accepts, accepts, name_eq]
  | className _ =>
      simp only [accepts, Element.hasClass, Element.classes, Element.attributeText?, class_eq]
  | idName _ =>
      simp only [accepts, Element.id?, Element.attributeText?, id_eq]
  | attributeTest test =>
      have same : new.anyAttribute? test.name = e.anyAttribute? test.name := by
        simp only [Element.anyAttribute?, Element.attributeText?, Element.foreignAttribute?, foreign_eq,
          tested test rfl]
      simp only [accepts, same]
  | pseudoClass _ _ => rfl
  | pseudoElement _ _ => rfl

/-- Tests that say the same of two elements say the same of a node that holds them. -/
theorem Compound.accepts_congr {c : Compound} {node : NodeId}
    (same : other.element? node = doc.element? node ∨
      ∃ e new, doc.element? node = some e ∧ other.element? node = some new ∧
        ∀ t ∈ c.tests, t.accepts new = t.accepts e) :
    c.accepts other node = c.accepts doc node := by
  rw [accepts, accepts]
  rcases same with equal | ⟨e, new, found, foundNew, same⟩
  · rw [equal]
  · rw [found, foundNew]
    rw [Bool.eq_iff_iff, List.all_eq_true, List.all_eq_true]
    exact forall₂_congr fun t listed => by rw [same t listed]

end Congruence

namespace Styles

variable {s others : Styles} {doc other : Document} {node : NodeId}

/-- Equal rules that select the same apply in the same order. -/
theorem matchingRules_congr (rulesEq : Derived.rules others.sheets = Derived.rules s.sheets)
    (selectsEq : ∀ r ∈ Derived.rules s.sheets,
      r.selector.selects other node = r.selector.selects doc node) :
    others.matchingRules other node = s.matchingRules doc node := by
  have sortedEq : others.derived.sorted = s.derived.sorted := by
    rw [others.derived_eq, s.derived_eq]
    simp only [Derived.ofSheets, rulesEq]
  rw [matchingRules, matchingRules, sortedEq]
  apply List.filter_congr
  intro r listed
  rw [s.derived_eq] at listed
  exact selectsEq r (List.mem_mergeSort.mp listed)

/-- What is set on an element depends on the element and on the rules that select it. -/
theorem ownStyle_congr (element?_eq : other.element? node = doc.element? node)
    (matchingEq : s.matchingRules other node = s.matchingRules doc node) :
    s.ownStyle other node = s.ownStyle doc node := by
  simp only [ownStyle, ownStyleWith, applyRules, element?_eq, matchingEq]

/-- What the rules set depends on nothing of the element but its name. -/
theorem ruleStyle_congr (nameEq : (other.element? node).map (·.name) = (doc.element? node).map (·.name))
    (matchingEq : s.matchingRules other node = s.matchingRules doc node) :
    s.ruleStyle other node = s.ruleStyle doc node := by
  rw [ruleStyle, ruleStyle, applyRules, applyRules, matchingEq]
  cases found : doc.element? node with
  | none =>
      rw [found, Option.map_none, Option.map_eq_none_iff] at nameEq
      rw [nameEq]
  | some e =>
      rw [found, Option.map_some, Option.map_eq_some_iff] at nameEq
      rcases nameEq with ⟨new, now, named⟩
      rw [now]
      dsimp only
      rw [named]

end Styles

end Css
end SlimSvg
