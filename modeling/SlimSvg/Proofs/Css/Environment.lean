import SlimSvg.Proofs.Css.Cascade
import SlimSvg.Proofs.Css.Memory

namespace SlimSvg
namespace Css

/-!
# Known values hold in every environment

Media, the state of the page and time decide which of the dynamic rules apply to
which elements.  An environment is one such decision for all rules and elements
at once.  In it the same cascade and the same inheritance run with the rules that
apply.  What a computed style calls known is the value in every environment, and
what it leaves unset is unset in all of them.
-/

/-! ## Environments -/

/-- For each place of a dynamic rule and each element whether the rule applies there. -/
abbrev Environment := Nat → NodeId → Bool

/-- A rule about which it is decided that it applies. -/
def Rule.settled (r : Rule) : Rule :=
  { r with inMedia := false, hasPseudos := false }

/-- What an environment makes of a rule for one node. -/
def Environment.rule? (env : Environment) (node : NodeId) (p : Rule × Nat) :
    Option (Rule × Nat) :=
  if p.1.isDynamic then if env p.2 node then some (p.1.settled, p.2) else none else some p

namespace Styles

/-- The rules that an environment has for a node, at their old places. -/
def placedIn (s : Styles) (env : Environment) (node : NodeId) : List (Rule × Nat) :=
  (Derived.rules s.sheets).zipIdx.filterMap (env.rule? node)

/-- The rules that an environment has for a node, as one sheet. -/
def within (s : Styles) (env : Environment) (node : NodeId) : Styles :=
  ofSheets [⟨node, [{ RuleSet.ofMedia none with rules := (s.placedIn env node).map (·.1) }]⟩]

/-- The style of a node in an environment. -/
def styleIn (s : Styles) (env : Environment) (doc : Document) (node : NodeId) : ComputedStyle :=
  inherited (fun n => (s.within env n).ownStyle doc n) (node :: doc.elementAncestors node)

end Styles

/-! ## Candidates in an environment -/

section Candidates

variable {s : Styles} {env : Environment} {doc : Document} {node : NodeId} {e : Element}
  {name : String}

theorem Environment.rule?_eq_some {p q : Rule × Nat} (kept : env.rule? node p = some q) :
    q = p ∨ q = (p.1.settled, p.2) := by
  rw [rule?] at kept
  split at kept
  · split at kept
    · exact Or.inr (Option.some.inj kept).symm
    · cases kept
  · exact Or.inl (Option.some.inj kept).symm

theorem placement_placedIn :
    Placement (Derived.rules (s.within env node).sheets) (s.placedIn env node) := by
  constructor
  · simp only [Styles.within, Styles.ofSheets, Derived.rules, List.flatMap_cons, List.flatMap_nil,
      List.append_nil]
  · rw [Styles.placedIn, List.pairwise_filterMap]
    refine (placement_zipIdx (Derived.rules s.sheets)).ascending.imp ?_
    intro p q before p' pKept q' qKept
    have pPlace : p'.2 = p.2 := by
      rcases Environment.rule?_eq_some pKept with same | same <;> rw [same]
    have qPlace : q'.2 = q.2 := by
      rcases Environment.rule?_eq_some qKept with same | same <;> rw [same]
    rw [pPlace, qPlace]
    exact before

theorem distinct_placedIn (distinct : ∀ r ∈ Derived.rules s.sheets, r.declarations.Distinct) :
    ∀ r ∈ Derived.rules (s.within env node).sheets, r.declarations.Distinct := by
  intro r listed
  rw [← placement_placedIn.rules_eq] at listed
  obtain ⟨q, among, same⟩ := List.mem_map.mp listed
  obtain ⟨p, pListed, kept⟩ := List.mem_filterMap.mp among
  have pDistinct := distinct p.1 (List.fst_mem_of_mem_zipIdx pListed)
  rcases Environment.rule?_eq_some kept with kind | kind
  · rw [← same, kind]
    exact pDistinct
  · rw [← same, kind]
    exact pDistinct

/-- Every candidate in an environment is one without it, of the same weight. -/
theorem Candidate.Applies.outside {c : Candidate}
    (applies : c.Applies (s.placedIn env node) doc node e name) :
    ∃ outside : Candidate, outside.Applies (Derived.rules s.sheets).zipIdx doc node e name ∧
      outside.weight = c.weight := by
  cases c with
  | ofAttribute value => exact ⟨.ofAttribute value, applies, rfl⟩
  | ofStyle d => exact ⟨.ofStyle d, applies, rfl⟩
  | ofRule r place d =>
      obtain ⟨among, selected, declares⟩ := applies
      obtain ⟨p, listed, kept⟩ := List.mem_filterMap.mp among
      refine ⟨.ofRule p.1 p.2 d, ?_⟩
      rcases Environment.rule?_eq_some kept with same | same
      · rw [← same]
        exact ⟨⟨same ▸ listed, selected, declares⟩, rfl⟩
      · obtain ⟨ruleEq, placeEq⟩ := Prod.mk.inj same
        rw [ruleEq] at selected declares
        rw [ruleEq, placeEq]
        exact ⟨⟨listed, selected, declares⟩, rfl⟩

/-- A candidate that is not dynamic is there in every environment. -/
theorem Candidate.Applies.inside {c : Candidate}
    (applies : c.Applies (Derived.rules s.sheets).zipIdx doc node e name)
    (static : c.isDynamic e.name name = false) :
    c.Applies (s.placedIn env node) doc node e name := by
  cases c with
  | ofAttribute value => exact applies
  | ofStyle d => exact applies
  | ofRule r place d =>
      obtain ⟨among, selected, declares⟩ := applies
      refine ⟨List.mem_filterMap.mpr ⟨(r, place), among, ?_⟩, selected, declares⟩
      have settled : r.isDynamic = false :=
        (Bool.or_eq_false_iff.mp (Bool.or_eq_false_iff.mp static).2).1
      rw [Environment.rule?, settled]
      rfl

/-- The winner of the cascade wins in every environment, unless it is dynamic. -/
theorem Candidate.Wins.inside {c : Candidate}
    (wins : c.Wins (Derived.rules s.sheets).zipIdx doc node e name)
    (static : c.isDynamic e.name name = false) : c.Wins (s.placedIn env node) doc node e name := by
  refine ⟨wins.1.inside static, ?_⟩
  intro other applies
  obtain ⟨outside, outsideApplies, same⟩ := applies.outside
  rw [← same]
  exact wins.2 outside outsideApplies

end Candidates

/-! ## Styles that hold -/

/-- Whether all that a style says for certain holds in another one. -/
def ComputedStyle.HoldsIn (style actual : ComputedStyle) : Prop :=
  ∀ name, (∀ text, style.get? name = some (.known text) → actual.get? name = some (.known text)) ∧
    (style.get? name = none → actual.get? name = none)

theorem ComputedStyle.HoldsIn.inheritFrom {style actual parent actualParent : ComputedStyle}
    (own : style.HoldsIn actual) (distinct : style.Distinct) (actualDistinct : actual.Distinct)
    (outer : parent.HoldsIn actualParent) :
    (style.inheritFrom parent).HoldsIn (actual.inheritFrom actualParent) := by
  intro name
  rw [get?_inheritFrom distinct, get?_inheritFrom actualDistinct]
  obtain ⟨ownKnown, ownUnset⟩ := own name
  cases found : style.get? name with
  | none =>
      rw [ownUnset found]
      dsimp only
      split
      · exact outer name
      · exact ⟨fun _ impossible => absurd impossible.symm (Option.some_ne_none _), fun _ => rfl⟩
  | some v =>
      cases v with
      | dynamic =>
          refine ⟨?_, ?_⟩
          · intro text impossible
            cases Option.some.inj impossible
          · intro impossible
            cases impossible
      | known text =>
          rw [ownKnown text found]
          dsimp only
          split
          · exact outer name
          · exact ⟨fun _ same => same, fun impossible => absurd impossible (Option.some_ne_none _)⟩

namespace Styles

variable {s : Styles} {doc : Document}

theorem ownStyle_holdsIn (grown : doc.Grown Element.Typed)
    (distinct : ∀ r ∈ Derived.rules s.sheets, r.declarations.Distinct) (env : Environment)
    (node : NodeId) : (s.ownStyle doc node).HoldsIn ((s.within env node).ownStyle doc node) := by
  intro name
  cases found : doc.element? node with
  | none =>
      have unset (s : Styles) : s.ownStyle doc node = .empty := by
        rw [ownStyle, ownStyleWith, found]
      rw [unset, unset]
      exact ⟨fun _ impossible => absurd impossible.symm (Option.some_ne_none _), fun _ => rfl⟩
  | some e =>
      have typed := grown.element_fits found
      have placement : Placement _ (s.placedIn env node) := placement_placedIn
      obtain ⟨unset, values⟩ :=
        get?_ownStyle typed found distinct (placement_zipIdx (Derived.rules s.sheets)) name
      obtain ⟨actualUnset, actualValues⟩ :=
        get?_ownStyle typed found (distinct_placedIn distinct) placement name
      constructor
      · intro text known
        obtain ⟨c, wins, value⟩ := (values (.known text)).mp known
        have static : c.isDynamic e.name name = false := by
          rw [Candidate.value] at value
          split at value
          · cases value
          · next settled => exact Bool.eq_false_iff.mpr settled
        exact (actualValues (.known text)).mpr ⟨c, wins.inside static, value⟩
      · intro absent
        rw [actualUnset]
        intro c applies
        obtain ⟨outside, outsideApplies, -⟩ := applies.outside
        exact unset.mp absent outside outsideApplies

theorem inherited_holdsIn (grown : doc.Grown Element.Typed)
    (distinct : ∀ r ∈ Derived.rules s.sheets, r.declarations.Distinct) (env : Environment)
    (nodes : List NodeId) :
    (inherited (s.ownStyle doc) nodes).HoldsIn
      (inherited (fun n => (s.within env n).ownStyle doc n) nodes) := by
  induction nodes with
  | nil => exact fun _ => ⟨fun _ same => same, fun same => same⟩
  | cons node outer inductionHypothesis =>
      exact (ownStyle_holdsIn grown distinct env node).inheritFrom (s.distinct_ownStyle doc node)
        ((s.within env node).distinct_ownStyle doc node) inductionHypothesis

/-- Whatever questions were asked before: a property with a known value has this
value in every environment, and an unset property is unset in every environment. -/
theorem computedStyle_holds_in_every_environment {text : String} {title : Option String}
    (parsed : Document.read text title = .ok doc) (collected : ofDocument doc = .ok s)
    {memo : Memo} (built : Memo.Built s doc memo) (env : Environment) (node : NodeId)
    (name : String) :
    (∀ value, (s.computedStyle doc node memo).1.get? name = some (.known value) →
        (s.styleIn env doc node).get? name = some (.known value)) ∧
      ((s.computedStyle doc node memo).1.get? name = none →
        (s.styleIn env doc node).get? name = none) := by
  have grown := Document.grown_of_read parsed
  rw [(computedStyle_sound grown (built.sound grown) node).1]
  exact inherited_holdsIn grown (fun r listed => (wasRead_of_ofDocument collected r listed).distinct)
    env (node :: doc.elementAncestors node) name

/-- The inherited fill stays, wherever the pointer is. -/
theorem inherited_fill_holds :
    ∃ doc s,
      Document.read "<svg fill='red'><style>g:hover\x7bstroke:red\x7d</style><g/></svg>" none =
        .ok doc ∧
      ofDocument doc = .ok s ∧ Memo.Built s doc [] ∧
      (s.computedStyle doc ⟨4⟩ []).1.get? "fill" = some (.known "red") ∧
      (s.styleIn (fun _ _ => true) doc ⟨4⟩).get? "fill" = some (.known "red") := by
  have computed : ((Document.read
      "<svg fill='red'><style>g:hover\x7bstroke:red\x7d</style><g/></svg>"
      none).toOption.bind fun doc => (ofDocument doc).toOption.bind fun s =>
        (s.computedStyle doc ⟨4⟩ []).1.get? "fill") = some (.known "red") := by
    decide +kernel
  obtain ⟨doc, parsed, computed⟩ := Option.bind_eq_some_iff.mp computed
  obtain ⟨s, collected, computed⟩ := Option.bind_eq_some_iff.mp computed
  rw [toOption_eq_some] at parsed collected
  exact ⟨doc, s, parsed, collected, .empty, computed,
    (computedStyle_holds_in_every_environment parsed collected .empty _ ⟨4⟩ "fill").1 "red"
      computed⟩

end Styles

end Css
end SlimSvg
