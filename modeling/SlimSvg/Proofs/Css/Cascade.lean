import SlimSvg.Proofs.Css.Computed
import SlimSvg.Proofs.Css.Candidates
import SlimSvg.Proofs.Css.Sheets
import SlimSvg.Proofs.Tree.Reading

namespace SlimSvg
namespace Css

/-!
# The cascade chooses the heaviest candidate

Rules are applied by ascending specificity and write over each other; a set of
names keeps important declarations from being written over.  For one property
these steps replace one candidate by the next, and the candidates ascend, so the
last one that remains is the heaviest.
-/

/-! ## One property on its way through the cascade -/

/-- What a state of the cascade knows of one property is told by one candidate. -/
structure Tracks (element name : String) (state : CascadeState) (winner : Option Candidate) :
    Prop where
  get?_eq : state.style.get? name = winner.map (·.value element name)
  contains_eq : state.important.contains name = winner.any (·.important)

/-- The candidate of a rule. -/
def ruleCandidate? (name : String) (p : Rule × Nat) : Option Candidate :=
  (p.1.declarations.get? name).map (.ofRule p.1 p.2)

namespace Tracks

variable {element name : String} {state : CascadeState} {winner : Option Candidate}

theorem apply_of_ne (tracks : Tracks element name state winner)
    (valueOf : String → String → ComputedValue) {other : String} (d : Declaration)
    (different : name ≠ other) : Tracks element name (state.apply valueOf (other, d)) winner := by
  rw [CascadeState.apply]
  split
  · exact tracks
  · constructor
    · rw [ComputedStyle.get?_set_of_ne _ _ different]
      exact tracks.get?_eq
    · split
      · rw [List.contains_cons, beq_false_of_ne different, Bool.false_or]
        exact tracks.contains_eq
      · exact tracks.contains_eq

theorem apply_self (tracks : Tracks element name state winner) (r : Rule) (place : Nat)
    (d : Declaration) :
    Tracks element name (state.apply (Styles.ruleValue element r) (name, d))
      (Candidate.override winner (.ofRule r place d)) := by
  have kept : (!d.important && state.important.contains name) =
      (!d.important && winner.any (·.important)) := by rw [tracks.contains_eq]
  rw [CascadeState.apply, Candidate.override]
  change Tracks element name (if !d.important && state.important.contains name then _ else _)
    (if !d.important && winner.any (·.important) then _ else _)
  rw [kept]
  split
  · exact tracks
  · next replaced =>
    constructor
    · rw [ComputedStyle.get?_set_self, Option.map_some, Candidate.value_ofRule]
    · cases important : d.important with
      | true =>
          rw [if_pos rfl, List.contains_cons, beq_self_eq_true, Bool.true_or]
          exact important.symm
      | false =>
          rw [important, Bool.not_false, Bool.true_and] at replaced
          rw [if_neg Bool.false_ne_true, tracks.contains_eq, Option.any_some]
          exact (Bool.eq_false_iff.mpr replaced).trans important.symm

/-- A rule counts for a property by its one declaration of it. -/
theorem foldl_items (tracks : Tracks element name state winner) (r : Rule) (place : Nat)
    (items : List (String × Declaration)) (distinct : (items.map (·.1)).Nodup) :
    Tracks element name (items.foldl (CascadeState.apply (Styles.ruleValue element r)) state)
      (((items.lookup name).map (Candidate.ofRule r place)).toList.foldl Candidate.override
        winner) := by
  induction items generalizing state winner with
  | nil => exact tracks
  | cons item rest inductionHypothesis =>
      obtain ⟨other, d⟩ := item
      obtain ⟨absent, distinctRest⟩ := List.nodup_cons.mp distinct
      rw [List.foldl_cons]
      by_cases same : name = other
      · subst same
        have later := inductionHypothesis (tracks.apply_self r place d) distinctRest
        rw [lookup_eq_none_of_notMem absent] at later
        rw [List.lookup_cons_self]
        exact later
      · rw [lookup_cons_of_ne same]
        exact inductionHypothesis (tracks.apply_of_ne _ d same) distinctRest

theorem foldl_rules (tracks : Tracks element name state winner) (placed : List (Rule × Nat))
    (distinct : ∀ p ∈ placed, p.1.declarations.Distinct) :
    Tracks element name
      ((placed.map (·.1)).foldl
        (fun state r =>
          r.declarations.items.foldl (CascadeState.apply (Styles.ruleValue element r)) state)
        state)
      ((placed.filterMap (ruleCandidate? name)).foldl Candidate.override winner) := by
  induction placed generalizing state winner with
  | nil => exact tracks
  | cons p rest inductionHypothesis =>
      have here := tracks.foldl_items p.1 p.2 p.1.declarations.items
        (distinct p List.mem_cons_self)
      have later := inductionHypothesis here fun q listed => distinct q (List.mem_cons_of_mem p listed)
      rw [← List.foldl_append] at later
      rw [List.map_cons, List.foldl_cons, List.filterMap_cons, ruleCandidate?,
        Declarations.get?]
      cases declared : p.1.declarations.items.lookup name with
      | none => rw [declared] at later; exact later
      | some d => rw [declared] at later; exact later

end Tracks

/-- The cascade from a style beside the cascade from nothing: a property that the rules leave
unset stays what it was at the start. -/
structure Beside (name : String) (start : Option ComputedValue) (bare state : CascadeState) : Prop where
  important_eq : state.important = bare.important
  get?_eq : bare.style.get? name = none → state.style.get? name = start

namespace Beside

variable {name : String} {start : Option ComputedValue} {bare state : CascadeState}

theorem apply (beside : Beside name start bare state) (valueOf : String → String → ComputedValue)
    (item : String × Declaration) : Beside name start (bare.apply valueOf item) (state.apply valueOf item) := by
  obtain ⟨other, d⟩ := item
  rw [CascadeState.apply, CascadeState.apply, beside.important_eq]
  split
  · exact beside
  · refine ⟨rfl, ?_⟩
    by_cases same : name = other
    · subst same
      rw [ComputedStyle.get?_set_self]
      exact nofun
    · rw [ComputedStyle.get?_set_of_ne _ _ same, ComputedStyle.get?_set_of_ne _ _ same]
      exact beside.get?_eq

theorem foldl_rules (beside : Beside name start bare state) (element : String) (rules : List Rule) :
    Beside name start
      (rules.foldl (fun state r => r.declarations.items.foldl (CascadeState.apply (Styles.ruleValue element r)) state)
        bare)
      (rules.foldl (fun state r => r.declarations.items.foldl (CascadeState.apply (Styles.ruleValue element r)) state)
        state) := by
  refine List.foldl_rel beside fun r _ bare state beside => ?_
  exact List.foldl_rel beside fun item _ bare state beside => beside.apply _ item

end Beside

/-- A property that no rule sets for a node is what it was before the rules. -/
theorem Styles.get?_applyRules_of_unset {s : Styles} {doc : Document} {node : NodeId} {name : String}
    (unset : (s.ruleStyle doc node).get? name = none) (start : ComputedStyle) :
    (s.applyRules doc node start).style.get? name = start.get? name := by
  rw [ruleStyle, applyRules] at unset
  rw [applyRules]
  cases found : doc.element? node with
  | none => rfl
  | some e =>
      rw [found] at unset
      have begun : Beside name (start.get? name) ⟨.empty, []⟩ ⟨start, []⟩ := ⟨rfl, fun _ => rfl⟩
      exact (begun.foldl_rules e.name (s.matchingRules doc node)).get?_eq unset

/-! ## Attributes and style attributes -/

/-- Whether an attribute is a property of its element too. -/
def countsAsProperty (e : Element) (name : String) : Bool :=
  Vocabulary.isPresentation name || Vocabulary.isGeometry e.name name

/-- The candidate of an attribute. -/
def attributeCandidate? (e : Element) (name : String) : Option Candidate :=
  if countsAsProperty e name then (e.attribute? name).map .ofAttribute else none

/-- The candidate of a style attribute. -/
def styleCandidate? (e : Element) (name : String) : Option Candidate :=
  (((e.attribute? "style").bind (·.declarations?)).bind (·.get? name)).map .ofStyle

theorem get?_foldl_attributes (e : Element) (name : String) (items : List Attribute)
    (style : ComputedStyle) (distinct : (items.map (·.name)).Nodup) :
    (items.foldl (fun style a =>
        if countsAsProperty e a.name then style.set a.name (.ofText a.value.text) else style)
      style).get? name =
      (if countsAsProperty e name then
          (items.find? (·.name == name)).map fun a => .ofText a.value.text
        else none).or (style.get? name) := by
  induction items generalizing style with
  | nil => rw [List.find?_nil, Option.map_none, ite_self]; rfl
  | cons a rest inductionHypothesis =>
      obtain ⟨absent, distinctRest⟩ := List.nodup_cons.mp distinct
      rw [List.foldl_cons, inductionHypothesis _ distinctRest]
      by_cases same : a.name = name
      · have nothing : rest.find? (·.name == name) = none := by
          rw [List.find?_eq_none]
          intro other listed equal
          exact absent (List.mem_map.mpr ⟨other, listed, (eq_of_beq equal).trans same.symm⟩)
        rw [nothing, List.find?_cons, same, beq_self_eq_true]
        cases countsAsProperty e name with
        | false => rfl
        | true => exact ComputedStyle.get?_set_self style name _
      · have unchanged : (if countsAsProperty e a.name then
            style.set a.name (.ofText a.value.text) else style).get? name = style.get? name := by
          split
          · exact ComputedStyle.get?_set_of_ne style _ (Ne.symm same)
          · rfl
        rw [unchanged, List.find?_cons, beq_false_of_ne same]

theorem get?_attributeStyle {e : Element} (distinct : (e.attributes.items.map (·.name)).Nodup) (name : String) :
    (Styles.attributeStyle e).get? name =
      (attributeCandidate? e name).map (·.value e.name name) := by
  have folded := get?_foldl_attributes e name e.attributes.items .empty distinct
  rw [Styles.attributeStyle, attributeCandidate?, Element.attribute?, Attributes.get?]
  refine folded.trans ?_
  cases countsAsProperty e name with
  | false => rfl
  | true =>
      cases e.attributes.items.find? (·.name == name) with
      | none => rfl
      | some a => exact congrArg some (Candidate.value_ofAttribute a.value).symm

theorem get?_foldl_inline (important : List String) (name : String)
    (items : List (String × Declaration)) (style : ComputedStyle)
    (distinct : (items.map (·.1)).Nodup) :
    (items.foldl (fun style (n, d) =>
        if !d.important && important.contains n then style else style.set n (.ofText d.value))
      style).get? name =
      match items.lookup name with
      | some d =>
        if !d.important && important.contains name then style.get? name
        else some (.ofText d.value)
      | none => style.get? name := by
  induction items generalizing style with
  | nil => rfl
  | cons item rest inductionHypothesis =>
      obtain ⟨n, d⟩ := item
      obtain ⟨absent, distinctRest⟩ := List.nodup_cons.mp distinct
      rw [List.foldl_cons, inductionHypothesis _ distinctRest]
      by_cases same : name = n
      · subst same
        rw [lookup_eq_none_of_notMem absent, List.lookup_cons_self]
        dsimp only
        split
        · rfl
        · exact ComputedStyle.get?_set_self style name _
      · have unchanged : (if !d.important && important.contains n then style
            else style.set n (.ofText d.value)).get? name = style.get? name := by
          split
          · rfl
          · exact ComputedStyle.get?_set_of_ne style _ same
        rw [lookup_cons_of_ne same]
        dsimp only
        rw [unchanged]

theorem get?_applyInline {element name : String} {state : CascadeState} {winner : Option Candidate}
    (tracks : Tracks element name state winner) {block : Declarations} (distinct : block.Distinct) :
    (Styles.applyInline state block).get? name =
      (((block.get? name).map Candidate.ofStyle).toList.foldl Candidate.override winner).map
        (·.value element name) := by
  have folded := get?_foldl_inline state.important name block.items state.style distinct
  rw [Styles.applyInline, Declarations.get?]
  refine folded.trans ?_
  cases block.items.lookup name with
  | none => exact tracks.get?_eq
  | some d =>
      change (if !d.important && state.important.contains name then state.style.get? name
        else some (.ofText d.value)) = (Candidate.override winner (.ofStyle d)).map _
      rw [Candidate.override, tracks.contains_eq, tracks.get?_eq]
      change _ = (if !d.important && winner.any (·.important) then winner else _).map _
      split
      · rfl
      · exact congrArg some (Candidate.value_ofStyle d).symm

/-! ## The heaviest candidate -/

/-- Whether a candidate stands for a property of an element, given all rules with
their places. -/
def Candidate.Applies (placed : List (Rule × Nat)) (doc : Document) (node : NodeId) (e : Element)
    (name : String) : Candidate → Prop
  | ofAttribute value => countsAsProperty e name = true ∧ e.attribute? name = some value
  | ofRule r place d =>
    (r, place) ∈ placed ∧ r.selector.selects doc node = true ∧
      r.declarations.get? name = some d
  | ofStyle d =>
    ∃ value block, e.attribute? "style" = some value ∧ value.declarations? = some block ∧
      block.get? name = some d

/-- Whether a candidate applies and no other one weighs more. -/
def Candidate.Wins (placed : List (Rule × Nat)) (doc : Document) (node : NodeId) (e : Element)
    (name : String) (c : Candidate) : Prop :=
  c.Applies placed doc node e name ∧
    ∀ other : Candidate, other.Applies placed doc node e name → other.weight ≤ c.weight

/-- The candidates in the order in which the cascade takes them. -/
def candidateLine (sorted : List (Rule × Nat)) (doc : Document) (node : NodeId) (e : Element)
    (name : String) : List Candidate :=
  (attributeCandidate? e name).toList ++
    (sorted.filter fun p => p.1.selector.selects doc node).filterMap (ruleCandidate? name) ++
    (styleCandidate? e name).toList

section Line

variable {placed sorted : List (Rule × Nat)} {doc : Document} {node : NodeId} {e : Element}
  {name : String}

theorem attributeCandidate?_eq_some {c : Candidate} :
    attributeCandidate? e name = some c ↔
      ∃ value, c = .ofAttribute value ∧ countsAsProperty e name = true ∧
        e.attribute? name = some value := by
  rw [attributeCandidate?]
  split
  · next counts =>
    rw [Option.map_eq_some_iff]
    constructor
    · rintro ⟨value, found, same⟩
      exact ⟨value, same.symm, counts, found⟩
    · rintro ⟨value, same, -, found⟩
      exact ⟨value, found, same.symm⟩
  · next other =>
    constructor
    · intro impossible
      cases impossible
    · rintro ⟨-, -, counts, -⟩
      exact absurd counts other

theorem styleCandidate?_eq_some {c : Candidate} :
    styleCandidate? e name = some c ↔
      ∃ d, c = .ofStyle d ∧ ∃ value block, e.attribute? "style" = some value ∧
        value.declarations? = some block ∧ block.get? name = some d := by
  rw [styleCandidate?, Option.map_eq_some_iff]
  constructor
  · rintro ⟨d, found, same⟩
    obtain ⟨block, read, declared⟩ := Option.bind_eq_some_iff.mp found
    obtain ⟨value, present, typed⟩ := Option.bind_eq_some_iff.mp read
    exact ⟨d, same.symm, value, block, present, typed, declared⟩
  · rintro ⟨d, same, value, block, present, typed, declared⟩
    exact ⟨d, Option.bind_eq_some_iff.mpr
      ⟨block, Option.bind_eq_some_iff.mpr ⟨value, present, typed⟩, declared⟩, same.symm⟩

theorem ruleCandidate?_eq_some {p : Rule × Nat} {c : Candidate} :
    ruleCandidate? name p = some c ↔
      ∃ d, c = .ofRule p.1 p.2 d ∧ p.1.declarations.get? name = some d := by
  rw [ruleCandidate?, Option.map_eq_some_iff]
  constructor
  · rintro ⟨d, declared, same⟩
    exact ⟨d, same.symm, declared⟩
  · rintro ⟨d, same, declared⟩
    exact ⟨d, declared, same.symm⟩

theorem mem_candidateLine (permuted : sorted.Perm placed) (c : Candidate) :
    c ∈ candidateLine sorted doc node e name ↔ c.Applies placed doc node e name := by
  rw [candidateLine, List.mem_append, List.mem_append, Option.mem_toList, Option.mem_toList,
    List.mem_filterMap, attributeCandidate?_eq_some, styleCandidate?_eq_some]
  constructor
  · rintro ((⟨value, same, counts, found⟩ | ⟨p, listed, declared⟩) | ⟨d, same, inStyle⟩)
    · rw [same]
      exact ⟨counts, found⟩
    · obtain ⟨d, same, declares⟩ := ruleCandidate?_eq_some.mp declared
      obtain ⟨among, selected⟩ := List.mem_filter.mp listed
      rw [same]
      exact ⟨permuted.mem_iff.mp among, selected, declares⟩
    · rw [same]
      exact inStyle
  · intro applies
    cases c with
    | ofAttribute value => exact Or.inl (Or.inl ⟨value, rfl, applies⟩)
    | ofRule r place d =>
        obtain ⟨among, selected, declares⟩ := applies
        exact Or.inl (Or.inr ⟨(r, place),
          List.mem_filter.mpr ⟨permuted.mem_iff.mpr among, selected⟩,
          ruleCandidate?_eq_some.mpr ⟨d, rfl, declares⟩⟩)
    | ofStyle d => exact Or.inr ⟨d, rfl, applies⟩

theorem pairwise_toList {α : Type} (R : α → α → Prop) (o : Option α) : o.toList.Pairwise R := by
  cases o with
  | none => exact .nil
  | some a => exact List.pairwise_singleton R a

theorem ascending_candidateLine
    (ascending : sorted.Pairwise fun p q => p.1.rank p.2 ≤ q.1.rank q.2) :
    (candidateLine sorted doc node e name).Pairwise fun a b => a.rank ≤ b.rank := by
  have rulesAscend : ((sorted.filter fun p => p.1.selector.selects doc node).filterMap
      (ruleCandidate? name)).Pairwise fun a b => a.rank ≤ b.rank := by
    rw [List.pairwise_filterMap]
    refine (ascending.filter _).imp ?_
    intro p q le a aMade b bMade
    obtain ⟨d, aEq, -⟩ := ruleCandidate?_eq_some.mp aMade
    obtain ⟨d', bEq, -⟩ := ruleCandidate?_eq_some.mp bMade
    rw [aEq, bEq]
    exact Candidate.cons_le_cons_iff.mpr (Or.inr ⟨rfl, le⟩)
  have attributeBelow : ∀ a ∈ (attributeCandidate? e name).toList, ∀ n rest,
      a.rank ≤ (n + 1) :: rest := by
    intro a listed n rest
    obtain ⟨value, same, -⟩ := attributeCandidate?_eq_some.mp (Option.mem_toList.mp listed)
    rw [same]
    exact Candidate.cons_le_cons_iff.mpr (Or.inl n.succ_pos)
  rw [candidateLine, List.pairwise_append, List.pairwise_append]
  refine ⟨⟨pairwise_toList _ _, rulesAscend, ?_⟩, pairwise_toList _ _, ?_⟩
  · intro a aListed b bListed
    obtain ⟨p, -, made⟩ := List.mem_filterMap.mp bListed
    obtain ⟨d, same, -⟩ := ruleCandidate?_eq_some.mp made
    rw [same]
    exact attributeBelow a aListed 0 _
  · intro a aListed b bListed
    obtain ⟨d, same, -⟩ := styleCandidate?_eq_some.mp (Option.mem_toList.mp bListed)
    rw [same]
    rcases List.mem_append.mp aListed with inAttribute | inRules
    · exact attributeBelow a inAttribute 1 []
    · obtain ⟨p, -, made⟩ := List.mem_filterMap.mp inRules
      obtain ⟨d', rule, -⟩ := ruleCandidate?_eq_some.mp made
      rw [rule]
      exact Candidate.cons_le_cons_iff.mpr (Or.inl Nat.one_lt_two)

/-- Candidates of equal weight are equal, since places belong to one rule each. -/
theorem Candidate.eq_of_weight_eq {rules : List Rule} (placement : Placement rules placed)
    {a b : Candidate} (aApplies : a.Applies placed doc node e name)
    (bApplies : b.Applies placed doc node e name) (same : a.weight = b.weight) : a = b := by
  have ranks : a.rank = b.rank := (List.cons.inj same).2
  cases a with
  | ofAttribute value =>
      cases b with
      | ofAttribute other => rw [Option.some.inj (aApplies.2.symm.trans bApplies.2)]
      | ofRule r place d => cases (List.cons.inj ranks).1
      | ofStyle d => cases (List.cons.inj ranks).1
  | ofRule r place d =>
      cases b with
      | ofAttribute other => cases (List.cons.inj ranks).1
      | ofRule r' place' d' =>
          have places : place = place' := by
            simp only [rank, Rule.rank, List.cons.injEq] at ranks
            exact ranks.2.2.2.2.1
          obtain ⟨rules, -⟩ := Prod.mk.inj (placement.eq_of_place_eq aApplies.1 bApplies.1 places)
          subst places rules
          rw [Option.some.inj (aApplies.2.2.symm.trans bApplies.2.2)]
      | ofStyle d => cases (List.cons.inj ranks).1
  | ofStyle d =>
      cases b with
      | ofAttribute other => cases (List.cons.inj ranks).1
      | ofRule r place d => cases (List.cons.inj ranks).1
      | ofStyle d' =>
          obtain ⟨value, block, found, read, declares⟩ := aApplies
          obtain ⟨value', block', found', read', declares'⟩ := bApplies
          rw [found, Option.some.injEq] at found'
          rw [← found', read, Option.some.injEq] at read'
          rw [← read', declares, Option.some.injEq] at declares'
          rw [declares']

theorem Candidate.Wins.unique {rules : List Rule} (placement : Placement rules placed)
    {a b : Candidate} (aWins : a.Wins placed doc node e name)
    (bWins : b.Wins placed doc node e name) : a = b :=
  eq_of_weight_eq placement aWins.1 bWins.1
    (le_antisymm (bWins.2 a aWins.1) (aWins.2 b bWins.1))

end Line

/-! ## What the cascade computes -/

namespace Styles

variable {s : Styles} {placed sorted : List (Rule × Nat)} {doc : Document} {node : NodeId}
  {e : Element}

theorem map_fst_selecting (sortedEq : sorted.map (·.1) = s.derived.sorted) :
    (sorted.filter fun p => p.1.selector.selects doc node).map (·.1) = s.matchingRules doc node := by
  rw [matchingRules, ← sortedEq, List.filter_map]
  rfl

theorem get?_ruleStyle_eq_last (found : doc.element? node = some e)
    (distinct : ∀ p ∈ sorted, p.1.declarations.Distinct)
    (sortedEq : sorted.map (·.1) = s.derived.sorted) (name : String) :
    (s.ruleStyle doc node).get? name =
      (Candidate.last ((sorted.filter fun p => p.1.selector.selects doc node).filterMap
        (ruleCandidate? name))).map (·.value e.name name) := by
  have start : Tracks e.name name ⟨.empty, []⟩ none := ⟨rfl, rfl⟩
  have ruled := start.foldl_rules (sorted.filter fun p => p.1.selector.selects doc node)
    fun p listed => distinct p (List.mem_filter.mp listed).1
  rw [map_fst_selecting sortedEq] at ruled
  rw [ruleStyle, applyRules, found]
  exact ruled.get?_eq

theorem get?_ownStyle_eq_last (typed : e.Typed) (found : doc.element? node = some e)
    (distinct : ∀ p ∈ sorted, p.1.declarations.Distinct)
    (sortedEq : sorted.map (·.1) = s.derived.sorted) (name : String) :
    (s.ownStyle doc node).get? name =
      (Candidate.last (candidateLine sorted doc node e name)).map (·.value e.name name) := by
  have start : Tracks e.name name ⟨attributeStyle e, []⟩
      ((attributeCandidate? e name).toList.foldl Candidate.override none) := by
    rw [Candidate.foldl_override_toList]
    refine ⟨get?_attributeStyle typed.nodup_names name, ?_⟩
    cases first : attributeCandidate? e name with
    | none => rfl
    | some c =>
        obtain ⟨value, same, -⟩ := attributeCandidate?_eq_some.mp first
        rw [same]
        rfl
  have ruled := start.foldl_rules (sorted.filter fun p => p.1.selector.selects doc node)
    fun p listed => distinct p (List.mem_filter.mp listed).1
  rw [map_fst_selecting sortedEq] at ruled
  rw [Candidate.last, candidateLine, List.foldl_append, List.foldl_append, ownStyle, ownStyleWith,
    found, styleCandidate?]
  dsimp only [Option.bind_some]
  rw [applyRules, found]
  cases inline : (e.attribute? "style").bind (·.declarations?) with
  | none => exact ruled.get?_eq
  | some block =>
      obtain ⟨v, present, declared⟩ := Option.bind_eq_some_iff.mp inline
      exact get?_applyInline ruled (typed.distinct_of_style present declared)

/-- The candidates of the rules that select a node, in the order in which the cascade takes
them. -/
def ruleCandidates (s : Styles) (doc : Document) (node : NodeId) (name : String) : List Candidate :=
  (s.derived.sorted.zipIdx.filter fun p => p.1.selector.selects doc node).filterMap (ruleCandidate? name)

theorem mem_rules_of_mem_zipIdx {p : Rule × Nat} (listed : p ∈ s.derived.sorted.zipIdx) :
    p.1 ∈ Derived.rules s.sheets := by
  have sortedEq : s.derived.sorted.zipIdx.map (·.1) = s.derived.sorted := List.zipIdx_map_fst 0 _
  have inSorted : p.1 ∈ s.derived.sorted := sortedEq ▸ List.mem_map_of_mem listed
  rw [s.derived_eq] at inSorted
  exact List.mem_mergeSort.mp inSorted

/-- Rules that select the same bring the same candidates. -/
theorem ruleCandidates_congr {other : Document}
    (selectsEq : ∀ r ∈ Derived.rules s.sheets, r.selector.selects other node = r.selector.selects doc node)
    (name : String) : s.ruleCandidates other node name = s.ruleCandidates doc node name := by
  rw [ruleCandidates, ruleCandidates,
    List.filter_congr fun p listed => selectsEq p.1 (mem_rules_of_mem_zipIdx listed)]

theorem get?_ruleStyle_eq (distinct : ∀ r ∈ Derived.rules s.sheets, r.declarations.Distinct)
    (found : doc.element? node = some e) (name : String) :
    (s.ruleStyle doc node).get? name =
      (Candidate.last (s.ruleCandidates doc node name)).map (·.value e.name name) :=
  get?_ruleStyle_eq_last found (fun p listed => distinct p.1 (mem_rules_of_mem_zipIdx listed))
    (List.zipIdx_map_fst 0 _) name

theorem get?_ownStyle_eq (distinct : ∀ r ∈ Derived.rules s.sheets, r.declarations.Distinct) (typed : e.Typed)
    (found : doc.element? node = some e) (name : String) :
    (s.ownStyle doc node).get? name =
      (Candidate.last ((attributeCandidate? e name).toList ++ s.ruleCandidates doc node name ++
        (styleCandidate? e name).toList)).map (·.value e.name name) :=
  get?_ownStyle_eq_last typed found (fun p listed => distinct p.1 (mem_rules_of_mem_zipIdx listed))
    (List.zipIdx_map_fst 0 _) name

/-- An element of the same name that rules select as before sets a property as before, if it
has kept its attribute for it and its style attribute. -/
theorem get?_ownStyle_congr {other : Document} {new : Element} {name : String}
    (distinct : ∀ r ∈ Derived.rules s.sheets, r.declarations.Distinct) (typed : e.Typed) (newTyped : new.Typed)
    (found : doc.element? node = some e) (now : other.element? node = some new) (nameEq : new.name = e.name)
    (attributeEq : new.attribute? name = e.attribute? name)
    (styleEq : new.attribute? "style" = e.attribute? "style")
    (selectsEq : ∀ r ∈ Derived.rules s.sheets, r.selector.selects other node = r.selector.selects doc node) :
    (s.ownStyle other node).get? name = (s.ownStyle doc node).get? name := by
  have sameAttribute : attributeCandidate? new name = attributeCandidate? e name := by
    rw [attributeCandidate?, attributeCandidate?, countsAsProperty, countsAsProperty, nameEq, attributeEq]
  have sameStyle : styleCandidate? new name = styleCandidate? e name := by
    rw [styleCandidate?, styleCandidate?, styleEq]
  rw [get?_ownStyle_eq distinct typed found, get?_ownStyle_eq distinct newTyped now, sameAttribute, sameStyle,
    ruleCandidates_congr selectsEq, nameEq]

/-- The cascade leaves a property unset if there is no candidate for it, and gives it
the value of the heaviest one otherwise. -/
theorem get?_ownStyle (typed : e.Typed) (found : doc.element? node = some e)
    (distinct : ∀ r ∈ Derived.rules s.sheets, r.declarations.Distinct)
    (placement : Placement (Derived.rules s.sheets) placed) (name : String) :
    ((s.ownStyle doc node).get? name = none ↔
        ∀ c : Candidate, ¬ c.Applies placed doc node e name) ∧
      ∀ v, (s.ownStyle doc node).get? name = some v ↔
        ∃ c : Candidate, c.Wins placed doc node e name ∧ c.value e.name name = v := by
  obtain ⟨sorted, permuted, sortedEq, ascending⟩ := placement.exists_sorted
  have derivedSorted : sorted.map (·.1) = s.derived.sorted := by
    rw [sortedEq, s.derived_eq]
    rfl
  have sortedDistinct : ∀ p ∈ sorted, p.1.declarations.Distinct := by
    intro p listed
    apply distinct
    rw [← placement.rules_eq]
    exact List.mem_map_of_mem (permuted.mem_iff.mp listed)
  have heaviest : Candidate.Heaviest (candidateLine sorted doc node e name) _ :=
    Candidate.heaviest_last (ascending_candidateLine ascending)
  rw [get?_ownStyle_eq_last typed found sortedDistinct derivedSorted]
  cases line : Candidate.last (candidateLine sorted doc node e name) with
  | none =>
      rw [line] at heaviest
      have nothing : ∀ c : Candidate, ¬ c.Applies placed doc node e name := by
        intro c applies
        rw [← mem_candidateLine permuted, show candidateLine sorted doc node e name = [] from
          heaviest] at applies
        cases applies
      refine ⟨⟨fun _ => nothing, fun _ => rfl⟩, ?_⟩
      intro v
      constructor
      · intro impossible
        cases impossible
      · rintro ⟨c, wins, -⟩
        exact absurd wins.1 (nothing c)
  | some winner =>
      rw [line] at heaviest
      obtain ⟨listed, most⟩ := heaviest
      have wins : winner.Wins placed doc node e name :=
        ⟨(mem_candidateLine permuted winner).mp listed,
          fun other applies => most other ((mem_candidateLine permuted other).mpr applies)⟩
      rw [Option.map_some]
      refine ⟨⟨fun impossible => absurd impossible (Option.some_ne_none _),
        fun nothing => absurd wins.1 (nothing winner)⟩, ?_⟩
      intro v
      rw [Option.some.injEq]
      constructor
      · exact fun same => ⟨winner, wins, same⟩
      · rintro ⟨c, cWins, same⟩
        rw [wins.unique placement cWins]
        exact same

/-- The cascade sets every property once. -/
theorem distinct_ownStyle (s : Styles) (doc : Document) (node : NodeId) :
    (s.ownStyle doc node).Distinct := by
  have attributes (e : Element) : (attributeStyle e).Distinct := by
    refine List.foldlRecOn e.attributes.items _ ComputedStyle.distinct_empty ?_
    intro style distinct a _
    split
    · exact distinct.set _ _
    · exact distinct
  have rules (start : ComputedStyle) (distinct : start.Distinct) :
      (s.applyRules doc node start).style.Distinct := by
    rw [applyRules]
    split
    · exact distinct
    · refine List.foldlRecOn (motive := fun state : CascadeState => state.style.Distinct) _ _ distinct ?_
      intro state distinct r _
      refine List.foldlRecOn (motive := fun state : CascadeState => state.style.Distinct) _ _ distinct ?_
      intro state distinct item _
      rw [CascadeState.apply]
      split
      · exact distinct
      · exact distinct.set _ _
  have inline (state : CascadeState) (block : Declarations) (distinct : state.style.Distinct) :
      (applyInline state block).Distinct := by
    refine List.foldlRecOn block.items _ distinct ?_
    intro style distinct item _
    dsimp only
    split
    · exact distinct
    · exact distinct.set _ _
  rw [ownStyle, ownStyleWith]
  split
  · exact ComputedStyle.distinct_empty
  · next e _ =>
    dsimp only
    split
    · exact inline _ _ (rules _ (attributes e))
    · exact rules _ (attributes e)

/-- In a document that was read, every property of an element has the value of its
heaviest candidate, and a property without a candidate is unset. -/
theorem get?_ownStyle_of_read {text : String} {title : Option String}
    (parsed : Document.read text title = .ok doc) (collected : ofDocument doc = .ok s)
    (found : doc.element? node = some e) (name : String) :
    ((s.ownStyle doc node).get? name = none ↔
        ∀ c : Candidate, ¬ c.Applies (Derived.rules s.sheets).zipIdx doc node e name) ∧
      ∀ v, (s.ownStyle doc node).get? name = some v ↔
        ∃ c : Candidate, c.Wins (Derived.rules s.sheets).zipIdx doc node e name ∧
          c.value e.name name = v :=
  get?_ownStyle ((Document.grown_of_read parsed).element_fits found) found
    (fun r listed => (wasRead_of_ofDocument collected r listed).distinct)
    (placement_zipIdx _) name

/-- An important declaration of a rule wins over a style attribute, which wins over
an attribute. -/
theorem important_rule_wins :
    ∃ doc s e c,
      Document.read "<svg><style>*\x7bfill:red!important\x7d</style><g fill='a' style='fill:b'/></svg>"
        none = .ok doc ∧
      ofDocument doc = .ok s ∧ doc.element? ⟨4⟩ = some e ∧
      Candidate.Wins (Derived.rules s.sheets).zipIdx doc ⟨4⟩ e "fill" c ∧
      c.value e.name "fill" = .known "red" := by
  have computed : ((Document.read
      "<svg><style>*\x7bfill:red!important\x7d</style><g fill='a' style='fill:b'/></svg>"
      none).toOption.bind fun doc =>
        (ofDocument doc).toOption.bind fun s => (doc.element? ⟨4⟩).bind fun _ =>
          (s.ownStyle doc ⟨4⟩).get? "fill") = some (.known "red") := by
    decide +kernel
  obtain ⟨doc, parsed, computed⟩ := Option.bind_eq_some_iff.mp computed
  obtain ⟨s, collected, computed⟩ := Option.bind_eq_some_iff.mp computed
  obtain ⟨e, found, computed⟩ := Option.bind_eq_some_iff.mp computed
  rw [toOption_eq_some] at parsed collected
  obtain ⟨c, wins, value⟩ :=
    ((get?_ownStyle_of_read parsed collected found "fill").2 (.known "red")).mp computed
  exact ⟨doc, s, e, c, parsed, collected, found, wins, value⟩

end Styles

end Css
end SlimSvg
