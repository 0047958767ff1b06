import Mathlib.Data.List.Induction
import Mathlib.Data.List.Lex
import SlimSvg.Css.Cascade

namespace SlimSvg
namespace Css

/-!
# Candidates for the value of a property

An attribute, a declaration in a rule and a declaration in a style attribute can
each give a property of an element its value.  The one of greatest weight does:
importance weighs most, then where the declaration stands, then the specificity
of its rule, and last the place of the rule among all rules.
-/

/-- What counts between declarations in rules: the specificity, then the place. -/
def Rule.rank (r : Rule) (place : Nat) : List Nat :=
  [r.specificity.ids, r.specificity.classes, r.specificity.types, place]

/-- What can give a property its value.  A rule comes with its place. -/
inductive Candidate where
  | ofAttribute (value : AttributeValue)
  | ofRule (r : Rule) (place : Nat) (d : Declaration)
  | ofStyle (d : Declaration)

namespace Candidate

/-! ## Weights and values -/

def text : Candidate → String
  | ofAttribute value => value.text
  | ofRule _ _ d | ofStyle d => d.value

/-- Attributes are never important. -/
def important : Candidate → Bool
  | ofAttribute _ => false
  | ofRule _ _ d | ofStyle d => d.important

/-- What counts between candidates of equal importance. -/
def rank : Candidate → List Nat
  | ofAttribute _ => [0]
  | ofRule r place _ => 1 :: r.rank place
  | ofStyle _ => [2]

/-- Weights are compared from the left to the right. -/
def weight (c : Candidate) : List Nat :=
  c.important.toNat :: c.rank

/-- Whether the value of a candidate depends on more than the document.  Rules for
geometry properties count as such, and so does every use of a variable. -/
def isDynamic (element name : String) (c : Candidate) : Bool :=
  Text.contains c.text "var(" ||
    match c with
    | ofRule r _ _ => r.inMedia || r.hasPseudos || Vocabulary.isGeometry element name
    | _ => false

/-- The value that a candidate gives a property of an element. -/
def value (element name : String) (c : Candidate) : ComputedValue :=
  if c.isDynamic element name then .dynamic else .known (Text.trim c.text)

variable {element name : String} {c : Candidate}

theorem value_ofAttribute (v : AttributeValue) :
    (ofAttribute v).value element name = .ofText v.text := by
  change (if Text.contains v.text "var(" || false then _ else _) = _
  rw [Bool.or_false]
  rfl

theorem value_ofStyle (d : Declaration) : (ofStyle d).value element name = .ofText d.value := by
  change (if Text.contains d.value "var(" || false then _ else _) = _
  rw [Bool.or_false]
  rfl

theorem value_ofRule (r : Rule) (place : Nat) (d : Declaration) :
    (ofRule r place d).value element name = Styles.ruleValue element r name d.value := by
  rw [value, isDynamic, Styles.ruleValue, Rule.isDynamic, Bool.or_comm]
  cases r.inMedia || r.hasPseudos || Vocabulary.isGeometry element name <;> rfl

/-! ## Replacing one candidate by the next -/

/-- A newer candidate replaces an older one, unless the older one alone is important. -/
def override (older : Option Candidate) (newer : Candidate) : Option Candidate :=
  if !newer.important && older.any (·.important) then older else some newer

/-- What remains of candidates that are taken one after the other. -/
def last (line : List Candidate) : Option Candidate :=
  line.foldl override none

theorem override_none (newer : Candidate) : override none newer = some newer := by
  rw [override, Option.any_none, Bool.and_false]
  rfl

theorem foldl_override_toList (c : Option Candidate) : c.toList.foldl override none = c := by
  cases c with
  | none => rfl
  | some c => exact override_none c

/-- Some candidate remains of any. -/
theorem eq_nil_of_last {line : List Candidate} (nothing : last line = none) : line = [] := by
  induction line using List.reverseRecOn with
  | nil => rfl
  | append_singleton before newer inductionHypothesis =>
      rw [last, List.foldl_append, List.foldl_cons, List.foldl_nil, override] at nothing
      split at nothing
      · next stays =>
        rw [nothing, Option.any_none, Bool.and_false] at stays
        cases stays
      · cases nothing

/-- The heaviest of some candidates, if there are any. -/
def Heaviest (line : List Candidate) : Option Candidate → Prop
  | none => line = []
  | some winner => winner ∈ line ∧ ∀ c ∈ line, c.weight ≤ winner.weight

theorem cons_le_cons_iff {a b : Nat} {l m : List Nat} :
    a :: l ≤ b :: m ↔ a < b ∨ a = b ∧ l ≤ m := by
  rw [← not_lt, List.cons_lt_cons_iff]
  rcases Nat.lt_trichotomy a b with less | same | more
  · simp only [less, Nat.not_lt_of_gt less, Nat.ne_of_gt less, false_and, or_false, true_or,
      not_false_eq_true]
  · simp only [same, Nat.lt_irrefl, true_and, false_or, not_lt]
  · simp only [more, Nat.not_lt_of_gt more, Nat.ne_of_gt more, false_and, or_false, true_or,
      not_true_eq_false]

theorem weight_le_of_rank_le {older newer : Candidate} (above : older.rank ≤ newer.rank)
    (important : newer.important = true ∨ older.important = false) :
    older.weight ≤ newer.weight := by
  rw [weight, weight, cons_le_cons_iff]
  cases heavy : older.important with
  | false =>
      cases newer.important with
      | false => exact Or.inr ⟨rfl, above⟩
      | true => exact Or.inl Nat.zero_lt_one
  | true =>
      rw [heavy] at important
      rcases important with same | impossible
      · rw [same]
        exact Or.inr ⟨rfl, above⟩
      · cases impossible

theorem weight_le_of_important {older newer : Candidate} (heavy : older.important = true)
    (light : newer.important = false) : newer.weight ≤ older.weight := by
  rw [weight, weight, heavy, light, cons_le_cons_iff]
  exact Or.inl Nat.zero_lt_one

theorem Heaviest.override {line : List Candidate} {older : Option Candidate} {newer : Candidate}
    (heaviest : Heaviest line older) (above : ∀ c ∈ line, c.rank ≤ newer.rank) :
    Heaviest (line ++ [newer]) (override older newer) := by
  cases older with
  | none =>
      rw [show line = [] from heaviest, override_none]
      refine ⟨List.mem_singleton_self newer, ?_⟩
      intro c listed
      rw [List.mem_singleton.mp listed]
  | some older =>
      obtain ⟨member, most⟩ := heaviest
      rw [Candidate.override, Option.any_some]
      split
      · next stays =>
        obtain ⟨light, heavy⟩ := Bool.and_eq_true_iff.mp stays
        rw [Bool.not_eq_true'] at light
        refine ⟨List.mem_append_left _ member, ?_⟩
        intro c listed
        rcases List.mem_append.mp listed with before | here
        · exact most c before
        · rw [List.mem_singleton.mp here]
          exact weight_le_of_important heavy light
      · next replaced =>
        have important : newer.important = true ∨ older.important = false := by
          cases light : newer.important with
          | true => exact Or.inl rfl
          | false =>
              rw [light, Bool.not_false, Bool.true_and] at replaced
              exact Or.inr (Bool.eq_false_iff.mpr replaced)
        have step := weight_le_of_rank_le (above older member) important
        refine ⟨List.mem_append_right _ (List.mem_singleton_self newer), ?_⟩
        intro c listed
        rcases List.mem_append.mp listed with before | here
        · exact (most c before).trans step
        · rw [List.mem_singleton.mp here]

/-- Of candidates that ascend, the last one is the heaviest. -/
theorem heaviest_last {line : List Candidate}
    (ascending : line.Pairwise fun a b => a.rank ≤ b.rank) : Heaviest line (last line) := by
  induction line using List.reverseRecOn with
  | nil => rfl
  | append_singleton line newer inductionHypothesis =>
      obtain ⟨before, -, above⟩ := List.pairwise_append.mp ascending
      rw [last, List.foldl_append]
      exact (inductionHypothesis before).override fun c listed =>
        above c listed newer (List.mem_singleton_self newer)

end Candidate

/-!
## The order of the rules

Rules are sorted by specificity, and rules of equal specificity stay in the order
in which they are written.  With its place beside it, each rule has a rank of its
own, and sorted rules ascend by rank.
-/

/-! ### Comparing specificities -/

theorem Specificity.le_iff (a b : Specificity) :
    a.le b = true ↔ a.ids < b.ids ∨ a.ids = b.ids ∧
      (a.classes < b.classes ∨ a.classes = b.classes ∧ a.types ≤ b.types) := by
  rw [le]
  split
  · next idsDiffer =>
    have apart := bne_iff_ne.mp idsDiffer
    rw [decide_eq_true_iff]
    omega
  · next idsAgree =>
    have ids : a.ids = b.ids := by simpa using idsAgree
    split
    · next classesDiffer =>
      have apart := bne_iff_ne.mp classesDiffer
      rw [decide_eq_true_iff]
      omega
    · next classesAgree =>
      have classes : a.classes = b.classes := by simpa using classesAgree
      rw [decide_eq_true_iff]
      omega

theorem Specificity.le_total (a b : Specificity) : (a.le b || b.le a) = true := by
  rw [Bool.or_eq_true, le_iff, le_iff]
  omega

theorem Specificity.le_trans (a b c : Specificity) (first : a.le b = true)
    (second : b.le c = true) : a.le c = true := by
  rw [le_iff] at first second ⊢
  omega

theorem Rule.rank_le_rank {a b : Rule} {i j : Nat} (below : a.specificity.le b.specificity = true)
    (order : b.specificity.le a.specificity = true → i ≤ j) : a.rank i ≤ b.rank j := by
  rw [Specificity.le_iff] at below order
  simp only [rank, Candidate.cons_le_cons_iff, le_refl, and_true]
  omega

/-! ### Places -/

/-- Rules together with numbers that tell which of them is written first. -/
structure Placement (rules : List Rule) (placed : List (Rule × Nat)) : Prop where
  rules_eq : placed.map (·.1) = rules
  ascending : placed.Pairwise (·.2 < ·.2)

theorem placement_zipIdx (rules : List Rule) : Placement rules rules.zipIdx := by
  refine ⟨List.zipIdx_map_fst 0 rules, ?_⟩
  have places : (rules.zipIdx.map (·.2)).Pairwise (· < ·) := by
    rw [List.zipIdx_map_snd]
    exact List.pairwise_lt_range'
  exact List.pairwise_map.mp places

namespace Placement

variable {rules : List Rule} {placed : List (Rule × Nat)}

theorem lt_of_getElem? (placement : Placement rules placed) {i j : Nat} {p q : Rule × Nat}
    (first : placed[i]? = some p) (second : placed[j]? = some q) (before : i < j) : p.2 < q.2 := by
  obtain ⟨inside, atPlace⟩ := List.getElem?_eq_some_iff.mp first
  obtain ⟨otherInside, atOther⟩ := List.getElem?_eq_some_iff.mp second
  rw [← atPlace, ← atOther]
  exact List.pairwise_iff_getElem.mp placement.ascending i j inside otherInside before

/-- No two rules have one place. -/
theorem eq_of_place_eq (placement : Placement rules placed) {p q : Rule × Nat} (pListed : p ∈ placed)
    (qListed : q ∈ placed) (same : p.2 = q.2) : p = q := by
  obtain ⟨i, first⟩ := List.mem_iff_getElem?.mp pListed
  obtain ⟨j, second⟩ := List.mem_iff_getElem?.mp qListed
  rcases Nat.lt_trichotomy i j with before | equal | behind
  · exact absurd same (Nat.ne_of_lt (placement.lt_of_getElem? first second before))
  · rw [equal, second] at first
    exact (Option.some.inj first).symm
  · exact absurd same.symm (Nat.ne_of_lt (placement.lt_of_getElem? second first behind))

/-- Sorting keeps the places beside the rules, and they ascend together. -/
theorem exists_sorted (placement : Placement rules placed) :
    ∃ sorted : List (Rule × Nat), sorted.Perm placed ∧
      sorted.map (·.1) = rules.mergeSort (fun a b => a.specificity.le b.specificity) ∧
      sorted.Pairwise fun p q => p.1.rank p.2 ≤ q.1.rank q.2 := by
  let below (p q : Rule × Nat) : Bool := p.1.specificity.le q.1.specificity
  have sortedPairs := List.pairwise_mergeSort
    (List.zipIdxLE_trans fun a b c : Rule × Nat => Specificity.le_trans a.1.specificity _ _)
    (List.zipIdxLE_total fun a b : Rule × Nat => Specificity.le_total a.1.specificity _)
    placed.zipIdx
  refine ⟨placed.mergeSort below, List.mergeSort_perm placed below, ?_, ?_⟩
  · rw [← placement.rules_eq]
    exact List.map_mergeSort fun _ _ _ _ => rfl
  · rw [← List.mergeSort_zipIdx, List.pairwise_map]
    refine sortedPairs.imp_of_mem ?_
    intro p q pListed qListed le
    rw [List.mem_mergeSort, List.mem_zipIdx_iff_getElem?] at pListed qListed
    rw [List.zipIdxLE] at le
    -- Equal specificities keep their order, and with it the order of their places.
    split at le
    · next first =>
      apply Rule.rank_le_rank first
      intro second
      rw [if_pos second, decide_eq_true_iff] at le
      rcases Nat.lt_or_eq_of_le le with before | same
      · exact Nat.le_of_lt (placement.lt_of_getElem? pListed qListed before)
      · rw [same, qListed] at pListed
        rw [Option.some.inj pListed]
    · cases le

end Placement

end Css
end SlimSvg
