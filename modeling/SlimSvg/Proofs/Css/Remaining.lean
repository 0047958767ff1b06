import SlimSvg.Proofs.Css.Held
import SlimSvg.Proofs.Css.Merge
import SlimSvg.Proofs.Css.Candidates
import SlimSvg.Proofs.Tree.Culling

namespace SlimSvg
namespace Css

/-!
# Style sheets when elements are taken out

The sheets of a document without some of its elements are those whose style elements are
left.  A selector can tell the two documents apart only where it looks at the elements
before another one, since nothing else of what it can reach has changed.
-/

namespace Styles

variable {doc other : Document} {s : Styles}

/-! ## Which sheets are left -/

/-- The elements of the tree with their places. -/
def placedElements (doc : Document) : List (NodeId × Element) :=
  doc.elements.filterMap fun n => (doc.element? n).map fun e => (n, e)

theorem firstRepeated?_eq_none_iff {seen ids : List String} :
    firstRepeated? seen ids = none ↔ ids.Nodup ∧ ∀ id ∈ ids, id ∉ seen := by
  induction ids generalizing seen with
  | nil => exact iff_of_true rfl ⟨List.nodup_nil, List.forall_mem_nil _⟩
  | cons id rest inductionHypothesis =>
      rw [firstRepeated?, List.nodup_cons, List.forall_mem_cons]
      split
      · next known =>
        rw [List.contains_iff_mem] at known
        refine iff_of_false (Option.some_ne_none id) ?_
        exact fun both => both.2.1 known
      · next new =>
        rw [List.contains_iff_mem] at new
        simp only [inductionHypothesis, List.mem_cons, not_or]
        constructor
        · rintro ⟨distinct, apart⟩
          exact ⟨⟨fun again => (apart id again).1 rfl, distinct⟩, new, fun later listed => (apart later listed).2⟩
        · rintro ⟨⟨single, distinct⟩, -, apart⟩
          exact ⟨distinct, fun later listed => ⟨fun same => single (same ▸ listed), apart later listed⟩⟩

theorem ofDocument_eq_ok :
    ofDocument doc = .ok s ↔
      ∃ sheets, ((placedElements doc).filter fun (_, e) => isStyleElement e).mapM
          (fun (n, e) => sheetOf doc n e) = .ok sheets ∧
        ((ofSheets sheets).derived.ids ≠ [] → ((placedElements doc).filterMap fun (_, e) => e.id?).Nodup) ∧
          ofSheets sheets = s := by
  rw [ofDocument, bind_eq_ok]
  refine exists_congr fun sheets => and_congr_right fun _ => ?_
  dsimp only
  have unrepeated : firstRepeated? [] ((placedElements doc).filterMap fun (_, e) => e.id?) = none ↔
      ((placedElements doc).filterMap fun (_, e) => e.id?).Nodup := by
    rw [firstRepeated?_eq_none_iff]
    exact and_iff_left fun _ _ => List.not_mem_nil
  split
  · next selected =>
    have asked : (ofSheets sheets).derived.ids ≠ [] := by
      intro nothing
      rw [nothing] at selected
      cases selected
    rw [imp_iff_right asked, ← unrepeated]
    split
    · next id repeated =>
      have found : firstRepeated? [] ((placedElements doc).filterMap fun (_, e) => e.id?) = some id := repeated
      rw [found]
      constructor
      · intro impossible
        cases impossible
      · exact fun both => absurd both.1 (Option.some_ne_none id)
    · next single =>
      have distinct : firstRepeated? [] ((placedElements doc).filterMap fun (_, e) => e.id?) = none :=
        Option.eq_none_iff_forall_ne_some.mpr single
      rw [distinct, eq_self, true_and]
      exact pure_eq_ok
  · next unselected =>
    have nothing : (ofSheets sheets).derived.ids = [] := by
      rw [Bool.not_eq_true, Bool.not_eq_false'] at unselected
      exact List.isEmpty_iff.mp unselected
    rw [and_iff_right fun asked => absurd nothing asked]
    exact pure_eq_ok

/-- Changing elements that are no style elements, and keep their ids, changes no sheets. -/
theorem ofDocument_sameShape (same : Document.SameShape doc other)
    (contents : ∀ id, other.content id = doc.content id ∨ ∃ e new, doc.content id = .element e ∧
      other.content id = .element new ∧ isStyleElement e = false ∧ isStyleElement new = false ∧ new.id? = e.id?)
    (collected : ofDocument doc = .ok s) : ofDocument other = .ok s := by
  have styled : (placedElements other).filter (fun (_, e) => isStyleElement e) =
      (placedElements doc).filter fun (_, e) => isStyleElement e := by
    rw [placedElements, placedElements, same.elements_eq, List.filter_filterMap, List.filter_filterMap]
    congr 1
    funext node
    rw [Document.element?, Document.element?]
    rcases contents node with kept | ⟨e, new, before, after, plain, plainNew, -⟩
    · rw [kept]
    · simp only [before, after, NodeContent.element?, Option.map_some, Option.filter_some, plain, plainNew,
        Bool.false_eq_true, if_false]
  have named : (placedElements other).filterMap (fun (_, e) => e.id?) =
      (placedElements doc).filterMap fun (_, e) => e.id? := by
    rw [placedElements, placedElements, same.elements_eq, List.filterMap_filterMap, List.filterMap_filterMap]
    congr 1
    funext node
    rw [Document.element?, Document.element?]
    rcases contents node with kept | ⟨e, new, before, after, -, -, sameId⟩
    · rw [kept]
    · rw [before, after]
      exact sameId
  have texts : other.textContent = doc.textContent := by
    funext node
    rw [Document.textContent, Document.textContent, same.descendants_eq]
    congr 2
    funext inner
    rcases contents inner with kept | ⟨e, new, before, after, -⟩
    · rw [kept]
    · rw [before, after]
  have sheets : sheetOf other = sheetOf doc := by
    funext node e
    rw [sheetOf, sheetOf, same.children_eq, same.isElement_funext, texts]
  rw [ofDocument_eq_ok] at collected ⊢
  rw [styled, named, sheets]
  exact collected

theorem placedElements_eq (tree : doc.IsTree) (culled : doc.Culled other) :
    placedElements other = (placedElements doc).filter fun (n, _) => other.isAttached n := by
  rw [placedElements, placedElements, culled.elements_eq tree, List.filterMap_filter, List.filter_filterMap]
  congr 1
  funext n
  rw [culled.element?_eq]
  cases doc.element? n with
  | none => exact ite_self none
  | some e => rfl

/-- A style element that was read has no elements inside, so nothing of it was taken. -/
theorem sheetOf_culled (tree : doc.IsTree) (culled : doc.Culled other) {node : NodeId} {e : Element}
    {sheet : Sheet} (made : sheetOf doc node e = .ok sheet) : sheetOf other node e = .ok sheet := by
  rw [sheetOf] at made ⊢
  obtain ⟨none, later⟩ := unless_refused_eq_ok.mp made
  have childless : ∀ child ∈ doc.children node, ¬ doc.isElement child := by
    intro child listed element
    exact none (List.any_eq_true.mpr ⟨child, listed, element⟩)
  rw [culled.children_eq_of_childless tree childless, culled.textContent_eq tree childless]
  refine unless_refused_eq_ok.mpr ⟨?_, later⟩
  rw [List.any_eq_true]
  rintro ⟨child, listed, element⟩
  rw [culled.isElement_eq] at element
  exact childless child listed element

theorem mem_rules_of_filter {sheets : List Sheet} {keep : Sheet → Bool} {r : Rule}
    (ruled : r ∈ Derived.rules (sheets.filter keep)) : r ∈ Derived.rules sheets := by
  obtain ⟨set, setListed, inSet⟩ := List.mem_flatMap.mp ruled
  obtain ⟨sheet, sheetListed, inSheet⟩ := List.mem_flatMap.mp setListed
  exact List.mem_flatMap.mpr ⟨set, List.mem_flatMap.mpr ⟨sheet, (List.mem_filter.mp sheetListed).1, inSheet⟩, inSet⟩

theorem ids_ne_nil_of_filter {sheets : List Sheet} {keep : Sheet → Bool}
    (asked : (ofSheets (sheets.filter keep)).derived.ids ≠ []) : (ofSheets sheets).derived.ids ≠ [] := by
  obtain ⟨id, listed⟩ := List.exists_mem_of_ne_nil _ asked
  obtain ⟨test, tested, named⟩ := List.mem_filterMap.mp (List.mem_eraseDups.mp listed)
  obtain ⟨r, ruled, inside⟩ := List.mem_flatMap.mp tested
  have listedBefore : id ∈ (ofSheets sheets).derived.ids := List.mem_eraseDups.mpr
    (List.mem_filterMap.mpr ⟨test, List.mem_flatMap.mpr ⟨r, mem_rules_of_filter ruled, inside⟩, named⟩)
  exact List.ne_nil_of_mem listedBefore

/-- The sheets of a document without some elements are those that are left. -/
theorem ofDocument_culled (tree : doc.IsTree) (culled : doc.Culled other) (collected : ofDocument doc = .ok s) :
    ofDocument other = .ok (ofSheets (s.sheets.filter fun sheet => other.isAttached sheet.element)) := by
  obtain ⟨sheets, read, unrepeated, rfl⟩ := ofDocument_eq_ok.mp collected
  refine ofDocument_eq_ok.mpr ⟨sheets.filter fun sheet => other.isAttached sheet.element, ?_, ?_, rfl⟩
  · rw [placedElements_eq tree culled, List.filter_comm]
    refine mapM_filter_eq_ok read ?_
    rintro ⟨node, e⟩ - sheet made
    exact ⟨congrArg other.isAttached (element_of_sheetOf made), fun _ => sheetOf_culled tree culled made⟩
  · intro asked
    rw [placedElements_eq tree culled]
    exact (unrepeated (ids_ne_nil_of_filter asked)).sublist (List.filter_sublist.filterMap _)

end Styles

/-! ## What selectors see -/

section Selecting

variable {doc other : Document}

/-- Whether nothing was taken from before a node, nor from before an element above it. -/
def Undisturbed (doc other : Document) (node : NodeId) : Prop :=
  ∀ upper ∈ node :: doc.elementAncestors node, ∀ earlier ∈ doc.previousElements upper,
    other.isAttached earlier = true

namespace Undisturbed

variable {node : NodeId}

theorem outer (undisturbed : Undisturbed doc other node) (tree : doc.IsTree) {upper : NodeId}
    (above : upper ∈ doc.elementAncestors node) : Undisturbed doc other upper := by
  intro further listed
  refine undisturbed further (List.mem_cons_of_mem node ?_)
  rcases List.mem_cons.mp listed with same | beyond
  · exact same ▸ above
  · have first := (Document.mem_elementAncestors tree).mp beyond
    exact (Document.mem_elementAncestors tree).mpr
      ⟨first.1.trans ((Document.mem_elementAncestors tree).mp above).1, first.2⟩

theorem beside (undisturbed : Undisturbed doc other node) (tree : doc.IsTree) {earlier : NodeId}
    (before : earlier ∈ doc.previousElements node) : Undisturbed doc other earlier := by
  intro upper listed first beforeUpper
  rcases List.mem_cons.mp listed with same | above
  · rw [same] at beforeUpper
    exact undisturbed node List.mem_cons_self first
      (Document.mem_previousElements_trans tree.toLinked beforeUpper before)
  · have sameLine : doc.elementAncestors earlier = doc.elementAncestors node := by
      rw [Document.elementAncestors_eq tree, Document.elementAncestors_eq tree,
        Document.parent?_eq_of_mem_previousElements tree.toLinked before]
    exact undisturbed upper (List.mem_cons_of_mem node (sameLine ▸ above)) first beforeUpper

end Undisturbed

/-- Whether an element is left, and all that a selector may look at from there. -/
structure InSight (doc other : Document) (selector : Selector) (node : NodeId) : Prop where
  element : doc.isElement node
  attached : other.isAttached node = true
  undisturbed : selector.looksAside = true → Undisturbed doc other node

namespace InSight

variable {selector : Selector} {node : NodeId}

theorem elementAncestors_eq (sight : InSight doc other selector node) (tree : doc.IsTree)
    (culled : doc.Culled other) : other.elementAncestors node = doc.elementAncestors node :=
  (culled.elementAncestors_eq tree sight.element sight.attached).1

theorem previousElements_eq (sight : InSight doc other selector node) (tree : doc.IsTree)
    (culled : doc.Culled other) (aside : selector.looksAside = true) :
    other.previousElements node = doc.previousElements node := by
  rw [culled.previousElements_eq tree sight.attached, List.filter_eq_self]
  exact sight.undisturbed aside node List.mem_cons_self

theorem outer (sight : InSight doc other selector node) (tree : doc.IsTree) (culled : doc.Culled other)
    {upper : NodeId} (above : upper ∈ doc.elementAncestors node) : InSight doc other selector upper where
  element := ((Document.mem_elementAncestors tree).mp above).2
  attached := (culled.elementAncestors_eq tree sight.element sight.attached).2 upper above
  undisturbed aside := (sight.undisturbed aside).outer tree above

theorem beside (sight : InSight doc other selector node) (tree : doc.IsTree)
    (aside : selector.looksAside = true) {earlier : NodeId} (before : earlier ∈ doc.previousElements node) :
    InSight doc other selector earlier where
  element := ((Document.mem_previousElements tree.toLinked).mp before).2
  attached := sight.undisturbed aside node List.mem_cons_self earlier before
  undisturbed _ := (sight.undisturbed aside).beside tree before

end InSight

theorem Selector.looksAside_of_combinator {selector : Selector} {c : Compound} (listed : c ∈ selector.compounds)
    (aside : c.combinator.getD .descendant = .adjacent ∨ c.combinator.getD .descendant = .sibling) :
    selector.looksAside = true := by
  refine List.any_eq_true.mpr ⟨c, listed, ?_⟩
  cases joined : c.combinator with
  | none => rw [joined] at aside; rcases aside with impossible | impossible <;> cases impossible
  | some combinator =>
      rw [joined] at aside
      change combinator = .adjacent ∨ combinator = .sibling at aside
      rcases aside with same | same <;> (rw [same]; rfl)

/-- A selector selects what it did, unless it looks aside and something was taken from
there. -/
theorem Selector.selects_culled (tree : doc.IsTree) (culled : doc.Culled other) {selector : Selector}
    {node : NodeId} (sight : InSight doc other selector node) :
    selector.selects other node = selector.selects doc node := by
  suffices agree : ∀ c ∈ selector.compounds, c.Agrees doc other (InSight doc other selector) from
    selects_congr culled.isElement_eq agree sight
  intro c listed
  refine ⟨fun id _ => Compound.accepts_congr (Or.inl (culled.element?_eq id)), fun id sight => ?_,
    fun id sight outer related => ?_⟩
  · cases combinator : c.combinator.getD .descendant with
    | descendant => exact sight.elementAncestors_eq tree culled
    | child =>
        rw [Combinator.related, Combinator.related, Document.parentElement?_eq_head?,
          Document.parentElement?_eq_head?, sight.elementAncestors_eq tree culled]
    | adjacent =>
        have aside := looksAside_of_combinator listed (Or.inl combinator)
        rw [Combinator.related, Combinator.related, Document.previousElement?, Document.previousElement?,
          sight.previousElements_eq tree culled aside]
    | sibling =>
        have aside := looksAside_of_combinator listed (Or.inr combinator)
        exact sight.previousElements_eq tree culled aside
  · cases combinator : c.combinator.getD .descendant with
    | descendant =>
        rw [combinator] at related
        exact sight.outer tree culled related
    | child =>
        rw [combinator, Combinator.related, Document.parentElement?_eq_head?, Option.mem_toList] at related
        exact sight.outer tree culled (List.mem_of_mem_head? related)
    | adjacent =>
        have aside := looksAside_of_combinator listed (Or.inl combinator)
        rw [combinator, Combinator.related, Document.previousElement?, Option.mem_toList] at related
        exact sight.beside tree aside (List.mem_of_mem_head? related)
    | sibling =>
        have aside := looksAside_of_combinator listed (Or.inr combinator)
        rw [combinator] at related
        exact sight.beside tree aside related

theorem Selector.looksAside_of_hasCombinators {selector : Selector} (alone : selector.hasCombinators = false) :
    selector.looksAside = false := by
  rw [hasCombinators, Bool.or_eq_false_iff, List.any_eq_false] at alone
  rw [looksAside, List.any_eq_false]
  intro c listed
  have none : c.combinator = none := by
    have first := alone.2 c listed
    rw [Option.isSome_iff_ne_none, not_not] at first
    exact first
  rw [none]
  exact Bool.false_ne_true

end Selecting

/-! ## The cascade among what is left -/

section Cascading

/-- A list has one place at most where a property begins to hold for good. -/
theorem append_inj_of_turn {α : Type} {turn : α → Bool} {front back front' back' : List α}
    (same : front ++ back = front' ++ back') (before : ∀ a ∈ front, turn a = false)
    (behind : ∀ a ∈ back, turn a = true) (before' : ∀ a ∈ front', turn a = false)
    (behind' : ∀ a ∈ back', turn a = true) : front = front' ∧ back = back' := by
  have fronts := congrArg (List.filter fun a => !turn a) same
  rw [List.filter_append, List.filter_append,
    List.filter_eq_self.mpr fun a listed => by rw [before a listed]; rfl,
    List.filter_eq_nil_iff.mpr fun a listed => by rw [behind a listed]; exact Bool.false_ne_true,
    List.filter_eq_self.mpr fun a listed => by rw [before' a listed]; rfl,
    List.filter_eq_nil_iff.mpr fun a listed => by rw [behind' a listed]; exact Bool.false_ne_true,
    List.append_nil, List.append_nil] at fronts
  rw [fronts] at same
  exact ⟨fronts, List.append_cancel_left same⟩

/-- What is left out before sorting is missing afterwards, and nothing else changes. -/
theorem filter_mergeSort {α : Type} {le : α → α → Bool}
    (trans : ∀ a b c, le a b = true → le b c = true → le a c = true)
    (total : ∀ a b, (le a b || le b a) = true) (keep : α → Bool) (items : List α) :
    (items.mergeSort le).filter keep = (items.filter keep).mergeSort le := by
  induction items with
  | nil => rw [List.mergeSort_nil, List.filter_nil, List.mergeSort_nil]
  | cons a rest inductionHypothesis =>
      obtain ⟨before, after, whole, others, higher⟩ := List.mergeSort_cons trans total a rest
      rw [others, List.filter_append] at inductionHypothesis
      rw [whole, List.filter_append, List.filter_cons, List.filter_cons]
      split
      · obtain ⟨front, back, wholeKept, othersKept, higherKept⟩ :=
          List.mergeSort_cons trans total a (rest.filter keep)
        have sorted := List.pairwise_mergeSort trans total (a :: rest)
        have sortedKept := List.pairwise_mergeSort trans total (a :: rest.filter keep)
        rw [whole, List.pairwise_append, List.pairwise_cons] at sorted
        rw [wholeKept, List.pairwise_append, List.pairwise_cons] at sortedKept
        -- Both lists are cut where the first item that is not below `a` stands.
        have cut := @append_inj_of_turn _ (le a) _ _ _ _ (inductionHypothesis.trans othersKept)
          (fun b listed => by simpa using higher b (List.mem_filter.mp listed).1)
          (fun b listed => sorted.2.1.1 b (List.mem_filter.mp listed).1)
          (fun b listed => by simpa using higherKept b listed) sortedKept.2.1.1
        rw [wholeKept, cut.1, cut.2]
      · exact inductionHypothesis

theorem filter_sorted (sheets : List Sheet) (keep : Rule → Bool) :
    (Derived.ofSheets sheets).sorted.filter keep =
      ((Derived.rules sheets).filter keep).mergeSort fun a b => a.specificity.le b.specificity :=
  filter_mergeSort (fun a b c : Rule => Specificity.le_trans a.specificity b.specificity c.specificity)
    (fun a b => Specificity.le_total a.specificity b.specificity) keep _

theorem filter_rules_of_unselected {sheets : List Sheet} {keep : Sheet → Bool} {selects : Rule → Bool}
    (unselected : ∀ sheet ∈ sheets, keep sheet = false → ∀ r ∈ sheet.sets.flatMap (·.rules), selects r = false) :
    (Derived.rules (sheets.filter keep)).filter selects = (Derived.rules sheets).filter selects := by
  induction sheets with
  | nil => rfl
  | cons sheet rest inductionHypothesis =>
      have later := inductionHypothesis fun other listed => unselected other (List.mem_cons_of_mem sheet listed)
      rw [Derived.rules_cons sheet rest, List.filter_append, ← later, List.filter_cons]
      split
      · rw [Derived.rules_cons, List.filter_append]
      · next gone =>
        have blind := unselected sheet List.mem_cons_self (Bool.not_eq_true _ ▸ gone)
        have none : (sheet.sets.flatMap (·.rules)).filter selects = [] := by
          rw [List.filter_eq_nil_iff]
          intro r ruled
          rw [blind r ruled]
          exact Bool.false_ne_true
        rw [none, List.nil_append]

variable {doc other : Document} {s : Styles} {node : NodeId}

/-- Rules that were lost do not count where they selected nothing. -/
theorem Styles.ownStyle_culled (tree : doc.IsTree) (culled : doc.Culled other)
    (upwards : ∀ r ∈ Derived.rules s.sheets, r.selector.looksAside = false) (element : doc.isElement node)
    (attached : other.isAttached node = true)
    (unselected : ∀ sheet ∈ s.sheets, other.isAttached sheet.element = false →
      ∀ r ∈ sheet.sets.flatMap (·.rules), r.selector.selects doc node = false) :
    (ofSheets (s.sheets.filter fun sheet => other.isAttached sheet.element)).ownStyle other node =
      s.ownStyle doc node := by
  have selected : ∀ r ∈ Derived.rules s.sheets, r.selector.selects other node = r.selector.selects doc node := by
    intro r ruled
    refine r.selector.selects_culled tree culled ⟨element, attached, fun aside => ?_⟩
    rw [upwards r ruled] at aside
    cases aside
  have matchingEq : (ofSheets (s.sheets.filter fun sheet => other.isAttached sheet.element)).matchingRules other node =
      s.matchingRules doc node := by
    rw [matchingRules, matchingRules, s.derived_eq, ofSheets, filter_sorted, filter_sorted,
      ← filter_rules_of_unselected unselected]
    refine congrArg (List.mergeSort · _) (List.filter_congr fun r ruled => selected r ?_)
    exact mem_rules_of_filter ruled
  simp only [ownStyle, ownStyleWith, applyRules, culled.element?_eq, matchingEq]

end Cascading

end Css
end SlimSvg
