import SlimSvg.Proofs.Cleanup.Orderly
import SlimSvg.Proofs.Css.Remaining

namespace SlimSvg
namespace Cleanup

/-!
# Elements that are left when others go

Metadata, empty texts and empty containers are taken out without a look at the sheets.
The sheets that are left select among the elements that are left what they selected
before, except by a rule that looks at the elements before another one: where one of
these was taken, such a rule may lose its match or find a new one.
-/

/-! ## Visits that only take elements out -/

section Culling

variable {σ : Type} {doc : Document}

/-- What holds on the way through a document from which elements are taken. -/
def Culling (doc : Document) (scene : Scene σ) : Prop :=
  doc.Culled scene.document

/-- A visit that takes out elements and nothing else. -/
theorem exists_culled_of_safe {v : Visitor σ} {start : σ} {I : Scene σ → Prop}
    (safe : v.Safe (fun _ => True) doc.nodes.size I (Culling doc))
    (holds : I ⟨start, doc⟩) :
    ∃ outcome, DocumentEdit.visiting v start doc = .ok outcome ∧ doc.Culled outcome.document := by
  rcases safe.run_succeeds holds with ⟨after, ran, culled⟩
  exact ⟨_, DocumentEdit.visiting_of_run ran, culled⟩

theorem safe_idle (doc : Document) :
    Visitor.Safe (fun _ => True) doc.nodes.size (fun scene : Scene σ => Culling doc scene) (Culling doc) {} :=
  .idle (fun culled => culled.tree) (fun culled => culled.size_eq)

theorem exists_culled_dropVacant (tree : doc.IsTree) (vacant : Document → NodeId → List NodeId → Bool)
    (element : ∀ other node ancestors, vacant other node ancestors = true → other.isElement node) :
    ∃ outcome, dropVacant vacant doc = .ok outcome ∧ doc.Culled outcome.document := by
  have left : ∀ node ancestors, (Visit.editDocument fun doc =>
      if vacant doc node ancestors then doc.detach node else doc : Visit Unit Unit).Leads (Culling doc) (Culling doc) := by
    intro node ancestors
    refine Visit.leads_editDocument fun scene culled => ?_
    split
    · next gone => exact culled.trans (.detach culled.tree (element scene.document node ancestors gone))
    · exact culled
  exact exists_culled_of_safe { safe_idle doc with exit := left } (Document.Culled.refl tree)

theorem exists_culled_enterMetadata (tree : doc.IsTree) :
    ∃ outcome, DocumentEdit.visiting { enter := fun node _ => enterMetadata node } () doc = .ok outcome ∧
      doc.Culled outcome.document := by
  have entered : ∀ node, (enterMetadata node).Leads (Culling doc) (Culling doc) := by
    intro node
    rw [enterMetadata]
    refine Visit.leads_document_bind fun current => ?_
    split
    · next named =>
      refine (Visit.leads_editDocument ?_).bind fun _ => Visit.leads_pure _
      rintro scene ⟨culled, rfl⟩
      exact culled.trans (.detach culled.tree (Document.isElement_of_hasName named))
    · exact (Visit.leads_pure _).of_imp fun _ both => both.1
  exact exists_culled_of_safe
    { safe_idle doc with enter := fun node _ _ _ => (entered node).of_imp fun _ both => both.1 }
    (Document.Culled.refl tree)

theorem isElement_of_isVacantText {node : NodeId} (vacant : isVacantText doc node = true) :
    doc.isElement node := by
  rw [isVacantText] at vacant
  split at vacant
  · cases vacant
  · next e found => exact Document.isElement_of_element? found

theorem isElement_of_isVacantContainer {node : NodeId} {ancestors : List NodeId}
    (vacant : isVacantContainer doc node ancestors = true) : doc.isElement node := by
  rw [isVacantContainer] at vacant
  split at vacant
  · next e parent found last => exact Document.isElement_of_element? found
  · cases vacant

/-- The plugins that take out what is empty or only describes. -/
theorem exists_culled_of_plugin {plugin : Plugin}
    (listed : plugin ∈ [removeMetadata, removeEmptyText, removeEmptyContainers]) (situation : Situation)
    (p : Parameters) (tree : doc.IsTree) :
    ∃ edit outcome, plugin.prepare situation p = some edit ∧ edit doc = .ok outcome ∧
      doc.Culled outcome.document := by
  simp only [List.mem_cons, List.not_mem_nil, or_false] at listed
  rcases listed with rfl | rfl | rfl
  · obtain ⟨outcome, edited, culled⟩ := exists_culled_enterMetadata tree
    exact ⟨_, outcome, rfl, edited, culled⟩
  · obtain ⟨outcome, edited, culled⟩ := exists_culled_dropVacant tree
      (fun doc node _ => isVacantText doc node) fun _ _ _ => isElement_of_isVacantText
    exact ⟨_, outcome, rfl, edited, culled⟩
  · obtain ⟨outcome, edited, culled⟩ := exists_culled_dropVacant tree isVacantContainer
      fun _ _ _ => isElement_of_isVacantContainer
    exact ⟨_, outcome, rfl, edited, culled⟩

theorem isElement_of_takes {situation : Situation} {p : Parameters} {node : NodeId}
    (taken : removeHiddenElements.takes situation p doc node = true) : doc.isElement node := by
  change (doc.parent? node != some Document.root && situation.summary.stillStyles?.any _) = true at taken
  rw [Bool.and_eq_true, Option.any_eq_true] at taken
  obtain ⟨-, styles, -, hidden⟩ := taken
  obtain ⟨e, found, -⟩ := (Option.any_eq_true _ _).mp hidden
  exact Document.isElement_of_element? found

theorem culled_takeUnreferenced (tree : doc.IsTree) {ids : List String} {node : NodeId}
    (element : doc.isElement node) : doc.Culled (takeUnreferenced ids doc node) := by
  rw [takeUnreferenced]
  split
  · exact .refl tree
  · exact .detach tree element

theorem culled_foldl_takeUnreferenced (tree : doc.IsTree) {ids : List String} {nodes : List NodeId}
    (elements : ∀ node ∈ nodes, doc.isElement node) : doc.Culled (nodes.foldl (takeUnreferenced ids) doc) := by
  induction nodes generalizing doc with
  | nil => exact .refl tree
  | cons node rest inductionHypothesis =>
      have first := @culled_takeUnreferenced _ tree ids _ (elements node List.mem_cons_self)
      refine first.trans (inductionHypothesis first.tree fun later listed => ?_)
      rw [first.isElement_eq]
      exact elements later (List.mem_cons_of_mem node listed)

/-- What the visit to the hidden elements comes to: some elements of the document are
taken away one after the other, except those that hold an id to which something referred. -/
def HiddenGone (s : Css.Styles) (doc : Document) (scene : Scene HiddenSearch) : Prop :=
  ∃ hidden : List NodeId, (∀ node ∈ hidden, doc.isElement node) ∧
    scene.document = hidden.foldl (takeUnreferenced (Link.idsOf doc ++ s.derived.referencedIds)) doc

/-- The hidden elements go at the end of the visit, all of them elements of the document. -/
theorem exists_hidden_gone (tree : doc.IsTree) {situation : Situation} {p : Parameters} {s : Css.Styles}
    (known : situation.summary.stillStyles? = some s) :
    ∃ (outcome : Outcome) (hidden : List NodeId),
      DocumentEdit.visiting { enter := enterHidden s, exitRoot := exitHidden s } ⟨[], []⟩ doc = .ok outcome ∧
        (∀ node ∈ hidden, doc.isElement node) ∧
          outcome.document = hidden.foldl (takeUnreferenced (Link.idsOf doc ++ s.derived.referencedIds)) doc := by
  have start : Plugin.Searching situation p s doc ⟨⟨[], []⟩, doc⟩ :=
    ⟨rfl, Css.Styles.Memo.Built.empty.sound tree, fun _ listed => absurd listed List.not_mem_nil⟩
  have idle : Visitor.Safe (fun _ => True) doc.nodes.size (Plugin.Searching situation p s doc)
      (Plugin.Searching situation p s doc) {} :=
    .idle (fun searching => searching.document_eq ▸ tree) (fun searching => searching.document_eq ▸ rfl)
  have left : (exitHidden s).Leads (Plugin.Searching situation p s doc) (HiddenGone s doc) := by
    rw [exitHidden]
    refine Visit.leads_state_bind fun search => Visit.leads_editDocument ?_
    rintro scene ⟨searching, rfl⟩
    refine ⟨scene.state.found.reverse, fun node listed => ?_, ?_⟩
    · exact isElement_of_takes (searching.found node (List.mem_reverse.mp listed))
    · rw [searching.document_eq]
  have safe : Visitor.Safe (fun _ => True) doc.nodes.size (Plugin.Searching situation p s doc) (HiddenGone s doc)
      { enter := enterHidden s, exitRoot := exitHidden s } :=
    { idle with
      enter := fun _ _ _ outermost => Plugin.leads_enterHidden tree known outermost
      exitRoot := left }
  obtain ⟨after, ran, hidden, elements, same⟩ := safe.run_succeeds start
  exact ⟨_, hidden, DocumentEdit.visiting_of_run ran, elements, same⟩

theorem exists_culled_enterHidden (tree : doc.IsTree) {situation : Situation} {p : Parameters} {s : Css.Styles}
    (known : situation.summary.stillStyles? = some s) :
    ∃ outcome, DocumentEdit.visiting { enter := enterHidden s, exitRoot := exitHidden s } ⟨[], []⟩ doc = .ok outcome ∧
      doc.Culled outcome.document := by
  obtain ⟨outcome, hidden, edited, elements, gone⟩ := exists_hidden_gone tree (p := p) known
  exact ⟨outcome, edited, gone ▸ culled_foldl_takeUnreferenced tree elements⟩

end Culling

/-! ## Rules for what is left -/

/-- The rules that are left select an element that is left as they did, unless one of
them looks at the elements before another one and something was taken from there. -/
theorem matchingRules_of_remaining {plugin : Plugin}
    (listed : plugin ∈ [removeMetadata, removeEmptyText, removeEmptyContainers]) (situation : Situation)
    (p : Parameters) {doc : Document} (tree : doc.IsTree) {s : Css.Styles}
    (collected : Css.Styles.ofDocument doc = .ok s) :
    ∃ edit outcome t, plugin.prepare situation p = some edit ∧ edit doc = .ok outcome ∧
      Css.Styles.ofDocument outcome.document = .ok t ∧
      t.sheets = (s.sheets.filter fun sheet => outcome.document.isAttached sheet.element) ∧
      ∀ node, doc.isElement node → outcome.document.isAttached node = true →
        t.matchingRules outcome.document node = t.matchingRules doc node ∨
          ∃ r ∈ Css.Derived.rules t.sheets, r.selector.looksAside = true ∧
            r.selector.selects outcome.document node ≠ r.selector.selects doc node ∧
            ∃ upper ∈ node :: doc.elementAncestors node, ∃ gone ∈ doc.previousElements upper,
              outcome.document.isAttached gone = false := by
  obtain ⟨edit, outcome, prepared, edited, culled⟩ := exists_culled_of_plugin listed situation p tree
  refine ⟨edit, outcome, _, prepared, edited, Css.Styles.ofDocument_culled tree culled collected, rfl, ?_⟩
  intro node element attached
  by_cases changed : ∃ r ∈ Css.Derived.rules
      (s.sheets.filter fun sheet => outcome.document.isAttached sheet.element),
        r.selector.selects outcome.document node ≠ r.selector.selects doc node
  · obtain ⟨r, ruled, different⟩ := changed
    have disturbed : ¬ (r.selector.looksAside = true → Css.Undisturbed doc outcome.document node) :=
      fun calm => different (Css.Selector.selects_culled tree culled ⟨element, attached, calm⟩)
    rw [Classical.not_imp, Css.Undisturbed] at disturbed
    push Not at disturbed
    obtain ⟨aside, upper, above, gone, before, taken⟩ := disturbed
    exact Or.inr ⟨r, ruled, aside, different, upper, above, gone, before, Bool.not_eq_true _ ▸ taken⟩
  · push Not at changed
    exact Or.inl (Css.Styles.matchingRules_congr rfl changed)

theorem child_rule_selects_behind_container :
    ∃ doc s outcome t,
      Document.read "<svg><style>svg>b\x7bfill:red\x7d</style><g/><b/></svg>" none = .ok doc ∧
      Css.Styles.ofDocument doc = .ok s ∧ dropVacant isVacantContainer doc = .ok outcome ∧
      Css.Styles.ofDocument outcome.document = .ok t ∧ outcome.document.isAttached ⟨4⟩ = false ∧
      (t.matchingRules doc ⟨5⟩).map (·.selector.write) = ["svg>b"] ∧
      t.matchingRules outcome.document ⟨5⟩ = t.matchingRules doc ⟨5⟩ := by
  have computed : ((Document.read "<svg><style>svg>b\x7bfill:red\x7d</style><g/><b/></svg>"
      none).toOption.bind fun doc => (Css.Styles.ofDocument doc).toOption.bind fun s =>
        (dropVacant isVacantContainer doc).toOption.map fun outcome =>
          let t := Css.Styles.ofSheets (s.sheets.filter fun sheet => outcome.document.isAttached sheet.element)
          (doc.isElement ⟨5⟩ && outcome.document.isAttached ⟨5⟩ && !outcome.document.isAttached ⟨4⟩
            && (Css.Derived.rules t.sheets).all (fun r => !r.selector.looksAside),
              (t.matchingRules doc ⟨5⟩).map (·.selector.write))) = some (true, ["svg>b"]) := by
    decide +kernel
  rcases Option.bind_eq_some_iff.mp computed with ⟨doc, parsed, computed⟩
  rcases Option.bind_eq_some_iff.mp computed with ⟨s, collected, computed⟩
  rcases Option.map_eq_some_iff.mp computed with ⟨outcome, ran, computed⟩
  rw [toOption_eq_some] at parsed collected ran
  rcases Prod.mk.inj computed with ⟨facts, selected⟩
  simp only [Bool.and_eq_true, Bool.not_eq_true', List.all_eq_true] at facts
  rcases facts with ⟨⟨⟨element, attached⟩, gone⟩, blind⟩
  rcases @matchingRules_of_remaining removeEmptyContainers (by simp) ⟨1, none, .ofDocument doc⟩ .empty doc
    (Document.grown_of_read parsed).isTree s collected with
      ⟨edit, found, t, prepared, edited, recollected, sheetsEq, kept⟩
  rw [← Option.some.inj (show some _ = some edit from prepared)] at edited
  have same : outcome = found := Except.ok.inj (ran.symm.trans edited)
  subst same
  have known : Css.Styles.ofSheets (s.sheets.filter fun sheet => outcome.document.isAttached sheet.element) = t := by
    rw [← sheetsEq]
    exact Css.Styles.ofSheets_sheets t
  rw [known] at selected blind
  refine ⟨doc, s, outcome, t, parsed, collected, ran, recollected, gone, selected, ?_⟩
  rcases kept ⟨5⟩ element attached with same | ⟨r, ruled, aside, -⟩
  · exact same
  · rw [blind r ruled] at aside
    cases aside

/-- The container stood before `b`, and the rule asks for it there. -/
theorem sibling_rule_loses_its_match :
    ∃ doc s outcome t,
      Document.read "<svg><style>g+b\x7bfill:red\x7d</style><g/><b fill='black'/></svg>" none = .ok doc ∧
      Css.Styles.ofDocument doc = .ok s ∧ dropVacant isVacantContainer doc = .ok outcome ∧
      Css.Styles.ofDocument outcome.document = .ok t ∧ t.elements = s.elements ∧
      outcome.document.isAttached ⟨5⟩ = true ∧
      (t.matchingRules doc ⟨5⟩).map (·.selector.write) = ["g+b"] ∧
      t.matchingRules outcome.document ⟨5⟩ = [] := by
  have computed : ((Document.read "<svg><style>g+b\x7bfill:red\x7d</style><g/><b fill='black'/></svg>"
      none).toOption.bind fun doc => (Css.Styles.ofDocument doc).toOption.bind fun s =>
        (dropVacant isVacantContainer doc).toOption.bind fun outcome =>
          (Css.Styles.ofDocument outcome.document).toOption.map fun t =>
            (t.elements == s.elements && outcome.document.isAttached ⟨5⟩
              && (t.matchingRules outcome.document ⟨5⟩).isEmpty,
                (t.matchingRules doc ⟨5⟩).map (·.selector.write))) = some (true, ["g+b"]) := by
    decide +kernel
  rcases Option.bind_eq_some_iff.mp computed with ⟨doc, parsed, computed⟩
  rcases Option.bind_eq_some_iff.mp computed with ⟨s, collected, computed⟩
  rcases Option.bind_eq_some_iff.mp computed with ⟨outcome, ran, computed⟩
  rcases Option.map_eq_some_iff.mp computed with ⟨t, recollected, computed⟩
  rw [toOption_eq_some] at parsed collected ran recollected
  rcases Prod.mk.inj computed with ⟨facts, selected⟩
  rw [Bool.and_eq_true, Bool.and_eq_true, beq_iff_eq, List.isEmpty_iff] at facts
  exact ⟨doc, s, outcome, t, parsed, collected, ran, recollected, facts.1.1, facts.1.2, selected, facts.2⟩

-- Only the second of the two rules looks at what stands before an element.
example : ["svg>b", "g+b"].map (fun text => (Css.Selector.read text).toOption.map (·.looksAside)) =
    [some false, some true] := by
  decide +kernel

/-! ## The cascade when hidden elements go -/

/-- An element that is left has the style that it had, unless a style element was taken
out with what was hidden, and a rule in it selected the element or one above it. -/
theorem computedStyle_of_remaining {pass : Nat} {path : Option String} {p : Parameters} {doc : Document}
    (tree : doc.IsTree) {edit : DocumentEdit}
    (prepared : removeHiddenElements.prepare ⟨pass, path, .ofDocument doc⟩ p = some edit) :
    ∃ s outcome t, Css.Styles.ofDocument doc = .ok s ∧ edit doc = .ok outcome ∧
      Css.Styles.ofDocument outcome.document = .ok t ∧
      t.sheets = (s.sheets.filter fun sheet => outcome.document.isAttached sheet.element) ∧
      ∀ node, doc.isElement node → outcome.document.isAttached node = true →
        (t.computedStyle outcome.document node []).1 = (s.computedStyle doc node []).1 ∨
          ∃ sheet ∈ s.sheets, outcome.document.isAttached sheet.element = false ∧
            ∃ r ∈ sheet.sets.flatMap (·.rules), ∃ upper ∈ node :: doc.elementAncestors node,
              r.selector.selects doc upper = true := by
  obtain ⟨s, still, prepared⟩ := Option.bind_eq_some_iff.mp prepared
  obtain ⟨alone, same⟩ := Option.ite_none_left_eq_some.mp prepared
  obtain ⟨outcome, edited, culled⟩ := @exists_culled_enterHidden doc tree ⟨pass, path, .ofDocument doc⟩ p s still
  rw [Option.some.inj same] at edited
  have collected := Summary.ofDocument_of_stillStyles? still
  refine ⟨s, outcome, _, collected, edited, Css.Styles.ofDocument_culled tree culled collected, rfl, ?_⟩
  have upwards : ∀ r ∈ Css.Derived.rules s.sheets, r.selector.looksAside = false := by
    rw [Bool.not_eq_true, s.derived_eq] at alone
    intro r ruled
    exact Css.Selector.looksAside_of_hasCombinators (Bool.not_eq_true _ ▸ List.any_eq_false.mp alone r ruled)
  intro node element attached
  by_cases lost : ∃ sheet ∈ s.sheets, outcome.document.isAttached sheet.element = false ∧
      ∃ r ∈ sheet.sets.flatMap (·.rules), ∃ upper ∈ node :: doc.elementAncestors node,
        r.selector.selects doc upper = true
  · exact Or.inr lost
  · left
    push Not at lost
    have lines := culled.elementAncestors_eq tree element attached
    rw [(Css.Styles.computedStyle_sound culled.tree (Css.Styles.Memo.Built.empty.sound culled.tree) node).1,
      (Css.Styles.computedStyle_sound tree (Css.Styles.Memo.Built.empty.sound tree) node).1, lines.1]
    refine Css.inherited_congr fun upper listed => ?_
    have place : doc.isElement upper ∧ outcome.document.isAttached upper = true := by
      rcases List.mem_cons.mp listed with same | above
      · exact same ▸ ⟨element, attached⟩
      · exact ⟨((Document.mem_elementAncestors tree).mp above).2, lines.2 upper above⟩
    refine Css.Styles.ownStyle_culled tree culled upwards place.1 place.2 fun sheet among gone r ruled => ?_
    exact Bool.not_eq_true _ ▸ lost sheet among gone r ruled upper listed

theorem rule_beside_hidden_group_stays :
    ∃ doc s edit outcome t,
      Document.read "<svg><style>rect\x7bfill:red\x7d</style><g display='none'/><rect/></svg>" none = .ok doc ∧
      Css.Styles.ofDocument doc = .ok s ∧
      removeHiddenElements.prepare ⟨1, none, .ofDocument doc⟩ .empty = some edit ∧ edit doc = .ok outcome ∧
      Css.Styles.ofDocument outcome.document = .ok t ∧ outcome.document.isAttached ⟨4⟩ = false ∧
      (s.computedStyle doc ⟨5⟩ []).1.get? "fill" = some (.known "red") ∧
      (t.computedStyle outcome.document ⟨5⟩ []).1 = (s.computedStyle doc ⟨5⟩ []).1 := by
  have computed : ((Document.read "<svg><style>rect\x7bfill:red\x7d</style><g display='none'/><rect/></svg>"
      none).toOption.bind fun doc => (Css.Styles.ofDocument doc).toOption.bind fun s =>
        (removeHiddenElements.prepare ⟨1, none, .ofDocument doc⟩ .empty).bind fun edit =>
          (edit doc).toOption.map fun outcome =>
            (doc.isElement ⟨5⟩ && outcome.document.isAttached ⟨5⟩ && !outcome.document.isAttached ⟨4⟩
              && s.sheets.all (fun sheet => outcome.document.isAttached sheet.element),
                (s.computedStyle doc ⟨5⟩ []).1.get? "fill")) = some (true, some (.known "red")) := by
    decide +kernel
  rcases Option.bind_eq_some_iff.mp computed with ⟨doc, parsed, computed⟩
  rcases Option.bind_eq_some_iff.mp computed with ⟨s, collected, computed⟩
  rcases Option.bind_eq_some_iff.mp computed with ⟨edit, prepared, computed⟩
  rcases Option.map_eq_some_iff.mp computed with ⟨outcome, ran, computed⟩
  rw [toOption_eq_some] at parsed collected ran
  rcases Prod.mk.inj computed with ⟨facts, painted⟩
  simp only [Bool.and_eq_true, Bool.not_eq_true', List.all_eq_true] at facts
  rcases facts with ⟨⟨⟨element, attached⟩, gone⟩, whole⟩
  rcases computedStyle_of_remaining (Document.grown_of_read parsed).isTree prepared with
    ⟨others, found, t, othersCollected, edited, recollected, -, kept⟩
  have sameStyles : others = s := Except.ok.inj (othersCollected.symm.trans collected)
  have sameOutcome : found = outcome := Except.ok.inj (edited.symm.trans ran)
  rw [sameOutcome] at recollected kept
  rw [sameStyles] at kept
  refine ⟨doc, s, edit, outcome, t, parsed, collected, prepared, ran, recollected, gone, painted, ?_⟩
  rcases kept ⟨5⟩ element attached with same | ⟨sheet, among, lost, -⟩
  · exact same
  · rw [whole sheet among] at lost
    cases lost

/-- The group is hidden and the rule in it is not: it shows the rectangle, which stays and
is hidden from then on. -/
theorem rule_goes_with_hidden_group :
    ∃ doc s edit outcome t,
      Document.read
        "<svg><g display='none'><style>rect\x7bdisplay:inline\x7d</style></g><rect display='none'/></svg>" none =
          .ok doc ∧
      Css.Styles.ofDocument doc = .ok s ∧
      removeHiddenElements.prepare ⟨1, none, .ofDocument doc⟩ .empty = some edit ∧ edit doc = .ok outcome ∧
      Css.Styles.ofDocument outcome.document = .ok t ∧ outcome.document.isAttached ⟨5⟩ = true ∧
      (s.computedStyle doc ⟨5⟩ []).1.get? "display" = some (.known "inline") ∧
      (t.computedStyle outcome.document ⟨5⟩ []).1.get? "display" = some (.known "none") := by
  have computed : ((Document.read
      "<svg><g display='none'><style>rect\x7bdisplay:inline\x7d</style></g><rect display='none'/></svg>"
      none).toOption.bind fun doc => (Css.Styles.ofDocument doc).toOption.bind fun s =>
        (removeHiddenElements.prepare ⟨1, none, .ofDocument doc⟩ .empty).bind fun edit =>
          (edit doc).toOption.bind fun outcome => (Css.Styles.ofDocument outcome.document).toOption.map fun t =>
            (outcome.document.isAttached ⟨5⟩, (s.computedStyle doc ⟨5⟩ []).1.get? "display",
              (t.computedStyle outcome.document ⟨5⟩ []).1.get? "display")) =
      some (true, some (.known "inline"), some (.known "none")) := by
    decide +kernel
  rcases Option.bind_eq_some_iff.mp computed with ⟨doc, parsed, computed⟩
  rcases Option.bind_eq_some_iff.mp computed with ⟨s, collected, computed⟩
  rcases Option.bind_eq_some_iff.mp computed with ⟨edit, prepared, computed⟩
  rcases Option.bind_eq_some_iff.mp computed with ⟨outcome, ran, computed⟩
  rcases Option.map_eq_some_iff.mp computed with ⟨t, recollected, values⟩
  rw [toOption_eq_some] at parsed collected ran recollected
  rcases Prod.mk.inj values with ⟨attached, values⟩
  rcases Prod.mk.inj values with ⟨before, behind⟩
  exact ⟨doc, s, edit, outcome, t, parsed, collected, prepared, ran, recollected, attached, before, behind⟩

end Cleanup
end SlimSvg
