import SlimSvg.Proofs.Cleanup.Taking

namespace SlimSvg

/-!
# All known plugins are orderly

Plugins that change values leave all nodes in their places, and those that change the
sheets write them back through what they hand on.  The two that look at styles on the way
take away nothing but what they have found to be out of use.
-/

namespace Plugin

variable {plugin : Plugin} {doc : Document}

/-! ## Values -/

theorem exists_outcome_mapValues (tree : doc.IsTree) {Stays : NodeId → Prop}
    (stays : ∀ id, Stays id → doc.isElement id ∧ doc.isAttached id = true)
    (f : String → AttributeValue → AttributeValue) :
    ∃ outcome, Cleanup.mapValues f doc = .ok outcome ∧ outcome.newStyles = none ∧
      Document.Reduced doc outcome.document ∧ ∀ id, Stays id → outcome.document.isAttached id = true := by
  let edit (e : Element) : Element := { e with attributes := e.attributes.mapValues f }
  refine ⟨{ document := doc.mapElements edit }, rfl, rfl, .mapElements tree fun _ => rfl, ?_⟩
  intro id listed
  exact ((Document.sameShape_mapElements edit).isAttached_eq id).trans (stays id listed).2

theorem orderly_convertColors : Cleanup.convertColors.Orderly := by
  refine .of_unstyled fun situation p edit doc prepared tree => ?_
  rw [← Option.some.inj (show some _ = some edit from prepared)]
  exact exists_outcome_mapValues tree (Spared.start Cleanup.convertColors situation p doc) _

theorem orderly_minifyValues : Cleanup.minifyValues.Orderly := by
  refine .of_unstyled fun situation p edit doc prepared tree => ?_
  rw [← Option.some.inj (show some _ = some edit from prepared)]
  exact exists_outcome_mapValues tree (Spared.start Cleanup.minifyValues situation p doc) _

/-! ## Sheets, ids and classes -/

/-- A plugin that hands on the sheets that were known. -/
theorem exists_outcome_withStyles {situation : Situation} {p : Parameters} {s : Css.Styles}
    (known : situation.summary.styles? = some s) {edit : Document → Css.Styles × Document}
    (handsOn : s.HandsOn doc (edit doc).1 (edit doc).2) :
    ∃ outcome, DocumentEdit.withStyles edit doc = .ok outcome ∧ Document.Reduced doc outcome.document ∧
      match outcome.newStyles with
      | some t => ∃ s, situation.summary.styles? = some s ∧ s.HandsOn doc t outcome.document
      | none => ∀ id, Spared plugin situation p doc id → outcome.document.isAttached id = true :=
  ⟨{ document := (edit doc).2, newStyles := some (edit doc).1 }, rfl, handsOn.reduced, s, known, handsOn⟩

theorem orderly_mergeStyles : Cleanup.mergeStyles.Orderly := by
  intro situation p edit doc prepared tree held
  rcases Option.map_eq_some_iff.mp prepared with ⟨s, reliable, rfl⟩
  have known := styles?_of_reliableStyles? reliable
  exact exists_outcome_withStyles known (Css.Styles.handsOn_merge tree (held s known))

theorem kind_shortenInline (e : Element) : (Cleanup.shortenInline e).kind = e.kind := by
  rw [Cleanup.shortenInline]
  split
  · rfl
  · dsimp only
    split
    · split <;> rfl
    · rfl

theorem orderly_minifyStyles : Cleanup.minifyStyles.Orderly := by
  intro situation p edit doc prepared tree held
  rcases Option.map_eq_some_iff.mp prepared with ⟨s, reliable, rfl⟩
  have known := styles?_of_reliableStyles? reliable
  have inlined := Css.Styles.HandsOn.mapElements s tree kind_shortenInline
  exact exists_outcome_withStyles known
    (inlined.trans (Css.Styles.handsOn_minify inlined.reduced.tree (inlined.held (held s known)) _))

theorem kind_editElement_ids (plan : Cleanup.IdPlan) (e : Element) : (plan.editElement e).kind = e.kind := by
  rw [Cleanup.IdPlan.editElement]
  split
  · rfl
  · split
    · rfl
    · split <;> rfl

theorem handsOn_applyIds (plan : Cleanup.IdPlan) {s : Css.Styles} (tree : doc.IsTree) (held : s.Held doc) :
    s.HandsOn doc (plan.apply s doc).1 (plan.apply s doc).2 := by
  have edited := Css.Styles.HandsOn.mapElements s tree (kind_editElement_ids plan)
  rw [Cleanup.IdPlan.apply]
  split
  · exact edited
  · have linked := edited.trans (.mapElements s edited.reduced.tree
      (f := Cleanup.Link.rename plan.newName?) fun _ => rfl)
    exact linked.trans (Css.Styles.handsOn_renameIds linked.reduced.tree (linked.held held) _)

/-- A sprite sheet is left as it is. -/
theorem orderly_cleanupIds : Cleanup.cleanupIds.Orderly := by
  intro situation p edit doc prepared tree held
  rcases Option.bind_eq_some_iff.mp prepared with ⟨s, still, prepared⟩
  rcases Option.ite_none_left_eq_some.mp prepared with ⟨-, same⟩
  have known := styles?_of_stillStyles? still
  rw [← Option.some.inj same, Cleanup.cleanIds]
  split
  · exact ⟨{ document := doc }, rfl, .refl tree, fun id spared => spared.attached⟩
  · have handsOn := handsOn_applyIds (.make (.ofParameters p) (.ofDocument s doc)) tree (held s known)
    exact ⟨_, rfl, handsOn.reduced, s, known, handsOn⟩

theorem kind_editElement_classes (plan : Cleanup.ClassPlan) (e : Element) :
    (plan.editElement e).kind = e.kind := by
  rw [Cleanup.ClassPlan.editElement]
  split
  · rfl
  · split <;> rfl

theorem handsOn_applyClasses (plan : Cleanup.ClassPlan) {s : Css.Styles} (tree : doc.IsTree)
    (held : s.Held doc) : s.HandsOn doc (plan.apply s doc).1 (plan.apply s doc).2 := by
  have edited := Css.Styles.HandsOn.mapElements s tree (kind_editElement_classes plan)
  rw [Cleanup.ClassPlan.apply]
  split
  · exact edited
  · exact edited.trans (Css.Styles.handsOn_renameClasses edited.reduced.tree (edited.held held) _)

theorem orderly_minifyClassNames : Cleanup.minifyClassNames.Orderly := by
  intro situation p edit doc prepared tree held
  rcases Option.bind_eq_some_iff.mp prepared with ⟨s, reliable, prepared⟩
  rcases Option.ite_none_left_eq_some.mp prepared with ⟨-, same⟩
  have known := styles?_of_reliableStyles? reliable
  rw [← Option.some.inj same]
  exact exists_outcome_withStyles known (handsOn_applyClasses _ tree (held s known))

/-! ## Redundant and unpainted attributes -/

theorem orderly_removeRedundantAttributes : Cleanup.removeRedundantAttributes.Orderly := by
  refine .of_unstyled fun situation p edit doc prepared tree => ?_
  rcases Option.map_eq_some_iff.mp prepared with ⟨s, -, rfl⟩
  refine exists_outcome_of_safe ?_
    (Reducing.start tree (Spared.start Cleanup.removeRedundantAttributes situation p doc) [])
  refine { Reducing.idle doc _ with enter := fun node _ ancestors _ => ?_ }
  change (Cleanup.enterRedundant (.ofParameters p) s node ancestors).Leads _ _
  rw [Cleanup.enterRedundant]
  refine Visit.leads_document_bind fun current => ?_
  cases current.element? node with
  | none => exact (Visit.leads_pure _).of_imp fun _ both => both.1.1
  | some e =>
      dsimp only
      split
      · refine Visit.leads_state_bind fun memo => ?_
        refine (Visit.leads_editState fun scene both => both.1.1.1.setState _).bind fun _ => ?_
        refine (Visit.leads_editDocument fun scene reducing => ?_).bind fun _ => Visit.leads_pure _
        exact reducing.modifyElement node fun _ => rfl
      · exact (Visit.leads_pure _).of_imp fun _ both => both.1.1

theorem kind_editPaint (edit : Cleanup.PaintEdit) (name start : String) (e : Element) :
    (Cleanup.PaintEdits.editPaint edit name start e).kind = e.kind := by
  cases edit <;> rfl

theorem kind_applyPaint (edits : Cleanup.PaintEdits) (e : Element) : (edits.apply e).kind = e.kind :=
  (kind_editPaint _ _ _ _).trans (kind_editPaint _ _ _ _)

theorem orderly_removeUnpaintedAttributes : Cleanup.removeUnpaintedAttributes.Orderly := by
  refine .of_unstyled fun situation p edit doc prepared tree => ?_
  rcases Option.map_eq_some_iff.mp prepared with ⟨s, -, rfl⟩
  refine exists_outcome_of_safe ?_
    (Reducing.start tree (Spared.start Cleanup.removeUnpaintedAttributes situation p doc) [])
  refine { Reducing.idle doc _ with enter := fun node _ ancestors _ => ?_ }
  change (Cleanup.enterPainted (.ofParameters p) s node ancestors).Leads _ _
  rw [Cleanup.enterPainted]
  refine Visit.leads_document_bind fun current => ?_
  dsimp only
  split
  · exact (Visit.leads_pure _).of_imp fun _ both => both.1.1
  · next shaped =>
    rw [Bool.not_eq_true, Bool.not_eq_false'] at shaped
    refine Visit.leads_state_bind fun memo => ?_
    let J : Scene Css.Styles.Memo → Prop := fun scene =>
      Reducing doc (Spared Cleanup.removeUnpaintedAttributes situation p doc) scene ∧ scene.document = current
    refine (Visit.leads_editState (J := J) fun scene both =>
      ⟨both.1.1.1.setState _, both.1.2⟩).bind fun _ => ?_
    split
    · next edits _ =>
      split
      · next wanted =>
        rw [Bool.and_eq_true] at wanted
        refine (Visit.leads_editDocument ?_).bind fun _ => Visit.leads_pure _
        rintro scene ⟨reducing, rfl⟩
        apply reducing.detach
        intro id spared element attached listed
        rw [reducing.above_iff tree element attached] at listed
        rcases (Option.any_eq_true _ _).mp shaped with ⟨e, found, isShape⟩
        rcases reducing.reduced.exists_element? found with ⟨old, foundOld, same⟩
        rw [← (Prod.mk.inj same).1] at isShape
        exact spared.spared node listed (takes_of_shape foundOld isShape wanted.1)
      · refine (Visit.leads_editDocument fun scene both => ?_).bind fun _ => Visit.leads_pure _
        exact both.1.modifyElement node (kind_applyPaint edits)
    · exact (Visit.leads_pure _).of_imp fun _ both => both.1

/-! ## Hidden elements -/

/-- What is known on the way to the hidden elements. -/
structure Searching (situation : Situation) (p : Parameters) (s : Css.Styles) (doc : Document)
    (scene : Scene Cleanup.HiddenSearch) : Prop where
  document_eq : scene.document = doc
  sound : Css.Styles.Memo.Sound s doc scene.state.memo
  found : ∀ node ∈ scene.state.found, Cleanup.removeHiddenElements.takes situation p doc node

theorem leads_enterHidden {situation : Situation} {p : Parameters} {s : Css.Styles} (tree : doc.IsTree)
    (known : situation.summary.stillStyles? = some s) {node parent : NodeId} {ancestors : List NodeId}
    (outermost : ancestors = [] ↔ parent = Document.root) :
    (Cleanup.enterHidden s node ancestors).Leads
      (fun scene => Searching situation p s doc scene ∧ scene.document.parent? node = some parent)
      (Searching situation p s doc) := by
  rw [Cleanup.enterHidden]
  refine Visit.leads_document_bind fun current => ?_
  split
  · next e found =>
    split
    · exact (Visit.leads_pure _).of_imp fun _ both => both.1.1
    · split
      · exact (Visit.leads_pure _).of_imp fun _ both => both.1.1
      · next inner =>
        refine Visit.leads_state_bind fun search => ?_
        dsimp only
        split
        · next hidden =>
          refine (Visit.leads_editState ?_).bind fun _ => Visit.leads_pure _
          rintro scene ⟨⟨⟨searching, linked⟩, rfl⟩, rfl⟩
          rw [searching.document_eq] at found linked hidden ⊢
          have styled := Css.Styles.computedStyle_sound tree searching.sound node
          rw [styled.1] at hidden
          refine ⟨rfl, styled.2, ?_⟩
          intro other listed
          rcases List.mem_cons.mp listed with same | earlier
          · rw [same]
            refine takes_of_hidden found ?_ known hidden
            rw [linked]
            intro atRoot
            exact inner (List.isEmpty_iff.mpr (outermost.mpr (Option.some.inj atRoot)))
          · exact searching.found other earlier
        · refine (Visit.leads_editState ?_).bind fun _ => Visit.leads_pure _
          rintro scene ⟨⟨⟨searching, -⟩, rfl⟩, rfl⟩
          rw [searching.document_eq]
          exact ⟨rfl, (Css.Styles.computedStyle_sound tree searching.sound node).2, searching.found⟩
  · exact (Visit.leads_pure _).of_imp fun _ both => both.1.1

theorem leads_exitHidden {situation : Situation} {p : Parameters} {s : Css.Styles} (tree : doc.IsTree) :
    (Cleanup.exitHidden s).Leads (Searching situation p s doc)
      (Reducing doc (Spared Cleanup.removeHiddenElements situation p doc)) := by
  have taken : ∀ (ids : List String) (nodes : List NodeId) (scene : Scene Cleanup.HiddenSearch),
      (∀ node ∈ nodes, Cleanup.removeHiddenElements.takes situation p doc node) →
        Reducing doc (Spared Cleanup.removeHiddenElements situation p doc) scene →
          Reducing doc (Spared Cleanup.removeHiddenElements situation p doc)
            { scene with document := nodes.foldl (Cleanup.takeUnreferenced ids) scene.document } := by
    intro ids nodes
    induction nodes with
    | nil => exact fun scene _ reducing => reducing
    | cons node rest inductionHypothesis =>
        intro scene found reducing
        refine inductionHypothesis { scene with document := Cleanup.takeUnreferenced ids scene.document node }
          (fun other listed => found other (List.mem_cons_of_mem node listed)) ?_
        rw [Cleanup.takeUnreferenced]
        split
        · exact reducing
        · refine reducing.detach node ?_
          intro id spared element attached listed
          rw [reducing.above_iff tree element attached] at listed
          exact spared.spared node listed (found node List.mem_cons_self)
  rw [Cleanup.exitHidden]
  refine Visit.leads_state_bind fun search => Visit.leads_editDocument ?_
  rintro scene ⟨searching, rfl⟩
  have start : Reducing doc (Spared Cleanup.removeHiddenElements situation p doc) scene := by
    rcases scene with ⟨state, document⟩
    have same : document = doc := searching.document_eq
    rw [same]
    exact .start tree (Spared.start _ situation p doc) state
  refine taken _ _ scene ?_ start
  intro node listed
  exact searching.found node (List.mem_reverse.mp listed)

theorem orderly_removeHiddenElements : Cleanup.removeHiddenElements.Orderly := by
  refine .of_unstyled fun situation p edit doc prepared tree => ?_
  rcases Option.bind_eq_some_iff.mp prepared with ⟨s, still, prepared⟩
  rcases Option.ite_none_left_eq_some.mp prepared with ⟨-, same⟩
  rw [← Option.some.inj same]
  have searching : Searching situation p s doc ⟨⟨[], []⟩, doc⟩ :=
    ⟨rfl, fun _ _ => nofun, fun _ => nofun⟩
  refine exists_outcome_of_safe ?_ searching
  have idle : Visitor.Safe (fun _ => True) doc.nodes.size (Searching situation p s doc)
      (Searching situation p s doc) {} :=
    .idle (fun searching => searching.document_eq ▸ tree) (fun searching => searching.document_eq ▸ rfl)
  exact { idle with
    enter := fun _ _ _ outermost => leads_enterHidden tree still outermost
    exitRoot := leads_exitHidden tree }

/-! ## All of them -/

/-- Every plugin that can be asked for by name succeeds and does no more than reduce the
document. -/
theorem orderly_of_known (known : plugin ∈ Plugin.known) : plugin.Orderly := by
  rw [Plugin.known, usual] at known
  simp only [List.cons_append, List.nil_append, List.mem_cons, List.not_mem_nil, or_false] at known
  rcases known with rfl | rfl | rfl | rfl | rfl | rfl | rfl | rfl | rfl | rfl | rfl | rfl | rfl | rfl | rfl
  · exact orderly_removeDoctype
  · exact orderly_removeXmlDeclaration
  · exact orderly_removeComments
  · exact orderly_removeMetadata
  · exact orderly_mergeStyles
  · exact orderly_minifyStyles
  · exact orderly_cleanupIds
  · exact orderly_convertColors
  · exact orderly_minifyValues
  · exact orderly_removeRedundantAttributes
  · exact orderly_removeUnpaintedAttributes
  · exact orderly_removeHiddenElements
  · exact orderly_removeEmptyText
  · exact orderly_removeEmptyContainers
  · exact orderly_minifyClassNames

end Plugin
end SlimSvg
