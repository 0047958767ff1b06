import SlimSvg.Proofs.Cleanup.Survivors
import SlimSvg.Proofs.Css.Merge
import SlimSvg.Proofs.Tree.Weight

namespace SlimSvg

/-!
# Plugins that never make a document longer

Most plugins only take something away or write it shorter.  Shortening relies on one
property of values: that their shortest texts are not written longer than their texts.
Values that are read have it, and every plugin keeps it, also those that may make a
document longer: sheets that are merged or written anew may need more escaping, a short
id may get a longer name, and a paint may be refused in so many words.
-/

open Written

/-- Whether no value of an element is written longer in its shortest form. -/
def Element.Frugal (e : Element) : Prop :=
  ∀ a ∈ e.attributes.items, a.value.Frugal

namespace Element.Frugal

variable {e : Element}

theorem of_typed (typed : e.Typed) : e.Frugal := by
  intro a listed
  rcases typed.value_eq a listed with ⟨text, same⟩
  rw [same]
  exact AttributeValue.frugal_ofAttribute _ _ text

theorem insert (frugal : e.Frugal) (name : String) {value : AttributeValue} (valued : value.Frugal) :
    Element.Frugal { e with attributes := e.attributes.insert name value } := by
  intro a listed
  rcases Attributes.mem_insert listed with new | old
  · rw [new]
    exact valued
  · exact frugal a old

theorem setAttribute (frugal : e.Frugal) (name text : String) : (e.setAttribute name text).Frugal :=
  frugal.insert name (AttributeValue.frugal_ofAttribute _ _ text)

theorem removeAttribute (frugal : e.Frugal) (name : String) : (e.removeAttribute name).Frugal :=
  fun a listed => frugal a (List.mem_of_mem_eraseP listed)

theorem retain (frugal : e.Frugal) (keep : Attribute → Bool) :
    Element.Frugal { e with attributes := e.attributes.retain keep } :=
  fun a listed => frugal a (List.mem_filter.mp listed).1

theorem mapValues {f : String → AttributeValue → AttributeValue} (kept : ∀ name v, v.Frugal → (f name v).Frugal)
    (frugal : e.Frugal) : Element.Frugal { e with attributes := e.attributes.mapValues f } := by
  intro a listed
  rcases List.mem_map.mp listed with ⟨old, among, rfl⟩
  exact kept old.name old.value (frugal old among)

theorem shortenInline (frugal : e.Frugal) : (Cleanup.shortenInline e).Frugal := by
  rw [Cleanup.shortenInline]
  split
  · exact frugal
  · next value _ =>
    dsimp only
    split
    · split
      · exact frugal.removeAttribute "style"
      · exact frugal.insert "style" (AttributeValue.frugal_minify value)
    · exact frugal.insert "style" (AttributeValue.frugal_minify value)

theorem editElement (frugal : e.Frugal) (plan : Cleanup.IdPlan) : (plan.editElement e).Frugal := by
  rw [Cleanup.IdPlan.editElement]
  split
  · exact frugal
  · split
    · exact frugal.removeAttribute "id"
    · split
      · exact frugal
      · exact frugal.setAttribute "id" _

theorem rename (frugal : e.Frugal) (map : String → Option String) : (Cleanup.Link.rename map e).Frugal := by
  intro a listed
  rcases List.mem_map.mp listed with ⟨old, among, rfl⟩
  rw [Cleanup.Link.renameInAttribute]
  split
  · exact AttributeValue.frugal_ofAttribute _ _ _
  · exact frugal old among

theorem editPaint (frugal : e.Frugal) (edit : Cleanup.PaintEdit) (name start : String) :
    (Cleanup.PaintEdits.editPaint edit name start e).Frugal := by
  cases edit with
  | keep => exact frugal
  | drop => exact frugal.retain _
  | disable => exact (frugal.retain _).setAttribute name "none"

end Element.Frugal

namespace Plugin

/-- The names of the plugins that may make a document longer. -/
def lengtheners : List String :=
  ["mergeStyles", "minifyStyles", "cleanupIds", "removeUselessStrokeAndFill"]

def mayLengthen (plugin : Plugin) : Bool :=
  lengtheners.contains plugin.name

/-- Whether a plugin succeeds and keeps the values frugal, and makes the document no longer
unless it is one of those that may. -/
def Thrifty (plugin : Plugin) : Prop :=
  ∀ situation p edit doc, plugin.prepare situation p = some edit → doc.Grown Element.Frugal →
    (∀ s, situation.summary.styles? = some s → s.Held doc) →
      ∃ outcome, edit doc = .ok outcome ∧ outcome.document.Grown Element.Frugal ∧
        (plugin.mayLengthen = false → doc.Lighter outcome.document)

variable {plugin : Plugin} {doc : Document}

/-! ## Visits -/

section Visits

variable {σ : Type}

/-- What holds on the way through a document that becomes no longer. -/
structure Saving (doc : Document) (scene : Scene σ) : Prop where
  grown : scene.document.Grown Element.Frugal
  lighter : doc.Lighter scene.document

namespace Saving

variable {scene : Scene σ}

theorem start (grown : doc.Grown Element.Frugal) (state : σ) : Saving doc ⟨state, doc⟩ :=
  ⟨grown, .refl doc⟩

theorem setState (saving : Saving doc scene) (state : σ) : Saving doc { scene with state := state } :=
  ⟨saving.grown, saving.lighter⟩

theorem detach (saving : Saving doc scene) (node : NodeId) :
    Saving doc { scene with document := scene.document.detach node } :=
  ⟨saving.grown.detach node, saving.lighter.trans (.detach saving.grown.toLinked node)⟩

theorem idle (doc : Document) :
    Visitor.Safe Element.Frugal doc.nodes.size (Saving (σ := σ) doc) (Saving doc) {} :=
  .idle (fun saving => saving.grown) (fun saving => saving.lighter.size_eq)

end Saving

theorem exists_outcome_of_saving {v : Visitor σ} {start : σ}
    (safe : v.Safe Element.Frugal doc.nodes.size (Saving doc) (Saving doc)) (grown : doc.Grown Element.Frugal) :
    ∃ outcome, DocumentEdit.visiting v start doc = .ok outcome ∧ outcome.document.Grown Element.Frugal ∧
      doc.Lighter outcome.document := by
  rcases safe.run_succeeds (Saving.start grown start) with ⟨after, ran, saving⟩
  exact ⟨_, DocumentEdit.visiting_of_run ran, saving.grown, saving.lighter⟩

end Visits

/-- A plugin that writes no document longer. -/
theorem Thrifty.of_lighter
    (saves : ∀ situation p edit doc, plugin.prepare situation p = some edit → doc.Grown Element.Frugal →
      ∃ outcome, edit doc = .ok outcome ∧ outcome.document.Grown Element.Frugal ∧ doc.Lighter outcome.document) :
    plugin.Thrifty := by
  intro situation p edit doc prepared grown _
  rcases saves situation p edit doc prepared grown with ⟨outcome, edited, kept, lighter⟩
  exact ⟨outcome, edited, kept, fun _ => lighter⟩

/-! ## Taking nodes away -/

theorem leads_discardIf_saving (gone : NodeContent → Bool) (node : NodeId) :
    (Cleanup.discardIf gone node).Leads
      (fun scene => Saving doc scene ∧ ¬ scene.document.isElement node) (Saving doc) := by
  apply Visit.leads_editDocument
  rintro scene ⟨saving, -⟩
  split
  · exact saving.detach node
  · exact saving

theorem thrifty_removeDoctype : Cleanup.removeDoctype.Thrifty := by
  refine .of_lighter fun situation p edit doc prepared grown => ?_
  rw [← Option.some.inj (show some _ = some edit from prepared)]
  exact exists_outcome_of_saving
    { Saving.idle doc with doctype := fun node _ => leads_discardIf_saving (fun _ => true) node } grown

theorem thrifty_removeXmlDeclaration : Cleanup.removeXmlDeclaration.Thrifty := by
  refine .of_lighter fun situation p edit doc prepared grown => ?_
  rw [← Option.some.inj (show some _ = some edit from prepared)]
  exact exists_outcome_of_saving
    { Saving.idle doc with instruction := fun node _ => leads_discardIf_saving _ node } grown

theorem thrifty_removeComments : Cleanup.removeComments.Thrifty := by
  refine .of_lighter fun situation p edit doc prepared grown => ?_
  rw [← Option.some.inj (show some _ = some edit from prepared)]
  exact exists_outcome_of_saving
    { Saving.idle doc with
      comment := fun node _ =>
        leads_discardIf_saving (fun c => !(p.truth "preserveLegal" true && Cleanup.isNotice c)) node } grown

/-- Elements that go make the document no longer. -/
theorem exists_outcome_of_culled {edit : DocumentEdit} (grown : doc.Grown Element.Frugal)
    (culls : ∃ outcome, edit doc = .ok outcome ∧ doc.Culled outcome.document) :
    ∃ outcome, edit doc = .ok outcome ∧ outcome.document.Grown Element.Frugal ∧ doc.Lighter outcome.document := by
  rcases culls with ⟨outcome, edited, culled⟩
  exact ⟨outcome, edited, culled.grown grown, .of_culled culled⟩

theorem thrifty_of_culling
    (listed : plugin ∈ [Cleanup.removeMetadata, Cleanup.removeEmptyText, Cleanup.removeEmptyContainers]) :
    plugin.Thrifty := by
  refine .of_lighter fun situation p edit doc prepared grown => ?_
  rcases Cleanup.exists_culled_of_plugin listed situation p grown.isTree with
    ⟨known, outcome, preparedToo, edited, culled⟩
  cases prepared.symm.trans preparedToo
  exact exists_outcome_of_culled grown ⟨outcome, edited, culled⟩

theorem thrifty_removeHiddenElements : Cleanup.removeHiddenElements.Thrifty := by
  refine .of_lighter fun situation p edit doc prepared grown => ?_
  rcases Option.bind_eq_some_iff.mp prepared with ⟨s, still, prepared⟩
  rcases Option.ite_none_left_eq_some.mp prepared with ⟨-, same⟩
  rw [← Option.some.inj same]
  exact exists_outcome_of_culled grown (Cleanup.exists_culled_enterHidden (p := p) grown.isTree still)

/-! ## Shorter attributes -/

theorem exists_outcome_mapValues_saving (grown : doc.Grown Element.Frugal)
    {f : String → AttributeValue → AttributeValue} (kept : ∀ name v, v.Frugal → (f name v).Frugal)
    (within : ∀ name v, v.Frugal → Within (f name v).text v.text) :
    ∃ outcome, Cleanup.mapValues f doc = .ok outcome ∧ outcome.document.Grown Element.Frugal ∧
      doc.Lighter outcome.document := by
  refine ⟨_, rfl, grown.mapElements _ fun e frugal => frugal.mapValues kept, ?_⟩
  refine .mapElements grown (fun e frugal => frugal.mapValues kept) fun e frugal => ?_
  exact .element rfl rfl (size_mapValues_le fun a listed =>
    (within a.name a.value (frugal a listed)).size_escape_le)

theorem thrifty_minifyValues : Cleanup.minifyValues.Thrifty := by
  refine .of_lighter fun situation p edit doc prepared grown => ?_
  rw [← Option.some.inj (show some _ = some edit from prepared)]
  refine exists_outcome_mapValues_saving grown (fun _ v _ => AttributeValue.frugal_minify v) fun _ v frugal => ?_
  rw [Cleanup.minifyValue, AttributeValue.text_minify]
  exact frugal

theorem thrifty_convertColors : Cleanup.convertColors.Thrifty := by
  refine .of_lighter fun situation p edit doc prepared grown => ?_
  rw [← Option.some.inj (show some _ = some edit from prepared)]
  refine exists_outcome_mapValues_saving grown (fun _ v frugal => ?_) fun _ v frugal => ?_
  · rw [Cleanup.minifyPaint]
    split
    · exact AttributeValue.frugal_minify v
    · exact frugal
  · rw [Cleanup.minifyPaint]
    split
    · rw [AttributeValue.text_minify]
      exact frugal
    · exact .refl _

theorem slims_dropRedundant (policy : Cleanup.RedundancyPolicy) (styles : Css.Styles) (ruled : Css.ComputedStyle)
    (place : Cleanup.Inheritance) (e : Element) :
    NodeContent.Slims (.element e) (.element (Cleanup.dropRedundant policy styles ruled place e)) := by
  refine .element rfl rfl (size_retain_le fun a _ named => ?_)
  have other : Vocabulary.isPresentation "xmlns" = false := by decide
  rw [named, other]
  rfl

theorem thrifty_removeRedundantAttributes : Cleanup.removeRedundantAttributes.Thrifty := by
  refine .of_lighter fun situation p edit doc prepared grown => ?_
  rcases Option.map_eq_some_iff.mp prepared with ⟨s, -, rfl⟩
  refine exists_outcome_of_saving ?_ grown
  refine { Saving.idle doc with enter := fun node _ ancestors _ => ?_ }
  change (Cleanup.enterRedundant (.ofParameters p) s node ancestors).Leads _ _
  rw [Cleanup.enterRedundant]
  refine Visit.leads_document_bind fun current => ?_
  cases current.element? node with
  | none => exact (Visit.leads_pure _).of_imp fun _ both => both.1.1
  | some e =>
      dsimp only
      split
      · refine Visit.leads_state_bind fun memo => ?_
        refine (Visit.leads_editState fun scene both => both.1.1.1.setState _).bind fun _ => ?_
        refine (Visit.leads_editDocument fun scene saving => ?_).bind fun _ => Visit.leads_pure _
        exact ⟨saving.grown.modifyElement _ _ fun e frugal => frugal.retain _,
          saving.lighter.trans (.modifyElement fun e _ => slims_dropRedundant _ s _ _ e)⟩
      · exact (Visit.leads_pure _).of_imp fun _ both => both.1.1

/-! ## Plugins that may make a document longer -/

/-- A plugin that keeps the values frugal. -/
theorem Thrifty.of_lengthening (may : plugin.mayLengthen = true)
    (keeps : ∀ situation p edit doc, plugin.prepare situation p = some edit → doc.Grown Element.Frugal →
      (∀ s, situation.summary.styles? = some s → s.Held doc) →
        ∃ outcome, edit doc = .ok outcome ∧ outcome.document.Grown Element.Frugal) : plugin.Thrifty := by
  intro situation p edit doc prepared grown held
  rcases keeps situation p edit doc prepared grown held with ⟨outcome, edited, kept⟩
  exact ⟨outcome, edited, kept, fun calm => absurd (may.symm.trans calm) (by decide)⟩

theorem grown_writeBack {s t : Css.Styles} (grown : doc.Grown Element.Frugal) (same : t.elements = s.elements)
    (held : ∀ id ∈ s.elements, doc.isElement id) : (t.writeBack doc).2.Grown Element.Frugal := by
  refine (Css.Styles.trimmed_writeBack t grown fun sheet listed => held _ ?_).grown
  rw [← same]
  exact List.mem_map_of_mem listed

theorem thrifty_mergeStyles : Cleanup.mergeStyles.Thrifty := by
  refine .of_lengthening (by decide) fun situation p edit doc prepared grown held => ?_
  rcases Option.map_eq_some_iff.mp prepared with ⟨s, reliable, rfl⟩
  have known := held s (styles?_of_reliableStyles? reliable)
  have merged := Css.Styles.merged_merge s grown fun sheet listed => known.isElement (List.mem_map_of_mem listed)
  refine ⟨_, rfl, (Document.SameShape.refl _).grown merged.grown fun {id e} found => ?_⟩
  rcases merged.element?_eq id with same | ⟨old, before, after⟩
  · exact grown.element_fits (same ▸ found)
  · cases after.symm.trans found
    exact (grown.element_fits before).removeAttribute "media"

theorem thrifty_minifyStyles : Cleanup.minifyStyles.Thrifty := by
  refine .of_lengthening (by decide) fun situation p edit doc prepared grown held => ?_
  rcases Option.map_eq_some_iff.mp prepared with ⟨s, reliable, rfl⟩
  have known := held s (styles?_of_reliableStyles? reliable)
  refine ⟨_, rfl, grown_writeBack (grown.mapElements _ fun _ frugal => frugal.shortenInline)
    (Css.Styles.elements_mapSets s _) fun id listed => ?_⟩
  rw [(Document.sameShape_mapElements _).isElement_eq]
  exact known.isElement listed

theorem grown_applyIds (plan : Cleanup.IdPlan) {s : Css.Styles} (grown : doc.Grown Element.Frugal)
    (held : ∀ id ∈ s.elements, doc.isElement id) : (plan.apply s doc).2.Grown Element.Frugal := by
  have edited := grown.mapElements plan.editElement fun e frugal => frugal.editElement plan
  rw [Cleanup.IdPlan.apply]
  split
  · exact edited
  · refine grown_writeBack (edited.mapElements _ fun e frugal => frugal.rename _)
      (Css.Styles.elements_mapSets s _) fun id listed => ?_
    rw [(Document.sameShape_mapElements _).isElement_eq, (Document.sameShape_mapElements _).isElement_eq]
    exact held id listed

theorem thrifty_cleanupIds : Cleanup.cleanupIds.Thrifty := by
  refine .of_lengthening (by decide) fun situation p edit doc prepared grown held => ?_
  rcases Option.bind_eq_some_iff.mp prepared with ⟨s, still, prepared⟩
  rcases Option.ite_none_left_eq_some.mp prepared with ⟨-, same⟩
  have known := held s (styles?_of_stillStyles? still)
  rw [← Option.some.inj same, Cleanup.cleanIds]
  split
  · exact ⟨_, rfl, grown⟩
  · exact ⟨_, rfl, grown_applyIds _ grown fun id listed => known.isElement listed⟩

/-- What holds on the way through a document that may become longer. -/
structure Lasting {σ : Type} (doc : Document) (scene : Scene σ) : Prop where
  grown : scene.document.Grown Element.Frugal
  size_eq : scene.document.nodes.size = doc.nodes.size

theorem leads_enterPainted_lasting (policy : Cleanup.PaintPolicy) (s : Css.Styles) (node : NodeId)
    (ancestors : List NodeId) :
    (Cleanup.enterPainted policy s node ancestors).Leads (Lasting doc) (Lasting doc) := by
  rw [Cleanup.enterPainted]
  refine Visit.leads_document_bind fun current => ?_
  dsimp only
  split
  · exact (Visit.leads_pure _).of_imp fun _ both => both.1
  · refine Visit.leads_state_bind fun memo => ?_
    refine (Visit.leads_editState (J := Lasting doc) fun scene both =>
      ⟨both.1.1.grown, both.1.1.size_eq⟩).bind fun _ => ?_
    split
    · split
      · refine (Visit.leads_editDocument fun scene lasting => ?_).bind fun _ => Visit.leads_pure _
        exact ⟨lasting.grown.detach node, (Document.size_detach node scene.document).trans lasting.size_eq⟩
      · refine (Visit.leads_editDocument fun scene lasting => ?_).bind fun _ => Visit.leads_pure _
        exact ⟨lasting.grown.modifyElement _ _ fun e frugal => (frugal.editPaint _ _ _).editPaint _ _ _,
          Array.size_modify.trans lasting.size_eq⟩
    · exact Visit.leads_pure _

theorem thrifty_removeUnpaintedAttributes : Cleanup.removeUnpaintedAttributes.Thrifty := by
  refine .of_lengthening (by decide) fun situation p edit doc prepared grown _ => ?_
  rcases Option.map_eq_some_iff.mp prepared with ⟨s, -, rfl⟩
  have safe : Visitor.Safe Element.Frugal doc.nodes.size (Lasting doc) (Lasting doc)
      { enter := Cleanup.enterPainted (.ofParameters p) s } :=
    { Visitor.Safe.idle (fun lasting => lasting.grown) (fun lasting => lasting.size_eq) with
      enter := fun node _ ancestors _ =>
        (leads_enterPainted_lasting _ s node ancestors).of_imp fun _ both => both.1 }
  have start : Lasting doc ⟨([] : Css.Styles.Memo), doc⟩ := ⟨grown, rfl⟩
  rcases safe.run_succeeds start with ⟨after, ran, lasting⟩
  exact ⟨_, DocumentEdit.visiting_of_run ran, lasting.grown⟩

/-! ## All of them -/

theorem thrifty_of_usual (listed : plugin ∈ usual) : plugin.Thrifty := by
  simp only [usual, List.mem_cons, List.not_mem_nil, or_false] at listed
  rcases listed with rfl | rfl | rfl | rfl | rfl | rfl | rfl | rfl | rfl | rfl | rfl | rfl | rfl | rfl
  · exact thrifty_removeDoctype
  · exact thrifty_removeXmlDeclaration
  · exact thrifty_removeComments
  · exact thrifty_of_culling (by simp)
  · exact thrifty_mergeStyles
  · exact thrifty_minifyStyles
  · exact thrifty_cleanupIds
  · exact thrifty_convertColors
  · exact thrifty_minifyValues
  · exact thrifty_removeRedundantAttributes
  · exact thrifty_removeUnpaintedAttributes
  · exact thrifty_removeHiddenElements
  · exact thrifty_of_culling (by simp)
  · exact thrifty_of_culling (by simp)

end Plugin

end SlimSvg
