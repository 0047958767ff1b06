import SlimSvg.Optimize.Preset
import SlimSvg.Proofs.Css.Held
import SlimSvg.Proofs.Css.Memory
import SlimSvg.Proofs.Tree.Safety

namespace SlimSvg

/-!
# What plugins take away

No plugin that is known by name ever fails, and none of them does more than reduce a
document.  Those that change the sheets go on remembering the style elements that keep
their place.  The others do not know which style elements are remembered; four of them
may take such an element away, because it is hidden or because of what it stands in.
-/

/-! ## Visits that reduce a document -/

/-- What holds on the way through a document that is being reduced while some elements
stay in their places. -/
structure Reducing {σ : Type} (doc : Document) (Stays : NodeId → Prop) (scene : Scene σ) : Prop where
  reduced : Document.Reduced doc scene.document
  size_eq : scene.document.nodes.size = doc.nodes.size
  attached : ∀ id, Stays id → doc.isElement id ∧ scene.document.isAttached id = true

namespace Reducing

variable {σ : Type} {doc : Document} {Stays : NodeId → Prop} {scene : Scene σ}

theorem start (tree : doc.IsTree) (stays : ∀ id, Stays id → doc.isElement id ∧ doc.isAttached id = true)
    (state : σ) : Reducing doc Stays ⟨state, doc⟩ :=
  ⟨.refl tree, rfl, stays⟩

theorem setState (reducing : Reducing doc Stays scene) (state : σ) :
    Reducing doc Stays { scene with state := state } :=
  ⟨reducing.reduced, reducing.size_eq, reducing.attached⟩

theorem modifyElement (reducing : Reducing doc Stays scene) (node : NodeId) {f : Element → Element}
    (kept : ∀ e, (f e).kind = e.kind) :
    Reducing doc Stays { scene with document := scene.document.modifyElement node f } where
  reduced := reducing.reduced.trans (.modifyElement reducing.reduced.tree node kept)
  size_eq := Array.size_modify.trans reducing.size_eq
  attached id stays := by
    rcases reducing.attached id stays with ⟨element, before⟩
    exact ⟨element, ((Document.sameShape_modifyElement _ node f).isAttached_eq id).trans before⟩

/-- A node may go if no element that stays is inside. -/
theorem detach (reducing : Reducing doc Stays scene) (node : NodeId)
    (apart : ∀ id, Stays id → doc.isElement id → scene.document.isAttached id = true →
      node ∉ id :: scene.document.elementAncestors id) :
    Reducing doc Stays { scene with document := scene.document.detach node } where
  reduced := reducing.reduced.trans (.detach reducing.reduced.tree node)
  size_eq := (Document.size_detach node scene.document).trans reducing.size_eq
  attached id stays := by
    rcases reducing.attached id stays with ⟨element, before⟩
    have outside := apart id stays element before
    rw [List.mem_cons, not_or] at outside
    exact ⟨element, Document.isAttached_detach reducing.reduced.tree before outside.1 outside.2⟩

theorem detach_leaf (reducing : Reducing doc Stays scene) {node : NodeId}
    (leaf : ¬ scene.document.isElement node) :
    Reducing doc Stays { scene with document := scene.document.detach node } := by
  apply reducing.detach
  intro id _ element _ listed
  rcases List.mem_cons.mp listed with same | above
  · rw [same, reducing.reduced.isElement_eq] at leaf
    exact leaf element
  · exact leaf ((Document.mem_elementAncestors reducing.reduced.tree).mp above).2

/-- What stands above an element that stays stood there from the start. -/
theorem above_iff (reducing : Reducing doc Stays scene) (tree : doc.IsTree) {id : NodeId}
    (element : doc.isElement id) (attached : scene.document.isAttached id = true) :
    scene.document.elementAncestors id = doc.elementAncestors id :=
  reducing.reduced.elementAncestors_eq tree element attached

/-- A visitor that does nothing keeps what holds on the way. -/
theorem idle (doc : Document) (Stays : NodeId → Prop) :
    Visitor.Safe (fun _ => True) doc.nodes.size (Reducing (σ := σ) doc Stays) (Reducing doc Stays) {} :=
  .idle (fun reducing => reducing.reduced.tree) (fun reducing => reducing.size_eq)

end Reducing

/-- A visit that reduces the document as an edit. -/
theorem exists_outcome_of_safe {σ : Type} {doc : Document} {Stays : NodeId → Prop} {v : Visitor σ}
    {start : σ} {I : Scene σ → Prop}
    (safe : v.Safe (fun _ => True) doc.nodes.size I (Reducing doc Stays)) (holds : I ⟨start, doc⟩) :
    ∃ outcome, DocumentEdit.visiting v start doc = .ok outcome ∧ outcome.newStyles = none ∧
      Document.Reduced doc outcome.document ∧ ∀ id, Stays id → outcome.document.isAttached id = true := by
  rcases safe.run_succeeds holds with ⟨after, ran, reducing⟩
  exact ⟨_, DocumentEdit.visiting_of_run ran, rfl, reducing.reduced, fun id stays => (reducing.attached id stays).2⟩

namespace Plugin

/-! ## Elements that may go -/

/-- Whether a plugin may take away an element with everything inside of it, besides texts
and containers that hold nothing. -/
def takes (plugin : Plugin) (situation : Situation) (p : Parameters) (doc : Document) (id : NodeId) : Bool :=
  match plugin.name with
  | "removeMetadata" => doc.hasName id "metadata"
  | "removeEmptyText" =>
    -- A text reference that refers to nothing.
    (doc.element? id).any fun e => e.hasName "tref" && e.href?.isNone
  | "removeUselessStrokeAndFill" =>
    p.truth "removeNone" false && (doc.element? id).any fun e => Vocabulary.isShape e.name
  | "removeHiddenElems" =>
    -- The topmost element stays.
    doc.parent? id != some Document.root &&
      situation.summary.stillStyles?.any fun styles => (doc.element? id).any fun e =>
        Cleanup.isHidden e (Css.inherited (styles.ownStyle doc) (id :: doc.elementAncestors id))
  | _ => false

section Takes

variable {situation : Situation} {p : Parameters} {doc : Document} {id : NodeId} {e : Element}

theorem takes_of_metadata (named : doc.hasName id "metadata" = true) :
    takes Cleanup.removeMetadata situation p doc id = true :=
  named

theorem takes_of_looseReference (found : doc.element? id = some e) (named : e.hasName "tref" = true)
    (loose : e.href? = none) : takes Cleanup.removeEmptyText situation p doc id = true := by
  change (doc.element? id).any _ = true
  rw [found, Option.any_some, named, loose]
  rfl

theorem takes_of_shape (found : doc.element? id = some e) (shaped : Vocabulary.isShape e.name = true)
    (wanted : p.truth "removeNone" false = true) :
    takes Cleanup.removeUnpaintedAttributes situation p doc id = true := by
  change (p.truth "removeNone" false && (doc.element? id).any _) = true
  rw [wanted, found, Option.any_some, shaped]
  rfl

theorem takes_of_hidden {styles : Css.Styles} (found : doc.element? id = some e)
    (inside : doc.parent? id ≠ some Document.root) (known : situation.summary.stillStyles? = some styles)
    (hidden : Cleanup.isHidden e
      (Css.inherited (styles.ownStyle doc) (id :: doc.elementAncestors id)) = true) :
    takes Cleanup.removeHiddenElements situation p doc id = true := by
  change (doc.parent? id != some Document.root && situation.summary.stillStyles?.any _) = true
  rw [known, Option.any_some, found, Option.any_some, hidden, Bool.and_true]
  exact bne_iff_ne.mpr inside

end Takes

/-- Whether a style element is part of a document, and neither it nor an element around
it may be taken away. -/
structure Spared (plugin : Plugin) (situation : Situation) (p : Parameters) (doc : Document)
    (id : NodeId) : Prop where
  named : doc.hasName id "style" = true
  attached : doc.isAttached id = true
  spared : ∀ upper ∈ id :: doc.elementAncestors id, ¬ plugin.takes situation p doc upper

namespace Spared

variable {plugin : Plugin} {situation : Situation} {p : Parameters} {doc : Document} {id : NodeId}

theorem isElement (spared : Spared plugin situation p doc id) : doc.isElement id :=
  Document.isElement_of_hasName spared.named

theorem start (plugin : Plugin) (situation : Situation) (p : Parameters) (doc : Document) :
    ∀ id, Spared plugin situation p doc id → doc.isElement id ∧ doc.isAttached id = true :=
  fun _ spared => ⟨spared.isElement, spared.attached⟩

end Spared

/-- Whether a plugin succeeds on every document, does no more than reduce it, and keeps
the remembered style elements in their places except those it may take away. -/
def Orderly (plugin : Plugin) : Prop :=
  ∀ situation p edit doc, plugin.prepare situation p = some edit → doc.IsTree →
    (∀ s, situation.summary.styles? = some s → s.Held doc) →
      ∃ outcome, edit doc = .ok outcome ∧ Document.Reduced doc outcome.document ∧
        match outcome.newStyles with
        | some t => ∃ s, situation.summary.styles? = some s ∧ s.HandsOn doc t outcome.document
        | none => ∀ id, Spared plugin situation p doc id → outcome.document.isAttached id = true

section Orderly

variable {plugin : Plugin}

/-- A plugin that changes no sheets. -/
theorem Orderly.of_unstyled
    (reduces : ∀ situation p edit doc, plugin.prepare situation p = some edit → doc.IsTree →
      ∃ outcome, edit doc = .ok outcome ∧ outcome.newStyles = none ∧
        Document.Reduced doc outcome.document ∧
          ∀ id, Spared plugin situation p doc id → outcome.document.isAttached id = true) :
    plugin.Orderly := by
  intro situation p edit doc prepared tree _
  rcases reduces situation p edit doc prepared tree with ⟨outcome, edited, none, reduced, attached⟩
  refine ⟨outcome, edited, reduced, ?_⟩
  rw [none]
  exact attached

/-- Styles that are known for sure are those of the summary. -/
theorem styles?_of_reliableStyles? {summary : Summary} {s : Css.Styles}
    (known : summary.reliableStyles? = some s) : summary.styles? = some s := by
  rw [Summary.reliableStyles?] at known
  split at known
  · cases known
  · exact known

theorem styles?_of_stillStyles? {summary : Summary} {s : Css.Styles}
    (known : summary.stillStyles? = some s) : summary.styles? = some s := by
  rw [Summary.stillStyles?] at known
  split at known
  · cases known
  · exact styles?_of_reliableStyles? known

/-! ## Single nodes -/

theorem leads_discardIf {doc : Document} {Stays : NodeId → Prop} (gone : NodeContent → Bool) (node : NodeId) :
    (Cleanup.discardIf gone node).Leads
      (fun scene => Reducing doc Stays scene ∧ ¬ scene.document.isElement node) (Reducing doc Stays) := by
  apply Visit.leads_editDocument
  rintro scene ⟨reducing, leaf⟩
  split
  · exact reducing.detach_leaf leaf
  · exact reducing

theorem orderly_removeDoctype : Cleanup.removeDoctype.Orderly := by
  refine .of_unstyled fun situation p edit doc prepared tree => ?_
  rw [← Option.some.inj (show some _ = some edit from prepared)]
  refine exists_outcome_of_safe ?_ (Reducing.start tree (Spared.start Cleanup.removeDoctype situation p doc) ())
  exact { Reducing.idle doc _ with doctype := fun node _ => leads_discardIf (fun _ => true) node }

theorem orderly_removeXmlDeclaration : Cleanup.removeXmlDeclaration.Orderly := by
  refine .of_unstyled fun situation p edit doc prepared tree => ?_
  rw [← Option.some.inj (show some _ = some edit from prepared)]
  refine exists_outcome_of_safe ?_ (Reducing.start tree (Spared.start Cleanup.removeXmlDeclaration situation p doc) ())
  exact { Reducing.idle doc _ with instruction := fun node _ => leads_discardIf _ node }

theorem orderly_removeComments : Cleanup.removeComments.Orderly := by
  refine .of_unstyled fun situation p edit doc prepared tree => ?_
  rw [← Option.some.inj (show some _ = some edit from prepared)]
  refine exists_outcome_of_safe ?_ (Reducing.start tree (Spared.start Cleanup.removeComments situation p doc) ())
  exact { Reducing.idle doc _ with
    comment := fun node _ => leads_discardIf (fun c => !(p.truth "preserveLegal" true && Cleanup.isNotice c)) node }

theorem orderly_removeMetadata : Cleanup.removeMetadata.Orderly := by
  refine .of_unstyled fun situation p edit doc prepared tree => ?_
  rw [← Option.some.inj (show some _ = some edit from prepared)]
  refine exists_outcome_of_safe ?_ (Reducing.start tree (Spared.start Cleanup.removeMetadata situation p doc) ())
  refine { Reducing.idle doc _ with enter := fun node _ ancestors _ => ?_ }
  change (Cleanup.enterMetadata node).Leads _ _
  rw [Cleanup.enterMetadata]
  refine Visit.leads_document_bind fun current => ?_
  split
  · next named =>
    refine (Visit.leads_editDocument ?_).bind fun _ => Visit.leads_pure _
    rintro scene ⟨⟨reducing, -⟩, rfl⟩
    apply reducing.detach
    intro id spared element attached listed
    rw [reducing.above_iff tree element attached] at listed
    rw [reducing.reduced.hasName_eq] at named
    exact spared.spared node listed (takes_of_metadata named)
  · exact (Visit.leads_pure _).of_imp fun _ both => both.1.1

/-! ## Elements that hold nothing -/

/-- What holds nothing is neither a style element nor around one. -/
theorem notMem_of_childless {doc : Document} (tree : doc.IsTree) {node id : NodeId}
    (childless : doc.children node = []) (other : node ≠ id) : node ∉ id :: doc.elementAncestors id := by
  intro listed
  rcases List.mem_cons.mp listed with same | among
  · exact other same
  · have above := ((Document.mem_elementAncestors tree).mp among).1
    clear listed among
    have holdsNone : ∀ child, doc.parent? child ≠ some node := by
      intro child linked
      have member := tree.mem_children.mpr linked
      rw [childless] at member
      cases member
    clear other
    induction above with
    | parent linked => exact holdsNone _ linked
    | outer _ _ inductionHypothesis => exact inductionHypothesis

theorem ne_style_of_hasName {doc : Document} {node id : NodeId} {e : Element} {name : String}
    (found : doc.element? node = some e) (named : e.name = name) (other : name ≠ "style")
    (style : doc.hasName id "style" = true) : node ≠ id := by
  intro same
  rw [← same, Document.hasName, found] at style
  change e.hasName "style" = true at style
  rw [Element.hasName, Bool.and_eq_true, beq_iff_eq] at style
  exact other (named.symm.trans style.2)

/-- Taking vacant elements away on leaving them reduces the document. -/
theorem exists_outcome_dropVacant {doc : Document} (tree : doc.IsTree) {Stays : NodeId → Prop}
    {vacant : Document → NodeId → List NodeId → Bool}
    (stays : ∀ id, Stays id → doc.isElement id ∧ doc.isAttached id = true)
    (apart : ∀ {other : Document}, Document.Reduced doc other →
      (∀ id, other.element? id = doc.element? id) → ∀ node ancestors, vacant other node ancestors = true →
        ∀ id, Stays id → doc.isElement id → other.isAttached id = true →
          node ∉ id :: other.elementAncestors id) :
    ∃ outcome, Cleanup.dropVacant vacant doc = .ok outcome ∧ outcome.newStyles = none ∧
      Document.Reduced doc outcome.document ∧ ∀ id, Stays id → outcome.document.isAttached id = true := by
  let I : Scene Unit → Prop := fun scene =>
    Reducing doc Stays scene ∧ ∀ id, scene.document.element? id = doc.element? id
  have safe : Visitor.Safe (fun _ => True) doc.nodes.size I (Reducing doc Stays)
      { exit := fun node ancestors =>
          Visit.editDocument fun doc => if vacant doc node ancestors then doc.detach node else doc } := by
    have none : Visitor.Safe (fun _ => True) doc.nodes.size I I ({} : Visitor Unit) :=
      .idle (fun both => both.1.reduced.tree) (fun both => both.1.size_eq)
    have left : ∀ node ancestors, (Visit.editDocument (σ := Unit) fun doc =>
        if vacant doc node ancestors then doc.detach node else doc).Leads I I := by
      intro node ancestors
      apply Visit.leads_editDocument
      rintro scene ⟨reducing, same⟩
      split
      · next gone =>
        refine ⟨reducing.detach node (apart reducing.reduced same node ancestors gone), ?_⟩
        intro id
        exact (Document.element?_detach node reducing.reduced.tree.toLinked id).trans (same id)
      · exact ⟨reducing, same⟩
    exact { none with
      exitRoot := (Visit.leads_pure (I := Reducing doc Stays) ()).of_imp fun _ both => both.1
      exit := left }
  exact exists_outcome_of_safe safe ⟨.start tree stays (), fun _ => rfl⟩

theorem orderly_removeEmptyText : Cleanup.removeEmptyText.Orderly := by
  refine .of_unstyled fun situation p edit doc prepared tree => ?_
  rw [← Option.some.inj (show some _ = some edit from prepared)]
  refine exists_outcome_dropVacant tree (Spared.start Cleanup.removeEmptyText situation p doc) ?_
  intro other reduced same node ancestors vacant id spared element attached
  rw [Cleanup.isVacantText, same] at vacant
  split at vacant
  · cases vacant
  · next e found =>
    split at vacant
    · next text =>
      rw [Bool.or_eq_true, Element.hasName, Element.hasName, Bool.and_eq_true, Bool.and_eq_true,
        beq_iff_eq, beq_iff_eq] at text
      apply notMem_of_childless reduced.tree (List.isEmpty_iff.mp vacant)
      rcases text with ⟨-, named⟩ | ⟨-, named⟩
      · exact ne_style_of_hasName found named (by decide) spared.named
      · exact ne_style_of_hasName found named (by decide) spared.named
    · rw [Bool.and_eq_true, Option.isNone_iff_eq_none] at vacant
      rw [reduced.elementAncestors_eq tree element attached]
      exact fun listed => spared.spared node listed (takes_of_looseReference found vacant.1 vacant.2)

theorem orderly_removeEmptyContainers : Cleanup.removeEmptyContainers.Orderly := by
  refine .of_unstyled fun situation p edit doc prepared tree => ?_
  rw [← Option.some.inj (show some _ = some edit from prepared)]
  refine exists_outcome_dropVacant tree (Spared.start Cleanup.removeEmptyContainers situation p doc) ?_
  intro other reduced same node ancestors vacant id spared element attached
  rw [Cleanup.isVacantContainer, same] at vacant
  split at vacant
  · next e _ found _ =>
    simp only [Bool.and_eq_true] at vacant
    apply notMem_of_childless reduced.tree (List.isEmpty_iff.mp vacant.1.1.2)
    intro equal
    have style := spared.named
    rw [← equal, Document.hasName, found] at style
    change e.hasName "style" = true at style
    rw [Element.hasName, Bool.and_eq_true, beq_iff_eq] at style
    have container := vacant.1.1.1.2
    rw [style.2] at container
    revert container
    decide
  · cases vacant

end Orderly

end Plugin

end SlimSvg
