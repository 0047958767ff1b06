import SlimSvg.Proofs.Xml.Front
import SlimSvg.Proofs.Xml.Resolution

namespace SlimSvg
namespace Xml

/-!
# The place of the root element

From its start tag on, the root element is the element at the bottom of the open ones, or
the first node behind the front that was finished.  So in every document that is accepted
it is the first element, and it stands where the front ends.
-/

/-! ## Steps that collect attributes -/

namespace Build

section Attributes

variable {I : Builder → Prop}

theorem stays_resolve (namespaces : Namespaces) (pre : String) (offset : Nat) :
    Stays I (resolve namespaces pre offset) :=
  (leads_resolve namespaces pre offset).of_imp (fun _ kept => kept) fun _ _ found => found.2.2

theorem stays_resolveAttributes (namespaces : Namespaces) (pending : List PendingAttribute) (done : List NamedValue) :
    Stays I (resolveAttributes namespaces done pending) := by
  induction pending generalizing done with
  | nil => exact stays_pure _
  | cons a rest inductionHypothesis =>
      have accepted (uri : Option String) : Stays I (do
          if done.any fun d => d.uri == uri && d.localName == a.name.localName then
            Scan.failAt a.offset (.duplicateAttribute a.name.localName)
          resolveAttributes namespaces (⟨uri, a.name.localName, a.value⟩ :: done) rest) :=
        unless_refused fun _ => inductionHypothesis _
      rw [resolveAttributes]
      split
      · exact accepted _
      · split
        · exact accepted none
        · exact (stays_resolve namespaces _ _).bind accepted

-- The property does not depend on the attributes that are collected.
variable (collects : ∀ (b : Builder) attributes declared, I b → I { b with attributes, declared })

include collects

theorem stays_addAttribute (name : Scan.QName) (value : String) (offset : Nat) :
    Stays I (addAttribute name value offset) := by
  have declares (n : Namespace) : Stays I (modify fun b => { b with declared := b.declared ++ [n] }) :=
    stays_modify fun b kept => collects b b.attributes _ kept
  rw [addAttribute]
  refine stays_get.bind fun b => ?_
  dsimp only
  split
  · refine unless_refused fun _ => ?_
    by_cases isXml : (value == Vocabulary.xmlNamespace) = true
    · simp only [if_pos isXml]
      split
      · exact unless_refused fun _ => stays_pure ()
      · exact leads_refusal
    · simp only [if_neg isXml]
      split
      · exact leads_refusal
      · exact unless_refused fun _ => declares _
  · split
    · exact unless_refused fun _ => unless_refused fun _ => declares _
    · exact stays_modify fun b kept => collects b _ b.declared kept

theorem stays_takeAttributes : Stays I takeAttributes := by
  rw [takeAttributes]
  exact stays_get.bind fun b => (stays_resolveAttributes _ _ _).bind fun _ =>
    (stays_modify fun b kept => collects b [] [] kept).bind fun _ => stays_pure _

end Attributes

end Build

/-! ## The root among the nodes -/

/-- Whether the root element, which begins at some place, is open or finished behind the
nodes that were there before it. -/
inductive Builder.Rooted (base : List PlacedNode) (r : Nat) (b : Builder) : Prop
  | unclosed (finished : b.finished = base) (lowest : b.openElements.getLast?.map (·.offset) = some r)
  | closed (later : List PlacedNode) (root : Node) (isElement : root.isElement = true)
    (finished : b.finished = later ++ ⟨r, root⟩ :: base)

namespace Builder.Rooted

variable {base : List PlacedNode} {r : Nat} {b : Builder}

/-- Only the nodes matter. -/
theorem of_nodes {b' : Builder} (rooted : b.Rooted base r) (finished : b'.finished = b.finished)
    (opened : b'.openElements = b.openElements) : b'.Rooted base r := by
  cases rooted with
  | unclosed same lowest => exact .unclosed (finished.trans same) (by rw [opened]; exact lowest)
  | closed later root isElement same => exact .closed later root isElement (finished.trans same)

/-- The innermost open element may get children. -/
theorem lowest_change {inner inner' : OpenElement} {outer : List OpenElement}
    (lowest : (inner :: outer).getLast?.map (·.offset) = some r) (same : inner'.offset = inner.offset) :
    (inner' :: outer).getLast?.map (·.offset) = some r := by
  cases outer with
  | nil => exact (congrArg some same).trans lowest
  | cons next rest => exact lowest

theorem append (rooted : b.Rooted base r) (node : Node) (offset : Nat) : (b.append node offset).Rooted base r := by
  rw [Builder.append]
  cases rooted with
  | unclosed finished lowest =>
      split
      · next inner outer inside =>
        rw [inside] at lowest
        exact .unclosed finished (lowest_change lowest rfl)
      · next outside =>
        rw [outside] at lowest
        cases lowest
  | closed later root isElement finished =>
      split
      · exact .closed later root isElement finished
      · exact .closed (⟨offset, node⟩ :: later) root isElement (congrArg (_ :: ·) finished)

theorem extendText (rooted : b.Rooted base r) (text : String) : (b.extendText text).Rooted base r := by
  rw [Builder.extendText]
  split
  · next inner outer inside =>
    split
    · cases rooted with
      | unclosed finished lowest =>
          rw [inside] at lowest
          exact .unclosed finished (lowest_change lowest rfl)
      | closed later root isElement finished => exact .closed later root isElement finished
    · exact rooted
  · next offset before rest outside last =>
    cases rooted with
    | unclosed finished lowest =>
        rw [outside] at lowest
        cases lowest
    | closed later root isElement finished =>
        -- The root element is no text, so the text stands behind it.
        rw [last] at finished
        cases later with
        | nil =>
            cases (List.cons.inj finished).1
            cases isElement
        | cons p later => exact .closed (⟨offset, _⟩ :: later) root isElement (congrArg (_ :: ·) (List.cons.inj finished).2)
  · exact rooted

theorem appendText (rooted : b.Rooted base r) (text : List Char) (offset : Nat) :
    (b.appendText text offset).Rooted base r := by
  rw [Builder.appendText]
  split
  · exact (rooted.extendText _).of_nodes rfl rfl
  · exact (rooted.append _ offset).of_nodes rfl rfl

theorem openInner (rooted : b.Rooted base r) (tag : StartTag) (offset : Nat) :
    Rooted base r { b with openElements := ⟨tag, offset, []⟩ :: b.openElements } := by
  cases rooted with
  | unclosed finished lowest =>
      refine .unclosed finished ?_
      cases inside : b.openElements with
      | nil =>
          rw [inside] at lowest
          cases lowest
      | cons inner outer =>
          rw [inside] at lowest
          exact lowest
  | closed later root isElement finished => exact .closed later root isElement finished

theorem closeInner (rooted : b.Rooted base r) : b.closeInner.Rooted base r := by
  rw [Builder.closeInner]
  split
  · next inner outer inside =>
    cases rooted with
    | unclosed finished lowest =>
        rw [inside] at lowest
        cases outer with
        | nil =>
            refine .closed [] (.element inner.tag inner.children.reverse) rfl ?_
            rw [← Option.some.inj lowest, ← finished]
            rfl
        | cons next rest =>
            have rest : Rooted base r { b with openElements := next :: rest } := .unclosed finished lowest
            exact rest.append _ _
    | closed later root isElement finished =>
        have rest : Rooted base r { b with openElements := outer } := .closed later root isElement finished
        exact rest.append _ _
  · exact rooted

end Builder.Rooted

namespace Build

variable {base : List PlacedNode} {r : Nat}

theorem stable_rooted : Builder.Stable (Builder.Rooted base r) where
  appendLeaf := fun offset _ rooted => (rooted.append _ offset).of_nodes rfl rfl
  appendText := fun text offset rooted => rooted.appendText text offset
  withEntities := fun _ rooted => rooted.of_nodes rfl rfl
  withReferences := fun _ rooted => rooted.of_nodes rfl rfl
  withoutTag := fun rooted => rooted.of_nodes rfl rfl
  withTag := fun _ rooted => rooted.of_nodes rfl rfl
  addAttribute := fun _ value offset => stays_addAttribute (fun _ _ _ rooted => rooted.of_nodes rfl rfl) _ value offset
  beginTag := fun _ offset => unless_refused fun _ => stays_modify fun _ rooted => rooted.of_nodes rfl rfl
  endTag := by
    intro isEmpty
    rw [endTag]
    refine stays_get.bind fun b => ?_
    split
    · exact stays_pure ()
    · refine (stays_takeAttributes fun _ _ _ rooted => rooted.of_nodes rfl rfl).bind fun taken =>
        (stays_resolve _ _ _).bind fun uri => stays_modify fun b rooted => ?_
      split
      · exact (rooted.append _ _).of_nodes rfl rfl
      · exact rooted.openInner _ _
  closeTag := by
    intro name offset
    rw [closeTag]
    refine stays_get.bind fun _ => unless_refused fun _ => ?_
    refine (stays_takeAttributes fun _ _ _ rooted => rooted.of_nodes rfl rfl).bind fun _ => stays_get.bind fun b => ?_
    split
    · exact leads_fail
    · exact unless_refused fun _ => stays_modify fun _ rooted => rooted.closeInner.of_nodes rfl rfl

/-! ## The tag of the root -/

/-- Whether the start tag of the root element is being read. -/
structure Fresh (base : List PlacedNode) (r : Nat) (b : Builder) : Prop where
  finished : b.finished = base
  outside : b.openElements = []
  tag : ∃ name, b.tag = some ⟨name, r⟩

theorem Fresh.of_same {b b' : Builder} (fresh : Fresh base r b) (finished : b'.finished = b.finished)
    (opened : b'.openElements = b.openElements) (tag : b'.tag = b.tag) : Fresh base r b' :=
  ⟨finished.trans fresh.finished, opened.trans fresh.outside, tag ▸ fresh.tag⟩

theorem leads_endTag (isEmpty : Bool) : Leads (Fresh base r) (endTag isEmpty) fun _ => Builder.Rooted base r := by
  rw [endTag]
  refine leads_get.bind fun b => .of_fact (fun _ found => found.1 ▸ found.2) fun fresh => ?_
  rcases fresh.tag with ⟨name, tagged⟩
  rw [tagged]
  refine Leads.of_imp ?_ (fun _ found => found.2) fun _ _ holds => holds
  refine .bind (stays_takeAttributes (I := Fresh base r) fun _ _ _ fresh => fresh.of_same rfl rfl rfl) fun taken => ?_
  refine .bind (stays_resolve _ _ _) fun uri => leads_modify fun last fresh => ?_
  split
  · refine .closed [] (.element ⟨name.pre, name.localName, uri, taken.1, taken.2⟩ []) rfl ?_
    rw [Builder.appendOther, Builder.append, fresh.outside, fresh.finished]
    rfl
  · refine .unclosed fresh.finished ?_
    rw [fresh.outside]
    rfl

/-- The attributes of the root element are followed by the end of its tag or of the text. -/
theorem leads_attributes (levels bound : Nat) :
    Leads (Fresh base r) (attributes levels bound) fun opened b =>
      b.Rooted base r ∨ opened = false ∧ Fresh base r b := by
  induction bound with
  | zero => exact leads_pure fun _ fresh => Or.inr ⟨rfl, fresh⟩
  | succ bound inductionHypothesis =>
      rw [attributes]
      refine .bind (stays_lift _) fun ended => ?_
      split
      · exact leads_pure fun _ fresh => Or.inr ⟨rfl, fresh⟩
      refine .bind (stays_lift _) fun spaced => .bind (stays_lift _) fun _ => .bind (stays_lift _) fun start =>
        .bind (stays_lift _) fun c => ?_
      split
      · exact .bind (stays_lift _) fun _ => .bind (stays_lift _) fun _ => (leads_endTag true).bind fun _ =>
          leads_pure fun _ rooted => Or.inl rooted
      · exact .bind (stays_lift _) fun _ => (leads_endTag false).bind fun _ => leads_pure fun _ rooted => Or.inl rooted
      · have rest : Leads (Fresh base r) (do
            let found ← Scan.writtenAttribute
            let b ← get
            let inEntity := levels < entityDepth
            let value ←
              attributes.liftExcept (attributeChars b.entities inEntity (expandAttribute b.entities levels)
                (Piece.cut found.2.offset found.2.rest) b.references)
            modify fun b => { b with references := value.2 }
            addAttribute found.1 (String.ofList value.1) start
            attributes levels bound) fun opened b => b.Rooted base r ∨ opened = false ∧ Fresh base r b :=
          .bind (stays_lift _) fun _ => .bind stays_get fun _ => .bind (stays_liftExcept _) fun _ =>
            .bind (stays_modify fun _ fresh => fresh.of_same rfl rfl rfl) fun _ =>
              .bind (stays_addAttribute (fun _ _ _ fresh => fresh.of_same rfl rfl rfl) _ _ _) fun _ => inductionHypothesis
        dsimp only
        split
        · exact rest
        · exact .bind (stays_lift _) fun _ => rest

/-- A name follows the sign with which the root element begins. -/
theorem named_of_rootElement {b b' : Builder} {c after : Cursor} (gives : rootElement.Gives b c () b' after)
    (starts : ['<'] <+: c.rest) : ∃ d ds, c.rest = '<' :: d :: ds ∧ isNameChar d = true := by
  rw [rootElement] at gives
  rcases gives.exists_of_bind with ⟨opened, mid, middle, reads, -⟩
  rw [startTag] at reads
  rcases reads.of_lift_bind with ⟨start, _, here, reads⟩
  rcases here.of_offset with ⟨rfl, rfl⟩
  rcases reads.of_lift_bind with ⟨_, first, moves, reads⟩
  rcases reads.of_lift_bind with ⟨name, second, names, -⟩
  rcases names.of_qualifiedName with ⟨run, passed, nonempty, named⟩
  rcases List.exists_cons_of_ne_nil nonempty with ⟨d, ds, rfl⟩
  have whole := (moves.of_skip _ starts rfl).trans passed
  exact ⟨d, ds ++ second.rest, whole.rest_eq, named d List.mem_cons_self⟩

/-- The root element begins where its start tag does, unless the text ends in the tag. -/
theorem rooted_of_rootElement {b b' : Builder} {c after : Cursor} (outside : b.openElements = [])
    (gives : rootElement.Gives b c () b' after) :
    b'.Rooted b.finished c.offset ∨ b'.finished = b.finished ∧ b'.openElements = [] := by
  rw [rootElement] at gives
  rcases gives.exists_of_bind with ⟨opened, mid, middle, reads, gives⟩
  rw [startTag] at reads
  rcases reads.of_lift_bind with ⟨start, _, here, reads⟩
  rcases here.of_offset with ⟨rfl, rfl⟩
  have leads : Leads (fun b' => b'.finished = b.finished ∧ b'.openElements = []) (do
      Scan.skip 1
      let name ← Scan.qualifiedName
      beginTag name c.offset
      attributes entityDepth (← Scan.rest).length.succ) fun opened last =>
        last.Rooted b.finished c.offset ∨ opened = false ∧ Fresh b.finished c.offset last := by
    refine .bind (stays_lift _) fun _ => .bind (stays_lift _) fun name => ?_
    refine .bind (unless_refused fun _ => leads_modify (Q := fun _ => Fresh b.finished c.offset) ?_) fun _ =>
      .bind (stays_lift _) fun _ => leads_attributes _ _
    exact fun last same => ⟨same.1, same.2, name, rfl⟩
  rcases leads ⟨rfl, outside⟩ reads with rooted | ⟨rfl, fresh⟩
  · left
    split at gives
    · refine Stays.bind (stays_lift _) (fun _ => ?_) rooted gives
      exact stays_content stable_rooted (stays_expandContent stable_rooted _) _ _
    · rcases gives.of_pure with ⟨-, rfl, -⟩
      exact rooted
  · rcases gives.of_pure with ⟨-, rfl, -⟩
    exact Or.inr ⟨fresh.finished, fresh.outside⟩

end Build

/-! ## The front of an accepted text -/

/-- Every accepted text begins with a front.  Its nodes come first, and the root element
stands where it ends. -/
theorem exists_front_of_read {text : List Char} {placed : List PlacedNode} (accepted : read text = .ok placed) :
    ∃ (front : Front) (c : Char) (rest : List Char) (root : Node) (later : List PlacedNode), front.IsWellFormed ∧
      text = front.text ++ '<' :: c :: rest ∧ isNameChar c = true ∧ root.isElement = true ∧
      placed = front.placedBefore ++ front.placedBehind ++ ⟨front.text.length, root⟩ :: later := by
  rw [read] at accepted
  rcases bind_eq_ok.mp accepted with ⟨⟨⟨_, b⟩, after⟩, built, accepted⟩
  rcases unless_refused_eq_ok.mp accepted with ⟨closed, accepted⟩
  rcases unless_refused_eq_ok.mp accepted with ⟨rooted, accepted⟩
  rw [← pure_eq_ok.mp accepted]
  have someElement : ¬ Build.AddsNoElement .start b := by
    rintro ⟨more, same, leaves⟩
    apply rooted
    rw [List.all_eq_true]
    intro p listed
    rw [same, Builder.start, List.append_nil] at listed
    rw [leaves p listed]
    rfl
  rcases Build.found_document built with leaves | ⟨front, middle, mid, root, last, bound, further, wellFormed, passed,
    finished, outside, tag, reads, ends⟩
  · exact absurd leaves someElement
  rcases Build.rooted_of_rootElement outside reads with here | ⟨same, outsideToo⟩
  · cases Build.stays_miscellaneous Build.stable_rooted bound here ends with
    | unclosed _ lowest =>
        rw [Bool.not_eq_true, Bool.not_eq_false', List.isEmpty_iff] at closed
        rw [closed] at lowest
        cases lowest
    | closed later node isElement whole =>
        rcases Build.named_of_rootElement reads tag with ⟨c, rest, begins, named⟩
        have place := passed.offset_eq
        rw [Nat.zero_add] at place
        refine ⟨front, c, rest, node, later.reverse, wellFormed, ?_, named, isElement, ?_⟩
        · have parted : text = front.text ++ middle.rest := passed.rest_eq
          rw [parted, begins]
        · rw [whole, finished, place, List.reverse_append, List.reverse_cons, List.reverse_reverse, List.append_assoc,
            List.singleton_append]
  · rcases @Build.found_miscellaneous _ _ _ _ false outsideToo _ ends with ⟨parts, found⟩
    refine absurd (Build.AddsNoElement.trans ?_ (Build.addsNoElement_of_placed found.finished)) someElement
    refine ⟨_, same.trans (finished.trans (List.append_nil _).symm), fun p listed => ?_⟩
    rcases List.mem_append.mp (List.mem_reverse.mp listed) with before | behind
    · exact FrontPart.isElement_of_mem_placed before
    · exact Front.isElement_of_mem_placedBehind behind

end Xml
end SlimSvg
