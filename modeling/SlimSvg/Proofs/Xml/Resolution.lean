import SlimSvg.Proofs.Xml.Invariants

namespace SlimSvg
namespace Xml

/-!
# Names that were resolved

Whatever text is read, every start tag in it has names that are names, carries the
namespaces that are in force in it, and has its prefixes resolved by these.  All of this is
known of the builder at every moment, for the elements that are closed as well as for those
that are open; only the end of a start tag makes a tag, and it checks what is said here.
-/

/-! ## Resolved tags -/

/-- Whether a namespace can have been declared: the reserved ones cannot. -/
structure Namespace.IsLawful (n : Namespace) : Prop where
  not_xml : n.uri ≠ Vocabulary.xmlNamespace
  not_xmlns : n.uri ≠ Vocabulary.xmlnsNamespace
  pre : ∀ p, n.pre = some p → p ≠ "xml" ∧ Scan.isPlainName p.toList = true

/-- Whether an attribute has a name that is resolved. -/
structure NamedValue.IsResolved (namespaces : Namespaces) (a : NamedValue) : Prop where
  named : Scan.isPlainName a.localName.toList = true
  not_xmlns : a.localName ≠ "xmlns"
  bound : ∀ uri, a.uri = some uri →
    uri = Vocabulary.xmlNamespace ∨ ∃ p, namespaces.uri? (some p) = some uri

/-- Whether a start tag has its names resolved where certain namespaces are in force. -/
structure StartTag.IsResolved (outer : Namespaces) (tag : StartTag) : Prop where
  named : Scan.isPlainName tag.localName.toList = true
  inForce : ∃ own : Namespaces, (∀ n ∈ own, n.IsLawful) ∧ tag.namespaces = own.inherit outer
  bound : ∃ pre, tag.uri = tag.namespaces.uri? pre ∧ (tag.uri = none → pre = none)
  attributes : ∀ a ∈ tag.attributes, a.IsResolved tag.namespaces
  distinct : (tag.attributes.map fun a => (a.uri, a.localName)).Nodup

namespace Node

mutual

/-- Whether all names of a node are resolved. -/
def IsResolved (outer : Namespaces) : Node → Prop
  | .element tag children => tag.IsResolved outer ∧ AreResolved tag.namespaces children
  | _ => True

def AreResolved (outer : Namespaces) : List Node → Prop
  | [] => True
  | n :: rest => n.IsResolved outer ∧ AreResolved outer rest

end

theorem isResolved_leaf {outer : Namespaces} {n : Node} (leaf : n.isElement = false) : n.IsResolved outer := by
  cases n with
  | element tag children => cases leaf
  | _ => exact True.intro

theorem areResolved_iff {outer : Namespaces} {nodes : List Node} :
    AreResolved outer nodes ↔ ∀ n ∈ nodes, n.IsResolved outer := by
  induction nodes with
  | nil => exact ⟨fun _ => nofun, fun _ => True.intro⟩
  | cons n rest inductionHypothesis => rw [AreResolved, inductionHypothesis, List.forall_mem_cons]

end Node

/-! ## Sound builders -/

/-- The namespaces in force inside of the innermost open element. -/
def openNamespaces : List OpenElement → Namespaces
  | inner :: _ => inner.tag.namespaces
  | [] => []

/-- Whether all names of open elements and of their children are resolved. -/
def AreOpened : List OpenElement → Prop
  | [] => True
  | inner :: outer =>
    inner.tag.IsResolved (openNamespaces outer) ∧ Node.AreResolved inner.tag.namespaces inner.children ∧ AreOpened outer

namespace Builder

/-- Whether everything that was built so far has its names resolved, and everything that is
pending can be resolved. -/
structure Sound (b : Builder) : Prop where
  tag : ∀ t, b.tag = some t → t.name.isReadable = true
  attributes : ∀ a ∈ b.attributes, a.name.isReadable = true ∧ a.name.declares = false
  declared : ∀ n ∈ b.declared, n.IsLawful
  opened : AreOpened b.openElements
  finished : ∀ p ∈ b.finished, p.node.IsResolved []

variable {b : Builder}

theorem outerNamespaces_eq (b : Builder) : b.outerNamespaces = openNamespaces b.openElements := by
  rw [outerNamespaces]
  cases b.openElements <;> rfl

theorem sound_start : Sound .start :=
  ⟨nofun, nofun, nofun, True.intro, nofun⟩

theorem Sound.append (sound : b.Sound) {node : Node} (resolved : node.IsResolved b.outerNamespaces) (offset : Nat) :
    (b.append node offset).Sound := by
  rw [outerNamespaces_eq] at resolved
  have opened := sound.opened
  rw [Builder.append]
  split
  · next inner outer inside =>
    rw [inside] at resolved opened
    exact ⟨sound.tag, sound.attributes, sound.declared, ⟨opened.1, ⟨resolved, opened.2.1⟩, opened.2.2⟩, sound.finished⟩
  · next outside =>
    rw [outside] at resolved
    exact ⟨sound.tag, sound.attributes, sound.declared, opened, List.forall_mem_cons.mpr ⟨resolved, sound.finished⟩⟩

theorem Sound.extendText (sound : b.Sound) (text : String) : (b.extendText text).Sound := by
  have opened := sound.opened
  have finished := sound.finished
  rw [Builder.extendText]
  split
  · next inner outer inside =>
    rw [inside] at opened
    split
    · next before rest last =>
      have others : Node.AreResolved inner.tag.namespaces rest := by
        have children := opened.2.1
        rw [last] at children
        exact children.2
      exact ⟨sound.tag, sound.attributes, sound.declared, ⟨opened.1, ⟨True.intro, others⟩, opened.2.2⟩, finished⟩
    · exact sound
  · next offset before rest outside last =>
    rw [last] at finished
    exact ⟨sound.tag, sound.attributes, sound.declared, opened,
      List.forall_mem_cons.mpr ⟨True.intro, (List.forall_mem_cons.mp finished).2⟩⟩
  · exact sound

theorem Sound.withAfterText (sound : b.Sound) (afterText : Bool) : Sound { b with afterText } :=
  ⟨sound.tag, sound.attributes, sound.declared, sound.opened, sound.finished⟩

theorem Sound.withEntities (sound : b.Sound) (entities : Entities) : Sound { b with entities } :=
  ⟨sound.tag, sound.attributes, sound.declared, sound.opened, sound.finished⟩

theorem Sound.appendText (sound : b.Sound) (text : List Char) (offset : Nat) : (b.appendText text offset).Sound := by
  rw [Builder.appendText]
  apply Sound.withAfterText
  split
  · exact sound.extendText _
  · exact sound.append (Node.isResolved_leaf rfl) offset

theorem Sound.appendOther (sound : b.Sound) {node : Node} (resolved : node.IsResolved b.outerNamespaces)
    (offset : Nat) : (b.appendOther node offset).Sound :=
  (sound.append resolved offset).withAfterText false

theorem Sound.closeInner (sound : b.Sound) : b.closeInner.Sound := by
  have opened := sound.opened
  rw [Builder.closeInner]
  cases inside : b.openElements with
  | nil => exact sound
  | cons inner outer =>
      rw [inside] at opened
      have rest : Sound { b with openElements := outer } :=
        ⟨sound.tag, sound.attributes, sound.declared, opened.2.2, sound.finished⟩
      refine rest.append ?_ inner.offset
      rw [outerNamespaces_eq]
      refine ⟨opened.1, Node.areResolved_iff.mpr fun n listed => ?_⟩
      exact Node.areResolved_iff.mp opened.2.1 n (List.mem_reverse.mp listed)

end Builder

/-! ## Steps that keep everything resolved -/

namespace Build

/-! ### Attributes -/

theorem keeps_declare {n : Namespace} (lawful : n.IsLawful) :
    Stays Builder.Sound (modify fun b => { b with declared := b.declared ++ [n] }) := by
  refine stays_modify fun b sound => ⟨sound.tag, sound.attributes, ?_, sound.opened, sound.finished⟩
  intro m listed
  rcases List.mem_append.mp listed with old | new
  · exact sound.declared m old
  · rw [List.mem_singleton.mp new]
    exact lawful

theorem keeps_addAttribute {name : Scan.QName} (named : name.isReadable = true) (value : String) (offset : Nat) :
    Stays Builder.Sound (addAttribute name value offset) := by
  rw [Scan.QName.isReadable, Bool.and_eq_true] at named
  rw [addAttribute]
  refine stays_get.bind fun b => ?_
  dsimp only
  split
  · refine unless_refused fun notXmlns => ?_
    rw [beq_iff_eq] at notXmlns
    by_cases isXml : (value == Vocabulary.xmlNamespace) = true
    · -- The reserved prefix is not declared again.
      simp only [if_pos isXml]
      split
      · exact unless_refused fun _ => stays_pure ()
      · exact leads_refusal
    · simp only [if_neg isXml]
      rw [beq_iff_eq] at isXml
      split
      · exact leads_refusal
      · next notReserved =>
        refine unless_refused fun _ => keeps_declare ⟨isXml, notXmlns, ?_⟩
        rintro _ ⟨⟩
        exact ⟨fun same => notReserved (beq_iff_eq.mpr same), named.2⟩
  · next noPrefix =>
    split
    · refine unless_refused fun notXml => unless_refused fun notXmlns => ?_
      rw [beq_iff_eq] at notXml notXmlns
      refine keeps_declare ⟨notXml, notXmlns, ?_⟩
      rintro _ ⟨⟩
    · next noDefault =>
      refine stays_modify fun b sound => ⟨sound.tag, ?_, sound.declared, sound.opened, sound.finished⟩
      intro a listed
      rcases List.mem_append.mp listed with old | new
      · exact sound.attributes a old
      · rw [Bool.not_eq_true] at noPrefix noDefault
        rw [List.mem_singleton.mp new, Scan.QName.isReadable, Bool.and_eq_true, Scan.QName.declares, noPrefix, noDefault]
        exact ⟨named, rfl⟩

/-- Only the default namespace may be missing. -/
theorem leads_resolve {P : Builder → Prop} (namespaces : Namespaces) (pre : String) (offset : Nat) :
    Leads P (resolve namespaces pre offset) fun uri b =>
      uri = namespaces.uri? (if pre.isEmpty then none else some pre) ∧ (uri = none → pre.isEmpty = true) ∧ P b := by
  rw [resolve]
  split
  · next empty => exact leads_pure fun _ before => ⟨rfl, fun _ => empty, before⟩
  · split
    · next uri found =>
      refine leads_pure fun _ before => ⟨found.symm, ?_, before⟩
      rintro ⟨⟩
    · exact leads_fail

theorem leads_resolveAttributes {P : Builder → Prop} {namespaces : Namespaces} {pending : List PendingAttribute}
    (named : ∀ a ∈ pending, a.name.isReadable = true ∧ a.name.declares = false) {done : List NamedValue}
    (resolved : ∀ a ∈ done, a.IsResolved namespaces) (distinct : (done.map fun a => (a.uri, a.localName)).Nodup) :
    Leads P (resolveAttributes namespaces done pending) fun found b =>
      (∀ a ∈ found, a.IsResolved namespaces) ∧ (found.map fun a => (a.uri, a.localName)).Nodup ∧ P b := by
  induction pending generalizing done with
  | nil =>
      refine leads_pure fun b before => ⟨fun a listed => resolved a (List.mem_reverse.mp listed), ?_, before⟩
      rw [List.map_reverse, List.nodup_reverse]
      exact distinct
  | cons a rest inductionHypothesis =>
      rcases named a List.mem_cons_self with ⟨readable, ordinary⟩
      rw [Scan.QName.isReadable, Bool.and_eq_true] at readable
      rw [Scan.QName.declares, Bool.or_eq_false_iff, beq_eq_false_iff_ne, beq_eq_false_iff_ne] at ordinary
      -- The three kinds of prefixes differ only in how the namespace is found.
      have accepted (uri : Option String) (bound : ∀ u, uri = some u →
          u = Vocabulary.xmlNamespace ∨ ∃ p, namespaces.uri? (some p) = some u) : Leads P (do
          if done.any fun d => d.uri == uri && d.localName == a.name.localName then
            Scan.failAt a.offset (.duplicateAttribute a.name.localName)
          resolveAttributes namespaces (⟨uri, a.name.localName, a.value⟩ :: done) rest) fun found b =>
            (∀ a ∈ found, a.IsResolved namespaces) ∧ (found.map fun a => (a.uri, a.localName)).Nodup ∧ P b := by
        refine unless_refused fun fresh => inductionHypothesis (fun d listed => named d (List.mem_cons_of_mem a listed)) ?_ ?_
        · exact List.forall_mem_cons.mpr ⟨⟨readable.2, ordinary.2, bound⟩, resolved⟩
        · rw [List.map_cons, List.nodup_cons]
          refine ⟨fun listed => ?_, distinct⟩
          rcases List.mem_map.mp listed with ⟨d, among, same⟩
          rcases Prod.mk.inj same with ⟨uriEq, localEq⟩
          apply fresh
          rw [List.any_eq_true]
          exact ⟨d, among, by rw [Bool.and_eq_true, beq_iff_eq, beq_iff_eq]; exact ⟨uriEq, localEq⟩⟩
      rw [resolveAttributes]
      split
      · exact accepted _ fun _ same => Or.inl (Option.some.inj same).symm
      · split
        · exact accepted none fun u impossible => by cases impossible
        · next prefixed =>
          refine (leads_resolve namespaces a.name.pre a.offset).bind fun uri => .of_fact (fun _ holds => holds.1) fun same => ?_
          rw [if_neg prefixed] at same
          exact (accepted uri fun u known => Or.inr ⟨a.name.pre, same.symm.trans known⟩).of_imp (fun _ holds => holds.2.2)
            fun _ _ holds => holds

theorem leads_takeAttributes : Leads Builder.Sound takeAttributes fun found b =>
    (∃ own : Namespaces, (∀ n ∈ own, n.IsLawful) ∧ found.1 = own.inherit b.outerNamespaces) ∧
      (∀ a ∈ found.2, a.IsResolved found.1) ∧ (found.2.map fun a => (a.uri, a.localName)).Nodup ∧ b.Sound := by
  rw [takeAttributes]
  refine leads_get.bind fun b => .of_fact (fun _ before => before.1 ▸ before.2) fun sound => ?_
  refine (@leads_resolveAttributes _ _ _ sound.attributes [] (List.forall_mem_nil _) List.nodup_nil).bind fun attributes => ?_
  refine .of_fact (fun _ holds => (⟨holds.1, holds.2.1⟩ : _ ∧ _)) fun known => ?_
  refine .bind (leads_modify (Q := fun _ last => last.outerNamespaces = b.outerNamespaces ∧ last.Sound) ?_) fun _ => ?_
  · rintro last ⟨-, -, rfl, -⟩
    exact ⟨rfl, sound.tag, List.forall_mem_nil _, List.forall_mem_nil _, sound.opened, sound.finished⟩
  · refine leads_pure fun last holds => ⟨⟨b.declared, sound.declared, ?_⟩, known.1, known.2, holds.2⟩
    rw [holds.1]

/-! ### Tags -/

theorem keeps_beginTag {name : Scan.QName} (named : name.isReadable = true) (offset : Nat) :
    Stays Builder.Sound (beginTag name offset) := by
  rw [beginTag]
  refine unless_refused fun _ => stays_modify fun b sound => ⟨?_, sound.attributes, sound.declared, sound.opened,
    sound.finished⟩
  rintro _ ⟨⟩
  exact named

theorem keeps_endTag (isEmpty : Bool) : Stays Builder.Sound (endTag isEmpty) := by
  rw [endTag]
  refine leads_get.bind fun b => .of_fact (fun _ before => before.1 ▸ before.2) fun sound => ?_
  split
  · exact leads_pure fun _ holds => holds.2
  · next tag tagged =>
    have named := sound.tag tag tagged
    rw [Scan.QName.isReadable, Bool.and_eq_true] at named
    refine (leads_takeAttributes.of_imp (fun _ before => before.2) fun _ _ holds => holds).bind fun taken => ?_
    refine (leads_resolve _ _ _).bind fun uri => leads_modify ?_
    rintro last ⟨uriEq, missing, inForce, attributes, distinct, sound⟩
    have resolved : StartTag.IsResolved last.outerNamespaces
        ⟨tag.name.pre, tag.name.localName, uri, taken.1, taken.2⟩ := by
      refine ⟨named.2, inForce, ⟨_, uriEq, fun none => ?_⟩, attributes, distinct⟩
      rw [missing none]
      rfl
    split
    · refine sound.appendOther ?_ _
      exact ⟨resolved, True.intro⟩
    · rw [Builder.outerNamespaces_eq] at resolved
      exact ⟨sound.tag, sound.attributes, sound.declared, ⟨resolved, True.intro, sound.opened⟩, sound.finished⟩

theorem keeps_closeTag (name : Scan.QName) (offset : Nat) : Stays Builder.Sound (closeTag name offset) := by
  rw [closeTag]
  refine stays_get.bind fun b => unless_refused fun _ => ?_
  refine (leads_takeAttributes.of_imp (fun _ before => before) fun _ _ holds => holds.2.2.2).bind fun _ => ?_
  refine stays_get.bind fun b => ?_
  split
  · exact leads_fail
  · exact unless_refused fun _ => stays_modify fun _ sound => sound.closeInner.withAfterText false

theorem stable_sound : Builder.Stable Builder.Sound where
  appendLeaf := fun offset leaf sound => sound.appendOther (Node.isResolved_leaf leaf) offset
  appendText := fun text offset sound => sound.appendText text offset
  withEntities := fun entities sound => sound.withEntities entities
  withReferences := fun _ sound => ⟨sound.tag, sound.attributes, sound.declared, sound.opened, sound.finished⟩
  withoutTag := fun sound => ⟨nofun, sound.attributes, sound.declared, sound.opened, sound.finished⟩
  withTag := fun before sound => ⟨before.tag, sound.attributes, sound.declared, sound.opened, sound.finished⟩
  addAttribute := keeps_addAttribute
  beginTag := keeps_beginTag
  endTag := keeps_endTag
  closeTag := keeps_closeTag

end Build

/-- Whatever text is read, all names in it are resolved. -/
theorem isResolved_of_read {text : List Char} {placed : List PlacedNode} (parsed : read text = .ok placed) :
    ∀ p ∈ placed, p.node.IsResolved [] := by
  rw [read] at parsed
  rcases bind_eq_ok.mp parsed with ⟨⟨⟨_, b⟩, after⟩, built, parsed⟩
  have sound : b.Sound := Build.stays_document Build.stable_sound Builder.sound_start built
  rcases unless_refused_eq_ok.mp parsed with ⟨-, parsed⟩
  rcases unless_refused_eq_ok.mp parsed with ⟨-, parsed⟩
  rw [← pure_eq_ok.mp parsed]
  exact fun p listed => sound.finished p (List.mem_reverse.mp listed)

end Xml
end SlimSvg
