import SlimSvg.Proofs.Tree.Namespaces

namespace SlimSvg

/-!
# Where blanks count

Blanks count in an element that says so with `xml:space`, and else where its name or what is
around it says so.  In a document that was read the prefix `xml` stands at exactly those
attributes that are in its namespace, and no other prefix is bound to it.  So blanks count in
the same elements when the document was written and is read again.
-/

namespace Xml

/-! ## The namespace of the prefix -/

/-- Whether no prefix is bound to the namespace that the prefix `xml` has everywhere. -/
def Namespaces.SparesXml (namespaces : Namespaces) : Prop :=
  ∀ p, namespaces.uri? (some p) ≠ some Vocabulary.xmlNamespace

namespace Namespaces

theorem sparesXml_nil : SparesXml [] :=
  nofun

/-- The prefix `xml` is never declared, and none with its namespace. -/
theorem SparesXml.scope {outer : Namespaces} (spares : outer.SparesXml) (attrs : List SpelledAttribute) :
    (Build.scope outer attrs).SparesXml := by
  intro p bound
  rw [Build.scope, uri?_inherit] at bound
  cases own : (Build.declarations attrs).uri? (some p) with
  | none =>
      rw [own, Option.none_or] at bound
      exact spares p bound
  | some uri =>
      rw [own, Option.some_or] at bound
      have listed := mem_of_uri? own
      rw [Option.some.inj bound, Build.declarations, List.mem_filterMap] at listed
      rcases listed with ⟨a, -, declared⟩
      rw [declaration?] at declared
      split at declared
      · split at declared
        · cases declared
        · next other =>
          have same := congrArg Namespace.uri (Option.some.inj declared)
          exact other (beq_iff_eq.mpr same)
      · split at declared
        · cases declared
        · cases declared

/-- Only the prefix `xml` puts an attribute into its namespace. -/
theorem SparesXml.attributeUri?_eq_iff {namespaces : Namespaces} (spares : namespaces.SparesXml) {pre : String} :
    Build.attributeUri? namespaces pre = some Vocabulary.xmlNamespace ↔ pre = "xml" := by
  rw [Build.attributeUri?]
  by_cases isXml : pre = "xml"
  · rw [isXml]
    exact ⟨fun _ => rfl, fun _ => rfl⟩
  · rw [if_neg (by rw [beq_iff_eq]; exact isXml), iff_false_right isXml]
    split
    · exact Option.some_ne_none _ |>.symm
    · exact spares pre

end Namespaces

end Xml

/-! ## Elements that were read -/

namespace Element

/-- Whether the prefix `xml` stands at exactly those attributes that are in its namespace. -/
def SpellsXml (e : Element) : Prop :=
  ∀ a ∈ e.foreign, a.pre = some "xml" ↔ a.uri = some Vocabulary.xmlNamespace

end Element

namespace Reading

theorem spellsXml_addDeclaration {e : Element} (spells : e.SpellsXml) (n : Xml.Namespace) :
    (addDeclaration e n).SpellsXml := by
  rw [addDeclaration]
  split
  · exact spells
  · intro a listed
    rcases List.mem_append.mp listed with old | new
    · exact spells a old
    · rw [List.mem_singleton.mp new]
      have other : some "xmlns" ≠ some "xml" ∧ some Vocabulary.xmlnsNamespace ≠ some Vocabulary.xmlNamespace := by decide
      exact ⟨fun impossible => absurd impossible other.1, fun impossible => absurd impossible other.2⟩

theorem spellsXml_addAttribute {namespaces : Xml.Namespaces} (lawful : ∀ n ∈ namespaces, n.IsLawful) {e : Element}
    (spells : e.SpellsXml) (a : Xml.NamedValue) : (addAttribute namespaces e a).SpellsXml := by
  rw [addAttribute]
  split
  · exact spells
  · next uri _ =>
    intro b listed
    rcases List.mem_append.mp listed with old | new
    · exact spells b old
    · rw [List.mem_singleton.mp new]
      change namespaces.prefixOf? uri = some "xml" ↔ some uri = some Vocabulary.xmlNamespace
      rw [Xml.Namespaces.prefixOf?, Option.some_inj]
      by_cases isXml : uri = Vocabulary.xmlNamespace
      · rw [isXml]
        exact ⟨fun _ => rfl, fun _ => rfl⟩
      · rw [if_neg (by rw [beq_iff_eq]; exact isXml), iff_false_right isXml]
        intro found
        rcases Option.bind_eq_some_iff.mp found with ⟨n, first, same⟩
        exact ((lawful n (List.mem_of_find?_eq_some first)).pre "xml" same).1 rfl

theorem spellsXml_element {tag : Xml.StartTag} {outer : Xml.Namespaces} (outerLawful : ∀ n ∈ outer, n.IsLawful)
    (resolved : tag.IsResolved outer) : (element tag outer).SpellsXml := by
  rw [element]
  refine List.foldlRecOn _ _ (List.foldlRecOn _ _ ?_ fun e spells n _ => spellsXml_addDeclaration spells n)
    fun e spells a _ => spellsXml_addAttribute (lawful_namespaces outerLawful resolved) spells a
  exact List.forall_mem_nil _

end Reading

namespace Document

theorem allFit_spellsXml_of_read {text : String} {name : Option String} {doc : Document}
    (parsed : Document.read text name = .ok doc) : Branch.AllFit Element.SpellsXml doc.branches := by
  rw [read] at parsed
  cases reading : Xml.read text.toList with
  | error fault => rw [reading] at parsed; cases parsed
  | ok placed =>
      rw [reading] at parsed
      rw [← Except.ok.inj parsed, branches_ofBranches]
      have makes : Reading.Makes Element.SpellsXml fun outer n => (∀ m ∈ outer, m.IsLawful) ∧ n.IsResolved outer := by
        rintro outer tag children ⟨lawful, resolved, inner⟩
        refine ⟨Reading.spellsXml_element lawful resolved, fun n listed => ?_⟩
        exact ⟨Reading.lawful_namespaces lawful resolved, Xml.Node.areResolved_iff.mp inner n listed⟩
      exact Reading.allFit_placedBranches makes text.toList fun p listed =>
        ⟨List.forall_mem_nil _, Xml.isResolved_of_read reading p listed⟩

end Document

/-! ## Elements that are written and read -/

namespace Element

/-- Whether an attribute is the one that says where blanks count. -/
def isSpace (namespaces : Xml.Namespaces) (a : Xml.SpelledAttribute) : Bool :=
  Xml.Build.attributeUri? namespaces a.name.pre == some Vocabulary.xmlNamespace && a.name.localName == "space"

variable {outer : Xml.Namespaces} {e : Element}

theorem isSpace_iff {namespaces : Xml.Namespaces} (spares : namespaces.SparesXml) {a : Xml.SpelledAttribute} :
    isSpace namespaces a = true ↔ a.name.pre = "xml" ∧ a.name.localName = "space" := by
  rw [isSpace, Bool.and_eq_true, beq_iff_eq, beq_iff_eq, spares.attributeUri?_eq_iff]

/-- The attributes that say where blanks count are written as they were. -/
theorem filter_isSpace {namespaces : Xml.Namespaces} (spares : namespaces.SparesXml) (spells : e.SpellsXml) :
    (Xml.Build.ordinary e.spelledAttributes).filter (isSpace namespaces) =
      (e.others.filter fun a => a.uri == some Vocabulary.xmlNamespace && a.localName == "space").map (·.spelled) := by
  have ordinary (a : Xml.SpelledAttribute) : (isSpace namespaces a && !a.name.declares) = isSpace namespaces a := by
    cases space : isSpace namespaces a with
    | false => rfl
    | true =>
        rcases (isSpace_iff spares).mp space with ⟨pre, localName⟩
        rw [Xml.Scan.QName.declares, pre, localName]
        decide
  have none {attrs : List Xml.SpelledAttribute} (other : ∀ a ∈ attrs, a.name.pre ≠ "xml") :
      attrs.filter (isSpace namespaces) = [] :=
    List.filter_eq_nil_iff.mpr fun a listed space => other a listed ((isSpace_iff spares).mp space).1
  have default : e.spelledDefault.filter (isSpace namespaces) = [] := by
    apply none
    intro a listed
    rcases Option.map_eq_some_iff.mp (Option.mem_toList.mp listed) with ⟨value, -, rfl⟩
    exact show "" ≠ "xml" by decide
  have prefixes : (e.prefixes.map (·.spelled)).filter (isSpace namespaces) = [] := by
    apply none
    rw [List.forall_mem_map]
    intro a listed
    change a.pre.getD "" ≠ "xml"
    rw [of_mem_prefixes listed]
    decide
  have own : e.spelledOwn.filter (isSpace namespaces) = [] := by
    apply none
    rw [spelledOwn, List.forall_mem_map]
    exact fun _ _ => show "" ≠ "xml" by decide
  have others : (e.others.map (·.spelled)).filter (isSpace namespaces) =
      (e.others.filter fun a => a.uri == some Vocabulary.xmlNamespace && a.localName == "space").map (·.spelled) := by
    rw [List.filter_map]
    congr 1
    apply List.filter_congr
    intro a listed
    have same := spells a (List.mem_filter.mp listed).1
    rw [Bool.eq_iff_iff, Function.comp_apply, isSpace_iff spares, Bool.and_eq_true, beq_iff_eq, beq_iff_eq, ← same]
    refine and_congr_left fun _ => ?_
    change a.pre.getD "" = "xml" ↔ _
    cases a.pre with
    | none => exact ⟨fun impossible => absurd impossible (by decide), fun impossible => absurd impossible (by decide)⟩
    | some p => exact Option.some_inj.symm
  rw [Xml.Build.ordinary, List.filter_filter, List.filter_congr fun a _ => ordinary a, spelledAttributes,
    List.filter_append, List.filter_append, List.filter_append, default, prefixes, own, others]
  rfl

/-- Blanks count in an element that is written and read where they counted before. -/
theorem keepsBlanks_tagOf (writable : e.isWritable outer = true) (spares : outer.SparesXml) (spells : e.SpellsXml)
    (keep : Bool) :
    Reading.keepsBlanks (Xml.Build.tagOf outer e.tagName e.spelledAttributes) keep = e.keepsBlanks keep := by
  have spaces : (Xml.Build.tagOf outer e.tagName e.spelledAttributes).attributes.filter
      (fun a => a.uri == some Vocabulary.xmlNamespace && a.localName == "space") =
        (e.others.filter fun a => a.uri == some Vocabulary.xmlNamespace && a.localName == "space").map fun a =>
          ⟨Xml.Build.attributeUri? (e.scope outer) (a.pre.getD ""), a.localName, a.spelled.value⟩ := by
    rw [Xml.Build.tagOf, List.filter_map]
    change ((Xml.Build.ordinary e.spelledAttributes).filter (isSpace (e.scope outer))).map _ = _
    have inForce : (e.scope outer).SparesXml := spares.scope _
    rw [filter_isSpace inForce spells, List.map_map]
    rfl
  rw [Reading.keepsBlanks, keepsBlanks, spaces, List.getLast?_map]
  cases last : (e.others.filter fun a => a.uri == some Vocabulary.xmlNamespace && a.localName == "space").getLast? with
  | none => rfl
  | some a =>
      have listed := (List.mem_filter.mp (List.mem_of_getLast? last)).1
      have among : a.spelled ∈ e.spelledAttributes := by
        rw [spelledAttributes]
        simp only [List.mem_append]
        exact Or.inr (Or.inr (Or.inr (List.mem_map_of_mem listed)))
      have solid : ∀ c ∈ "preserve".toList, Text.isXmlSpace c = false := by simp [Text.isXmlSpace]
      have same := ((readableTag writable).readable _ among).spells.attributeValue_eq_iff solid
      rw [Option.map_some]
      dsimp only
      rw [Bool.eq_iff_iff, beq_iff_eq, beq_iff_eq, Xml.SpelledAttribute.value, ← String.toList_inj, String.toList_ofList,
        same]
      exact String.toList_inj

end Element

end SlimSvg
