import SlimSvg.Proofs.Tree.Rebuilding
import SlimSvg.Proofs.Value.BlockText
import SlimSvg.Tree.Reading

namespace SlimSvg

/-!
# What is known of a document that was read

Two facts hold of every document that comes from a text.  Its links are those of
a tree, because it was built from branches.  And its elements are typed: every
attribute name occurs once, and every value has the type that the names of its
element and attribute ask for.
-/

/-! ## Typed elements -/

namespace Attributes

theorem map_name_replaceFirst (name : String) (value : AttributeValue) (items : List Attribute) :
    (replaceFirst name value items).map (·.name) = items.map (·.name) := by
  induction items with
  | nil => rfl
  | cons a rest inductionHypothesis =>
      rw [replaceFirst]
      split
      · rfl
      · rw [List.map_cons, List.map_cons, inductionHypothesis]

theorem mem_replaceFirst {name : String} {value : AttributeValue} {items : List Attribute}
    {a : Attribute} (listed : a ∈ replaceFirst name value items) : a = ⟨name, value⟩ ∨ a ∈ items := by
  induction items with
  | nil => cases listed
  | cons first rest inductionHypothesis =>
      rw [replaceFirst] at listed
      split at listed
      · next same =>
        rcases List.mem_cons.mp listed with replaced | later
        · left
          rw [replaced, ← eq_of_beq same]
        · exact Or.inr (List.mem_cons_of_mem first later)
      · rcases List.mem_cons.mp listed with kept | later
        · exact Or.inr (kept ▸ List.mem_cons_self)
        · rcases inductionHypothesis later with new | old
          · exact Or.inl new
          · exact Or.inr (List.mem_cons_of_mem first old)

theorem mem_insert {attributes : Attributes} {name : String} {value : AttributeValue}
    {a : Attribute} (listed : a ∈ (attributes.insert name value).items) :
    a = ⟨name, value⟩ ∨ a ∈ attributes.items := by
  rw [insert] at listed
  split at listed
  · exact mem_replaceFirst listed
  · rcases List.mem_append.mp listed with old | new
    · exact Or.inr old
    · exact Or.inl (List.mem_singleton.mp new)

theorem nodup_names_insert {attributes : Attributes} (name : String) (value : AttributeValue)
    (distinct : (attributes.items.map (·.name)).Nodup) :
    ((attributes.insert name value).items.map (·.name)).Nodup := by
  rw [insert]
  split
  · rw [map_name_replaceFirst]
    exact distinct
  · next absent => exact nodup_map_append_singleton distinct absent

end Attributes

namespace Element

/-- Every attribute name occurs once, and every value is read from some text by
its names. -/
structure Typed (e : Element) : Prop where
  nodup_names : (e.attributes.items.map (·.name)).Nodup
  value_eq : ∀ a ∈ e.attributes.items, ∃ text, a.value = .ofAttribute e.name a.name text

namespace Typed

variable {e : Element}

theorem setAttribute (typed : e.Typed) (name text : String) : (e.setAttribute name text).Typed := by
  constructor
  · exact Attributes.nodup_names_insert name _ typed.nodup_names
  · intro a listed
    rcases Attributes.mem_insert listed with new | old
    · exact ⟨text, by rw [new]; rfl⟩
    · exact typed.value_eq a old

theorem retain (typed : e.Typed) (keep : Attribute → Bool) :
    Element.Typed { e with attributes := e.attributes.retain keep } where
  nodup_names := typed.nodup_names.sublist (List.filter_sublist.map _)
  value_eq a listed := typed.value_eq a (List.mem_filter.mp listed).1

/-- What is found by a name was read by the name. -/
theorem value_of_attribute? (typed : e.Typed) {name : String} {v : AttributeValue}
    (found : e.attribute? name = some v) : ∃ text, v = .ofAttribute e.name name text := by
  obtain ⟨a, first, same⟩ := Option.map_eq_some_iff.mp found
  have named := List.find?_some first
  rw [beq_iff_eq] at named
  obtain ⟨text, read⟩ := typed.value_eq a (List.mem_of_find?_eq_some first)
  refine ⟨text, ?_⟩
  rw [← same, ← named]
  exact read

/-- A style attribute declares every property at most once. -/
theorem distinct_of_style (typed : e.Typed) {v : AttributeValue} {block : Declarations}
    (found : e.attribute? "style" = some v) (declared : v.declarations? = some block) :
    block.Distinct := by
  obtain ⟨text, same⟩ := typed.value_of_attribute? found
  rw [same] at declared
  rw [← Option.some.inj (show some (Declarations.read text) = some block from declared)]
  exact Declarations.distinct_read text

end Typed

end Element

namespace Reading

theorem typed_addDeclaration {e : Element} (typed : e.Typed) (n : Xml.Namespace) :
    (addDeclaration e n).Typed := by
  rw [addDeclaration]
  split
  · exact typed.setAttribute _ _
  · exact ⟨typed.nodup_names, typed.value_eq⟩

theorem typed_addAttribute {e : Element} (typed : e.Typed) (namespaces : Xml.Namespaces)
    (a : Xml.NamedValue) : (addAttribute namespaces e a).Typed := by
  rw [addAttribute]
  split
  · exact typed.setAttribute _ _
  · exact ⟨typed.nodup_names, typed.value_eq⟩

theorem typed_element (tag : Xml.StartTag) (outer : Xml.Namespaces) : (element tag outer).Typed := by
  have declared : ∀ (namespaces : Xml.Namespaces) (e : Element), e.Typed →
      (namespaces.foldl addDeclaration e).Typed := by
    intro namespaces
    induction namespaces with
    | nil => exact fun _ typed => typed
    | cons n rest inductionHypothesis =>
        exact fun e typed => inductionHypothesis _ (typed_addDeclaration typed n)
  have attributed : ∀ (attributes : List Xml.NamedValue) (e : Element), e.Typed →
      (attributes.foldl (addAttribute tag.namespaces) e).Typed := by
    intro attributes
    induction attributes with
    | nil => exact fun _ typed => typed
    | cons a rest inductionHypothesis =>
        exact fun e typed => inductionHypothesis _ (typed_addAttribute typed tag.namespaces a)
  rw [element]
  refine attributed _ _ (declared _ _ ⟨List.nodup_nil, ?_⟩)
  intro a listed
  cases listed

/-! ## Branches that fit -/

theorem allFit_leaf {P : Element → Prop} {c : NodeContent} (leaf : ∀ e, c ≠ .element e) : Branch.AllFit P [.node c []] :=
  ⟨⟨fun e same => absurd same (leaf e), fun _ => rfl, True.intro⟩, True.intro⟩

/-- Whether elements have a property if something is known of their nodes where they stand. -/
def Makes (P : Element → Prop) (R : Xml.Namespaces → Xml.Node → Prop) : Prop :=
  ∀ (outer : Xml.Namespaces) (tag : Xml.StartTag) (children : List Xml.Node), R outer (.element tag children) →
    P (element tag outer) ∧ ∀ n ∈ children, R tag.namespaces n

variable {P : Element → Prop} {R : Xml.Namespaces → Xml.Node → Prop}

mutual

theorem allFit_branch (makes : Makes P R) (keep : Bool) (outer : Xml.Namespaces) :
    ∀ n : Xml.Node, R outer n → Branch.AllFit P (branch keep outer n)
  | .element tag children, known => by
    rw [branch]
    refine ⟨⟨?_, fun other => (nomatch other),
      allFit_branches makes (keepsBlanks tag keep) tag.namespaces children (makes outer tag children known).2⟩, True.intro⟩
    intro e same
    rw [← NodeContent.element.inj same]
    exact (makes outer tag children known).1
  | .text s, _ => by
    rw [branch]
    split
    · exact allFit_leaf fun _ same => nomatch same
    · exact True.intro
  | .comment s, _ => allFit_leaf fun _ same => nomatch same
  | .instruction target value, _ =>
    allFit_leaf fun _ same => nomatch same

theorem allFit_branches (makes : Makes P R) (keep : Bool) (outer : Xml.Namespaces) :
    ∀ nodes : List Xml.Node, (∀ n ∈ nodes, R outer n) → Branch.AllFit P (branches keep outer nodes)
  | [], _ => True.intro
  | n :: rest, known => by
    rw [branches]
    exact Branch.allFit_append (allFit_branch makes keep outer n (known n List.mem_cons_self))
      (allFit_branches makes keep outer rest fun m listed => known m (List.mem_cons_of_mem n listed))

end

/-- The XML declaration counts as an instruction. -/
theorem instruction_of_declaration? {text : List Char} {c : NodeContent}
    (found : Prologue.declaration? text = some c) : ∃ name value, c = .instruction name value := by
  simp only [Prologue.declaration?, Option.bind_eq_bind, Option.bind_eq_some_iff] at found
  obtain ⟨rest, -, next, -, found⟩ := found
  split at found
  · obtain ⟨value, -, same⟩ := Option.bind_eq_some_iff.mp found
    exact ⟨_, _, (Option.some.inj same).symm⟩
  · cases found

theorem doctype_of_doctype? {text : List Char} {place : Nat} {c : NodeContent}
    (found : Prologue.doctype? text = some (place, c)) : ∃ declared, c = .doctype declared := by
  simp only [Prologue.doctype?, Option.bind_eq_bind, Option.bind_eq_some_iff] at found
  obtain ⟨cut, -, body, -, same⟩ := found
  exact ⟨_, (Prod.mk.inj (Option.some.inj same)).2.symm⟩

/-- The declarations at the start of a document are no elements. -/
theorem not_element_of_declaration? {text : List Char} {c : NodeContent}
    (found : Prologue.declaration? text = some c) (e : Element) : c ≠ .element e := by
  rcases instruction_of_declaration? found with ⟨name, value, rfl⟩
  exact fun equal => nomatch equal

theorem not_element_of_doctype? {text : List Char} {place : Nat} {c : NodeContent}
    (found : Prologue.doctype? text = some (place, c)) (e : Element) : c ≠ .element e := by
  rcases doctype_of_doctype? found with ⟨declared, rfl⟩
  exact fun equal => nomatch equal

/-- What is known of all elements where they stand in the markup is known of the branches. -/
theorem allFit_placedBranches (makes : Makes P R) (text : List Char) {placed : List Xml.PlacedNode}
    (known : ∀ p ∈ placed, R [] p.node) : Branch.AllFit P ((placedBranches text placed).flatMap (·.2)) := by
  apply Branch.allFit_flatMap
  intro item listed
  rw [placedBranches, List.mem_mergeSort] at listed
  rcases List.mem_append.mp listed with atStart | node
  · rcases List.mem_append.mp atStart with declaration | doctype
    · obtain ⟨c, found, same⟩ := Option.map_eq_some_iff.mp (Option.mem_toList.mp declaration)
      rw [← same]
      exact allFit_leaf (not_element_of_declaration? found)
    · obtain ⟨⟨place, c⟩, found, same⟩ := Option.map_eq_some_iff.mp (Option.mem_toList.mp doctype)
      rw [← same]
      exact allFit_leaf (not_element_of_doctype? found)
  · obtain ⟨p, among, same⟩ := List.mem_map.mp node
    rw [← same]
    exact allFit_branch makes false [] p.node (known p among)

theorem allFit_typed_placedBranches (text : List Char) (placed : List Xml.PlacedNode) :
    Branch.AllFit Element.Typed ((placedBranches text placed).flatMap (·.2)) :=
  have makes : Makes Element.Typed fun _ _ => True :=
    fun outer tag _ _ => ⟨typed_element tag outer, fun _ _ => True.intro⟩
  allFit_placedBranches makes text fun _ _ => True.intro

/-! ## What markup becomes -/

/-- Whether parsed markup can become a node that holds something. -/
def IsMarkup : NodeContent → Prop
  | .root => False
  | .doctype _ => False
  | _ => True

theorem IsMarkup.ne_root {c : NodeContent} (markup : IsMarkup c) : c ≠ .root := by
  rintro rfl
  exact markup

mutual

theorem eachOf_branch (keep : Bool) (outer : Xml.Namespaces) :
    ∀ n : Xml.Node, Branch.EachOf IsMarkup (branch keep outer n)
  | .element tag children =>
    ⟨⟨True.intro, eachOf_branches (keepsBlanks tag keep) tag.namespaces children⟩, True.intro⟩
  | .text s => by
    rw [branch]
    split
    · exact ⟨⟨True.intro, True.intro⟩, True.intro⟩
    · exact True.intro
  | .comment s => ⟨⟨True.intro, True.intro⟩, True.intro⟩
  | .instruction target value => ⟨⟨True.intro, True.intro⟩, True.intro⟩

theorem eachOf_branches (keep : Bool) (outer : Xml.Namespaces) :
    ∀ nodes : List Xml.Node, Branch.EachOf IsMarkup (branches keep outer nodes)
  | [] => True.intro
  | n :: rest => by
    rw [branches]
    exact Branch.eachOf_append (eachOf_branch keep outer n) (eachOf_branches keep outer rest)

end

theorem eachOf_placedBranches (text : List Char) (placed : List Xml.PlacedNode) :
    Branch.EachOf (· ≠ .root) ((placedBranches text placed).flatMap (·.2)) := by
  apply Branch.eachOf_flatMap
  intro item listed
  rw [placedBranches, List.mem_mergeSort] at listed
  rcases List.mem_append.mp listed with atStart | node
  · rcases List.mem_append.mp atStart with declaration | doctype
    · obtain ⟨c, found, same⟩ := Option.map_eq_some_iff.mp (Option.mem_toList.mp declaration)
      obtain ⟨name, value, rfl⟩ := instruction_of_declaration? found
      rw [← same]
      exact ⟨⟨fun same => (nomatch same), True.intro⟩, True.intro⟩
    · obtain ⟨⟨place, c⟩, found, same⟩ := Option.map_eq_some_iff.mp (Option.mem_toList.mp doctype)
      obtain ⟨declared, rfl⟩ := doctype_of_doctype? found
      rw [← same]
      exact ⟨⟨fun same => (nomatch same), True.intro⟩, True.intro⟩
  · obtain ⟨p, -, same⟩ := List.mem_map.mp node
    rw [← same]
    exact Branch.EachOf.imp (fun _ markup => markup.ne_root) _ (eachOf_branch false [] p.node)

end Reading

namespace Document

/-- A document that was read is a tree of typed elements. -/
theorem grown_of_read {text : String} {name : Option String} {doc : Document}
    (parsed : Document.read text name = .ok doc) : doc.Grown Element.Typed := by
  rw [read] at parsed
  cases reading : Xml.read text.toList with
  | error fault => rw [reading] at parsed; cases parsed
  | ok placed =>
      rw [reading] at parsed
      rw [← Except.ok.inj parsed]
      exact grown_ofBranches (Reading.allFit_typed_placedBranches text.toList placed)

/-- The root of a document that was read is no element. -/
theorem isElement_root_of_read {text : String} {name : Option String} {doc : Document}
    (parsed : Document.read text name = .ok doc) : doc.isElement root = false := by
  rw [read] at parsed
  cases reading : Xml.read text.toList with
  | error fault => rw [reading] at parsed; cases parsed
  | ok placed =>
      rw [reading] at parsed
      rw [← Except.ok.inj parsed, isElement,
        content_root_ofBranches (Reading.allFit_typed_placedBranches text.toList placed)]
      rfl

/-- Where a document was read, the root is the only one of its kind. -/
theorem content_ne_root_of_read {text : String} {name : Option String} {doc : Document}
    (parsed : Document.read text name = .ok doc) {id parent : NodeId} (linked : doc.parent? id = some parent) :
    doc.content id ≠ .root := by
  rw [read] at parsed
  cases reading : Xml.read text.toList with
  | error fault => rw [reading] at parsed; cases parsed
  | ok placed =>
      rw [reading] at parsed
      rw [← Except.ok.inj parsed] at linked ⊢
      exact inner_ofBranches (Reading.eachOf_placedBranches text.toList placed) id parent linked

end Document
end SlimSvg
