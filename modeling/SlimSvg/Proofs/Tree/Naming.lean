import SlimSvg.Proofs.Tree.Scopes

namespace SlimSvg

/-!
# Names that are written and resolved again

What an element declares and what is around it bind every prefix as the tag did that it was
read from.  So each of its names gets its own namespace again where it is written, no prefix
is unbound, and no two attributes come to one name.
-/

/-! ## Names that stand for namespaces -/

namespace Xml

/-- Whether all prefixes stand for the same namespaces in two scopes. -/
def Namespaces.BindsAs (scope namespaces : Namespaces) : Prop :=
  ∀ pre, scope.uri? pre = namespaces.uri? pre

/-- Whether a name can be written for an element, and stands for a namespace wherever
prefixes are bound as in certain namespaces. -/
structure NamesElement (q : Scan.QName) (namespaces : Namespaces) (uri : Option String) : Prop where
  readable : q.isReadable = true
  free : q.pre ≠ "xmlns"
  known : ∀ {scope : Namespaces}, scope.BindsAs namespaces →
    (q.pre.isEmpty || (scope.uri? (some q.pre)).isSome) = true
  resolves : ∀ {scope : Namespaces}, scope.BindsAs namespaces →
    scope.uri? (if q.pre.isEmpty then none else some q.pre) = uri

/-- Whether a name can be written for an attribute, and stands for a namespace wherever
prefixes are bound as in certain namespaces. -/
structure NamesAttribute (q : Scan.QName) (namespaces : Namespaces) (uri : Option String) : Prop where
  readable : q.isReadable = true
  free : q.pre ≠ "xmlns"
  bound : ∀ {scope : Namespaces}, scope.BindsAs namespaces → Build.isBound scope q.pre = true
  resolves : ∀ {scope : Namespaces}, scope.BindsAs namespaces → Build.attributeUri? scope q.pre = uri

/-- A plain name is not empty. -/
theorem Scan.isEmpty_of_isPlainName {p : String} (plain : isPlainName p.toList = true) : p.isEmpty = false := by
  rw [← Bool.not_eq_true, String.isEmpty_iff]
  rintro rfl
  cases plain

/-- A name without a prefix is one if its local part is. -/
theorem Scan.isReadable_bare {name : String} (plain : isPlainName name.toList = true) :
    QName.isReadable ⟨"", name⟩ = true := by
  rw [QName.isReadable, plain]
  rfl

theorem Scan.isReadable_prefixed {p name : String} (prefixPlain : isPlainName p.toList = true)
    (plain : isPlainName name.toList = true) : QName.isReadable ⟨p, name⟩ = true := by
  rw [QName.isReadable, prefixPlain, plain, Bool.or_true]
  rfl

/-- A prefix that stands for some namespace is bound. -/
theorem Build.isBound_of_attributeUri? {scope : Namespaces} {pre uri : String}
    (resolves : attributeUri? scope pre = some uri) : isBound scope pre = true := by
  rw [attributeUri?] at resolves
  rw [isBound]
  split at resolves
  · next isXml =>
    rw [isXml]
    rfl
  · split at resolves
    · cases resolves
    · rw [resolves, Option.isSome_some, Bool.or_true]

end Xml

/-! ## Elements where they are written -/

namespace Element

/-- The names of an element and its attributes as they are resolved where it is written. -/
def writtenNames (outer : Xml.Namespaces) (e : Element) : List (Option String × String) :=
  (e.boundUri? outer, e.name) :: (Xml.Build.ordinary e.spelledAttributes).map fun a =>
    (Xml.Build.attributeUri? (e.scope outer) a.name.pre, a.name.localName)

/-- Whether all names of an element can be resolved where it is written: they are names,
nothing reserved is declared, every prefix is bound, and no two attributes have one name. -/
def isNamed (outer : Xml.Namespaces) (e : Element) : Bool :=
  e.pre != some "" && e.foreign.all (·.pre != some "") && e.tagName.isReadable && e.tagName.pre != "xmlns"
    && (e.spelledAttributes.all fun a => a.name.isReadable
      && (!a.name.declares || isSolid a.spelt && Xml.isLawful a.name (String.ofList a.spelt)))
    && e.hasReadablePrefixes outer

/-- Whether all values of attributes have characters that may stand in a document. -/
def isLegible (e : Element) : Bool :=
  e.spelledAttributes.all fun a => a.spelt.all Xml.isXmlChar

/-- The names of a tag that came from an element are resolved where this is written. -/
theorem names_of_cameFrom {outer : Xml.Namespaces} {e : Element} {tag : Xml.StartTag}
    (cameFrom : Xml.Build.TagCameFrom tag outer e.tagName e.spelledAttributes) : tag.names = e.writtenNames outer := by
  rw [Xml.StartTag.names, cameFrom.attributeNames_eq, cameFrom.uri_eq, cameFrom.localName_eq]
  rfl

theorem isWritable_of_isNamed {outer : Xml.Namespaces} {e : Element} (named : e.isNamed outer = true)
    (legible : e.isLegible = true) : e.isWritable outer = true := by
  simp only [isNamed, Bool.and_eq_true, List.all_eq_true] at named
  rcases named with ⟨⟨⟨⟨⟨own, foreign⟩, name⟩, free⟩, attributes⟩, prefixes⟩
  simp only [isWritable, hasReadableNames, Bool.and_eq_true, List.all_eq_true]
  refine ⟨⟨⟨⟨⟨own, foreign⟩, name⟩, free⟩, fun a listed => ?_⟩, prefixes⟩
  have chars := List.all_eq_true.mp (List.all_eq_true.mp legible a listed)
  exact ⟨⟨(attributes a listed).1, chars⟩, (attributes a listed).2⟩

end Element

namespace Reading

section Element

variable {tag : Xml.StartTag} {outer : Xml.Namespaces}

/-! ## Names where they are written -/

theorem perm_declared : (declared tag outer).Perm (newDeclarations tag outer) :=
  perm_isNone_isSome _ _

theorem mem_declared {n : Xml.Namespace} :
    n ∈ declared tag outer ↔ n ∈ tag.namespaces ∧ n.uri ≠ Vocabulary.xmlNamespace ∧ n ∉ outer := by
  rw [perm_declared.mem_iff, newDeclarations, List.mem_filter, Bool.and_eq_true, bne_iff_ne, Bool.not_eq_true',
    List.contains_eq_mem, decide_eq_false_iff_not]

theorem nodup_declared (clear : tag.IsClear) : ((declared tag outer).map (·.pre)).Nodup :=
  (perm_declared.map _).nodup_iff.mpr (nodup_newDeclarations clear)

theorem perm_sorted : tag.sorted.attributes.Perm tag.attributes :=
  perm_isNone_isSome _ _

/-- A tag in lawful namespaces has lawful ones. -/
theorem lawful_namespaces (outerLawful : ∀ n ∈ outer, n.IsLawful) (resolved : tag.IsResolved outer) :
    ∀ n ∈ tag.namespaces, n.IsLawful := by
  intro n listed
  rcases resolved.inForce with ⟨own, lawful, inForce⟩
  rcases own.exists_inherit outer with ⟨kept, same, among⟩
  rw [inForce, same, List.mem_append] at listed
  rcases listed with ours | outside
  · exact lawful n ours
  · exact outerLawful n (among n outside)

section Clear

variable (outerClear : outer.AreClear) (resolved : tag.IsResolved outer) (clear : tag.IsClear)

include outerClear resolved clear

/-- The namespaces in a tag are those around it and its own ones. -/
theorem areClear_namespaces : tag.namespaces.AreClear :=
  ⟨lawful_namespaces outerClear.lawful resolved, clear.distinct⟩

/-- What is declared and what is around it bind all prefixes as the tag did. -/
theorem uri?_declared (pre : Option String) :
    ((declared tag outer).uri? pre).or (outer.uri? pre) = tag.namespaces.uri? pre := by
  have namespacesClear := areClear_namespaces outerClear resolved clear
  cases bound : tag.namespaces.uri? pre with
  | none =>
      rcases resolved.inForce with ⟨own, -, inForce⟩
      rw [inForce, Xml.Namespaces.uri?_inherit, Option.or_eq_none_iff] at bound
      rw [bound.2, Option.or_none, Xml.Namespaces.uri?, Option.map_eq_none_iff, List.find?_eq_none]
      intro n listed same
      have inTag := Xml.Namespaces.uri?_of_mem clear.distinct (mem_declared.mp listed).1
      rw [beq_iff_eq.mp same, inForce, Xml.Namespaces.uri?_inherit, bound.1, bound.2] at inTag
      cases inTag
  | some uri =>
      have listed := Xml.Namespaces.mem_of_uri? bound
      by_cases outside : ⟨pre, uri⟩ ∈ outer
      · have absent : (declared tag outer).uri? pre = none := by
          rw [Xml.Namespaces.uri?, Option.map_eq_none_iff, List.find?_eq_none]
          intro n among same
          have new := mem_declared.mp among
          have equal := List.inj_on_of_nodup_map clear.distinct new.1 listed (beq_iff_eq.mp same)
          exact new.2.2 (equal ▸ outside)
        rw [absent, Option.none_or]
        exact Xml.Namespaces.uri?_of_mem outerClear.distinct outside
      · have new : (⟨pre, uri⟩ : Xml.Namespace) ∈ declared tag outer :=
          mem_declared.mpr ⟨listed, (namespacesClear.lawful _ listed).not_xml, outside⟩
        have found : (declared tag outer).uri? pre = some uri :=
          Xml.Namespaces.uri?_of_mem (nodup_declared clear) new
        rw [found]
        rfl

/-! ## Names that are resolved again -/

/-- The prefix of an attribute with a namespace stands for this namespace. -/
theorem exists_prefix {a : Xml.NamedValue} (listed : a ∈ tag.attributes) {uri : String} (known : a.uri = some uri) :
    ∃ p, tag.namespaces.prefixOf? uri = some p ∧ p ≠ "xmlns" ∧ Xml.Scan.isPlainName p.toList = true ∧
      ∀ {scope : Xml.Namespaces}, scope.BindsAs tag.namespaces → Xml.Build.attributeUri? scope p = some uri := by
  have namespacesClear := areClear_namespaces outerClear resolved clear
  rcases clear.prefixed a listed uri known with ⟨p, found, other⟩
  refine ⟨p, found, other, ?_⟩
  by_cases isXml : uri = Vocabulary.xmlNamespace
  · rw [isXml, Xml.Namespaces.prefixOf?, if_pos (beq_self_eq_true _)] at found
    cases found
    exact ⟨by decide, fun _ => by rw [isXml]; rfl⟩
  · rcases ((resolved.attributes a listed).bound uri known).resolve_left isXml with ⟨q, bound⟩
    have binding := Xml.Namespaces.uri?_prefixOf? clear.distinct isXml bound
    have lawful := (namespacesClear.lawful _ (binding.2 p found)).pre p rfl
    refine ⟨lawful.2, fun same => ?_⟩
    rw [Xml.Build.attributeUri?, if_neg (by rw [beq_iff_eq]; exact lawful.1),
      if_neg (by rw [Xml.Scan.isEmpty_of_isPlainName lawful.2]; exact Bool.false_ne_true), same, ← found]
    exact binding.1

theorem namesAttribute_spelled {a : Xml.NamedValue} (listed : a ∈ tag.attributes) :
    Xml.NamesAttribute (a.spelled tag.namespaces).name tag.namespaces a.uri := by
  have named := (resolved.attributes a listed).named
  cases known : a.uri with
  | none =>
      have bare : (a.spelled tag.namespaces).name = ⟨"", a.localName⟩ := by
        rw [Xml.NamedValue.spelled, known]
        rfl
      rw [bare]
      exact ⟨Xml.Scan.isReadable_bare named, show "" ≠ "xmlns" by decide, fun _ => rfl, fun _ => rfl⟩
  | some uri =>
      rcases exists_prefix outerClear resolved clear listed known with ⟨p, found, other, plain, resolves⟩
      have prefixed : (a.spelled tag.namespaces).name = ⟨p, a.localName⟩ := by
        rw [Xml.NamedValue.spelled, known, Option.bind_some, found]
        rfl
      rw [prefixed]
      exact ⟨Xml.Scan.isReadable_prefixed plain named, other,
        fun same => Xml.Build.isBound_of_attributeUri? (resolves same), resolves⟩

theorem namesElement_element :
    Xml.NamesElement (element tag outer).tagName tag.namespaces tag.uri ∧ (element tag outer).pre ≠ some "" := by
  have namespacesClear := areClear_namespaces outerClear resolved clear
  have name : (element tag outer).tagName = ⟨(tag.uri.bind tag.namespaces.prefixOf?).getD "", tag.localName⟩ := by
    rw [Element.tagName, element_eq resolved clear]
    rfl
  have pre : (element tag outer).pre = tag.uri.bind tag.namespaces.prefixOf? := by
    rw [element_eq resolved clear]
  have bareName {uri : Option String} (default : tag.namespaces.uri? none = uri) :
      Xml.NamesElement ⟨"", tag.localName⟩ tag.namespaces uri :=
    ⟨Xml.Scan.isReadable_bare resolved.named, show "" ≠ "xmlns" by decide, fun _ => rfl,
      fun same => (same none).trans default⟩
  rcases resolved.bound with ⟨bound, uriEq, bare⟩
  rw [name, pre]
  cases known : tag.uri with
  | none =>
      rw [bare known, known] at uriEq
      exact ⟨bareName uriEq.symm, (Option.some_ne_none "").symm⟩
  | some uri =>
      rw [known] at uriEq
      have listed := Xml.Namespaces.mem_of_uri? uriEq.symm
      have binding := Xml.Namespaces.uri?_prefixOf? clear.distinct (namespacesClear.lawful _ listed).not_xml uriEq.symm
      rw [Option.bind_some]
      cases found : tag.namespaces.prefixOf? uri with
      | none =>
          rw [found] at binding
          exact ⟨bareName binding.1, (Option.some_ne_none "").symm⟩
      | some p =>
          rw [found] at binding
          have plain := ((namespacesClear.lawful _ (binding.2 p rfl)).pre p rfl).2
          have nonempty := Xml.Scan.isEmpty_of_isPlainName plain
          rw [Option.getD_some]
          refine ⟨⟨Xml.Scan.isReadable_prefixed plain resolved.named, ?_, fun same => ?_, fun same => ?_⟩, ?_⟩
          · exact fun equal => clear.named uri known (found.trans (congrArg some equal))
          · rw [same, binding.1, Option.isSome_some, Bool.or_true]
          · rw [nonempty, if_neg Bool.false_ne_true, same, binding.1]
          · rintro ⟨⟩
            cases nonempty

/-! ## Elements in their scopes -/

theorem declares_spelled {a : Xml.NamedValue} (listed : a ∈ tag.sorted.attributes) :
    (a.spelled tag.namespaces).name.declares = false := by
  have among := perm_sorted.mem_iff.mp listed
  rw [Xml.Scan.QName.declares, beq_false_of_ne (namesAttribute_spelled outerClear resolved clear among).free]
  exact beq_false_of_ne (resolved.attributes a among).not_xmlns

theorem lawful_of_mem_declared {n : Xml.Namespace} (listed : n ∈ declared tag outer) : n.IsLawful :=
  (areClear_namespaces outerClear resolved clear).lawful n (mem_declared.mp listed).1

/-- What an element declares is new in its tag. -/
theorem declarations_element :
    Xml.Build.declarations (element tag outer).spelledAttributes = declared tag outer := by
  have new : ((declared tag outer).map (·.spelled)).filterMap
      (fun a => Xml.declaration? a.name (String.ofList a.spelt)) = declared tag outer := by
    rw [List.filterMap_map]
    refine (List.filterMap_congr ?_).trans List.filterMap_some
    intro n listed
    exact Xml.Namespace.declaration?_spelled (lawful_of_mem_declared outerClear resolved clear listed)
  have others : (tag.sorted.attributes.map (·.spelled tag.namespaces)).filterMap
      (fun a => Xml.declaration? a.name (String.ofList a.spelt)) = [] := by
    rw [List.filterMap_map, List.filterMap_eq_nil_iff]
    intro a listed
    exact Xml.Build.declaration?_of_not_declares (declares_spelled outerClear resolved clear listed) _
  rw [Xml.Build.declarations, spelledAttributes_element resolved clear, List.filterMap_append, new, others,
    List.append_nil]

theorem ordinary_element :
    Xml.Build.ordinary (element tag outer).spelledAttributes =
      tag.sorted.attributes.map (·.spelled tag.namespaces) := by
  have new : ((declared tag outer).map (·.spelled)).filter (fun a => !a.name.declares) = [] :=
    filter_map_eq_nil fun n _ => by
      rw [n.declares_spelled]
      rfl
  rw [Xml.Build.ordinary, spelledAttributes_element resolved clear, List.filter_append, new, List.nil_append]
  refine filter_map_eq_self fun a listed => ?_
  rw [declares_spelled outerClear resolved clear listed]
  rfl

variable {written : Xml.Namespaces}

/-- Inside of an element that is written all prefixes are bound as they were. -/
theorem bindsAs_scope (agrees : written.BindsAs outer) :
    ((element tag outer).scope written).BindsAs tag.namespaces := by
  intro pre
  rw [Element.scope, Xml.Build.scope, Xml.Namespaces.uri?_inherit, declarations_element outerClear resolved clear,
    agrees, uri?_declared outerClear resolved clear]

/-- The names of an element that is written are those of its tag. -/
theorem writtenNames_element (agrees : written.BindsAs outer) :
    (element tag outer).writtenNames written = tag.sorted.names := by
  have bindsAs := bindsAs_scope outerClear resolved clear agrees
  have attributes : (Xml.Build.ordinary (element tag outer).spelledAttributes).map (fun a =>
      (Xml.Build.attributeUri? ((element tag outer).scope written) a.name.pre, a.name.localName)) =
        tag.sorted.attributes.map fun a => (a.uri, a.localName) := by
    rw [ordinary_element outerClear resolved clear, List.map_map]
    apply List.map_congr_left
    intro a listed
    have names := namesAttribute_spelled outerClear resolved clear (perm_sorted.mem_iff.mp listed)
    exact Prod.ext (names.resolves bindsAs) rfl
  have name : (element tag outer).name = tag.localName := by
    rw [element_eq resolved clear]
  have uri : (element tag outer).boundUri? written = tag.uri :=
    (namesElement_element outerClear resolved clear).1.resolves bindsAs
  rw [Element.writtenNames, attributes, name, uri]
  rfl

theorem nonempty_foreign : (element tag outer).foreign.all (·.pre != some "") = true := by
  rw [element_eq resolved clear, List.all_append, Bool.and_eq_true, List.all_eq_true, List.all_eq_true]
  constructor
  · intro b listed
    rcases List.mem_map.mp listed with ⟨n, -, rfl⟩
    exact bne_iff_ne.mpr (show some "xmlns" ≠ some "" by decide)
  · intro b listed
    rcases List.mem_map.mp listed with ⟨a, among, rfl⟩
    rcases List.mem_filter.mp among with ⟨among, known⟩
    rcases Option.isSome_iff_exists.mp known with ⟨uri, known⟩
    rcases exists_prefix outerClear resolved clear among known with ⟨p, found, -, plain, -⟩
    rw [foreign, known, Option.bind_some, found, bne_iff_ne]
    rintro ⟨⟩
    cases plain

/-- No prefix is declared twice where an element is written. -/
theorem nodup_prefixes_element :
    (((element tag outer).spelledAttributes.filter fun a => a.name.pre == "xmlns").map (·.name.localName)).Nodup := by
  have new : ((declared tag outer).map (·.spelled)).filter (fun a => a.name.pre == "xmlns") =
      ((declared tag outer).filter (·.pre.isSome)).map (·.spelled) := by
    rw [List.filter_map]
    congr 1
    apply List.filter_congr
    rintro ⟨_ | p, uri⟩ _ <;> rfl
  have others : (tag.sorted.attributes.map (·.spelled tag.namespaces)).filter (fun a => a.name.pre == "xmlns") = [] :=
    filter_map_eq_nil fun a listed =>
      beq_false_of_ne (namesAttribute_spelled outerClear resolved clear (perm_sorted.mem_iff.mp listed)).free
  have prefixes : ((declared tag outer).filter (·.pre.isSome)).map (·.pre) =
      (((declared tag outer).filter (·.pre.isSome)).map fun n => n.spelled.name.localName).map some := by
    rw [List.map_map]
    apply List.map_congr_left
    rintro ⟨_ | p, uri⟩ listed
    · cases (List.mem_filter.mp listed).2
    · rfl
  have distinct : (((declared tag outer).filter (·.pre.isSome)).map (·.pre)).Nodup :=
    (nodup_declared clear).sublist (List.filter_sublist.map _)
  rw [prefixes] at distinct
  rw [spelledAttributes_element resolved clear, List.filter_append, new, others, List.append_nil, List.map_map]
  exact distinct.of_map _

/-- All names of an element that is written can be resolved. -/
theorem isNamed_element (agrees : written.BindsAs outer) : (element tag outer).isNamed written = true := by
  have bindsAs := bindsAs_scope outerClear resolved clear agrees
  rcases namesElement_element outerClear resolved clear with ⟨names, nonempty⟩
  have attributes : (element tag outer).spelledAttributes.all (fun a => a.name.isReadable
      && (!a.name.declares || isSolid a.spelt && Xml.isLawful a.name (String.ofList a.spelt))) = true := by
    rw [spelledAttributes_element resolved clear, List.all_append, Bool.and_eq_true, List.all_eq_true,
      List.all_eq_true]
    constructor
    · intro b listed
      rcases List.mem_map.mp listed with ⟨n, among, rfl⟩
      have lawful := lawful_of_mem_declared outerClear resolved clear among
      have solid : isSolid n.spelled.spelt = true := by
        rw [n.spelt_spelled]
        exact clear.solid n (mem_declared.mp among).1
      rw [Xml.Namespace.isReadable_spelled lawful, Xml.Namespace.isLawful_spelled lawful, solid, Bool.and_self,
        Bool.or_true, Bool.and_self]
    · intro b listed
      rcases List.mem_map.mp listed with ⟨a, among, rfl⟩
      rw [(namesAttribute_spelled outerClear resolved clear (perm_sorted.mem_iff.mp among)).readable,
        declares_spelled outerClear resolved clear among]
      rfl
  have bound : (Xml.Build.ordinary (element tag outer).spelledAttributes).all
      (fun a => Xml.Build.isBound ((element tag outer).scope written) a.name.pre) = true := by
    rw [ordinary_element outerClear resolved clear, List.all_eq_true]
    intro b listed
    rcases List.mem_map.mp listed with ⟨a, among, rfl⟩
    exact (namesAttribute_spelled outerClear resolved clear (perm_sorted.mem_iff.mp among)).bound bindsAs
  have unrepeated : ((Xml.Build.ordinary (element tag outer).spelledAttributes).map fun a =>
      (Xml.Build.attributeUri? ((element tag outer).scope written) a.name.pre, a.name.localName)).Nodup := by
    have same := writtenNames_element outerClear resolved clear agrees
    rw [Element.writtenNames, Xml.StartTag.names, List.cons.injEq] at same
    rw [same.2]
    exact (perm_sorted.map _).nodup_iff.mpr resolved.distinct
  rw [Element.isNamed, nonempty_foreign outerClear resolved clear, names.readable, attributes,
    bne_iff_ne.mpr names.free, bne_iff_ne.mpr nonempty, Element.hasReadablePrefixes, names.known bindsAs, bound,
    decide_eq_true (nodup_prefixes_element outerClear resolved clear), decide_eq_true unrepeated]
  rfl

end Clear

end Element

end Reading

/-! ## Branches where they are written -/

namespace Branch

mutual

/-- The elements of a branch in document order, each with the namespaces that are in force
around it where it is written. -/
def elementsIn (outer : Xml.Namespaces) : Branch → List (Xml.Namespaces × Element)
  | .node (.element e) children => (outer, e) :: allElementsIn (e.scope outer) children
  | _ => []

def allElementsIn (outer : Xml.Namespaces) : List Branch → List (Xml.Namespaces × Element)
  | [] => []
  | b :: rest => b.elementsIn outer ++ allElementsIn outer rest

end

/-- The names of all elements in document order, as they are resolved where they are written. -/
def allNames (outer : Xml.Namespaces) (bs : List Branch) : List (List (Option String × String)) :=
  (allElementsIn outer bs).map fun (around, e) => e.writtenNames around

variable {outer : Xml.Namespaces}

theorem allElementsIn_append (first second : List Branch) :
    allElementsIn outer (first ++ second) = allElementsIn outer first ++ allElementsIn outer second := by
  induction first with
  | nil => rfl
  | cons b rest inductionHypothesis =>
      rw [List.cons_append, allElementsIn, allElementsIn, inductionHypothesis, List.append_assoc]

theorem allNames_append (first second : List Branch) :
    allNames outer (first ++ second) = allNames outer first ++ allNames outer second := by
  rw [allNames, allElementsIn_append, List.map_append]
  rfl

theorem elementsIn_leaf {c : NodeContent} (leaf : c.isElement = false) (children : List Branch) :
    elementsIn outer (.node c children) = [] := by
  cases c with
  | element e => cases leaf
  | _ => rfl

/-- Whether elements, where they are written, have the names of certain tags. -/
structure AreNamedAs (elements : List (Xml.Namespaces × Element)) (tags : List Xml.StartTag) : Prop where
  named : ∀ p ∈ elements, p.2.isNamed p.1 = true
  names : elements.map (fun (around, e) => e.writtenNames around) = tags.map (·.sorted.names)

namespace AreNamedAs

theorem nil : AreNamedAs [] [] :=
  ⟨nofun, rfl⟩

theorem append {first second : List (Xml.Namespaces × Element)} {tags more : List Xml.StartTag}
    (before : AreNamedAs first tags) (after : AreNamedAs second more) : AreNamedAs (first ++ second) (tags ++ more) := by
  refine ⟨fun p listed => ?_, ?_⟩
  · exact (List.mem_append.mp listed).elim (before.named p) (after.named p)
  · rw [List.map_append, List.map_append, before.names, after.names]

end AreNamedAs

end Branch

namespace Reading

mutual

/-- What is read is written with the names that it had. -/
theorem areNamedAs_branch (keep : Bool) {outer written : Xml.Namespaces} (outerClear : outer.AreClear)
    (agrees : written.BindsAs outer) : ∀ n : Xml.Node, n.IsResolved outer →
      (∀ tag ∈ n.tags, tag.IsClear) →
        Branch.AreNamedAs (Branch.allElementsIn written (branch keep outer n)) n.tags
  | .element tag children, resolved, clear => by
    have here := clear tag List.mem_cons_self
    have inside := areNamedAs_branches (keepsBlanks tag keep) (areClear_namespaces outerClear resolved.1 here)
      (bindsAs_scope outerClear resolved.1 here agrees) children resolved.2
      fun inner listed => clear inner (List.mem_cons_of_mem tag listed)
    rw [branch, Branch.allElementsIn, Branch.allElementsIn, List.append_nil, Branch.elementsIn, Xml.Node.tags]
    refine ⟨List.forall_mem_cons.mpr ⟨isNamed_element outerClear resolved.1 here agrees, inside.named⟩, ?_⟩
    rw [List.map_cons, List.map_cons, inside.names]
    exact congrArg (· :: _) (writtenNames_element outerClear resolved.1 here agrees)
  | .text s, _, _ => by
    rw [branch]
    split <;> exact .nil
  | .comment _, _, _ => .nil
  | .instruction _ _, _, _ => .nil

theorem areNamedAs_branches (keep : Bool) {outer written : Xml.Namespaces} (outerClear : outer.AreClear)
    (agrees : written.BindsAs outer) : ∀ nodes : List Xml.Node, Xml.Node.AreResolved outer nodes →
      (∀ tag ∈ Xml.Node.allTags nodes, tag.IsClear) →
        Branch.AreNamedAs (Branch.allElementsIn written (branches keep outer nodes)) (Xml.Node.allTags nodes)
  | [], _, _ => .nil
  | n :: rest, resolved, clear => by
    rw [branches, Branch.allElementsIn_append, Xml.Node.allTags]
    exact (areNamedAs_branch keep outerClear agrees n resolved.1
      fun tag listed => clear tag (List.mem_append_left _ listed)).append
        (areNamedAs_branches keep outerClear agrees rest resolved.2
          fun tag listed => clear tag (List.mem_append_right _ listed))

end

end Reading

end SlimSvg
