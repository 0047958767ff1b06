import SlimSvg.Proofs.Tree.Faithful
import SlimSvg.Proofs.Xml.Resolution

namespace SlimSvg

/-!
# Names in their scopes

An element does not keep the prefixes that were written.  Each name gets the first prefix
that is bound to its namespace, and a declaration that repeats what is in force is left
out.  So the prefixes are bound to the same namespaces as before, and every name stands for
the same one, unless an attribute gets no prefix or the prefix of declarations, the default
namespace was declared twice in one tag, or a namespace has blanks other than spaces.
-/

/-! ## Lists that are told apart -/

section Filtering

variable {α β : Type}

theorem filter_map_eq_self {f : α → β} {p : β → Bool} {items : List α} (kept : ∀ a ∈ items, p (f a) = true) :
    (items.map f).filter p = items.map f :=
  List.filter_eq_self.mpr (List.forall_mem_map.mpr kept)

theorem filter_map_eq_nil {f : α → β} {p : β → Bool} {items : List α} (dropped : ∀ a ∈ items, p (f a) = false) :
    (items.map f).filter p = [] :=
  List.filter_eq_nil_iff.mpr (List.forall_mem_map.mpr fun a listed => Bool.eq_false_iff.mp (dropped a listed))

/-- What has nothing goes first, and what has something follows. -/
theorem perm_isNone_isSome (f : α → Option β) (items : List α) :
    (items.filter (fun a => (f a).isNone) ++ items.filter fun a => (f a).isSome).Perm items := by
  have same : items.filter (fun a => !(f a).isNone) = items.filter fun a => (f a).isSome :=
    List.filter_congr fun a _ => Option.not_isNone (f a)
  rw [← same]
  exact List.filter_append_perm _ items

end Filtering

namespace Xml

/-! ## Bindings -/

namespace Namespaces

theorem uri?_append (first second : Namespaces) (pre : Option String) :
    uri? (first ++ second) pre = (first.uri? pre).or (second.uri? pre) := by
  rw [uri?, uri?, uri?, List.find?_append]
  cases first.find? (·.pre == pre) <;> rfl

/-- Own declarations go before outer ones. -/
theorem uri?_inherit (own outer : Namespaces) (pre : Option String) :
    (own.inherit outer).uri? pre = (own.uri? pre).or (outer.uri? pre) := by
  have added (all : Namespaces) : uri? (outer.foldl (fun all n => if all.declares n.pre then all else all ++ [n]) all) pre =
      (all.uri? pre).or (outer.uri? pre) := by
    induction outer generalizing all with
    | nil => exact (Option.or_none).symm
    | cons n rest inductionHypothesis =>
        have front : uri? (n :: rest) pre = (uri? [n] pre).or (uri? rest pre) := uri?_append [n] rest pre
        rw [List.foldl_cons, inductionHypothesis, front, ← Option.or_assoc]
        congr 1
        split
        · next declared =>
          by_cases here : n.pre = pre
          · rw [here, declares, List.any_eq_true] at declared
            rcases declared with ⟨m, listed, same⟩
            have found : (all.find? (·.pre == pre)).isSome = true := List.find?_isSome.mpr ⟨m, listed, same⟩
            rcases Option.isSome_iff_exists.mp found with ⟨first, foundEq⟩
            rw [uri?, foundEq]
            rfl
          · have absent : uri? [n] pre = none := by
              rw [uri?, List.find?_cons_of_neg (by rw [beq_iff_eq]; exact here)]
              rfl
            rw [absent, Option.or_none]
        · rw [uri?_append]
  rw [inherit]
  split
  · next empty =>
    rw [List.isEmpty_iff.mp empty]
    rfl
  · exact added own

theorem mem_of_uri? {namespaces : Namespaces} {pre : Option String} {uri : String}
    (found : namespaces.uri? pre = some uri) : ⟨pre, uri⟩ ∈ namespaces := by
  rcases Option.map_eq_some_iff.mp found with ⟨n, first, rfl⟩
  have same := List.find?_some first
  rw [← beq_iff_eq.mp same]
  exact List.mem_of_find?_eq_some first

theorem uri?_of_mem {namespaces : Namespaces} (distinct : (namespaces.map (·.pre)).Nodup) {n : Namespace}
    (listed : n ∈ namespaces) : namespaces.uri? n.pre = some n.uri := by
  cases found : namespaces.find? (·.pre == n.pre) with
  | none =>
      rw [List.find?_eq_none] at found
      exact absurd (beq_self_eq_true _) (found n listed)
  | some m =>
      have same := List.find?_some found
      rw [beq_iff_eq] at same
      rw [uri?, found, List.inj_on_of_nodup_map distinct (List.mem_of_find?_eq_some found) listed same]
      rfl

/-- The prefix that a name gets is bound to its namespace. -/
theorem uri?_prefixOf? {namespaces : Namespaces} (distinct : (namespaces.map (·.pre)).Nodup) {uri : String}
    (other : uri ≠ Vocabulary.xmlNamespace) {pre : Option String} (bound : namespaces.uri? pre = some uri) :
    namespaces.uri? (namespaces.prefixOf? uri) = some uri ∧
      ∀ p, namespaces.prefixOf? uri = some p → ⟨some p, uri⟩ ∈ namespaces := by
  have found : (namespaces.find? (·.uri == uri)).isSome = true :=
    List.find?_isSome.mpr ⟨_, mem_of_uri? bound, beq_self_eq_true uri⟩
  rcases Option.isSome_iff_exists.mp found with ⟨n, first⟩
  have listed := List.mem_of_find?_eq_some first
  have uriEq := List.find?_some first
  rw [beq_iff_eq] at uriEq
  have prefixEq : namespaces.prefixOf? uri = n.pre := by
    rw [prefixOf?, if_neg (by rw [beq_iff_eq]; exact other), first]
    rfl
  rw [prefixEq]
  refine ⟨uriEq ▸ uri?_of_mem distinct listed, fun p same => ?_⟩
  rw [← uriEq, ← same]
  exact listed

/-- Whether namespaces were declared by the rules, each prefix once. -/
structure AreClear (namespaces : Namespaces) : Prop where
  lawful : ∀ n ∈ namespaces, n.IsLawful
  distinct : (namespaces.map (·.pre)).Nodup

theorem areClear_nil : AreClear [] :=
  ⟨nofun, List.nodup_nil⟩

end Namespaces

/-! ## Tags that are written clearly -/

/-- A declaration as it is written. -/
def Namespace.spelled (n : Namespace) : SpelledAttribute :=
  match n.pre with
  | none => Written.spelled none "xmlns" n.uri
  | some p => Written.spelled (some "xmlns") p n.uri

namespace Namespace

theorem declares_spelled (n : Namespace) : n.spelled.name.declares = true := by
  rcases n with ⟨_ | p, uri⟩ <;> rfl

theorem spelt_spelled (n : Namespace) : n.spelled.spelt = n.uri.toList := by
  rcases n with ⟨_ | p, uri⟩ <;> rfl

theorem isReadable_spelled {n : Namespace} (lawful : n.IsLawful) : n.spelled.name.isReadable = true := by
  rcases n with ⟨_ | p, uri⟩
  · change Scan.QName.isReadable ⟨"", "xmlns"⟩ = true
    decide
  · change Scan.QName.isReadable ⟨"xmlns", p⟩ = true
    rw [Scan.QName.isReadable, (lawful.pre p rfl).2, Bool.and_true]
    exact show ("xmlns".isEmpty || Scan.isPlainName "xmlns".toList) = true by decide

theorem declaration?_spelled {n : Namespace} (lawful : n.IsLawful) :
    declaration? n.spelled.name (String.ofList n.spelled.spelt) = some n := by
  rcases n with ⟨_ | p, uri⟩
  · change declaration? ⟨"", "xmlns"⟩ (String.ofList uri.toList) = _
    rw [String.ofList_toList]
    rfl
  · change declaration? ⟨"xmlns", p⟩ (String.ofList uri.toList) = _
    rw [String.ofList_toList, declaration?, if_pos (by rfl), if_neg]
    rw [beq_iff_eq]
    exact lawful.not_xml

theorem isLawful_spelled {n : Namespace} (lawful : n.IsLawful) :
    isLawful n.spelled.name (String.ofList n.spelled.spelt) = true := by
  rcases n with ⟨_ | p, uri⟩
  · change isLawful ⟨"", "xmlns"⟩ (String.ofList uri.toList) = true
    rw [String.ofList_toList, isLawful, if_neg (by decide), if_pos (by rfl), bne_iff_ne.mpr lawful.not_xml,
      bne_iff_ne.mpr lawful.not_xmlns]
    rfl
  · change isLawful ⟨"xmlns", p⟩ (String.ofList uri.toList) = true
    rw [String.ofList_toList, isLawful, if_pos (by rfl), bne_iff_ne.mpr lawful.not_xmlns,
      beq_false_of_ne lawful.not_xml, beq_false_of_ne (lawful.pre p rfl).1]
    rfl

end Namespace

/-- An attribute as it is written: its prefix is the first one that is bound to its
namespace. -/
def NamedValue.spelled (namespaces : Namespaces) (a : NamedValue) : SpelledAttribute :=
  Written.spelled (a.uri.bind namespaces.prefixOf?) a.localName a.value

namespace StartTag

/-- A tag with its attributes in the order of writing: those without a namespace go first. -/
def sorted (tag : StartTag) : StartTag :=
  { tag with attributes := tag.attributes.filter (·.uri.isNone) ++ tag.attributes.filter (·.uri.isSome) }

/-- Whether all names of a tag keep their namespaces when it is written. -/
structure IsClear (tag : StartTag) : Prop where
  /-- The default namespace was not declared twice. -/
  distinct : (tag.namespaces.map (·.pre)).Nodup
  /-- No namespace has blanks other than spaces. -/
  solid : ∀ n ∈ tag.namespaces, isSolid n.uri.toList = true
  /-- No element gets the prefix of declarations. -/
  named : ∀ uri, tag.uri = some uri → tag.namespaces.prefixOf? uri ≠ some "xmlns"
  /-- Every attribute with a namespace gets a prefix, and not the one of declarations. -/
  prefixed : ∀ a ∈ tag.attributes, ∀ uri, a.uri = some uri →
    ∃ p, tag.namespaces.prefixOf? uri = some p ∧ p ≠ "xmlns"

instance (tag : StartTag) : Decidable tag.IsClear :=
  decidable_of_iff
    ((tag.namespaces.map (·.pre)).Nodup ∧ (∀ n ∈ tag.namespaces, isSolid n.uri.toList = true) ∧
      (∀ uri ∈ tag.uri, tag.namespaces.prefixOf? uri ≠ some "xmlns") ∧
        ∀ a ∈ tag.attributes, ∀ uri ∈ a.uri, ∃ p ∈ tag.namespaces.prefixOf? uri, p ≠ "xmlns")
    ⟨fun ⟨distinct, solid, named, prefixed⟩ => ⟨distinct, solid, named, prefixed⟩,
      fun clear => ⟨clear.distinct, clear.solid, clear.named, clear.prefixed⟩⟩

end StartTag

end Xml

namespace Reading

/-! ## What becomes of a tag -/

/-- The declarations of a tag in the order of writing: the default namespace goes first. -/
def declared (tag : Xml.StartTag) (outer : Xml.Namespaces) : Xml.Namespaces :=
  (newDeclarations tag outer).filter (·.pre.isNone) ++ (newDeclarations tag outer).filter (·.pre.isSome)

/-- A declaration of a prefix as an attribute. -/
def declaration (n : Xml.Namespace) : ForeignAttribute :=
  ⟨some "xmlns", n.pre.getD "", some Vocabulary.xmlnsNamespace, n.uri⟩

/-- An attribute with the prefix that it gets. -/
def foreign (namespaces : Xml.Namespaces) (a : Xml.NamedValue) : ForeignAttribute :=
  ⟨a.uri.bind namespaces.prefixOf?, a.localName, a.uri, a.value⟩

theorem foldl_addDeclaration_eq {namespaces : Xml.Namespaces} (distinct : (namespaces.map (·.pre)).Nodup) {e : Element}
    (fresh : none ∈ namespaces.map (·.pre) → e.attributes.has "xmlns" = false) :
    namespaces.foldl addDeclaration e =
      { e with
        attributes := ⟨e.attributes.items ++ (namespaces.filter (·.pre.isNone)).map fun n =>
          ⟨"xmlns", .ofAttribute e.name "xmlns" n.uri⟩⟩
        foreign := e.foreign ++ (namespaces.filter (·.pre.isSome)).map declaration } := by
  induction namespaces generalizing e with
  | nil =>
      rw [List.filter_nil, List.filter_nil, List.map_nil, List.map_nil, List.append_nil, List.append_nil]
      rfl
  | cons n rest inductionHypothesis =>
      rcases n with ⟨pre, uri⟩
      rw [List.map_cons, List.nodup_cons] at distinct
      rw [List.foldl_cons]
      cases pre with
      | none =>
          have absent := fresh List.mem_cons_self
          have next : addDeclaration e ⟨none, uri⟩ =
              { e with attributes := ⟨e.attributes.items ++ [⟨"xmlns", .ofAttribute e.name "xmlns" uri⟩]⟩ } := by
            simp only [addDeclaration, Element.setAttribute, Attributes.insert, absent, Bool.false_eq_true, if_false]
          rw [next, inductionHypothesis distinct.2 fun again => absurd again distinct.1]
          simp only [List.append_assoc]
          rfl
      | some p =>
          have next : addDeclaration e ⟨some p, uri⟩ = { e with foreign := e.foreign ++ [declaration ⟨some p, uri⟩] } :=
            rfl
          rw [next, inductionHypothesis distinct.2]
          · simp only [List.append_assoc]
            rfl
          · exact fun listed => fresh (List.mem_cons_of_mem _ listed)

theorem foldl_addAttribute_eq {namespaces : Xml.Namespaces} {added : List Xml.NamedValue} {e : Element}
    (distinct : (e.attributes.items.map (·.name) ++ (added.filter (·.uri.isNone)).map (·.localName)).Nodup) :
    added.foldl (addAttribute namespaces) e =
      { e with
        attributes := ⟨e.attributes.items ++ (added.filter (·.uri.isNone)).map fun a =>
          ⟨a.localName, .ofAttribute e.name a.localName a.value⟩⟩
        foreign := e.foreign ++ (added.filter (·.uri.isSome)).map (foreign namespaces) } := by
  induction added generalizing e with
  | nil =>
      rw [List.filter_nil, List.filter_nil, List.map_nil, List.map_nil, List.append_nil, List.append_nil]
      rfl
  | cons a rest inductionHypothesis =>
      rcases a with ⟨uri, localName, value⟩
      rw [List.foldl_cons]
      cases uri with
      | none =>
          have absent : e.attributes.has localName = false := by
            rw [Attributes.has, List.any_eq_false]
            intro b listed same
            rw [List.nodup_append] at distinct
            exact distinct.2.2 _ (List.mem_map_of_mem listed) _ List.mem_cons_self (beq_iff_eq.mp same)
          have next : addAttribute namespaces e ⟨none, localName, value⟩ =
              { e with attributes := ⟨e.attributes.items ++ [⟨localName, .ofAttribute e.name localName value⟩]⟩ } := by
            simp only [addAttribute, Element.setAttribute, Attributes.insert, absent, Bool.false_eq_true, if_false]
          rw [next, inductionHypothesis]
          · simp only [List.append_assoc]
            rfl
          · rw [List.map_append, List.append_assoc]
            exact distinct
      | some u =>
          have next : addAttribute namespaces e ⟨some u, localName, value⟩ =
              { e with foreign := e.foreign ++ [foreign namespaces ⟨some u, localName, value⟩] } := rfl
          rw [next, inductionHypothesis]
          · simp only [List.append_assoc]
            rfl
          · exact distinct

section Element

variable {tag : Xml.StartTag} {outer : Xml.Namespaces}

theorem nodup_newDeclarations (clear : tag.IsClear) : ((newDeclarations tag outer).map (·.pre)).Nodup :=
  clear.distinct.sublist (List.filter_sublist.map _)

/-- Attributes without a namespace have names of their own. -/
theorem nodup_bare (resolved : tag.IsResolved outer) :
    ((tag.attributes.filter (·.uri.isNone)).map (·.localName)).Nodup := by
  have pairs : ((tag.attributes.filter (·.uri.isNone)).map fun a => (a.uri, a.localName)).Nodup :=
    resolved.distinct.sublist (List.filter_sublist.map _)
  have same : (tag.attributes.filter (·.uri.isNone)).map (fun a => (a.uri, a.localName)) =
      ((tag.attributes.filter (·.uri.isNone)).map (·.localName)).map fun name => (none, name) := by
    rw [List.map_map]
    apply List.map_congr_left
    intro a listed
    exact Prod.ext (Option.isNone_iff_eq_none.mp (List.mem_filter.mp listed).2) rfl
  rw [same] at pairs
  exact pairs.of_map _

/-- The default namespace is declared at most once. -/
theorem defaults_eq (outer : Xml.Namespaces) (clear : tag.IsClear) :
    (newDeclarations tag outer).filter (·.pre.isNone) = [] ∨
      ∃ uri, (newDeclarations tag outer).filter (·.pre.isNone) = [⟨none, uri⟩] := by
  have distinct : (((newDeclarations tag outer).filter (·.pre.isNone)).map (·.pre)).Nodup :=
    (nodup_newDeclarations clear).sublist (List.filter_sublist.map _)
  have bare : ∀ n ∈ (newDeclarations tag outer).filter (·.pre.isNone), n.pre = none :=
    fun n listed => Option.isNone_iff_eq_none.mp (List.mem_filter.mp listed).2
  generalize (newDeclarations tag outer).filter (·.pre.isNone) = defaults at distinct bare
  rcases defaults with _ | ⟨⟨pre, uri⟩, _ | ⟨second, rest⟩⟩
  · exact Or.inl rfl
  · have first : pre = none := bare _ List.mem_cons_self
    exact Or.inr ⟨uri, by rw [first]⟩
  · rw [List.map_cons, List.map_cons, List.nodup_cons, bare _ List.mem_cons_self,
      bare second (List.mem_cons_of_mem _ List.mem_cons_self)] at distinct
    exact absurd List.mem_cons_self distinct.1

/-- The parts of an element that was read. -/
theorem element_eq (resolved : tag.IsResolved outer) (clear : tag.IsClear) :
    element tag outer =
      { name := tag.localName
        pre := tag.uri.bind tag.namespaces.prefixOf?
        uri := tag.uri.filter (· != Vocabulary.svgNamespace)
        attributes :=
          ⟨((newDeclarations tag outer).filter (·.pre.isNone)).map (fun n =>
              ⟨"xmlns", .ofAttribute tag.localName "xmlns" n.uri⟩)
            ++ (tag.attributes.filter (·.uri.isNone)).map fun a =>
              ⟨a.localName, .ofAttribute tag.localName a.localName a.value⟩⟩
        foreign := ((newDeclarations tag outer).filter (·.pre.isSome)).map declaration
          ++ (tag.attributes.filter (·.uri.isSome)).map (foreign tag.namespaces) } := by
  rw [element]
  dsimp only
  rw [foldl_addDeclaration_eq (nodup_newDeclarations clear) fun _ => rfl, foldl_addAttribute_eq]
  · rfl
  · change ((((newDeclarations tag outer).filter (·.pre.isNone)).map _).map _ ++ _).Nodup
    rcases defaults_eq outer clear with none | ⟨uri, one⟩
    · rw [none]
      exact nodup_bare resolved
    · rw [one]
      refine List.nodup_cons.mpr ⟨fun listed => ?_, nodup_bare resolved⟩
      rcases List.mem_map.mp listed with ⟨a, among, same⟩
      exact (resolved.attributes a (List.mem_filter.mp among).1).not_xmlns same

/-- Prefixes of declarations and of other attributes are kept apart. -/
theorem isDeclaration_foreign (clear : tag.IsClear) {a : Xml.NamedValue}
    (listed : a ∈ tag.attributes.filter (·.uri.isSome)) : (foreign tag.namespaces a).isDeclaration = false := by
  rcases List.mem_filter.mp listed with ⟨among, known⟩
  rcases Option.isSome_iff_exists.mp known with ⟨uri, uriEq⟩
  rcases clear.prefixed a among uri uriEq with ⟨p, found, other⟩
  rw [ForeignAttribute.isDeclaration, foreign, uriEq, Option.bind_some, found]
  exact beq_false_of_ne fun same => other (Option.some.inj same)

theorem spelledDefault_element (resolved : tag.IsResolved outer) (clear : tag.IsClear) :
    (element tag outer).spelledDefault = ((newDeclarations tag outer).filter (·.pre.isNone)).map (·.spelled) := by
  rw [Element.spelledDefault, Element.attributeText?, Element.attribute?, Attributes.get?, element_eq resolved clear]
  dsimp only
  rcases defaults_eq outer clear with none | ⟨uri, one⟩
  · rw [none, List.map_nil, List.nil_append, List.find?_eq_none.mpr]
    · rfl
    · intro b listed
      rcases List.mem_map.mp listed with ⟨a, among, rfl⟩
      rw [beq_iff_eq]
      exact (resolved.attributes a (List.mem_filter.mp among).1).not_xmlns
  · rw [one, List.map_singleton, List.singleton_append, List.find?_cons_of_pos (by rfl),
      Option.map_some, Option.map_some, AttributeValue.text_ofAttribute]
    rfl

theorem prefixes_element (resolved : tag.IsResolved outer) (clear : tag.IsClear) :
    (element tag outer).prefixes = ((newDeclarations tag outer).filter (·.pre.isSome)).map declaration := by
  rw [Element.prefixes, element_eq resolved clear, List.filter_append, filter_map_eq_self fun _ _ => rfl,
    filter_map_eq_nil fun _ => isDeclaration_foreign clear, List.append_nil]

theorem others_element (resolved : tag.IsResolved outer) (clear : tag.IsClear) :
    (element tag outer).others = (tag.attributes.filter (·.uri.isSome)).map (foreign tag.namespaces) := by
  rw [Element.others, element_eq resolved clear, List.filter_append, filter_map_eq_nil fun _ _ => rfl,
    List.nil_append]
  exact filter_map_eq_self fun a listed => by rw [isDeclaration_foreign clear listed]; rfl

theorem own_element (resolved : tag.IsResolved outer) (clear : tag.IsClear) :
    (element tag outer).own = (tag.attributes.filter (·.uri.isNone)).map fun a =>
      ⟨a.localName, .ofAttribute tag.localName a.localName a.value⟩ := by
  rw [Element.own, element_eq resolved clear, List.filter_append, filter_map_eq_nil fun _ _ => rfl, List.nil_append]
  refine filter_map_eq_self fun a listed => ?_
  exact bne_iff_ne.mpr (resolved.attributes a (List.mem_filter.mp listed).1).not_xmlns

/-- The attributes of an element that was read, in the order of writing. -/
theorem spelledAttributes_element (resolved : tag.IsResolved outer) (clear : tag.IsClear) :
    (element tag outer).spelledAttributes =
      (declared tag outer).map (·.spelled) ++ tag.sorted.attributes.map (·.spelled tag.namespaces) := by
  have prefixed : ((newDeclarations tag outer).filter (·.pre.isSome)).map (fun n => (declaration n).spelled) =
      ((newDeclarations tag outer).filter (·.pre.isSome)).map (·.spelled) := by
    apply List.map_congr_left
    rintro ⟨pre, uri⟩ listed
    rcases Option.isSome_iff_exists.mp (List.mem_filter.mp listed).2 with ⟨p, rfl⟩
    rfl
  have bare : (tag.attributes.filter (·.uri.isNone)).map (fun a => Written.spelled none a.localName
      (AttributeValue.ofAttribute tag.localName a.localName a.value).text) =
        (tag.attributes.filter (·.uri.isNone)).map (·.spelled tag.namespaces) := by
    apply List.map_congr_left
    rintro ⟨uri, localName, value⟩ listed
    cases Option.isNone_iff_eq_none.mp (List.mem_filter.mp listed).2
    rw [AttributeValue.text_ofAttribute]
    rfl
  rw [Element.spelledAttributes, spelledDefault_element resolved clear, prefixes_element resolved clear,
    Element.spelledOwn, own_element resolved clear, others_element resolved clear, List.map_map, List.map_map,
    List.map_map]
  change _ ++ (((newDeclarations tag outer).filter _).map (fun n => (declaration n).spelled) ++
    ((tag.attributes.filter _).map (fun a => Written.spelled none a.localName
      (AttributeValue.ofAttribute tag.localName a.localName a.value).text) ++
        (tag.attributes.filter _).map (·.spelled tag.namespaces))) = _
  rw [prefixed, bare, declared, Xml.StartTag.sorted, List.map_append, List.map_append, List.append_assoc]

end Element

end Reading

end SlimSvg
