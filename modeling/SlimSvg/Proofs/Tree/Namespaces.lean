import SlimSvg.Proofs.Tree.Stability

namespace SlimSvg

/-!
# Namespaces survive writing

Every element of a document that was read can have its names resolved where it is written,
and gets the ones that its tag had.  So if nothing but names could be at fault, because all
characters may stand in a document and no text, comment or instruction holds its own end, the
written text is accepted, and all elements and attributes have the names and namespaces that
they had.  Attributes without a namespace have then moved before the others.
-/

/-! ## Branches whose characters can be read -/

namespace Branch

mutual

/-- Whether a branch can be read, as far as characters go. -/
def isLegible : Branch → Bool
  | .node (.element e) children => e.isLegible && areLegible (Written.isRaw e) [] children
  | .node (.text s) _ => s.toList.all Xml.isXmlChar
  | .node content _ => content.remark?.any (·.isReadable)

/-- Whether branches can be read behind a run of characters, as far as characters go. -/
def areLegible (raw : Bool) (run : List Char) : List Branch → Bool
  | [] => !Text.hasPiece "]]>".toList run
  | b :: rest =>
    b.isLegible && match b.run? raw with
      | some more => areLegible raw (run ++ more) rest
      | none => !Text.hasPiece "]]>".toList run && areLegible raw [] rest

end

mutual

/-- What is legible can be read if its names can be resolved. -/
theorem isWritable_of_isLegible {outer : Xml.Namespaces} : ∀ b : Branch, b.isLegible = true →
    (∀ p ∈ b.elementsIn outer, p.2.isNamed p.1 = true) → b.isWritable outer = true
  | .node (.element e) children, legible, named => by
    rw [isLegible, Bool.and_eq_true] at legible
    rw [elementsIn, List.forall_mem_cons] at named
    rw [isWritable, Element.isWritable_of_isNamed named.1 legible.1,
      areWritable_of_areLegible (Written.isRaw e) [] children legible.2 named.2]
    rfl
  | .node (.text _) _, legible, _ => legible
  | .node (.comment _) _, legible, _ => legible
  | .node (.instruction _ _) _, legible, _ => legible
  | .node .root _, legible, _ => legible
  | .node (.doctype _) _, legible, _ => legible

theorem areWritable_of_areLegible {outer : Xml.Namespaces} (raw : Bool) : ∀ (run : List Char) (bs : List Branch),
    areLegible raw run bs = true → (∀ p ∈ allElementsIn outer bs, p.2.isNamed p.1 = true) →
      areWritable outer raw run bs = true
  | _, [], legible, _ => legible
  | run, b :: rest, legible, named => by
    rw [areLegible, Bool.and_eq_true] at legible
    rw [allElementsIn, List.forall_mem_append] at named
    rw [areWritable, isWritable_of_isLegible b legible.1 named.1, Bool.true_and]
    rcases legible with ⟨-, later⟩
    cases found : b.run? raw with
    | some more =>
        rw [found] at later
        exact areWritable_of_areLegible raw (run ++ more) rest later named.2
    | none =>
        rw [found, Bool.and_eq_true] at later
        dsimp only
        rw [later.1, areWritable_of_areLegible raw [] rest later.2 named.2]
        rfl

end

/-! ## Elements among other branches -/

variable {outer : Xml.Namespaces}

theorem allElementsIn_eq_flatMap (bs : List Branch) : allElementsIn outer bs = bs.flatMap (·.elementsIn outer) := by
  induction bs with
  | nil => rfl
  | cons b rest inductionHypothesis => rw [allElementsIn, inductionHypothesis, List.flatMap_cons]

theorem allElementsIn_leaves {bs : List Branch} (leaves : ∀ b ∈ bs, b.content.isElement = false) :
    allElementsIn outer bs = [] := by
  rw [allElementsIn_eq_flatMap, List.flatMap_eq_nil_iff]
  rintro ⟨content, children⟩ listed
  exact elementsIn_leaf (leaves _ listed) children

/-- Branches that are no elements do not count. -/
theorem allElementsIn_filter (bs : List Branch) :
    allElementsIn outer (bs.filter (·.content.isElement)) = allElementsIn outer bs := by
  induction bs with
  | nil => rfl
  | cons b rest inductionHypothesis =>
      cases here : b.content.isElement with
      | true => rw [List.filter_cons_of_pos (by exact here), allElementsIn, allElementsIn, inductionHypothesis]
      | false =>
          have leaf : b.elementsIn outer = [] := by
            rcases b with ⟨content, children⟩
            exact elementsIn_leaf here children
          rw [List.filter_cons_of_neg (by rw [here]; exact Bool.false_ne_true), allElementsIn, leaf,
            inductionHypothesis, List.nil_append]

/-- Branches with one element among them have their elements in one order only. -/
theorem allElementsIn_eq_of_perm {bs sorted : List Branch} (perm : bs.Perm sorted) {root : Branch}
    (single : sorted.filter (·.content.isElement) = [root]) : allElementsIn outer bs = allElementsIn outer sorted := by
  have same := perm.filter (·.content.isElement)
  rw [single, List.perm_singleton] at same
  rw [← allElementsIn_filter bs, ← allElementsIn_filter sorted, same, single]

end Branch

/-! ## Layouts whose characters can be read -/

namespace Layout

/-- Whether every part can be read, as far as characters go. -/
def isLegible (l : Layout) : Bool :=
  l.declaration.all (·.isReadable) && l.before.all (·.isReadable)
    && l.doctype.all (fun (d, remarks) => d.isReadable && remarks.all (·.isReadable))
    && l.rootBranch.isLegible && l.after.all (·.isReadable)

/-- There is one element among the branches of a layout. -/
theorem filter_isElement_branches (l : Layout) : l.branches.filter (·.content.isElement) = [l.rootBranch] := by
  have remarks (rs : List Xml.Remark) : (rs.map (·.branch)).filter (·.content.isElement) = [] := by
    rw [List.filter_eq_nil_iff]
    intro b listed
    rcases List.mem_map.mp listed with ⟨r, -, rfl⟩
    cases r <;> exact Bool.false_ne_true
  have declaration : l.declarationBranches.filter (·.content.isElement) = [] := by
    rw [declarationBranches]
    cases l.declaration <;> rfl
  have doctype : l.doctypeBranches.filter (·.content.isElement) = [] := by
    rw [doctypeBranches]
    cases l.doctype with
    | none => rfl
    | some both => exact remarks both.2
  rw [branches, List.filter_append, List.filter_append, List.filter_append, declaration, remarks, doctype,
    List.filter_cons_of_pos (by rfl), remarks]
  rfl

theorem allElementsIn_branches (l : Layout) (outer : Xml.Namespaces) :
    Branch.allElementsIn outer l.branches = l.rootBranch.elementsIn outer := by
  rw [← Branch.allElementsIn_filter, filter_isElement_branches, Branch.allElementsIn, Branch.allElementsIn,
    List.append_nil]

variable {l : Layout}

theorem isWritable_of_isLegible (legible : l.isLegible = true)
    (named : ∀ p ∈ Branch.allElementsIn [] l.branches, p.2.isNamed p.1 = true) : l.isWritable = true := by
  simp only [isLegible, Bool.and_eq_true] at legible
  rcases legible with ⟨⟨⟨⟨declaration, before⟩, doctype⟩, root⟩, after⟩
  rw [allElementsIn_branches] at named
  simp only [isWritable, Bool.and_eq_true]
  exact ⟨⟨⟨⟨declaration, before⟩, doctype⟩, Branch.isWritable_of_isLegible l.rootBranch root named⟩, after⟩

end Layout

namespace Xml.Manuscript.Findings

/-- The tags that are found are those of the root element and of the elements in it. -/
theorem allTags_placed {m : Manuscript} {P : List Item → Prop} (f : m.Findings P) :
    Node.allTags (f.placed.map (·.node)) = f.root.node.tags := by
  have remarks (rs : List (Spaced Remark)) : ∀ n ∈ rs.map (·.part.node), n.isElement = false := by
    intro n listed
    rcases List.mem_map.mp listed with ⟨⟨gap, r⟩, -, rfl⟩
    cases r <;> rfl
  have between : ∀ n ∈ m.betweenNodes, n.isElement = false := by
    rw [betweenNodes]
    cases m.doctype with
    | none => exact List.forall_mem_nil _
    | some both => exact remarks both.2
  rw [placed, List.map_append, List.map_append, List.map_append, List.map_cons, f.before_within.nodes_eq,
    f.inside_within.nodes_eq, f.between_within.nodes_eq, f.after_within.nodes_eq, Node.allTags_append,
    Node.allTags_append, Node.allTags_append, Node.allTags, Node.allTags_leaves (remarks _),
    Node.allTags_leaves fun _ listed => m.isElement_of_mem_doctypeNodes listed, Node.allTags_leaves between,
    Node.allTags_leaves (remarks _), List.append_nil]
  rfl

end Xml.Manuscript.Findings

/-! ## Documents -/

namespace Reading

theorem branches_eq_flatMap (keep : Bool) (outer : Xml.Namespaces) (nodes : List Xml.Node) :
    branches keep outer nodes = nodes.flatMap (branch keep outer) := by
  induction nodes with
  | nil => rfl
  | cons n rest inductionHypothesis => rw [branches, inductionHypothesis, List.flatMap_cons]

/-- The branches of a document are those of its nodes, and some that are no elements. -/
theorem perm_placedBranches (text : List Char) (placed : List Xml.PlacedNode) :
    ∃ leaves : List Branch, (∀ b ∈ leaves, b.content.isElement = false) ∧
      ((placedBranches text placed).flatMap (·.2)).Perm (leaves ++ branches false [] (placed.map (·.node))) := by
  have leaf {c : NodeContent} (other : ∀ e, c ≠ .element e) : c.isElement = false := by
    cases c with
    | element e => exact absurd rfl (other e)
    | _ => rfl
  let declaration : List (Nat × List Branch) := ((Prologue.declaration? text).map fun c => (0, [.node c []])).toList
  let doctype : List (Nat × List Branch) := ((Prologue.doctype? (text.take (rootOffset placed))).map
    fun found => (found.1, [.node found.2 []])).toList
  refine ⟨(declaration ++ doctype).flatMap (·.2), ?_, ?_⟩
  · intro b listed
    rcases List.mem_flatMap.mp listed with ⟨item, among, here⟩
    rcases List.mem_append.mp among with first | second
    · rcases Option.map_eq_some_iff.mp (Option.mem_toList.mp first) with ⟨c, found, rfl⟩
      rw [List.mem_singleton.mp here]
      exact leaf (not_element_of_declaration? found)
    · rcases Option.map_eq_some_iff.mp (Option.mem_toList.mp second) with ⟨⟨place, c⟩, found, rfl⟩
      rw [List.mem_singleton.mp here]
      exact leaf (not_element_of_doctype? found)
  · have nodes : branches false [] (placed.map (·.node)) =
        (placed.map fun p => (p.offset, branch false [] p.node)).flatMap (·.2) := by
      rw [branches_eq_flatMap, List.flatMap_map, List.flatMap_map]
    rw [nodes, ← List.flatMap_append]
    exact (List.mergeSort_perm _ _).flatMap_right _

end Reading

namespace Document

/-- The branches of a document that was read are those of its nodes, and some that are no elements. -/
theorem perm_branches_of_read {text : String} {name : Option String} {doc : Document} {placed : List Xml.PlacedNode}
    (read : Xml.read text.toList = .ok placed) (parsed : Document.read text name = .ok doc) :
    ∃ leaves : List Branch, (∀ b ∈ leaves, b.content.isElement = false) ∧
      doc.branches.Perm (leaves ++ Reading.branches false [] (placed.map (·.node))) := by
  rw [Document.read, read] at parsed
  rw [← Except.ok.inj parsed, branches_ofBranches]
  exact Reading.perm_placedBranches text.toList placed

/-- All names in a document that was read can be resolved where they are written, and the
text that is written is read with the same ones, if nothing else is at fault. -/
theorem namespaces_survive {text : String} {name : Option String} {doc : Document} {placed : List Xml.PlacedNode}
    (read : Xml.read text.toList = .ok placed) (parsed : Document.read text name = .ok doc)
    (clear : ∀ tag ∈ Xml.Node.allTags (placed.map (·.node)), tag.IsClear) :
    (∀ p ∈ Branch.allElementsIn [] doc.branches, p.2.isNamed p.1 = true) ∧
      (Branch.allNames [] doc.branches).Perm ((Xml.Node.allTags (placed.map (·.node))).map (·.sorted.names)) ∧
      ∀ l : Layout, doc.branches = l.branches → l.isLegible = true →
        ∃ again, Xml.read (doc.written {}).toList = .ok again ∧
          (Xml.Node.allTags (again.map (·.node))).map (·.names) =
            (Xml.Node.allTags (placed.map (·.node))).map (·.sorted.names) := by
  have resolved : Xml.Node.AreResolved [] (placed.map (·.node)) := by
    rw [Xml.Node.areResolved_iff, List.forall_mem_map]
    exact Xml.isResolved_of_read read
  have namedAs := Reading.areNamedAs_branches false Xml.Namespaces.areClear_nil (fun _ => rfl) _ resolved clear
  rcases perm_branches_of_read read parsed with ⟨leaves, noElements, perm⟩
  have all : Branch.allElementsIn [] (leaves ++ Reading.branches false [] (placed.map (·.node))) =
      Branch.allElementsIn [] (Reading.branches false [] (placed.map (·.node))) := by
    rw [Branch.allElementsIn_append, Branch.allElementsIn_leaves noElements, List.nil_append]
  have elementsPerm : (Branch.allElementsIn [] doc.branches).Perm
      (Branch.allElementsIn [] (Reading.branches false [] (placed.map (·.node)))) := by
    rw [Branch.allElementsIn_eq_flatMap] at all ⊢
    rw [← all]
    exact perm.flatMap_right _
  have named : ∀ p ∈ Branch.allElementsIn [] doc.branches, p.2.isNamed p.1 = true :=
    fun p listed => namedAs.named p (elementsPerm.mem_iff.mp listed)
  refine ⟨named, namedAs.names ▸ elementsPerm.map _, fun l laidOut legible => ?_⟩
  have writable : l.isWritable = true := Layout.isWritable_of_isLegible legible (laidOut ▸ named)
  rcases Xml.read_text (l.readable_manuscript {} writable) (l.reads_inside {} writable) (l.rereads_nothing {}) with
    ⟨f, reads⟩
  refine ⟨f.placed, ?_, ?_⟩
  · rw [l.toList_written {} writable laidOut]
    exact reads
  · have root := (Branch.Rereads.element f.cameFrom f.holds).names rfl
    have elements : Branch.allElementsIn [] l.branches =
        Branch.allElementsIn [] (Reading.branches false [] (placed.map (·.node))) := by
      rw [laidOut] at perm
      rw [← all]
      exact (Branch.allElementsIn_eq_of_perm perm.symm l.filter_isElement_branches).symm
    rw [List.map_singleton, Xml.Node.allTags_singleton, Branch.allNames, Branch.allElementsIn, Branch.allElementsIn,
      List.append_nil] at root
    rw [f.allTags_placed, ← namedAs.names, ← elements, l.allElementsIn_branches]
    exact root

/-- A prefix that is bound to another namespace further inside stands for it there only. -/
theorem shadowed_prefix_survives :
    ∃ placed doc again,
      Xml.read "<svg xmlns=\"u\" xmlns:p=\"v\" p:c=\"1\"><p:g xmlns:p=\"w\" b=\"2\" p:a=\"3\"/></svg>".toList =
        .ok placed ∧
      Document.read "<svg xmlns=\"u\" xmlns:p=\"v\" p:c=\"1\"><p:g xmlns:p=\"w\" b=\"2\" p:a=\"3\"/></svg>" none =
        .ok doc ∧
      Xml.read (doc.written {}).toList = .ok again ∧
      (Xml.Node.allTags (again.map (·.node))).map (·.names) =
        [[(some "u", "svg"), (some "v", "c")], [(some "w", "g"), (none, "b"), (some "w", "a")]] := by
  let l : Layout :=
    { declaration := none
      before := []
      doctype := none
      root :=
        { name := "svg", pre := none, uri := some "u"
          attributes := ⟨[⟨"xmlns", .ofAttribute "svg" "xmlns" "u"⟩]⟩
          foreign := [⟨some "xmlns", "p", some Vocabulary.xmlnsNamespace, "v"⟩, ⟨some "p", "c", some "v", "1"⟩] }
      content := [.node (.element
        { name := "g", pre := some "p", uri := some "w"
          attributes := ⟨[⟨"b", .ofAttribute "g" "b" "2"⟩]⟩
          foreign := [⟨some "xmlns", "p", some Vocabulary.xmlnsNamespace, "w"⟩, ⟨some "p", "a", some "w", "3"⟩] }) []]
      after := [] }
  have writable : l.isWritable = true := by decide +kernel
  have faithful : l.isFaithful = true := by decide +kernel
  have legible : l.isLegible = true := by decide +kernel
  have text : String.ofList (l.manuscript {}).text =
      "<svg xmlns=\"u\" xmlns:p=\"v\" p:c=\"1\"><p:g xmlns:p=\"w\" b=\"2\" p:a=\"3\"/></svg>" := by
    decide +kernel
  have typed : l.rootBranch.Fits Element.Typed := by
    have single : ∀ name pre uri key value foreign,
        (⟨name, pre, uri, ⟨[⟨key, .ofAttribute name key value⟩]⟩, foreign⟩ : Element).Typed := by
      refine fun name pre uri key value foreign => ⟨List.nodup_singleton key, ?_⟩
      intro a listed
      rw [List.mem_singleton.mp listed]
      exact ⟨value, rfl⟩
    refine ⟨?_, nofun, ⟨?_, nofun, True.intro⟩, True.intro⟩ <;> rintro _ ⟨⟩ <;> exact single _ _ _ _ _ _
  have tags : ((Xml.read
      "<svg xmlns=\"u\" xmlns:p=\"v\" p:c=\"1\"><p:g xmlns:p=\"w\" b=\"2\" p:a=\"3\"/></svg>".toList).toOption.map
        fun (placed : List Xml.PlacedNode) => (decide (∀ tag ∈ Xml.Node.allTags (placed.map Xml.PlacedNode.node), tag.IsClear),
          (Xml.Node.allTags (placed.map Xml.PlacedNode.node)).map (·.sorted.names))) =
      some (true, [[(some "u", "svg"), (some "v", "c")], [(some "w", "g"), (none, "b"), (some "w", "a")]]) := by
    decide +kernel
  rcases Option.map_eq_some_iff.mp tags with ⟨placed, read, both⟩
  rw [toOption_eq_some] at read
  rw [Prod.mk.injEq, decide_eq_true_eq] at both
  rcases exists_read_text writable faithful typed none with ⟨doc, parsed, laidOut⟩
  rw [text] at parsed
  rcases (namespaces_survive read parsed both.1).2.2 l laidOut legible with ⟨again, readAgain, names⟩
  exact ⟨placed, doc, again, read, parsed, readAgain, names.trans both.2⟩

/-- An attribute whose namespace is the default one first is written without a prefix, and so
without its namespace. -/
theorem default_namespace_takes_prefix :
    ∃ doc, Document.read "<svg xmlns=\"u\" xmlns:p=\"u\" p:a=\"1\" a=\"2\"/>" none = .ok doc ∧
      doc.written {} = "<svg xmlns=\"u\" xmlns:p=\"u\" a=\"2\" a=\"1\"/>" ∧
      Xml.read (doc.written {}).toList = .error ⟨.duplicateAttribute "a", 33⟩ := by
  have first : ((Document.read "<svg xmlns=\"u\" xmlns:p=\"u\" p:a=\"1\" a=\"2\"/>" none).toOption.map
      (·.written {})) = some "<svg xmlns=\"u\" xmlns:p=\"u\" a=\"2\" a=\"1\"/>" := by
    decide +kernel
  have second : ((Xml.read "<svg xmlns=\"u\" xmlns:p=\"u\" a=\"2\" a=\"1\"/>".toList).map fun _ => ()) =
      .error ⟨.duplicateAttribute "a", 33⟩ := by
    decide +kernel
  rcases Option.map_eq_some_iff.mp first with ⟨doc, parsed, text⟩
  rw [toOption_eq_some] at parsed
  refine ⟨doc, parsed, text, ?_⟩
  rw [text]
  cases again : Xml.read "<svg xmlns=\"u\" xmlns:p=\"u\" a=\"2\" a=\"1\"/>".toList with
  | ok placed =>
      rw [again] at second
      cases second
  | error fault =>
      rw [again] at second
      exact congrArg Except.error (Except.error.inj second)

end Document

end SlimSvg
