import SlimSvg.Proofs.Css.Sheets
import SlimSvg.Proofs.Css.WriteBack
import SlimSvg.Proofs.Tree.Pruning

namespace SlimSvg
namespace Css
namespace Styles

/-!
# Style elements and their place in the document

The sheets of a document remember the elements that they came from, and an edit of the
sheets writes to these elements wherever they are.  An element that was taken out of
the document in the meantime is written to all the same, and what it says is lost.

No edit of the sheets takes out an element that the sheets go on to remember.  This
rests on two facts: every element is remembered once, and none of them has an element
inside, so taking one of them out never takes another one with it.
-/

/-- Whether sheets remember different style elements that hold no elements. -/
structure Held (s : Styles) (doc : Document) : Prop where
  named : ∀ id ∈ s.elements, doc.hasName id "style"
  nodup : s.elements.Nodup
  childless : ∀ {id parent}, doc.isElement id → doc.parent? id = some parent → parent ∉ s.elements

/-- Whether all elements that sheets remember are parts of the document. -/
def Attached (s : Styles) (doc : Document) : Prop :=
  ∀ id ∈ s.elements, doc.isAttached id = true

namespace Held

variable {s t : Styles} {doc other : Document}

theorem isElement (held : s.Held doc) {id : NodeId} (listed : id ∈ s.elements) : doc.isElement id :=
  Document.isElement_of_hasName (held.named id listed)

theorem of_reduced (held : s.Held doc) (reduced : Document.Reduced doc other) : s.Held other where
  named := by
    intro id listed
    rw [reduced.hasName_eq]
    exact held.named id listed
  nodup := held.nodup
  childless := by
    intro id parent element linked
    rw [reduced.isElement_eq] at element
    exact held.childless element (reduced.pruned.parent?_of_parent? element linked)

theorem of_sublist (held : s.Held doc) (sublist : t.elements.Sublist s.elements) : t.Held doc where
  named id listed := held.named id (sublist.subset listed)
  nodup := held.nodup.sublist sublist
  childless element linked listed := held.childless element linked (sublist.subset listed)

/-- A style element stands above no element. -/
theorem notMem_elementAncestors (held : s.Held doc) (tree : doc.IsTree) {style id : NodeId}
    (listed : style ∈ s.elements) (element : doc.isElement id) : style ∉ doc.elementAncestors id := by
  intro among
  have above := ((Document.mem_elementAncestors tree).mp among).1
  clear among
  induction above with
  | parent linked => exact held.childless element linked listed
  | outer above linked inductionHypothesis =>
      rcases tree.parent_holds linked with atRoot | middle
      · rw [atRoot] at above
        cases above with
        | parent linked => rw [tree.parent?_root] at linked; cases linked
        | outer _ linked => rw [tree.parent?_root] at linked; cases linked
      · exact inductionHypothesis middle

end Held

/-! ## Writing back -/

section WriteBack

variable {doc : Document} {id : NodeId}

theorem isAttached_foldl_detach_leaves (tree : doc.IsTree) {nodes : List NodeId}
    (leaves : ∀ node ∈ nodes, ¬ doc.isElement node) (element : doc.isElement id)
    (attached : doc.isAttached id = true) : (nodes.foldl Document.detach doc).isAttached id = true := by
  induction nodes generalizing doc with
  | nil => exact attached
  | cons node rest inductionHypothesis =>
      have first := Document.Reduced.detach tree node
      refine inductionHypothesis first.tree ?_ ?_ ?_
      · intro other listed
        rw [first.isElement_eq]
        exact leaves other (List.mem_cons_of_mem node listed)
      · rw [first.isElement_eq]
        exact element
      · exact Document.isAttached_detach_leaf tree attached element (leaves node List.mem_cons_self)

/-- Replacing the text of an element without elements inside cuts off no element. -/
theorem isAttached_setText (tree : doc.IsTree) {style : NodeId} (styleElement : doc.isElement style)
    (leaves : ∀ node ∈ doc.children style, ¬ doc.isElement node) (element : doc.isElement id)
    (attached : doc.isAttached id = true) (text : String) :
    (doc.setText style text).isAttached id = true := by
  have emptied := isAttached_foldl_detach_leaves tree leaves element attached
  have trimmed := Document.trimmed_foldl_detach tree (doc.children style)
  rw [Document.setText]
  split
  · exact emptied
  · exact Document.isAttached_append_text trimmed.grown
      ((trimmed.pruned.isElement_eq style).trans styleElement) emptied text

/-- Writing sheets back cuts off only elements whose sheets have become empty. -/
theorem isAttached_foldl_writeSheetOf {sheets : List Sheet} (tree : doc.IsTree)
    (held : (ofSheets sheets).Held doc) (element : doc.isElement id) (attached : doc.isAttached id = true)
    (kept : ∀ sheet ∈ sheets, (writeSheet sheet.sets).isEmpty = true → sheet.element ≠ id) :
    (sheets.foldl writeSheetOf doc).isAttached id = true := by
  induction sheets generalizing doc with
  | nil => exact attached
  | cons sheet rest inductionHypothesis =>
      have listed : sheet.element ∈ (ofSheets (sheet :: rest)).elements := List.mem_cons_self
      have first : Document.Reduced doc (writeSheetOf doc sheet) :=
        .of_trimmed (trimmed_writeSheetOf tree (held.isElement listed))
      have restHeld : (ofSheets rest).Held doc := held.of_sublist (List.sublist_cons_self _ _)
      refine inductionHypothesis first.tree (restHeld.of_reduced first) ?_ ?_
        fun other among => kept other (List.mem_cons_of_mem sheet among)
      · exact (first.isElement_eq id).trans element
      · rw [writeSheetOf]
        split
        · next empty =>
          exact Document.isAttached_detach tree attached (kept sheet List.mem_cons_self empty)
            (held.notMem_elementAncestors tree listed element)
        · refine isAttached_setText tree (held.isElement listed) ?_ element attached _
          intro node child inside
          exact held.childless inside (tree.mem_children.mp child) listed

end WriteBack

/-! ## Edits of sheets -/

/-- What an edit of sheets hands on: no new element is remembered, and what is
remembered keeps its place. -/
structure HandsOn (s : Styles) (doc : Document) (t : Styles) (other : Document) : Prop where
  reduced : Document.Reduced doc other
  sublist : t.elements.Sublist s.elements
  attached : ∀ id ∈ t.elements, doc.isAttached id = true → other.isAttached id = true

namespace HandsOn

variable {s t u : Styles} {doc other third : Document}

theorem trans (first : HandsOn s doc t other) (second : HandsOn t other u third) :
    HandsOn s doc u third where
  reduced := first.reduced.trans second.reduced
  sublist := second.sublist.trans first.sublist
  attached id listed before :=
    second.attached id listed (first.attached id (second.sublist.subset listed) before)

theorem held (handsOn : HandsOn s doc t other) (held : s.Held doc) : t.Held other :=
  (held.of_reduced handsOn.reduced).of_sublist handsOn.sublist

/-- An edit of elements alone. -/
theorem of_sameShape (s : Styles) (reduced : Document.Reduced doc other)
    (same : Document.SameShape doc other) : HandsOn s doc s other where
  reduced := reduced
  sublist := .refl _
  attached id _ before := (same.isAttached_eq id).trans before

theorem mapElements (s : Styles) (tree : doc.IsTree) {f : Element → Element}
    (kept : ∀ e, (f e).kind = e.kind) : HandsOn s doc s (doc.mapElements f) :=
  of_sameShape s (.mapElements tree kept) (Document.sameShape_mapElements f)

end HandsOn

variable {s : Styles} {doc : Document}

theorem elements_mapSets (s : Styles) (f : RuleSet → RuleSet) : (s.mapSets f).elements = s.elements := by
  rw [mapSets, elements, ofSheets, List.map_map]
  rfl

theorem handsOn_writeBack (tree : doc.IsTree) (held : s.Held doc) :
    HandsOn s doc (s.writeBack doc).1 (s.writeBack doc).2 where
  reduced := .of_trimmed (trimmed_writeBack s tree fun sheet listed =>
    held.isElement (List.mem_map_of_mem listed))
  sublist := List.filter_sublist.map _
  attached := by
    intro id listed before
    rcases List.mem_map.mp listed with ⟨sheet, among, same⟩
    rcases List.mem_filter.mp among with ⟨inSheets, written⟩
    have listedNow : id ∈ s.elements := same ▸ List.mem_map_of_mem inSheets
    have stays := isAttached_foldl_writeSheetOf tree
      (show (ofSheets s.sheets).Held doc from ⟨held.named, held.nodup, held.childless⟩)
      (held.isElement listedNow) before
    apply stays
    · intro other otherListed empty equal
      have sameSheet := List.inj_on_of_nodup_map held.nodup otherListed inSheets (equal.trans same.symm)
      rw [sameSheet] at empty
      rw [empty] at written
      cases written

/-- An edit of rules that is written back. -/
theorem handsOn_writeBack_of_elements {t : Styles} (tree : doc.IsTree) (held : s.Held doc)
    (same : t.elements = s.elements) : HandsOn s doc (t.writeBack doc).1 (t.writeBack doc).2 := by
  have written := handsOn_writeBack tree (s := t) ⟨same ▸ held.named, same ▸ held.nodup, same ▸ held.childless⟩
  exact ⟨written.reduced, same ▸ written.sublist, written.attached⟩

theorem handsOn_minify (tree : doc.IsTree) (held : s.Held doc) (removeUnused : Bool) :
    HandsOn s doc (s.minify doc removeUnused).1 (s.minify doc removeUnused).2 :=
  handsOn_writeBack_of_elements tree held (elements_mapSets s _)

theorem handsOn_renameIds (tree : doc.IsTree) (held : s.Held doc) (map : String → Option String) :
    HandsOn s doc ((s.renameIds map).writeBack doc).1 ((s.renameIds map).writeBack doc).2 :=
  handsOn_writeBack_of_elements tree held (elements_mapSets s _)

theorem handsOn_renameClasses (tree : doc.IsTree) (held : s.Held doc) (map : String → Option String) :
    HandsOn s doc ((s.renameClasses map).writeBack doc).1 ((s.renameClasses map).writeBack doc).2 :=
  handsOn_writeBack_of_elements tree held (elements_mapSets s _)

theorem isAttached_foldl_detach_styles {doc : Document} {id : NodeId} (tree : doc.IsTree) {sheets : List Sheet}
    (held : (ofSheets sheets).Held doc) (element : doc.isElement id) (attached : doc.isAttached id = true)
    (kept : id ∉ (ofSheets sheets).elements) :
    (sheets.foldl (fun doc sheet => doc.detach sheet.element) doc).isAttached id = true := by
  induction sheets generalizing doc with
  | nil => exact attached
  | cons sheet rest inductionHypothesis =>
      have listed : sheet.element ∈ (ofSheets (sheet :: rest)).elements := List.mem_cons_self
      have first := Document.Reduced.detach tree sheet.element
      have restHeld : (ofSheets rest).Held doc := held.of_sublist (List.sublist_cons_self _ _)
      refine inductionHypothesis first.tree (restHeld.of_reduced first) ?_ ?_ ?_
      · exact (first.isElement_eq id).trans element
      · refine Document.isAttached_detach tree attached ?_ (held.notMem_elementAncestors tree listed element)
        intro same
        exact kept (same ▸ listed)
      · exact fun later => kept (List.mem_cons_of_mem _ later)

/-- Merging takes out the elements that are forgotten, and no other one. -/
theorem handsOn_merge (tree : doc.IsTree) (held : s.Held doc) :
    HandsOn s doc (s.merge doc).2.1 (s.merge doc).2.2 := by
  rw [merge]
  split
  · next first second others sheetsEq =>
    have elementsEq : s.elements = first.element :: (ofSheets (second :: others)).elements := by
      rw [elements, sheetsEq]
      rfl
    have firstListed : first.element ∈ s.elements := elementsEq ▸ List.mem_cons_self
    have removed := Document.trimmed_foldl_detach tree ((second :: others).map (·.element))
    rw [List.foldl_map] at removed
    have reduced := Document.Reduced.of_trimmed removed
    have restHeld : (ofSheets (second :: others)).Held doc :=
      held.of_sublist (elementsEq ▸ List.sublist_cons_self _ _)
    have apart := held.nodup
    rw [elementsEq] at apart
    have stays := isAttached_foldl_detach_styles tree restHeld (held.isElement firstListed)
    let rest := (second :: others).foldl (fun doc sheet => doc.detach sheet.element) doc
    have alone : (ofSheets [⟨first.element, (s.sheets.flatMap (·.sets)).map asBlock⟩]).elements.Sublist s.elements :=
      elementsEq ▸ List.singleton_sublist.mpr List.mem_cons_self
    have detached : HandsOn s doc (ofSheets [⟨first.element, (s.sheets.flatMap (·.sets)).map asBlock⟩]) rest := by
      refine ⟨reduced, alone, ?_⟩
      intro id listed before
      rw [List.mem_singleton.mp listed] at before ⊢
      exact stays before (List.nodup_cons.mp apart).1
    have changed := HandsOn.of_sameShape
      (ofSheets [⟨first.element, (s.sheets.flatMap (·.sets)).map asBlock⟩])
      (Document.Reduced.modifyElement reduced.tree first.element
        (f := fun e => e.removeAttribute "media") fun _ => rfl)
      (Document.sameShape_modifyElement rest first.element (·.removeAttribute "media"))
    have both := detached.trans changed
    exact both.trans (handsOn_writeBack both.reduced.tree (both.held held))
  · exact ⟨.refl tree, .refl _, fun _ _ before => before⟩

/-! ## The sheets of a document -/

/-- Sheets are collected in document order. -/
theorem sublist_elements_ofDocument (collected : ofDocument doc = .ok s) :
    s.elements.Sublist doc.elements := by
  rcases exists_sheets_of_ofDocument collected with ⟨sheets, sheetsEq, sheetsRead⟩
  have places : s.elements = _ := (congrArg (List.map Sheet.element) sheetsEq).trans
    (map_eq_of_mapM_eq_ok sheetsRead Prod.fst fun _ _ made => element_of_sheetOf made)
  rw [places]
  refine (List.filter_sublist.map _).trans ?_
  generalize doc.elements = nodes
  induction nodes with
  | nil => exact .refl _
  | cons node rest inductionHypothesis =>
      rw [List.filterMap_cons]
      cases doc.element? node with
      | none => exact inductionHypothesis.cons node
      | some e => exact inductionHypothesis.cons_cons node

/-- The style elements of a document are parts of it and hold no elements. -/
theorem held_ofDocument (tree : doc.IsTree) (collected : ofDocument doc = .ok s) :
    s.Held doc ∧ s.Attached doc := by
  have read := exists_sheetOf_of_ofDocument collected
  have inTree : ∀ id ∈ s.elements, id ∈ doc.elements := by
    intro id listed
    rcases List.mem_map.mp listed with ⟨sheet, among, same⟩
    rcases read sheet among with ⟨e, inTree, -⟩
    exact same ▸ inTree
  refine ⟨⟨?_, ?_, ?_⟩, ?_⟩
  · intro id listed
    rcases List.mem_map.mp listed with ⟨sheet, among, same⟩
    rcases read sheet among with ⟨e, -, found, styled, -⟩
    rw [isStyleElement, Bool.and_eq_true] at styled
    rw [← same, Document.hasName, found]
    exact styled.1
  · exact (Document.nodup_elements tree).sublist (sublist_elements_ofDocument collected)
  · intro id parent element linked listed
    rcases List.mem_map.mp listed with ⟨sheet, among, same⟩
    rcases read sheet among with ⟨e, -, -, -, made⟩
    rw [sheetOf] at made
    rcases unless_refused_eq_ok.mp made with ⟨none, -⟩
    apply none
    rw [List.any_eq_true]
    exact ⟨id, same ▸ tree.mem_children.mpr linked, element⟩
  · exact fun id listed => (Document.isAttached_iff tree).mpr (List.mem_filter.mp (inTree id listed)).1

end Styles
end Css
end SlimSvg
