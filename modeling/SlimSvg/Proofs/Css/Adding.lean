import SlimSvg.Proofs.Css.Held
import SlimSvg.Proofs.Css.Remaining
import SlimSvg.Proofs.Css.SheetReadBack
import SlimSvg.Proofs.Tree.Order
import SlimSvg.Proofs.Tree.Recovery

namespace SlimSvg

/-!
# Rules that go last

Rules that are added to the sheets of a document come behind all others of their weight,
whether they are put into the last style element or into a new one behind it.  Two facts
carry this.  The sheets keep the order of their elements in the document, so that what is
last in the list is last for a reader of the document.  And sorting by weight is stable, so
that rules that are put behind the others stay behind those of their weight.

A sheet without text loses its element when it is written, but such a sheet has no rules.
-/

namespace Document

/-! ## Elements that hold one text -/

/-- Whether a text is the only child of an element. -/
def ShowsText (doc : Document) (id : NodeId) (text : String) : Prop :=
  ∃ child, doc.children id = [child] ∧ doc.content child = .text text

namespace ShowsText

variable {doc : Document} {id : NodeId} {text : String}

theorem textContent_eq (tree : doc.IsTree) (element : doc.isElement id) (shows : doc.ShowsText id text) :
    doc.textContent id = text := by
  obtain ⟨child, children, content⟩ := shows
  have linked : doc.parent? child = some id := tree.mem_children.mp (by simp [children])
  have leaf : ¬ doc.isElement child := by simp [isElement, content, NodeContent.isElement]
  have descendants : doc.descendants id = [id, child] := by
    rw [tree.ordered.descendants_eq (index_lt_of_isElement element), children, List.flatMap_singleton,
      tree.ordered.descendants_eq (index_lt_of_parent? linked), children_leaf tree linked leaf]
    rfl
  rw [textContent, descendants]
  cases here : doc.content id with
  | element e => simp [here, content, String.join]
  | _ => simp [isElement, here, NodeContent.isElement] at element

/-- The text that an element was given is what it shows. -/
theorem setText (links : doc.Linked) (inside : id.index < doc.nodes.size) (some : text.isEmpty = false) :
    (doc.setText id text).ShowsText id text :=
  ⟨_, children_setText_self links inside some, by rw [content_setText links inside some, if_pos rfl]⟩

/-- An element goes on to show its text when another one gets a text. -/
theorem setText_of_ne (links : doc.Linked) (shows : doc.ShowsText id text) {other : NodeId}
    (inside : other.index < doc.nodes.size) {written : String} (some : written.isEmpty = false) (different : id ≠ other) :
    (doc.setText other written).ShowsText id text := by
  obtain ⟨child, children, content⟩ := shows
  refine ⟨child, (children_setText_of_ne links inside written different).trans children, ?_⟩
  have linked : doc.parent? child = .some id := links.mem_children.mp (by simp [children])
  rw [content_setText links inside some, if_neg, content]
  rintro rfl
  exact absurd (index_lt_of_parent? linked) (Nat.lt_irrefl _)

/-- An element goes on to show its text when another element is taken out. -/
theorem detach (links : doc.Linked) (shows : doc.ShowsText id text) {other : NodeId} (element : doc.isElement other) :
    (doc.detach other).ShowsText id text := by
  obtain ⟨child, children, content⟩ := shows
  refine ⟨child, ?_, (content_detach other links child).trans content⟩
  have different : child ≠ other := by
    rintro rfl
    simp [isElement, content, NodeContent.isElement] at element
  rw [children_detach other links, children]
  simp [different]

end ShowsText

end Document

namespace Css
namespace Styles

variable {doc : Document} {s : Styles}

/-! ## Writing sheets where they stand -/

/-- Whether the elements of the sheets are style elements of the document, in its order. -/
structure Standing (s : Styles) (doc : Document) : Prop where
  tree : doc.IsTree
  root_plain : doc.isElement Document.root = false
  held : s.Held doc
  inOrder : s.elements.Sublist doc.elements

namespace Standing

theorem attached (standing : s.Standing doc) : s.Attached doc := fun _ listed =>
  (Document.isAttached_iff standing.tree).mpr (List.mem_filter.mp (standing.inOrder.subset listed)).1

theorem elementChildren_eq_nil (held : s.Held doc) (tree : doc.IsTree) {id : NodeId} (listed : id ∈ s.elements) :
    doc.elementChildren id = [] := by
  apply List.eq_nil_iff_forall_not_mem.mpr
  intro child among
  obtain ⟨linked, element⟩ := (Document.mem_elementChildren tree.toLinked).mp among
  exact held.childless element linked listed

/-- The sheets of a document stand in it. -/
theorem of_ofDocument (tree : doc.IsTree) (plain : doc.isElement Document.root = false)
    (collected : ofDocument doc = .ok s) : s.Standing doc :=
  ⟨tree, plain, (held_ofDocument tree collected).1, sublist_elements_ofDocument collected⟩

end Standing

theorem thins_foldl_writeSheetOf {sheets : List Sheet} (tree : doc.IsTree) (held : (ofSheets sheets).Held doc) :
    doc.Thins (sheets.foldl writeSheetOf doc) := by
  induction sheets generalizing doc with
  | nil => exact .refl tree
  | cons sheet rest inductionHypothesis =>
      have listed : sheet.element ∈ (ofSheets (sheet :: rest)).elements := List.mem_cons_self
      have element := held.isElement listed
      have first : doc.Thins (writeSheetOf doc sheet) := by
        rw [writeSheetOf]
        split
        · exact .detach tree sheet.element
        · exact .setText tree element (Standing.elementChildren_eq_nil held tree listed) _
      have reduced : Document.Reduced doc (writeSheetOf doc sheet) := .of_trimmed (trimmed_writeSheetOf tree element)
      exact first.trans (inductionHypothesis first.tree
        ((held.of_sublist (List.sublist_cons_self _ _)).of_reduced reduced))

/-- Writing a sheet does not change what the element of another one shows. -/
theorem showsText_foldl_writeSheetOf_of_notMem {sheets : List Sheet} (tree : doc.IsTree)
    (held : (ofSheets sheets).Held doc) {id : NodeId} (other : id ∉ (ofSheets sheets).elements) {text : String}
    (shows : doc.ShowsText id text) : (sheets.foldl writeSheetOf doc).ShowsText id text := by
  induction sheets generalizing doc with
  | nil => exact shows
  | cons sheet rest inductionHypothesis =>
      have element := held.isElement (List.mem_cons_self : sheet.element ∈ (ofSheets (sheet :: rest)).elements)
      have trimmed := trimmed_writeSheetOf tree element
      refine inductionHypothesis trimmed.grown
        ((held.of_sublist (List.sublist_cons_self _ _)).of_reduced (.of_trimmed trimmed))
        (fun among => other (List.mem_cons_of_mem _ among)) ?_
      rw [writeSheetOf]
      split
      · exact shows.detach tree.toLinked element
      · next written =>
        refine shows.setText_of_ne tree.toLinked (Document.index_lt_of_isElement element) (by simpa using written) ?_
        rintro rfl
        exact other List.mem_cons_self

/-- Every sheet that has a text is shown by its element afterwards. -/
theorem showsText_foldl_writeSheetOf {sheets : List Sheet} (tree : doc.IsTree) (held : (ofSheets sheets).Held doc) :
    ∀ sheet ∈ sheets, (writeSheet sheet.sets).isEmpty = false →
      (sheets.foldl writeSheetOf doc).ShowsText sheet.element (writeSheet sheet.sets) := by
  induction sheets generalizing doc with
  | nil => exact List.forall_mem_nil _
  | cons first rest inductionHypothesis =>
      have element := held.isElement (List.mem_cons_self : first.element ∈ (ofSheets (first :: rest)).elements)
      have trimmed := trimmed_writeSheetOf tree element
      have restHeld := (held.of_sublist (List.sublist_cons_self _ _ : (ofSheets rest).elements.Sublist _)).of_reduced
        (.of_trimmed trimmed)
      intro sheet listed written
      rcases List.mem_cons.mp listed with rfl | later
      · refine showsText_foldl_writeSheetOf_of_notMem trimmed.grown restHeld (List.nodup_cons.mp held.nodup).1 ?_
        rw [writeSheetOf, if_neg (by simp [written])]
        exact .setText tree.toLinked (Document.index_lt_of_isElement element) written
      · exact inductionHypothesis trimmed.grown restHeld sheet later written

/-- Of two parts of a list without repetitions, one is a part of the other if its items are. -/
theorem sublist_of_subset {α : Type} [DecidableEq α] {all few more : List α} (distinct : all.Nodup)
    (fewOf : few.Sublist all) (moreOf : more.Sublist all) (subset : few ⊆ more) : few.Sublist more := by
  have picked : all.filter (· ∈ more) = more := by
    have kept := moreOf.filter (· ∈ more)
    rw [List.filter_eq_self.mpr fun _ listed => decide_eq_true listed] at kept
    refine (kept.eq_of_length (List.Perm.length_eq ?_)).symm
    refine (List.perm_ext_iff_of_nodup (distinct.sublist moreOf) (distinct.filter _)).mpr fun a => ?_
    rw [List.mem_filter, decide_eq_true_eq]
    exact ⟨fun listed => ⟨moreOf.subset listed, listed⟩, And.right⟩
  have fewPicked := fewOf.filter (· ∈ more)
  rw [List.filter_eq_self.mpr fun _ listed => decide_eq_true (subset listed), picked] at fewPicked
  exact fewPicked

/-- What is written back stands where it stood, and every element shows the text of its
sheet. -/
theorem Standing.writeBack (standing : s.Standing doc) :
    (s.writeBack doc).1.Standing (s.writeBack doc).2 ∧
      ∀ sheet ∈ (s.writeBack doc).1.sheets, (s.writeBack doc).2.ShowsText sheet.element (writeSheet sheet.sets) := by
  have handsOn := handsOn_writeBack standing.tree standing.held
  have held : (ofSheets s.sheets).Held doc := ⟨standing.held.named, standing.held.nodup, standing.held.childless⟩
  have thins : doc.Thins (s.writeBack doc).2 := thins_foldl_writeSheetOf standing.tree held
  refine ⟨⟨thins.tree, ?_, handsOn.held standing.held, ?_⟩, ?_⟩
  · exact (thins.isElement_eq _).trans standing.root_plain
  · refine sublist_of_subset (Document.nodup_elements standing.tree) (handsOn.sublist.trans standing.inOrder)
      (thins.elements_sublist standing.tree) fun id listed => ?_
    have before := handsOn.sublist.subset listed
    have attached := handsOn.attached id listed (standing.attached id before)
    refine List.mem_filter.mpr ⟨(Document.isAttached_iff thins.tree).mp attached, ?_⟩
    rw [thins.isElement_eq]
    exact standing.held.isElement before
  · intro sheet listed
    obtain ⟨among, written⟩ := List.mem_filter.mp listed
    exact showsText_foldl_writeSheetOf standing.tree held sheet among (by simpa using written)

/-! ## The place of added rules -/

section Place

variable {parent : NodeId} {index : Nat}

/-- A new style element may be remembered if it is not put into another one. -/
theorem Held.insertAt (held : s.Held doc) (tree : doc.IsTree) (holds : doc.Holds parent)
    (room : index ≤ (doc.children parent).length) (outside : parent ∉ s.elements) (sets : List RuleSet) :
    (ofSheets (s.sheets ++ [⟨⟨doc.nodes.size⟩, sets⟩])).Held
      (doc.insertAt parent index (.element (.ofName "style"))).2 := by
  have inside := tree.index_lt_of_holds holds
  have elementsEq : (ofSheets (s.sheets ++ [⟨⟨doc.nodes.size⟩, sets⟩])).elements = s.elements ++ [⟨doc.nodes.size⟩] := by
    simp [elements, ofSheets]
  have old : ∀ id, doc.isElement id → id ≠ ⟨doc.nodes.size⟩ := by
    rintro _ element rfl
    exact absurd (Document.index_lt_of_isElement element) (Nat.lt_irrefl _)
  refine ⟨fun id listed => ?_, ?_, fun {id upper} element linked listed => ?_⟩
  · rw [Document.hasName, Document.element?, Document.content_insertAt doc index _ inside]
    rw [elementsEq, List.mem_append, List.mem_singleton] at listed
    rcases listed with known | rfl
    · rw [if_neg (old id (held.isElement known))]
      exact held.named id known
    · rw [if_pos rfl]
      decide
  · rw [elementsEq, List.nodup_append]
    refine ⟨held.nodup, List.nodup_singleton _, fun id known other new => ?_⟩
    rw [List.mem_singleton.mp new]
    exact old id (held.isElement known)
  · rw [Document.parent?_insertAt doc index _ inside] at linked
    rw [elementsEq, List.mem_append, List.mem_singleton] at listed
    split at linked
    · rw [← Option.some.inj linked] at listed
      rcases listed with known | rfl
      · exact outside known
      · exact absurd inside (Nat.lt_irrefl _)
    · next different =>
      rw [Document.isElement_insertAt inside, beq_false_of_ne different, Bool.false_or] at element
      rcases listed with known | rfl
      · exact held.childless element linked known
      · have above := tree.index_lt_of_holds (tree.parent_holds linked)
        exact absurd above (Nat.lt_irrefl _)

theorem isPlain_insertAt (inside : parent.index < doc.nodes.size) (sets : List RuleSet) :
    isPlain (doc.insertAt parent index (.element (.ofName "style"))).2 ⟨⟨doc.nodes.size⟩, sets⟩ = true := by
  rw [isPlain, Document.element?, Document.content_insertAt doc index _ inside, if_pos rfl]
  rfl

theorem addText_eq_of_plain {before : List Sheet} {last : Sheet} (sheetsEq : s.sheets = before ++ [last])
    (plain : isPlain doc last = true) {css : String} {sets : List RuleSet} (read : readSheet css none = .ok sets) :
    s.addText doc css = .ok ((ofSheets (before ++ [⟨last.element, last.sets ++ sets⟩])).writeBack doc) := by
  have found : s.sheets.getLast?.filter (isPlain doc) = some last := by simp [sheetsEq, plain]
  have dropped : s.sheets.dropLast = before := by simp [sheetsEq]
  simp only [addText, read, found, dropped]
  rfl

theorem addText_eq_of_place (missing : s.sheets.getLast?.filter (isPlain doc) = none)
    (place : s.newPlace? doc = some (parent, index)) {css : String} {sets : List RuleSet}
    (read : readSheet css none = .ok sets) :
    s.addText doc css = .ok ((ofSheets (s.sheets ++ [⟨⟨doc.nodes.size⟩, sets⟩])).writeBack
      (doc.insertAt parent index (.element (.ofName "style"))).2) := by
  simp only [addText, read, missing, place]
  rfl

/-- A new element behind the last one continues the order of the sheets. -/
theorem Standing.insertBehind (standing : s.Standing doc) {before : List Sheet} {last : Sheet}
    (sheetsEq : s.sheets = before ++ [last]) (sets : List RuleSet) :
    ∃ parent index, s.newPlace? doc = some (parent, index) ∧
      (ofSheets (s.sheets ++ [⟨⟨doc.nodes.size⟩, sets⟩])).Standing
        (doc.insertAt parent index (.element (.ofName "style"))).2 ∧
      parent.index < doc.nodes.size := by
  have tree := standing.tree
  have elementsEq : s.elements = before.map (·.element) ++ [last.element] := by simp [elements, sheetsEq]
  have listed : last.element ∈ s.elements := by simp [elementsEq]
  have linked : ∃ parent, doc.parent? last.element = some parent := by
    rcases (Document.isAttached_eq tree _).mp (standing.attached _ listed) with atRoot | ⟨parent, linked, -⟩
    · have element := standing.held.isElement listed
      rw [atRoot, standing.root_plain] at element
      cases element
    · exact ⟨parent, linked⟩
  obtain ⟨parent, linked⟩ := linked
  obtain ⟨earlier, later, children⟩ := Document.exists_children_split tree.toLinked linked
  have outside : parent ∉ s.elements := standing.held.childless (standing.held.isElement listed) linked
  have holds := tree.parent_holds linked
  have inside := tree.index_lt_of_holds holds
  have room : earlier.length + 1 ≤ (doc.children parent).length := by simp [children]
  refine ⟨parent, earlier.length + 1, ?_, ⟨?_, ?_, ?_, ?_⟩, inside⟩
  · simp [newPlace?, sheetsEq, linked, Document.indexInParent?_eq tree.toLinked children]
  · exact tree.insertAt holds room fun _ _ => trivial
  · rw [Document.isElement_insertAt inside, standing.root_plain, Bool.or_false]
    exact beq_false_of_ne fun same => absurd (congrArg NodeId.index same) (Nat.ne_of_lt tree.rooted)
  · exact standing.held.insertAt tree holds room outside sets
  · have inOrder := standing.inOrder
    rw [elementsEq] at inOrder
    have continued := Document.sublist_elements_insertBehind (e := .ofName "style") tree children
      (Standing.elementChildren_eq_nil standing.held tree listed) inOrder
    rw [elements, ofSheets, List.map_append, ← elements, elementsEq]
    exact continued

/-- The first style element stands at the front of the root element. -/
theorem Standing.insertFirst (standing : s.Standing doc) (none : s.sheets = []) {element : NodeId}
    (rootElement : doc.rootElement? = some element) (sets : List RuleSet) :
    (ofSheets (s.sheets ++ [⟨⟨doc.nodes.size⟩, sets⟩])).Standing
      (doc.insertAt element 0 (.element (.ofName "style"))).2 := by
  have tree := standing.tree
  have isElement : doc.isElement element := List.find?_some rootElement
  have linked : doc.parent? element = some Document.root :=
    tree.mem_children.mp (List.mem_of_find?_eq_some rootElement)
  have holds : doc.Holds element := Or.inr isElement
  have inside := tree.index_lt_of_holds holds
  have nobody : s.elements = [] := by simp [elements, none]
  have grown : (doc.insertAt element 0 (.element (.ofName "style"))).2.IsTree :=
    tree.insertAt holds (Nat.zero_le _) fun _ _ => trivial
  refine ⟨grown, ?_, ?_, ?_⟩
  · rw [Document.isElement_insertAt inside, standing.root_plain, Bool.or_false]
    exact beq_false_of_ne fun same => absurd (congrArg NodeId.index same) (Nat.ne_of_lt tree.rooted)
  · exact standing.held.insertAt tree holds (Nat.zero_le _) (by simp [nobody]) sets
  · -- The new element hangs from the root element, and that one from the root.
    have parentNew : (doc.insertAt element 0 (.element (.ofName "style"))).2.parent? ⟨doc.nodes.size⟩ = some element := by
      rw [Document.parent?_insertAt doc 0 _ inside, if_pos rfl]
    have parentOld : (doc.insertAt element 0 (.element (.ofName "style"))).2.parent? element = some Document.root := by
      rw [Document.parent?_insertAt doc 0 _ inside, if_neg, linked]
      exact fun same => absurd (congrArg NodeId.index same) (Nat.ne_of_lt inside)
    have attached : (doc.insertAt element 0 (.element (.ofName "style"))).2.isAttached ⟨doc.nodes.size⟩ = true :=
      (Document.isAttached_eq grown _).mpr (Or.inr ⟨element, parentNew, (Document.isAttached_eq grown _).mpr
        (Or.inr ⟨Document.root, parentOld, (Document.isAttached_eq grown _).mpr (Or.inl rfl)⟩)⟩)
    rw [elements, ofSheets, none, List.nil_append, List.map_singleton, List.singleton_sublist]
    refine List.mem_filter.mpr ⟨(Document.isAttached_iff grown).mp attached, ?_⟩
    rw [Document.isElement_insertAt inside, beq_self_eq_true, Bool.true_or]

/-- The sheet that more rules are put into, and the document in which it stands. -/
theorem exists_last (standing : s.Standing doc) (rooted : ∃ element, doc.rootElement? = some element) {css : String}
    {sets : List RuleSet} (read : readSheet css none = .ok sets) :
    ∃ (grown : Document) (before : List Sheet) (last : Sheet),
      s.addText doc css = .ok ((ofSheets (before ++ [⟨last.element, last.sets ++ sets⟩])).writeBack grown) ∧
        (ofSheets (before ++ [⟨last.element, last.sets ++ sets⟩])).Standing grown ∧
        (before ++ [last]).flatMap (·.sets) = s.sheets.flatMap (·.sets) ∧ isPlain grown last = true := by
  rcases List.eq_nil_or_concat' s.sheets with none | ⟨before, last, some⟩
  · obtain ⟨element, rootElement⟩ := rooted
    have isElement : doc.isElement element := List.find?_some rootElement
    have missing : s.sheets.getLast?.filter (isPlain doc) = .none := by simp [none]
    have place : s.newPlace? doc = .some (element, 0) := by simp [newPlace?, none, rootElement]
    exact ⟨_, s.sheets, ⟨⟨doc.nodes.size⟩, []⟩, addText_eq_of_place missing place read,
      standing.insertFirst none rootElement sets, by simp,
      isPlain_insertAt (Document.index_lt_of_isElement isElement) []⟩
  · by_cases plain : isPlain doc last = true
    · refine ⟨doc, before, last, addText_eq_of_plain some plain read, ?_, by rw [some], plain⟩
      have sameElements : (ofSheets (before ++ [⟨last.element, last.sets ++ sets⟩])).elements = s.elements := by
        simp [elements, ofSheets, some]
      exact ⟨standing.tree, standing.root_plain, ⟨sameElements ▸ standing.held.named, sameElements ▸ standing.held.nodup,
        sameElements ▸ standing.held.childless⟩, sameElements ▸ standing.inOrder⟩
    · have missing : s.sheets.getLast?.filter (isPlain doc) = .none := by simp [some, plain]
      obtain ⟨parent, index, place, stands, inside⟩ := standing.insertBehind some sets
      exact ⟨_, s.sheets, ⟨⟨doc.nodes.size⟩, []⟩, addText_eq_of_place missing place read, stands, by simp,
        isPlain_insertAt inside []⟩

end Place

/-! ## The order of all rules -/

/-- Whether rules that are sorted by weight are old ones and added ones, and of each weight
first the old ones and then the added ones, in the order that they had. -/
structure GoLast (added old all : List Rule) : Prop where
  perm : all.Perm (old ++ added)
  byWeight : all.Pairwise fun first second => first.specificity.le second.specificity = true
  behind : ∀ weight : Specificity, all.filter (·.specificity == weight) =
    old.filter (·.specificity == weight) ++ added.filter (·.specificity == weight)

/-- Rules of one weight are sorted as they are written. -/
theorem filter_sorted_weight (sheets : List Sheet) (weight : Specificity) :
    (Derived.ofSheets sheets).sorted.filter (·.specificity == weight) =
      (Derived.rules sheets).filter (·.specificity == weight) := by
  rw [filter_sorted]
  apply List.mergeSort_of_pairwise
  rw [List.pairwise_iff_forall_sublist]
  intro first second both
  have firstWeight := beq_iff_eq.mp (List.mem_filter.mp (both.subset List.mem_cons_self)).2
  have secondWeight := beq_iff_eq.mp (List.mem_filter.mp (both.subset (by simp : second ∈ [first, second]))).2
  have self := Specificity.le_total weight weight
  rw [Bool.or_self] at self
  rw [firstWeight, secondWeight, self]

theorem goLast_sorted {old all : List Sheet} {added : List Rule} (rulesEq : Derived.rules all = Derived.rules old ++ added) :
    GoLast added (Derived.ofSheets old).sorted (Derived.ofSheets all).sorted where
  perm := by
    refine (List.mergeSort_perm _ _).trans ?_
    rw [rulesEq]
    exact (List.mergeSort_perm _ _).symm.append_right added
  byWeight := List.pairwise_mergeSort
    (fun a b c : Rule => Specificity.le_trans a.specificity b.specificity c.specificity)
    (fun a b => Specificity.le_total a.specificity b.specificity) _
  behind weight := by
    rw [filter_sorted_weight, filter_sorted_weight, rulesEq, List.filter_append]

theorem holdsOfRead_inMedia : HoldsOfRead fun inMedia r => r.inMedia = inMedia :=
  fun _ _ _ _ _ _ _ _ => rfl

/-- What a text adds for all media is in no media. -/
theorem inMedia_of_readSheet {css : String} {sets : List RuleSet} (read : readSheet css none = .ok sets) :
    ∀ set ∈ sets, set.isBlock = false → ∀ r ∈ set.rules, r.inMedia = false := by
  intro set listed outside r ruled
  have media : set.media = none := by
    refine Option.eq_none_iff_forall_not_mem.mpr fun query asked => ?_
    rw [((wasRead_of_readSheet read set listed).query query asked).1] at outside
    cases outside
  rw [allRules_of_readSheet holdsOfRead_inMedia read set listed r ruled, media]
  rfl

/-- What adding a text to the sheets of a document comes to. -/
structure Appended (s : Styles) (sets : List RuleSet) (t : Styles) (after : Document) : Prop where
  goLast : GoLast (sets.flatMap (·.rules)) s.derived.sorted t.derived.sorted
  /-- The sets are put behind those of a sheet whose element is for all media; sheets
  without text are gone. -/
  place : ∃ (before : List Sheet) (last : Sheet) (e : Element),
    (before ++ [last]).flatMap (·.sets) = s.sheets.flatMap (·.sets) ∧
      t.sheets = (before ++ [(⟨last.element, last.sets ++ sets⟩ : Sheet)]).filter (fun sheet => !(writeSheet sheet.sets).isEmpty) ∧
      after.element? last.element = some e ∧ e.hasAttribute "media" = false
  forAll : ∀ set ∈ sets, set.isBlock = false → ∀ r ∈ set.rules, r.inMedia = false
  attached : ∀ id ∈ t.elements, after.isAttached id = true
  inOrder : t.elements.Sublist after.elements
  texts : ∀ sheet ∈ t.sheets, after.textContent sheet.element = writeSheet sheet.sets

/-- Text is added to the sheets of a document that was read exactly if it is a style sheet.
Its rules come last among the rules of their weight, none of them depends on the media of a
style element, and the style elements of the document show the sheets, in their order. -/
theorem addText_appends {text : String} {name : Option String} (parsed : Document.read text name = .ok doc)
    (collected : ofDocument doc = .ok s) (css : String) :
    (∀ e, s.addText doc css = .error e ↔ readSheet css none = .error e) ∧
      ∀ sets, readSheet css none = .ok sets →
        ∃ t after, s.addText doc css = .ok (t, after) ∧ Appended s sets t after := by
  have tree := (Document.grown_of_read parsed).isTree
  have standing := Standing.of_ofDocument tree (Document.isElement_root_of_read parsed) collected
  have rooted := Document.exists_rootElement_of_read parsed
  refine ⟨fun e => addText_eq_error, fun sets read => ?_⟩
  obtain ⟨grown, before, last, added, stands, setsEq, plain⟩ := exists_last standing rooted read
  generalize extendedEq : ofSheets (before ++ [⟨last.element, last.sets ++ sets⟩]) = extended at added stands
  obtain ⟨written, shown⟩ := stands.writeBack
  have trimmed := trimmed_writeBack extended stands.tree fun sheet listed =>
    stands.held.isElement (List.mem_map_of_mem listed)
  refine ⟨_, _, added, ⟨?_, ?_, inMedia_of_readSheet read, written.attached, written.inOrder, ?_⟩⟩
  · rw [s.derived_eq]
    refine @goLast_sorted _ (extended.writeBack grown).1.sheets _ ?_
    rw [rules_writeBack, ← extendedEq]
    simp only [Derived.rules, ofSheets, List.flatMap_append, List.flatMap_singleton, ← setsEq, List.append_assoc]
  · cases found : grown.element? last.element with
    | none => simp [isPlain, found] at plain
    | some e =>
        refine ⟨before, last, e, setsEq, by rw [← extendedEq]; rfl, (trimmed.element?_eq _).trans found, ?_⟩
        simpa [isPlain, found] using plain
  · intro sheet listed
    exact (shown sheet listed).textContent_eq written.tree
      (written.held.isElement (List.mem_map_of_mem listed))

/-- The last style element is for print only, so the added rules are put into a new one. -/
theorem addText_behind_media :
    ∃ doc s sets,
      Document.read "<svg><style>a\x7bb:c\x7d</style><style media='print'>d\x7be:f\x7d</style><a/></svg>" none = .ok doc ∧
        ofDocument doc = .ok s ∧ readSheet "g\x7bh:i\x7d" none = .ok sets ∧ s.elements = [⟨2⟩, ⟨4⟩] ∧
        (∀ e, s.addText doc "g\x7bh:i\x7d" = .error e ↔ readSheet "g\x7bh:i\x7d" none = .error e) ∧
        ∃ t after, s.addText doc "g\x7bh:i\x7d" = .ok (t, after) ∧ Appended s sets t after ∧
          t.elements = [⟨2⟩, ⟨4⟩, ⟨7⟩] ∧ after.elements = [⟨1⟩, ⟨2⟩, ⟨4⟩, ⟨7⟩, ⟨6⟩] ∧
          after.textContent ⟨7⟩ = "g\x7bh:i\x7d" := by
  have run : ((Document.read "<svg><style>a\x7bb:c\x7d</style><style media='print'>d\x7be:f\x7d</style><a/></svg>"
      none).toOption.bind fun doc => (ofDocument doc).toOption.bind fun s =>
        (readSheet "g\x7bh:i\x7d" none).toOption.bind fun _ => (s.addText doc "g\x7bh:i\x7d").toOption.map fun result =>
          (s.elements, result.1.elements, result.2.elements, result.2.textContent ⟨7⟩)) =
      some ([⟨2⟩, ⟨4⟩], [⟨2⟩, ⟨4⟩, ⟨7⟩], [⟨1⟩, ⟨2⟩, ⟨4⟩, ⟨7⟩, ⟨6⟩], "g\x7bh:i\x7d") := by
    decide +kernel
  obtain ⟨doc, parsed, run⟩ := Option.bind_eq_some_iff.mp run
  obtain ⟨s, collected, run⟩ := Option.bind_eq_some_iff.mp run
  obtain ⟨sets, read, run⟩ := Option.bind_eq_some_iff.mp run
  obtain ⟨result, added, same⟩ := Option.map_eq_some_iff.mp run
  simp only [Prod.mk.injEq] at same
  obtain ⟨oldElements, newElements, inDocument, written⟩ := same
  have appends := addText_appends (toOption_eq_some.mp parsed) (toOption_eq_some.mp collected) "g\x7bh:i\x7d"
  obtain ⟨t, after, addedToo, appended⟩ := appends.2 sets (toOption_eq_some.mp read)
  have resultEq : result = (t, after) := Except.ok.inj ((toOption_eq_some.mp added).symm.trans addedToo)
  rw [resultEq] at newElements inDocument written
  exact ⟨doc, s, sets, toOption_eq_some.mp parsed, toOption_eq_some.mp collected, toOption_eq_some.mp read, oldElements,
    appends.1, t, after, addedToo, appended, newElements, inDocument, written⟩

end Styles
end Css
end SlimSvg
