import Mathlib.Data.List.Forall2
import SlimSvg.Proofs.Tree.Spaces
import SlimSvg.Proofs.Tree.Stability

namespace SlimSvg

/-!
# Broken lines

The writer breaks lines wherever no text stands among the children of an element or of one
around it.  The reader drops the blanks of a broken line only where blanks do not count.  So
a document is read alike from its compact text and from one with broken lines exactly if no
element in which blanks count has its children on lines of their own.
-/

/-! ## Content that is read in step -/

theorem forall₂_append_iff {α β : Type} {R S : α → β → Prop} {as : List α} {bs : List β} (paired : List.Forall₂ R as bs)
    (cs : List α) (ds : List β) :
    List.Forall₂ S (as ++ cs) (bs ++ ds) ↔ List.Forall₂ S as bs ∧ List.Forall₂ S cs ds := by
  induction paired with
  | nil => simp
  | cons _ _ inductionHypothesis => simp [inductionHypothesis, and_assoc]

namespace Xml

/-- Whether a node is a text. -/
def Node.isText : Node → Bool
  | text _ => true
  | _ => false

/-- Whether two nodes are one text, or no texts at all. -/
inductive Node.Pairs : Node → Node → Prop
  | text (s : String) : Pairs (.text s) (.text s)
  | markup {n m : Node} (solid : n.isText = false) (solidToo : m.isText = false) : Pairs n m

/-- Whether two items are one text, or nodes that are no texts. -/
inductive Item.Pairs : Item → Item → Prop
  | text (chars : List Char) : Pairs (.text chars) (.text chars)
  | node {n m : Node} (solid : n.isText = false) (solidToo : m.isText = false) : Pairs (.node n) (.node m)

/-- The children of an element whose content was read as certain items. -/
def Item.grown (items : List Item) : List Node :=
  (Children.start.addAll items).reversed.reverse

theorem Item.grown_of_apart {items : List Item} (apart : Apart items) : grown items = items.map alone := by
  have added := @addAll_of_apart items apart .start nofun
  rw [grown, added, List.reverse_append, List.reverse_reverse]
  rfl

theorem Item.apart_cons_node {n : Node} {items : List Item} (apart : Apart items) : Apart (.node n :: items) := by
  cases items with
  | nil => exact True.intro
  | cons item rest => exact ⟨rfl, apart⟩

namespace Children

/-- Whether the children of two open elements were read in step. -/
structure Pairs (children others : Children) : Prop where
  grows : children.grows = others.grows
  nodes : List.Forall₂ Node.Pairs children.reversed others.reversed

/-- Nothing grows behind a node that is no text. -/
theorem add_text_behind_markup {n : Node} (solid : n.isText = false) (rest : List Node) (chars : List Char) :
    add ⟨n :: rest, true⟩ (.text chars) = ⟨n :: rest, true⟩ := by
  cases n with
  | text s => cases solid
  | _ => rfl

namespace Pairs

variable {children others : Children}

/-- The same text is put behind both lines of children, or into the same last text. -/
theorem addText (paired : children.Pairs others) (chars : List Char) :
    (children.add (.text chars)).Pairs (others.add (.text chars)) ∧
      ∀ S : Node → Node → Prop, (∀ s, S (.text s) (.text s)) →
        (List.Forall₂ S (children.add (.text chars)).reversed (others.add (.text chars)).reversed ↔
          List.Forall₂ S children.reversed others.reversed) := by
  rcases children with ⟨reversed, grows⟩
  rcases others with ⟨reversedToo, growsToo⟩
  rcases paired with ⟨same, nodes⟩
  change grows = growsToo at same
  subst same
  cases grows with
  | false =>
      refine ⟨⟨rfl, .cons (.text _) nodes⟩, fun S texts => ?_⟩
      exact List.forall₂_cons.trans (and_iff_right (texts _))
  | true =>
      cases nodes with
      | nil => exact ⟨⟨rfl, .nil⟩, fun S _ => Iff.rfl⟩
      | cons last rest =>
          cases last with
          | text s =>
              refine ⟨⟨rfl, .cons (.text _) rest⟩, fun S texts => ?_⟩
              exact List.forall₂_cons.trans ((and_congr_left fun _ => iff_of_true (texts _) (texts _)).trans
                List.forall₂_cons.symm)
          | markup solid solidToo =>
              rw [add_text_behind_markup solid, add_text_behind_markup solidToo]
              exact ⟨⟨rfl, .cons (.markup solid solidToo) rest⟩, fun S _ => Iff.rfl⟩

theorem addNode (paired : children.Pairs others) {n m : Node} (solid : n.isText = false) (solidToo : m.isText = false) :
    (children.add (.node n)).Pairs (others.add (.node m)) :=
  ⟨rfl, .cons (.markup solid solidToo) paired.nodes⟩

end Pairs

end Children

end Xml

namespace Reading

open Xml (Item Children)

variable {keep : Bool} {outer : Xml.Namespaces}

/-- Whether two nodes are read as the same branches. -/
def AreAlike (keep : Bool) (outer : Xml.Namespaces) (n m : Xml.Node) : Prop :=
  branch keep outer n = branch keep outer m

theorem exists_branch_of_markup {n : Xml.Node} (solid : n.isText = false) (keep : Bool) (outer : Xml.Namespaces) :
    ∃ b : Branch, branch keep outer n = [b] ∧ b.isText = false := by
  cases n with
  | text s => cases solid
  | _ => exact ⟨_, rfl, rfl⟩

theorem length_branch_of_markup {n : Xml.Node} (solid : n.isText = false) (keep : Bool) (outer : Xml.Namespaces) :
    (branch keep outer n).length = 1 := by
  rcases exists_branch_of_markup solid keep outer with ⟨b, same, -⟩
  rw [same]
  rfl

theorem length_branch_of_pairs {n m : Xml.Node} (paired : n.Pairs m) (keep : Bool) (outer : Xml.Namespaces) :
    (branch keep outer n).length = (branch keep outer m).length := by
  cases paired with
  | text s => rfl
  | markup solid solidToo => rw [length_branch_of_markup solid, length_branch_of_markup solidToo]

/-- Nodes in step are read alike exactly if each is read as its partner. -/
theorem branches_reverse_eq_iff {nodes others : List Xml.Node} (paired : List.Forall₂ Xml.Node.Pairs nodes others) :
    branches keep outer nodes.reverse = branches keep outer others.reverse ↔
      List.Forall₂ (AreAlike keep outer) nodes others := by
  induction paired with
  | nil => exact iff_of_true rfl .nil
  | cons last _ inductionHypothesis =>
      rw [List.reverse_cons, List.reverse_cons, branches_append, branches_append, List.forall₂_cons,
        ← inductionHypothesis, branches, branches, branches, branches, List.append_nil, List.append_nil]
      constructor
      · intro same
        rcases List.append_inj' same (length_branch_of_pairs last keep outer) with ⟨earlier, here⟩
        exact ⟨here, earlier⟩
      · rintro ⟨here, earlier⟩
        rw [here, earlier]

/-- Content in step is read alike exactly if each item is read as its partner: texts grow
together in the same way, whatever stands between them. -/
theorem branches_addAll_eq_iff {items itemsToo : List Item} (paired : List.Forall₂ Item.Pairs items itemsToo)
    {children others : Children} (alike : children.Pairs others) :
    branches keep outer (children.addAll items).reversed.reverse =
        branches keep outer (others.addAll itemsToo).reversed.reverse ↔
      List.Forall₂ (AreAlike keep outer) children.reversed others.reversed ∧
        List.Forall₂ (fun i j => AreAlike keep outer i.alone j.alone) items itemsToo := by
  induction paired generalizing children others with
  | nil => exact (branches_reverse_eq_iff alike.nodes).trans (and_iff_left .nil).symm
  | cons first _ inductionHypothesis =>
      cases first with
      | text chars =>
          rcases alike.addText chars with ⟨next, nodes⟩
          refine (inductionHypothesis next).trans ?_
          rw [nodes (AreAlike keep outer) fun _ => rfl, List.forall₂_cons]
          exact and_congr_right fun _ => (and_iff_right rfl).symm
      | node solid solidToo =>
          refine (inductionHypothesis (alike.addNode solid solidToo)).trans ?_
          change List.Forall₂ _ (_ :: children.reversed) (_ :: others.reversed) ∧ _ ↔ _
          rw [List.forall₂_cons, List.forall₂_cons, and_left_comm, and_assoc]
          exact Iff.rfl

theorem branches_grown_eq_iff {items others : List Item} (paired : List.Forall₂ Item.Pairs items others) :
    branches keep outer (Item.grown items) = branches keep outer (Item.grown others) ↔
      List.Forall₂ (fun i j => AreAlike keep outer i.alone j.alone) items others :=
  (branches_addAll_eq_iff paired ⟨rfl, .nil⟩).trans (and_iff_right .nil)

/-! ### Children on lines of their own -/

section Lines

variable {α : Type} {n m : α → Xml.Node} {before behind : List Char}

theorem apart_lines (as : List α) :
    Item.Apart (as.flatMap (fun a => [.text before, .node (m a)]) ++ [.text behind]) := by
  induction as with
  | nil => exact True.intro
  | cons a rest inductionHypothesis => exact ⟨rfl, Item.apart_cons_node inductionHypothesis⟩

theorem apart_compact (as : List α) : Item.Apart (as.flatMap fun a => [.node (n a)]) := by
  induction as with
  | nil => exact True.intro
  | cons a rest inductionHypothesis => exact Item.apart_cons_node inductionHypothesis

theorem branches_compact (keep : Bool) (outer : Xml.Namespaces) (as : List α) :
    branches keep outer (Item.grown (as.flatMap fun a => [.node (n a)])) = as.flatMap fun a => branch keep outer (n a) := by
  rw [Item.grown_of_apart (apart_compact as)]
  induction as with
  | nil => rfl
  | cons a rest inductionHypothesis =>
      rw [List.flatMap_cons, List.flatMap_cons, ← inductionHypothesis]
      rfl

/-- Where blanks do not count, those of the lines are dropped. -/
theorem branches_lines (beforeBlank : Text.isBlank (String.ofList before) = true)
    (behindBlank : Text.isBlank (String.ofList behind) = true) (outer : Xml.Namespaces) (as : List α) :
    branches false outer (Item.grown (as.flatMap (fun a => [.text before, .node (m a)]) ++ [.text behind])) =
      as.flatMap fun a => branch false outer (m a) := by
  have dropped {chars : List Char} (blank : Text.isBlank (String.ofList chars) = true) :
      branch false outer (.text (String.ofList chars)) = [] := by
    rw [branch, blank]
    rfl
  rw [Item.grown_of_apart (apart_lines as)]
  induction as with
  | nil => exact (List.append_nil _).trans (dropped behindBlank)
  | cons a rest inductionHypothesis =>
      rw [List.flatMap_cons, List.flatMap_cons, ← inductionHypothesis]
      change branch false outer (.text (String.ofList before)) ++ _ = _
      rw [dropped beforeBlank]
      rfl

/-- Where blanks count, the first of them stands before all children. -/
theorem branches_lines_ne (outer : Xml.Namespaces) {as : List α} (some : as ≠ []) (solid : ∀ a ∈ as, (n a).isText = false) :
    branches true outer (Item.grown (as.flatMap fun a => [.node (n a)])) ≠
      branches true outer (Item.grown (as.flatMap (fun a => [.text before, .node (m a)]) ++ [.text behind])) := by
  rcases List.exists_cons_of_ne_nil some with ⟨a, rest, rfl⟩
  rcases exists_branch_of_markup (solid a List.mem_cons_self) true outer with ⟨b, first, noText⟩
  rw [branches_compact, Item.grown_of_apart (apart_lines _), List.flatMap_cons, first]
  intro same
  have text : b = .node (.text (String.ofList before)) [] := (List.cons.inj same).1
  rw [text] at noText
  cases noText

theorem flatMap_branch_eq_iff {as : List α} (solid : ∀ a ∈ as, (n a).isText = false ∧ (m a).isText = false) :
    (as.flatMap fun a => branch keep outer (n a)) = (as.flatMap fun a => branch keep outer (m a)) ↔
      ∀ a ∈ as, AreAlike keep outer (n a) (m a) := by
  induction as with
  | nil => exact iff_of_true rfl nofun
  | cons a rest inductionHypothesis =>
      rw [List.forall_mem_cons] at solid ⊢
      rw [List.flatMap_cons, List.flatMap_cons, ← inductionHypothesis solid.2]
      constructor
      · intro same
        refine List.append_inj same ?_
        rw [length_branch_of_markup solid.1.1, length_branch_of_markup solid.1.2]
      · rintro ⟨here, later⟩
        rw [here, later]

/-- Children on lines of their own are read as the same children without lines exactly if
blanks do not count and each child is read alike. -/
theorem branches_lines_eq_iff (beforeBlank : Text.isBlank (String.ofList before) = true)
    (behindBlank : Text.isBlank (String.ofList behind) = true) {as : List α} (some : as ≠ [])
    (solid : ∀ a ∈ as, (n a).isText = false ∧ (m a).isText = false) (keep : Bool) (outer : Xml.Namespaces) :
    branches keep outer (Item.grown (as.flatMap fun a => [.node (n a)])) =
        branches keep outer (Item.grown (as.flatMap (fun a => [.text before, .node (m a)]) ++ [.text behind])) ↔
      keep = false ∧ ∀ a ∈ as, AreAlike keep outer (n a) (m a) := by
  cases keep with
  | true => exact iff_of_false (branches_lines_ne outer some fun a listed => (solid a listed).1) nofun
  | false =>
      rw [branches_compact, branches_lines beforeBlank behindBlank, flatMap_branch_eq_iff solid]
      exact (and_iff_right rfl).symm

end Lines

end Reading

/-! ## Where no line may be broken -/

namespace Branch

/-- Whether children are written on lines of their own, given whether a text stands among
them or around them. -/
def areLined (inline : Bool) (children : List Branch) : Bool :=
  !inline && !children.isEmpty

mutual

/-- Whether no line is broken where blanks count, given whether they count around the branch
and whether a text stands there. -/
def isSpared (keep inline : Bool) : Branch → Bool
  | .node (.element e) children =>
    let inside := inline || children.any isText
    !(areLined inside children && e.keepsBlanks keep) && areSpared (e.keepsBlanks keep) inside children
  | _ => true

def areSpared (keep inline : Bool) : List Branch → Bool
  | [] => true
  | b :: rest => b.isSpared keep inline && areSpared keep inline rest

end

theorem areSpared_iff {keep inline : Bool} {bs : List Branch} :
    areSpared keep inline bs = true ↔ ∀ b ∈ bs, b.isSpared keep inline = true := by
  induction bs with
  | nil => exact iff_of_true rfl nofun
  | cons b rest inductionHypothesis => rw [areSpared, Bool.and_eq_true, inductionHypothesis, List.forall_mem_cons]

theorem isSpared_of_not_element {content : NodeContent} (leaf : content.isElement = false) (keep inline : Bool)
    (children : List Branch) : (Branch.node content children).isSpared keep inline = true := by
  cases content with
  | element e => cases leaf
  | _ => rfl

end Branch

/-! ## Branches that are read twice -/

namespace Branch

open Xml (Item)
open Xml.Build (Reads ReadsAlike ReadsBoth)

/-- Whether content was read in step, once from compact text and once from text with broken
lines, and alike exactly where no line may be broken. -/
structure Spreads (outer : Xml.Namespaces) (inline : Bool) (bs : List Branch) (items others : List Item) : Prop where
  paired : List.Forall₂ Item.Pairs items others
  alike_iff : ∀ keep, List.Forall₂ (fun i j => Reading.AreAlike keep outer i.alone j.alone) items others ↔
    areSpared keep inline bs = true

/-- Whether the content of an element is read alike from both texts exactly if its children
are not on lines of their own where blanks count, and nothing in them is. -/
def SpreadsWithin (outer : Xml.Namespaces) (inside : Bool) (children : List Branch) (items others : List Item) : Prop :=
  ∀ keep, Reading.branches keep outer (Item.grown items) = Reading.branches keep outer (Item.grown others) ↔
    (!(areLined inside children && keep) && areSpared keep inside children) = true

variable {opt : WriteOptions} {outer : Xml.Namespaces} {inline raw : Bool}

namespace Spreads

theorem append {first second : List Branch} {a b c d : List Item} (before : Spreads outer inline first a c)
    (after : Spreads outer inline second b d) : Spreads outer inline (first ++ second) (a ++ b) (c ++ d) := by
  refine ⟨(forall₂_append_iff before.paired b d).mpr ⟨before.paired, after.paired⟩, fun keep => ?_⟩
  rw [forall₂_append_iff before.paired, before.alike_iff, after.alike_iff, areSpared_iff, areSpared_iff, areSpared_iff,
    List.forall_mem_append]

/-- One item that is read in the same way twice. -/
theorem single {b : Branch} {item : Item} (paired : item.Pairs item) (spared : ∀ keep, b.isSpared keep inline = true) :
    Spreads outer inline [b] [item] [item] := by
  refine ⟨.cons paired .nil, fun keep => iff_of_true (.cons rfl .nil) ?_⟩
  rw [areSpared, spared keep]
  rfl

/-- Texts are read in the same way twice. -/
theorem texts {bs : List Branch} (runs : ∀ b ∈ bs, IsRun raw b) {items : List Item}
    (same : items = [] ∨ ∃ whole, items = [.text whole]) : Spreads outer inline bs items items := by
  have spared (keep : Bool) : areSpared keep inline bs = true := by
    rw [areSpared_iff]
    intro b listed
    rcases runs b listed with ⟨s, children, rfl, -⟩
    exact isSpared_of_not_element rfl keep inline children
  refine ⟨?_, fun keep => iff_of_true (List.forall₂_same.mpr fun _ _ => rfl) (spared keep)⟩
  rcases same with rfl | ⟨whole, rfl⟩
  · exact .nil
  · exact .cons (.text whole) .nil

/-- Content without broken lines. -/
theorem within {children : List Branch} {items others : List Item} (spreads : Spreads outer true children items others) :
    SpreadsWithin outer true children items others := by
  intro keep
  rw [Reading.branches_grown_eq_iff spreads.paired, spreads.alike_iff]
  rfl

end Spreads

/-- A run of texts is read in the same way twice. -/
theorem readsBoth_run {bs : List Branch} (runs : ∀ b ∈ bs, IsRun raw b)
    (noEnd : Text.hasPiece "]]>".toList (runText raw bs) = false) :
    ReadsBoth false outer (runText raw bs) (runText raw bs) (Spreads outer inline bs) := by
  apply ReadsBoth.of_alike
  by_cases nothing : runText raw bs = []
  · rw [nothing]
    refine (ReadsAlike.nil outer).of_closed.of_imp fun items none => ?_
    exact Spreads.texts runs (Or.inl none)
  · refine (ReadsAlike.text (spells_runText runs) nothing (of_mem_runText runs) noEnd).of_imp ?_
    rintro items ⟨whole, same, -⟩
    exact Spreads.texts runs (Or.inr ⟨whole, same⟩)

/-- Markup behind each other is read as what each is read as. -/
theorem reads_markups {α : Type} {as : List α} {written : α → List Char} {items : α → List Item}
    (markup : ∀ a ∈ as, Reads true outer (written a) (· = items a)) :
    Reads true outer (as.flatMap written) (· = as.flatMap items) := by
  induction as with
  | nil => exact .nil outer
  | cons a rest inductionHypothesis =>
      rw [List.forall_mem_cons] at markup
      refine (markup.1.append (inductionHypothesis markup.2) (Or.inl rfl)).of_imp ?_
      rintro _ ⟨_, _, rfl, rfl, rfl⟩
      rfl

/-! ### Markup -/

/-- Whether a branch that is no run was read as one item from each text, and alike exactly
where no line may be broken. -/
def SpreadsAlone (outer : Xml.Namespaces) (inline : Bool) (b : Branch) (items others : List Item) : Prop :=
  (∃ i j, items = [i] ∧ others = [j] ∧ i.isText = b.isText) ∧ Spreads outer inline [b] items others

/-- Whether a branch that is no run can be read from both texts. -/
def ReadsInStep (opt : WriteOptions) (outer : Xml.Namespaces) (depth : Nat) (inline raw : Bool) (b : Branch) : Prop :=
  ReadsBoth true outer (Written.branch {} depth inline raw b).toList (Written.branch opt depth inline raw b).toList
    (SpreadsAlone outer inline b)

theorem SpreadsAlone.exists_nodes {b : Branch} (markup : b.isText = false) {items others : List Item}
    (spreads : SpreadsAlone outer inline b items others) :
    ∃ n m : Xml.Node, items = [.node n] ∧ others = [.node m] ∧ (n.isText = false ∧ m.isText = false) ∧
      ∀ keep, Reading.AreAlike keep outer n m ↔ b.isSpared keep inline = true := by
  rcases spreads with ⟨⟨i, j, rfl, rfl, same⟩, paired, alike⟩
  rcases List.forall₂_cons.mp paired with ⟨both, -⟩
  cases both with
  | text chars =>
      rw [markup] at same
      cases same
  | @node n m solid solidToo =>
      refine ⟨n, m, rfl, rfl, ⟨solid, solidToo⟩, fun keep => ?_⟩
      have one := alike keep
      rw [List.forall₂_cons, areSpared, areSpared, Bool.and_true] at one
      exact (and_iff_left .nil).symm.trans one

theorem readsInStep_remark {c : NodeContent} {r : Xml.Remark} (found : c.remark? = some r) {children : List Branch}
    (writable : (Branch.node c children).isWritable outer = true) (depth : Nat) (inline raw : Bool) :
    ReadsInStep opt outer depth inline raw (.node c children) := by
  have leaf := NodeContent.leaf_of_remark? found
  have solid : r.node.isText = false := by cases r <;> rfl
  rw [ReadsInStep, NodeContent.toList_branch found, NodeContent.toList_branch found]
  refine ReadsBoth.of_alike ((ReadsAlike.remark (isReadable_of_remark? found writable)).of_imp ?_)
  rintro _ rfl
  exact ⟨⟨_, _, rfl, rfl, leaf.2.symm⟩,
    .single (.node solid solid) fun keep => isSpared_of_not_element leaf.1 keep inline children⟩

theorem readsInStep_section {s : String} {raw : Bool} {children : List Branch}
    (writable : (Branch.node (.text s) children).isWritable outer = true) (noRun : Written.run? raw s = none)
    (depth : Nat) (inline : Bool) : ReadsInStep opt outer depth inline raw (.node (.text s) children) := by
  rw [isWritable, List.all_eq_true] at writable
  rcases Written.toList_text_of_none noRun with ⟨sectioned, absent⟩
  have text (opt : WriteOptions) :
      (Written.branch opt depth inline raw (.node (.text s) children)).toList = (Written.text raw s).toList :=
    rfl
  rw [ReadsInStep, text, text, sectioned]
  refine ReadsBoth.of_alike ((ReadsAlike.characterSection writable absent).of_imp ?_)
  rintro _ rfl
  exact ⟨⟨_, _, rfl, rfl, rfl⟩, .single (.text _) fun keep => isSpared_of_not_element rfl keep inline children⟩

/-! ### Elements -/

/-- An element is read alike exactly if its content is. -/
theorem Spreads.element {e : Element} {children : List Branch} {kids kidsToo : List Item}
    (writable : e.isWritable outer = true) (spares : outer.SparesXml) (spells : e.SpellsXml)
    (within : SpreadsWithin (e.scope outer) (inline || children.any isText) children kids kidsToo) :
    Spreads outer inline [.node (.element e) children]
      [.node (Reads.elementOf (Xml.Build.tagOf outer e.tagName e.spelledAttributes) kids)]
      [.node (Reads.elementOf (Xml.Build.tagOf outer e.tagName e.spelledAttributes) kidsToo)] := by
  refine ⟨.cons (.node rfl rfl) .nil, fun keep => ?_⟩
  have inside := within (e.keepsBlanks keep)
  rw [← Element.keepsBlanks_tagOf writable spares spells keep] at inside
  rw [List.forall₂_cons, and_iff_left .nil, areSpared, areSpared, Bool.and_true, isSpared,
    ← Element.keepsBlanks_tagOf writable spares spells keep]
  refine Iff.trans ?_ inside
  change [Branch.node _ _] = [Branch.node _ _] ↔ _
  rw [List.cons.injEq, Branch.node.injEq]
  exact ⟨fun same => same.1.2, fun same => ⟨⟨rfl, same⟩, rfl⟩⟩

theorem spreadsWithin_nil (outer : Xml.Namespaces) (inside : Bool) : SpreadsWithin outer inside [] [] [] := by
  intro keep
  refine iff_of_true rfl ?_
  rw [areLined, List.isEmpty_nil, Bool.not_true, Bool.and_false, Bool.false_and]
  rfl

/-- Content without a text among it is read from both texts. -/
theorem readsBoth_lines (pretty : opt.pretty = true) {children : List Branch} {depth : Nat} (some : children ≠ [])
    (noText : ∀ b ∈ children, b.isText = false)
    (markup : ∀ b ∈ children, (∃ more, (Written.branch opt (depth + 1) false raw b).toList = '<' :: more) ∧
      ReadsInStep opt outer (depth + 1) false raw b) :
    ReadsBoth false outer (children.flatMap fun b => (Written.branch {} (depth + 1) false raw b).toList)
      (children.flatMap (fun b => (Written.lineStart opt (depth + 1)).toList ++
        (Written.branch opt (depth + 1) false raw b).toList) ++ (Written.lineStart opt depth).toList)
      (SpreadsWithin outer false children) := by
  have each : ∀ b ∈ children, ∃ n m : Xml.Node,
      Reads true outer (Written.branch {} (depth + 1) false raw b).toList (· = [.node n]) ∧
      Reads true outer (Written.branch opt (depth + 1) false raw b).toList (· = [.node m]) ∧
      (n.isText = false ∧ m.isText = false) ∧
      ∀ keep, Reading.AreAlike keep outer n m ↔ b.isSpared keep false = true := by
    intro b listed
    rcases (markup b listed).2 with ⟨items, others, spreads, reads, readsToo⟩
    rcases spreads.exists_nodes (noText b listed) with ⟨n, m, rfl, rfl, solid, alike⟩
    exact ⟨n, m, reads, readsToo, solid, alike⟩
  have : Nonempty Xml.Node := ⟨.comment ""⟩
  choose! n m reads readsToo solid alike using each
  rcases reads_lines (Written.isXmlSpace_lineStart opt (depth + 1)) (Written.isXmlSpace_lineStart opt depth)
    (Written.lineStart_ne_nil pretty (depth + 1)) (Written.lineStart_ne_nil pretty depth)
    (fun b listed => ⟨(markup b listed).1, readsToo b listed⟩) with ⟨before, behind, beforeBlank, behindBlank, readsLines⟩
  have blank {chars : List Char} (spaces : ∀ c ∈ chars, Text.isXmlSpace c = true) :
      Text.isBlank (String.ofList chars) = true := by
    rw [Text.isBlank, String.toList_ofList, List.all_eq_true]
    exact fun c listed => Text.isWhiteSpace_of_isXmlSpace (spaces c listed)
  refine ⟨_, _, ?_, (reads_markups reads).of_closed, readsLines⟩
  intro keep
  refine (Reading.branches_lines_eq_iff (blank beforeBlank) (blank behindBlank) some solid keep outer).trans ?_
  have nonempty : children.isEmpty = false := by rwa [List.isEmpty_eq_false_iff]
  rw [Bool.and_eq_true, areSpared_iff, areLined, nonempty, Bool.not_false, Bool.true_and, Bool.true_and,
    Bool.not_eq_true']
  exact and_congr_right fun _ => forall₂_congr fun b listed => alike b listed keep

/-- Content without broken lines is read from both texts. -/
theorem readsBoth_inline {children : List Branch} {depth : Nat} (writable : areWritable outer raw [] children = true)
    (markup : ∀ b ∈ children, b.isWritable outer = true → b.run? raw = none →
      ReadsInStep opt outer (depth + 1) true raw b) :
    ReadsBoth false outer (children.flatMap fun b => (Written.branch {} (depth + 1) true raw b).toList)
      (children.flatMap fun b => (Written.branch opt (depth + 1) true raw b).toList)
      (SpreadsWithin outer true children) := by
  let written (opt : WriteOptions) (b : Branch) : List Char := (Written.branch opt (depth + 1) true raw b).toList
  refine (@readsBoth_children outer raw (written {}) (written opt) (Spreads outer true) ?_ ?_ [] children nofun
    writable ?_ ?_).of_imp fun _ _ spreads => spreads.within
  · exact fun _ _ _ _ _ _ before after => before.append after
  · exact fun bs runs noEnd => readsBoth_run runs noEnd
  · exact fun b _ more found => ⟨toList_of_run? found _ _, toList_of_run? found _ _⟩
  · intro b listed here noRun
    have begins (opt : WriteOptions) := (readsMarkup opt outer (depth + 1) true raw b here noRun).1
    exact ⟨begins {}, begins opt, (markup b listed here noRun).of_imp fun _ _ spreads => spreads.2⟩

/-- The content of an element is read from both texts if the markup in it is. -/
theorem readsBoth_content (pretty : opt.pretty = true) {inside : Bool} {children : List Branch} {depth : Nat}
    (some : children ≠ []) (texts : children.any isText = true → inside = true)
    (writable : areWritable outer raw [] children = true)
    (markup : ∀ b ∈ children, b.isWritable outer = true → b.run? raw = none →
      ReadsInStep opt outer (depth + 1) inside raw b) :
    ReadsBoth false outer
      (children.flatMap (fun b => (Written.gap {} (depth + 1) inside).toList ++
        (Written.branch {} (depth + 1) inside raw b).toList) ++ (Written.gap {} depth inside).toList)
      (children.flatMap (fun b => (Written.gap opt (depth + 1) inside).toList ++
        (Written.branch opt (depth + 1) inside raw b).toList) ++ (Written.gap opt depth inside).toList)
      (SpreadsWithin outer inside children) := by
  have compact (depth : Nat) : Written.gap {} depth inside = "" := Written.gap_of_compact (Bool.or_true inside) depth
  rw [compact, compact]
  cases inside with
  | true =>
      have inlined (depth : Nat) : Written.gap opt depth true = "" := rfl
      rw [inlined, inlined]
      change ReadsBoth false outer (children.flatMap (fun b => (Written.branch {} (depth + 1) true raw b).toList) ++ [])
        (children.flatMap (fun b => (Written.branch opt (depth + 1) true raw b).toList) ++ []) _
      rw [List.append_nil, List.append_nil]
      exact readsBoth_inline writable markup
  | false =>
      have noText := not_text_of_broken texts rfl
      change ReadsBoth false outer (children.flatMap (fun b => (Written.branch {} (depth + 1) false raw b).toList) ++ [])
        _ _
      rw [List.append_nil]
      refine readsBoth_lines pretty some noText fun b listed => ?_
      have here := isWritable_of_mem writable b listed
      have noRun := run?_of_not_text (noText b listed) raw
      exact ⟨(readsMarkup opt outer (depth + 1) false raw b here noRun).1, markup b listed here noRun⟩

theorem readsInStep_element (pretty : opt.pretty = true) {e : Element} {children : List Branch}
    (writable : e.isWritable outer = true) (spares : outer.SparesXml) (spells : e.SpellsXml)
    (inside : areWritable (e.scope outer) (Written.isRaw e) [] children = true) {depth : Nat} {inline : Bool}
    (markup : ∀ b ∈ children, b.isWritable (e.scope outer) = true → b.run? (Written.isRaw e) = none →
      ReadsInStep opt (e.scope outer) (depth + 1) (inline || children.any isText) (Written.isRaw e) b) (raw : Bool) :
    ReadsInStep opt outer depth inline raw (.node (.element e) children) := by
  have readable := Element.readableTag writable
  rcases children with _ | ⟨child, rest⟩
  · rw [ReadsInStep, Written.toList_leaf_element writable, Written.toList_leaf_element writable]
    refine ReadsBoth.of_alike ((ReadsAlike.emptyElement readable).of_imp ?_)
    rintro _ rfl
    exact ⟨⟨_, _, rfl, rfl, rfl⟩, .element writable spares spells (spreadsWithin_nil _ _)⟩
  · have some := List.cons_ne_nil child rest
    rw [ReadsInStep, Written.toList_branch_element writable {} depth inline raw some,
      Written.toList_branch_element writable opt depth inline raw some]
    have content := readsBoth_content pretty some (fun text => by rw [text, Bool.or_true]) inside markup
    refine (content.element readable).of_imp ?_
    rintro _ _ ⟨kids, kidsToo, rfl, rfl, within⟩
    exact ⟨⟨_, _, rfl, rfl, rfl⟩, .element writable spares spells within⟩

mutual

/-- A writable branch that is no run is read in step from both texts. -/
theorem readsInStep (pretty : opt.pretty = true) (outer : Xml.Namespaces) (spares : outer.SparesXml) (depth : Nat)
    (inline raw : Bool) : ∀ b : Branch, b.isWritable outer = true → b.Fits Element.SpellsXml → b.run? raw = none →
      ReadsInStep opt outer depth inline raw b
  | .node (.element e) children, writable, spells, _ => by
    rw [isWritable, Bool.and_eq_true] at writable
    exact readsInStep_element pretty writable.1 spares (spells.1 e rfl) writable.2
      (readsInStep_of_mem pretty (e.scope outer) (spares.scope _) (depth + 1) (inline || children.any isText)
        (Written.isRaw e) children spells.2.2) raw
  | .node (.text _) _, writable, _, noRun => readsInStep_section writable noRun depth inline
  | .node (.comment _) _, writable, _, _ => readsInStep_remark rfl writable depth inline raw
  | .node (.instruction _ _) _, writable, _, _ => readsInStep_remark rfl writable depth inline raw
  | .node .root _, writable, _, _ => nomatch writable
  | .node (.doctype _) _, writable, _, _ => nomatch writable

theorem readsInStep_of_mem (pretty : opt.pretty = true) (outer : Xml.Namespaces) (spares : outer.SparesXml)
    (depth : Nat) (inline raw : Bool) : ∀ bs : List Branch, AllFit Element.SpellsXml bs →
      ∀ b ∈ bs, b.isWritable outer = true → b.run? raw = none → ReadsInStep opt outer depth inline raw b
  | [], _, _, listed => nomatch listed
  | first :: rest, spells, b, listed =>
    (List.mem_cons.mp listed).elim
      (fun same writable noRun => same ▸ readsInStep pretty outer spares depth inline raw first (same ▸ writable)
        spells.1 (same ▸ noRun))
      (readsInStep_of_mem pretty outer spares depth inline raw rest spells.2 b)

end

end Branch

/-! ## Documents -/

namespace Layout

variable {opt : WriteOptions} {l : Layout}

/-- The content of the root element is read from both texts. -/
theorem exists_items (pretty : opt.pretty = true) (writable : l.isWritable = true)
    (spells : l.rootBranch.Fits Element.SpellsXml) :
    ∃ items others, Branch.SpreadsWithin (l.root.scope []) (l.content.any Branch.isText) l.content items others ∧
      (∀ cs, (l.manuscript {}).content = some cs → Xml.Build.Reads false (l.root.scope []) cs (· = items)) ∧
      ((l.manuscript {}).content = none → [] = items) ∧
      (∀ cs, (l.manuscript opt).content = some cs → Xml.Build.Reads false (l.root.scope []) cs (· = others)) ∧
      ((l.manuscript opt).content = none → [] = others) := by
  rcases isWritable_iff.mp writable with ⟨-, -, -, -, content, -⟩
  change ∃ items others, _ ∧ (∀ cs, l.inside {} = some cs → _) ∧ (l.inside {} = none → _) ∧
    (∀ cs, l.inside opt = some cs → _) ∧ (l.inside opt = none → _)
  rw [inside, inside]
  by_cases empty : l.content = []
  · rw [empty]
    exact ⟨[], [], Branch.spreadsWithin_nil _ _, by simp, fun _ => rfl, by simp, fun _ => rfl⟩
  · have reads := Branch.readsBoth_content pretty empty (fun text => text) content
      (Branch.readsInStep_of_mem pretty (l.root.scope []) (Xml.Namespaces.sparesXml_nil.scope _) 1 _
        (Written.isRaw l.root) l.content spells.2.2)
    rcases reads with ⟨items, others, within, reads, readsToo⟩
    have nonempty : ¬ l.content.isEmpty = true := by rwa [List.isEmpty_iff]
    rw [if_neg nonempty, if_neg nonempty]
    refine ⟨items, others, within, ?_, by simp, ?_, by simp⟩
    · rintro _ ⟨⟩
      exact reads
    · rintro _ ⟨⟩
      exact readsToo

theorem rootBranch_mem_branches (l : Layout) : l.rootBranch ∈ l.branches := by
  simp [branches]

/-- Only in the root element lines may be broken where blanks count. -/
theorem isSpared_branches_iff :
    (∀ b ∈ l.branches, b.isSpared false false = true) ↔ l.rootBranch.isSpared false false = true := by
  have remarks (rs : List Xml.Remark) : ∀ b ∈ rs.map (·.branch), b.isSpared false false = true := by
    rw [List.forall_mem_map]
    intro r _
    cases r <;> rfl
  have declaration : ∀ b ∈ l.declarationBranches, b.isSpared false false = true := by
    intro b listed
    rcases Option.map_eq_some_iff.mp (Option.mem_toList.mp listed) with ⟨d, -, rfl⟩
    rfl
  have doctype : ∀ b ∈ l.doctypeBranches, b.isSpared false false = true := by
    rw [doctypeBranches]
    cases l.doctype with
    | none => exact List.forall_mem_nil _
    | some both => exact List.forall_mem_cons.mpr ⟨rfl, remarks both.2⟩
  constructor
  · exact fun spared => spared l.rootBranch l.rootBranch_mem_branches
  · intro spared
    rw [branches]
    simp only [List.forall_mem_append, List.forall_mem_cons]
    exact ⟨declaration, remarks _, doctype, spared, remarks _⟩

end Layout

namespace Document

/-- The compact text of a document and one with broken lines are read as the same branches
exactly if no element in which blanks count has its children on lines of their own. -/
theorem line_breaks_are_dropped_iff {text : String} {name : Option String} {doc : Document}
    (parsed : Document.read text name = .ok doc) {l : Layout} (laidOut : doc.branches = l.branches)
    (writable : l.isWritable = true) (recoverable : l.isRecoverable = true) {opt : WriteOptions}
    (pretty : opt.pretty = true) (nameAgain : Option String) :
    ∃ compact lined, Document.read (doc.written {}) nameAgain = .ok compact ∧
      Document.read (doc.written opt) nameAgain = .ok lined ∧
      (lined.branches = compact.branches ↔ ∀ b ∈ doc.branches, b.isSpared false false = true) := by
  have spells : l.rootBranch.Fits Element.SpellsXml :=
    Branch.fits_of_mem (allFit_spellsXml_of_read parsed) l.rootBranch (laidOut ▸ l.rootBranch_mem_branches)
  rcases Layout.exists_items pretty writable spells with ⟨items, others, within, reads, empty, readsToo, emptyToo⟩
  rcases Xml.read_text (l.readable_manuscript {} writable) reads empty with ⟨f, found⟩
  rcases Xml.read_text (l.readable_manuscript opt writable) readsToo emptyToo with ⟨g, foundToo⟩
  refine ⟨ofBranches ((Reading.placedBranches (l.manuscript {}).text f.placed).flatMap (·.2)),
    ofBranches ((Reading.placedBranches (l.manuscript opt).text g.placed).flatMap (·.2)), ?_, ?_, ?_⟩
  · rw [Document.read, l.toList_written {} writable laidOut, found]
  · rw [Document.read, l.toList_written opt writable laidOut, foundToo]
  · rcases Layout.isWritable_iff.mp writable with ⟨-, -, -, root, -, -⟩
    have spreads : Branch.Spreads [] false [l.rootBranch] _ _ :=
      .element root Xml.Namespaces.sparesXml_nil (spells.1 l.root rfl) within
    have alike := spreads.alike_iff false
    rw [List.forall₂_cons, and_iff_left .nil, Branch.areSpared_iff, List.forall_mem_singleton] at alike
    rw [branches_ofBranches, branches_ofBranches, Layout.flatMap_placedBranches f writable recoverable,
      Layout.flatMap_placedBranches g writable recoverable, Layout.surround_inj, f.cameFrom.eq_tagOf,
      g.cameFrom.eq_tagOf, f.holds, g.holds, laidOut, Layout.isSpared_branches_iff]
    exact eq_comm.trans alike

/-- Lines are broken in a group, but not where a text stands, and all breaks are dropped. -/
theorem line_breaks_of_group_are_dropped :
    ∃ doc compact lined, Document.read "<svg><g><rect/></g><text>a<tspan/></text></svg>" none = .ok doc ∧
      doc.written { pretty := true, indent := 2 } =
        "<svg>\n  <g>\n    <rect/>\n  </g>\n  <text>a<tspan/></text>\n</svg>" ∧
      Document.read (doc.written {}) none = .ok compact ∧
      Document.read (doc.written { pretty := true, indent := 2 }) none = .ok lined ∧
      lined.branches = compact.branches := by
  let l : Layout :=
    { declaration := none, before := [], doctype := none, root := .ofName "svg"
      content := [.node (.element (.ofName "g")) [.node (.element (.ofName "rect")) []],
        .node (.element (.ofName "text")) [.node (.text "a") [], .node (.element (.ofName "tspan")) []]]
      after := [] }
  have writable : l.isWritable = true := by decide +kernel
  have faithful : l.isFaithful = true := by decide +kernel
  have text : String.ofList (l.manuscript {}).text = "<svg><g><rect/></g><text>a<tspan/></text></svg>" := by
    decide +kernel
  have typed : l.rootBranch.Fits Element.Typed := by
    have bare (name : String) : (Element.ofName name).Typed := ⟨List.nodup_nil, nofun⟩
    simp [l, Layout.rootBranch, Branch.Fits, Branch.AllFit, NodeContent.isElement, bare]
  rcases exists_read_text writable faithful typed none with ⟨doc, parsed, laidOut⟩
  rw [text] at parsed
  have lines : doc.written { pretty := true, indent := 2 } =
      "<svg>\n  <g>\n    <rect/>\n  </g>\n  <text>a<tspan/></text>\n</svg>" := by
    rw [written, laidOut]
    decide +kernel
  rcases line_breaks_are_dropped_iff parsed laidOut writable (Layout.isRecoverable_of_isFaithful faithful)
    (show WriteOptions.pretty { pretty := true, indent := 2 } = true from rfl) none with
      ⟨compact, lined, read, readToo, same⟩
  have spared : ∀ b ∈ doc.branches, b.isSpared false false = true := by
    rw [laidOut, ← List.all_eq_true]
    decide +kernel
  exact ⟨doc, compact, lined, parsed, lines, read, readToo, same.mpr spared⟩

/-- A text element without a text among its children gets broken lines, but its blanks count. -/
theorem line_breaks_show_in_text :
    ∃ doc compact lined, Document.read "<svg><text><tspan/></text></svg>" none = .ok doc ∧
      Document.read (doc.written {}) none = .ok compact ∧
      Document.read (doc.written { pretty := true, lineEnd := .crlf }) none = .ok lined ∧
      lined.branches ≠ compact.branches := by
  have first : ((Document.read "<svg><text><tspan/></text></svg>" none).toOption.map fun doc =>
      (doc.written {}, doc.written { pretty := true, lineEnd := .crlf })) =
        some ("<svg><text><tspan/></text></svg>",
          "<svg>\r\n    <text>\r\n        <tspan/>\r\n    </text>\r\n</svg>") := by
    decide +kernel
  have second : ((Document.read "<svg>\r\n    <text>\r\n        <tspan/>\r\n    </text>\r\n</svg>" none).toOption.map
      (·.written {})) = some "<svg><text>\n        <tspan/>\n    </text></svg>" := by
    decide +kernel
  rcases Option.map_eq_some_iff.mp first with ⟨doc, parsed, texts⟩
  rcases Option.map_eq_some_iff.mp second with ⟨lined, parsedLined, textLined⟩
  rw [toOption_eq_some] at parsed parsedLined
  rw [Prod.mk.injEq] at texts
  refine ⟨doc, doc, lined, parsed, ?_, ?_, fun same => ?_⟩
  · rw [texts.1]
    exact parsed
  · rw [texts.2]
    exact parsedLined
  · have alike : lined.written {} = doc.written {} := by rw [written, written, same]
    rw [textLined, texts.1] at alike
    exact absurd alike (by decide)

end Document

end SlimSvg
