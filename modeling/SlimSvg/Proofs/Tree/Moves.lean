import SlimSvg.Proofs.Attempt
import SlimSvg.Proofs.Tree.Pruning
import SlimSvg.Proofs.Tree.Reading

namespace SlimSvg

/-!
# Every edit of a tree

A node may be put somewhere, moved and taken out, its text may be replaced, and what it
holds may be changed.  Each of these edits writes to parents and to lists of children, some
of them by way of another edit, and none of them looks at where a node is moved to: a node
may even come to stand below itself.  Parents and children say the same all the same, and
what an edit does not name stays where it is among its siblings.
-/

/-! ## Edits -/

/-- An edit of a document. -/
inductive TreeEdit where
  | append (parent : NodeId) (content : NodeContent)
  | insert (parent : NodeId) (index : Nat) (content : NodeContent)
  | detach (node : NodeId)
  | reattach (node parent : NodeId) (index : Nat)
  | setText (node : NodeId) (text : String)
  | modifyContent (node : NodeId) (change : NodeContent → NodeContent)

namespace TreeEdit

def apply (doc : Document) : TreeEdit → Document
  | append parent content => (doc.append parent content).2
  | insert parent index content => (doc.insertAt parent index content).2
  | detach node => doc.detach node
  | reattach node parent index => doc.reattach node parent index
  | setText node text => doc.setText node text
  | modifyContent node change => doc.modifyContent node change

/-- Whether an edit names only nodes that exist, and no place behind the last child.  An
index that is too large is allowed where a node is moved. -/
def Allowed (doc : Document) : TreeEdit → Prop
  | append parent _ => parent.index < doc.nodes.size
  | insert parent index _ => parent.index < doc.nodes.size ∧ index ≤ (doc.children parent).length
  | reattach node parent _ => node.index < doc.nodes.size ∧ parent.index < doc.nodes.size
  | detach node | setText node _ | modifyContent node _ => node.index < doc.nodes.size

/-- The nodes that an edit puts somewhere, moves or takes out. -/
def moved (doc : Document) : TreeEdit → List NodeId
  | append _ _ | insert _ _ _ => [⟨doc.nodes.size⟩]
  | detach node | reattach node _ _ => [node]
  | setText node _ => ⟨doc.nodes.size⟩ :: doc.children node
  | modifyContent _ _ => []

end TreeEdit

/-- Documents that certain edits lead to. -/
inductive Document.Reaches (permits : TreeEdit → Prop) (start : Document) : Document → Prop
  | start : Reaches permits start start
  | edit {doc : Document} (e : TreeEdit) (reached : Reaches permits start doc) (permitted : permits e)
      (allowed : e.Allowed doc) : Reaches permits start (e.apply doc)

theorem Document.Reaches.trans {permits : TreeEdit → Prop} {start middle last : Document}
    (first : start.Reaches permits middle) (second : middle.Reaches permits last) : start.Reaches permits last := by
  induction second with
  | start => exact first
  | edit e _ permitted allowed inductionHypothesis => exact .edit e inductionHypothesis permitted allowed

/-! ## Lists without some members -/

section Lists

variable {α : Type} {p q : α → Bool}

/-- An item that goes out may as well not have been put in. -/
theorem filter_insertIdx [DecidableEq α] {a : α} {gone : List α} (out : a ∈ gone) (xs : List α) (index : Nat) :
    (xs.insertIdx index a).filter (· ∉ gone) = xs.filter (· ∉ gone) := by
  have refused : ¬ decide (a ∉ gone) = true := by
    rw [decide_eq_true_eq]
    exact not_not.mpr out
  induction xs generalizing index with
  | nil =>
      cases index with
      | zero => exact List.filter_cons_of_neg refused
      | succ index => rfl
  | cons x rest inductionHypothesis =>
      cases index with
      | zero => exact List.filter_cons_of_neg refused
      | succ index => rw [List.insertIdx_succ_cons, List.filter_cons, List.filter_cons, inductionHypothesis]

/-- A weaker filter goes under in a stronger one. -/
theorem filter_filter_of_imp (implies : ∀ a, p a = true → q a = true) (xs : List α) :
    (xs.filter q).filter p = xs.filter p := by
  rw [List.filter_filter]
  apply List.filter_congr
  intro a _
  cases holds : p a with
  | true => rw [implies a holds]; rfl
  | false => rfl

end Lists

namespace Document

/-! ## Moving a node -/

section Reattach

variable {doc : Document} {id parent : NodeId} (index : Nat)

/-- The children that are left when the moved node has gone. -/
def childrenWithout (doc : Document) (id other : NodeId) : List NodeId :=
  (doc.children other).filter (· != id)

theorem size_reattach (doc : Document) (id parent : NodeId) (index : Nat) :
    (doc.reattach id parent index).nodes.size = doc.nodes.size := by
  simp only [reattach, modifyChildren, modifyNode, Array.size_modify, size_detach]

/-- A moved node stands below its new parent, among the children that are left there. -/
theorem node_reattach (links : doc.Linked) (inside : id.index < doc.nodes.size)
    (parentInside : parent.index < doc.nodes.size) (other : NodeId) :
    (doc.reattach id parent index).node other =
      { parent := if other = id then some parent else doc.parent? other
        children :=
          if other = parent then
            (doc.childrenWithout id other).insertIdx (min index (doc.childrenWithout id other).length) id
          else doc.childrenWithout id other
        content := doc.content other } := by
  have room : parent.index < (doc.detach id).nodes.size := by
    rw [size_detach]
    exact parentInside
  have roomToo : ∀ f, id.index < ((doc.detach id).modifyChildren parent f).nodes.size := by
    intro f
    rw [modifyChildren, modifyNode, Array.size_modify, size_detach]
    exact inside
  rw [reattach, node_modifyNode _ id other _ (roomToo _), modifyChildren, node_modifyNode _ parent other _ room,
    node_detach id links other]
  by_cases same : other = id
  · by_cases below : other = parent
    · simp only [if_pos same, if_pos below, childrenWithout]
    · simp only [if_pos same, if_neg below, childrenWithout]
  · by_cases below : other = parent
    · simp only [if_neg same, if_pos below, childrenWithout]
    · simp only [if_neg same, if_neg below, childrenWithout]

theorem parent?_reattach (links : doc.Linked) (inside : id.index < doc.nodes.size)
    (parentInside : parent.index < doc.nodes.size) (other : NodeId) :
    (doc.reattach id parent index).parent? other = if other = id then some parent else doc.parent? other := by
  rw [parent?, node_reattach index links inside parentInside]

theorem children_reattach (links : doc.Linked) (inside : id.index < doc.nodes.size)
    (parentInside : parent.index < doc.nodes.size) (other : NodeId) :
    (doc.reattach id parent index).children other =
      if other = parent then
        (doc.childrenWithout id other).insertIdx (min index (doc.childrenWithout id other).length) id
      else doc.childrenWithout id other := by
  rw [children, node_reattach index links inside parentInside]

theorem mem_childrenWithout {child other : NodeId} :
    child ∈ doc.childrenWithout id other ↔ child ∈ doc.children other ∧ child ≠ id := by
  rw [childrenWithout, List.mem_filter, bne_iff_ne]

theorem Linked.reattach (links : doc.Linked) (inside : id.index < doc.nodes.size)
    (parentInside : parent.index < doc.nodes.size) : (doc.reattach id parent index).Linked where
  mem_children := by
    intro child other
    rw [children_reattach index links inside parentInside, parent?_reattach index links inside parentInside]
    by_cases same : child = id
    · rw [if_pos same, same]
      split
      · next here =>
        rw [List.mem_insertIdx (Nat.min_le_right _ _), here]
        exact ⟨fun _ => rfl, fun _ => Or.inl rfl⟩
      · next elsewhere =>
        rw [mem_childrenWithout]
        exact ⟨fun listed => absurd rfl listed.2, fun linked => absurd (Option.some.inj linked).symm elsewhere⟩
    · rw [if_neg same]
      split
      · rw [List.mem_insertIdx (Nat.min_le_right _ _), mem_childrenWithout, links.mem_children]
        exact ⟨fun listed => (listed.resolve_left same).1, fun linked => Or.inr ⟨linked, same⟩⟩
      · rw [mem_childrenWithout, links.mem_children]
        exact ⟨fun listed => listed.1, fun linked => ⟨linked, same⟩⟩
  nodup_children := by
    intro other
    have distinct : (doc.childrenWithout id other).Nodup := (links.nodup_children other).filter _
    rw [children_reattach index links inside parentInside]
    split
    · rw [(List.perm_insertIdx _ _ (Nat.min_le_right _ _)).nodup_iff, List.nodup_cons, mem_childrenWithout]
      exact ⟨fun listed => listed.2 rfl, distinct⟩
    · exact distinct

end Reattach

/-! ## Taking out several nodes, and replacing a text -/

section SetText

variable {doc : Document}

theorem Linked.foldl_detach (links : doc.Linked) (nodes : List NodeId) : (nodes.foldl Document.detach doc).Linked := by
  induction nodes generalizing doc with
  | nil => exact links
  | cons node rest inductionHypothesis => exact inductionHypothesis (links.detach node)

theorem size_foldl_detach (nodes : List NodeId) : (nodes.foldl detach doc).nodes.size = doc.nodes.size := by
  induction nodes generalizing doc with
  | nil => rfl
  | cons node rest inductionHypothesis => rw [List.foldl_cons, inductionHypothesis, size_detach]

theorem parent?_foldl_detach (links : doc.Linked) (nodes : List NodeId) (other : NodeId) :
    (nodes.foldl detach doc).parent? other = if other ∈ nodes then none else doc.parent? other := by
  induction nodes generalizing doc with
  | nil => rfl
  | cons node rest inductionHypothesis =>
      rw [List.foldl_cons, inductionHypothesis (links.detach node), parent?_detach node links]
      by_cases same : other = node
      · simp only [same, List.mem_cons, true_or, if_true, ite_self]
      · simp only [same, List.mem_cons, false_or, if_false]

theorem children_foldl_detach (links : doc.Linked) (nodes : List NodeId) (other : NodeId) :
    (nodes.foldl detach doc).children other = (doc.children other).filter (· ∉ nodes) := by
  induction nodes generalizing doc with
  | nil => exact (List.filter_eq_self.mpr fun _ _ => rfl).symm
  | cons node rest inductionHypothesis =>
      rw [List.foldl_cons, inductionHypothesis (links.detach node), children_detach node links, List.filter_filter]
      apply List.filter_congr
      intro child _
      rw [Bool.eq_iff_iff, Bool.and_eq_true, decide_eq_true_eq, decide_eq_true_eq, bne_iff_ne, List.mem_cons, not_or,
        and_comm]

theorem Linked.setText (links : doc.Linked) {id : NodeId} (inside : id.index < doc.nodes.size) (text : String) :
    (doc.setText id text).Linked := by
  have emptied := links.foldl_detach (doc.children id)
  rw [Document.setText]
  split
  · exact emptied
  · refine emptied.insertAt _ ?_ (Nat.le_refl _)
    rw [size_foldl_detach]
    exact inside

theorem parent?_setText (links : doc.Linked) {id : NodeId} (inside : id.index < doc.nodes.size) (text : String)
    {other : NodeId} (apart : other ∉ (TreeEdit.setText id text).moved doc) :
    (doc.setText id text).parent? other = doc.parent? other := by
  rw [TreeEdit.moved, List.mem_cons, not_or] at apart
  have emptied := parent?_foldl_detach links (doc.children id) other
  rw [if_neg apart.2] at emptied
  rw [setText]
  split
  · exact emptied
  · have room : id.index < ((doc.children id).foldl detach doc).nodes.size := by
      rw [size_foldl_detach]
      exact inside
    rw [append, parent?_insertAt _ _ _ room, size_foldl_detach, if_neg apart.1]
    exact emptied

theorem filter_children_setText (links : doc.Linked) {id : NodeId} (inside : id.index < doc.nodes.size) (text : String)
    (other : NodeId) :
    ((doc.setText id text).children other).filter (· ∉ (TreeEdit.setText id text).moved doc) =
      (doc.children other).filter (· ∉ (TreeEdit.setText id text).moved doc) := by
  have emptied : (((doc.children id).foldl detach doc).children other).filter
      (· ∉ (TreeEdit.setText id text).moved doc) =
        (doc.children other).filter (· ∉ (TreeEdit.setText id text).moved doc) := by
    rw [children_foldl_detach links]
    apply filter_filter_of_imp
    intro child apart
    rw [decide_eq_true_eq, TreeEdit.moved, List.mem_cons, not_or] at apart
    exact decide_eq_true apart.2
  rw [setText]
  split
  · exact emptied
  · have room : id.index < ((doc.children id).foldl detach doc).nodes.size := by
      rw [size_foldl_detach]
      exact inside
    rw [append, children_insertAt _ _ _ room, size_foldl_detach]
    split
    · have new : (⟨doc.nodes.size⟩ : NodeId) ∈ (TreeEdit.setText id text).moved doc := List.mem_cons_self
      rw [filter_insertIdx new]
      exact emptied
    · exact emptied

theorem children_setText_self (links : doc.Linked) {id : NodeId} (inside : id.index < doc.nodes.size) {text : String}
    (some : text.isEmpty = false) : (doc.setText id text).children id = [⟨doc.nodes.size⟩] := by
  have room : id.index < ((doc.children id).foldl detach doc).nodes.size := by
    rw [size_foldl_detach]
    exact inside
  have emptied : ((doc.children id).foldl detach doc).children id = [] := by
    rw [children_foldl_detach links]
    simp
  simp [setText, some, append, children_insertAt _ _ _ room, size_foldl_detach, emptied]

/-- Only the element that gets the text has other children. -/
theorem children_setText_of_ne (links : doc.Linked) {id other : NodeId} (inside : id.index < doc.nodes.size)
    (text : String) (different : other ≠ id) : (doc.setText id text).children other = doc.children other := by
  have emptied : ((doc.children id).foldl detach doc).children other = doc.children other := by
    rw [children_foldl_detach links, List.filter_eq_self]
    intro child listed
    have linked := links.mem_children.mp listed
    refine decide_eq_true fun among => different ?_
    exact Option.some.inj (linked.symm.trans (links.mem_children.mp among))
  rw [setText]
  split
  · exact emptied
  · have room : id.index < ((doc.children id).foldl detach doc).nodes.size := by
      rw [size_foldl_detach]
      exact inside
    rw [append, children_insertAt _ _ _ room, if_neg different]
    exact emptied

theorem content_foldl_detach (links : doc.Linked) (nodes : List NodeId) (other : NodeId) :
    (nodes.foldl detach doc).content other = doc.content other := by
  induction nodes generalizing doc with
  | nil => rfl
  | cons node rest inductionHypothesis =>
      rw [List.foldl_cons, inductionHypothesis (links.detach node), content_detach node links]

theorem content_setText (links : doc.Linked) {id : NodeId} (inside : id.index < doc.nodes.size) {text : String}
    (some : text.isEmpty = false) (other : NodeId) :
    (doc.setText id text).content other = if other = ⟨doc.nodes.size⟩ then .text text else doc.content other := by
  have room : id.index < ((doc.children id).foldl detach doc).nodes.size := by
    rw [size_foldl_detach]
    exact inside
  simp [setText, some, append, content_insertAt _ _ _ room, size_foldl_detach, content_foldl_detach links]

end SetText

/-! ## Changing what a node holds -/

section ModifyContent

variable (doc : Document) (id : NodeId) (change : NodeContent → NodeContent) (other : NodeId)

theorem parent?_modifyContent : (doc.modifyContent id change).parent? other = doc.parent? other := by
  by_cases inside : id.index < doc.nodes.size
  · rw [parent?, modifyContent, node_modifyNode doc id other _ inside, parent?]
    split <;> rfl
  · rw [parent?, modifyContent, node_modifyNode_of_size_le doc id _ (Nat.le_of_not_lt inside), parent?]

theorem children_modifyContent : (doc.modifyContent id change).children other = doc.children other := by
  by_cases inside : id.index < doc.nodes.size
  · rw [children, modifyContent, node_modifyNode doc id other _ inside, children]
    split <;> rfl
  · rw [children, modifyContent, node_modifyNode_of_size_le doc id _ (Nat.le_of_not_lt inside), children]

theorem Linked.modifyContent {doc : Document} (links : doc.Linked) (id : NodeId)
    (change : NodeContent → NodeContent) : (doc.modifyContent id change).Linked where
  mem_children := by
    intro child parent
    rw [children_modifyContent, parent?_modifyContent]
    exact links.mem_children
  nodup_children := by
    intro parent
    rw [children_modifyContent]
    exact links.nodup_children parent

end ModifyContent

/-! ## Every edit -/

section Edit

variable {doc : Document} {e : TreeEdit}

theorem Linked.apply (links : doc.Linked) (allowed : e.Allowed doc) : (e.apply doc).Linked := by
  cases e with
  | append parent content => exact links.insertAt content allowed (Nat.le_refl _)
  | insert parent index content => exact links.insertAt content allowed.1 allowed.2
  | detach node => exact links.detach node
  | reattach node parent index => exact links.reattach index allowed.1 allowed.2
  | setText node text => exact links.setText allowed text
  | modifyContent node change => exact links.modifyContent node change

theorem Linked.reaches {permits : TreeEdit → Prop} {start : Document} (links : start.Linked)
    (reached : start.Reaches permits doc) : doc.Linked := by
  induction reached with
  | start => exact links
  | edit e _ _ allowed inductionHypothesis => exact inductionHypothesis.apply allowed

/-- A new node is put among the children of one node, which keep their order. -/
theorem filter_children_insertAt {parent : NodeId} {index : Nat} (content : NodeContent)
    (inside : parent.index < doc.nodes.size) (other : NodeId) :
    ((doc.insertAt parent index content).2.children other).filter (· ∉ [(⟨doc.nodes.size⟩ : NodeId)]) =
      (doc.children other).filter (· ∉ [(⟨doc.nodes.size⟩ : NodeId)]) := by
  rw [children_insertAt _ _ _ inside]
  split
  · exact filter_insertIdx List.mem_cons_self _ _
  · rfl

/-- What an edit does not put somewhere, move or take out keeps its parent. -/
theorem parent?_apply (links : doc.Linked) (allowed : e.Allowed doc) {other : NodeId}
    (apart : other ∉ e.moved doc) : (e.apply doc).parent? other = doc.parent? other := by
  cases e with
  | append parent content =>
      refine (parent?_insertAt doc _ content allowed other).trans (if_neg ?_)
      exact fun same => apart (List.mem_singleton.mpr same)
  | insert parent index content =>
      refine (parent?_insertAt doc _ content allowed.1 other).trans (if_neg ?_)
      exact fun same => apart (List.mem_singleton.mpr same)
  | detach node =>
      refine (parent?_detach node links other).trans (if_neg ?_)
      exact fun same => apart (List.mem_singleton.mpr same)
  | reattach node parent index =>
      refine (parent?_reattach index links allowed.1 allowed.2 other).trans (if_neg ?_)
      exact fun same => apart (List.mem_singleton.mpr same)
  | setText node text => exact parent?_setText links allowed text apart
  | modifyContent node change => exact parent?_modifyContent doc node change other

/-- What an edit does not put somewhere, move or take out keeps its order. -/
theorem filter_children_apply (links : doc.Linked) (allowed : e.Allowed doc) (other : NodeId) :
    ((e.apply doc).children other).filter (· ∉ e.moved doc) = (doc.children other).filter (· ∉ e.moved doc) := by
  have weaker : ∀ node : NodeId, ∀ child, decide (child ∉ [node]) = true → (child != node) = true := by
    intro node child apart
    rw [decide_eq_true_eq, List.mem_singleton] at apart
    exact bne_iff_ne.mpr apart
  cases e with
  | append parent content => exact filter_children_insertAt content allowed other
  | insert parent index content => exact filter_children_insertAt content allowed.1 other
  | detach node =>
      change ((doc.detach node).children other).filter (· ∉ [node]) = (doc.children other).filter (· ∉ [node])
      rw [children_detach node links]
      exact filter_filter_of_imp (weaker node) _
  | reattach node parent index =>
      change ((doc.reattach node parent index).children other).filter (· ∉ [node]) =
        (doc.children other).filter (· ∉ [node])
      rw [children_reattach index links allowed.1 allowed.2]
      split
      · rw [filter_insertIdx List.mem_cons_self]
        exact filter_filter_of_imp (weaker node) _
      · exact filter_filter_of_imp (weaker node) _
  | setText node text => exact filter_children_setText links allowed text other
  | modifyContent node change =>
      change ((doc.modifyContent node change).children other).filter _ = _
      rw [children_modifyContent]

end Edit

/-- In every document that edits lead to, from an empty one or from one that was read, the
children of a node are exactly the nodes whose parent it is; none is listed twice, and none
is the child of two nodes.  The next edit changes neither the parent nor the order among
siblings of any node that it does not put somewhere, move or take out. -/
theorem links_in_step {start doc : Document}
    (origin : start = empty ∨ ∃ text name, read text name = .ok start)
    (reached : start.Reaches (fun _ => True) doc) :
    (∀ id parent, id ∈ doc.children parent ↔ doc.parent? id = some parent) ∧
      (∀ parent, (doc.children parent).Nodup) ∧
      (∀ id parent other, id ∈ doc.children parent → id ∈ doc.children other → parent = other) ∧
      ∀ e : TreeEdit, e.Allowed doc →
        (∀ id, id ∉ e.moved doc → (e.apply doc).parent? id = doc.parent? id) ∧
          ∀ parent, ((e.apply doc).children parent).filter (· ∉ e.moved doc) =
            (doc.children parent).filter (· ∉ e.moved doc) := by
  have linkedAtStart : start.Linked := by
    rcases origin with rfl | ⟨text, name, parsed⟩
    · exact .empty
    · exact (grown_of_read parsed).toLinked
  have links := linkedAtStart.reaches reached
  refine ⟨fun _ _ => links.mem_children, links.nodup_children, ?_, ?_⟩
  · intro id parent other listed listedToo
    exact Option.some.inj ((links.mem_children.mp listed).symm.trans (links.mem_children.mp listedToo))
  · intro e allowed
    exact ⟨fun id => parent?_apply links allowed, filter_children_apply links allowed⟩

/-- A node is moved below its own child, by which both leave the tree, and then behind the
other child of its old parent. -/
theorem moved_below_itself_and_back :
    ∃ start doc, read "<svg><g>a</g><!--b--></svg>" none = .ok start ∧ start.Reaches (fun _ => True) doc ∧
      doc.children ⟨1⟩ = [⟨4⟩, ⟨2⟩] ∧ doc.parent? ⟨2⟩ = some ⟨1⟩ := by
  have shape : (read "<svg><g>a</g><!--b--></svg>" none).toOption.map
      (fun start => (start.nodes.size, ((start.reattach ⟨2⟩ ⟨3⟩ 0).reattach ⟨2⟩ ⟨1⟩ 7).children ⟨1⟩)) =
        some (5, [⟨4⟩, ⟨2⟩]) := by
    decide +kernel
  rw [Option.map_eq_some_iff] at shape
  rcases shape with ⟨start, parsed, same⟩
  rw [toOption_eq_some] at parsed
  rcases Prod.mk.inj same with ⟨size, last⟩
  let below : TreeEdit := .reattach ⟨2⟩ ⟨3⟩ 0
  let back : TreeEdit := .reattach ⟨2⟩ ⟨1⟩ 7
  have allowed : below.Allowed start := by
    change (2 < start.nodes.size) ∧ 3 < start.nodes.size
    omega
  have kept : (start.reattach ⟨2⟩ ⟨3⟩ 0).nodes.size = start.nodes.size := by
    simp only [reattach, modifyChildren, modifyNode, Array.size_modify, size_detach]
  have allowedAgain : back.Allowed (below.apply start) := by
    change (2 < (start.reattach ⟨2⟩ ⟨3⟩ 0).nodes.size) ∧ 1 < (start.reattach ⟨2⟩ ⟨3⟩ 0).nodes.size
    omega
  have reached : start.Reaches (fun _ => True) (back.apply (below.apply start)) :=
    .edit back (.edit below .start trivial allowed) trivial allowedAgain
  have links := links_in_step (Or.inr ⟨_, _, parsed⟩) reached
  refine ⟨start, _, parsed, reached, last, (links.1 ⟨2⟩ ⟨1⟩).mp ?_⟩
  change (⟨2⟩ : NodeId) ∈ ((start.reattach ⟨2⟩ ⟨3⟩ 0).reattach ⟨2⟩ ⟨1⟩ 7).children ⟨1⟩
  rw [last]
  exact List.mem_cons_of_mem _ List.mem_cons_self

end Document

/-!
## Nodes that stay or go

An edit that moves no node leaves every node where it is or takes it out, and a new node
stands at the end of the table below a node that was there before.  So a node has one
parent at most in all the documents that such edits lead to, and a node that was taken out
never comes back.
-/

namespace TreeEdit

/-- Whether an edit moves no node from one place to another. -/
def KeepsPlaces : TreeEdit → Prop
  | reattach _ _ _ => False
  | _ => True

/-- Whether an edit moves no node and adds none; an empty text stands for none. -/
def InsertsNothing : TreeEdit → Prop
  | detach _ | modifyContent _ _ => True
  | setText _ text => text.isEmpty = true
  | _ => False

theorem InsertsNothing.keepsPlaces {e : TreeEdit} (nothing : e.InsertsNothing) : e.KeepsPlaces := by
  cases e with
  | reattach node parent index => exact nothing
  | _ => trivial

end TreeEdit

namespace Document

theorem Reaches.of_imp {permits others : TreeEdit → Prop} {start doc : Document}
    (reached : start.Reaches permits doc) (weaker : ∀ e, permits e → others e) : start.Reaches others doc := by
  induction reached with
  | start => exact .start
  | edit e _ permitted allowed inductionHypothesis => exact .edit e inductionHypothesis (weaker e permitted) allowed

/-! ### One edit -/

section Edit

variable {doc : Document} {e : TreeEdit}

theorem size_modifyContent (doc : Document) (id : NodeId) (change : NodeContent → NodeContent) :
    (doc.modifyContent id change).nodes.size = doc.nodes.size := by
  rw [modifyContent, modifyNode, Array.size_modify]

theorem size_setText (doc : Document) (id : NodeId) (text : String) :
    (doc.setText id text).nodes.size = if text.isEmpty then doc.nodes.size else doc.nodes.size + 1 := by
  rw [setText]
  split
  · exact size_foldl_detach _
  · rw [append, size_insertAt, size_foldl_detach]

theorem size_le_apply (keeps : e.KeepsPlaces) : doc.nodes.size ≤ (e.apply doc).nodes.size := by
  cases e with
  | append parent content => exact Nat.le_of_succ_le (Nat.le_of_eq (size_insertAt doc _ content).symm)
  | insert parent index content => exact Nat.le_of_succ_le (Nat.le_of_eq (size_insertAt doc _ content).symm)
  | detach node => exact Nat.le_of_eq (size_detach node doc).symm
  | reattach node parent index => cases keeps
  | setText node text =>
      change doc.nodes.size ≤ (doc.setText node text).nodes.size
      rw [size_setText]
      split
      · exact Nat.le_refl _
      · exact Nat.le_succ _
  | modifyContent node change => exact Nat.le_of_eq (size_modifyContent doc node change).symm

theorem size_apply_of_insertsNothing (nothing : e.InsertsNothing) :
    (e.apply doc).nodes.size = doc.nodes.size := by
  cases e with
  | detach node => exact size_detach node doc
  | setText node text => exact (size_setText doc node text).trans (if_pos nothing)
  | modifyContent node change => exact size_modifyContent doc node change
  | _ => cases nothing

/-- Whoever has a parent after an edit had it before, or is new below a node that is not. -/
theorem parent?_of_apply (links : doc.Linked) (allowed : e.Allowed doc) (keeps : e.KeepsPlaces) {id parent : NodeId}
    (linked : (e.apply doc).parent? id = some parent) :
    doc.parent? id = some parent ∨ id = ⟨doc.nodes.size⟩ ∧ parent.index < doc.nodes.size := by
  have inserted : ∀ {other : NodeId} {index : Nat} {content : NodeContent}, other.index < doc.nodes.size →
      (doc.insertAt other index content).2.parent? id = some parent →
        doc.parent? id = some parent ∨ id = ⟨doc.nodes.size⟩ ∧ parent.index < doc.nodes.size := by
    intro other index content inside linked
    rw [parent?_insertAt doc index content inside] at linked
    split at linked
    · next new => exact Or.inr ⟨new, Option.some.inj linked ▸ inside⟩
    · exact Or.inl linked
  cases e with
  | append other content => exact inserted allowed linked
  | insert other index content => exact inserted allowed.1 linked
  | detach node =>
      rw [TreeEdit.apply, parent?_detach node links] at linked
      split at linked
      · cases linked
      · exact Or.inl linked
  | reattach node other index => cases keeps
  | setText node text =>
      have emptied : ∀ {id parent : NodeId}, ((doc.children node).foldl detach doc).parent? id = some parent →
          doc.parent? id = some parent := by
        intro id parent linked
        rw [parent?_foldl_detach links] at linked
        split at linked
        · cases linked
        · exact linked
      rw [TreeEdit.apply, setText] at linked
      split at linked
      · exact Or.inl (emptied linked)
      · have room : node.index < ((doc.children node).foldl detach doc).nodes.size := by
          rw [size_foldl_detach]
          exact allowed
        rw [append, parent?_insertAt _ _ _ room, size_foldl_detach] at linked
        split at linked
        · next new => exact Or.inr ⟨new, Option.some.inj linked ▸ allowed⟩
        · exact Or.inl (emptied linked)
  | modifyContent node change =>
      rw [TreeEdit.apply, parent?_modifyContent] at linked
      exact Or.inl linked

end Edit

/-! ### Later documents -/

/-- Whether every node of a document is still there, below the parent it had or below none. -/
structure Later (doc later : Document) : Prop where
  size_le : doc.nodes.size ≤ later.nodes.size
  parent?_of_parent? : ∀ {id parent : NodeId}, id.index < doc.nodes.size →
    later.parent? id = some parent → doc.parent? id = some parent

theorem Later.refl (doc : Document) : doc.Later doc :=
  ⟨Nat.le_refl _, fun _ linked => linked⟩

theorem Later.trans {doc middle last : Document} (first : doc.Later middle) (second : middle.Later last) :
    doc.Later last where
  size_le := Nat.le_trans first.size_le second.size_le
  parent?_of_parent? := by
    intro id parent inside linked
    exact first.parent?_of_parent? inside
      (second.parent?_of_parent? (Nat.lt_of_lt_of_le inside first.size_le) linked)

namespace Ordered

variable {doc last : Document}

theorem apply (ordered : doc.Ordered) {e : TreeEdit} (allowed : e.Allowed doc) (keeps : e.KeepsPlaces) :
    (e.apply doc).Ordered where
  toLinked := ordered.toLinked.apply allowed
  parent_earlier := by
    intro id parent linked
    rcases parent?_of_apply ordered.toLinked allowed keeps linked with old | ⟨new, before⟩
    · exact ordered.parent_earlier old
    · rw [new]
      exact before

theorem later_apply (ordered : doc.Ordered) {e : TreeEdit} (allowed : e.Allowed doc) (keeps : e.KeepsPlaces) :
    doc.Later (e.apply doc) where
  size_le := size_le_apply keeps
  parent?_of_parent? := by
    intro id parent inside linked
    rcases parent?_of_apply ordered.toLinked allowed keeps linked with old | ⟨new, -⟩
    · exact old
    · rw [new] at inside
      exact absurd inside (Nat.lt_irrefl _)

theorem reaches (ordered : doc.Ordered) (reached : doc.Reaches TreeEdit.KeepsPlaces last) : last.Ordered := by
  induction reached with
  | start => exact ordered
  | edit e _ keeps allowed inductionHypothesis => exact inductionHypothesis.apply allowed keeps

theorem later (ordered : doc.Ordered) (reached : doc.Reaches TreeEdit.KeepsPlaces last) : doc.Later last := by
  induction reached with
  | start => exact .refl doc
  | edit e earlier keeps allowed inductionHypothesis =>
      exact inductionHypothesis.trans ((ordered.reaches earlier).later_apply allowed keeps)

end Ordered

theorem Reaches.size_le {doc last : Document} (reached : doc.Reaches TreeEdit.KeepsPlaces last) :
    doc.nodes.size ≤ last.nodes.size := by
  induction reached with
  | start => exact Nat.le_refl _
  | edit e _ keeps _ inductionHypothesis => exact Nat.le_trans inductionHypothesis (size_le_apply keeps)

theorem Reaches.size_eq {doc later : Document} (reached : doc.Reaches TreeEdit.InsertsNothing later) :
    later.nodes.size = doc.nodes.size := by
  induction reached with
  | start => rfl
  | edit e _ nothing _ inductionHypothesis => rw [size_apply_of_insertsNothing nothing, inductionHypothesis]

end Document
end SlimSvg
