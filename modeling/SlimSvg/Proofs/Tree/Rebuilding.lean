import SlimSvg.Proofs.Tree.Links
import SlimSvg.Tree.Branch

namespace SlimSvg
namespace Document

/-!
# Documents have the branches they were built from

Branches are put below a node in document order, so everything that belongs to a branch
stands in one stretch of the table.  Whatever is added later changes nothing in this
stretch, because only the node that gets a new child changes, and it stands before.
-/

/-! ## Branches of the table -/

mutual

/-- Whether a node and everything below it are a branch, all in one stretch of the table. -/
def Shows (doc : Document) (first last : Nat) (id : NodeId) : Branch → Prop
  | .node content children =>
    first ≤ id.index ∧ id.index < last ∧ doc.content id = content ∧
      ShowAll doc (id.index + 1) last (doc.children id) children

/-- Whether some nodes are certain branches one by one. -/
def ShowAll (doc : Document) (first last : Nat) (ids : List NodeId) : List Branch → Prop
  | [] => ids = []
  | b :: rest => ∃ id others, ids = id :: others ∧ Shows doc first last id b ∧ ShowAll doc first last others rest

end

mutual

/-- What a stretch shows is known from the nodes in it. -/
theorem Shows.of_agree {doc other : Document} {first last first' last' : Nat}
    (agree : ∀ id : NodeId, first ≤ id.index → id.index < last →
      other.content id = doc.content id ∧ other.children id = doc.children id)
    (start : first' ≤ first) (stop : last ≤ last') :
    ∀ (id : NodeId) (b : Branch), doc.Shows first last id b → other.Shows first' last' id b
  | id, .node content children, ⟨least, less, held, below⟩ => by
    rcases agree id least less with ⟨sameContent, sameChildren⟩
    refine ⟨Nat.le_trans start least, Nat.lt_of_lt_of_le less stop, sameContent.trans held, ?_⟩
    rw [sameChildren]
    exact ShowAll.of_agree (fun id' later => agree id' (by omega)) (Nat.le_refl _) stop _ children below

theorem ShowAll.of_agree {doc other : Document} {first last first' last' : Nat}
    (agree : ∀ id : NodeId, first ≤ id.index → id.index < last →
      other.content id = doc.content id ∧ other.children id = doc.children id)
    (start : first' ≤ first) (stop : last ≤ last') :
    ∀ (ids : List NodeId) (bs : List Branch), doc.ShowAll first last ids bs → other.ShowAll first' last' ids bs
  | _, [], empty => empty
  | _, b :: rest, ⟨id, others, same, here, later⟩ =>
    ⟨id, others, same, Shows.of_agree agree start stop id b here, ShowAll.of_agree agree start stop others rest later⟩

end

mutual

/-- The branch of a node is what its stretch shows. -/
theorem branchWithin_of_shows {doc : Document} {first last : Nat} :
    ∀ (bound : Nat) (id : NodeId) (b : Branch), doc.Shows first last id b → last ≤ bound + id.index →
      doc.branchWithin bound id = b
  | 0, id, .node _ _, ⟨_, less, _⟩, enough => by omega
  | bound + 1, id, .node content children, ⟨_, _, held, below⟩, enough => by
    rw [branchWithin, held, map_branchWithin_of_showAll bound (doc.children id) children below
      (Nat.le_trans enough (by omega))]

theorem map_branchWithin_of_showAll {doc : Document} {first last : Nat} :
    ∀ (bound : Nat) (ids : List NodeId) (bs : List Branch), doc.ShowAll first last ids bs → last ≤ bound + first →
      ids.map (doc.branchWithin bound) = bs
  | _, _, [], empty, _ => by
    rw [empty]
    rfl
  | bound, _, b :: rest, ⟨id, others, same, here, later⟩, enough => by
    have least : first ≤ id.index := by
      rcases b with ⟨content, children⟩
      exact here.1
    rw [same, List.map_cons, branchWithin_of_shows bound id b here (by omega),
      map_branchWithin_of_showAll bound others rest later enough]

end

/-! ## Adding branches -/

/-- Whether a node got some more children and no other node of the table changed. -/
structure Extends (doc other : Document) (parent : NodeId) (added : List NodeId) : Prop where
  size_le : doc.nodes.size ≤ other.nodes.size
  content_eq : ∀ id : NodeId, id.index < doc.nodes.size → other.content id = doc.content id
  children_parent : other.children parent = doc.children parent ++ added
  children_eq : ∀ id : NodeId, id.index < doc.nodes.size → id ≠ parent → other.children id = doc.children id

theorem Extends.refl (doc : Document) (parent : NodeId) : doc.Extends doc parent [] :=
  ⟨Nat.le_refl _, fun _ _ => rfl, (List.append_nil _).symm, fun _ _ _ => rfl⟩

variable {doc : Document} {parent : NodeId}

theorem Extends.trans {middle last : Document} {added more : List NodeId} (first : doc.Extends middle parent added)
    (second : middle.Extends last parent more) : doc.Extends last parent (added ++ more) := by
  have old : ∀ id : NodeId, id.index < doc.nodes.size → id.index < middle.nodes.size :=
    fun id inside => Nat.lt_of_lt_of_le inside first.size_le
  refine ⟨Nat.le_trans first.size_le second.size_le, ?_, ?_, ?_⟩
  · exact fun id inside => (second.content_eq id (old id inside)).trans (first.content_eq id inside)
  · rw [second.children_parent, first.children_parent, List.append_assoc]
  · exact fun id inside other => (second.children_eq id (old id inside) other).trans (first.children_eq id inside other)

theorem ne_last (inside : parent.index < doc.nodes.size) : parent ≠ ⟨doc.nodes.size⟩ :=
  fun same => absurd (congrArg NodeId.index same) (Nat.ne_of_lt inside)

theorem extends_append (inside : parent.index < doc.nodes.size) (content : NodeContent) :
    doc.Extends (doc.append parent content).2 parent [⟨doc.nodes.size⟩] := by
  refine ⟨?_, ?_, ?_, ?_⟩
  · rw [append, size_insertAt]
    exact Nat.le_succ _
  · intro id old
    rw [append, content_insertAt doc _ content inside, if_neg (ne_last old)]
  · rw [append, children_insertAt doc _ content inside, if_pos rfl, List.insertIdx_length_self]
  · intro id _ other
    rw [append, children_insertAt doc _ content inside, if_neg other]

/-- The children of a new node are the only new ones for the nodes before. -/
theorem Extends.of_new {next last : Document} {new : NodeId} {added : List NodeId}
    (first : doc.Extends next parent [new]) (inside : parent.index < doc.nodes.size)
    (behind : doc.nodes.size ≤ new.index) (second : next.Extends last new added) : doc.Extends last parent [new] := by
  have old : ∀ id : NodeId, id.index < doc.nodes.size → id.index < next.nodes.size ∧ id ≠ new := by
    intro id before
    refine ⟨Nat.lt_of_lt_of_le before first.size_le, ?_⟩
    rintro rfl
    exact absurd before (Nat.not_lt_of_le behind)
  refine ⟨Nat.le_trans first.size_le second.size_le, ?_, ?_, ?_⟩
  · exact fun id before => (second.content_eq id (old id before).1).trans (first.content_eq id before)
  · rw [second.children_eq parent (old parent inside).1 (old parent inside).2, first.children_parent]
  · exact fun id before other =>
      (second.children_eq id (old id before).1 (old id before).2).trans (first.children_eq id before other)

mutual

/-- A branch that is added can be found at the end of the table. -/
theorem shows_appendBranch (doc : Document) (parent : NodeId) :
    ∀ b : Branch, parent.index < doc.nodes.size →
      doc.Extends (doc.appendBranch parent b) parent [⟨doc.nodes.size⟩] ∧
        (doc.appendBranch parent b).Shows doc.nodes.size (doc.appendBranch parent b).nodes.size ⟨doc.nodes.size⟩ b
  | .node content children, inside => by
    let next := (doc.append parent content).2
    let new : NodeId := ⟨doc.nodes.size⟩
    have sizeEq : next.nodes.size = doc.nodes.size + 1 := size_insertAt doc _ content
    have newInside : new.index < next.nodes.size := by
      rw [sizeEq]
      exact Nat.lt_succ_self _
    rcases showAll_appendBranches next new children newInside with ⟨added, further, below⟩
    have first := extends_append inside content
    refine ⟨first.of_new inside (Nat.le_refl _) further, Nat.le_refl _,
      Nat.lt_of_lt_of_le newInside further.size_le, ?_, ?_⟩
    · refine (further.content_eq new newInside).trans ?_
      change (doc.insertAt parent _ content).2.content new = content
      rw [content_insertAt doc _ content inside, if_pos rfl]
    · have noChildren : next.children new = [] := by
        change (doc.insertAt parent _ content).2.children new = []
        have beyond : doc.node new = _ := node_of_size_le (Nat.le_refl doc.nodes.size)
        rw [children_insertAt doc _ content inside, if_neg (Ne.symm (ne_last inside)), Document.children, beyond]
      have found := further.children_parent
      rw [noChildren, List.nil_append] at found
      change ShowAll (next.appendBranches new children) (doc.nodes.size + 1) _
        ((next.appendBranches new children).children new) children
      rw [found, ← sizeEq]
      exact below

theorem showAll_appendBranches (doc : Document) (parent : NodeId) :
    ∀ bs : List Branch, parent.index < doc.nodes.size →
      ∃ added, doc.Extends (doc.appendBranches parent bs) parent added ∧
        (doc.appendBranches parent bs).ShowAll doc.nodes.size (doc.appendBranches parent bs).nodes.size added bs
  | [], _ => ⟨[], Extends.refl doc parent, rfl⟩
  | b :: rest, inside => by
    let next := doc.appendBranch parent b
    rcases shows_appendBranch doc parent b inside with ⟨first, here⟩
    rcases showAll_appendBranches next parent rest (Nat.lt_of_lt_of_le inside first.size_le) with
      ⟨added, further, later⟩
    refine ⟨⟨doc.nodes.size⟩ :: added, first.trans further, ⟨doc.nodes.size⟩, added, rfl, ?_, ?_⟩
    · apply Shows.of_agree _ (Nat.le_refl _) further.size_le _ b here
      intro id least less
      refine ⟨further.content_eq id less, further.children_eq id less ?_⟩
      rintro rfl
      exact absurd inside (Nat.not_lt_of_le least)
    · exact ShowAll.of_agree (fun _ _ _ => ⟨rfl, rfl⟩) first.size_le (Nat.le_refl _) added rest later

end

/-- A document that was built from branches has these branches. -/
theorem branches_ofBranches (bs : List Branch) : (ofBranches bs).branches = bs := by
  rcases showAll_appendBranches empty root bs Nat.zero_lt_one with ⟨added, further, below⟩
  have found : (ofBranches bs).children root = added := further.children_parent
  have shows : (ofBranches bs).Shows 0 (ofBranches bs).nodes.size root (.node .root bs) := by
    refine ⟨Nat.zero_le _, Nat.lt_of_lt_of_le Nat.zero_lt_one further.size_le,
      further.content_eq root Nat.zero_lt_one, ?_⟩
    rw [found]
    exact below
  have whole := branchWithin_of_shows (ofBranches bs).nodes.size root _ shows (Nat.le_refl _)
  rw [branches, branch, whole]
  rfl

/-! ## What the nodes below the root hold -/

end Document

namespace Branch

mutual

/-- Whether all nodes of a branch hold something with a property. -/
def Each (P : NodeContent → Prop) : Branch → Prop
  | .node content children => P content ∧ EachOf P children

def EachOf (P : NodeContent → Prop) : List Branch → Prop
  | [] => True
  | b :: rest => Each P b ∧ EachOf P rest

end

mutual

theorem Each.imp {P Q : NodeContent → Prop} (weaker : ∀ c, P c → Q c) : ∀ b : Branch, Each P b → Each Q b
  | .node content children, each => ⟨weaker content each.1, EachOf.imp weaker children each.2⟩

theorem EachOf.imp {P Q : NodeContent → Prop} (weaker : ∀ c, P c → Q c) : ∀ bs : List Branch, EachOf P bs → EachOf Q bs
  | [], _ => True.intro
  | b :: rest, each => ⟨Each.imp weaker b each.1, EachOf.imp weaker rest each.2⟩

end

theorem eachOf_append {P : NodeContent → Prop} {first second : List Branch} (firstEach : EachOf P first)
    (secondEach : EachOf P second) : EachOf P (first ++ second) := by
  induction first with
  | nil => exact secondEach
  | cons b rest inductionHypothesis => exact ⟨firstEach.1, inductionHypothesis firstEach.2⟩

theorem eachOf_flatMap {α : Type} {P : NodeContent → Prop} {items : List α} {f : α → List Branch}
    (each : ∀ item ∈ items, EachOf P (f item)) : EachOf P (items.flatMap f) := by
  induction items with
  | nil => exact True.intro
  | cons item rest inductionHypothesis =>
      rw [List.flatMap_cons]
      exact eachOf_append (each item List.mem_cons_self)
        (inductionHypothesis fun other listed => each other (List.mem_cons_of_mem item listed))

end Branch

namespace Document

/-- Whether all nodes below another one hold something with a property. -/
def Inner (P : NodeContent → Prop) (doc : Document) : Prop :=
  ∀ id parent, doc.parent? id = some parent → P (doc.content id)

section Inner

variable {P : NodeContent → Prop}

theorem Inner.append {doc : Document} (inner : doc.Inner P) {parent : NodeId} (inside : parent.index < doc.nodes.size)
    {content : NodeContent} (holds : P content) : (doc.append parent content).2.Inner P := by
  intro id above linked
  rw [Document.append, parent?_insertAt doc _ content inside] at linked
  rw [Document.append, content_insertAt doc _ content inside]
  split
  · exact holds
  · next old =>
    rw [if_neg old] at linked
    exact inner id above linked

mutual

theorem inner_appendBranch (doc : Document) (parent : NodeId) :
    ∀ b : Branch, doc.Inner P → parent.index < doc.nodes.size → b.Each P → (doc.appendBranch parent b).Inner P
  | .node content children, inner, inside, each => by
    have room : doc.nodes.size < (doc.append parent content).2.nodes.size := by
      rw [Document.append, size_insertAt]
      exact Nat.lt_succ_self _
    exact inner_appendBranches (doc.append parent content).2 (doc.append parent content).1 children
      (inner.append inside each.1) room each.2

theorem inner_appendBranches (doc : Document) (parent : NodeId) :
    ∀ bs : List Branch, doc.Inner P → parent.index < doc.nodes.size → Branch.EachOf P bs →
      (doc.appendBranches parent bs).Inner P
  | [], inner, _, _ => inner
  | b :: rest, inner, inside, each => by
    have room := Nat.lt_of_lt_of_le inside (shows_appendBranch doc parent b inside).1.size_le
    exact inner_appendBranches (doc.appendBranch parent b) parent rest (inner_appendBranch doc parent b inner inside each.1)
      room each.2

end

theorem inner_ofBranches {bs : List Branch} (each : Branch.EachOf P bs) : (ofBranches bs).Inner P := by
  refine inner_appendBranches empty root bs ?_ Nat.zero_lt_one each
  intro id parent linked
  rcases id with ⟨index⟩
  cases index <;> cases linked

end Inner

end Document
end SlimSvg
