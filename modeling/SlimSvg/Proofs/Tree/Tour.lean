import SlimSvg.Proofs.Tree.Course
import SlimSvg.Proofs.Tree.Preorder
import SlimSvg.Proofs.Tree.Visit

namespace SlimSvg

/-!
# Visits that leave the links alone

A visitor decides at each element whether the visit goes on below it, and its decision may
depend on all that it has seen.  The calls of a visit can therefore not be listed before it
is made.  But the answers are all that they depend on, as long as no call changes parents,
children and the types of nodes.  A script is a list of calls with answers.  The scripts
that fit to a tree are its tours, and every visit follows one of them, up to the first call
that fails.  The nodes of a tour are counted once and for all, without regard to a visitor.
-/

/-! ## What stays as it is -/

/-- The types of nodes. -/
inductive NodeType where
  | root
  | doctype
  | instruction
  | comment
  | text
  | element
deriving DecidableEq, Repr

def NodeContent.type : NodeContent → NodeType
  | .root => .root
  | .doctype _ => .doctype
  | .instruction _ _ => .instruction
  | .comment _ => .comment
  | .text _ => .text
  | .element _ => .element

theorem NodeContent.type_eq_element {c : NodeContent} : c.type = .element ↔ c.isElement = true := by
  cases c <;> simp only [type, isElement, reduceCtorEq, Bool.false_eq_true]

/-- Whether two documents have the same links between nodes of the same types. -/
structure Document.SameFrame (doc other : Document) : Prop where
  parent?_eq : ∀ id, other.parent? id = doc.parent? id
  children_eq : ∀ id, other.children id = doc.children id
  type_eq : ∀ id, (other.content id).type = (doc.content id).type

/-! ## Scripts -/

/-- The calls of a visit with the answers to them.  A call that asks nothing counts as
answered by going on. -/
abbrev VisitScript := List (VisitCall × VisitFlow)

namespace VisitScript

/-- The nodes that a visit comes to, in their order. -/
def begun (script : VisitScript) : List NodeId :=
  script.filterMap (·.1.begun?)

/-- The nodes that a visit leaves again, in their order. -/
def closed (script : VisitScript) : List NodeId :=
  script.filterMap (·.1.closed?)

/-- Whether the visitor refused to go on below a node. -/
def skips (script : VisitScript) (node : NodeId) : Bool :=
  script.any fun entry => entry.1.begun? == some node && entry.2 == .skip

/-- Whether the visitor refused nowhere above a node to go on. -/
def isOpen (script : VisitScript) (doc : Document) (node : NodeId) : Bool :=
  (doc.ancestors node).tail.all fun upper => !script.skips upper

end VisitScript

namespace Visitor

variable {σ : Type}

/-- What is done at a node that is no element. -/
def leaf (v : Visitor σ) : NodeType → (node parent : NodeId) → Visit σ Unit
  | .text => v.text
  | .comment => v.comment
  | .instruction => v.instruction
  | .doctype => v.doctype
  | .root | .element => fun _ _ => pure ()

/-- Make a call. -/
def ask (v : Visitor σ) : VisitCall → Visit σ VisitFlow
  | .enterRoot => v.enterRoot
  | .exitRoot => do
    v.exitRoot
    return .descend
  | .enter node ancestors => v.enter node ancestors
  | .exit node ancestors => do
    v.exit node ancestors
    return .descend
  | .leaf node parent => do
    let doc ← Visit.document
    v.leaf (doc.content node).type node parent
    return .descend

/-- Whether a visitor that makes the calls of a script gets the answers in it, and what
this comes to: the end of the script, or the first call that fails. -/
inductive Follows (v : Visitor σ) : VisitScript → Scene σ → Except VisitError Unit × Scene σ → Prop where
  | ended {scene : Scene σ} : Follows v [] scene (.ok (), scene)
  | answered {call : VisitCall} {flow : VisitFlow} {rest : VisitScript} {scene after : Scene σ}
      {result : Except VisitError Unit × Scene σ} (answer : (v.ask call).run.run scene = (.ok flow, after))
      (further : Follows v rest after result) : Follows v ((call, flow) :: rest) scene result
  | failed {call : VisitCall} {flow : VisitFlow} {rest : VisitScript} {scene after : Scene σ} {e : VisitError}
      (failure : (v.ask call).run.run scene = (.error e, after)) :
      Follows v ((call, flow) :: rest) scene (.error e, after)

end Visitor

/-! ## Tours -/

/-- The scripts that fit to some children of a node: a node that is no element is called
with its parent; an element is entered and left, and between stands a tour of its children
unless the visitor has refused. -/
inductive Document.Tour (doc : Document) :
    (parent : NodeId) → (ancestors children : List NodeId) → VisitScript → Prop where
  | nil {parent : NodeId} {ancestors : List NodeId} : Tour doc parent ancestors [] []
  | leaf {parent child : NodeId} {ancestors children : List NodeId} {script : VisitScript}
      (bare : doc.isElement child = false) (rest : Tour doc parent ancestors children script) :
      Tour doc parent ancestors (child :: children) ((.leaf child parent, .descend) :: script)
  | skipped {parent child : NodeId} {ancestors children : List NodeId} {script : VisitScript}
      (element : doc.isElement child = true) (rest : Tour doc parent ancestors children script) :
      Tour doc parent ancestors (child :: children)
        ((.enter child ancestors, .skip) :: (.exit child ancestors, .descend) :: script)
  | entered {parent child : NodeId} {ancestors children : List NodeId} {inner script : VisitScript}
      (element : doc.isElement child = true)
      (inside : Tour doc child (ancestors ++ [child]) (doc.children child) inner)
      (rest : Tour doc parent ancestors children script) :
      Tour doc parent ancestors (child :: children)
        ((.enter child ancestors, .descend) :: (inner ++ (.exit child ancestors, .descend) :: script))

/-- The scripts that fit to a whole document. -/
inductive Document.WholeTour (doc : Document) : VisitScript → Prop where
  | skipped : WholeTour doc [(.enterRoot, .skip), (.exitRoot, .descend)]
  | entered {inner : VisitScript} (inside : doc.Tour Document.root [] (doc.children Document.root) inner) :
      WholeTour doc ((.enterRoot, .descend) :: (inner ++ [(.exitRoot, .descend)]))

/-- Whether a call tells the truth of the place of its node: an element comes with the
elements around it, and any other node with its parent. -/
def VisitCall.Placed (doc : Document) : VisitCall → Prop
  | .enterRoot | .exitRoot => True
  | .enter node ancestors | .exit node ancestors =>
    doc.isElement node = true ∧ ancestors = (doc.elementAncestors node).reverse
  | .leaf node parent =>
    doc.parent? node = some parent ∧ doc.isElement node = false ∧ doc.content node ≠ .root

/-! ## What a tour comes to -/

namespace VisitScript

/-- Whether the answers in a part of a script are what the whole says of its nodes. -/
def Agrees (whole part : VisitScript) : Prop :=
  ∀ entry ∈ part, ∀ node, entry.1.begun? = some node → (whole.skips node = true ↔ entry.2 = .skip)

theorem begun_append (first second : VisitScript) : (first ++ second).begun = first.begun ++ second.begun :=
  List.filterMap_append

theorem closed_append (first second : VisitScript) : (first ++ second).closed = first.closed ++ second.closed :=
  List.filterMap_append

/-- A script that comes to no node twice has one answer for each. -/
theorem agrees_of_nodup {script : VisitScript} (distinct : script.begun.Nodup) : script.Agrees script := by
  intro entry listed node called
  rcases List.append_of_mem listed with ⟨before, after, split⟩
  have here : script.begun = begun before ++ node :: begun after := by
    rw [split, begun_append]
    exact congrArg (begun before ++ ·) (List.filterMap_cons_some called)
  rw [here, List.nodup_append, List.nodup_cons] at distinct
  have unique : ∀ other ∈ script, other.1.begun? = some node → other = entry := by
    intro other otherListed begunThere
    rw [split, List.mem_append, List.mem_cons] at otherListed
    rcases otherListed with early | same | late
    · have met : node ∈ begun before := List.mem_filterMap.mpr ⟨other, early, begunThere⟩
      exact absurd rfl (distinct.2.2 node met node List.mem_cons_self)
    · exact same
    · exact absurd (List.mem_filterMap.mpr ⟨other, late, begunThere⟩) distinct.2.1.1
  rw [skips, List.any_eq_true]
  constructor
  · rintro ⟨other, otherListed, both⟩
    rw [Bool.and_eq_true, beq_iff_eq, beq_iff_eq] at both
    rw [← unique other otherListed both.1]
    exact both.2
  · intro refused
    refine ⟨entry, listed, ?_⟩
    rw [called, refused, Bool.and_eq_true]
    exact ⟨beq_self_eq_true _, beq_self_eq_true _⟩

end VisitScript

namespace Document

section Tour

variable {P : Element → Prop} {doc : Document} {parent : NodeId} {ancestors children : List NodeId}
  {script whole : VisitScript}

theorem Tour.append (tour : doc.Tour parent ancestors children script) {others : List NodeId} {more : VisitScript}
    (further : doc.Tour parent ancestors others more) :
    doc.Tour parent ancestors (children ++ others) (script ++ more) := by
  induction tour with
  | nil => exact further
  | leaf bare _ inductionHypothesis => exact .leaf bare (inductionHypothesis further)
  | skipped element _ inductionHypothesis => exact .skipped element (inductionHypothesis further)
  | entered element inside _ _ inductionHypothesis =>
      rw [List.cons_append, List.cons_append, List.append_assoc, List.cons_append]
      exact .entered element inside (inductionHypothesis further)

/-- A tour comes to nodes in document order, and to none of them twice. -/
theorem Tour.begun_sublist (ordered : doc.Ordered) (tour : doc.Tour parent ancestors children script)
    (present : ∀ child ∈ children, child.index < doc.nodes.size) :
    script.begun.Sublist (children.flatMap doc.descendants) := by
  have below : ∀ id, ∀ child ∈ doc.children id, child.index < doc.nodes.size :=
    fun _ _ listed => index_lt_of_parent? (ordered.mem_children.mp listed)
  induction tour with
  | nil => exact .refl _
  | @leaf parent child ancestors children script bare rest inductionHypothesis =>
      have others := inductionHypothesis fun other listed => present other (List.mem_cons_of_mem child listed)
      rw [List.flatMap_cons, ordered.descendants_eq (present child List.mem_cons_self)]
      exact (others.trans (List.sublist_append_right _ _)).cons_cons child
  | @skipped parent child ancestors children script element rest inductionHypothesis =>
      have others := inductionHypothesis fun other listed => present other (List.mem_cons_of_mem child listed)
      rw [List.flatMap_cons, ordered.descendants_eq (present child List.mem_cons_self)]
      exact (others.trans (List.sublist_append_right _ _)).cons_cons child
  | @entered parent child ancestors children inner script element inside rest insideHypothesis restHypothesis =>
      have others := restHypothesis fun other listed => present other (List.mem_cons_of_mem child listed)
      rw [List.flatMap_cons, ordered.descendants_eq (present child List.mem_cons_self)]
      change (child :: (inner ++ (_, _) :: script).begun).Sublist _
      rw [VisitScript.begun_append]
      exact ((insideHypothesis (below child)).append others).cons_cons child

section Open

variable (grown : doc.Grown P)

include grown

theorem isOpen_iff {child : NodeId} (linked : doc.parent? child = some parent) :
    whole.isOpen doc child = true ↔ ∀ upper ∈ doc.ancestors parent, whole.skips upper = false := by
  rw [VisitScript.isOpen, ancestors_eq grown child, linked, List.tail_cons, List.all_eq_true]
  simp only [Bool.not_eq_true']

/-- Nothing below a node is open if the visitor has refused to go on there. -/
theorem filter_open_of_skips (refused : whole.skips parent = true) :
    ((doc.children parent).flatMap doc.descendants).filter (whole.isOpen doc) = [] := by
  rw [List.filter_eq_nil_iff]
  intro lower listed
  rcases List.mem_flatMap.mp listed with ⟨child, among, below⟩
  have linked := grown.mem_children.mp among
  have covers := (grown.ordered.mem_descendants_iff (index_lt_of_parent? linked) lower).mp below
  have spanning : parent ∈ doc.ancestors child :=
    (mem_ancestors_iff_parent grown).mpr (Or.inr ⟨parent, linked, mem_ancestors_self grown parent⟩)
  have further : ∃ upper, doc.parent? lower = some upper ∧ parent ∈ doc.ancestors upper := by
    rcases (mem_ancestors_iff_parent grown).mp covers with same | ⟨upper, linkedThere, coversThere⟩
    · exact ⟨parent, same ▸ linked, mem_ancestors_self grown parent⟩
    · exact ⟨upper, linkedThere, mem_ancestors_trans grown spanning coversThere⟩
  rcases further with ⟨upper, linkedThere, met⟩
  rw [isOpen_iff grown linkedThere]
  intro clear
  rw [clear parent met] at refused
  cases refused

/-- A tour comes to the nodes above which the visitor has refused nowhere. -/
theorem Tour.begun_eq (tour : doc.Tour parent ancestors children script)
    (linked : ∀ child ∈ children, doc.parent? child = some parent)
    (clear : ∀ upper ∈ doc.ancestors parent, whole.skips upper = false) (agrees : whole.Agrees script) :
    script.begun = (children.flatMap doc.descendants).filter (whole.isOpen doc) := by
  have present : ∀ {child above : NodeId}, doc.parent? child = some above → child.index < doc.nodes.size :=
    fun linked => index_lt_of_parent? linked
  induction tour with
  | nil => rfl
  | @leaf parent child ancestors children script bare rest inductionHypothesis =>
      have here := linked child List.mem_cons_self
      have others := inductionHypothesis (fun other listed => linked other (List.mem_cons_of_mem child listed)) clear
        fun entry listed => agrees entry (List.mem_cons_of_mem _ listed)
      rw [List.flatMap_cons, grown.ordered.descendants_eq (present here), Visitor.Enters.children_eq_nil grown here bare]
      change child :: script.begun = ([child] ++ _).filter _
      rw [List.singleton_append, List.filter_cons_of_pos ((isOpen_iff grown here).mpr clear), others]
  | @skipped parent child ancestors children script element rest inductionHypothesis =>
      have here := linked child List.mem_cons_self
      have others := inductionHypothesis (fun other listed => linked other (List.mem_cons_of_mem child listed)) clear
        fun entry listed => agrees entry (List.mem_cons_of_mem _ (List.mem_cons_of_mem _ listed))
      have refused : whole.skips child = true := (agrees _ List.mem_cons_self child rfl).mpr rfl
      rw [List.flatMap_cons, grown.ordered.descendants_eq (present here), List.cons_append,
        List.filter_cons_of_pos ((isOpen_iff grown here).mpr clear), List.filter_append,
        filter_open_of_skips grown refused, ← others]
      rfl
  | @entered parent child ancestors children inner script element inside rest insideHypothesis restHypothesis =>
      have here := linked child List.mem_cons_self
      have others := restHypothesis (fun other listed => linked other (List.mem_cons_of_mem child listed)) clear
        fun entry listed => agrees entry
          (List.mem_cons_of_mem _ (List.mem_append_right inner (List.mem_cons_of_mem _ listed)))
      have goesOn : whole.skips child = false := by
        cases refused : whole.skips child with
        | false => rfl
        | true => cases (agrees _ List.mem_cons_self child rfl).mp refused
      have clearBelow : ∀ upper ∈ doc.ancestors child, whole.skips upper = false := by
        rw [ancestors_eq grown, here]
        intro upper listed
        rcases List.mem_cons.mp listed with same | above
        · rw [same]
          exact goesOn
        · exact clear upper above
      have below := insideHypothesis (fun other listed => grown.mem_children.mp listed) clearBelow
        fun entry listed => agrees entry (List.mem_cons_of_mem _ (List.mem_append_left _ listed))
      rw [List.flatMap_cons, grown.ordered.descendants_eq (present here), List.cons_append,
        List.filter_cons_of_pos ((isOpen_iff grown here).mpr clear), List.filter_append, ← below, ← others]
      change child :: VisitScript.begun (inner ++ _ :: script) = _
      rw [VisitScript.begun_append]
      rfl

end Open

/-- Whatever a tour enters it leaves again. -/
theorem Tour.closed_perm (tour : doc.Tour parent ancestors children script) :
    script.closed.Perm (script.begun.filter doc.isElement) := by
  induction tour with
  | nil => exact .refl _
  | @leaf parent child ancestors children script bare rest inductionHypothesis =>
      change script.closed.Perm ((child :: script.begun).filter doc.isElement)
      rw [List.filter_cons_of_neg (by rw [bare]; decide)]
      exact inductionHypothesis
  | @skipped parent child ancestors children script element rest inductionHypothesis =>
      change (child :: script.closed).Perm ((child :: script.begun).filter doc.isElement)
      rw [List.filter_cons_of_pos element]
      exact inductionHypothesis.cons child
  | @entered parent child ancestors children inner script element inside rest insideHypothesis restHypothesis =>
      change (VisitScript.closed (inner ++ _ :: script)).Perm
        ((child :: VisitScript.begun (inner ++ _ :: script)).filter _)
      rw [VisitScript.begun_append, VisitScript.closed_append, List.filter_cons_of_pos element, List.filter_append]
      exact List.perm_middle.trans ((insideHypothesis.append restHypothesis).cons child)

/-- A tour below a node tells the truth of the places if the elements around the node are
given, and no node but the root counts as one. -/
theorem Tour.placed (grown : doc.Grown P) (typed : ∀ id above, doc.parent? id = some above → doc.content id ≠ .root)
    (tour : doc.Tour parent ancestors children script) (linked : ∀ child ∈ children, doc.parent? child = some parent)
    (line : ∀ child, doc.parent? child = some parent → ancestors = (doc.elementAncestors child).reverse) :
    ∀ entry ∈ script, entry.1.Placed doc := by
  induction tour with
  | nil => exact List.forall_mem_nil _
  | @leaf parent child ancestors children script bare rest inductionHypothesis =>
      have here := linked child List.mem_cons_self
      have others := inductionHypothesis (fun other listed => linked other (List.mem_cons_of_mem child listed)) line
      exact List.forall_mem_cons.mpr ⟨⟨here, bare, typed child parent here⟩, others⟩
  | @skipped parent child ancestors children script element rest inductionHypothesis =>
      have here := linked child List.mem_cons_self
      have others := inductionHypothesis (fun other listed => linked other (List.mem_cons_of_mem child listed)) line
      have placed := And.intro element (line child here)
      exact List.forall_mem_cons.mpr ⟨placed, List.forall_mem_cons.mpr ⟨placed, others⟩⟩
  | @entered parent child ancestors children inner script element inside rest insideHypothesis restHypothesis =>
      have here := linked child List.mem_cons_self
      have others := restHypothesis (fun other listed => linked other (List.mem_cons_of_mem child listed)) line
      have placed := And.intro element (line child here)
      have below := insideHypothesis (fun other listed => grown.mem_children.mp listed) fun other linkedThere => by
        rw [line child here, elementAncestors_child grown linkedThere element]
      refine List.forall_mem_cons.mpr ⟨placed, List.forall_mem_append.mpr ⟨below, ?_⟩⟩
      exact List.forall_mem_cons.mpr ⟨placed, others⟩

end Tour

/-! ### Whole tours -/

section WholeTour

variable {P : Element → Prop} {doc : Document} {script : VisitScript}

theorem WholeTour.begun_sublist (grown : doc.Grown P) (tour : doc.WholeTour script) :
    script.begun.Sublist (doc.descendants root) := by
  have present : root.index < doc.nodes.size := grown.rooted
  rw [grown.ordered.descendants_eq present]
  cases tour with
  | skipped => exact (List.nil_sublist _).cons_cons root
  | @entered inner inside =>
      have below := inside.begun_sublist grown.ordered fun child listed =>
        index_lt_of_parent? (grown.mem_children.mp listed)
      change (root :: VisitScript.begun (inner ++ [_])).Sublist _
      rw [VisitScript.begun_append]
      change (root :: (inner.begun ++ [])).Sublist _
      rw [List.append_nil]
      exact below.cons_cons root

/-- A whole tour comes to every node of the tree above which the visitor has refused
nowhere, once and in document order. -/
theorem WholeTour.begun_eq (grown : doc.Grown P) (tour : doc.WholeTour script) :
    script.begun = (doc.descendants root).filter (script.isOpen doc) := by
  have agrees := VisitScript.agrees_of_nodup ((tour.begun_sublist grown).nodup (nodup_descendants grown))
  have top : script.isOpen doc root = true := by
    rw [VisitScript.isOpen, ancestors_eq grown, grown.parent?_root]
    rfl
  have present : root.index < doc.nodes.size := grown.rooted
  rw [grown.ordered.descendants_eq present, List.filter_cons_of_pos top]
  cases tour with
  | skipped => rw [filter_open_of_skips grown rfl]; rfl
  | @entered inner inside =>
      have goesOn := agrees _ List.mem_cons_self root rfl
      have below := inside.begun_eq grown (fun child listed => grown.mem_children.mp listed)
        (fun upper listed => by
          rw [ancestors_eq grown, grown.parent?_root, List.mem_singleton] at listed
          rw [listed]
          exact Bool.eq_false_iff.mpr fun refused => nomatch goesOn.mp refused)
        (fun entry listed => agrees entry (List.mem_cons_of_mem _ (List.mem_append_left _ listed)))
      rw [← below]
      change root :: VisitScript.begun (inner ++ [_]) = _
      rw [VisitScript.begun_append]
      change root :: (inner.begun ++ []) = _
      rw [List.append_nil]

theorem WholeTour.closed_perm (bare : doc.isElement root = false) (tour : doc.WholeTour script) :
    script.closed.Perm (root :: script.begun.filter doc.isElement) := by
  have without : ¬ doc.isElement root = true := Bool.eq_false_iff.mp bare
  cases tour with
  | skipped =>
      change [root].Perm (root :: [root].filter doc.isElement)
      rw [List.filter_cons_of_neg without]
      exact .refl _
  | @entered inner inside =>
      change (VisitScript.closed (inner ++ [_])).Perm (root :: (root :: VisitScript.begun (inner ++ [_])).filter _)
      rw [VisitScript.closed_append, VisitScript.begun_append, List.filter_cons_of_neg without, List.filter_append]
      exact (List.perm_append_comm.trans (inside.closed_perm.cons root)).trans
        (List.Perm.of_eq (congrArg (root :: ·) (List.append_nil _).symm))

theorem WholeTour.placed (grown : doc.Grown P) (bare : doc.isElement root = false)
    (typed : ∀ id above, doc.parent? id = some above → doc.content id ≠ .root)
    (tour : doc.WholeTour script) : ∀ entry ∈ script, entry.1.Placed doc := by
  cases tour with
  | skipped => exact List.forall_mem_cons.mpr ⟨trivial, List.forall_mem_singleton.mpr trivial⟩
  | @entered inner inside =>
      have below := inside.placed grown typed (fun child listed => grown.mem_children.mp listed) fun child linked => by
        rw [elementAncestors_of_parent?_root grown linked bare]
        rfl
      refine List.forall_mem_cons.mpr ⟨trivial, List.forall_mem_append.mpr ⟨below, ?_⟩⟩
      exact List.forall_mem_singleton.mpr trivial

end WholeTour

end Document

/-! ## Visits follow tours -/

namespace Visitor

variable {σ : Type} {v : Visitor σ}

theorem Follows.append {first second : VisitScript} {scene after : Scene σ} {result : Except VisitError Unit × Scene σ}
    (follows : v.Follows first scene (.ok (), after)) (further : v.Follows second after result) :
    v.Follows (first ++ second) scene result := by
  generalize ends : ((.ok (), after) : Except VisitError Unit × Scene σ) = middle at follows
  induction follows with
  | ended =>
      rw [← (Prod.mk.inj ends).2]
      exact further
  | answered answer _ inductionHypothesis => exact .answered answer (inductionHypothesis ends)
  | failed _ => cases ends

/-- Behind a call that fails nothing matters. -/
theorem Follows.append_failed {first : VisitScript} {scene after : Scene σ} {e : VisitError}
    (follows : v.Follows first scene (.error e, after)) (second : VisitScript) :
    v.Follows (first ++ second) scene (.error e, after) := by
  generalize ends : ((.error e, after) : Except VisitError Unit × Scene σ) = last at follows
  induction follows with
  | ended => cases ends
  | answered answer _ inductionHypothesis => exact .answered answer (inductionHypothesis ends)
  | failed failure => exact .failed failure

/-- Whether a step follows a script of some form from each scene with a property, and
keeps the property. -/
def Treads (v : Visitor σ) (I : Scene σ → Prop) (Made : VisitScript → Prop) (visit : Visit σ Unit) : Prop :=
  ∀ scene, I scene → ∃ script, Made script ∧ v.Follows script scene (visit.run.run scene) ∧ I (visit.run.run scene).2

section Treads

variable {I : Scene σ → Prop} {F S B : VisitScript → Prop} {visit next : Visit σ Unit}

theorem Treads.bind (first : v.Treads I F visit) (second : v.Treads I S next)
    (both : ∀ before after, F before → S after → B (before ++ after)) :
    v.Treads I B (visit >>= fun _ => next) := by
  intro scene here
  rcases first scene here with ⟨before, made, follows, kept⟩
  rcases second _ kept with ⟨after, madeToo, further, keptToo⟩
  refine ⟨before ++ after, both before after made madeToo, ?_⟩
  rw [ExceptT.run_bind, StateT.run_bind]
  cases ran : visit.run.run scene with
  | mk result last =>
      rw [ran] at follows kept further keptToo
      cases result with
      | ok _ => exact ⟨follows.append further, keptToo⟩
      | error e => exact ⟨follows.append_failed after, kept⟩

theorem Treads.weaken (treads : v.Treads I F visit) (weaker : ∀ script, F script → S script) : v.Treads I S visit := by
  intro scene here
  rcases treads scene here with ⟨script, made, follows, kept⟩
  exact ⟨script, weaker script made, follows, kept⟩

/-- A call that asks nothing is a script of its own. -/
theorem treads_call {call : VisitCall}
    (asked : ∀ scene, I scene → (v.ask call).run.run scene = (visit >>= fun _ => pure .descend).run.run scene)
    (keeps : ∀ scene, I scene → I ((v.ask call).run.run scene).2) :
    v.Treads I (· = [(call, .descend)]) visit := by
  intro scene here
  have kept := keeps scene here
  refine ⟨_, rfl, ?_⟩
  have answer : (v.ask call).run.run scene = match visit.run.run scene with
      | (.ok _, after) => (.ok .descend, after)
      | (.error e, after) => (.error e, after) := by
    rw [asked scene here, ExceptT.run_bind, StateT.run_bind]
    cases visit.run.run scene with
    | mk result after => cases result <;> rfl
  rw [answer] at kept
  cases ran : visit.run.run scene with
  | mk result after =>
      rw [ran] at answer kept
      cases result with
      | ok _ => exact ⟨.answered answer .ended, kept⟩
      | error e => exact ⟨.failed answer, kept⟩

/-- After its question a visit goes below the node or not, and leaves it in both cases. -/
theorem treads_asking (opening : VisitCall) {closing : VisitCall} {leave : Visit σ Unit} {step : VisitFlow → Visit σ Unit}
    (refused : B [(opening, .skip), (closing, .descend)])
    (entered : ∀ inner, F inner → B ((opening, .descend) :: (inner ++ [(closing, .descend)])))
    (keeps : ∀ scene, I scene → I ((v.ask opening).run.run scene).2)
    (inside : v.Treads I F visit) (leaves : v.Treads I (· = [(closing, .descend)]) leave)
    (skip : ∀ scene, I scene → (step .skip).run.run scene = leave.run.run scene)
    (descend : ∀ scene, I scene → (step .descend).run.run scene = (visit >>= fun _ => leave).run.run scene) :
    v.Treads I B (v.ask opening >>= step) := by
  intro scene here
  have kept := keeps scene here
  rw [ExceptT.run_bind, StateT.run_bind]
  cases ran : (v.ask opening).run.run scene with
  | mk result after =>
      rw [ran] at kept
      rcases result with e | flow
      · exact ⟨_, refused, .failed ran, kept⟩
      · cases flow with
        | skip =>
            rcases leaves after kept with ⟨last, rfl, follows, keptToo⟩
            rw [← skip after kept] at follows keptToo
            exact ⟨_, refused, .answered ran follows, keptToo⟩
        | descend =>
            have both : v.Treads I (fun script => ∃ inner, F inner ∧ script = inner ++ [(closing, .descend)])
                (visit >>= fun _ => leave) :=
              inside.bind leaves fun inner _ made last => ⟨inner, made, by rw [last]⟩
            rcases both after kept with ⟨rest, ⟨inner, made, rfl⟩, follows, keptToo⟩
            rw [← descend after kept] at follows keptToo
            exact ⟨_, entered inner made, .answered ran follows, keptToo⟩

end Treads

section Tours

variable {P : Element → Prop} {doc : Document} {I : Scene σ → Prop}
  (frame : ∀ scene, I scene → doc.SameFrame scene.document)
  (keeps : ∀ call scene, call.Placed doc → I scene → I ((v.ask call).run.run scene).2)

/-- What is done for the next child, given that it has its place. -/
theorem run_visitChildren_cons {visitElement : (node parent : NodeId) → List NodeId → Visit σ Unit}
    {parent child : NodeId} {ancestors rest : List NodeId} {scene : Scene σ}
    (linked : scene.document.parent? child = some parent) :
    (visitChildren v visitElement parent ancestors (child :: rest)).run.run scene =
      ((if (scene.document.content child).type = .element then visitElement child parent ancestors
        else v.leaf (scene.document.content child).type child parent) >>= fun _ =>
          visitChildren v visitElement parent ancestors rest).run.run scene := by
  have inPlace : (scene.document.parent? child == some parent) = true := by
    rw [linked]
    exact beq_self_eq_true _
  rw [visitChildren]
  change (if scene.document.parent? child == some parent then _ else _ : Visit σ Unit).run.run scene = _
  rw [if_pos inPlace]
  cases scene.document.content child <;> rfl

include frame keeps

theorem treads_visitChildren (typed : ∀ id above, doc.parent? id = some above → doc.content id ≠ .root)
    {visitElement : (node parent : NodeId) → List NodeId → Visit σ Unit} {parent : NodeId} {ancestors : List NodeId}
    (children : List NodeId) (linked : ∀ child ∈ children, doc.parent? child = some parent)
    (elements : ∀ child ∈ children, doc.isElement child = true →
      v.Treads I (doc.Tour parent ancestors [child]) (visitElement child parent ancestors)) :
    v.Treads I (doc.Tour parent ancestors children) (visitChildren v visitElement parent ancestors children) := by
  induction children with
  | nil => exact fun _ here => ⟨[], .nil, .ended, here⟩
  | cons child rest inductionHypothesis =>
      have others := inductionHypothesis (fun other listed => linked other (List.mem_cons_of_mem child listed))
        fun other listed => elements other (List.mem_cons_of_mem child listed)
      have here := linked child List.mem_cons_self
      have first : v.Treads I (doc.Tour parent ancestors [child])
          (if (doc.content child).type = .element then visitElement child parent ancestors
            else v.leaf (doc.content child).type child parent) := by
        split
        · next element => exact elements child List.mem_cons_self (NodeContent.type_eq_element.mp element)
        · next other =>
          have bare : doc.isElement child = false :=
            Bool.eq_false_iff.mpr fun element => other (NodeContent.type_eq_element.mpr element)
          have called :
              v.Treads I (· = [(.leaf child parent, .descend)]) (v.leaf (doc.content child).type child parent) := by
            refine treads_call (fun scene kept => ?_) fun scene kept =>
              keeps _ scene ⟨here, bare, typed child parent here⟩ kept
            rw [← (frame scene kept).type_eq child]
            rfl
          exact called.weaken fun script made => made ▸ .leaf bare .nil
      intro scene kept
      have same := frame scene kept
      rw [run_visitChildren_cons ((same.parent?_eq child).trans here), same.type_eq]
      exact first.bind others (fun _ _ tour further => tour.append further) scene kept

/-- A depth that reaches the end of the table is never used up. -/
theorem treads_visitElement (grown : doc.Grown P)
    (typed : ∀ id above, doc.parent? id = some above → doc.content id ≠ .root) (depth : Nat) :
    ∀ {node parent : NodeId}, doc.parent? node = some parent → doc.isElement node = true →
      doc.nodes.size ≤ node.index + depth →
      v.Treads I (doc.Tour parent (doc.elementAncestors node).reverse [node])
        (visitElement v depth node parent (doc.elementAncestors node).reverse) := by
  induction depth with
  | zero =>
      intro node parent linked _ deep
      exact absurd (Document.index_lt_of_parent? linked) (Nat.not_lt.mpr deep)
  | succ depth inductionHypothesis =>
      intro node parent linked element deep
      have below : v.Treads I (doc.Tour node ((doc.elementAncestors node).reverse ++ [node]) (doc.children node))
          (visitChildren v (visitElement v depth) node ((doc.elementAncestors node).reverse ++ [node])
            (doc.children node)) := by
        refine treads_visitChildren frame keeps typed _ (fun child listed => grown.mem_children.mp listed) ?_
        intro child listed childElement
        have childLinked := grown.mem_children.mp listed
        have later := grown.parent_earlier childLinked
        rw [← Document.elementAncestors_child grown childLinked element]
        exact inductionHypothesis childLinked childElement (by omega)
      have placed : doc.isElement node = true ∧
          (doc.elementAncestors node).reverse = (doc.elementAncestors node).reverse := ⟨element, rfl⟩
      have leaves := treads_call (fun _ _ => rfl) fun scene kept =>
        keeps (.exit node (doc.elementAncestors node).reverse) scene placed kept
      refine treads_asking (.enter node (doc.elementAncestors node).reverse) (.skipped element .nil)
        (fun _ inside => .entered element inside .nil) (fun scene kept => keeps _ scene placed kept) below leaves
        (fun _ _ => rfl) ?_
      intro scene kept
      have same := frame scene kept
      have stays : (VisitFlow.descend == VisitFlow.descend && scene.document.parent? node == some parent) = true := by
        rw [same.parent?_eq, linked]
        exact beq_self_eq_true _
      change (if VisitFlow.descend == VisitFlow.descend && scene.document.parent? node == some parent then _ else _ :
        Visit σ Unit).run.run scene = _
      rw [if_pos stays, same.children_eq]

/-- A visit of a whole document, with the depth that the document has at least. -/
theorem treads_visitRoot (grown : doc.Grown P) (bare : doc.isElement Document.root = false)
    (typed : ∀ id above, doc.parent? id = some above → doc.content id ≠ .root) {depth : Nat}
    (deep : doc.nodes.size ≤ depth) : v.Treads I doc.WholeTour (visitRoot v depth) := by
  have below : v.Treads I (doc.Tour Document.root [] (doc.children Document.root))
      (visitChildren v (visitElement v depth) Document.root [] (doc.children Document.root)) := by
    refine treads_visitChildren frame keeps typed _ (fun child listed => grown.mem_children.mp listed) ?_
    intro child listed childElement
    have linked := grown.mem_children.mp listed
    have element := treads_visitElement frame keeps grown typed depth linked childElement (by omega)
    rw [Document.elementAncestors_of_parent?_root grown linked bare] at element
    exact element
  have leaves := treads_call (fun _ _ => rfl) fun scene kept => keeps .exitRoot scene trivial kept
  refine treads_asking .enterRoot .skipped (fun _ inside => .entered inside)
    (fun scene kept => keeps .enterRoot scene trivial kept) below leaves (fun _ _ => rfl) ?_
  intro scene kept
  rw [← (frame scene kept).children_eq]
  rfl

/-- A visitor that leaves the links of a document that was read alone makes the calls of a
tour, up to the first one that fails.  The tour comes to the nodes of the tree in document
order, each of them once, except where the visitor has refused to go on at a node above.  It
leaves the root and every element that it comes to, and it tells the truth of their places.
What the calls keep of the document is kept by the visit, the whole document included. -/
theorem run_follows_tour {text : String} {name : Option String} (parsed : Document.read text name = .ok doc)
    (state : σ) (here : I ⟨state, doc⟩) :
    ∃ script, v.Follows script ⟨state, doc⟩ (v.run ⟨state, doc⟩) ∧ I (v.run ⟨state, doc⟩).2 ∧
      doc.WholeTour script ∧
      script.begun = (doc.descendants Document.root).filter (script.isOpen doc) ∧ script.begun.Nodup ∧
      script.closed.Perm (Document.root :: script.begun.filter doc.isElement) ∧
      ∀ entry ∈ script, entry.1.Placed doc := by
  have grown := Document.grown_of_read parsed
  have bare := Document.isElement_root_of_read parsed
  have typed : ∀ id above, doc.parent? id = some above → doc.content id ≠ .root :=
    fun _ _ linked => Document.content_ne_root_of_read parsed linked
  have treads := treads_visitRoot frame keeps grown bare typed (Nat.le_add_right doc.nodes.size extraDepth)
  rcases treads _ here with ⟨script, tour, follows, kept⟩
  refine ⟨script, follows, kept, tour, tour.begun_eq grown, ?_, tour.closed_perm bare, tour.placed grown bare typed⟩
  exact (tour.begun_sublist grown).nodup (Document.nodup_descendants grown)

end Tours

/-! ### A visitor that refuses -/

/-- A visitor that notes the elements and texts that it comes to, and does not go below
elements of some name. -/
def noting (name : String) : Visitor (List NodeId) where
  enter node _ := do
    Visit.editState (· ++ [node])
    let doc ← Visit.document
    return if doc.hasName node name then .skip else .descend
  text node _ := Visit.editState (· ++ [node])

theorem document_noting (name : String) (call : VisitCall) (scene : Scene (List NodeId)) :
    (((noting name).ask call).run.run scene).2.document = scene.document := by
  cases call with
  | leaf node parent =>
      change (((noting name).leaf (scene.document.content node).type node parent >>= _).run.run scene).2.document = _
      cases (scene.document.content node).type <;> rfl
  | _ => rfl

theorem nothing_below_refused :
    ∃ doc script, Document.read "<svg><g><a/>b</g>c</svg>" none = .ok doc ∧ doc.WholeTour script ∧
      (noting "g").Follows script ⟨[], doc⟩ (.ok (), ⟨[⟨1⟩, ⟨2⟩, ⟨5⟩], doc⟩) ∧
      script.begun = [⟨0⟩, ⟨1⟩, ⟨2⟩, ⟨3⟩, ⟨4⟩, ⟨5⟩].filter (script.isOpen doc) := by
  have shown : (Document.read "<svg><g><a/>b</g>c</svg>" none).toOption.map (fun doc =>
      let (result, last) := (noting "g").run ⟨[], doc⟩
      (result.toOption, last.state, doc.descendants Document.root)) =
        some (some (), [⟨1⟩, ⟨2⟩, ⟨5⟩], [⟨0⟩, ⟨1⟩, ⟨2⟩, ⟨3⟩, ⟨4⟩, ⟨5⟩]) := by
    decide +kernel
  rw [Option.map_eq_some_iff] at shown
  rcases shown with ⟨doc, parsed, same⟩
  rw [toOption_eq_some] at parsed
  simp only [Prod.mk.injEq, toOption_eq_some] at same
  rcases same with ⟨result, state, order⟩
  have keeps : ∀ (call : VisitCall) (scene : Scene (List NodeId)), call.Placed doc → scene.document = doc →
      (((noting "g").ask call).run.run scene).2.document = doc :=
    fun call scene _ kept => (document_noting "g" call scene).trans kept
  have frame : ∀ scene : Scene (List NodeId), scene.document = doc → doc.SameFrame scene.document := by
    rintro scene rfl
    exact ⟨fun _ => rfl, fun _ => rfl, fun _ => rfl⟩
  rcases run_follows_tour frame keeps parsed [] rfl with ⟨script, follows, unchanged, tour, begun, -⟩
  have ran : (noting "g").run ⟨[], doc⟩ = (.ok (), ⟨[⟨1⟩, ⟨2⟩, ⟨5⟩], doc⟩) := by
    rcases ends : (noting "g").run ⟨[], doc⟩ with ⟨outcome, noted, last⟩
    rw [ends] at result state unchanged
    rw [show outcome = .ok () from result, show noted = _ from state, show last = doc from unchanged]
  rw [order] at begun
  exact ⟨doc, script, parsed, tour, ran ▸ follows, begun⟩

end Visitor

end SlimSvg
