import SlimSvg.Proofs.Tree.Attributes
import SlimSvg.Proofs.Tree.Culling
import SlimSvg.Proofs.Value.Frugal

namespace SlimSvg

/-!
# How long a document is written

Without broken lines the text of a document is the join of what is written for its
nodes.  So it does not become longer as long as no node is added, no element takes more
room for its attributes, and nothing else changes.  An element that loses its last child
is written with one tag instead of two.
-/

open Written

/-! ## Attributes -/

namespace Written

theorem size_join (parts : List String) : Text.size (String.join parts) = (parts.map Text.size).sum := by
  induction parts with
  | nil => rfl
  | cons first rest inductionHypothesis =>
      rw [String.join_cons, Text.size, String.utf8ByteSize_append, List.map_cons, List.sum_cons, ← inductionHypothesis]

theorem size_attributeText (name value : String) :
    Text.size (attributeText name value) = Text.size name + 4 + Text.size (escape attributeChar value) := by
  have blank : Text.size " " = 1 := by decide
  have opened : Text.size "=\"" = 2 := by decide
  have closed : Text.size "\"" = 1 := by decide
  simp only [Text.size] at blank opened closed ⊢
  rw [attributeText, String.utf8ByteSize_append, String.utf8ByteSize_append, String.utf8ByteSize_append,
    String.utf8ByteSize_append, blank, opened, closed]
  omega

/-- The room that a typed attribute takes. -/
def room (a : Attribute) : Nat :=
  Text.size (attributeText a.name a.value.text)

/-- The room that the first declaration of the own namespace takes. -/
def declarationRoom (attributes : Attributes) : Nat :=
  ((attributes.get? "xmlns").map fun v => Text.size (attributeText "xmlns" v.text)).getD 0

/-- The room that the other typed attributes take. -/
def ownRoom (attributes : Attributes) : Nat :=
  ((attributes.items.filter (·.name != "xmlns")).map room).sum

/-- An element takes no more room if its typed attributes take none. -/
theorem size_attributes_le {e : Element} {changed : Attributes}
    (declared : declarationRoom changed ≤ declarationRoom e.attributes)
    (own : ownRoom changed ≤ ownRoom e.attributes) :
    Text.size (attributes { e with attributes := changed }) ≤ Text.size (attributes e) := by
  have front : ∀ attributes : Attributes, Text.size (String.join
      ((attributes.get? "xmlns").map fun v => attributeText "xmlns" v.text).toList) = declarationRoom attributes := by
    intro attributes
    rw [declarationRoom]
    cases attributes.get? "xmlns" with
    | none => rfl
    | some v => exact (size_join _).trans (Nat.add_zero _)
  have sized : ∀ attributes : Attributes, Text.size (Written.attributes { e with attributes := attributes }) =
      declarationRoom attributes
        + ((e.foreign.partition (·.isDeclaration)).1.map fun a =>
            Text.size (attributeText a.qualifiedName a.value)).sum
        + ownRoom attributes
        + ((e.foreign.partition (·.isDeclaration)).2.map fun a =>
            Text.size (attributeText a.qualifiedName a.value)).sum := by
    intro attributes
    rw [← front, size_join, Written.attributes, size_join]
    simp only [List.map_append, List.sum_append, List.map_map]
    rw [Element.attributeText?, Option.map_map]
    rfl
  have before := sized e.attributes
  have after := sized changed
  change Text.size (attributes e) = _ at before
  omega

/-- Shortened values take no more room. -/
theorem size_mapValues_le {e : Element} {f : String → AttributeValue → AttributeValue}
    (shorter : ∀ a ∈ e.attributes.items,
      Text.size (escape attributeChar (f a.name a.value).text) ≤ Text.size (escape attributeChar a.value.text)) :
    Text.size (attributes { e with attributes := e.attributes.mapValues f }) ≤ Text.size (attributes e) := by
  apply size_attributes_le
  · rw [declarationRoom, declarationRoom, Attributes.get?, Attributes.get?, Attributes.mapValues, List.find?_map]
    have same : ((fun a : Attribute => a.name == "xmlns") ∘ fun a : Attribute => { a with value := f a.name a.value }) =
        fun a => a.name == "xmlns" := rfl
    rw [same]
    cases found : e.attributes.items.find? (·.name == "xmlns") with
    | none => exact Nat.le_refl _
    | some a =>
        change Text.size (attributeText "xmlns" (f a.name a.value).text) ≤ Text.size (attributeText "xmlns" a.value.text)
        rw [size_attributeText, size_attributeText]
        exact Nat.add_le_add_left (shorter a (List.mem_of_find?_eq_some found)) _
  · rw [ownRoom, ownRoom, Attributes.mapValues, List.filter_map, List.map_map]
    have same : ((fun a : Attribute => a.name != "xmlns") ∘ fun a : Attribute => { a with value := f a.name a.value }) =
        fun a => a.name != "xmlns" := rfl
    rw [same]
    refine List.sum_le_sum fun a listed => ?_
    change Text.size (attributeText a.name (f a.name a.value).text) ≤ Text.size (attributeText a.name a.value.text)
    rw [size_attributeText, size_attributeText]
    exact Nat.add_le_add_left (shorter a (List.mem_filter.mp listed).1) _

/-- Attributes that are left away take no room, if the declaration of the own namespace stays. -/
theorem size_retain_le {e : Element} {keep : Attribute → Bool}
    (kept : ∀ a ∈ e.attributes.items, a.name = "xmlns" → keep a = true) :
    Text.size (attributes { e with attributes := e.attributes.retain keep }) ≤ Text.size (attributes e) := by
  apply size_attributes_le
  · rw [declarationRoom, declarationRoom, Attributes.get?_retain_of_kept kept]
  · rw [ownRoom, ownRoom, Attributes.retain]
    exact ((List.filter_sublist.filter _).map room).sum_le_sum fun _ _ => Nat.zero_le _

end Written

/-! ## Nodes -/

/-- Whether a node takes no more room than another one in its place. -/
inductive NodeContent.Slims : NodeContent → NodeContent → Prop
  | same (content : NodeContent) : Slims content content
  | element {e other : Element} (named : other.qualifiedName = e.qualifiedName) (raw : isRaw other = isRaw e)
      (shorter : Text.size (attributes other) ≤ Text.size (attributes e)) : Slims (.element e) (.element other)

theorem NodeContent.Slims.trans {first second third : NodeContent} (slims : Slims first second)
    (further : Slims second third) : Slims first third := by
  cases slims with
  | same => exact further
  | element named raw shorter =>
      cases further with
      | same => exact .element named raw shorter
      | element namedAgain rawAgain shorterAgain =>
          exact .element (namedAgain.trans named) (rawAgain.trans raw) (Nat.le_trans shorterAgain shorter)

namespace Document

/-- Whether a document has no node that another one lacks, and each of its nodes takes no
more room than before. -/
structure Lighter (doc other : Document) : Prop where
  size_eq : other.nodes.size = doc.nodes.size
  children_sublist : ∀ id, (other.children id).Sublist (doc.children id)
  content_slims : ∀ id, (doc.content id).Slims (other.content id)

namespace Lighter

variable {doc other third : Document}

theorem refl (doc : Document) : Lighter doc doc :=
  ⟨rfl, fun _ => .refl _, fun _ => .same _⟩

theorem trans (first : Lighter doc other) (second : Lighter other third) : Lighter doc third where
  size_eq := second.size_eq.trans first.size_eq
  children_sublist id := (second.children_sublist id).trans (first.children_sublist id)
  content_slims id := (first.content_slims id).trans (second.content_slims id)

theorem of_culled (culled : Culled doc other) : Lighter doc other where
  size_eq := culled.size_eq
  children_sublist id := culled.children_eq id ▸ List.filter_sublist
  content_slims id := culled.content_eq id ▸ .same _

theorem detach (links : doc.Linked) (id : NodeId) : Lighter doc (doc.detach id) where
  size_eq := size_detach id doc
  children_sublist parent := children_detach id links parent ▸ List.filter_sublist
  content_slims node := content_detach id links node ▸ .same _

theorem modifyElement {id : NodeId} {f : Element → Element}
    (slims : ∀ e, doc.element? id = some e → NodeContent.Slims (.element e) (.element (f e))) :
    Lighter doc (doc.modifyElement id f) where
  size_eq := Array.size_modify
  children_sublist node := (sameShape_modifyElement doc id f).children_eq node ▸ .refl _
  content_slims node := by
    rw [content, content, node_modifyElement]
    split
    · next same =>
      dsimp only
      split
      · next e held => exact held ▸ slims e (by rw [← same, element?, content, held]; rfl)
      · exact .same _
    · exact .same _

theorem mapElements {P : Element → Prop} (grown : doc.Grown P) {f : Element → Element} (kept : ∀ e, P e → P (f e))
    (slims : ∀ e, P e → NodeContent.Slims (.element e) (.element (f e))) : Lighter doc (doc.mapElements f) := by
  change Lighter doc (doc.elements.foldl (fun doc node => doc.modifyElement node f) doc)
  generalize doc.elements = nodes
  induction nodes generalizing doc with
  | nil => exact .refl doc
  | cons node rest inductionHypothesis =>
      exact (modifyElement fun e found => slims e (grown.element_fits found)).trans
        (inductionHypothesis (grown.modifyElement node f kept))

end Lighter

end Document

/-! ## Texts -/

namespace Written

theorem lineStart_compact (depth : Nat) : lineStart {} depth = "" :=
  rfl

mutual

/-- Without broken lines it does not matter where a branch stands. -/
theorem branch_compact (depth : Nat) (inline raw : Bool) :
    ∀ b : Branch, branch {} depth inline raw b = branch {} 0 true raw b
  | .node .root _ => rfl
  | .node (.doctype _) _ => rfl
  | .node (.instruction _ _) _ => rfl
  | .node (.comment _) _ => rfl
  | .node (.text _) _ => rfl
  | .node (.element _) [] => rfl
  | .node (.element e) (child :: rest) => by
    rw [branch, branch, branches_compact _ _ _ (child :: rest), branches_compact (0 + 1) _ _ (child :: rest)]
    simp only [lineStart_compact, ite_self]

theorem branches_compact (depth : Nat) (inline raw : Bool) :
    ∀ bs : List Branch, branches {} depth inline raw bs = branches {} 0 true raw bs
  | [] => by rw [branches, branches]
  | b :: rest => by
    rw [branches, branches, branch_compact depth inline raw b, branches_compact depth inline raw rest]
    simp only [lineStart_compact, ite_self]

end

/-- How long a branch is written without broken lines. -/
def weight (raw : Bool) (b : Branch) : Nat :=
  Text.size (branch {} 0 true raw b)

theorem weight_childless (raw : Bool) (e : Element) :
    weight raw (.node (.element e) []) = Text.size e.qualifiedName + Text.size (attributes e) + 3 := by
  have begun : ("<" : String).utf8ByteSize = 1 := by decide
  have ended : ("/>" : String).utf8ByteSize = 2 := by decide
  change ("<" ++ e.qualifiedName ++ attributes e ++ "/>").utf8ByteSize = _
  rw [String.utf8ByteSize_append, String.utf8ByteSize_append, String.utf8ByteSize_append, begun, ended]
  dsimp only [Text.size]
  omega

theorem weight_parent (raw : Bool) (e : Element) {children : List Branch} (nonempty : children ≠ []) :
    weight raw (.node (.element e) children) =
      2 * Text.size e.qualifiedName + Text.size (attributes e) + 5 + (children.map (weight (isRaw e))).sum := by
  cases children with
  | nil => exact absurd rfl nonempty
  | cons child rest =>
      have begun : ("<" : String).utf8ByteSize = 1 := by decide
      have ended : (">" : String).utf8ByteSize = 1 := by decide
      have closed : ("</" : String).utf8ByteSize = 2 := by decide
      have inner : ∀ bs, (branches {} 0 true (isRaw e) bs).map Text.size = bs.map (weight (isRaw e)) := by
        intro bs
        induction bs with
        | nil => rfl
        | cons b rest inductionHypothesis =>
            rw [branches, List.map_cons, List.map_cons, inductionHypothesis, if_pos rfl, String.empty_append, weight]
      have written : branch {} 0 true raw (.node (.element e) (child :: rest)) =
          "<" ++ e.qualifiedName ++ attributes e ++ ">"
            ++ String.join (branches {} 0 true (isRaw e) (child :: rest)) ++ "</" ++ e.qualifiedName ++ ">" := by
        rw [branch, branches_compact _ _ _ (child :: rest)]
        simp only [lineStart_compact, ite_self, String.append_empty]
      have joined := (size_join (branches {} 0 true (isRaw e) (child :: rest))).trans (congrArg List.sum (inner _))
      rw [weight, written]
      dsimp only [Text.size] at joined ⊢
      simp only [String.utf8ByteSize_append, begun, ended, closed, joined]
      omega

/-- A node takes no more room if neither its own text nor the texts below it do. -/
theorem weight_le {content other : NodeContent} (slims : content.Slims other) (raw : Bool)
    {children changed : List Branch} (emptied : children = [] → changed = [])
    (below : ∀ raw, (changed.map (weight raw)).sum ≤ (children.map (weight raw)).sum) :
    weight raw (.node other changed) ≤ weight raw (.node content children) := by
  have elements : ∀ {e new : Element}, new.qualifiedName = e.qualifiedName → isRaw new = isRaw e →
      Text.size (attributes new) ≤ Text.size (attributes e) →
        weight raw (.node (.element new) changed) ≤ weight raw (.node (.element e) children) := by
    intro e new named sameRaw shorter
    by_cases childless : children = []
    · rw [emptied childless, childless, weight_childless, weight_childless, named]
      omega
    · rw [weight_parent raw e childless]
      by_cases gone : changed = []
      · rw [gone, weight_childless, named]
        omega
      · have inner := below (isRaw e)
        rw [weight_parent raw new gone, named, sameRaw]
        omega
  cases slims with
  | element named sameRaw shorter => exact elements named sameRaw shorter
  | same =>
      cases content with
      | element e => exact elements rfl rfl (Nat.le_refl _)
      | _ => exact Nat.le_refl _

theorem topmost_compact (before : String) (bs : List Branch) :
    topmost {} before bs = before ++ String.join (bs.map (branch {} 0 true false)) := by
  induction bs generalizing before with
  | nil => rw [topmost, List.map_nil, String.join_nil, String.append_empty]
  | cons b rest inductionHypothesis =>
      rw [topmost, inductionHypothesis, List.map_cons, String.join_cons, branch_compact 0 false false b]
      simp only [lineStart_compact, ite_self, String.append_empty, String.append_assoc]

end Written

namespace Document

theorem size_written (doc : Document) :
    Text.size (doc.written {}) = (doc.branches.map (weight false)).sum := by
  change Text.size (topmost {} "" doc.branches) = _
  rw [topmost_compact, String.empty_append, size_join, List.map_map]
  rfl

variable {doc other : Document}

theorem Lighter.sum_weight_le (lighter : Lighter doc other) {bound : Nat}
    (each : ∀ id raw, weight raw (other.branchWithin bound id) ≤ weight raw (doc.branchWithin bound id))
    (id : NodeId) (raw : Bool) :
    (((other.children id).map (other.branchWithin bound)).map (weight raw)).sum ≤
      (((doc.children id).map (doc.branchWithin bound)).map (weight raw)).sum := by
  rw [List.map_map, List.map_map]
  calc ((other.children id).map (weight raw ∘ other.branchWithin bound)).sum
    _ ≤ ((doc.children id).map (weight raw ∘ other.branchWithin bound)).sum :=
        ((lighter.children_sublist id).map _).sum_le_sum fun _ _ => Nat.zero_le _
    _ ≤ ((doc.children id).map (weight raw ∘ doc.branchWithin bound)).sum :=
        List.sum_le_sum fun child _ => each child raw

theorem Lighter.weight_branchWithin_le (lighter : Lighter doc other) (bound : Nat) (id : NodeId) (raw : Bool) :
    weight raw (other.branchWithin bound id) ≤ weight raw (doc.branchWithin bound id) := by
  induction bound generalizing id raw with
  | zero => exact weight_le (lighter.content_slims id) raw (fun _ => rfl) fun _ => Nat.le_refl _
  | succ bound inductionHypothesis =>
      refine weight_le (lighter.content_slims id) raw ?_ fun raw =>
        lighter.sum_weight_le inductionHypothesis id raw
      intro childless
      rw [List.map_eq_nil_iff] at childless ⊢
      exact List.sublist_nil.mp (childless ▸ lighter.children_sublist id)

/-- A lighter document is written at most as long. -/
theorem Lighter.size_written_le (lighter : Lighter doc other) :
    Text.size (other.written {}) ≤ Text.size (doc.written {}) := by
  rw [size_written, size_written, branches, branches, branch, branch, lighter.size_eq]
  cases doc.nodes.size with
  | zero => exact Nat.le_refl _
  | succ size => exact lighter.sum_weight_le (lighter.weight_branchWithin_le size) root false

end Document

end SlimSvg
