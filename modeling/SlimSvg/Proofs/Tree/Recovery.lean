import Mathlib.Data.List.Flatten
import SlimSvg.Proofs.Tree.Prologue
import SlimSvg.Proofs.Tree.Reading
import SlimSvg.Proofs.Xml.OneFront
import SlimSvg.Proofs.Xml.Root

namespace SlimSvg

/-!
# Document types that are found again

The document type declaration of a text is looked for a second time, by its keyword and by
the brackets and quotation marks in it.  Comments and instructions can mislead this search:
the keyword may stand in one that comes first, and a bracket or a quotation mark in one
between the brackets of the declaration.  Where neither happens, the declaration is found
as it was written, and it takes its place among the other nodes before the root element.
-/

/-! ## The keyword in a front -/

namespace Prologue

/-- Blanks have no character of the keyword. -/
theorem apart_of_blank {cs : List Char} (blank : ∀ c ∈ cs, Text.isXmlSpace c = true) :
    ∀ c ∈ cs, c ∉ "<!DOCTYPE".toList := by
  intro c inside
  have isBlank := blank c inside
  simp only [Text.isXmlSpace, Bool.or_eq_true, beq_iff_eq] at isBlank
  rcases isBlank with ((rfl | rfl) | rfl) | rfl <;> decide

/-- The keyword of the declaration reaches over the end of nothing that is blank or ends with
a sign. -/
theorem infix_part_append_iff {part : List Char}
    (ends : (∀ c ∈ part, Text.isXmlSpace c = true) ∨ ∃ front, part = front ++ ['>']) (cs : List Char) :
    "<!DOCTYPE".toList <:+: part ++ cs ↔ "<!DOCTYPE".toList <:+: part ∨ "<!DOCTYPE".toList <:+: cs := by
  rcases ends with blank | ⟨front, rfl⟩
  · have alone := Text.infix_append_left_iff (by decide) (apart_of_blank blank) []
    rw [List.append_nil, List.infix_nil] at alone
    rw [Text.infix_append_left_iff (by decide) (apart_of_blank blank), alone, or_iff_right (by decide)]
  · have alone : "<!DOCTYPE".toList <:+: front ++ ['>'] ↔ _ := Text.infix_append_cons_iff (by decide) front []
    rw [List.infix_nil, or_iff_left (by decide)] at alone
    rw [List.append_assoc, List.singleton_append, Text.infix_append_cons_iff (by decide), alone]

end Prologue

namespace Xml

namespace FrontPart

/-- Outside of brackets, a part that is not blank ends with a sign. -/
theorem exists_end {part : FrontPart} (wellFormed : part.IsWellFormed false) :
    (∀ c ∈ part.text, Text.isXmlSpace c = true) ∨ ∃ front, part.text = front ++ ['>'] := by
  cases part with
  | blank cs => exact Or.inl wellFormed
  | comment text => exact Or.inr ⟨"<!--".toList ++ (text ++ "--".toList), by simp [FrontPart.text]⟩
  | instruction target gap value =>
      exact Or.inr ⟨"<?".toList ++ (target ++ (gap ++ (value ++ ['?']))), by simp [FrontPart.text]⟩
  | declaration keyword body => exact Or.inr ⟨keyword.toList ++ body, (List.append_assoc _ _ _).symm⟩

/-- The keyword of the declaration stands in one of the parts or behind them. -/
theorem infix_textOf_append_iff {parts : List FrontPart} (wellFormed : ∀ part ∈ parts, part.IsWellFormed false)
    (cs : List Char) :
    "<!DOCTYPE".toList <:+: textOf parts ++ cs ↔
      (∃ part ∈ parts, "<!DOCTYPE".toList <:+: part.text) ∨ "<!DOCTYPE".toList <:+: cs := by
  induction parts with
  | nil => simp [textOf]
  | cons part rest inductionHypothesis =>
      rw [List.forall_mem_cons] at wellFormed
      rw [textOf, List.flatMap_cons, List.append_assoc, Prologue.infix_part_append_iff (exists_end wellFormed.1), ← textOf,
        inductionHypothesis wellFormed.2]
      simp only [List.mem_cons, exists_eq_or_imp, or_assoc]

end FrontPart

namespace Front

theorem infix_opening_append_iff {opening : List Char} (opens : IsOpening opening) (cs : List Char) :
    "<!DOCTYPE".toList <:+: opening ++ cs ↔ "<!DOCTYPE".toList <:+: cs := by
  rcases opens with ⟨mark, declaration, rfl, isMark, declared⟩
  have apart : ∀ c ∈ mark, c ∉ "<!DOCTYPE".toList := by
    rcases isMark with rfl | rfl
    · exact nofun
    · rw [List.forall_mem_singleton]
      decide
  rw [List.append_assoc, Text.infix_append_left_iff (by decide) apart]
  rcases declared with rfl | ⟨ds, tagless, -, rfl⟩
  · rfl
  · have absent : '<' ∉ "?xml".toList ++ (ds ++ "?>".toList) := by
      simp only [List.mem_append, not_or]
      exact ⟨by decide, tagless.2, by decide⟩
    have shape : "<?xml".toList ++ (ds ++ "?>".toList) ++ cs = '<' :: ("?xml".toList ++ (ds ++ "?>".toList) ++ cs) := rfl
    have notHere : ¬ "<!DOCTYPE".toList <+: '<' :: ("?xml".toList ++ (ds ++ "?>".toList) ++ cs) := by
      rintro ⟨_, same⟩
      cases same
    rw [shape, List.infix_cons_iff, or_iff_right notHere, Text.infix_append_left_iff_of_head rfl absent]

/-- Whether no comment and no instruction before the document type declaration, or before
the root element if there is none, holds the keyword of the declaration. -/
def IsUnmistakable (f : Front) : Prop :=
  ∀ part ∈ f.before, ¬ "<!DOCTYPE".toList <:+: part.text

variable {f : Front}

theorem isUnmistakable_iff (wellFormed : f.IsWellFormed) : f.IsUnmistakable ↔ ¬ "<!DOCTYPE".toList <:+: f.head := by
  have parts := FrontPart.infix_textOf_append_iff wellFormed.before []
  rw [List.append_nil, List.infix_nil, or_iff_left (by decide)] at parts
  rw [head, infix_opening_append_iff wellFormed.opening, parts, IsUnmistakable]
  push Not
  rfl

theorem hasPiece_head (wellFormed : f.IsWellFormed) (unmistakable : f.IsUnmistakable) :
    Text.hasPiece "<!DOCTYPE".toList f.head = false := by
  rw [← Bool.not_eq_true, Text.hasPiece_iff]
  exact (isUnmistakable_iff wellFormed).mp unmistakable

end Front

end Xml

/-! ## What the search finds -/

namespace Prologue

/-- Behind the first keyword the search goes on to the first sign that can end a
declaration. -/
theorem doctype?_append {before : List Char} (absent : Text.hasPiece "<!DOCTYPE".toList before = false)
    (rest : List Char) :
    doctype? (before ++ ("<!DOCTYPE".toList ++ rest)) =
      (untilEnd? 0 none rest).map fun body => (before.length, .doctype (String.ofList (Text.trimChars body))) := by
  rw [doctype?, Text.cut?_append (by decide) (by decide) absent rest]
  change (untilEnd? 0 none rest).bind _ = _
  cases untilEnd? 0 none rest <;> rfl

/-- Without brackets nothing misleads the search. -/
theorem closed_of_level {cs : List Char} (level : Xml.Level cs) : Closed 0 cs := by
  induction level with
  | nil => exact .nil
  | @plain c cs ordinary _ inductionHypothesis =>
      refine .plain (fun listed => ordinary ?_) (fun ends => absurd (ends ▸ ordinary) (by decide)) inductionHypothesis
      simp only [List.mem_cons, List.not_mem_nil, or_false] at listed
      rcases listed with rfl | rfl | rfl | rfl <;> decide
  | quoted mark inside _ inductionHypothesis => exact .quoted mark inside inductionHypothesis

end Prologue

namespace Xml.Front

/-- Whether the search ends with the declaration: between its brackets, quotation marks come
in pairs and brackets are balanced, in comments and instructions as elsewhere, and a sign
that could end the declaration stands where it does not. -/
def IsClosed (f : Front) : Prop :=
  ∀ d behind, f.doctype = some (d, behind) → d.subset.isSome → Prologue.Closed 0 d.body

/-- The document types that are written in a front, as they are to be found. -/
def doctypes (f : Front) : List String :=
  f.doctype.elim [] fun (d, _) => [String.ofList (Text.trimChars d.body)]

/-- What the search comes to, if no remark misleads it before it begins. -/
theorem doctype?_text {f : Front} (wellFormed : f.IsWellFormed) (unmistakable : f.IsUnmistakable) :
    Prologue.doctype? f.text = f.doctype.bind fun (d, behind) =>
      (Prologue.untilEnd? 0 none (d.body ++ '>' :: FrontPart.textOf behind)).map fun body =>
        (f.head.length, .doctype (String.ofList (Text.trimChars body))) := by
  have absent := hasPiece_head wellFormed unmistakable
  cases declared : f.doctype with
  | none =>
      rw [text, tail, declared, Option.elim_none, List.append_nil, Prologue.doctype?_eq_none absent]
      rfl
  | some found =>
      rcases found with ⟨d, behind⟩
      have shape : d.text ++ FrontPart.textOf behind =
          "<!DOCTYPE".toList ++ (d.body ++ '>' :: FrontPart.textOf behind) := by
        unfold TypeDeclaration.text
        generalize "<!DOCTYPE".toList = word
        rw [List.append_assoc, List.append_assoc, List.singleton_append]
      rw [text, tail, declared, Option.elim_some]
      dsimp only
      rw [shape, Prologue.doctype?_append absent]
      rfl

/-- The search ends with the declaration exactly if nothing between its brackets misleads
it. -/
theorem isClosed_iff {f : Front} (wellFormed : f.IsWellFormed) :
    f.IsClosed ↔ ∀ d behind, f.doctype = some (d, behind) →
      Prologue.untilEnd? 0 none (d.body ++ '>' :: FrontPart.textOf behind) = some d.body := by
  constructor
  · intro closed d behind declared
    rw [Prologue.untilEnd?_eq_some_iff]
    cases bracketed : d.subset with
    | some found => exact closed d behind declared (by rw [bracketed]; rfl)
    | none =>
        have bare : d.body = d.header := by
          rw [TypeDeclaration.body, bracketed, Option.elim_none, List.append_nil]
        rw [bare]
        exact Prologue.closed_of_level (wellFormed.doctype d behind declared).1.header
  · intro found d behind declared _
    exact Prologue.untilEnd?_eq_some_iff.mp (found d behind declared)

end Xml.Front

/-! ## Document types among branches -/

/-- The document type that a node holds. -/
def NodeContent.doctype? : NodeContent → Option String
  | .doctype declared => some declared
  | _ => none

namespace Branch

mutual

/-- The document types of a branch in document order. -/
def doctypes : Branch → List String
  | .node content children => content.doctype?.toList ++ doctypesOf children

def doctypesOf : List Branch → List String
  | [] => []
  | b :: rest => doctypes b ++ doctypesOf rest

end

theorem doctypesOf_append (first second : List Branch) :
    doctypesOf (first ++ second) = doctypesOf first ++ doctypesOf second := by
  induction first with
  | nil => rfl
  | cons b rest inductionHypothesis =>
      rw [List.cons_append, doctypesOf, doctypesOf, inductionHypothesis, List.append_assoc]

theorem doctypesOf_flatMap {α : Type} (items : List α) (f : α → List Branch) :
    doctypesOf (items.flatMap f) = items.flatMap fun item => doctypesOf (f item) := by
  induction items with
  | nil => rfl
  | cons item rest inductionHypothesis =>
      rw [List.flatMap_cons, List.flatMap_cons, doctypesOf_append, inductionHypothesis]

mutual

/-- Parsed markup has no document types. -/
theorem doctypes_of_each : ∀ b : Branch, Each Reading.IsMarkup b → doctypes b = []
  | .node content children, each => by
    have none : content.doctype? = Option.none := by
      cases content with
      | doctype declared => exact absurd each.1 id
      | _ => rfl
    rw [doctypes, none, doctypesOf_of_each children each.2]
    rfl

theorem doctypesOf_of_each : ∀ bs : List Branch, EachOf Reading.IsMarkup bs → doctypesOf bs = []
  | [], _ => rfl
  | b :: rest, each => by
    rw [doctypesOf, doctypes_of_each b each.1, doctypesOf_of_each rest each.2]
    rfl

end

end Branch

namespace Reading

/-- A node of the markup with its place. -/
def nodeItem (p : Xml.PlacedNode) : Nat × List Branch :=
  (p.offset, branch false [] p.node)

def declarationItems (text : List Char) : List (Nat × List Branch) :=
  ((Prologue.declaration? text).map fun c => (0, [.node c []])).toList

def doctypeItems (text : List Char) : List (Nat × List Branch) :=
  ((Prologue.doctype? text).map fun (place, c) => (place, [.node c []])).toList

theorem placedBranches_eq_mergeSort (text : List Char) (placed : List Xml.PlacedNode) :
    placedBranches text placed =
      (declarationItems text ++ doctypeItems (text.take (rootOffset placed)) ++ placed.map nodeItem).mergeSort
        fun a b => a.1 ≤ b.1 :=
  rfl

/-- The document type that was found is the only one. -/
theorem doctypesOf_placedBranches (text : List Char) (placed : List Xml.PlacedNode) :
    Branch.doctypesOf ((placedBranches text placed).flatMap (·.2)) =
      ((Prologue.doctype? (text.take (rootOffset placed))).bind fun found => found.2.doctype?).toList := by
  have markup : (placed.map nodeItem).flatMap (fun item => Branch.doctypesOf item.2) = [] := by
    rw [List.flatMap_eq_nil_iff]
    intro item listed
    rcases List.mem_map.mp listed with ⟨p, -, rfl⟩
    exact Branch.doctypesOf_of_each _ (eachOf_branch false [] p.node)
  have declaration : (declarationItems text).flatMap (fun item => Branch.doctypesOf item.2) = [] := by
    rw [declarationItems]
    cases found : Prologue.declaration? text with
    | none => rfl
    | some c =>
        rcases instruction_of_declaration? found with ⟨name, value, rfl⟩
        rfl
  have doctype : (doctypeItems (text.take (rootOffset placed))).flatMap (fun item => Branch.doctypesOf item.2) =
      ((Prologue.doctype? (text.take (rootOffset placed))).bind fun found => found.2.doctype?).toList := by
    rw [doctypeItems]
    cases found : Prologue.doctype? (text.take (rootOffset placed)) with
    | none => rfl
    | some here =>
        rcases here with ⟨place, c⟩
        rcases doctype_of_doctype? found with ⟨declared, rfl⟩
        rfl
  have sorted : ((placedBranches text placed).flatMap fun item => Branch.doctypesOf item.2).Perm
      ((Prologue.doctype? (text.take (rootOffset placed))).bind fun found => found.2.doctype?).toList := by
    have unsorted := (List.mergeSort_perm (declarationItems text ++ doctypeItems (text.take (rootOffset placed)) ++
      placed.map nodeItem) fun a b => a.1 ≤ b.1).flatMap_right fun item => Branch.doctypesOf item.2
    rw [List.flatMap_append, List.flatMap_append, markup, declaration, doctype, List.nil_append, List.append_nil]
      at unsorted
    exact unsorted
  rw [Branch.doctypesOf_flatMap]
  cases found : (Prologue.doctype? (text.take (rootOffset placed))).bind fun found => found.2.doctype? with
  | none =>
      rw [found] at sorted
      exact List.perm_nil.mp sorted
  | some declared =>
      rw [found] at sorted
      exact List.perm_singleton.mp sorted

end Reading

/-! ## The order of the nodes -/

namespace Xml

namespace FrontPart

/-- What the node that a part stands for holds in a document. -/
def content? : FrontPart → Option NodeContent
  | comment text => some (.comment (String.ofList text))
  | instruction target _ value => some (.instruction (String.ofList target) (String.ofList value))
  | _ => none

theorem contents_placed (o : Nat) (parts : List FrontPart) :
    (((placed o parts).map Reading.nodeItem).flatMap (·.2)).map Branch.content = parts.filterMap content? := by
  induction parts generalizing o with
  | nil => rfl
  | cons part rest inductionHypothesis =>
      rw [placed, List.map_append, List.flatMap_append, List.map_append, inductionHypothesis]
      cases part <;> rfl

/-- The nodes of parts stand one behind the other. -/
theorem placedWithin (o : Nat) (parts : List FrontPart) :
    PlacedWithin (placed o parts) (parts.filterMap node?) o (o + (textOf parts).length) := by
  induction parts generalizing o with
  | nil => exact .nil _ _
  | cons part rest inductionHypothesis =>
      have later := inductionHypothesis (o + part.text.length)
      have whole : (textOf (part :: rest)).length = part.text.length + (textOf rest).length := by
        rw [textOf, List.flatMap_cons, List.length_append, ← textOf]
      rw [Nat.add_assoc, ← whole] at later
      rw [placed, List.filterMap_cons]
      cases found : part.node? with
      | none => exact later.widen (Nat.le_add_right _ _) (Nat.le_refl _)
      | some n =>
          have positive : 0 < part.text.length := by
            cases part with
            | blank cs => cases found
            | declaration keyword body => cases found
            | _ => exact Nat.succ_pos _
          exact (PlacedWithin.single n (Nat.le_refl o) (Nat.lt_add_of_pos_right positive)).append later
            (Nat.le_add_right _ _) (by rw [whole]; omega)

end FrontPart

namespace Front

variable (f : Front)

theorem placedWithin_before : PlacedWithin f.placedBefore (f.before.filterMap FrontPart.node?) f.opening.length
    f.head.length := by
  rw [head, List.length_append]
  exact FrontPart.placedWithin _ _

theorem placedWithin_behind : ∃ nodes, PlacedWithin f.placedBehind nodes f.head.length f.text.length := by
  rw [placedBehind, text, tail, List.length_append]
  cases f.doctype with
  | none => exact ⟨[], .nil _ _⟩
  | some found =>
      rcases found with ⟨d, behind⟩
      rw [Option.elim_some, Option.elim_some, List.length_append, ← Nat.add_assoc]
      have inside : PlacedWithin (d.placed f.head.length) (d.parts.filterMap FrontPart.node?) f.head.length
          (f.head.length + d.text.length) := by
        refine (FrontPart.placedWithin _ _).widen (Nat.le_add_right _ _) ?_
        rcases d with ⟨header, _ | ⟨parts, gap⟩⟩
        · rw [TypeDeclaration.text_plain]
          generalize "<!DOCTYPE".toList = word
          change _ + ([] : List Char).length ≤ _
          simp only [List.length_append, List.length_nil, List.length_cons]
          omega
        · rw [TypeDeclaration.text_bracketed]
          generalize "<!DOCTYPE".toList = word
          change _ + (FrontPart.textOf parts).length ≤ _
          simp only [List.length_append, List.length_nil, List.length_cons]
          omega
      exact ⟨_, inside.append (FrontPart.placedWithin _ behind) (Nat.le_add_right _ _) (Nat.le_add_right _ _)⟩

/-- What stands before the root element of a document, in order: the XML declaration, the
remarks before the document type, the document type, and the remarks in it and behind it. -/
def contents (text : List Char) : List NodeContent :=
  (Prologue.declaration? text).toList ++ f.before.filterMap FrontPart.content? ++
    (f.doctypes.map NodeContent.doctype ++
      f.doctype.elim [] fun (d, behind) => (d.parts ++ behind).filterMap FrontPart.content?)

end Front

end Xml

namespace Reading

/-- Two runs of a sorted list follow each other if there is a place between them. -/
theorem sublist_of_place {α : Type} {items first second : List (Nat × α)} {place : Nat}
    (sorted : items.Pairwise fun a b => a.1 ≤ b.1) (firstListed : first.Sublist items)
    (secondListed : second.Sublist items) (early : ∀ a ∈ first, a.1 < place) (late : ∀ a ∈ second, place ≤ a.1) :
    (first ++ second).Sublist items := by
  have parted : items = (items.filter fun a => a.1 < place) ++ items.filter fun a => !decide (a.1 < place) := by
    clear firstListed secondListed
    induction sorted with
    | nil => rfl
    | @cons a rest least _ inductionHypothesis =>
        rw [List.filter_cons, List.filter_cons]
        by_cases before : a.1 < place
        · rw [if_pos (decide_eq_true before), if_neg (by rw [decide_eq_true before]; decide), List.cons_append,
            ← inductionHypothesis]
        · have noneBefore : (rest.filter fun a => a.1 < place) = [] := by
            rw [List.filter_eq_nil_iff]
            intro b listed
            have later := least b listed
            rw [decide_eq_true_eq]
            omega
          rw [noneBefore, List.nil_append] at inductionHypothesis
          rw [if_neg (by rw [decide_eq_true_eq]; exact before), noneBefore, List.nil_append,
            if_pos (by rw [decide_eq_false before]; rfl), ← inductionHypothesis]
  have firstKept : (first.filter fun a => a.1 < place) = first :=
    List.filter_eq_self.mpr fun a listed => decide_eq_true (early a listed)
  have secondKept : (second.filter fun a => !decide (a.1 < place)) = second :=
    List.filter_eq_self.mpr fun a listed => by
      rw [decide_eq_false (Nat.not_lt_of_le (late a listed))]
      rfl
  rw [parted, ← firstKept, ← secondKept]
  exact (firstListed.filter _).append (secondListed.filter _)

theorem byPlace_trans {α : Type} (a b c : Nat × α) (first : decide (a.1 ≤ b.1) = true)
    (second : decide (b.1 ≤ c.1) = true) : decide (a.1 ≤ c.1) = true := by
  rw [decide_eq_true_eq] at first second ⊢
  exact Nat.le_trans first second

theorem byPlace_total {α : Type} (a b : Nat × α) : (decide (a.1 ≤ b.1) || decide (b.1 ≤ a.1)) = true := by
  rw [Bool.or_eq_true, decide_eq_true_eq, decide_eq_true_eq]
  exact Nat.le_total a.1 b.1

/-- Of items with one place the first ones go first, so the XML declaration precedes all. -/
theorem mergeSort_declarationItems (text : List Char) (items : List (Nat × List Branch)) :
    ((declarationItems text ++ items).mergeSort fun a b => a.1 ≤ b.1) =
      declarationItems text ++ items.mergeSort fun a b => a.1 ≤ b.1 := by
  rw [declarationItems]
  cases Prologue.declaration? text with
  | none => rfl
  | some c =>
      rcases List.mergeSort_cons byPlace_trans byPlace_total (0, [.node c []]) items with
        ⟨before, behind, whole, rest, less⟩
      have none : before = [] := by
        rw [List.eq_nil_iff_forall_not_mem]
        intro b listed
        have impossible := less b listed
        rw [decide_eq_true (Nat.zero_le b.1)] at impossible
        cases impossible
      rw [none] at whole rest
      exact whole.trans (congrArg (_ :: ·) rest.symm)

/-- Nodes that stand one behind the other are sorted. -/
theorem sorted_nodeItems {placed : List Xml.PlacedNode} {nodes : List Xml.Node} {first last : Nat}
    (within : Xml.PlacedWithin placed nodes first last) :
    (placed.map nodeItem).Pairwise fun a b => decide (a.1 ≤ b.1) = true := by
  rw [List.pairwise_map]
  exact (List.pairwise_map.mp within.ordered).imp fun less => decide_eq_true (Nat.le_of_lt less)

section Front

variable {front : Xml.Front} {text rest : List Char} {root : Xml.Node} {later : List Xml.PlacedNode}

/-- The root element is found where the front ends. -/
theorem take_rootOffset (parted : text = front.text ++ '<' :: rest) (isElement : root.isElement = true) :
    text.take (rootOffset (front.placedBefore ++ front.placedBehind ++ ⟨front.text.length, root⟩ :: later)) =
      front.text := by
  have leaves : (front.placedBefore ++ front.placedBehind).find? (·.node.isElement) = none := by
    rw [List.find?_eq_none]
    intro p listed
    rcases List.mem_append.mp listed with before | behind
    · rw [Xml.FrontPart.isElement_of_mem_placed before]
      exact Bool.false_ne_true
    · rw [Xml.Front.isElement_of_mem_placedBehind behind]
      exact Bool.false_ne_true
  have place : rootOffset (front.placedBefore ++ front.placedBehind ++ ⟨front.text.length, root⟩ :: later) =
      front.text.length := by
    rw [rootOffset, List.find?_append, leaves, Option.none_or, List.find?_cons]
    dsimp only
    rw [isElement]
    rfl
  rw [place, parted, List.take_left]

/-- Where the declaration is found as it was written, it goes between the nodes before it
and those behind it. -/
theorem sublist_mergeSort_of_found
    (found : doctypeItems front.text = front.doctypes.map fun s => (front.head.length, [.node (.doctype s) []])) :
    (front.placedBefore.map nodeItem ++ (doctypeItems front.text ++
      (front.placedBehind.map nodeItem ++ [nodeItem ⟨front.text.length, root⟩]))).Sublist
        ((doctypeItems front.text ++ (front.placedBefore ++ front.placedBehind ++
          ⟨front.text.length, root⟩ :: later).map nodeItem).mergeSort fun a b => a.1 ≤ b.1) := by
  rcases front.placedWithin_behind with ⟨nodes, behind⟩
  have before := front.placedWithin_before
  have headLe : front.head.length ≤ front.text.length := by
    rw [Xml.Front.text, List.length_append]
    exact Nat.le_add_right _ _
  have behindKeys : ∀ a ∈ front.placedBehind.map nodeItem, front.head.length ≤ a.1 ∧ a.1 < front.text.length := by
    intro a listed
    rcases List.mem_map.mp listed with ⟨p, among, rfl⟩
    exact behind.within p among
  have rootKeys : ∀ a ∈ front.placedBehind.map nodeItem ++ [nodeItem ⟨front.text.length, root⟩],
      front.head.length ≤ a.1 := by
    intro a listed
    rcases List.mem_append.mp listed with among | last
    · exact (behindKeys a among).1
    · rw [List.mem_singleton.mp last]
      exact headLe
  have doctypeKeys : ∀ a ∈ doctypeItems front.text, a.1 = front.head.length := by
    intro a listed
    rw [found] at listed
    rcases List.mem_map.mp listed with ⟨_, -, rfl⟩
    rfl
  refine @sublist_of_place _ _ _ _ front.head.length ?_ ?_ ?_ ?_ ?_
  · exact (List.pairwise_mergeSort byPlace_trans byPlace_total _).imp of_decide_eq_true
  · refine List.sublist_mergeSort byPlace_trans byPlace_total (sorted_nodeItems before) ?_
    rw [List.map_append, List.map_append, List.append_assoc]
    exact (List.sublist_append_left _ _).trans (List.sublist_append_right _ _)
  · refine List.sublist_mergeSort byPlace_trans byPlace_total ?_ ?_
    · refine List.pairwise_append.mpr ⟨?_, List.pairwise_append.mpr ⟨sorted_nodeItems behind, List.pairwise_singleton _ _,
        ?_⟩, ?_⟩
      · rw [found, Xml.Front.doctypes]
        cases front.doctype <;> simp
      · intro a listed b last
        rw [List.mem_singleton.mp last]
        exact decide_eq_true (Nat.le_of_lt (behindKeys a listed).2)
      · intro a listed b later
        rw [doctypeKeys a listed]
        exact decide_eq_true (rootKeys b later)
    · refine List.Sublist.append (List.Sublist.refl _) ?_
      rw [List.map_append, List.map_append, List.append_assoc]
      refine (List.Sublist.append (List.Sublist.refl _) ?_).trans (List.sublist_append_right _ _)
      exact List.singleton_sublist.mpr List.mem_cons_self
  · intro a listed
    rcases List.mem_map.mp listed with ⟨p, among, rfl⟩
    exact (before.within p among).2
  · intro a listed
    rcases List.mem_append.mp listed with declared | later
    · exact Nat.le_of_eq (doctypeKeys a declared).symm
    · exact rootKeys a later

/-- The nodes before the root element hold what the front says. -/
theorem contents_front (tag : Xml.StartTag) (children : List Xml.Node)
    (found : doctypeItems front.text = front.doctypes.map fun s => (front.head.length, [.node (.doctype s) []])) :
    ((declarationItems text ++ (front.placedBefore.map nodeItem ++ (doctypeItems front.text ++
      (front.placedBehind.map nodeItem ++ [nodeItem ⟨front.text.length, .element tag children⟩])))).flatMap
        (·.2)).map Branch.content = front.contents text ++ [.element (element tag [])] := by
  have declaration : ((declarationItems text).flatMap (·.2)).map Branch.content = (Prologue.declaration? text).toList := by
    rw [declarationItems]
    cases Prologue.declaration? text <;> rfl
  have doctype : ((doctypeItems front.text).flatMap (·.2)).map Branch.content = front.doctypes.map NodeContent.doctype := by
    rw [found, Xml.Front.doctypes]
    cases front.doctype <;> rfl
  have behind : ((front.placedBehind.map nodeItem).flatMap (·.2)).map Branch.content =
      front.doctype.elim [] fun (d, behind) => (d.parts ++ behind).filterMap Xml.FrontPart.content? := by
    rw [Xml.Front.placedBehind]
    cases front.doctype with
    | none => rfl
    | some here =>
        rcases here with ⟨d, behind⟩
        rw [Option.elim_some, Option.elim_some, List.map_append, List.flatMap_append, List.map_append]
        dsimp only
        rw [List.filterMap_append, Xml.TypeDeclaration.placed, Xml.FrontPart.contents_placed,
          Xml.FrontPart.contents_placed]
  simp only [List.flatMap_append, List.map_append, declaration, doctype, behind, Xml.Front.placedBefore,
    Xml.FrontPart.contents_placed, Xml.Front.contents, List.append_assoc]
  rfl

end Front

end Reading

namespace Xml.Front

/-- Whether a document has exactly the document types of a front, at their places among the
nodes before the root element. -/
structure IsRecovered (f : Front) (text : List Char) (doc : Document) : Prop where
  doctypes_eq : Branch.doctypesOf doc.branches = f.doctypes
  order : ∃ e : Element, (f.contents text ++ [NodeContent.element e]).Sublist (doc.branches.map Branch.content)

/-- Where nothing misleads the search, it finds the declaration as it was written. -/
theorem doctype?_of_isClosed {f : Front} (wellFormed : f.IsWellFormed) (unmistakable : f.IsUnmistakable)
    (closed : f.IsClosed) :
    Prologue.doctype? f.text =
      f.doctype.map fun (d, _) => (f.head.length, .doctype (String.ofList (Text.trimChars d.body))) := by
  rw [doctype?_text wellFormed unmistakable]
  cases declared : f.doctype with
  | none => rfl
  | some here =>
      have ends := (isClosed_iff wellFormed).mp closed here.1 here.2 declared
      change (Prologue.untilEnd? 0 none (here.1.body ++ '>' :: FrontPart.textOf here.2)).map _ = _
      rw [ends]
      rfl

/-! ### Fronts of one text -/

theorem filterMap_solid (parts : List FrontPart) :
    (FrontPart.solid parts).filterMap FrontPart.content? = parts.filterMap FrontPart.content? := by
  have noNode (part : FrontPart) : (if (!part.isBlank) = true then part.content? else none) = part.content? := by
    cases part <;> rfl
  rw [FrontPart.solid, List.filterMap_filter]
  simp only [noNode]

/-- The document types of a front are known from its outline. -/
theorem doctypes_eq_outline (f : Front) :
    f.doctypes = f.outline.doctype.elim [] fun found => [String.ofList (Text.trimChars found.1.body)] := by
  rw [doctypes, outline]
  cases f.doctype <;> rfl

theorem contents_eq_outline (f : Front) (text : List Char) :
    f.contents text = (Prologue.declaration? text).toList ++ f.outline.before.filterMap FrontPart.content? ++
      (f.doctypes.map NodeContent.doctype ++ f.outline.doctype.elim [] fun found =>
        (found.1.parts?.getD [] ++ found.2).filterMap FrontPart.content?) := by
  rw [contents, outline, filterMap_solid]
  cases f.doctype with
  | none => rfl
  | some found =>
      rcases found with ⟨⟨header, _ | ⟨parts, gap⟩⟩, behind⟩ <;>
        simp [outlineOf, TypeDeclaration.outline, TypeDeclaration.parts, filterMap_solid]

/-- Whether nothing misleads the end of the search is known from the outline. -/
theorem isClosed_iff_outline (f : Front) :
    f.IsClosed ↔ ∀ found, f.outline.doctype = some found → found.1.parts?.isSome → Prologue.Closed 0 found.1.body := by
  rw [IsClosed, outline]
  cases f.doctype with
  | none =>
      constructor
      · rintro - _ ⟨⟩
      · rintro - _ _ ⟨⟩
  | some found =>
      rcases found with ⟨d, behind⟩
      have sameBrackets : d.outline.parts?.isSome = d.subset.isSome := Option.isSome_map
      constructor
      · rintro closed _ ⟨⟩ bracketed
        exact closed d behind rfl (sameBrackets ▸ bracketed)
      · rintro closed _ _ ⟨⟩ bracketed
        exact closed _ rfl (sameBrackets.trans bracketed)

variable {f g : Front}

theorem isRecovered_congr (same : f.outline = g.outline) {text : List Char} {doc : Document} :
    f.IsRecovered text doc ↔ g.IsRecovered text doc := by
  have types : f.doctypes = g.doctypes := by rw [doctypes_eq_outline, same, ← doctypes_eq_outline]
  have contentsEq : f.contents text = g.contents text := by
    rw [contents_eq_outline, same, types, ← contents_eq_outline]
  constructor
  · rintro ⟨doctypesEq, order⟩
    exact ⟨doctypesEq.trans types, contentsEq ▸ order⟩
  · rintro ⟨doctypesEq, order⟩
    exact ⟨doctypesEq.trans types.symm, contentsEq ▸ order⟩

end Xml.Front

namespace Document

/-- A text that is accepted begins with a front, of which this holds: if no remark before its
document type holds the keyword, the document type is recovered exactly if no remark between
its brackets misleads the search for its end. -/
theorem exists_front_recovered {text : String} {name : Option String} {doc : Document}
    (accepted : Document.read text name = .ok doc) :
    ∃ (front : Xml.Front) (c : Char) (rest : List Char), front.IsWellFormed ∧
      text.toList = front.text ++ '<' :: c :: rest ∧ Xml.isNameChar c = true ∧
      (front.IsUnmistakable → (front.IsRecovered text.toList doc ↔ front.IsClosed)) := by
  rw [read] at accepted
  cases reading : Xml.read text.toList with
  | error fault =>
      rw [reading] at accepted
      cases accepted
  | ok placed =>
      rw [reading] at accepted
      rw [← Except.ok.inj accepted]
      rcases Xml.exists_front_of_read reading with
        ⟨front, c, rest, root, later, wellFormed, parted, named, isElement, rfl⟩
      refine ⟨front, c, rest, wellFormed, parted, named, fun unmistakable => ?_⟩
      have types := Reading.doctypesOf_placedBranches text.toList
        (front.placedBefore ++ front.placedBehind ++ ⟨front.text.length, root⟩ :: later)
      rw [Reading.take_rootOffset parted isElement] at types
      constructor
      · intro recovered
        rw [Xml.Front.isClosed_iff wellFormed]
        intro d behind declared
        have same := recovered.doctypes_eq
        rw [branches_ofBranches, types, Xml.Front.doctype?_text wellFormed unmistakable, Xml.Front.doctypes, declared]
          at same
        cases found : Prologue.untilEnd? 0 none (d.body ++ '>' :: Xml.FrontPart.textOf behind) with
        | none =>
            change ((Prologue.untilEnd? 0 none (d.body ++ '>' :: Xml.FrontPart.textOf behind)).map _ |>.bind _).toList = _
              at same
            rw [found] at same
            cases same
        | some body =>
            change ((Prologue.untilEnd? 0 none (d.body ++ '>' :: Xml.FrontPart.textOf behind)).map _ |>.bind _).toList = _
              at same
            rw [found] at same
            have trimmed := String.ofList_injective (List.cons.inj same).1
            rcases Prologue.exists_append_of_untilEnd? found with ⟨others, whole⟩
            rw [Prologue.eq_of_trimChars_eq whole.symm trimmed]
      · intro closed
        have found := Xml.Front.doctype?_of_isClosed wellFormed unmistakable closed
        have items : Reading.doctypeItems front.text =
            front.doctypes.map fun s => (front.head.length, [.node (.doctype s) []]) := by
          rw [Reading.doctypeItems, found, Xml.Front.doctypes]
          cases front.doctype <;> rfl
        refine ⟨?_, ?_⟩
        · rw [branches_ofBranches, types, found, Xml.Front.doctypes]
          cases front.doctype <;> rfl
        · cases root with
          | element tag children =>
              refine ⟨Reading.element tag [], ?_⟩
              rw [branches_ofBranches, Reading.placedBranches_eq_mergeSort, Reading.take_rootOffset parted isElement,
                List.append_assoc, Reading.mergeSort_declarationItems, ← Reading.contents_front tag children items]
              exact (((List.Sublist.refl _).append (Reading.sublist_mergeSort_of_found items)).flatMap _).map _
          | _ => cases isElement

/-- Every text that is accepted begins with a front.  However the front is divided, if no
remark before its document type holds the keyword, the document type is recovered exactly if
no remark between its brackets misleads the search for its end. -/
theorem isRecovered_iff_isClosed {text : String} {name : Option String} {doc : Document}
    (accepted : Document.read text name = .ok doc) :
    (∃ (front : Xml.Front) (c : Char) (rest : List Char), front.IsWellFormed ∧
      text.toList = front.text ++ '<' :: c :: rest ∧ Xml.isNameChar c = true) ∧
    ∀ (front : Xml.Front) (c : Char) (rest : List Char), front.IsWellFormed →
      text.toList = front.text ++ '<' :: c :: rest → Xml.isNameChar c = true → front.IsUnmistakable →
        (front.IsRecovered text.toList doc ↔ front.IsClosed) := by
  rcases exists_front_recovered accepted with ⟨found, d, others, wellFormed, parted, named, recovered⟩
  refine ⟨⟨found, d, others, wellFormed, parted, named⟩, ?_⟩
  intro front c rest wellFormedToo partedToo namedToo unmistakable
  have same := Xml.Front.outline_eq wellFormedToo wellFormed namedToo named (partedToo.symm.trans parted)
  have heads : front.head = found.head := congrArg Xml.Front.Outline.head same
  rw [Xml.Front.isUnmistakable_iff wellFormedToo, heads, ← Xml.Front.isUnmistakable_iff wellFormed] at unmistakable
  rw [Xml.Front.isRecovered_congr same, recovered unmistakable, Xml.Front.isClosed_iff_outline,
    Xml.Front.isClosed_iff_outline, same]

/-- Where markup is parsed, the document types are those that the search finds before the
root element. -/
theorem exists_read {text : String} {o : Nat} (parsed : (Xml.read text.toList).toOption.map Reading.rootOffset = some o)
    (name : Option String) : ∃ doc, Document.read text name = .ok doc ∧
      Branch.doctypesOf doc.branches = ((Prologue.doctype? (text.toList.take o)).bind (·.2.doctype?)).toList := by
  rcases Option.map_eq_some_iff.mp parsed with ⟨placed, reading, rfl⟩
  rw [toOption_eq_some] at reading
  refine ⟨.ofBranches ((Reading.placedBranches text.toList placed).flatMap (·.2)), ?_, ?_⟩
  · rw [read, reading]
  · rw [branches_ofBranches, Reading.doctypesOf_placedBranches]

/-- Signs and brackets in the text of an entity are no end of the declaration, which is found
as it was written. -/
theorem recovered_around_entity :
    ∃ doc front, Document.read "<!--x--><!DOCTYPE svg [<!ENTITY a ']>'><!--y-->]><svg/>" none = .ok doc ∧
      Xml.Front.IsWellFormed front ∧
      "<!--x--><!DOCTYPE svg [<!ENTITY a ']>'><!--y-->]><svg/>".toList = front.text ++ "<svg/>".toList ∧
      front.IsUnmistakable ∧ front.IsClosed ∧ front.doctypes = ["svg [<!ENTITY a ']>'><!--y-->]"] ∧
      front.IsRecovered "<!--x--><!DOCTYPE svg [<!ENTITY a ']>'><!--y-->]><svg/>".toList doc := by
  have parsed : (Xml.read "<!--x--><!DOCTYPE svg [<!ENTITY a ']>'><!--y-->]><svg/>".toList).toOption.map
      Reading.rootOffset = some 49 := by
    decide +kernel
  rcases exists_read parsed none with ⟨doc, accepted, -⟩
  let subset : List Xml.FrontPart := [.declaration "<!ENTITY" " a ']>'".toList, .comment "y".toList]
  let front : Xml.Front := ⟨[], [.comment "x".toList], some (⟨" svg ".toList, some (subset, [])⟩, [])⟩
  have parted : "<!--x--><!DOCTYPE svg [<!ENTITY a ']>'><!--y-->]><svg/>".toList = front.text ++ "<svg/>".toList :=
    rfl
  have wellFormed : front.IsWellFormed := by
    refine ⟨⟨[], [], rfl, Or.inl rfl, Or.inl rfl⟩, ?_, ?_⟩
    · rw [List.forall_mem_singleton]
      exact ⟨by decide, by decide⟩
    · rintro _ _ ⟨⟩
      refine ⟨⟨.of_plain (List.all_iff_forall_prop.mp (by decide)), ?_, ?_⟩, nofun⟩
      · rw [Xml.TypeDeclaration.parts, Option.elim_some, List.forall_mem_cons, List.forall_mem_singleton]
        have blank : Xml.Level " a ".toList := .of_plain (List.all_iff_forall_prop.mp (by decide))
        have quoted : Xml.Level "']>'".toList := .quoted (Or.inl rfl) (by decide : '\'' ∉ "]>".toList) .nil
        exact ⟨⟨rfl, Or.inl ⟨rfl, blank.append quoted⟩⟩, by decide, by decide⟩
      · rintro _ _ ⟨⟩
        exact nofun
  have unmistakable : front.IsUnmistakable := by
    rw [Xml.Front.IsUnmistakable, List.forall_mem_singleton]
    decide
  have closed : front.IsClosed := by
    rw [Xml.Front.isClosed_iff wellFormed]
    rintro _ _ ⟨⟩
    rfl
  exact ⟨doc, front, accepted, wellFormed, parted, unmistakable, closed, by decide,
    ((isRecovered_iff_isClosed accepted).2 front 's' _ wellFormed parted (by decide) unmistakable).mpr closed⟩

/-- A comment that holds the keyword gives a document type to a text without one, and an
apostrophe in a comment between the brackets takes it from a text that has one. -/
theorem doctype_mistaken :
    (∃ doc front, Document.read "<!--<!DOCTYPE a>--><svg/>" none = .ok doc ∧ Xml.Front.IsWellFormed front ∧
      "<!--<!DOCTYPE a>--><svg/>".toList = front.text ++ "<svg/>".toList ∧ front.doctypes = [] ∧
        Branch.doctypesOf doc.branches = ["a"]) ∧
    ∃ doc front, Document.read "<!DOCTYPE svg [<!-- it's -->]><svg/>" none = .ok doc ∧ Xml.Front.IsWellFormed front ∧
      "<!DOCTYPE svg [<!-- it's -->]><svg/>".toList = front.text ++ "<svg/>".toList ∧
        front.doctypes = ["svg [<!-- it's -->]"] ∧ Branch.doctypesOf doc.branches = [] := by
  have parsed : (Xml.read "<!--<!DOCTYPE a>--><svg/>".toList).toOption.map Reading.rootOffset = some 19 := by
    decide +kernel
  have parsedToo : (Xml.read "<!DOCTYPE svg [<!-- it's -->]><svg/>".toList).toOption.map Reading.rootOffset =
      some 30 := by
    decide +kernel
  rcases exists_read parsed none with ⟨doc, read, types⟩
  rcases exists_read parsedToo none with ⟨other, readToo, typesToo⟩
  have misplaced : ((Prologue.doctype? ("<!--<!DOCTYPE a>--><svg/>".toList.take 19)).bind (·.2.doctype?)).toList =
      ["a"] := by
    decide +kernel
  have missed : ((Prologue.doctype? ("<!DOCTYPE svg [<!-- it's -->]><svg/>".toList.take 30)).bind
      (·.2.doctype?)).toList = [] := by
    decide +kernel
  have bare : Xml.Front.IsOpening [] := ⟨[], [], rfl, Or.inl rfl, Or.inl rfl⟩
  refine ⟨⟨doc, ⟨[], [.comment "<!DOCTYPE a>".toList], none⟩, read, ⟨bare, ?_, nofun⟩, by decide +kernel, rfl, ?_⟩,
    other, ⟨[], [], some (⟨" svg ".toList, some ([.comment " it's ".toList], [])⟩, [])⟩, readToo,
    ⟨bare, nofun, ?_⟩, by decide +kernel, by decide +kernel, ?_⟩
  · rw [List.forall_mem_singleton]
    exact ⟨by decide +kernel, by decide +kernel⟩
  · exact types.trans misplaced
  · rintro _ _ ⟨⟩
    refine ⟨⟨.of_plain (List.all_iff_forall_prop.mp (by decide)), ?_, ?_⟩, nofun⟩
    · rw [Xml.TypeDeclaration.parts, Option.elim_some, List.forall_mem_singleton]
      exact ⟨by decide +kernel, by decide +kernel⟩
    · rintro _ _ ⟨⟩
      exact nofun
  · exact typesToo.trans missed

/-! ## The root element -/

theorem exists_child_of_mem_branches {doc : Document} (rooted : 0 < doc.nodes.size) {b : Branch}
    (listed : b ∈ doc.branches) : ∃ child ∈ doc.children root, doc.content child = b.content := by
  obtain ⟨bound, sizeEq⟩ := Nat.exists_eq_add_one.mpr rooted
  rw [branches, branch, sizeEq, branchWithin, Branch.children, List.mem_map] at listed
  obtain ⟨child, among, rfl⟩ := listed
  refine ⟨child, among, ?_⟩
  cases bound <;> rfl

/-- A document that was read has a root element. -/
theorem exists_rootElement_of_read {text : String} {name : Option String} {doc : Document}
    (accepted : Document.read text name = .ok doc) : ∃ element, doc.rootElement? = some element := by
  have rooted := (grown_of_read accepted).rooted
  rw [read] at accepted
  cases reading : Xml.read text.toList with
  | error fault =>
      rw [reading] at accepted
      cases accepted
  | ok placed =>
      rw [reading] at accepted
      obtain ⟨front, c, rest, node, later, -, -, -, isElement, rfl⟩ := Xml.exists_front_of_read reading
      have among : ∃ b ∈ doc.branches, b.content.isElement = true := by
        rw [← Except.ok.inj accepted, branches_ofBranches]
        cases node with
        | element tag children =>
            refine ⟨_, List.mem_flatMap.mpr ⟨Reading.nodeItem ⟨front.text.length, .element tag children⟩, ?_,
              List.mem_singleton_self _⟩, rfl⟩
            rw [Reading.placedBranches_eq_mergeSort, List.mem_mergeSort]
            simp
        | _ => cases isElement
      obtain ⟨b, listed, element⟩ := among
      obtain ⟨child, below, same⟩ := exists_child_of_mem_branches rooted listed
      apply Option.isSome_iff_exists.mp
      rw [rootElement?, List.find?_isSome]
      exact ⟨child, below, by rw [Document.isElement, same, element]⟩

end Document
end SlimSvg
