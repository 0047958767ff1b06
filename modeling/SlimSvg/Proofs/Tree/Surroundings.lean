import Mathlib.Data.List.Sort
import SlimSvg.Proofs.Tree.Layout
import SlimSvg.Proofs.Tree.Recovery

namespace SlimSvg

/-!
# What stands around the root element

A document that is laid out well is written with its declarations and remarks around the
root element.  If nothing misleads the search for the document type, all of them are read
again in their order, and they are the same however lines are broken.  So what is read
depends on the way of writing in the root element only.
-/

/-! ## The order of places -/

/-- Whether places are in order and in a part of a text. -/
structure Ascends (places : List Nat) (first last : Nat) : Prop where
  ordered : places.Pairwise (· < ·)
  within : ∀ n ∈ places, first ≤ n ∧ n < last

namespace Ascends

theorem nil (first last : Nat) : Ascends [] first last :=
  ⟨List.Pairwise.nil, nofun⟩

theorem single {n first last : Nat} (least : first ≤ n) (less : n < last) : Ascends [n] first last :=
  ⟨List.pairwise_singleton _ _, fun _ listed => List.mem_singleton.mp listed ▸ ⟨least, less⟩⟩

theorem append {places more : List Nat} {first middle last : Nat} (before : Ascends places first middle)
    (after : Ascends more middle last) (start : first ≤ middle) (stop : middle ≤ last) :
    Ascends (places ++ more) first last := by
  refine ⟨List.pairwise_append.mpr ⟨before.ordered, after.ordered, ?_⟩, ?_⟩
  · intro n listed m behind
    exact Nat.lt_of_lt_of_le (before.within n listed).2 (after.within m behind).1
  · intro n listed
    rcases List.mem_append.mp listed with earlier | later
    · exact ⟨(before.within n earlier).1, Nat.lt_of_lt_of_le (before.within n earlier).2 stop⟩
    · exact ⟨Nat.le_trans start (after.within n later).1, (after.within n later).2⟩

/-- Nodes of a part of a text stand in this part. -/
theorem of_within {placed : List Xml.PlacedNode} {nodes : List Xml.Node} {first last : Nat}
    (within : Xml.PlacedWithin placed nodes first last) : Ascends ((placed.map Reading.nodeItem).map (·.1)) first last := by
  rw [List.map_map]
  refine ⟨within.ordered, ?_⟩
  intro n listed
  rcases List.mem_map.mp listed with ⟨p, among, rfl⟩
  exact within.within p among

end Ascends

/-- Items are sorted by their places into the one order that ascends. -/
theorem mergeSort_eq_of_perm {α : Type} {items sorted : List (Nat × α)} (perm : items.Perm sorted)
    (ascends : (sorted.map (·.1)).Pairwise (· < ·)) : (items.mergeSort fun a b => a.1 ≤ b.1) = sorted := by
  have strict : sorted.Pairwise (fun a b => a.1 < b.1) := List.pairwise_map.mp ascends
  have distinct : (sorted.map (·.1)).Nodup := ascends.imp Nat.ne_of_lt
  refine List.Perm.eq_of_pairwise ?_ (List.pairwise_mergeSort Reading.byPlace_trans Reading.byPlace_total items)
    (strict.imp fun less => decide_eq_true (Nat.le_of_lt less)) ((List.mergeSort_perm items _).trans perm)
  intro a b listed listedToo least most
  refine List.inj_on_of_nodup_map distinct (perm.mem_iff.mp (List.mem_mergeSort.mp listed)) listedToo ?_
  exact Nat.le_antisymm (decide_eq_true_eq.mp least) (decide_eq_true_eq.mp most)

/-! ## The keyword before the document type -/

namespace Xml

/-- The keyword of the document type reaches over the end of no remark. -/
theorem infix_remarksText_append_iff {remarks : List (Spaced Remark)}
    (blank : ∀ r ∈ remarks, ∀ c ∈ r.gap, Text.isXmlSpace c = true) (cs : List Char) :
    "<!DOCTYPE".toList <:+: remarksText remarks ++ cs ↔
      (∃ r ∈ remarks, "<!DOCTYPE".toList <:+: r.part.text) ∨ "<!DOCTYPE".toList <:+: cs := by
  induction remarks with
  | nil => simp [remarksText]
  | cons r rest inductionHypothesis =>
      rw [List.forall_mem_cons] at blank
      have sign : ∃ front, r.part.text = front ++ ['>'] := by
        cases r.part with
        | comment text => exact ⟨"<!--".toList ++ (text ++ "--".toList), by simp [Remark.text]⟩
        | instruction name value =>
            exact ⟨"<?".toList ++ (name ++ (Build.instructionGap value ++ (value ++ ['?']))), by simp [Remark.text]⟩
      have text : remarksText (r :: rest) ++ cs = r.gap ++ (r.part.text ++ (remarksText rest ++ cs)) := by
        rw [remarksText, List.flatMap_cons]
        simp only [List.append_assoc]
        rfl
      rw [text, Text.infix_append_left_iff (by decide) (Prologue.apart_of_blank blank.1),
        Prologue.infix_part_append_iff (Or.inr sign), inductionHypothesis blank.2]
      simp only [List.mem_cons, exists_eq_or_imp, or_assoc]

namespace Remark

theorem parts_lined (line : List Char) (isFirst : Bool) (remarks : List Remark) :
    (lined line isFirst remarks).map (·.part) = remarks := by
  induction remarks generalizing isFirst with
  | nil => rfl
  | cons r rest inductionHypothesis => rw [lined, List.map_cons, inductionHypothesis]

end Remark

/-- No node within a document type is an element. -/
theorem Manuscript.isElement_of_mem_doctypeNodes {m : Manuscript} {n : Node} (listed : n ∈ m.doctypeNodes) :
    n.isElement = false := by
  rw [doctypeNodes] at listed
  cases typed : m.doctype with
  | none =>
      rw [typed] at listed
      cases listed
  | some both =>
      rw [typed, Option.elim_some] at listed
      dsimp only at listed
      rw [Doctype.nodes] at listed
      cases subset : both.1.part.subset with
      | none =>
          rw [subset] at listed
          cases listed
      | some found =>
          rw [subset, Option.elim_some] at listed
          rcases List.mem_flatMap.mp listed with ⟨⟨gap, part⟩, -, among⟩
          cases part with
          | remark r =>
              rw [List.mem_singleton.mp among]
              cases r <;> rfl
          | _ => cases among

end Xml

/-! ## Declarations behind each other -/

namespace Prologue

/-- What stands behind an XML declaration does not count. -/
theorem declaration?_append (d rest : List Char) :
    declaration? ("<?xml ".toList ++ (d ++ ("?>".toList ++ rest))) =
      declaration? ("<?xml ".toList ++ (d ++ "?>".toList)) := by
  have whole (cs : List Char) : declaration? ("<?xml ".toList ++ cs) =
      (Text.cut? "?>".toList (' ' :: cs)).bind fun found =>
        some (.instruction "xml" (String.ofList (Text.trimChars found.1))) :=
    rfl
  have held : "?>".toList <:+: ' ' :: (d ++ "?>".toList) := ⟨' ' :: d, [], by simp⟩
  rw [← Text.hasPiece_iff, Text.hasPiece] at held
  rcases Option.isSome_iff_exists.mp held with ⟨⟨before, after⟩, cut⟩
  have shape := Text.eq_append_of_cut? cut
  have longer : ' ' :: (d ++ ("?>".toList ++ rest)) = before ++ ("?>".toList ++ (after ++ rest)) := by
    have both := congrArg (· ++ rest) shape
    simp only [List.cons_append, List.append_assoc] at both
    exact both
  rw [whole, whole, cut, longer]
  rw [shape, List.append_assoc] at cut
  rw [Text.cut?_exchange cut]
  rfl

end Prologue

namespace Layout

/-! ## What is read again -/

/-- What is written before the document type, or before the root element if there is none. -/
def opening (l : Layout) : List Char :=
  (l.manuscript {}).declarationText ++ Xml.remarksText (l.manuscript {}).before

/-- Whether the document type is found again where it is written: nothing before it has its
keyword, and nothing in it misleads the search for its end. -/
def isRecoverable (l : Layout) : Bool :=
  !Text.hasPiece "<!DOCTYPE".toList l.opening
    && l.doctype.all fun (d, _) => Prologue.untilEnd? 0 none (d.text ++ ['>']) == some d.text

/-- The XML declaration as it is read again. -/
def declarationAgain (l : Layout) : List Branch :=
  (l.declaration.bind fun d => Prologue.declaration? ("<?xml ".toList ++ (d.text ++ "?>".toList))).toList.map
    fun c => .node c []

/-- The document type and the remarks in it and behind it as they are read again. -/
def doctypeAgain (l : Layout) : List Branch :=
  l.doctype.elim [] fun (d, remarks) =>
    .node (.doctype (String.ofList (Text.trimChars d.text))) []
      :: (d.nodes.flatMap (Reading.branch false []) ++ remarks.map (·.branch))

/-- The branches below the root of the document that is read again, given those that the root
element is read as. -/
def surround (l : Layout) (root : List Branch) : List Branch :=
  l.declarationAgain ++ (l.before.map (·.branch) ++ (l.doctypeAgain ++ (root ++ l.after.map (·.branch))))

theorem surround_inj {l : Layout} {root other : List Branch} : l.surround root = l.surround other ↔ root = other := by
  rw [surround, surround, List.append_cancel_left_eq, List.append_cancel_left_eq, List.append_cancel_left_eq,
    List.append_cancel_right_eq]

section Again

variable {opt : WriteOptions} {l : Layout}

/-! ### The declarations -/

theorem declarationItems_text (writable : l.isWritable = true) :
    Reading.declarationItems (l.manuscript opt).text = l.declarationAgain.map fun b => (0, [b]) := by
  have readable := readable_manuscript opt writable
  rw [Reading.declarationItems, declarationAgain]
  cases which : l.declaration with
  | none =>
      have absent : Prologue.declaration? (l.manuscript opt).text = none := by
        apply Prologue.declaration?_eq_none
        · rw [← beq_eq_false_iff_ne]
          exact Xml.Build.head?_text_ne readable
        · exact fun blank noName noEnd => Xml.Build.not_declaration_text readable which noName noEnd
      rw [absent]
      rfl
  | some d =>
      have shape : ∃ rest, (l.manuscript opt).text = "<?xml ".toList ++ (d.text ++ ("?>".toList ++ rest)) := by
        have begins : (l.manuscript opt).declarationText = "<?xml ".toList ++ (d.text ++ "?>".toList) := by
          change l.declaration.elim [] _ = _
          rw [which]
          rfl
        rw [Xml.Manuscript.text, Xml.Manuscript.front, begins]
        simp only [List.append_assoc]
        exact ⟨_, rfl⟩
      rcases shape with ⟨rest, shape⟩
      rw [shape, Prologue.declaration?_append, Option.bind_some]
      cases Prologue.declaration? ("<?xml ".toList ++ (d.text ++ "?>".toList)) <;> rfl

/-- The keyword stands nowhere before the document type, with lines broken or not. -/
theorem hasPiece_before (writable : l.isWritable = true) (recoverable : l.isRecoverable = true) {blanks : List Char}
    (blank : ∀ c ∈ blanks, Text.isXmlSpace c = true) :
    Text.hasPiece "<!DOCTYPE".toList ((l.manuscript opt).declarationText ++
      (Xml.remarksText (l.manuscript opt).before ++ blanks)) = false := by
  have alike (opt : WriteOptions) {blanks : List Char} (blank : ∀ c ∈ blanks, Text.isXmlSpace c = true) :
      "<!DOCTYPE".toList <:+: (l.manuscript opt).declarationText ++
          (Xml.remarksText (l.manuscript opt).before ++ blanks) ↔
        "<!DOCTYPE".toList <:+: l.declaration.elim [] (fun d => "<?xml ".toList ++ (d.text ++ "?>".toList)) ∨
          ∃ r ∈ l.before, "<!DOCTYPE".toList <:+: r.text := by
    have ends : (∀ c ∈ (l.manuscript opt).declarationText, Text.isXmlSpace c = true) ∨
        ∃ front, (l.manuscript opt).declarationText = front ++ ['>'] := by
      change (∀ c ∈ l.declaration.elim [] _, _) ∨ ∃ front, l.declaration.elim [] _ = _
      cases l.declaration with
      | none => exact Or.inl (List.forall_mem_nil _)
      | some d => exact Or.inr ⟨"<?xml ".toList ++ (d.text ++ ['?']), by simp⟩
    have gaps : ∀ r ∈ (l.manuscript opt).before, ∀ c ∈ r.gap, Text.isXmlSpace c = true := by
      have readable := (readable_manuscript opt writable).before
      rw [Xml.areReadable, List.all_eq_true] at readable
      intro r listed
      have here := readable r listed
      rw [Bool.and_eq_true, List.all_eq_true] at here
      exact here.1
    have none : ¬ "<!DOCTYPE".toList <:+: blanks := by
      have behind := Text.infix_append_left_iff (by decide) (Prologue.apart_of_blank blank) []
      rw [List.append_nil, List.infix_nil] at behind
      rw [behind]
      decide
    have parts := Xml.Remark.parts_lined (line opt) l.declaration.isNone l.before
    rw [Prologue.infix_part_append_iff ends, Xml.infix_remarksText_append_iff gaps, or_iff_left none]
    refine or_congr Iff.rfl ?_
    conv_rhs => rw [← parts]
    simp only [List.mem_map, exists_exists_and_eq_and]
    exact Iff.rfl
  rw [isRecoverable, Bool.and_eq_true, Bool.not_eq_true'] at recoverable
  have compact := alike {} (List.forall_mem_nil _)
  rw [List.append_nil] at compact
  rw [← Bool.not_eq_true, Text.hasPiece_iff] at recoverable ⊢
  rw [alike opt blank, ← compact]
  exact recoverable.1

theorem doctype_manuscript {d : Xml.Doctype} {remarks : List Xml.Remark} (which : l.doctype = some (d, remarks)) :
    (l.manuscript opt).doctype =
      some (⟨Written.before (line opt) l.isBare, d⟩, Xml.Remark.lined (line opt) false remarks) := by
  change l.doctype.map _ = _
  rw [which]
  rfl

theorem doctype_manuscript_of_none (which : l.doctype = none) : (l.manuscript opt).doctype = none := by
  change l.doctype.map _ = _
  rw [which]
  rfl

/-- The document type at its place. -/
def doctypeItem (opt : WriteOptions) (l : Layout) : List (Nat × List Branch) :=
  (l.doctype.map fun (d, _) => ((l.manuscript opt).doctypeStart,
    [Branch.node (.doctype (String.ofList (Text.trimChars d.text))) []])).toList

theorem doctypeItems_front (writable : l.isWritable = true) (recoverable : l.isRecoverable = true) :
    Reading.doctypeItems (l.manuscript opt).front = l.doctypeItem opt := by
  rw [Reading.doctypeItems, doctypeItem]
  cases which : l.doctype with
  | none =>
      have front : (l.manuscript opt).front = (l.manuscript opt).declarationText ++
          (Xml.remarksText (l.manuscript opt).before ++ (l.manuscript opt).gap) := by
        rw [Xml.Manuscript.front, Xml.Manuscript.betweenText_of_no_doctype _ (doctype_manuscript_of_none which)]
        rfl
      have blank : ∀ c ∈ (l.manuscript opt).gap, Text.isXmlSpace c = true := blank_before opt _
      rw [front, Prologue.doctype?_eq_none (hasPiece_before writable recoverable blank)]
      rfl
  | some both =>
      rcases both with ⟨d, remarks⟩
      have typed := @doctype_manuscript opt l _ _ which
      let between : List Char := Xml.remarksText (Xml.Remark.lined (line opt) false remarks) ++ (l.manuscript opt).gap
      have front : (l.manuscript opt).front = ((l.manuscript opt).declarationText ++
          (Xml.remarksText (l.manuscript opt).before ++ Written.before (line opt) l.isBare)) ++
            ("<!DOCTYPE".toList ++ (' ' :: (d.text ++ '>' :: between))) := by
        rw [Xml.Manuscript.front, Xml.Manuscript.betweenText_of_doctype _ typed, Xml.Manuscript.doctypeText]
        have word : "<!DOCTYPE ".toList = "<!DOCTYPE".toList ++ [' '] := rfl
        rw [word]
        generalize "<!DOCTYPE".toList = keyword
        simp only [between, List.append_assoc, List.cons_append, List.nil_append]
      have place : ((l.manuscript opt).declarationText ++ (Xml.remarksText (l.manuscript opt).before ++
          Written.before (line opt) l.isBare)).length = (l.manuscript opt).doctypeStart := by
        rw [Xml.Manuscript.doctypeStart_of_doctype _ typed, List.length_append]
      have ends : Prologue.untilEnd? 0 none (d.text ++ '>' :: between) = some d.text := by
        rw [isRecoverable, which, Option.all_some, Bool.and_eq_true, beq_iff_eq] at recoverable
        have found := Prologue.untilEnd?_append recoverable.2 between
        rw [List.append_assoc] at found
        exact found
      rw [front, Prologue.doctype?_append (hasPiece_before writable recoverable (blank_before opt _)), place]
      change (((Prologue.untilEnd? 0 none (d.text ++ '>' :: between)).map (' ' :: ·)).map _ |>.map _).toList = _
      rw [ends]
      change [((l.manuscript opt).doctypeStart,
        [Branch.node (.doctype (String.ofList (Text.trimChars (' ' :: d.text)))) []])] = _
      rw [Text.trimChars_space]
      rfl

/-! ### The nodes -/

variable {P : List Xml.Item → Prop} (f : (l.manuscript opt).Findings P)

theorem before_nodes : f.before.map (·.node) = l.before.map (·.node) :=
  f.before_within.nodes_eq.trans (Xml.Remark.nodes_lined _ _ _)

theorem after_nodes : f.after.map (·.node) = l.after.map (·.node) :=
  f.after_within.nodes_eq.trans (Xml.Remark.nodes_lined _ _ _)

theorem inside_nodes : f.inside.map (·.node) = l.doctype.elim [] fun (d, _) => d.nodes := by
  refine f.inside_within.nodes_eq.trans ?_
  change (l.doctype.map _).elim [] _ = _
  cases l.doctype <;> rfl

theorem between_nodes : f.between.map (·.node) = (l.doctype.elim [] fun (_, remarks) => remarks).map (·.node) := by
  refine f.between_within.nodes_eq.trans ?_
  change (l.doctype.map _).elim [] _ = _
  cases l.doctype with
  | none => rfl
  | some both => exact Xml.Remark.nodes_lined _ _ _

/-- The root element is the first one. -/
theorem rootOffset_placed : Reading.rootOffset f.placed = (l.manuscript opt).front.length := by
  have leaves {placed : List Xml.PlacedNode} {nodes : List Xml.Node} (same : placed.map (·.node) = nodes)
      (none : ∀ n ∈ nodes, n.isElement = false) : placed.find? (·.node.isElement) = Option.none := by
    rw [List.find?_eq_none]
    intro p listed
    rw [none p.node (same ▸ List.mem_map_of_mem listed)]
    exact Bool.false_ne_true
  have remarks (rs : List Xml.Remark) : ∀ n ∈ rs.map (·.node), n.isElement = false := by
    rw [List.forall_mem_map]
    intro r _
    cases r <;> rfl
  rw [Reading.rootOffset, Xml.Manuscript.Findings.placed, List.find?_append, List.find?_append, List.find?_append,
    leaves (before_nodes f) (remarks _),
    leaves f.inside_within.nodes_eq fun _ listed => Xml.Manuscript.isElement_of_mem_doctypeNodes listed,
    leaves (between_nodes f) (remarks _), Option.none_or, Option.none_or, Option.none_or, List.find?_cons_of_pos rfl]
  rfl

/-- The document type and the remarks in it with their places. -/
def typeItems : List (Nat × List Branch) :=
  l.doctypeItem opt ++ f.inside.map Reading.nodeItem

/-- All that is read with its places in the order of writing. -/
def items : List (Nat × List Branch) :=
  (l.declarationAgain.map fun b => (0, [b])) ++ (f.before.map Reading.nodeItem ++ (typeItems f
    ++ (f.between.map Reading.nodeItem ++ Reading.nodeItem f.root :: f.after.map Reading.nodeItem)))

theorem ascends_declaration : Ascends ((l.declarationAgain.map fun b => (0, [b])).map (·.1)) 0
    (l.manuscript opt).declarationText.length := by
  change Ascends _ 0 (l.declaration.elim [] _).length
  rw [declarationAgain]
  cases l.declaration with
  | none => exact .nil _ _
  | some d =>
      rw [Option.bind_some]
      cases Prologue.declaration? ("<?xml ".toList ++ (d.text ++ "?>".toList)) with
      | none => exact .nil _ _
      | some c => exact .single (Nat.le_refl 0) (Nat.succ_pos _)

/-- The document type stands before what is in it. -/
theorem ascends_typeItems : Ascends ((typeItems f).map (·.1)) (l.manuscript opt).doctypeStart
    (l.manuscript opt).doctypeEnd := by
  have inside := Ascends.of_within f.inside_within
  rw [typeItems, List.map_append, doctypeItem]
  cases which : l.doctype with
  | none =>
      have nodes := inside_nodes f
      rw [which, Option.elim_none, List.map_eq_nil_iff] at nodes
      rw [nodes]
      exact .nil _ _
  | some both =>
      have typed := @doctype_manuscript opt l _ _ which
      have longer : (l.manuscript opt).doctypeStart + 1 ≤ (l.manuscript opt).doctypeEnd := by
        rw [Xml.Manuscript.doctypeEnd_of_doctype _ typed, Xml.Manuscript.doctypeStart_of_doctype _ typed]
        exact Nat.add_le_add_left (Nat.succ_pos _) _
      exact (Ascends.single (Nat.le_refl _) (Nat.lt_succ_self _)).append inside (Nat.le_succ _) longer

theorem doctypeStart_le_doctypeEnd : (l.manuscript opt).doctypeStart ≤ (l.manuscript opt).doctypeEnd := by
  cases which : l.doctype with
  | none =>
      rw [Xml.Manuscript.doctypeStart, Xml.Manuscript.doctypeEnd, doctype_manuscript_of_none which]
      exact Nat.le_refl _
  | some both =>
      have typed := @doctype_manuscript opt l _ _ which
      rw [Xml.Manuscript.doctypeEnd_of_doctype _ typed, Xml.Manuscript.doctypeStart_of_doctype _ typed]
      exact Nat.le_add_right _ _

theorem doctypeEnd_le : (l.manuscript opt).doctypeEnd ≤ (l.manuscript opt).front.length := by
  cases which : l.doctype with
  | none =>
      rw [Xml.Manuscript.length_front_of_no_doctype _ (doctype_manuscript_of_none which), Xml.Manuscript.doctypeEnd,
        doctype_manuscript_of_none which, List.length_append, List.length_append, List.length_append]
      exact Nat.add_le_add_left (Nat.add_le_add_left (Nat.zero_le _) _) _
  | some both =>
      rw [Xml.Manuscript.length_front_of_doctype _ (doctype_manuscript which)]
      exact Nat.le_add_right _ _

theorem length_before_le : ((l.manuscript opt).declarationText ++ Xml.remarksText (l.manuscript opt).before).length ≤
    (l.manuscript opt).doctypeStart := by
  rw [Xml.Manuscript.doctypeStart]
  simp only [List.length_append]
  omega

theorem ascends_items : ((items f).map (·.1)).Pairwise (· < ·) := by
  have positive : 0 < (l.manuscript opt).rootText.length := Nat.succ_pos _
  have total : (l.manuscript opt).text.length = ((l.manuscript opt).front ++ (l.manuscript opt).rootText).length +
      (Xml.remarksText (l.manuscript opt).after ++ (l.manuscript opt).last).length := by
    rw [Xml.Manuscript.text, ← List.append_assoc, List.length_append]
  have rootEnd : ((l.manuscript opt).front ++ (l.manuscript opt).rootText).length =
      (l.manuscript opt).front.length + (l.manuscript opt).rootText.length :=
    List.length_append
  have start : (l.manuscript opt).declarationText.length ≤
      ((l.manuscript opt).declarationText ++ Xml.remarksText (l.manuscript opt).before).length := by
    rw [List.length_append]
    exact Nat.le_add_right _ _
  have doctypeStart := @length_before_le opt l
  have doctypeEnd := @doctypeStart_le_doctypeEnd opt l
  have frontEnd := @doctypeEnd_le opt l
  have root : Ascends [(l.manuscript opt).front.length] (l.manuscript opt).front.length
      ((l.manuscript opt).front ++ (l.manuscript opt).rootText).length :=
    .single (Nat.le_refl _) (by omega)
  have last := root.append (Ascends.of_within f.after_within) (by omega) (by omega)
  have between := (Ascends.of_within f.between_within).append last frontEnd (by omega)
  have typed := (ascends_typeItems f).append between doctypeEnd (by omega)
  have early := Ascends.of_within (f.before_within.widen (Nat.le_refl _) doctypeStart)
  have behind := early.append typed (by omega) (by omega)
  have all := (@ascends_declaration opt l).append behind (Nat.zero_le _) (by omega)
  rw [items, List.map_append, List.map_append, List.map_append, List.map_append, List.map_cons]
  exact all.ordered

theorem placedBranches_eq_items (writable : l.isWritable = true) (recoverable : l.isRecoverable = true) :
    Reading.placedBranches (l.manuscript opt).text f.placed = items f := by
  have front : (l.manuscript opt).text.take (Reading.rootOffset f.placed) = (l.manuscript opt).front := by
    rw [rootOffset_placed f, Xml.Manuscript.text, List.take_left]
  have nodes : f.placed.map Reading.nodeItem = f.before.map Reading.nodeItem ++ (f.inside.map Reading.nodeItem ++
      (f.between.map Reading.nodeItem ++ Reading.nodeItem f.root :: f.after.map Reading.nodeItem)) := by
    rw [Xml.Manuscript.Findings.placed, List.map_append, List.map_append, List.map_append, List.map_cons]
  rw [Reading.placedBranches_eq_mergeSort, front, declarationItems_text writable, doctypeItems_front writable recoverable,
    nodes]
  refine mergeSort_eq_of_perm ?_ (ascends_items f)
  rw [items, typeItems, List.append_assoc, List.append_assoc]
  exact List.Perm.append_left _ (List.perm_append_comm_assoc _ _ _)

/-! ### All branches -/

theorem flatMap_nodeItem (placed : List Xml.PlacedNode) :
    (placed.map Reading.nodeItem).flatMap (·.2) = (placed.map (·.node)).flatMap (Reading.branch false []) := by
  rw [List.flatMap_map, List.flatMap_map]
  rfl

/-- Remarks are read as they are. -/
theorem flatMap_remarks {placed : List Xml.PlacedNode} {remarks : List Xml.Remark}
    (nodes : placed.map (·.node) = remarks.map (·.node)) :
    (placed.map Reading.nodeItem).flatMap (·.2) = remarks.map (·.branch) := by
  rw [flatMap_nodeItem, nodes, List.flatMap_map, ← List.flatMap_singleton' (remarks.map _), List.flatMap_map]
  apply List.flatMap_congr
  intro r _
  exact NodeContent.node_remark r.remark?_content false []

/-- What stands around the root element is read again in one way. -/
theorem flatMap_placedBranches (writable : l.isWritable = true) (recoverable : l.isRecoverable = true) :
    (Reading.placedBranches (l.manuscript opt).text f.placed).flatMap (·.2) =
      l.surround (Reading.branch false [] (Xml.Build.Reads.elementOf f.tag f.kids)) := by
  have declaration : (l.declarationAgain.map fun b => (0, [b])).flatMap (·.2) = l.declarationAgain := by
    rw [List.flatMap_map]
    exact List.flatMap_singleton' _
  have doctype : (typeItems f).flatMap (·.2) ++ (l.doctype.elim [] fun (_, remarks) => remarks).map (·.branch) =
      l.doctypeAgain := by
    rw [typeItems, List.flatMap_append, flatMap_nodeItem, inside_nodes f, doctypeItem, doctypeAgain]
    cases l.doctype with
    | none => rfl
    | some both => rfl
  rw [placedBranches_eq_items f writable recoverable, items, List.flatMap_append, List.flatMap_append,
    List.flatMap_append, List.flatMap_append, List.flatMap_cons, declaration, flatMap_remarks (before_nodes f),
    flatMap_remarks (between_nodes f), flatMap_remarks (after_nodes f), ← List.append_assoc ((typeItems f).flatMap _),
    doctype]
  rfl

end Again

end Layout

end SlimSvg
