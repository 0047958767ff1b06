import SlimSvg.Proofs.Tree.Rereading

namespace SlimSvg

/-!
# Layouts

The branches below the root of a document are laid out well if at most one declaration and
one document type go first, one element follows, and everything else is a comment or an
instruction.  If each of these parts can be read, the text of the document is the one of a
manuscript, and so it is accepted, with lines broken or not.
-/

namespace Xml.Remark

/-- The node of a document that a remark is written for. -/
def content : Remark → NodeContent
  | comment text => .comment (String.ofList text)
  | instruction name value => .instruction (String.ofList name) (String.ofList value)

def branch (r : Remark) : Branch :=
  .node r.content []

theorem remark?_content (r : Remark) : r.content.remark? = some r := by
  cases r with
  | comment text =>
      rw [content, NodeContent.remark?, String.toList_ofList]
  | instruction name value =>
      rw [content, NodeContent.remark?, String.toList_ofList, String.toList_ofList]

end Xml.Remark

/-- The parts of a document that is laid out well. -/
structure Layout where
  declaration : Option Xml.XmlDeclaration
  /-- The remarks before the document type, or before the root element if there is none. -/
  before : List Xml.Remark
  /-- The document type, and the remarks behind it. -/
  doctype : Option (Xml.Doctype × List Xml.Remark)
  root : Element
  content : List Branch
  after : List Xml.Remark

namespace Layout

def declarationBranches (l : Layout) : List Branch :=
  (l.declaration.map fun d => .node (.instruction "xml" (String.ofList d.text)) []).toList

def doctypeBranches (l : Layout) : List Branch :=
  l.doctype.elim [] fun (d, remarks) => .node (.doctype (String.ofList d.text)) [] :: remarks.map (·.branch)

def rootBranch (l : Layout) : Branch :=
  .node (.element l.root) l.content

/-- The branches below the root of the document. -/
def branches (l : Layout) : List Branch :=
  l.declarationBranches ++ (l.before.map (·.branch) ++ (l.doctypeBranches ++ l.rootBranch :: l.after.map (·.branch)))

/-- Whether every part can be read. -/
def isWritable (l : Layout) : Bool :=
  l.declaration.all (·.isReadable) && l.before.all (·.isReadable)
    && l.doctype.all (fun (d, remarks) => d.isReadable && remarks.all (·.isReadable))
    && l.rootBranch.isWritable [] && l.after.all (·.isReadable)

end Layout

/-! ## Parts on lines of their own -/

namespace Written

/-- What stands before a part: nothing if it is the first one. -/
def before (line : List Char) (isFirst : Bool) : List Char :=
  if isFirst then [] else line

/-- Texts one after the other with the starts of their lines. -/
def lined (line : List Char) : (isFirst : Bool) → List (List Char) → List Char
  | _, [] => []
  | isFirst, text :: rest => before line isFirst ++ (text ++ lined line false rest)

theorem lined_append (line : List Char) (isFirst : Bool) (first second : List (List Char)) :
    lined line isFirst (first ++ second) = lined line isFirst first ++ lined line (isFirst && first.isEmpty) second := by
  induction first generalizing isFirst with
  | nil => rw [List.isEmpty_nil, Bool.and_true]; rfl
  | cons text rest inductionHypothesis =>
      rw [List.cons_append, lined, lined, inductionHypothesis, List.isEmpty_cons, Bool.and_false, Bool.false_and,
        List.append_assoc, List.append_assoc]

/-- What is written of the topmost branches, if something is written of each of them. -/
theorem toList_topmost (opt : WriteOptions) {bs : List Branch}
    (some : ∀ b ∈ bs, (branch opt 0 false false b).toList ≠ []) (written : String) :
    (topmost opt written bs).toList = written.toList ++
      lined (lineStart opt 0).toList written.isEmpty (bs.map fun b => (branch opt 0 false false b).toList) := by
  induction bs generalizing written with
  | nil => exact (List.append_nil _).symm
  | cons b rest inductionHypothesis =>
      have start : (if written.isEmpty then "" else lineStart opt 0).toList =
          before (lineStart opt 0).toList written.isEmpty := by
        rw [before]
        split <;> rfl
      have nonempty : (written ++ (if written.isEmpty then "" else lineStart opt 0)
          ++ branch opt 0 false false b).isEmpty = false := by
        rw [← Bool.not_eq_true, String.isEmpty_iff, ← String.toList_eq_nil_iff, String.toList_append,
          List.append_eq_nil_iff, not_and]
        exact fun _ => some b List.mem_cons_self
      rw [topmost, inductionHypothesis (fun c listed => some c (List.mem_cons_of_mem b listed)), nonempty,
        String.toList_append, String.toList_append, start, List.map_cons, lined, List.append_assoc, List.append_assoc]

end Written

namespace Xml.Remark

/-- Remarks with the starts of their lines. -/
def lined (line : List Char) : (isFirst : Bool) → List Remark → List (Spaced Remark)
  | _, [] => []
  | isFirst, r :: rest => ⟨Written.before line isFirst, r⟩ :: lined line false rest

theorem remarksText_lined (line : List Char) (isFirst : Bool) (remarks : List Remark) :
    remarksText (lined line isFirst remarks) = Written.lined line isFirst (remarks.map (·.text)) := by
  induction remarks generalizing isFirst with
  | nil => rfl
  | cons r rest inductionHypothesis =>
      rw [lined, remarksText, List.flatMap_cons, List.map_cons, Written.lined, ← inductionHypothesis false,
        List.append_assoc]
      rfl

theorem nodes_lined (line : List Char) (isFirst : Bool) (remarks : List Remark) :
    (lined line isFirst remarks).map (·.part.node) = remarks.map (·.node) := by
  induction remarks generalizing isFirst with
  | nil => rfl
  | cons r rest inductionHypothesis => rw [lined, List.map_cons, List.map_cons, inductionHypothesis]

theorem areReadable_lined {line : List Char} (blank : ∀ c ∈ line, Text.isXmlSpace c = true) (isFirst : Bool)
    {remarks : List Remark} (readable : remarks.all (·.isReadable) = true) :
    areReadable (lined line isFirst remarks) = true := by
  induction remarks generalizing isFirst with
  | nil => rfl
  | cons r rest inductionHypothesis =>
      rw [List.all_cons, Bool.and_eq_true] at readable
      have gapBlank : (Written.before line isFirst).all Text.isXmlSpace = true := by
        rw [Written.before]
        split
        · rfl
        · exact List.all_eq_true.mpr blank
      have later : areReadable (lined line false rest) = true := inductionHypothesis false readable.2
      rw [areReadable] at later ⊢
      rw [lined, List.all_cons, gapBlank, readable.1, later]
      rfl

theorem toList_branch (opt : WriteOptions) (r : Remark) :
    (Written.branch opt 0 false false r.branch).toList = r.text :=
  NodeContent.toList_branch r.remark?_content opt 0 false false []

end Xml.Remark

/-! ## The manuscript of a layout -/

namespace Layout

variable (opt : WriteOptions) (l : Layout)

/-- The start of a topmost line. -/
def line : List Char :=
  (Written.lineStart opt 0).toList

/-- Whether nothing stands before the document type, or before the root element if there
is none. -/
def isBare : Bool :=
  l.declaration.isNone && l.before.isEmpty

/-- What stands between the tags of the root element, unless one tag is all of it. -/
def inside : Option (List Char) :=
  if l.content.isEmpty then none
  else
    let inline := l.content.any Branch.isText
    some (l.content.flatMap (fun b => (Written.gap opt 1 inline).toList ++
        (Written.branch opt 1 inline (Written.isRaw l.root) b).toList)
      ++ (Written.gap opt 0 inline).toList)

/-- The manuscript of a layout; the text may end with a line end. -/
def manuscript : Xml.Manuscript where
  declaration := l.declaration
  before := Xml.Remark.lined (line opt) l.declaration.isNone l.before
  doctype := l.doctype.map fun (d, remarks) =>
    (⟨Written.before (line opt) l.isBare, d⟩, Xml.Remark.lined (line opt) false remarks)
  gap := Written.before (line opt) (l.isBare && l.doctype.isNone)
  name := l.root.tagName
  attributes := l.root.spelledAttributes
  content := l.inside opt
  after := Xml.Remark.lined (line opt) false l.after
  last := if opt.finalLineEnd then opt.lineEnd.text.toList else []

theorem blank_line : ∀ c ∈ line opt, Text.isXmlSpace c = true :=
  Written.isXmlSpace_lineStart opt 0

theorem blank_before (isFirst : Bool) : ∀ c ∈ Written.before (line opt) isFirst, Text.isXmlSpace c = true := by
  rw [Written.before]
  split
  · nofun
  · exact blank_line opt

variable {l}

theorem isWritable_iff : l.isWritable = true ↔
    l.declaration.all (·.isReadable) = true ∧ l.before.all (·.isReadable) = true ∧
      l.doctype.all (fun (d, remarks) => d.isReadable && remarks.all (·.isReadable)) = true ∧
      l.root.isWritable [] = true ∧
      Branch.areWritable (l.root.scope []) (Written.isRaw l.root) [] l.content = true ∧
      l.after.all (·.isReadable) = true := by
  simp only [isWritable, rootBranch, Branch.isWritable, Bool.and_eq_true, and_assoc]

theorem readable_manuscript (writable : l.isWritable = true) : (l.manuscript opt).Readable := by
  rcases isWritable_iff.mp writable with ⟨declaration, before, doctype, root, -, after⟩
  refine ⟨declaration, Xml.Remark.areReadable_lined (blank_line opt) _ before, ?_, blank_before opt _,
    Element.readableTag root, Xml.Remark.areReadable_lined (blank_line opt) _ after, ?_⟩
  · change (l.doctype.map _).all _ = true
    cases which : l.doctype with
    | none => rfl
    | some both =>
        rcases both with ⟨d, remarks⟩
        rw [which, Option.all_some, Bool.and_eq_true] at doctype
        rw [Option.map_some, Option.all_some]
        dsimp only
        rw [doctype.1, Xml.Remark.areReadable_lined (blank_line opt) _ doctype.2,
          List.all_eq_true.mpr (blank_before opt l.isBare)]
        rfl
  · intro c listed
    change c ∈ (if opt.finalLineEnd then opt.lineEnd.text.toList else []) at listed
    split at listed
    · exact Written.isXmlSpace_lineEnd opt.lineEnd c listed
    · cases listed

/-- The content of the root element can be read. -/
theorem reads_inside (writable : l.isWritable = true) (cs : List Char) (inside : (l.manuscript opt).content = some cs) :
    Xml.Build.Reads false (l.root.scope []) cs (Branch.Rereads opt (l.root.scope []) l.content) := by
  rcases isWritable_iff.mp writable with ⟨-, -, -, -, content, -⟩
  change l.inside opt = some cs at inside
  rw [Layout.inside] at inside
  split at inside
  · cases inside
  · rw [← Option.some.inj inside]
    exact (Branch.reads_content (fun text => text) content
      (Branch.readsMarkup_of_mem opt (l.root.scope []) 1 _ (Written.isRaw l.root) l.content)).reads

theorem rereads_nothing (inside : (l.manuscript opt).content = none) :
    Branch.Rereads opt (l.root.scope []) l.content [] := by
  change l.inside opt = none at inside
  rw [Layout.inside] at inside
  split at inside
  · next empty =>
    rw [List.isEmpty_iff.mp empty]
    exact .nil
  · cases inside

/-! ## The text of a layout -/

/-- The texts of the topmost branches. -/
def parts (l : Layout) : List (List Char) :=
  (l.declaration.map fun d => "<?xml ".toList ++ (d.text ++ "?>".toList)).toList
    ++ (l.before.map (·.text)
      ++ ((l.doctype.elim [] fun (d, remarks) => ("<!DOCTYPE ".toList ++ (d.text ++ ['>'])) :: remarks.map (·.text))
        ++ (l.manuscript opt).rootText :: l.after.map (·.text)))

theorem toList_declarationBranches :
    l.declarationBranches.map (fun b => (Written.branch opt 0 false false b).toList) =
      (l.declaration.map fun d => "<?xml ".toList ++ (d.text ++ "?>".toList)).toList := by
  rw [declarationBranches]
  cases l.declaration with
  | none => rfl
  | some d =>
      have nonempty : ¬ (String.ofList d.text).isEmpty = true := by
        rw [String.isEmpty_iff, ← String.toList_eq_nil_iff, String.toList_ofList]
        exact d.text_ne_nil
      change [("<?xml" ++ (if (String.ofList d.text).isEmpty = true then "" else " " ++ String.ofList d.text)
        ++ "?>").toList] = _
      rw [if_neg nonempty, String.toList_append, String.toList_append, String.toList_append,
        @String.toList_ofList d.text, List.append_assoc, List.append_assoc]
      rfl

theorem toList_doctypeBranches :
    l.doctypeBranches.map (fun b => (Written.branch opt 0 false false b).toList) =
      l.doctype.elim [] fun (d, remarks) =>
        ("<!DOCTYPE ".toList ++ (d.text ++ ['>'])) :: remarks.map (·.text) := by
  rw [doctypeBranches]
  cases l.doctype with
  | none => rfl
  | some both =>
      rcases both with ⟨d, remarks⟩
      rw [Option.elim_some, Option.elim_some, List.map_cons, List.map_map]
      congr 1
      · change ("<!DOCTYPE " ++ String.ofList d.text ++ ">").toList = _
        rw [String.toList_append, String.toList_append, @String.toList_ofList d.text, List.append_assoc]
        rfl
      · exact List.map_congr_left fun r _ => r.toList_branch opt

theorem toList_rootBranch (writable : l.isWritable = true) :
    (Written.branch opt 0 false false l.rootBranch).toList = (l.manuscript opt).rootText := by
  rcases isWritable_iff.mp writable with ⟨-, -, -, root, -⟩
  rw [Xml.Manuscript.rootText, rootBranch]
  change _ = Xml.Build.tagText _ _ ++ (l.inside opt).elim _ _
  rw [inside]
  split
  · next empty =>
    rw [List.isEmpty_iff.mp empty]
    exact Written.toList_leaf_element root opt 0 false false
  · next nonempty =>
    rw [List.isEmpty_iff] at nonempty
    exact Written.toList_branch_element root opt 0 false false nonempty

theorem toList_branches (writable : l.isWritable = true) :
    l.branches.map (fun b => (Written.branch opt 0 false false b).toList) = l.parts opt := by
  have remarks : ∀ rs : List Xml.Remark, (rs.map (·.branch)).map
      (fun b => (Written.branch opt 0 false false b).toList) = rs.map (·.text) := by
    intro rs
    rw [List.map_map]
    exact List.map_congr_left fun r _ => r.toList_branch opt
  rw [branches, parts, List.map_append, List.map_append, List.map_append, List.map_cons, toList_declarationBranches,
    toList_doctypeBranches, toList_rootBranch opt writable, remarks, remarks]

theorem ne_nil_of_mem_parts {text : List Char} (listed : text ∈ l.parts opt) : text ≠ [] := by
  have remarks : ∀ {rs : List Xml.Remark}, text ∈ rs.map (·.text) → text ≠ [] := by
    rintro rs listed rfl
    rcases List.mem_map.mp listed with ⟨r, -, same⟩
    exact absurd (congrArg List.length same) (Nat.ne_of_gt r.length_text_pos)
  rw [parts, List.mem_append, List.mem_append, List.mem_append, List.mem_cons, Option.mem_toList] at listed
  rcases listed with declaration | before | doctype | root | after
  · rcases Option.map_eq_some_iff.mp declaration with ⟨d, -, rfl⟩
    nofun
  · exact remarks before
  · cases which : l.doctype with
    | none =>
        rw [which] at doctype
        cases doctype
    | some both =>
        rw [which, Option.elim_some] at doctype
        rcases List.mem_cons.mp doctype with rfl | between
        · nofun
        · exact remarks between
  · rw [root]
    nofun
  · exact remarks after

/-- The parts are written as those of the manuscript. -/
theorem lined_parts :
    Written.lined (line opt) true (l.parts opt) =
      (l.manuscript opt).front ++ ((l.manuscript opt).rootText ++ Xml.remarksText (l.manuscript opt).after) := by
  have declarationFlag : (true && (l.declaration.map fun d => "<?xml ".toList ++ (d.text ++ "?>".toList)).toList.isEmpty)
      = l.declaration.isNone := by
    cases l.declaration <;> rfl
  have beforeFlag : (l.declaration.isNone && (l.before.map (·.text)).isEmpty) = l.isBare := by
    rw [List.isEmpty_map]
    rfl
  have doctypeFlag : (l.isBare && (l.doctype.elim [] fun (d, remarks) =>
      ("<!DOCTYPE ".toList ++ (d.text ++ ['>'])) :: remarks.map (·.text)).isEmpty) =
        (l.isBare && l.doctype.isNone) := by
    cases l.doctype <;> rfl
  have declaration : Written.lined (line opt) true
      (l.declaration.map fun d => "<?xml ".toList ++ (d.text ++ "?>".toList)).toList =
        (l.manuscript opt).declarationText := by
    change _ = l.declaration.elim [] _
    cases l.declaration with
    | none => rfl
    | some d => exact List.append_nil _
  have doctype : Written.lined (line opt) l.isBare (l.doctype.elim [] fun (d, remarks) =>
      ("<!DOCTYPE ".toList ++ (d.text ++ ['>'])) :: remarks.map (·.text)) = (l.manuscript opt).betweenText := by
    change _ = (l.doctype.map _).elim [] _
    cases l.doctype with
    | none => rfl
    | some both =>
        rw [Option.elim_some, Written.lined, ← Xml.Remark.remarksText_lined, ← List.append_assoc]
        rfl
  rw [parts, Written.lined_append, Written.lined_append, Written.lined_append, declarationFlag, beforeFlag, doctypeFlag,
    declaration, doctype, Written.lined, ← Xml.Remark.remarksText_lined, ← Xml.Remark.remarksText_lined]
  simp only [Xml.Manuscript.front, List.append_assoc]
  rfl

/-- The text of a document is the one of the manuscript of its layout. -/
theorem toList_written (writable : l.isWritable = true) {doc : Document} (same : doc.branches = l.branches) :
    (doc.written opt).toList = (l.manuscript opt).text := by
  have body : (Written.topmost opt "" doc.branches).toList =
      (l.manuscript opt).front ++ ((l.manuscript opt).rootText ++ Xml.remarksText (l.manuscript opt).after) := by
    have branches := toList_branches opt writable
    rw [same, Written.toList_topmost opt, branches]
    · exact lined_parts opt
    · intro b listed
      apply ne_nil_of_mem_parts opt
      rw [← branches]
      exact List.mem_map_of_mem listed
  have nonempty : (Written.topmost opt "" doc.branches).isEmpty = false := by
    rw [← Bool.not_eq_true, String.isEmpty_iff, ← String.toList_eq_nil_iff, body, List.append_eq_nil_iff, not_and]
    exact fun _ => nofun
  have last : (doc.written opt).toList = (Written.topmost opt "" doc.branches).toList ++ (l.manuscript opt).last := by
    rw [Document.written, nonempty, Bool.not_false, Bool.and_true]
    change _ = _ ++ (if opt.finalLineEnd then opt.lineEnd.text.toList else [])
    split
    · rw [String.toList_append]
    · rw [List.append_nil]
  rw [last, body, Xml.Manuscript.text, List.append_assoc, List.append_assoc]

/-- The text of a document that is laid out well is accepted. -/
theorem exists_read_written (writable : l.isWritable = true) {doc : Document} (same : doc.branches = l.branches)
    (name : Option String) : ∃ again, Document.read (doc.written opt) name = .ok again := by
  rcases Xml.read_text (readable_manuscript opt writable) (reads_inside opt writable) (rereads_nothing opt) with
    ⟨f, read⟩
  rw [Document.read, toList_written opt writable same, read]
  exact ⟨_, rfl⟩

end Layout

end SlimSvg
