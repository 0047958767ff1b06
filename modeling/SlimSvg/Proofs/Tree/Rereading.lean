import Mathlib.Tactic.Choose
import SlimSvg.Proofs.Tree.Naming

namespace SlimSvg

/-!
# Content that is read as it was written

The children of an element are written one behind the other: texts as runs of characters or
as sections, everything else as markup.  Texts that stand side by side are one run for the
reader, so what may not occur in a text may not occur in a whole run.  Everything that can be
read is read as it was, unless lines were broken, if no text is empty, stands next to
another one, has a carriage return, or is dropped because it is blank.
-/

namespace Xml

/-- Without carriage returns no line end changes. -/
theorem normalizeLineEnds_eq_self {cs : List Char} (noReturn : '\r' ∉ cs) : normalizeLineEnds cs = cs := by
  have collected : ∀ (cs buffer : List Char), '\r' ∉ cs → buffer.head? ≠ some '\r' →
      normalizeLineEnds.go buffer cs = buffer.reverse ++ cs := by
    intro cs
    induction cs with
    | nil => exact fun buffer _ _ => (List.append_nil buffer.reverse).symm
    | cons c rest inductionHypothesis =>
        intro buffer absent front
        rw [List.mem_cons, not_or] at absent
        rw [normalizeLineEnds.go, Build.pushNormalized_of_ne (Ne.symm absent.1) front,
          inductionHypothesis (c :: buffer) absent.2 fun same => absent.1 (Option.some.inj same).symm,
          List.reverse_cons, List.append_assoc]
        rfl
  exact collected cs [] noReturn nofun

end Xml

/-! ## Texts -/

namespace Written

/-- What is written of a text, unless it becomes a section of its own. -/
def run? (raw : Bool) (s : String) : Option (List Char) :=
  if raw && !(s.toList.any fun c => c == '<' || c == '&') then some s.toList
  else if raw && !Text.contains s "]]>" then none
  else some (s.toList.flatMap textChar)

theorem toList_text {raw : Bool} {s : String} {cs : List Char} (found : run? raw s = some cs) :
    (text raw s).toList = cs := by
  rw [run?] at found
  rw [text]
  split at found
  · next plain => rw [if_pos plain, Option.some.inj found]
  · next marked =>
    rw [if_neg marked]
    split at found
    · cases found
    · next whole =>
      rw [if_neg whole, escape, String.toList_ofList, Option.some.inj found]

/-- A section is written only for a text that does not end it. -/
theorem toList_text_of_none {raw : Bool} {s : String} (none : run? raw s = none) :
    (text raw s).toList = "<![CDATA[".toList ++ (s.toList ++ "]]>".toList) ∧
      Text.hasPiece "]]>".toList s.toList = false := by
  rw [run?] at none
  split at none
  · cases none
  · next marked =>
    split at none
    · next sectioned =>
      rw [text, if_neg marked, if_pos sectioned, String.toList_append, String.toList_append, List.append_assoc]
      rw [Bool.and_eq_true, Bool.not_eq_true'] at sectioned
      exact ⟨rfl, sectioned.2⟩
    · cases none

theorem spells_run {raw : Bool} {s : String} {cs : List Char} (found : run? raw s = some cs) :
    Xml.Spells cs s.toList := by
  rw [run?] at found
  split at found
  · next plain =>
    rw [← Option.some.inj found]
    rw [Bool.and_eq_true, Bool.not_eq_true', List.any_eq_false] at plain
    apply Xml.Spells.self
    intro listed
    exact plain.2 '&' listed rfl
  · split at found
    · cases found
    · rw [← Option.some.inj found]
      exact spells_flatMap escapes_textChar s.toList

/-- A text that is no section begins no tag. -/
theorem of_mem_run {raw : Bool} {s : String} {cs : List Char} (found : run? raw s = some cs)
    (chars : ∀ c ∈ s.toList, Xml.isXmlChar c = true) : ∀ d ∈ cs, Xml.isXmlChar d = true ∧ d ≠ '<' := by
  intro d listed
  rw [run?] at found
  split at found
  · next plain =>
    rw [← Option.some.inj found] at listed
    rw [Bool.and_eq_true, Bool.not_eq_true', List.any_eq_false] at plain
    refine ⟨chars d listed, ?_⟩
    rintro rfl
    exact plain.2 '<' listed rfl
  · split at found
    · cases found
    · rw [← Option.some.inj found] at listed
      rcases List.mem_flatMap.mp listed with ⟨c, among, here⟩
      have escaped := of_mem_textChar here (chars c among)
      exact ⟨escaped.1, escaped.2.1⟩

end Written

/-! ## Branches -/

namespace NodeContent

/-- The comment or instruction of a node. -/
def remark? : NodeContent → Option Xml.Remark
  | comment s => some (.comment s.toList)
  | instruction name value => some (.instruction name.toList value.toList)
  | _ => none

theorem toList_leaf {c : NodeContent} {r : Xml.Remark} (found : c.remark? = some r) (raw : Bool) :
    (Written.leaf raw c).toList = r.text := by
  cases c with
  | comment s =>
      cases found
      rw [Written.leaf, String.toList_append, String.toList_append, List.append_assoc]
      rfl
  | instruction name value =>
      cases found
      have gap : (if value.isEmpty = true then "" else " " ++ value).toList =
          Xml.Build.instructionGap value.toList ++ value.toList := by
        rw [Xml.Build.instructionGap]
        by_cases empty : value.isEmpty = true
        · rw [if_pos empty, String.isEmpty_iff.mp empty]
          rfl
        · have nonempty : ¬ value.toList.isEmpty = true := by
            rw [List.isEmpty_iff, String.toList_eq_nil_iff]
            exact fun same => empty (String.isEmpty_iff.mpr same)
          rw [if_neg empty, if_neg nonempty, String.toList_append]
          rfl
      simp only [Written.leaf, String.toList_append, gap, List.append_assoc]
      rfl
  | _ => cases found

theorem node_remark {c : NodeContent} {r : Xml.Remark} (found : c.remark? = some r) (keep : Bool)
    (outer : Xml.Namespaces) : Reading.branch keep outer r.node = [.node c []] := by
  cases c with
  | comment s =>
      cases found
      rw [Xml.Remark.node, String.ofList_toList]
      rfl
  | instruction name value =>
      cases found
      rw [Xml.Remark.node, String.ofList_toList, String.ofList_toList]
      rfl
  | _ => cases found

/-- Remarks are neither elements nor texts. -/
theorem leaf_of_remark? {c : NodeContent} {r : Xml.Remark} (found : c.remark? = some r) :
    c.isElement = false ∧ c.isText = false := by
  cases c with
  | comment _ => exact ⟨rfl, rfl⟩
  | instruction _ _ => exact ⟨rfl, rfl⟩
  | _ => cases found

/-- A remark is written in the same way wherever it stands. -/
theorem toList_branch {c : NodeContent} {r : Xml.Remark} (found : c.remark? = some r) (opt : WriteOptions)
    (depth : Nat) (inline raw : Bool) (children : List Branch) :
    (Written.branch opt depth inline raw (.node c children)).toList = r.text := by
  rw [← toList_leaf found raw]
  cases c with
  | element e => cases found
  | _ => rfl

end NodeContent

namespace Branch

/-- What is written of a text, unless the branch is markup or becomes a section. -/
def run? (raw : Bool) : Branch → Option (List Char)
  | .node (.text s) _ => Written.run? raw s
  | _ => none

mutual

/-- Whether a branch can be read where certain namespaces are in force. -/
def isWritable (outer : Xml.Namespaces) : Branch → Bool
  | .node (.element e) children =>
    e.isWritable outer && areWritable (e.scope outer) (Written.isRaw e) [] children
  | .node (.text s) _ => s.toList.all Xml.isXmlChar
  | .node content _ => content.remark?.any (·.isReadable)

/-- Whether branches can be read behind a run of characters. -/
def areWritable (outer : Xml.Namespaces) (raw : Bool) (run : List Char) : List Branch → Bool
  | [] => !Text.hasPiece "]]>".toList run
  | b :: rest =>
    b.isWritable outer && match b.run? raw with
      | some more => areWritable outer raw (run ++ more) rest
      | none => !Text.hasPiece "]]>".toList run && areWritable outer raw [] rest

end

mutual

/-- Whether a branch that can be read is read as it was, given whether blanks count. -/
def isFaithful (keep : Bool) (outer : Xml.Namespaces) : Branch → Bool
  | .node (.element e) children => e.isFaithful outer && areFaithful (e.keepsBlanks keep) (e.scope outer) children
  | .node (.text s) _ => !s.isEmpty && !s.toList.contains '\r' && (keep || !Text.isBlank s)
  | _ => true

/-- Whether branches that can be read are read as they were.  No two texts may stand side
by side. -/
def areFaithful (keep : Bool) (outer : Xml.Namespaces) : List Branch → Bool
  | [] => true
  | b :: rest =>
    b.isFaithful keep outer && !(b.isText && (rest.head?.map isText).getD false) && areFaithful keep outer rest

end

/-- Whether some items have the names of certain branches, and are read as these if they are
faithful. -/
structure Rereads (opt : WriteOptions) (outer : Xml.Namespaces) (bs : List Branch) (items : List Xml.Item) : Prop where
  names : opt.pretty = false → (Xml.Node.allTags (items.map (·.alone))).map (·.names) = allNames outer bs
  branches : opt.pretty = false → AllFit Element.Typed bs → ∀ keep, areFaithful keep outer bs = true →
    items.map (·.isText) = bs.map isText ∧ Reading.branches keep outer (items.map (·.alone)) = bs

end Branch

namespace Reading

theorem branches_append (keep : Bool) (outer : Xml.Namespaces) (first second : List Xml.Node) :
    branches keep outer (first ++ second) = branches keep outer first ++ branches keep outer second := by
  induction first with
  | nil => rfl
  | cons n rest inductionHypothesis =>
      rw [List.cons_append, branches, branches, inductionHypothesis, List.append_assoc]

end Reading

namespace Branch

variable {opt : WriteOptions} {outer : Xml.Namespaces} {keep : Bool}

theorem areFaithful_append {first second : List Branch} (faithful : areFaithful keep outer (first ++ second) = true) :
    areFaithful keep outer first = true ∧ areFaithful keep outer second = true := by
  induction first with
  | nil => exact ⟨rfl, faithful⟩
  | cons b rest inductionHypothesis =>
      rw [List.cons_append, areFaithful, Bool.and_eq_true, Bool.and_eq_true] at faithful
      rcases faithful with ⟨⟨here, apart⟩, later⟩
      rcases inductionHypothesis later with ⟨restFaithful, secondFaithful⟩
      refine ⟨?_, secondFaithful⟩
      rw [areFaithful, here, restFaithful, Bool.true_and, Bool.and_true]
      cases rest with
      | nil => rw [List.head?_nil, Option.map_none, Option.getD_none, Bool.and_false]; rfl
      | cons c others => exact apart

theorem allFit_of_append {P : Element → Prop} {first second : List Branch} (fit : AllFit P (first ++ second)) :
    AllFit P first ∧ AllFit P second := by
  induction first with
  | nil => exact ⟨True.intro, fit⟩
  | cons b rest inductionHypothesis =>
      rcases inductionHypothesis fit.2 with ⟨restFits, secondFits⟩
      exact ⟨⟨fit.1, restFits⟩, secondFits⟩

/-- No two texts of faithful branches grow together. -/
theorem apart_of_areFaithful {bs : List Branch} {items : List Xml.Item} (faithful : areFaithful keep outer bs = true)
    (same : items.map (·.isText) = bs.map isText) : Xml.Item.Apart items := by
  induction bs generalizing items with
  | nil =>
      rw [List.map_nil, List.map_eq_nil_iff] at same
      rw [same]
      exact True.intro
  | cons b rest inductionHypothesis =>
      rcases items with _ | ⟨first, others⟩
      · cases same
      rw [List.map_cons, List.map_cons, List.cons.injEq] at same
      rw [areFaithful, Bool.and_eq_true, Bool.and_eq_true] at faithful
      have apart := inductionHypothesis faithful.2 same.2
      cases others with
      | nil => exact True.intro
      | cons second others =>
          cases rest with
          | nil => cases same.2
          | cons c rest =>
              refine ⟨?_, apart⟩
              rw [List.map_cons, List.map_cons, List.cons.injEq] at same
              have between := faithful.1.2
              rw [Bool.not_eq_true', List.head?_cons, Option.map_some, Option.getD_some] at between
              rw [same.1, same.2.1]
              exact between

namespace Rereads

theorem nil : Rereads opt outer [] [] :=
  ⟨fun _ => rfl, fun _ _ _ _ => ⟨rfl, rfl⟩⟩

theorem append {first second : List Branch} {before after : List Xml.Item}
    (reads : Rereads opt outer first before) (readsToo : Rereads opt outer second after) :
    Rereads opt outer (first ++ second) (before ++ after) := by
  refine ⟨fun compact => ?_, fun compact fit keep faithful => ?_⟩
  · rw [List.map_append, Xml.Node.allTags_append, List.map_append, reads.names compact, readsToo.names compact,
      allNames_append]
  rcases allFit_of_append fit with ⟨firstFits, secondFits⟩
  rcases areFaithful_append faithful with ⟨firstFaithful, secondFaithful⟩
  rcases reads.branches compact firstFits keep firstFaithful with ⟨texts, same⟩
  rcases readsToo.branches compact secondFits keep secondFaithful with ⟨textsToo, sameToo⟩
  refine ⟨?_, ?_⟩
  · rw [List.map_append, List.map_append, texts, textsToo]
  · rw [List.map_append, Reading.branches_append, same, sameToo]

theorem remark {c : NodeContent} {r : Xml.Remark} (found : c.remark? = some r) (children : List Branch) :
    Rereads opt outer [.node c children] [.node r.node] := by
  have leaf := NodeContent.leaf_of_remark? found
  refine ⟨fun _ => ?_, fun _ fit keep _ => ?_⟩
  · rw [allNames, allElementsIn, elementsIn_leaf leaf.1]
    cases r <;> rfl
  rw [fit.1.2.1 leaf.1]
  refine ⟨?_, ?_⟩
  · change [false] = [c.isText]
    rw [leaf.2]
  · change Reading.branch keep outer r.node ++ [] = _
    rw [NodeContent.node_remark found, List.append_nil]

theorem text {s : String} {whole : List Char} (plain : '\r' ∉ s.toList → whole = s.toList) (children : List Branch) :
    Rereads opt outer [.node (.text s) children] [.text whole] := by
  refine ⟨fun _ => rfl, fun _ fit keep faithful => ?_⟩
  rw [areFaithful, isFaithful, Bool.and_eq_true, Bool.and_eq_true, Bool.and_eq_true, Bool.and_eq_true,
    Bool.not_eq_true', Bool.not_eq_true', List.contains_eq_mem, decide_eq_false_iff_not] at faithful
  rcases faithful with ⟨⟨⟨⟨-, noReturn⟩, counts⟩, -⟩, -⟩
  rw [fit.1.2.1 rfl]
  refine ⟨rfl, ?_⟩
  change (if (keep || !Text.isBlank (String.ofList whole)) = true then _ else _) ++ [] = _
  rw [plain noReturn, String.ofList_toList, if_pos counts, List.append_nil]

end Rereads

/-! ## Runs of texts -/

section Runs

variable {raw : Bool}

/-- Whether a branch is written as a run of characters. -/
def IsRun (raw : Bool) (b : Branch) : Prop :=
  ∃ s children, b = .node (.text s) children ∧ (Written.run? raw s).isSome = true ∧
    ∀ c ∈ s.toList, Xml.isXmlChar c = true

/-- What is written of some texts. -/
def runText (raw : Bool) (bs : List Branch) : List Char :=
  bs.flatMap fun b => (b.run? raw).getD []

/-- What some texts stand for. -/
def runSpelt (bs : List Branch) : List Char :=
  bs.flatMap fun b => match b.content with
    | .text s => s.toList
    | _ => []

theorem spells_runText {bs : List Branch} (runs : ∀ b ∈ bs, IsRun raw b) :
    Xml.Spells (runText raw bs) (runSpelt bs) := by
  induction bs with
  | nil => exact .nil
  | cons b rest inductionHypothesis =>
      rcases runs b List.mem_cons_self with ⟨s, children, rfl, found, -⟩
      rcases Option.isSome_iff_exists.mp found with ⟨cs, same⟩
      rw [runText, List.flatMap_cons, runSpelt, List.flatMap_cons, run?, same]
      exact (Written.spells_run same).append (inductionHypothesis fun c listed => runs c (List.mem_cons_of_mem _ listed))

theorem of_mem_runText {bs : List Branch} (runs : ∀ b ∈ bs, IsRun raw b) :
    ∀ d ∈ runText raw bs, Xml.isXmlChar d = true ∧ d ≠ '<' := by
  intro d listed
  rcases List.mem_flatMap.mp listed with ⟨b, among, here⟩
  rcases runs b among with ⟨s, children, rfl, found, chars⟩
  rcases Option.isSome_iff_exists.mp found with ⟨cs, same⟩
  rw [run?, same] at here
  exact Written.of_mem_run same chars d here

/-- Nothing is written for faithful texts only if there are none. -/
theorem eq_nil_of_runText {bs : List Branch} (runs : ∀ b ∈ bs, IsRun raw b) (nothing : runText raw bs = [])
    (faithful : areFaithful keep outer bs = true) : bs = [] := by
  cases bs with
  | nil => rfl
  | cons b rest =>
      rcases runs b List.mem_cons_self with ⟨s, children, rfl, found, -⟩
      rcases Option.isSome_iff_exists.mp found with ⟨cs, same⟩
      rw [runText, List.flatMap_cons, List.append_eq_nil_iff, run?, same, Option.getD_some] at nothing
      have spells := Written.spells_run same
      rw [nothing.1] at spells
      rw [areFaithful, isFaithful, Bool.and_eq_true, Bool.and_eq_true, Bool.and_eq_true, Bool.and_eq_true,
        Bool.not_eq_true'] at faithful
      generalize empty : s.toList = spelt at spells
      cases spells
      rw [String.toList_eq_nil_iff.mp empty] at faithful
      cases faithful.1.1.1.1

/-- There are no names in texts. -/
theorem allNames_runs {bs : List Branch} (runs : ∀ b ∈ bs, IsRun raw b) : allNames outer bs = [] := by
  induction bs with
  | nil => rfl
  | cons b rest inductionHypothesis =>
      rcases runs b List.mem_cons_self with ⟨s, children, rfl, -⟩
      exact inductionHypothesis fun c listed => runs c (List.mem_cons_of_mem _ listed)

/-- A run is read as one text. -/
theorem reads_run {bs : List Branch} (runs : ∀ b ∈ bs, IsRun raw b)
    (noEnd : Text.hasPiece "]]>".toList (runText raw bs) = false) :
    Xml.Build.ReadsAlike false outer (runText raw bs) (Rereads opt outer bs) := by
  by_cases nothing : runText raw bs = []
  · rw [nothing]
    refine (Xml.Build.ReadsAlike.nil outer).of_closed.of_imp ?_
    rintro _ rfl
    refine ⟨fun _ => (allNames_runs runs).symm, fun compact fit keep faithful => ?_⟩
    rw [eq_nil_of_runText runs nothing faithful]
    exact ⟨rfl, rfl⟩
  · refine (Xml.Build.ReadsAlike.text (spells_runText runs) nothing (of_mem_runText runs) noEnd).of_imp ?_
    rintro _ ⟨whole, rfl, plain⟩
    rcases bs with _ | ⟨b, rest⟩
    · exact absurd rfl nothing
    rcases runs b List.mem_cons_self with ⟨s, children, rfl, -⟩
    rcases rest with _ | ⟨c, others⟩
    · rw [runSpelt, List.flatMap_cons, List.flatMap_nil, List.append_nil] at plain
      exact Rereads.text plain children
    · refine ⟨fun _ => (allNames_runs runs).symm, fun _ _ keep faithful => ?_⟩
      rcases runs c (List.mem_cons_of_mem _ List.mem_cons_self) with ⟨t, grandchildren, rfl, -⟩
      rw [areFaithful, Bool.and_eq_true, Bool.and_eq_true] at faithful
      cases faithful.1.2

end Runs

/-! ## Children without broken lines -/

section Children

open Xml.Build (ReadsBoth)

variable {raw : Bool} {written : Branch → List Char}

theorem isRun_of_run? {b : Branch} {more : List Char} (found : b.run? raw = some more)
    (writable : b.isWritable outer = true) : IsRun raw b := by
  rcases b with ⟨content, children⟩
  cases content with
  | text s =>
      rw [isWritable, List.all_eq_true] at writable
      rw [run?] at found
      exact ⟨s, children, rfl, by rw [found]; rfl, writable⟩
  | _ => cases found

/-- Children are read behind a run of texts: a text makes the run longer, and markup ends it.
What holds of runs and of markup read in two ways of writing holds of all children. -/
theorem readsBoth_children {writtenToo : Branch → List Char} {R : List Branch → List Xml.Item → List Xml.Item → Prop}
    (joins : ∀ first second a b c d, R first a c → R second b d → R (first ++ second) (a ++ b) (c ++ d))
    (run : ∀ bs, (∀ b ∈ bs, IsRun raw b) → Text.hasPiece "]]>".toList (runText raw bs) = false →
      ReadsBoth false outer (runText raw bs) (runText raw bs) (R bs))
    {pending bs : List Branch} (runs : ∀ b ∈ pending, IsRun raw b)
    (writable : areWritable outer raw (runText raw pending) bs = true)
    (texts : ∀ b ∈ bs, ∀ more, b.run? raw = some more → written b = more ∧ writtenToo b = more)
    (markup : ∀ b ∈ bs, b.isWritable outer = true → b.run? raw = none →
      (∃ more, written b = '<' :: more) ∧ (∃ more, writtenToo b = '<' :: more) ∧
        ReadsBoth true outer (written b) (writtenToo b) (R [b])) :
    ReadsBoth false outer (runText raw pending ++ bs.flatMap written) (runText raw pending ++ bs.flatMap writtenToo)
      (R (pending ++ bs)) := by
  induction bs generalizing pending with
  | nil =>
      rw [areWritable, Bool.not_eq_true'] at writable
      rw [List.flatMap_nil, List.flatMap_nil, List.append_nil, List.append_nil]
      exact run pending runs writable
  | cons b rest inductionHypothesis =>
      rw [areWritable, Bool.and_eq_true] at writable
      rcases writable with ⟨here, later⟩
      rw [List.flatMap_cons, List.flatMap_cons]
      have textsRest := fun c listed => texts c (List.mem_cons_of_mem b listed)
      have markupRest := fun c listed => markup c (List.mem_cons_of_mem b listed)
      cases found : b.run? raw with
      | some more =>
          rw [found] at later
          have longer : runText raw (pending ++ [b]) = runText raw pending ++ more := by
            rw [runText, List.flatMap_append, List.flatMap_cons, List.flatMap_nil, List.append_nil, found]
            rfl
          have runsLonger : ∀ c ∈ pending ++ [b], IsRun raw c := by
            intro c listed
            rcases List.mem_append.mp listed with before | last
            · exact runs c before
            · rw [List.mem_singleton.mp last]
              exact isRun_of_run? found here
          have all := @inductionHypothesis (pending ++ [b]) runsLonger (by rw [longer]; exact later) textsRest markupRest
          rw [longer, List.append_assoc, List.append_assoc, List.append_assoc] at all
          rcases texts b List.mem_cons_self more found with ⟨same, sameToo⟩
          rw [same, sameToo]
          exact all
      | none =>
          rw [found] at later
          rw [Bool.and_eq_true, Bool.not_eq_true'] at later
          rcases markup b List.mem_cons_self here found with ⟨⟨more, begins⟩, ⟨moreToo, beginsToo⟩, reads⟩
          have behind := @inductionHypothesis [] nofun later.2 textsRest markupRest
          have joined := (run pending runs later.1).append (reads.append behind (Or.inl rfl) (Or.inl rfl))
            (Or.inr ⟨more ++ rest.flatMap written, by rw [begins]; rfl⟩)
            (Or.inr ⟨moreToo ++ rest.flatMap writtenToo, by rw [beginsToo]; rfl⟩)
          refine joined.of_imp ?_
          rintro _ _ ⟨a, _, c, _, rfl, rfl, before, b', e, d', f, rfl, rfl, first, others⟩
          exact joins pending (b :: rest) a (b' ++ e) c (d' ++ f) before (joins [b] rest b' e d' f first others)

theorem reads_children {pending bs : List Branch} (runs : ∀ b ∈ pending, IsRun raw b)
    (writable : areWritable outer raw (runText raw pending) bs = true)
    (texts : ∀ b ∈ bs, ∀ more, b.run? raw = some more → written b = more)
    (markup : ∀ b ∈ bs, b.isWritable outer = true → b.run? raw = none →
      (∃ more, written b = '<' :: more) ∧ Xml.Build.ReadsAlike true outer (written b) (Rereads opt outer [b])) :
    Xml.Build.ReadsAlike false outer (runText raw pending ++ bs.flatMap written)
      (Rereads opt outer (pending ++ bs)) := by
  refine ReadsBoth.left (@readsBoth_children outer raw written written (fun bs items _ => Rereads opt outer bs items)
    ?_ ?_ pending bs runs writable ?_ ?_)
  · exact fun _ _ _ _ _ _ before after => before.append after
  · exact fun bs runs noEnd => ReadsBoth.of_alike (reads_run runs noEnd)
  · exact fun b listed more found => ⟨texts b listed more found, texts b listed more found⟩
  · intro b listed here found
    rcases markup b listed here found with ⟨begins, reads⟩
    exact ⟨begins, begins, ReadsBoth.of_alike reads⟩

end Children

/-! ## Children on lines of their own -/

/-- Blanks before a tag are read as a text of blanks. -/
theorem reads_blanks {blanks : List Char} (blank : ∀ c ∈ blanks, Text.isXmlSpace c = true) (nonempty : blanks ≠ []) :
    ∃ whole, (∀ c ∈ whole, Text.isXmlSpace c = true) ∧ Xml.Build.Reads false outer blanks (· = [.text whole]) := by
  have other : ∀ {c : Char}, c ∈ blanks → ∀ d, Text.isXmlSpace d = false → c ≠ d := by
    rintro c listed _ solid rfl
    rw [blank c listed] at solid
    cases solid
  have noEnd : Text.hasPiece [']', ']', '>'] blanks = false := by
    rw [← Bool.not_eq_true, Text.hasPiece_iff]
    intro within
    exact other (within.subset List.mem_cons_self) ']' (by decide) rfl
  have spells : Xml.Spells blanks blanks := .self fun listed => other listed '&' (by decide) rfl
  have chars : ∀ c ∈ blanks, Xml.isXmlChar c = true ∧ c ≠ '<' := by
    intro c listed
    refine ⟨?_, other listed '<' (by decide)⟩
    have space := blank c listed
    simp only [Text.isXmlSpace, Bool.or_eq_true, beq_iff_eq] at space
    rcases space with ((rfl | rfl) | rfl) | rfl <;> decide
  rcases Xml.Build.Reads.exists_text spells nonempty chars noEnd outer with ⟨whole, reads, -, wholeChars⟩
  refine ⟨whole, fun c listed => ?_, reads⟩
  rcases wholeChars c listed with given | rfl
  · exact blank c given
  · decide

/-- Children without texts are read with the blanks before each of them and behind the last. -/
theorem reads_lines {bs : List Branch} {written : Branch → List Char} {items : Branch → List Xml.Item}
    {gap ending : List Char} (gapBlank : ∀ c ∈ gap, Text.isXmlSpace c = true)
    (endingBlank : ∀ c ∈ ending, Text.isXmlSpace c = true) (some : gap ≠ []) (someToo : ending ≠ [])
    (markup : ∀ b ∈ bs,
      (∃ more, written b = '<' :: more) ∧ Xml.Build.Reads true outer (written b) (· = items b)) :
    ∃ before behind, (∀ c ∈ before, Text.isXmlSpace c = true) ∧ (∀ c ∈ behind, Text.isXmlSpace c = true) ∧
      Xml.Build.Reads false outer (bs.flatMap (fun b => gap ++ written b) ++ ending)
        (· = bs.flatMap (fun b => .text before :: items b) ++ [.text behind]) := by
  rcases @reads_blanks outer gap gapBlank some with ⟨before, beforeBlank, readsGap⟩
  rcases @reads_blanks outer ending endingBlank someToo with ⟨behind, behindBlank, readsEnding⟩
  refine ⟨before, behind, beforeBlank, behindBlank, ?_⟩
  induction bs with
  | nil => exact readsEnding
  | cons b rest inductionHypothesis =>
      rcases markup b List.mem_cons_self with ⟨⟨more, begins⟩, reads⟩
      have later := inductionHypothesis fun c listed => markup c (List.mem_cons_of_mem b listed)
      rw [List.flatMap_cons, List.append_assoc, List.append_assoc]
      refine (readsGap.append (reads.append later (Or.inl rfl)) (Or.inr ?_)).of_imp ?_
      · rw [begins]
        exact ⟨_, rfl⟩
      · rintro _ ⟨_, _, rfl, rfl, _, _, rfl, rfl, rfl⟩
        rw [List.flatMap_cons, List.append_assoc]
        rfl

end Branch

/-! ## Elements with their content -/

namespace Written

/-- The blanks before each child of an element. -/
def gap (opt : WriteOptions) (depth : Nat) (inline : Bool) : String :=
  if inline then "" else lineStart opt depth

theorem toList_branches (opt : WriteOptions) (depth : Nat) (inline raw : Bool) (bs : List Branch) :
    (String.join (branches opt depth inline raw bs)).toList =
      bs.flatMap fun b => (gap opt depth inline).toList ++ (branch opt depth inline raw b).toList := by
  rw [String.toList_join]
  induction bs with
  | nil => rfl
  | cons b rest inductionHypothesis =>
      rw [branches, List.flatMap_cons, List.flatMap_cons, inductionHypothesis, String.toList_append]
      rfl

theorem isXmlSpace_lineEnd (lineEnd : LineEnd) : ∀ c ∈ lineEnd.text.toList, Text.isXmlSpace c = true := by
  cases lineEnd <;> exact List.all_iff_forall_prop.mp (by decide)

theorem isXmlSpace_lineStart (opt : WriteOptions) (depth : Nat) :
    ∀ c ∈ (lineStart opt depth).toList, Text.isXmlSpace c = true := by
  intro c listed
  rw [lineStart] at listed
  split at listed
  · rw [String.toList_append, String.toList_ofList, List.mem_append, List.mem_replicate] at listed
    rcases listed with ending | ⟨-, rfl⟩
    · exact isXmlSpace_lineEnd opt.lineEnd c ending
    · decide
  · cases listed

theorem lineStart_ne_nil {opt : WriteOptions} (pretty : opt.pretty = true) (depth : Nat) :
    (lineStart opt depth).toList ≠ [] := by
  rw [lineStart, if_pos pretty, String.toList_append]
  intro empty
  have lineEnd := (List.append_eq_nil_iff.mp empty).1
  cases kind : opt.lineEnd <;> rw [kind] at lineEnd <;> cases lineEnd

theorem isXmlSpace_gap (opt : WriteOptions) (depth : Nat) (inline : Bool) :
    ∀ c ∈ (gap opt depth inline).toList, Text.isXmlSpace c = true := by
  rw [gap]
  split
  · nofun
  · exact isXmlSpace_lineStart opt depth

theorem gap_of_compact {opt : WriteOptions} {inline : Bool} (compact : (inline || !opt.pretty) = true) (depth : Nat) :
    gap opt depth inline = "" := by
  rw [gap]
  split
  · rfl
  · next broken =>
    rw [Bool.not_eq_true] at broken
    rw [broken, Bool.false_or, Bool.not_eq_true'] at compact
    rw [lineStart, compact]
    rfl

/-- An element with children as characters. -/
theorem toList_branch_element {outer : Xml.Namespaces} {e : Element} (writable : e.isWritable outer = true)
    (opt : WriteOptions) (depth : Nat) (inline raw : Bool) {children : List Branch} (some : children ≠ []) :
    let inside := inline || children.any Branch.isText
    (branch opt depth inline raw (.node (.element e) children)).toList =
      Xml.Build.tagText e.tagName e.spelledAttributes ++ (Xml.Build.closing false ++
        ((children.flatMap (fun b => (gap opt (depth + 1) inside).toList ++
          (branch opt (depth + 1) inside (isRaw e) b).toList) ++ (gap opt depth inside).toList)
          ++ Xml.Build.endText e.tagName)) := by
  rcases children with _ | ⟨child, rest⟩
  · exact absurd rfl some
  intro inside
  rw [branch]
  change (((((("<" ++ e.qualifiedName) ++ attributes e) ++ ">") ++ String.join _) ++ gap opt depth inside)
    ++ "</" ++ e.qualifiedName ++ ">").toList = _
  rw [String.toList_append, String.toList_append, String.toList_append, String.toList_append, String.toList_append,
    String.toList_append, Element.toList_tag writable, toList_branches, Element.toList_qualifiedName writable]
  simp only [List.append_assoc]
  rfl

theorem toList_leaf_element {outer : Xml.Namespaces} {e : Element} (writable : e.isWritable outer = true)
    (opt : WriteOptions) (depth : Nat) (inline raw : Bool) :
    (branch opt depth inline raw (.node (.element e) [])).toList =
      Xml.Build.tagText e.tagName e.spelledAttributes ++ Xml.Build.closing true := by
  change (("<" ++ e.qualifiedName ++ attributes e) ++ "/>").toList = _
  rw [String.toList_append, Element.toList_tag writable]
  rfl

end Written

namespace Branch

open Xml.Build (Reads ReadsAlike TagCameFrom)

variable {opt : WriteOptions} {outer : Xml.Namespaces}

/-- What an element with faithful content is read as. -/
theorem Rereads.element {e : Element} {children : List Branch} {tag : Xml.StartTag} {kids : List Xml.Item}
    (cameFrom : TagCameFrom tag outer e.tagName e.spelledAttributes)
    (reads : Rereads opt (e.scope outer) children kids) :
    Rereads opt outer [.node (.element e) children] [.node (Reads.elementOf tag kids)] := by
  refine ⟨fun compact => ?_, fun compact fit keep faithful => ?_⟩
  · rw [allNames, allElementsIn, allElementsIn, List.append_nil, List.map_singleton, Xml.Node.allTags_singleton,
      Xml.Item.alone, Reads.elementOf, Xml.Node.tags, Xml.Children.allTags_addAll,
      elementsIn, List.map_cons, List.map_cons, Element.names_of_cameFrom cameFrom]
    exact congrArg (_ :: ·) (reads.names compact)
  rw [areFaithful, isFaithful, Bool.and_eq_true, Bool.and_eq_true, Bool.and_eq_true] at faithful
  rcases faithful with ⟨⟨⟨faithful, childrenFaithful⟩, -⟩, -⟩
  rcases reads.branches compact fit.1.2.2 _ childrenFaithful with ⟨texts, same⟩
  have grown := @Xml.Item.addAll_of_apart kids (apart_of_areFaithful childrenFaithful texts) .start
    fun impossible => absurd impossible Bool.false_ne_true
  refine ⟨rfl, ?_⟩
  change [Branch.node (.element (Reading.element tag outer)) (Reading.branches (Reading.keepsBlanks tag keep)
    tag.namespaces (Xml.Children.start.addAll kids).reversed.reverse)] ++ [] = _
  rw [grown, Element.element_of_cameFrom faithful (fit.1.1 e rfl) cameFrom,
    Element.keepsBlanks_of_cameFrom faithful cameFrom, cameFrom.namespaces_eq, List.reverse_append,
    List.reverse_reverse]
  exact congrArg (fun inside => [Branch.node (.element e) inside]) same

theorem isWritable_of_mem {raw : Bool} {run : List Char} {bs : List Branch}
    (writable : areWritable outer raw run bs = true) : ∀ b ∈ bs, b.isWritable outer = true := by
  induction bs generalizing run with
  | nil => nofun
  | cons b rest inductionHypothesis =>
      rw [areWritable, Bool.and_eq_true] at writable
      rcases writable with ⟨here, later⟩
      intro c listed
      rcases List.mem_cons.mp listed with rfl | behind
      · exact here
      cases found : b.run? raw with
      | some more =>
          rw [found] at later
          exact inductionHypothesis later c behind
      | none =>
          rw [found, Bool.and_eq_true] at later
          exact inductionHypothesis later.2 c behind

/-- Whether markup can be read. -/
def ReadsMarkup (opt : WriteOptions) (outer : Xml.Namespaces) (depth : Nat) (inline raw : Bool) (b : Branch) : Prop :=
  (∃ more, (Written.branch opt depth inline raw b).toList = '<' :: more) ∧
    ReadsAlike true outer (Written.branch opt depth inline raw b).toList (Rereads opt outer [b])

theorem toList_of_run? {raw : Bool} {b : Branch} {more : List Char} (found : b.run? raw = some more)
    (depth : Nat) (inline : Bool) : (Written.branch opt depth inline raw b).toList = more := by
  rcases b with ⟨content, children⟩
  cases content with
  | text s => exact Written.toList_text found
  | _ => cases found

theorem run?_of_not_text {b : Branch} (markup : b.isText = false) (raw : Bool) : b.run? raw = none := by
  rcases b with ⟨content, children⟩
  cases content with
  | text s => cases markup
  | _ => rfl

/-- Where lines are broken no text stands among the children. -/
theorem not_text_of_broken {inline : Bool} {children : List Branch} (texts : children.any isText = true → inline = true)
    (broken : inline = false) : ∀ b ∈ children, b.isText = false := by
  intro b listed
  rw [← Bool.not_eq_true]
  intro text
  rw [texts (List.any_eq_true.mpr ⟨b, listed, text⟩)] at broken
  cases broken

/-- The content of an element is read if the markup in it is. -/
theorem reads_content {raw inline : Bool} {children : List Branch} {depth : Nat}
    (texts : children.any isText = true → inline = true) (writable : areWritable outer raw [] children = true)
    (markup : ∀ b ∈ children, b.isWritable outer = true → b.run? raw = none →
      ReadsMarkup opt outer (depth + 1) inline raw b) :
    ReadsAlike false outer (children.flatMap (fun b => (Written.gap opt (depth + 1) inline).toList ++
        (Written.branch opt (depth + 1) inline raw b).toList) ++ (Written.gap opt depth inline).toList)
      (Rereads opt outer children) := by
  let written (b : Branch) : List Char := (Written.branch opt (depth + 1) inline raw b).toList
  by_cases compact : (inline || !opt.pretty) = true
  · rw [Written.gap_of_compact compact, Written.gap_of_compact compact]
    change ReadsAlike false _ (children.flatMap written ++ []) _
    rw [List.append_nil]
    exact @reads_children opt outer raw written [] children nofun writable
      (fun b _ more found => toList_of_run? found (depth + 1) inline) markup
  · rw [Bool.not_eq_true, Bool.or_eq_false_iff, Bool.not_eq_false'] at compact
    rcases compact with ⟨broken, pretty⟩
    have noRun : ∀ b ∈ children, b.run? raw = none :=
      fun b listed => run?_of_not_text (not_text_of_broken texts broken b listed) raw
    have each : ∀ b ∈ children, ∃ items, (∃ more, written b = '<' :: more) ∧ Reads true outer (written b) (· = items) := by
      intro b listed
      rcases markup b listed (isWritable_of_mem writable b listed) (noRun b listed) with ⟨begins, items, -, reads⟩
      exact ⟨items, begins, reads⟩
    choose! items each using each
    have notCompact : opt.pretty ≠ false := by rw [pretty]; exact nofun
    have lines (depth : Nat) : (Written.gap opt depth inline).toList ≠ [] := by
      rw [Written.gap, broken]
      exact Written.lineStart_ne_nil pretty depth
    rcases reads_lines (Written.isXmlSpace_gap opt (depth + 1) inline) (Written.isXmlSpace_gap opt depth inline)
      (lines (depth + 1)) (lines depth) each with ⟨before, behind, -, -, reads⟩
    exact ⟨_, ⟨fun compact => absurd compact notCompact, fun compact => absurd compact notCompact⟩, reads⟩

theorem readsMarkup_element {e : Element} {children : List Branch} (writable : e.isWritable outer = true)
    (inside : areWritable (e.scope outer) (Written.isRaw e) [] children = true) {depth : Nat} {inline : Bool}
    (markup : ∀ b ∈ children, b.isWritable (e.scope outer) = true → b.run? (Written.isRaw e) = none →
      ReadsMarkup opt (e.scope outer) (depth + 1) (inline || children.any isText) (Written.isRaw e) b) (raw : Bool) :
    ReadsMarkup opt outer depth inline raw (.node (.element e) children) := by
  rcases children with _ | ⟨child, rest⟩
  · rw [ReadsMarkup, Written.toList_leaf_element writable]
    have readable := Element.readableTag writable
    refine ⟨⟨_, rfl⟩, (ReadsAlike.emptyElement readable).of_imp ?_⟩
    rintro _ rfl
    exact Rereads.element (Xml.Build.tagCameFrom_tagOf outer e.tagName readable.readable) .nil
  · rw [ReadsMarkup, Written.toList_branch_element writable opt depth inline raw (List.cons_ne_nil child rest)]
    refine ⟨⟨_, rfl⟩, ?_⟩
    have content := reads_content (fun text => by rw [text, Bool.or_true]) inside markup
    have readable := Element.readableTag writable
    refine (content.element readable).of_imp ?_
    rintro _ ⟨kids, rfl, reads⟩
    exact Rereads.element (Xml.Build.tagCameFrom_tagOf outer e.tagName readable.readable) reads

/-- What is writable as a remark is readable as one. -/
theorem isReadable_of_remark? {c : NodeContent} {r : Xml.Remark} (found : c.remark? = some r) {children : List Branch}
    (writable : (Branch.node c children).isWritable outer = true) : r.isReadable = true := by
  cases c with
  | comment s => cases found; exact writable
  | instruction name value => cases found; exact writable
  | _ => cases found

theorem readsMarkup_remark {c : NodeContent} {r : Xml.Remark} (found : c.remark? = some r) {children : List Branch}
    (writable : (Branch.node c children).isWritable outer = true) (depth : Nat) (inline raw : Bool) :
    ReadsMarkup opt outer depth inline raw (.node c children) := by
  rw [ReadsMarkup, NodeContent.toList_branch found]
  refine ⟨?_, (ReadsAlike.remark (isReadable_of_remark? found writable)).of_imp ?_⟩
  · cases r <;> exact ⟨_, rfl⟩
  · rintro _ rfl
    exact Rereads.remark found children

theorem readsMarkup_section {s : String} {raw : Bool} {children : List Branch}
    (writable : (Branch.node (.text s) children).isWritable outer = true) (noRun : Written.run? raw s = none)
    (depth : Nat) (inline : Bool) : ReadsMarkup opt outer depth inline raw (.node (.text s) children) := by
  rw [isWritable, List.all_eq_true] at writable
  rcases Written.toList_text_of_none noRun with ⟨sectioned, absent⟩
  have text : (Written.branch opt depth inline raw (.node (.text s) children)).toList = (Written.text raw s).toList :=
    rfl
  rw [ReadsMarkup, text, sectioned]
  refine ⟨⟨_, rfl⟩, (ReadsAlike.characterSection writable absent).of_imp ?_⟩
  rintro _ rfl
  exact Rereads.text Xml.normalizeLineEnds_eq_self children

mutual

/-- A writable branch that is no run of characters begins with a tag and can be read. -/
theorem readsMarkup (opt : WriteOptions) (outer : Xml.Namespaces) (depth : Nat) (inline raw : Bool) :
    ∀ b : Branch, b.isWritable outer = true → b.run? raw = none → ReadsMarkup opt outer depth inline raw b
  | .node (.element e) children, writable, _ => by
    rw [isWritable, Bool.and_eq_true] at writable
    exact readsMarkup_element writable.1 writable.2 (readsMarkup_of_mem opt (e.scope outer) (depth + 1)
      (inline || children.any isText) (Written.isRaw e) children) raw
  | .node (.text _) _, writable, noRun => readsMarkup_section writable noRun depth inline
  | .node (.comment _) _, writable, _ => readsMarkup_remark rfl writable depth inline raw
  | .node (.instruction _ _) _, writable, _ => readsMarkup_remark rfl writable depth inline raw
  | .node .root _, writable, _ => nomatch writable
  | .node (.doctype _) _, writable, _ => nomatch writable

theorem readsMarkup_of_mem (opt : WriteOptions) (outer : Xml.Namespaces) (depth : Nat) (inline raw : Bool) :
    ∀ bs : List Branch, ∀ b ∈ bs, b.isWritable outer = true → b.run? raw = none →
      ReadsMarkup opt outer depth inline raw b
  | [], _, listed => nomatch listed
  | first :: rest, b, listed =>
    (List.mem_cons.mp listed).elim (fun same => same ▸ readsMarkup opt outer depth inline raw first)
      (readsMarkup_of_mem opt outer depth inline raw rest b)

end

end Branch

end SlimSvg
