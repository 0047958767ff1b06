import Mathlib.Data.List.Induction
import SlimSvg.Css.Matching
import SlimSvg.Css.SelectorText
import SlimSvg.Proofs.Attempt
import SlimSvg.Proofs.Tree.Kinship
import SlimSvg.Proofs.Tree.Reading

namespace SlimSvg
namespace Css

/-!
# What a selector selects

The matcher goes from the last compound to the first one and tries every element
that may stand for the compound before.  What a selector means is said here
without a search: there is a line of elements, one for each compound, which ends
at the node in question and in which neighbours stand in the relations that the
combinators ask for.  The matcher finds a line exactly if there is one.
-/

/-! ## The meaning of tests, compounds and combinators -/

/-- Whether a test is true of an element.  What may come true at some time counts
as true. -/
def SimpleSelector.Holds (e : Element) : SimpleSelector → Prop
  | .universal => True
  | .typeName name => e.name = name
  | .className name => name ∈ e.classes
  | .idName id => e.id? = some id
  | .attributeTest t => ∃ text, e.anyAttribute? t.name = some text ∧ t.accepts text = true
  | .pseudoClass _ _ | .pseudoElement _ _ => True

/-- Whether all tests of a compound are true of a node. -/
def Compound.Describes (c : Compound) (doc : Document) (node : NodeId) : Prop :=
  ∃ e, doc.element? node = some e ∧ ∀ test ∈ c.tests, test.Holds e

/-- Whether two nodes stand in the relation of a combinator. -/
def Combinator.Relates (c : Combinator) (doc : Document) (outer inner : NodeId) : Prop :=
  match c with
  | .descendant => doc.Above outer inner
  | .child => doc.parent? inner = some outer
  | .adjacent =>
    ∃ between, doc.SiblingsAround outer between inner ∧ ∀ other ∈ between, ¬ doc.isElement other
  | .sibling => ∃ between, doc.SiblingsAround outer between inner

/-- A line of nodes that fits some compounds, one node for each of them, and ends at
a node.  What the line holds beyond the compounds does not count. -/
structure LineTo (doc : Document) (compounds : List Compound) (node : NodeId)
    (line : Nat → NodeId) : Prop where
  ends : line (compounds.length - 1) = node
  described : ∀ (i : Nat) (c : Compound), compounds[i]? = some c → c.Describes doc (line i)
  related : ∀ (i : Nat) (c : Compound), compounds[i + 1]? = some c →
    ∃ combinator, c.combinator = some combinator ∧ combinator.Relates doc (line i) (line (i + 1))

/-! ## One test, one compound, one combinator -/

theorem SimpleSelector.accepts_iff (test : SimpleSelector) (e : Element) :
    test.accepts e = true ↔ test.Holds e := by
  cases test with
  | universal => exact ⟨fun _ => True.intro, fun _ => rfl⟩
  | typeName name => exact beq_iff_eq
  | className name => exact List.contains_iff_mem
  | idName id => exact beq_iff_eq
  | attributeTest t =>
      rw [accepts, Holds]
      cases found : e.anyAttribute? t.name with
      | none =>
          constructor
          · intro impossible
            cases impossible
          · rintro ⟨_, impossible, _⟩
            cases impossible
      | some text =>
          constructor
          · exact fun accepted => ⟨text, rfl, accepted⟩
          · rintro ⟨other, same, accepted⟩
            rw [Option.some.inj same]
            exact accepted
  | pseudoClass _ _ => exact ⟨fun _ => True.intro, fun _ => rfl⟩
  | pseudoElement _ _ => exact ⟨fun _ => True.intro, fun _ => rfl⟩

theorem Compound.accepts_iff (c : Compound) (doc : Document) (node : NodeId) :
    c.accepts doc node = true ↔ c.Describes doc node := by
  rw [accepts, Describes]
  cases found : doc.element? node with
  | none =>
      constructor
      · intro impossible
        cases impossible
      · rintro ⟨_, impossible, _⟩
        cases impossible
  | some e =>
      rw [List.all_eq_true]
      constructor
      · exact fun all => ⟨e, rfl, fun test listed => (test.accepts_iff e).mp (all test listed)⟩
      · rintro ⟨other, same, all⟩ test listed
        rw [Option.some.inj same]
        exact (test.accepts_iff other).mpr (all test listed)

theorem Compound.Describes.isElement {c : Compound} {doc : Document} {node : NodeId}
    (described : c.Describes doc node) : doc.isElement node := by
  obtain ⟨e, found, -⟩ := described
  exact Document.isElement_of_element? found

/-- The candidates of a combinator are the elements in its relation. -/
theorem Combinator.mem_related {P : Element → Prop} {doc : Document} (grown : doc.Grown P)
    (c : Combinator) {outer inner : NodeId} :
    outer ∈ c.related doc inner ↔ c.Relates doc outer inner ∧ doc.isElement outer := by
  cases c with
  | descendant => exact Document.mem_elementAncestors grown
  | child => exact Option.mem_toList.trans (Document.parentElement?_eq_some grown)
  | adjacent => exact Option.mem_toList.trans (Document.previousElement?_eq_some grown.toLinked)
  | sibling => exact Document.mem_previousElements grown.toLinked

/-! ## Selectors that were read -/

/-- There is a first compound, which may have a combinator in front, and all others
have one. -/
def Joined (combinator : Option Combinator) (compounds : List Compound) : Prop :=
  ∃ first others, compounds = first :: others ∧ first.combinator = combinator ∧
    ∀ c ∈ others, c.combinator.isSome

namespace SelectorText

theorem joined_of_compounds {nested : Bool → List Char → Except CssError (List Selector)}
    {text : List Char} {bound : Nat} {combinator : Option Combinator} {cs : List Char}
    {found : List Compound} (read : compounds nested text bound combinator cs = .ok found) :
    Joined combinator found := by
  -- Every compound but the first is read with the combinator that was found before it.
  induction bound generalizing combinator cs found with
  | zero => cases read
  | succ bound inductionHypothesis =>
      have further : ∀ {next : Combinator} {rest : List Char} {tests : List SimpleSelector},
          (do let others ← compounds nested text bound (some next) rest
              pure (⟨combinator, tests⟩ :: others)) = Except.ok found →
            Joined combinator found := by
        intro next rest tests succeeded
        obtain ⟨others, othersRead, same⟩ := bind_eq_ok.mp succeeded
        obtain ⟨first, later, shape, owner, combined⟩ := inductionHypothesis othersRead
        refine ⟨⟨combinator, tests⟩, others, (pure_eq_ok.mp same).symm, rfl, ?_⟩
        intro c listed
        rw [shape] at listed
        rcases List.mem_cons.mp listed with here | afterwards
        · rw [here, owner]
          rfl
        · exact combined c afterwards
      rw [compounds] at read
      obtain ⟨⟨tests, rest⟩, -, read⟩ := bind_eq_ok.mp read
      dsimp only at read
      split at read
      · cases read
      · split at read
        · exact ⟨⟨combinator, tests⟩, [], (pure_eq_ok.mp read).symm, rfl,
            List.forall_mem_nil _⟩
        · split at read
          · exact further read
          · exact further read

end SelectorText

/-- What reading promises of a selector. -/
structure Selector.WasRead (s : Selector) : Prop where
  joined : ∃ combinator, Joined combinator s.compounds
  isSimple_eq : s.isSimple = areSimple s.compounds

theorem SelectorText.wasRead_of_selector
    {nested : Bool → List Char → Except CssError (List Selector)} {relative : Bool}
    {text : List Char} {s : Selector} (read : selector nested relative text = .ok s) :
    s.WasRead := by
  rw [selector] at read
  split at read
  · cases read
  · dsimp only at read
    obtain ⟨found, foundRead, same⟩ := bind_eq_ok.mp read
    rw [← pure_eq_ok.mp same]
    exact ⟨⟨_, joined_of_compounds foundRead⟩, rfl⟩

/-! ## Lines and their last step -/

namespace LineTo

variable {doc : Document} {compounds : List Compound} {c : Compound} {node : NodeId}
  {line : Nat → NodeId}

theorem single (described : c.Describes doc node) : LineTo doc [c] node fun _ => node := by
  refine ⟨rfl, ?_, ?_⟩
  · intro i other found
    cases i with
    | zero => exact Option.some.inj found ▸ described
    | succ i => cases found
  · intro i other found
    cases found

/-- A line goes on to a node that stands in the right relation to its end. -/
theorem extend {outer : NodeId} {combinator : Combinator} (fits : LineTo doc compounds outer line)
    (described : c.Describes doc node) (combined : c.combinator = some combinator)
    (relates : combinator.Relates doc outer node) :
    LineTo doc (compounds ++ [c]) node fun i => if i < compounds.length then line i else node := by
  have atEnd : ∀ {i : Nat} {other : Compound}, (compounds ++ [c])[i]? = some other →
      ¬ i < compounds.length → i = compounds.length ∧ other = c := by
    intro i other found beyond
    rw [List.getElem?_append_right (Nat.le_of_not_lt beyond)] at found
    have inside := (List.getElem?_eq_some_iff.mp found).1
    have place : i - compounds.length = 0 := Nat.lt_one_iff.mp inside
    rw [place] at found
    exact ⟨Nat.le_antisymm (Nat.sub_eq_zero_iff_le.mp place) (Nat.le_of_not_lt beyond),
      (Option.some.inj found).symm⟩
  refine ⟨?_, ?_, ?_⟩
  · rw [List.length_append, List.length_singleton, Nat.add_sub_cancel, if_neg (Nat.lt_irrefl _)]
  · intro i other found
    by_cases old : i < compounds.length
    · rw [if_pos old]
      exact fits.described i other (List.getElem?_append_left old ▸ found)
    · rw [if_neg old, (atEnd found old).2]
      exact described
  · intro i other found
    by_cases old : i + 1 < compounds.length
    · rw [if_pos old, if_pos (Nat.lt_of_succ_lt old)]
      exact fits.related i other (List.getElem?_append_left old ▸ found)
    · obtain ⟨last, same⟩ := atEnd found old
      rw [if_neg old, if_pos (last ▸ Nat.lt_succ_self i), same]
      refine ⟨combinator, combined, ?_⟩
      have outerEq : line i = outer := by
        rw [← fits.ends, ← last, Nat.add_sub_cancel]
      rw [outerEq]
      exact relates

/-- Without its end a line leads to a node in the relation that the last
combinator asks for. -/
theorem shorten (fits : LineTo doc (compounds ++ [c]) node line) (nonempty : compounds ≠ []) :
    LineTo doc compounds (line (compounds.length - 1)) line ∧ c.Describes doc node ∧
      ∃ combinator, c.combinator = some combinator ∧
        combinator.Relates doc (line (compounds.length - 1)) node := by
  have last : line compounds.length = node := by
    have ends := fits.ends
    rw [List.length_append, List.length_singleton, Nat.add_sub_cancel] at ends
    exact ends
  have atEnd : (compounds ++ [c])[compounds.length]? = some c := List.getElem?_concat_length
  have before : compounds.length - 1 + 1 = compounds.length :=
    Nat.sub_add_cancel (List.length_pos_iff.mpr nonempty)
  refine ⟨⟨rfl, ?_, ?_⟩, last ▸ fits.described _ c atEnd, ?_⟩
  · intro i other found
    have inside := (List.getElem?_eq_some_iff.mp found).1
    exact fits.described i other (List.getElem?_append_left inside ▸ found)
  · intro i other found
    have inside := (List.getElem?_eq_some_iff.mp found).1
    exact fits.related i other (List.getElem?_append_left inside ▸ found)
  · have step := fits.related (compounds.length - 1) c (before ▸ atEnd)
    rw [before, last] at step
    exact step

end LineTo

/-! ## The search -/

/-- The search finds elements for all compounds exactly if there is a line. -/
theorem leadTo_iff {P : Element → Prop} {doc : Document} (grown : doc.Grown P)
    (compounds : List Compound) (node : NodeId) (nonempty : compounds ≠ [])
    (combined : ∀ c ∈ compounds.tail, c.combinator.isSome) :
    leadTo doc compounds.reverse node = true ↔ ∃ line, LineTo doc compounds node line := by
  -- The search peels compounds off the end, and so does the induction.
  induction compounds using List.reverseRecOn generalizing node with
  | nil => exact absurd rfl nonempty
  | append_singleton compounds c inductionHypothesis =>
      rw [List.reverse_append, List.reverse_singleton, List.singleton_append, leadTo,
        Bool.and_eq_true_iff, Compound.accepts_iff]
      by_cases alone : compounds = []
      · rw [alone, List.reverse_nil, List.isEmpty_nil, Bool.true_or]
        constructor
        · exact fun found => ⟨_, .single found.1⟩
        · rintro ⟨line, fits⟩
          have described := fits.described 0 c rfl
          exact ⟨fits.ends ▸ described, rfl⟩
      · have tailEq : (compounds ++ [c]).tail = compounds.tail ++ [c] := List.tail_append_of_ne_nil alone
        rw [tailEq] at combined
        obtain ⟨combinator, combinatorEq⟩ := Option.isSome_iff_exists.mp
          (combined c (List.mem_append_right _ List.mem_cons_self))
        have searched := fun outer => inductionHypothesis outer alone
          fun other listed => combined other (List.mem_append_left _ listed)
        rw [List.isEmpty_reverse, List.isEmpty_eq_false_iff.mpr alone, Bool.false_or, combinatorEq,
          Option.getD_some, List.any_eq_true]
        constructor
        · rintro ⟨described, outer, candidate, reached⟩
          obtain ⟨line, fits⟩ := (searched outer).mp reached
          exact ⟨_, fits.extend described combinatorEq ((combinator.mem_related grown).mp candidate).1⟩
        · rintro ⟨line, fits⟩
          obtain ⟨shorter, described, other, otherEq, relates⟩ := fits.shorten alone
          rw [combinatorEq] at otherEq
          refine ⟨described, line (compounds.length - 1), ?_, (searched _).mpr ⟨line, shorter⟩⟩
          have place := Nat.sub_one_lt (Nat.ne_of_gt (List.length_pos_iff.mpr alone))
          have outerDescribed := shorter.described _ _ (List.getElem?_eq_getElem place)
          exact (combinator.mem_related grown).mpr
            ⟨Option.some.inj otherEq ▸ relates, outerDescribed.isElement⟩

namespace Selector

variable {s : Selector} {doc : Document} {node : NodeId}

/-- The short way for simple selectors is the general one. -/
theorem selects_eq_leadTo (read : s.WasRead) :
    s.selects doc node = (doc.isElement node && leadTo doc s.compounds.reverse node) := by
  rw [selects]
  cases simple : s.isSimple with
  | false => rfl
  | true =>
      have shape := read.isSimple_eq ▸ simple
      obtain ⟨compounds, isSimple⟩ := s
      match compounds, shape with
      | [c], _ =>
        change c.accepts doc node = (doc.isElement node && (c.accepts doc node && (true || _)))
        rw [Bool.true_or, Bool.and_true]
        cases accepted : c.accepts doc node with
        | false => rw [Bool.and_false]
        | true => rw [((c.accepts_iff doc node).mp accepted).isElement]; rfl

theorem selects_iff {P : Element → Prop} (grown : doc.Grown P) (read : s.WasRead) :
    s.selects doc node = true ↔ doc.isElement node ∧ ∃ line, LineTo doc s.compounds node line := by
  obtain ⟨_, first, others, shape, -, combined⟩ := read.joined
  have nonempty : s.compounds ≠ [] := by
    rw [shape]
    exact List.cons_ne_nil first others
  rw [selects_eq_leadTo read, Bool.and_eq_true_iff,
    leadTo_iff grown s.compounds node nonempty (shape ▸ combined)]

/-- A selector selects a node of a document exactly if the node is an element and
there is a line of elements to it, one for each compound; and the short way for
simple selectors never disagrees with the search. -/
theorem selects_iff_line {text source : String} {name : Option String}
    (parsed : Document.read text name = .ok doc) (read : Selector.read source = .ok s)
    (node : NodeId) :
    (s.selects doc node = true ↔
        doc.isElement node ∧ ∃ line, LineTo doc s.compounds node line) ∧
      s.selects doc node = (doc.isElement node && leadTo doc s.compounds.reverse node) :=
  have wasRead := SelectorText.wasRead_of_selector read
  ⟨selects_iff (Document.grown_of_read parsed) wasRead, selects_eq_leadTo wasRead⟩

/-- The nearest ancestor that is described need not be the one that leads on: here
the child of the inner `b` is selected through the outer one. -/
theorem exists_line_of_nested :
    ∃ doc s line,
      Document.read "<a><b><x><b><c/></b></x></b></a>" none = .ok doc ∧
      Selector.read "a>b c" = .ok s ∧ doc.isElement ⟨5⟩ = true ∧
      LineTo doc s.compounds ⟨5⟩ line := by
  have computed : ((Document.read "<a><b><x><b><c/></b></x></b></a>" none).toOption.bind fun doc =>
      (Selector.read "a>b c").toOption.map fun s => s.selects doc ⟨5⟩) = some true := by
    decide +kernel
  obtain ⟨doc, parsed, computed⟩ := Option.bind_eq_some_iff.mp computed
  obtain ⟨s, read, computed⟩ := Option.map_eq_some_iff.mp computed
  rw [toOption_eq_some] at parsed read
  obtain ⟨isElement, line, fits⟩ := (selects_iff_line parsed read ⟨5⟩).1.mp computed
  exact ⟨doc, s, line, parsed, read, isElement, fits⟩

end Selector

end Css
end SlimSvg
