import SlimSvg.Proofs.Xml.Scanning
import SlimSvg.Xml.Reader

namespace SlimSvg
namespace Xml

/-!
# Reading text, comments and instructions

The parts of a document that are no tags are read as they were written: a text becomes
what it spells, and a comment, an instruction or a character data section becomes what
stands between its delimiters.
-/

/-! ## Texts that spell characters

A text in which every ampersand begins a reference to a character spells characters: each
reference the one that it refers to, and every other character itself.  It can be read
wherever character data or an attribute value may stand, whatever entities are declared.
What is read is what the text spells, except for line ends and, in attributes, for blanks.
-/

/-- Whether a text spells some characters. -/
inductive Spells : List Char → List Char → Prop
  | nil : Spells [] []
  | char {c : Char} {written spelt : List Char} (plain : c ≠ '&') (rest : Spells written spelt) :
    Spells (c :: written) (c :: spelt)
  | reference {name : List Char} {c : Char} {written spelt : List Char} (closed : ';' ∉ name)
    (named : Piece.targetOf? name = some (.char c)) (rest : Spells written spelt) :
    Spells ('&' :: (name ++ ';' :: written)) (c :: spelt)

namespace Spells

variable {written spelt more others : List Char}

theorem append (first : Spells written spelt) (second : Spells more others) :
    Spells (written ++ more) (spelt ++ others) := by
  induction first with
  | nil => exact second
  | char plain _ inductionHypothesis => exact .char plain inductionHypothesis
  | reference closed named _ inductionHypothesis =>
      rw [List.cons_append, List.append_assoc]
      exact .reference closed named inductionHypothesis

/-- Without an ampersand a text spells itself. -/
theorem self (plain : '&' ∉ written) : Spells written written := by
  induction written with
  | nil => exact .nil
  | cons c rest inductionHypothesis =>
      rw [List.mem_cons, not_or] at plain
      exact .char (Ne.symm plain.1) (inductionHypothesis plain.2)

/-! ### Pieces -/

theorem cut_char {c : Char} (plain : c ≠ '&') (rest : List Char) (o : Nat) :
    Piece.cut o (c :: rest) = .char c :: Piece.cut (o + 1) rest := by
  rw [Piece.cut]
  exact plain

theorem cut_reference {name : List Char} {c : Char} (closed : ';' ∉ name)
    (named : Piece.targetOf? name = some (.char c)) (rest : List Char) (o : Nat) :
    Piece.cut o ('&' :: (name ++ ';' :: rest)) =
      .charReference c o :: Piece.cut (o + name.length + 2) rest := by
  have passed : ∀ d ∈ name, (d != ';') = true := by
    intro d listed
    rw [bne_iff_ne]
    exact fun same => closed (same ▸ listed)
  have body : (name ++ ';' :: rest).takeWhile (· != ';') = name :=
    Scan.takeWhile_append passed (Scan.ends_cons rfl rest)
  have behind : (name ++ ';' :: rest).dropWhile (· != ';') = ';' :: rest := by
    rw [List.dropWhile_append_of_pos passed, List.dropWhile_cons_of_neg (by decide)]
  have dropped : (name ++ ';' :: rest).drop (name.length + 1) = rest := by
    rw [← List.drop_drop, List.drop_left]
    rfl
  rw [Piece.cut, behind, body, named]
  dsimp only
  rw [dropped]

/-- The place of a text does not count for how it begins. -/
theorem head?_cut (o : Nat) (cs : List Char) :
    (Piece.cut o cs).head? = some (.char '\n') ↔ cs.head? = some '\n' := by
  cases cs with
  | nil => simp [Piece.cut]
  | cons c rest =>
      by_cases begins : c = '&'
      · rw [begins, Piece.cut]
        refine ⟨fun found => ?_, fun impossible => ?_⟩
        · split at found
          · cases found
          · split at found <;> cases found
        · cases impossible
      · rw [cut_char begins, List.head?_cons, List.head?_cons, Option.some.injEq, Option.some.injEq, Piece.char.injEq]

theorem isEmpty_cut (o : Nat) (cs : List Char) : (Piece.cut o cs).isEmpty = cs.isEmpty := by
  cases cs with
  | nil =>
      rw [Piece.cut]
      rfl
  | cons c rest =>
      by_cases begins : c = '&'
      · rw [begins, Piece.cut]
        split
        · rfl
        · split <;> rfl
      · rw [cut_char begins]
        rfl

/-! ### Attribute values -/

/-- What a text spells is read in an attribute wherever this stands, except for blanks.  A
blank other than a space is read as a space, if at all. -/
theorem exists_attributeChars_cut (spells : Spells written spelt) :
    ∃ value, (∀ (entities : Entities) (expand : (after : Nat) → Cursor → Nat → Except Fault (List Char × Nat))
        (o count : Nat), attributeChars entities false expand (Piece.cut o written) count = .ok (value, count)) ∧
      ((∀ c ∈ spelt, c ≠ '\t' ∧ c ≠ '\n' ∧ c ≠ '\r') → value = spelt) ∧
      ((∀ c ∈ value, Text.isXmlSpace c = false) → value = spelt) := by
  induction spells with
  | nil =>
      refine ⟨[], fun entities expand o count => ?_, fun _ => rfl, fun _ => rfl⟩
      rw [Piece.cut]
      rfl
  | @char c later spelt plain rest inductionHypothesis =>
      rcases inductionHypothesis with ⟨value, read, same, sameToo⟩
      have reads (whole : List Char)
          (wholeEq : (if c = '\r' ∧ later.head? = some '\n' then value else attributeBlank c :: value) = whole)
          (entities : Entities) (expand : (after : Nat) → Cursor → Nat → Except Fault (List Char × Nat))
          (o count : Nat) :
          attributeChars entities false expand (Piece.cut o (c :: later)) count = .ok (whole, count) := by
        rw [cut_char plain, attributeChars, read]
        change (if (c == '\r' && (Piece.cut (o + 1) later).head? == some (.char '\n')) = true then
          Except.ok (value, count) else Except.ok (attributeBlank c :: value, count)) = _
        rw [← wholeEq]
        simp only [Bool.and_eq_true, beq_iff_eq, head?_cut]
        split <;> rfl
      by_cases dropped : c = '\r' ∧ later.head? = some '\n'
      · refine ⟨value, reads value (if_pos dropped), ?_, ?_⟩
        · intro solid
          exact absurd dropped.1 (solid c List.mem_cons_self).2.2
        · intro solid
          have feed : '\n' ∈ spelt := by
            cases rest with
            | nil => cases dropped.2
            | char _ _ =>
                cases dropped.2
                exact List.mem_cons_self
            | reference _ _ _ => cases dropped.2
          rw [← sameToo solid] at feed
          cases solid '\n' feed
      · refine ⟨attributeBlank c :: value, reads _ (if_neg dropped), ?_, ?_⟩
        · intro solid
          rcases solid c List.mem_cons_self with ⟨noTab, noFeed, noReturn⟩
          have kept : (c == '\n' || c == '\r' || c == '\t') = false := by
            rw [beq_false_of_ne noFeed, beq_false_of_ne noReturn, beq_false_of_ne noTab]
            rfl
          rw [attributeBlank, kept, same fun d listed => solid d (List.mem_cons_of_mem c listed)]
          rfl
        · intro solid
          have here := solid _ List.mem_cons_self
          rw [sameToo fun d listed => solid d (List.mem_cons_of_mem _ listed)]
          rw [attributeBlank] at here ⊢
          split at here
          · cases here
          · next other => rw [if_neg other]
  | @reference name c _ spelt closed named _ inductionHypothesis =>
      rcases inductionHypothesis with ⟨value, read, same, sameToo⟩
      refine ⟨c :: value, fun entities expand o count => ?_, ?_, ?_⟩
      · rw [cut_reference closed named, attributeChars, read]
        rfl
      · intro solid
        rw [same fun d listed => solid d (List.mem_cons_of_mem c listed)]
      · intro solid
        rw [sameToo fun d listed => solid d (List.mem_cons_of_mem c listed)]

end Spells

/-- What a text without references to entities is read as in an attribute. -/
def attributeValue (written : List Char) : List Char :=
  match attributeChars [] false (fun after _ _ => .error ⟨.entityLoop, after⟩) (Piece.cut 0 written) 0 with
  | .ok (value, _) => value
  | .error _ => []

namespace Spells

variable {written spelt : List Char}

theorem attributeChars_cut (spells : Spells written spelt) (entities : Entities)
    (expand : (after : Nat) → Cursor → Nat → Except Fault (List Char × Nat)) (o count : Nat) :
    attributeChars entities false expand (Piece.cut o written) count = .ok (attributeValue written, count) := by
  rcases spells.exists_attributeChars_cut with ⟨value, read, -⟩
  rw [attributeValue, read, read]

/-- Without blanks other than spaces an attribute is read as it is spelt. -/
theorem attributeValue_eq (spells : Spells written spelt)
    (solid : ∀ c ∈ spelt, c ≠ '\t' ∧ c ≠ '\n' ∧ c ≠ '\r') : attributeValue written = spelt := by
  rcases spells.exists_attributeChars_cut with ⟨value, read, same, -⟩
  rw [attributeValue, read]
  exact same solid

/-- A value without blanks was spelt so. -/
theorem attributeValue_eq_iff (spells : Spells written spelt) {value : List Char}
    (solid : ∀ c ∈ value, Text.isXmlSpace c = false) : attributeValue written = value ↔ spelt = value := by
  rcases spells.exists_attributeChars_cut with ⟨found, read, same, sameToo⟩
  rw [attributeValue, read]
  constructor
  · rintro rfl
    exact (sameToo solid).symm
  · rintro rfl
    refine same fun c listed => ?_
    have here := solid c listed
    refine ⟨?_, ?_, ?_⟩ <;> rintro rfl <;> cases here

end Spells

/-! ## Steps of reading -/

namespace Build

variable {α β : Type} {b mid last : Builder} {c middle after : Cursor}

/-- Whether a step succeeds with a value, changes the builder and moves the cursor. -/
def Gives (x : Build α) (b : Builder) (c : Cursor) (a : α) (last : Builder) (after : Cursor) : Prop :=
  (x.run b).run c = .ok ((a, last), after)

/-- Whether two steps, each from a place of its own, come to the same. -/
def Same (x : Build α) (b : Builder) (c : Cursor) (y : Build α) (last : Builder) (after : Cursor) : Prop :=
  (x.run b).run c = (y.run last).run after

theorem gives_pure (a : α) (b : Builder) (c : Cursor) : Gives (pure a) b c a b c :=
  rfl

theorem Gives.bind {x : Build α} {next : α → Build β} {a : α} {result : β}
    (first : x.Gives b c a mid middle) (second : (next a).Gives mid middle result last after) :
    (x >>= next).Gives b c result last after := by
  rw [Gives] at first
  rw [Gives, StateT.run_bind, StateT.run_bind, first]
  exact second

/-- What is left of two steps when the first one is done. -/
theorem Gives.bind_same {x : Build α} {next : α → Build β} {a : α}
    (first : x.Gives b c a mid middle) : Same (x >>= next) b c (next a) mid middle := by
  rw [Gives] at first
  rw [Same, StateT.run_bind, StateT.run_bind, first]
  rfl

theorem Same.trans {x y z : Build α} (first : Same x b c y mid middle) (second : Same y mid middle z last after) :
    Same x b c z last after :=
  Eq.trans first second

theorem Same.gives {x y : Build α} {b' : Builder} {c' : Cursor} {a : α} (same : Same x b c y mid middle)
    (gives : y.Gives mid middle a b' c') : x.Gives b c a b' c' :=
  Eq.trans same gives

/-- A step that only reads leaves the builder. -/
theorem gives_lift {s : Scan α} {a : α} (gives : s.Gives c a after) (b : Builder) :
    Gives (liftM s) b c a b after := by
  rw [Scan.Gives] at gives
  change ((fun a => (a, b)) <$> s).run c = _
  rw [StateT.run_map, gives]
  rfl

theorem gives_get (b : Builder) (c : Cursor) : Gives get b c b b c :=
  rfl

theorem gives_modify (f : Builder → Builder) (b : Builder) (c : Cursor) : Gives (modify f) b c () (f b) c :=
  rfl

/-! ## Comments, instructions and sections -/

theorem gives_comment {text : List Char} (chars : ∀ d ∈ text, isXmlChar d = true)
    (absent : Text.hasPiece ['-', '-'] text = false) (noHyphen : text.getLast? ≠ some '-')
    (b : Builder) (rest : List Char) (o : Nat) :
    comment.Gives b ⟨"<!--".toList ++ (text ++ ("-->".toList ++ rest)), o⟩ ()
      (b.appendOther (.comment (String.ofList text)) o)
      (.behind rest o ("<!--".toList ++ (text ++ "-->".toList))) := by
  have noEnd : Text.hasPiece "-->".toList text = false := by
    rw [← Bool.not_eq_true, Text.hasPiece_iff]
    intro within
    have hyphens : ['-', '-'] <:+: text := (show ['-', '-'] <:+: "-->".toList by decide).trans within
    rw [← Text.hasPiece_iff, absent] at hyphens
    cases hyphens
  rw [comment]
  refine (gives_lift (Scan.gives_offset _) b).bind ?_
  refine (gives_lift (Scan.gives_skip (by decide) _ o) b).bind ?_
  refine (gives_lift (Scan.gives_takeBefore (by decide) (by decide) (by decide) chars noEnd _ _) b).bind ?_
  refine (gives_lift (Scan.gives_expectText _ _ _) b).bind ?_
  rw [if_neg]
  · rw [← Cursor.behind_append, ← Cursor.behind_append]
    exact gives_modify _ b _
  · rw [absent, Bool.false_or, beq_iff_eq]
    exact noHyphen

/-- What is written between the target and the end of an instruction. -/
def instructionGap (value : List Char) : List Char :=
  if value.isEmpty then [] else [' ']

theorem ends_instructionName (value rest : List Char) :
    Scan.Ends isNameChar (instructionGap value ++ (value ++ ("?>".toList ++ rest))) := by
  cases value <;> exact Scan.ends_cons (by decide) _

/-- An instruction is no XML declaration, whatever blank is looked for behind the target, if
it has another name or no value. -/
theorem not_declaration {name value : List Char} (run : ∀ d ∈ name, isNameChar d = true)
    (ordinary : name = "xml".toList → value = []) {blank : Char} (noName : isNameChar blank = false)
    (noEnd : blank ≠ '?') (rest : List Char) :
    ("<?xml".toList ++ [blank]).isPrefixOf
      ("<?".toList ++ (name ++ (instructionGap value ++ (value ++ ("?>".toList ++ rest))))) = false := by
  rw [← Bool.not_eq_true, List.isPrefixOf_iff_prefix]
  rintro ⟨behind, same⟩
  have target : "xml".toList ++ blank :: behind = name ++ (instructionGap value ++ (value ++ ("?>".toList ++ rest))) :=
    @List.append_cancel_left _ "<?".toList _ _ same
  have nameEq : name = "xml".toList := by
    rw [← Scan.takeWhile_append run (ends_instructionName value rest), ← target]
    exact Scan.takeWhile_append (List.all_iff_forall_prop.mp (by decide)) (Scan.ends_cons noName behind)
  rw [← nameEq, ordinary nameEq] at target
  exact noEnd (List.cons.inj (List.append_cancel_left target)).1

theorem gives_instruction {c : Char} {name value : List Char} (start : isNameStart c = true)
    (run : ∀ d ∈ c :: name, isNameChar d = true) (chars : ∀ d ∈ value, isXmlChar d = true)
    (absent : Text.hasPiece "?>".toList value = false) (solid : Scan.Ends Text.isXmlSpace value)
    (ordinary : c :: name = "xml".toList → value = []) (b : Builder) (rest : List Char) (o : Nat) :
    instruction.Gives b
      ⟨"<?".toList ++ (c :: name ++ (instructionGap value ++ (value ++ ("?>".toList ++ rest)))), o⟩ ()
      (b.appendOther (.instruction (String.ofList (c :: name)) (String.ofList value)) o)
      (.behind rest o ("<?".toList ++ (c :: name ++ (instructionGap value ++ (value ++ "?>".toList))))) := by
  have blank : ∀ d ∈ instructionGap value, Text.isXmlSpace d = true := by
    intro d listed
    rw [instructionGap] at listed
    split at listed
    · cases listed
    · rw [List.mem_singleton.mp listed]
      decide
  have gapEnds : Scan.Ends Text.isXmlSpace (value ++ ("?>".toList ++ rest)) := by
    cases value with
    | nil => exact Scan.ends_cons (by decide) _
    | cons v value => exact Scan.ends_cons (solid v rfl) _
  rw [instruction]
  refine (gives_lift (Scan.gives_looksAt _ _) b).bind ?_
  have noDeclaration := @not_declaration _ _ run ordinary ' ' (by decide) (by decide) rest
  dsimp only
  rw [show "<?xml ".toList = "<?xml".toList ++ [' '] from rfl, noDeclaration, if_neg Bool.false_ne_true]
  refine (gives_lift (Scan.gives_offset _) b).bind ?_
  refine (gives_lift (Scan.gives_skip (by decide) _ o) b).bind ?_
  refine (gives_lift (Scan.gives_name start run (ends_instructionName value rest) _) b).bind ?_
  refine (gives_lift (Scan.gives_skipSpaces blank gapEnds _) b).bind ?_
  refine (gives_lift (Scan.gives_takeBefore (by decide) (by decide) (by decide) chars absent _ _) b).bind ?_
  refine (gives_lift (Scan.gives_expectText _ _ _) b).bind ?_
  rw [← Cursor.behind_append, ← Cursor.behind_append, ← Cursor.behind_append, ← Cursor.behind_append]
  exact gives_modify _ b _

end Build

/-- A comment or an instruction. -/
inductive Remark where
  | comment (text : List Char)
  | instruction (name value : List Char)

namespace Remark

def text : Remark → List Char
  | comment text => "<!--".toList ++ (text ++ "-->".toList)
  | instruction name value => "<?".toList ++ (name ++ (Build.instructionGap value ++ (value ++ "?>".toList)))

def node : Remark → Node
  | comment text => .comment (String.ofList text)
  | instruction name value => .instruction (String.ofList name) (String.ofList value)

/-- Whether the remark is read as it is written.  An instruction with the name of the XML
declaration may have no value, or it would be one. -/
def isReadable : Remark → Bool
  | comment text => text.all isXmlChar && !Text.hasPiece ['-', '-'] text && text.getLast? != some '-'
  | instruction name value =>
    name.head?.any isNameStart && name.all isNameChar
      && value.all isXmlChar && !Text.hasPiece "?>".toList value && !value.head?.any Text.isXmlSpace
      && (name != "xml".toList || value.isEmpty)

/-- What makes an instruction readable. -/
theorem isReadable_instruction {name value : List Char} :
    (instruction name value).isReadable = true ↔
      name.head?.any isNameStart = true ∧ (∀ d ∈ name, isNameChar d = true) ∧ (∀ d ∈ value, isXmlChar d = true) ∧
        Text.hasPiece "?>".toList value = false ∧ value.head?.any Text.isXmlSpace = false ∧
          (name = "xml".toList → value = []) := by
  simp only [isReadable, Bool.and_eq_true, List.all_eq_true, Bool.not_eq_true', Bool.or_eq_true, bne_iff_ne, ne_eq,
    List.isEmpty_iff, and_assoc, Decidable.imp_iff_not_or]

/-- A remark is no XML declaration. -/
theorem not_declaration {r : Remark} (readable : r.isReadable = true) {blank : Char}
    (noName : isNameChar blank = false) (noEnd : blank ≠ '?') (rest : List Char) :
    ("<?xml".toList ++ [blank]).isPrefixOf (r.text ++ rest) = false := by
  cases r with
  | comment text => rfl
  | instruction name value =>
      rcases isReadable_instruction.mp readable with ⟨-, run, -, -, -, ordinary⟩
      simp only [text, List.append_assoc]
      exact Build.not_declaration run ordinary noName noEnd rest

theorem length_text_pos (r : Remark) : 0 < r.text.length := by
  cases r <;> exact Nat.succ_pos _

/-- The step that reads the remark. -/
def step : Remark → Build Unit
  | comment _ => Build.comment
  | instruction _ _ => Build.instruction

end Remark

namespace Build

theorem gives_remark {r : Remark} (readable : r.isReadable = true) (b : Builder) (rest : List Char) (o : Nat) :
    r.step.Gives b ⟨r.text ++ rest, o⟩ () (b.appendOther r.node o) (.behind rest o r.text) := by
  cases r with
  | comment text =>
      simp only [Remark.isReadable, Bool.and_eq_true, List.all_eq_true, Bool.not_eq_true', bne_iff_ne, ne_eq]
        at readable
      rcases readable with ⟨⟨chars, absent⟩, noHyphen⟩
      rw [Remark.text, List.append_assoc, List.append_assoc]
      exact gives_comment chars absent noHyphen b rest o
  | instruction name value =>
      rcases Remark.isReadable_instruction.mp readable with ⟨start, run, chars, absent, solid, ordinary⟩
      cases name with
      | nil => cases start
      | cons c name =>
          have solidValue : Scan.Ends Text.isXmlSpace value := by
            cases value with
            | nil => exact Scan.ends_nil _
            | cons v value => exact Scan.ends_cons solid value
          simp only [Remark.text, List.append_assoc]
          exact gives_instruction start run chars absent solidValue ordinary b rest o

theorem gives_characterSection {text : List Char} (chars : ∀ d ∈ text, isXmlChar d = true)
    (absent : Text.hasPiece "]]>".toList text = false) (b : Builder) (rest : List Char) (o : Nat) :
    characterSection.Gives b ⟨"<![CDATA[".toList ++ (text ++ ("]]>".toList ++ rest)), o⟩ ()
      (b.appendText (normalizeLineEnds text) o)
      (.behind rest o ("<![CDATA[".toList ++ (text ++ "]]>".toList))) := by
  rw [characterSection]
  refine (gives_lift (Scan.gives_offset _) b).bind ?_
  refine (gives_lift (Scan.gives_skip (by decide) _ o) b).bind ?_
  refine (gives_lift (Scan.gives_takeBefore (by decide) (by decide) (by decide) chars absent _ _) b).bind ?_
  refine (gives_lift (Scan.gives_expectText _ _ _) b).bind ?_
  rw [← Cursor.behind_append, ← Cursor.behind_append]
  exact gives_modify _ b _

/-! ## Text -/

theorem pushNormalized_ne_nil (isLast : Bool) (c : Char) (buffer : List Char) :
    pushNormalized isLast c buffer ≠ [] := by
  unfold pushNormalized
  split
  · split
    · exact List.cons_ne_nil _ _
    · split <;> exact List.cons_ne_nil _ _
  · exact List.cons_ne_nil _ _

/-- Without carriage returns there is nothing to normalize. -/
theorem pushNormalized_of_ne {c : Char} {buffer : List Char} (noReturn : c ≠ '\r')
    (noReturnBefore : buffer.head? ≠ some '\r') (isLast : Bool) :
    pushNormalized isLast c buffer = c :: buffer := by
  unfold pushNormalized
  split
  · exact absurd rfl noReturnBefore
  · rw [beq_false_of_ne noReturn, Bool.and_false]
    rfl

/-- Only line feeds come in where line ends are normalized. -/
theorem of_mem_pushNormalized {isLast : Bool} {c d : Char} {buffer : List Char}
    (listed : d ∈ pushNormalized isLast c buffer) : d = c ∨ d ∈ buffer ∨ d = '\n' := by
  unfold pushNormalized at listed
  grind

/-- What a text spells is collected behind what was collected before, wherever the text
stands; only line ends may come out differently. -/
theorem exists_characterData_cut {written spelt : List Char} (spells : Spells written spelt) (verbatim : Bool)
    (buffer : List Char) :
    ∃ whole, (∀ (expand : (after : Nat) → Cursor → Build Unit) (start o : Nat),
        characterData false expand start (Piece.cut o written) verbatim buffer = characterData.flush start whole) ∧
      (buffer ≠ [] ∨ written ≠ [] → whole ≠ []) ∧
      ('\r' ∉ spelt → buffer.head? ≠ some '\r' → whole = spelt.reverse ++ buffer) ∧
      ∀ d ∈ whole, d ∈ spelt ∨ d ∈ buffer ∨ d = '\n' := by
  induction spells generalizing verbatim buffer with
  | nil =>
      refine ⟨buffer, fun expand start o => ?_, fun either => either.resolve_right (absurd rfl), fun _ _ => rfl,
        fun d listed => Or.inr (Or.inl listed)⟩
      rw [Piece.cut]
      rfl
  | @char c later spelt plain _ inductionHypothesis =>
      let next := if verbatim then c :: buffer else pushNormalized later.isEmpty c buffer
      have nextNonempty : next ≠ [] := by
        cases verbatim with
        | true => exact List.cons_ne_nil c buffer
        | false => exact pushNormalized_ne_nil _ c buffer
      have ofNext : ∀ d ∈ next, d = c ∨ d ∈ buffer ∨ d = '\n' := by
        intro d listed
        cases verbatim with
        | true => exact (List.mem_cons.mp listed).imp_right Or.inl
        | false => exact of_mem_pushNormalized listed
      rcases inductionHypothesis false next with ⟨whole, same, nonempty, plainly, chars⟩
      refine ⟨whole, fun expand start o => ?_, fun _ => nonempty (Or.inl nextNonempty), ?_, ?_⟩
      · rw [Spells.cut_char plain, characterData, Spells.isEmpty_cut]
        exact same expand start (o + 1)
      · intro noReturn noReturnBefore
        rw [List.mem_cons, not_or] at noReturn
        have kept : next = c :: buffer := by
          cases verbatim with
          | true => rfl
          | false => exact pushNormalized_of_ne (Ne.symm noReturn.1) noReturnBefore _
        have front : next.head? ≠ some '\r' := by
          rw [kept]
          exact fun same => noReturn.1 (Option.some.inj same).symm
        rw [plainly noReturn.2 front, kept, List.reverse_cons, List.append_assoc]
        rfl
      · intro d listed
        rcases chars d listed with behind | pushed | feed
        · exact Or.inl (List.mem_cons_of_mem c behind)
        · exact (ofNext d pushed).imp_left fun same => List.mem_cons.mpr (Or.inl same)
        · exact Or.inr (Or.inr feed)
  | @reference name c later spelt closed named _ inductionHypothesis =>
      rcases inductionHypothesis true (c :: buffer) with ⟨whole, same, nonempty, plain, chars⟩
      refine ⟨whole, fun expand start o => ?_, fun _ => nonempty (Or.inl (List.cons_ne_nil c buffer)), ?_, ?_⟩
      · rw [Spells.cut_reference closed named, characterData, if_neg Bool.false_ne_true]
        exact same expand start (o + name.length + 2)
      · intro noReturn _
        rw [List.mem_cons, not_or] at noReturn
        rw [plain noReturn.2 fun front => noReturn.1 (Option.some.inj front).symm, List.reverse_cons,
          List.append_assoc]
        rfl
      · intro d listed
        rcases chars d listed with behind | pushed | feed
        · exact Or.inl (List.mem_cons_of_mem c behind)
        · exact (List.mem_cons.mp pushed).elim (fun same => Or.inl (List.mem_cons.mpr (Or.inl same)))
            fun before => Or.inr (Or.inl before)
        · exact Or.inr (Or.inr feed)

/-- A text before a tag is read in one way wherever it stands. -/
theorem exists_gives_text {written spelt : List Char} (spells : Spells written spelt) (nonempty : written ≠ [])
    (chars : ∀ d ∈ written, isXmlChar d = true ∧ d ≠ '<')
    (noEnd : Text.hasPiece [']', ']', '>'] written = false) :
    ∃ whole, (∀ (expand : (after : Nat) → Cursor → Build Unit) (b : Builder) (rest : List Char) (o : Nat),
        (text false expand).Gives b ⟨written ++ '<' :: rest, o⟩ () (b.appendText whole o)
          (.behind ('<' :: rest) o written)) ∧
      ('\r' ∉ spelt → whole = spelt) ∧ ∀ d ∈ whole, d ∈ spelt ∨ d = '\n' := by
  rcases exists_characterData_cut spells false [] with ⟨whole, same, wholeNonempty, plain, wholeChars⟩
  refine ⟨whole.reverse, fun expand b rest o => ?_, ?_, ?_⟩
  · have noTag : Text.hasPiece "<".toList written = false := by
      rw [← Bool.not_eq_true, Text.hasPiece_iff]
      intro within
      exact (chars '<' (within.subset List.mem_cons_self)).2 rfl
    rw [text]
    refine (gives_lift (Scan.gives_offset _) b).bind ?_
    refine (gives_lift (@Scan.gives_takeBefore "<" (by decide) (by decide) (by decide) written
      (fun d listed => (chars d listed).1) noTag rest o) b).bind ?_
    dsimp only
    rw [noEnd, if_neg Bool.false_ne_true, same, characterData.flush, if_neg]
    · exact gives_modify _ b _
    · rw [List.isEmpty_iff]
      exact wholeNonempty (Or.inr nonempty)
  · intro noReturn
    rw [plain noReturn nofun, List.append_nil, List.reverse_reverse]
  · intro d listed
    exact (wholeChars d (List.mem_reverse.mp listed)).imp_right fun other => other.resolve_left List.not_mem_nil

end Build

end Xml
end SlimSvg
