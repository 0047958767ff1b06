import SlimSvg.Proofs.Text.Trim
import SlimSvg.Proofs.Xml.Prolog
import SlimSvg.Tree.Prologue

namespace SlimSvg

/-!
# Declarations that are found again

The two declarations before the root element are looked for in the text.  The XML
declaration is found as it was written if its end stands nowhere in it.  The document type
is found if nothing before it begins like one, and if the sign at its end is the first one
outside of brackets and quotation marks.
-/

namespace Text

/-- A text is cut where a piece was put behind a text without it. -/
theorem cut?_append {piece : List Char} (nonempty : piece ≠ []) (unbordered : Xml.Scan.Unbordered piece)
    {cs : List Char} (absent : hasPiece piece cs = false) (after : List Char) :
    cut? piece (cs ++ (piece ++ after)) = some (cs, after) := by
  rw [← Bool.not_eq_true, hasPiece_iff] at absent
  induction cs with
  | nil =>
      rcases List.exists_cons_of_ne_nil nonempty with ⟨p, rest, rfl⟩
      have front := isPrefixOf?_append (p :: rest) after
      rw [List.cons_append] at front
      rw [List.nil_append, List.cons_append, cut?, front]
  | cons c rest inductionHypothesis =>
      have notHere : ¬ piece <+: c :: rest ++ (piece ++ after) :=
        Xml.Scan.not_prefix_of_unbordered unbordered absent List.suffix_rfl (List.cons_ne_nil c rest)
      have later := inductionHypothesis fun within => absent (within.trans (List.suffix_cons c rest).isInfix)
      rw [List.cons_append] at notHere ⊢
      rw [cut?]
      cases starts : piece.isPrefixOf? (c :: (rest ++ (piece ++ after))) with
      | some behind => exact absurd ⟨behind, (eq_append_of_isPrefixOf? starts).symm⟩ notHere
      | none =>
          dsimp only
          rw [later]
          rfl

theorem trimChars_space (cs : List Char) : trimChars (' ' :: cs) = trimChars cs := by
  rw [trimChars, List.dropWhile_cons_of_pos (by decide), ← trimChars]

end Text

namespace Xml.XmlDeclaration

/-- A declaration ends with a quotation mark. -/
theorem exists_last {d : XmlDeclaration} (readable : d.isReadable = true) :
    ∃ (front : List Char) (q : Quoted), q.isReadable = true ∧ d.text = front ++ q.text := by
  rcases d with ⟨version, encoding, standalone⟩
  rw [isReadable, Bool.and_eq_true, Bool.and_eq_true] at readable
  rcases readable with ⟨⟨versionReadable, encodingReadable⟩, standaloneReadable⟩
  unfold text
  generalize "version".toList = word
  cases standalone with
  | some s =>
      refine ⟨word ++ '=' :: version.text ++ (declarationPart "encoding" encoding ++ (s.gap ++
        ("standalone".toList ++ ['=']))), s.part,
        (Quoted.isValue_iff.mp (Spaced.isReadable_iff.mp standaloneReadable).2.2).1, ?_⟩
      change _ ++ (_ ++ (s.gap ++ ("standalone".toList ++ ('=' :: s.part.text)))) = _
      generalize "standalone".toList = lastWord
      simp only [List.append_assoc, List.cons_append, List.nil_append]
  | none =>
      cases encoding with
      | some e =>
          refine ⟨word ++ '=' :: version.text ++ (e.gap ++ ("encoding".toList ++ ['='])), e.part,
            (Quoted.isValue_iff.mp (Spaced.isReadable_iff.mp encodingReadable).2.2).1, ?_⟩
          change _ ++ ((e.gap ++ ("encoding".toList ++ ('=' :: e.part.text))) ++ []) = _
          generalize "encoding".toList = lastWord
          simp only [List.append_assoc, List.cons_append, List.nil_append, List.append_nil]
      | none =>
          refine ⟨word ++ ['='], version, (Quoted.isValue_iff.mp versionReadable).1, ?_⟩
          simp only [declarationPart, List.append_assoc, List.cons_append, List.nil_append, List.append_nil]

theorem tight_text {d : XmlDeclaration} (readable : d.isReadable = true) : Text.Tight d.text := by
  constructor
  · intro c first
    cases Option.some.inj (show some 'v' = some c from first)
    decide
  · rcases exists_last readable with ⟨front, q, quoted, same⟩
    have ends : d.text = front ++ (q.quote :: q.value) ++ [q.quote] := by
      rw [same, Quoted.text, List.append_assoc]
      rfl
    rw [ends, List.getLast?_concat]
    rintro _ ⟨⟩
    rcases (Quoted.isReadable_iff.mp quoted).1 with quote | quote <;> rw [quote] <;> decide

end Xml.XmlDeclaration

namespace Prologue

/-- The XML declaration is found as it was written. -/
theorem declaration?_text {d : Xml.XmlDeclaration} (readable : d.isReadable = true)
    (free : Text.hasPiece "?>".toList d.text = false) (rest : List Char) :
    declaration? ("<?xml ".toList ++ (d.text ++ ("?>".toList ++ rest))) =
      some (.instruction "xml" (String.ofList d.text)) := by
  have freeSpaced : Text.hasPiece "?>".toList (' ' :: d.text) = false := by
    rw [← Bool.not_eq_true, Text.hasPiece_iff] at free ⊢
    have apart : ∀ c ∈ [' '], c ∉ "?>".toList := List.all_iff_forall_prop.mp (by decide)
    exact fun within => free ((Text.infix_append_left_iff (by decide) apart d.text).mp within)
  have cut := Text.cut?_append (by decide) (by decide) freeSpaced rest
  rw [List.cons_append] at cut
  change ((Text.cut? "?>".toList (' ' :: (d.text ++ ("?>".toList ++ rest)))).bind fun found =>
    some (NodeContent.instruction "xml" (String.ofList (Text.trimChars found.1)))) = _
  rw [cut]
  change some (NodeContent.instruction "xml" (String.ofList (Text.trimChars (' ' :: d.text)))) = _
  rw [Text.trimChars_space, Text.trimChars_eq_self (Xml.XmlDeclaration.tight_text readable)]

/-- No XML declaration is found where no blank follows its target. -/
theorem declaration?_eq_none {text : List Char} (noMark : text.head? ≠ some '\uFEFF')
    (noDeclaration : ∀ blank, Xml.isNameChar blank = false → blank ≠ '?' →
      ("<?xml".toList ++ [blank]).isPrefixOf text = false) : declaration? text = none := by
  have whole : dropByteOrderMark text = text := by
    rw [dropByteOrderMark]
    rintro rest rfl
    exact noMark rfl
  rw [declaration?, whole]
  cases starts : "<?xml".toList.isPrefixOf? text with
  | none => rfl
  | some behind =>
      cases behind with
      | nil => rfl
      | cons next rest =>
          have absent : Text.isCssSpace next = false := by
            rw [← Bool.not_eq_true]
            intro blank
            have noName : Xml.isNameChar next = false ∧ next ≠ '?' := by
              simp only [Text.isCssSpace, Text.isXmlSpace, Bool.or_eq_true, beq_iff_eq] at blank
              rcases blank with (((rfl | rfl) | rfl) | rfl) | rfl <;> decide
            have found := noDeclaration next noName.1 noName.2
            rw [Text.eq_append_of_isPrefixOf? starts, List.append_cons, ← Bool.not_eq_true,
              List.isPrefixOf_iff_prefix] at found
            exact found (List.prefix_append _ rest)
          change (if Text.isCssSpace next = true then _ else none) = none
          rw [absent, if_neg Bool.false_ne_true]

/-- What stands behind the end of a document type does not count. -/
theorem untilEnd?_append {depth : Int} {quote : Option Char} {cs body : List Char}
    (found : untilEnd? depth quote cs = some body) (more : List Char) :
    untilEnd? depth quote (cs ++ more) = some body := by
  induction cs generalizing depth quote body with
  | nil => cases quote <;> cases found
  | cons c rest inductionHypothesis =>
      cases quote with
      | some q =>
          rw [untilEnd?, Option.map_eq_some_iff] at found
          rcases found with ⟨inner, found, rfl⟩
          rw [List.cons_append, untilEnd?, inductionHypothesis found]
          rfl
      | none =>
          rw [untilEnd?] at found
          rw [List.cons_append, untilEnd?]
          dsimp only
          split at found
          · next ends =>
            rw [if_pos ends]
            exact found
          · next inside =>
            rw [Option.map_eq_some_iff] at found
            rcases found with ⟨inner, found, rfl⟩
            rw [if_neg inside, inductionHypothesis found]
            rfl

/-! ### The end of a document type declaration -/

/-- Whether the sign behind a text is the first one that can end a declaration there: the
brackets in the text are balanced, its quotation marks come in pairs, and signs that could
end it stand within brackets or quotation marks. -/
inductive Closed : (depth : Int) → List Char → Prop
  | nil : Closed 0 []
  | opening {depth : Int} {cs : List Char} (rest : Closed (depth + 1) cs) : Closed depth ('[' :: cs)
  | closing {depth : Int} {cs : List Char} (rest : Closed (depth - 1) cs) : Closed depth (']' :: cs)
  | quoted {depth : Int} {q : Char} {run cs : List Char} (mark : q = '\'' ∨ q = '"') (inside : q ∉ run)
    (rest : Closed depth cs) : Closed depth (q :: (run ++ q :: cs))
  | plain {depth : Int} {c : Char} {cs : List Char} (ordinary : c ∉ ['[', ']', '\'', '"'])
    (within : c = '>' → depth ≠ 0) (rest : Closed depth cs) : Closed depth (c :: cs)

/-- Whether the same holds of a text in which a quotation mark may be open. -/
def ClosedBehind (depth : Int) : (quote : Option Char) → List Char → Prop
  | none, cs => Closed depth cs
  | some q, cs => ∃ run rest, cs = run ++ q :: rest ∧ q ∉ run ∧ Closed depth rest

theorem closedBehind_cons {depth : Int} {q c : Char} {cs : List Char} :
    ClosedBehind depth (some q) (c :: cs) ↔ ClosedBehind depth (if c == q then none else some q) cs := by
  by_cases same : c = q
  · rw [same, beq_self_eq_true, if_pos rfl]
    constructor
    · rintro ⟨run, rest, whole, inside, closed⟩
      cases run with
      | nil => exact (List.cons.inj whole).2 ▸ closed
      | cons d run =>
          rw [(List.cons.inj whole).1] at inside
          exact absurd List.mem_cons_self inside
    · exact fun closed => ⟨[], cs, rfl, List.not_mem_nil, closed⟩
  · rw [beq_false_of_ne same, if_neg Bool.false_ne_true]
    constructor
    · rintro ⟨run, rest, whole, inside, closed⟩
      cases run with
      | nil => exact absurd (List.cons.inj whole).1 same
      | cons d run =>
          exact ⟨run, rest, (List.cons.inj whole).2, fun among => inside (List.mem_cons_of_mem d among), closed⟩
    · rintro ⟨run, rest, rfl, inside, closed⟩
      refine ⟨c :: run, rest, rfl, ?_, closed⟩
      rw [List.mem_cons, not_or]
      exact ⟨Ne.symm same, inside⟩

/-- One character more outside of quotation marks. -/
theorem closed_cons {depth : Int} {c : Char} {cs : List Char} (goesOn : ¬ (c = '>' ∧ depth = 0)) :
    Closed depth (c :: cs) ↔
      ClosedBehind (if c == '[' then depth + 1 else if c == ']' then depth - 1 else depth)
        (if c == '"' || c == '\'' then some c else none) cs := by
  constructor
  · intro closed
    generalize whole : c :: cs = text at closed
    cases closed with
    | nil => cases whole
    | opening rest =>
        cases whole
        exact rest
    | closing rest =>
        cases whole
        exact rest
    | @quoted depth q run rest mark inside closed =>
        cases whole
        rcases mark with rfl | rfl <;> exact ⟨run, rest, rfl, inside, closed⟩
    | plain ordinary _ rest =>
        cases whole
        simp only [List.mem_cons, List.not_mem_nil, or_false, not_or] at ordinary
        rw [beq_false_of_ne ordinary.1, beq_false_of_ne ordinary.2.1, beq_false_of_ne ordinary.2.2.1,
          beq_false_of_ne ordinary.2.2.2]
        exact rest
  · intro closed
    by_cases opens : c = '['
    · rw [opens] at closed ⊢
      exact .opening closed
    by_cases closes : c = ']'
    · rw [closes] at closed ⊢
      exact .closing closed
    rw [beq_false_of_ne opens, beq_false_of_ne closes, if_neg Bool.false_ne_true, if_neg Bool.false_ne_true] at closed
    by_cases quotes : c = '\'' ∨ c = '"'
    · have quoted : (c == '"' || c == '\'') = true := by
        rw [Bool.or_eq_true, beq_iff_eq, beq_iff_eq]
        exact quotes.symm
      rw [if_pos quoted] at closed
      rcases closed with ⟨run, rest, rfl, inside, closed⟩
      exact .quoted quotes inside closed
    · have ordinary : (c == '"' || c == '\'') = false := by
        rw [Bool.or_eq_false_iff, beq_eq_false_iff_ne, beq_eq_false_iff_ne]
        exact ⟨fun same => quotes (Or.inr same), fun same => quotes (Or.inl same)⟩
      rw [ordinary, if_neg Bool.false_ne_true] at closed
      refine .plain ?_ (fun ends outside => goesOn ⟨ends, outside⟩) closed
      simp only [List.mem_cons, List.not_mem_nil, or_false, not_or]
      rw [not_or] at quotes
      exact ⟨opens, closes, quotes⟩

/-- The search stops at the sign behind a text exactly if the text is closed. -/
theorem untilEnd?_eq_some_iff {depth : Int} {quote : Option Char} {body rest : List Char} :
    untilEnd? depth quote (body ++ '>' :: rest) = some body ↔ ClosedBehind depth quote body := by
  induction body generalizing depth quote with
  | nil =>
      cases quote with
      | some q =>
          rw [List.nil_append, untilEnd?, Option.map_eq_some_iff]
          constructor
          · rintro ⟨_, -, impossible⟩
            cases impossible
          · rintro ⟨run, behind, impossible, -⟩
            cases run <;> cases impossible
      | none =>
          rw [List.nil_append, untilEnd?]
          by_cases outside : depth = 0
          · rw [outside]
            exact ⟨fun _ => .nil, fun _ => rfl⟩
          · have within : ('>' == '>' && depth == 0) = false := by
              rw [beq_false_of_ne outside, Bool.and_false]
            rw [within, if_neg Bool.false_ne_true]
            constructor
            · intro found
              rcases Option.map_eq_some_iff.mp found with ⟨_, -, impossible⟩
              cases impossible
            · intro closed
              cases closed
              exact absurd rfl outside
  | cons c body inductionHypothesis =>
      have onward {found : Option (List Char)} : found.map (c :: ·) = some (c :: body) ↔ found = some body := by
        rw [Option.map_eq_some_iff]
        constructor
        · rintro ⟨inner, found, same⟩
          rw [found, (List.cons.inj same).2]
        · exact fun found => ⟨body, found, rfl⟩
      cases quote with
      | some q => rw [List.cons_append, untilEnd?, onward, inductionHypothesis, closedBehind_cons]
      | none =>
          rw [List.cons_append, untilEnd?]
          by_cases ends : c = '>' ∧ depth = 0
          · rcases ends with ⟨rfl, rfl⟩
            constructor
            · intro found
              cases found
            · intro closed
              generalize whole : '>' :: body = text at closed
              cases closed with
              | nil => cases whole
              | opening _ => cases whole
              | closing _ => cases whole
              | quoted mark =>
                  cases whole
                  rcases mark with impossible | impossible <;> cases impossible
              | plain _ within =>
                  cases whole
                  exact absurd rfl (within rfl)
          · have goesOn : (c == '>' && depth == 0) = false := by
              rw [← Bool.not_eq_true, Bool.and_eq_true, beq_iff_eq, beq_iff_eq]
              exact ends
            dsimp only
            rw [goesOn, if_neg Bool.false_ne_true, onward, inductionHypothesis]
            exact (closed_cons ends).symm

/-- What is found ends where a sign stands that can end it. -/
theorem exists_append_of_untilEnd? {depth : Int} {quote : Option Char} {cs body : List Char}
    (found : untilEnd? depth quote cs = some body) : ∃ rest, cs = body ++ '>' :: rest := by
  induction cs generalizing depth quote body with
  | nil => cases quote <;> cases found
  | cons c rest inductionHypothesis =>
      cases quote with
      | some q =>
          rw [untilEnd?, Option.map_eq_some_iff] at found
          rcases found with ⟨inner, found, rfl⟩
          rcases inductionHypothesis found with ⟨behind, same⟩
          exact ⟨behind, congrArg (c :: ·) same⟩
      | none =>
          rw [untilEnd?] at found
          split at found
          · next ends =>
            rw [Bool.and_eq_true, beq_iff_eq] at ends
            cases found
            exact ⟨rest, by rw [ends.1]; rfl⟩
          · rcases Option.map_eq_some_iff.mp found with ⟨inner, later, rfl⟩
            rcases inductionHypothesis later with ⟨behind, same⟩
            exact ⟨behind, congrArg (c :: ·) same⟩

/-- Trimming leaves off no sign that can end a declaration. -/
theorem count_trimChars (cs : List Char) : (Text.trimChars cs).count '>' = cs.count '>' := by
  rcases Text.exists_append_trimChars cs with ⟨front, back, whole, frontBlank, backBlank, -⟩
  have none {blanks : List Char} (blank : ∀ c ∈ blanks, Text.isWhiteSpace c = true) : blanks.count '>' = 0 := by
    rw [List.count_eq_zero]
    intro listed
    have impossible := blank '>' listed
    cases impossible
  have counted := congrArg (List.count '>') whole
  rw [List.count_append, List.count_append, none frontBlank, none backBlank, Nat.zero_add, Nat.add_zero] at counted
  exact counted.symm

/-- Of two texts that end before signs in one text, each is known when it is trimmed. -/
theorem eq_of_trimChars_eq {first second rest others : List Char} (same : first ++ '>' :: rest = second ++ '>' :: others)
    (trimmed : Text.trimChars first = Text.trimChars second) : first = second := by
  have counted := congrArg (List.count '>') trimmed
  rw [count_trimChars, count_trimChars] at counted
  have more {short long between behind : List Char} (longer : long = short ++ between)
      (starts : '>' :: rest = between ++ behind ∨ '>' :: others = between ++ behind)
      (counted : long.count '>' = short.count '>') : short = long := by
    cases between with
    | nil => rw [longer, List.append_nil]
    | cons c between =>
        have sign : c = '>' := by
          rcases starts with starts | starts <;> exact (List.cons.inj starts).1.symm
        rw [longer, sign, List.count_append, List.count_cons_self] at counted
        omega
  rcases List.append_eq_append_iff.mp same with ⟨between, longer, starts⟩ | ⟨between, longer, starts⟩
  · exact more longer (Or.inl starts) counted.symm
  · exact (more longer (Or.inr starts) counted).symm

/-- The document type is found at its place as it was written. -/
theorem doctype?_text {opening d : List Char} (absent : Text.hasPiece "<!DOCTYPE".toList opening = false)
    (ends : untilEnd? 0 none (d ++ ['>']) = some d) (tight : Text.trimChars d = d) (rest : List Char) :
    doctype? (opening ++ ("<!DOCTYPE ".toList ++ (d ++ '>' :: rest))) =
      some (opening.length, .doctype (String.ofList d)) := by
  have cut := Text.cut?_append (by decide) (by decide) absent (' ' :: (d ++ '>' :: rest))
  have body := untilEnd?_append ends rest
  rw [List.append_assoc] at body
  rw [doctype?]
  change (Text.cut? "<!DOCTYPE".toList (opening ++ ("<!DOCTYPE".toList ++ ' ' :: (d ++ '>' :: rest)))).bind _ = _
  rw [cut]
  change ((untilEnd? 0 none (d ++ (['>'] ++ rest))).map (' ' :: ·)).bind _ = _
  rw [body]
  change some (opening.length, NodeContent.doctype (String.ofList (Text.trimChars (' ' :: d)))) = _
  rw [Text.trimChars_space, tight]

theorem doctype?_eq_none {text : List Char} (absent : Text.hasPiece "<!DOCTYPE".toList text = false) :
    doctype? text = none := by
  rw [Text.hasPiece, Option.isSome_eq_false_iff, Option.isNone_iff_eq_none] at absent
  rw [doctype?, absent]
  rfl

end Prologue
end SlimSvg
