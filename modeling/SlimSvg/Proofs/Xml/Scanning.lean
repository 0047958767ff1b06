import Mathlib.Data.Bool.AllAny
import SlimSvg.Proofs.Text.Search
import SlimSvg.Xml.Doctype

namespace SlimSvg
namespace Xml

/-!
# Passing known characters

What a step of reading does on a text of which the front is known: it passes the front,
yields a value and leaves the rest.  A step that passes a run of characters needs to
know of the rest that the run does not go on there.
-/

/-- A cursor behind some more characters. -/
def Cursor.behind (rest : List Char) (offset : Nat) (passed : List Char) : Cursor :=
  ⟨rest, offset + passed.length⟩

theorem Cursor.behind_append (rest : List Char) (offset : Nat) (first second : List Char) :
    behind rest (offset + first.length) second = behind rest offset (first ++ second) := by
  rw [behind, behind, List.length_append, Nat.add_assoc]

namespace Scan

variable {α β : Type}

/-- Whether a step succeeds with a value and moves the cursor. -/
def Gives (s : Scan α) (c : Cursor) (a : α) (after : Cursor) : Prop :=
  s.run c = .ok (a, after)

theorem gives_pure (a : α) (c : Cursor) : Gives (pure a) c a c :=
  rfl

theorem Gives.bind {s : Scan α} {next : α → Scan β} {c middle after : Cursor} {a : α} {b : β}
    (first : s.Gives c a middle) (second : (next a).Gives middle b after) :
    (s >>= next).Gives c b after := by
  rw [Gives] at first
  rw [Gives, StateT.run_bind, first]
  exact second

/-! ## Looking and moving -/

theorem gives_rest (c : Cursor) : rest.Gives c c.rest c :=
  rfl

theorem gives_offset (c : Cursor) : offset.Gives c c.offset c :=
  rfl

theorem gives_atEnd (c : Cursor) : atEnd.Gives c c.rest.isEmpty c :=
  rfl

theorem gives_looksAt (text : String) (c : Cursor) :
    (looksAt text).Gives c (text.toList.isPrefixOf c.rest) c :=
  rfl

theorem gives_looksAtSpace (c : Cursor) :
    looksAtSpace.Gives c ((c.rest.head?.map Text.isXmlSpace).getD false) c :=
  rfl

theorem gives_peek (c : Char) (cs : List Char) (o : Nat) : peek.Gives ⟨c :: cs, o⟩ c ⟨c :: cs, o⟩ :=
  rfl

theorem gives_skip {n : Nat} {cs : List Char} (counted : cs.length = n) (after : List Char) (o : Nat) :
    (skip n).Gives ⟨cs ++ after, o⟩ () (.behind after o cs) := by
  rw [← counted]
  change Except.ok ((), Cursor.mk ((cs ++ after).drop cs.length) (o + cs.length)) = _
  rw [List.drop_left]
  rfl

theorem gives_skip_one (c : Char) (after : List Char) (o : Nat) :
    (skip 1).Gives ⟨c :: after, o⟩ () (.behind after o [c]) :=
  @gives_skip 1 [c] rfl after o

/-- Whether a text does not begin with a character of a class. -/
def Ends (p : Char → Bool) (cs : List Char) : Prop :=
  ∀ c, cs.head? = some c → p c = false

theorem ends_nil (p : Char → Bool) : Ends p [] :=
  nofun

theorem ends_cons {p : Char → Bool} {c : Char} (other : p c = false) (cs : List Char) : Ends p (c :: cs) := by
  rintro _ ⟨⟩
  exact other

theorem ends_append {p : Char → Bool} {cs ds : List Char} (first : Ends p cs) (second : Ends p ds) :
    Ends p (cs ++ ds) := by
  cases cs with
  | nil => exact second
  | cons c rest => exact ends_cons (first c rfl) _

theorem takeWhile_append {p : Char → Bool} {cs after : List Char} (run : ∀ c ∈ cs, p c = true)
    (ends : Ends p after) : (cs ++ after).takeWhile p = cs := by
  rw [List.takeWhile_append_of_pos run]
  cases after with
  | nil => exact List.append_nil cs
  | cons c rest => rw [List.takeWhile_cons_of_neg (Bool.not_eq_true _ ▸ ends c rfl), List.append_nil]

/-- What stands before the first character of another class is known from the whole. -/
theorem append_run_inj {p : Char → Bool} {run other after rest : List Char} (inside : ∀ c ∈ run, p c = true)
    (insideToo : ∀ c ∈ other, p c = true) (ends : Ends p after) (endsToo : Ends p rest)
    (same : run ++ after = other ++ rest) : run = other ∧ after = rest := by
  have runs : run = other := by
    rw [← takeWhile_append inside ends, same, takeWhile_append insideToo endsToo]
  subst runs
  exact ⟨rfl, List.append_cancel_left same⟩

/-- What stands before the first occurrence of a character is known from the whole. -/
theorem append_char_inj {c : Char} {before behind after rest : List Char} (absent : c ∉ before)
    (absentToo : c ∉ behind) (same : before ++ c :: after = behind ++ c :: rest) : before = behind ∧ after = rest := by
  have differs {run : List Char} (absent : c ∉ run) : ∀ d ∈ run, (d != c) = true :=
    fun d listed => bne_iff_ne.mpr fun equal => absent (equal ▸ listed)
  have ends (cs : List Char) : Ends (· != c) (c :: cs) := ends_cons (by simp) cs
  rcases append_run_inj (differs absent) (differs absentToo) (ends after) (ends rest) same with ⟨fronts, others⟩
  exact ⟨fronts, (List.cons.inj others).2⟩

theorem gives_takeWhile {p : Char → Bool} {cs after : List Char} (run : ∀ c ∈ cs, p c = true)
    (ends : Ends p after) (o : Nat) :
    (takeWhile p).Gives ⟨cs ++ after, o⟩ cs (.behind after o cs) := by
  rw [takeWhile]
  refine (gives_rest _).bind ?_
  dsimp only
  rw [takeWhile_append run ends]
  exact (gives_skip rfl after o).bind (gives_pure _ _)

theorem gives_skipSpaces {cs after : List Char} (blank : ∀ c ∈ cs, Text.isXmlSpace c = true)
    (ends : Ends Text.isXmlSpace after) (o : Nat) :
    skipSpaces.Gives ⟨cs ++ after, o⟩ () (.behind after o cs) :=
  (gives_takeWhile blank ends o).bind (gives_pure _ _)

theorem isXmlSpace_space : ∀ c ∈ [' '], Text.isXmlSpace c = true :=
  List.all_eq_true.mp (by decide)

/-- Where no blank stands, none is passed. -/
theorem gives_skipSpaces_nil {after : List Char} (ends : Ends Text.isXmlSpace after) (o : Nat) :
    skipSpaces.Gives ⟨after, o⟩ () ⟨after, o⟩ :=
  @gives_skipSpaces [] after nofun ends o

/-! ## Requiring -/

theorem gives_expectChar (c : Char) (after : List Char) (o : Nat) :
    (expectChar c).Gives ⟨c :: after, o⟩ () (.behind after o [c]) := by
  rw [expectChar]
  refine (gives_peek c after o).bind ?_
  rw [if_pos (beq_self_eq_true c)]
  exact gives_skip_one c after o

theorem gives_expectText (text : String) (after : List Char) (o : Nat) :
    (expectText text).Gives ⟨text.toList ++ after, o⟩ () (.behind after o text.toList) := by
  rw [expectText]
  refine (gives_looksAt text _).bind ?_
  dsimp only
  rw [if_pos (List.isPrefixOf_iff_prefix.mpr (List.prefix_append _ _))]
  exact gives_skip String.length_toList after o

theorem gives_expectSpaces {cs after : List Char} (nonempty : cs ≠ [])
    (blank : ∀ c ∈ cs, Text.isXmlSpace c = true) (ends : Ends Text.isXmlSpace after) (o : Nat) :
    expectSpaces.Gives ⟨cs ++ after, o⟩ () (.behind after o cs) := by
  rcases List.exists_cons_of_ne_nil nonempty with ⟨c, rest, rfl⟩
  rw [expectSpaces]
  refine (gives_peek c (rest ++ after) o).bind ?_
  rw [if_pos (blank c List.mem_cons_self)]
  exact gives_skipSpaces blank ends o

theorem gives_expectQuote {q : Char} (quote : q = '\'' ∨ q = '"') (after : List Char) (o : Nat) :
    expectQuote.Gives ⟨q :: after, o⟩ q (.behind after o [q]) := by
  rw [expectQuote]
  refine (gives_peek q after o).bind ?_
  have accepted : (q == '\'' || q == '"') = true := by
    rw [Bool.or_eq_true, beq_iff_eq, beq_iff_eq]
    exact quote
  rw [if_pos accepted]
  exact (gives_skip_one q after o).bind (gives_pure _ _)

/-! ## Taking characters up to a place -/

theorem charsUntil_append {stop : List Char → Bool} {cs after : List Char}
    (chars : ∀ c ∈ cs, isXmlChar c = true) (goesOn : ∀ tail, tail <:+ cs → tail ≠ [] → stop (tail ++ after) = false)
    (stopChar : ∀ c, after.head? = some c → isXmlChar c = true) (stops : after ≠ [] → stop after = true) :
    charsUntil stop (cs ++ after) = (cs, none) := by
  induction cs with
  | nil =>
      cases after with
      | nil => rfl
      | cons c rest =>
          rw [List.nil_append, charsUntil, stopChar c rfl, stops (List.cons_ne_nil c rest)]
          rfl
  | cons c cs inductionHypothesis =>
      have here := goesOn (c :: cs) (List.suffix_refl _) (List.cons_ne_nil c cs)
      have later := inductionHypothesis (fun d listed => chars d (List.mem_cons_of_mem c listed))
        (fun tail suffix => goesOn tail (suffix.trans (List.suffix_cons c cs)))
      rw [List.cons_append] at here ⊢
      rw [charsUntil, chars c List.mem_cons_self, here, later]
      rfl

theorem gives_takeUntil {stop : List Char → Bool} {cs after : List Char}
    (chars : ∀ c ∈ cs, isXmlChar c = true) (goesOn : ∀ tail, tail <:+ cs → tail ≠ [] → stop (tail ++ after) = false)
    (stopChar : ∀ c, after.head? = some c → isXmlChar c = true) (stops : after ≠ [] → stop after = true) (o : Nat) :
    (takeUntil stop).Gives ⟨cs ++ after, o⟩ cs (.behind after o cs) := by
  rw [takeUntil]
  refine (gives_rest _).bind ?_
  dsimp only
  rw [charsUntil_append chars goesOn stopChar stops]
  exact (gives_skip rfl after o).bind (gives_pure _ _)

/-- Whether no end of a piece is also a front of it, so that two occurrences of it never
overlap. -/
def Unbordered (piece : List Char) : Prop :=
  ∀ n < piece.length, 0 < n → (piece.drop n).isPrefixOf piece = false

instance (piece : List Char) : Decidable (Unbordered piece) :=
  inferInstanceAs (Decidable (∀ n < piece.length, 0 < n → _))

/-- A piece behind a text that does not have it begins only at the end of the text. -/
theorem not_prefix_of_unbordered {piece : List Char} (unbordered : Unbordered piece) {cs tail after : List Char}
    (absent : ¬ piece <:+: cs) (suffix : tail <:+ cs) (nonempty : tail ≠ []) :
    ¬ piece <+: tail ++ (piece ++ after) := by
  intro starts
  by_cases fits : piece.length ≤ tail.length
  · have within := List.prefix_of_prefix_length_le starts (List.prefix_append _ _) fits
    exact absent (within.isInfix.trans suffix.isInfix)
  · have short : tail.length < piece.length := Nat.lt_of_not_le fits
    have front := List.prefix_of_prefix_length_le (List.prefix_append tail (piece ++ after)) starts
      (Nat.le_of_lt short)
    rcases front with ⟨back, same⟩
    rw [← same, List.append_assoc, List.prefix_append_right_inj] at starts
    have again : back <+: piece := by
      have whole : tail ++ (back ++ after) = piece ++ after := by
        rw [← same, List.append_assoc]
      have ending : back <:+ piece := ⟨tail, same⟩
      exact List.prefix_of_prefix_length_le (whole ▸ starts) (List.prefix_append piece after) ending.length_le
    have dropped : piece.drop tail.length = back := by
      rw [← same, List.drop_left]
    have border := unbordered tail.length short (List.length_pos_iff.mpr nonempty)
    rw [dropped, List.isPrefixOf_iff_prefix.mpr again] at border
    cases border

/-- What stands before the first occurrence of a piece is known from the whole. -/
theorem append_piece_inj {piece before behind after rest : List Char} (unbordered : Unbordered piece)
    (absent : ¬ piece <:+: before) (absentToo : ¬ piece <:+: behind)
    (same : before ++ (piece ++ after) = behind ++ (piece ++ rest)) : before = behind ∧ after = rest := by
  have nothing {front tail after rest : List Char} (absent : ¬ piece <:+: front ++ tail)
      (same : piece ++ after = tail ++ (piece ++ rest)) : tail = [] :=
    Classical.byContradiction fun nonempty =>
      not_prefix_of_unbordered unbordered absent (List.suffix_append front tail) nonempty ⟨after, same⟩
  have fronts : before = behind := by
    rcases List.append_eq_append_iff.mp same with ⟨tail, rfl, front⟩ | ⟨tail, rfl, front⟩
    · rw [nothing absentToo front, List.append_nil]
    · rw [nothing absent front, List.append_nil]
  subst fronts
  exact ⟨rfl, List.append_cancel_left (List.append_cancel_left same)⟩

theorem gives_takeBefore {piece : String} (nonempty : piece.toList ≠ [])
    (unbordered : Unbordered piece.toList) (pieceChars : piece.toList.all isXmlChar = true)
    {cs : List Char} (chars : ∀ c ∈ cs, isXmlChar c = true) (absent : Text.hasPiece piece.toList cs = false)
    (after : List Char) (o : Nat) :
    (takeBefore piece).Gives ⟨cs ++ (piece.toList ++ after), o⟩ cs (.behind (piece.toList ++ after) o cs) := by
  apply gives_takeUntil chars
  · intro tail suffix tailNonempty
    rw [← Bool.not_eq_true, List.isPrefixOf_iff_prefix]
    apply not_prefix_of_unbordered unbordered _ suffix tailNonempty
    rw [← Text.hasPiece_iff, absent]
    exact Bool.false_ne_true
  · rcases List.exists_cons_of_ne_nil nonempty with ⟨first, others, same⟩
    intro c front
    rw [same] at front
    cases front
    exact List.all_eq_true.mp pieceChars first (same ▸ List.mem_cons_self)
  · exact fun _ => List.isPrefixOf_iff_prefix.mpr (List.prefix_append _ _)

/-! ## Names -/

/-- Characters that end a name. -/
def marks : List Char :=
  [' ', '\t', '\n', '\r', '/', '>', '<', '=', '"', '\'', '?', '!']

theorem isNameChar_of_mem_marks : ∀ c ∈ marks, isNameChar c = false := by
  exact List.all_iff_forall_prop.mp (by decide)

theorem notMem_marks {c : Char} (named : isNameChar c = true) : c ∉ marks := by
  intro listed
  rw [isNameChar_of_mem_marks c listed] at named
  cases named

theorem isNameChar_of_isNameStart {c : Char} (start : isNameStart c = true) : isNameChar c = true := by
  rw [isNameChar, start]
  rfl

theorem not_isXmlSpace {c : Char} (named : isNameChar c = true) : Text.isXmlSpace c = false := by
  have apart := notMem_marks named
  simp only [marks, List.mem_cons, not_or] at apart
  rw [Text.isXmlSpace, beq_false_of_ne apart.1, beq_false_of_ne apart.2.1, beq_false_of_ne apart.2.2.1,
    beq_false_of_ne apart.2.2.2.1]
  rfl

/-- A name ends where a blank stands. -/
theorem ends_isNameChar {gap : List Char} (nonempty : gap ≠ []) (blank : ∀ c ∈ gap, Text.isXmlSpace c = true)
    (rest : List Char) : Ends isNameChar (gap ++ rest) := by
  rcases List.exists_cons_of_ne_nil nonempty with ⟨c, cs, rfl⟩
  refine ends_cons ?_ _
  rw [← Bool.not_eq_true]
  intro named
  have solid := not_isXmlSpace named
  rw [blank c List.mem_cons_self] at solid
  cases solid

/-- Whether some characters are a name without a colon. -/
def isPlainName : List Char → Bool
  | [] => false
  | c :: cs => isNameStart c && (c :: cs).all fun d => isNameChar d && d != ':'

theorem isPlainName_iff {cs : List Char} :
    isPlainName cs = true ↔
      cs ≠ [] ∧ (∀ c, cs.head? = some c → isNameStart c = true) ∧
        ∀ c ∈ cs, isNameChar c = true ∧ c ≠ ':' := by
  cases cs with
  | nil => exact ⟨nofun, fun named => absurd rfl named.1⟩
  | cons c cs =>
      rw [isPlainName, Bool.and_eq_true, List.all_eq_true]
      constructor
      · rintro ⟨start, all⟩
        refine ⟨List.cons_ne_nil c cs, ?_, fun d listed => ?_⟩
        · rintro _ ⟨⟩
          exact start
        · have both := all d listed
          rw [Bool.and_eq_true, bne_iff_ne] at both
          exact both
      · rintro ⟨-, start, all⟩
        refine ⟨start c rfl, fun d listed => ?_⟩
        rw [Bool.and_eq_true, bne_iff_ne]
        exact all d listed

theorem gives_skipName {c : Char} {cs after : List Char} (start : isNameStart c = true)
    (run : ∀ d ∈ c :: cs, isNameChar d = true) (ends : Ends isNameChar after) (o : Nat) :
    skipName.Gives ⟨c :: cs ++ after, o⟩ (c :: cs) (.behind after o (c :: cs)) := by
  rw [skipName]
  refine (gives_rest _).bind ?_
  dsimp only [List.cons_append]
  rw [if_pos start]
  exact gives_takeWhile run ends o

theorem gives_name {c : Char} {cs after : List Char} (start : isNameStart c = true)
    (run : ∀ d ∈ c :: cs, isNameChar d = true) (ends : Ends isNameChar after) (o : Nat) :
    name.Gives ⟨c :: cs ++ after, o⟩ (String.ofList (c :: cs)) (.behind after o (c :: cs)) := by
  rw [name]
  refine (gives_offset _).bind ((gives_skipName start run ends o).bind ?_)
  exact gives_pure _ _

theorem splitAt_of_notMem {sep : Char} {cs : List Char} (absent : sep ∉ cs) : Text.splitAt sep cs = [cs] := by
  induction cs with
  | nil => rfl
  | cons c cs inductionHypothesis =>
      rw [Text.splitAt, inductionHypothesis fun listed => absent (List.mem_cons_of_mem c listed)]
      dsimp only
      rw [if_neg]
      rw [beq_iff_eq]
      exact fun same => absent (same ▸ List.mem_cons_self)

theorem splitAt_append_cons {sep : Char} {first second : List Char} (absentFirst : sep ∉ first)
    (absentSecond : sep ∉ second) : Text.splitAt sep (first ++ sep :: second) = [first, second] := by
  induction first with
  | nil =>
      rw [List.nil_append, Text.splitAt, splitAt_of_notMem absentSecond]
      dsimp only
      rw [if_pos (beq_self_eq_true sep)]
  | cons c cs inductionHypothesis =>
      rw [List.cons_append, Text.splitAt,
        inductionHypothesis fun listed => absentFirst (List.mem_cons_of_mem c listed)]
      dsimp only
      rw [if_neg]
      rw [beq_iff_eq]
      exact fun same => absentFirst (same ▸ List.mem_cons_self)

/-- Whether a written name can be read: the prefix may be empty. -/
def QName.isReadable (q : QName) : Bool :=
  (q.pre.isEmpty || isPlainName q.pre.toList) && isPlainName q.localName.toList

theorem toList_write_of_bare {q : QName} (bare : q.pre.isEmpty = true) :
    q.write.toList = q.localName.toList := by
  rw [QName.write, if_pos bare]

theorem toList_write_of_prefixed {q : QName} (prefixed : ¬ q.pre.isEmpty = true) :
    q.write.toList = q.pre.toList ++ ':' :: q.localName.toList := by
  rw [QName.write, if_neg prefixed, String.toList_append, String.toList_append, List.append_assoc]
  rfl

theorem gives_qualifiedName {q : QName} (readable : q.isReadable = true) {after : List Char}
    (ends : Ends isNameChar after) (o : Nat) :
    qualifiedName.Gives ⟨q.write.toList ++ after, o⟩ q (.behind after o q.write.toList) := by
  rcases q with ⟨pre, localName⟩
  rw [QName.isReadable, Bool.and_eq_true, Bool.or_eq_true] at readable
  rcases readable with ⟨prefixPart, localPart⟩
  rcases isPlainName_iff.mp localPart with ⟨localNonempty, localStart, localRun⟩
  have colonFree : ':' ∉ localName.toList := fun listed => (localRun ':' listed).2 rfl
  rcases List.exists_cons_of_ne_nil localNonempty with ⟨l, ls, localChars⟩
  have starts : isNameStart l = true := localStart l (by rw [localChars]; rfl)
  have localEq : localName = String.ofList (l :: ls) := by rw [← localChars, String.ofList_toList]
  rw [qualifiedName]
  refine (gives_offset _).bind ((gives_rest _).bind ?_)
  dsimp only
  -- Without a prefix the run is the name; otherwise the only colon cuts it.
  by_cases bare : pre.isEmpty = true
  · have written : (QName.mk pre localName).write.toList = localName.toList := toList_write_of_bare bare
    have run : (localName.toList ++ after).takeWhile isNameChar = localName.toList :=
      takeWhile_append (fun c listed => (localRun c listed).1) ends
    rw [written, run, splitAt_of_notMem colonFree]
    refine (gives_skip rfl after o).bind ?_
    have accepted : (true && isNameStart l && !(l :: ls).isEmpty) = true := by
      rw [starts]
      rfl
    rw [String.isEmpty_iff.mp bare, localEq, String.toList_ofList]
    dsimp only
    rw [if_pos accepted]
    exact gives_pure _ _
  · have prefixed : isPlainName pre.toList = true := prefixPart.resolve_left bare
    rcases isPlainName_iff.mp prefixed with ⟨prefixNonempty, prefixStart, prefixRun⟩
    have prefixColonFree : ':' ∉ pre.toList := fun listed => (prefixRun ':' listed).2 rfl
    rcases List.exists_cons_of_ne_nil prefixNonempty with ⟨p, ps, prefixChars⟩
    have prefixStarts : isNameStart p = true := prefixStart p (by rw [prefixChars]; rfl)
    have prefixEq : pre = String.ofList (p :: ps) := by rw [← prefixChars, String.ofList_toList]
    have written : (QName.mk pre localName).write.toList = pre.toList ++ ':' :: localName.toList :=
      toList_write_of_prefixed bare
    have run : (pre.toList ++ ':' :: localName.toList ++ after).takeWhile isNameChar =
        pre.toList ++ ':' :: localName.toList := by
      refine takeWhile_append ?_ ends
      intro c listed
      rcases List.mem_append.mp listed with before | behind
      · exact (prefixRun c before).1
      · rcases List.mem_cons.mp behind with colon | behind
        · rw [colon]
          decide
        · exact (localRun c behind).1
    rw [written, run, splitAt_append_cons prefixColonFree colonFree]
    refine (gives_skip rfl after o).bind ?_
    have accepted : (isNameStart p && isNameStart l && !(l :: ls).isEmpty) = true := by
      rw [prefixStarts, starts]
      rfl
    rw [prefixEq, localEq, String.toList_ofList, String.toList_ofList]
    dsimp only
    rw [if_pos accepted]
    exact gives_pure _ _

end Scan

/-! ## Quoted texts -/

/-- A text between two equal marks. -/
structure Quoted where
  quote : Char
  value : List Char

namespace Quoted

def text (q : Quoted) : List Char :=
  q.quote :: (q.value ++ [q.quote])

/-- Whether the marks are quotation marks and stand at the ends alone. -/
def isReadable (q : Quoted) : Bool :=
  (q.quote == '\'' || q.quote == '"') && !q.value.contains q.quote

theorem isReadable_iff {q : Quoted} :
    q.isReadable = true ↔ (q.quote = '\'' ∨ q.quote = '"') ∧ q.quote ∉ q.value := by
  rw [isReadable, Bool.and_eq_true, Bool.or_eq_true, beq_iff_eq, beq_iff_eq, Bool.not_eq_true',
    ← Bool.not_eq_true, List.contains_iff_mem]

theorem text_append (q : Quoted) (rest : List Char) : q.text ++ rest = q.quote :: (q.value ++ q.quote :: rest) := by
  rw [text, List.cons_append, List.append_assoc]
  rfl

theorem run_value {q : Quoted} (readable : q.isReadable = true) : ∀ c ∈ q.value, (c != q.quote) = true := by
  intro c listed
  rw [bne_iff_ne]
  exact fun same => (isReadable_iff.mp readable).2 (same ▸ listed)

theorem ends_quote (q : Quoted) (rest : List Char) : Scan.Ends (fun c => c != q.quote) (q.quote :: rest) := by
  rintro _ ⟨⟩
  exact bne_self_eq_false q.quote

/-- Where the marks and the value were passed, the whole text was. -/
theorem behind_text (q : Quoted) (rest : List Char) (o : Nat) :
    Cursor.behind rest (o + 1 + q.value.length) [q.quote] = .behind rest o q.text := by
  simp only [Cursor.behind, text, List.length_append, List.length_cons, List.length_nil, Cursor.mk.injEq, true_and]
  omega

end Quoted

namespace Scan

theorem gives_quotedText {q : Quoted} (readable : q.isReadable = true) (rest : List Char) (o : Nat) :
    quotedText.Gives ⟨q.text ++ rest, o⟩ () (.behind rest o q.text) := by
  rw [quotedText, q.text_append]
  refine (gives_expectQuote (Quoted.isReadable_iff.mp readable).1 _ o).bind ?_
  refine (gives_takeWhile (q.run_value readable) (q.ends_quote rest) _).bind ?_
  rw [← q.behind_text]
  exact gives_expectChar q.quote rest _

/-- An attribute is read by its name and its quoted value. -/
theorem gives_writtenAttribute {name : QName} {q : Quoted} (named : name.isReadable = true)
    (readable : q.isReadable = true) (chars : ∀ c ∈ q.value, isXmlChar c = true ∧ c ≠ '<')
    (rest : List Char) (o : Nat) :
    writtenAttribute.Gives ⟨name.write.toList ++ ('=' :: (q.text ++ rest)), o⟩
      (name, ⟨q.value, o + name.write.toList.length + 2⟩)
      (.behind rest o (name.write.toList ++ ('=' :: q.text))) := by
  rcases Quoted.isReadable_iff.mp readable with ⟨isQuote, free⟩
  have quoteEnds : Ends Text.isXmlSpace (q.quote :: (q.value ++ q.quote :: rest)) := by
    apply ends_cons
    rcases isQuote with same | same <;> rw [same] <;> decide
  have quoteChar : isXmlChar q.quote = true := by
    rcases isQuote with same | same <;> rw [same] <;> decide
  rw [writtenAttribute, q.text_append]
  refine (gives_qualifiedName named (ends_cons (by decide) _) o).bind ?_
  refine (gives_skipSpaces_nil (ends_cons (by decide) _) _).bind ?_
  refine (gives_expectChar '=' _ _).bind ?_
  refine (gives_skipSpaces_nil quoteEnds _).bind ?_
  refine (gives_expectQuote isQuote _ _).bind ?_
  refine (gives_offset _).bind ?_
  refine (@gives_takeUntil _ q.value (q.quote :: rest)
    (fun c listed => (chars c listed).1) ?_ ?_ ?_ _).bind ?_
  · intro tail suffix nonempty
    rcases List.exists_cons_of_ne_nil nonempty with ⟨c, cs, rfl⟩
    have listed : c ∈ q.value := suffix.subset List.mem_cons_self
    rw [List.cons_append, List.head?_cons, Bool.or_eq_false_iff, beq_eq_false_iff_ne, beq_eq_false_iff_ne]
    exact ⟨fun same => free (Option.some.inj same ▸ listed), fun same => (chars c listed).2 (Option.some.inj same)⟩
  · rintro _ ⟨⟩
    exact quoteChar
  · intro _
    rw [List.head?_cons, beq_self_eq_true, Bool.true_or]
  · refine (gives_expectChar q.quote _ _).bind ?_
    have place : Cursor.behind rest (Cursor.behind (q.quote :: rest) (o + name.write.toList.length + 2)
        q.value).offset [q.quote] = .behind rest o (name.write.toList ++ ('=' :: q.text)) := by
      simp only [Cursor.behind, Quoted.text, List.length_append, List.length_cons, List.length_nil, Cursor.mk.injEq,
        true_and]
      omega
    rw [← place]
    exact gives_pure _ _

end Scan

end Xml
end SlimSvg
