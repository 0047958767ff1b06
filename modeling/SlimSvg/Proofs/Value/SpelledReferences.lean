import SlimSvg.Proofs.Text.Search
import SlimSvg.Proofs.Text.Trim
import SlimSvg.Value.Paint

namespace SlimSvg

/-!
# The spelling of references

The strict reader takes a reference in two spellings.  A bare id goes up to a space or the
parenthesis, and a quoted one up to the quotation mark, without the white space before it.
What stands around the id does not depend on it, so another id can stand in its place.
-/

namespace Reference

variable {quote : Option Char} {cs before lead id closing rest : List Char}

/-! ## What stands around an id -/

/-- Whether a text can stand between the opening parenthesis and the number sign, with the
quotation mark in it, if there is one. -/
inductive Opens : Option Char → List Char → Prop
  | bare {blanks : List Char} (blank : ∀ c ∈ blanks, Text.isXmlSpace c = true) : Opens Option.none blanks
  | quoted {quote : Char} {blanks inner : List Char} (isQuote : isQuote quote = true)
    (blank : ∀ c ∈ blanks, Text.isXmlSpace c = true) (innerBlank : ∀ c ∈ inner, Text.isXmlSpace c = true) :
    Opens (some quote) (blanks ++ quote :: inner)

/-- Whether a text ends an id, and what stands behind the closing parenthesis. -/
inductive Closes : Option Char → List Char → List Char → Prop
  | bare {between rest : List Char} (blank : ∀ c ∈ between, Text.isXmlSpace c = true)
    (stops : ∀ c ∈ between.head?, c = ' ') : Closes Option.none (between ++ ')' :: rest) rest
  | quoted {quote : Char} {padding between rest : List Char} (isQuote : isQuote quote = true)
    (white : ∀ c ∈ padding, Text.isWhiteSpace c = true) (blank : ∀ c ∈ between, Text.isXmlSpace c = true) :
    Closes (some quote) (padding ++ quote :: (between ++ ')' :: rest)) rest

/-- Whether a character is one that stands around an id. -/
def IsAround (c : Char) : Prop :=
  Text.isWhiteSpace c = true ∨ isQuote c = true

theorem Opens.isAround (opens : Opens quote lead) : ∀ c ∈ lead, IsAround c := by
  cases opens with
  | bare blank => exact fun c listed => .inl (Text.isWhiteSpace_of_isXmlSpace (blank c listed))
  | quoted mark blank innerBlank =>
      intro c listed
      rcases List.mem_append.mp listed with outer | listed
      · exact .inl (Text.isWhiteSpace_of_isXmlSpace (blank c outer))
      · rcases List.mem_cons.mp listed with rfl | inner
        · exact .inr mark
        · exact .inl (Text.isWhiteSpace_of_isXmlSpace (innerBlank c inner))

theorem Closes.exists_around (closes : Closes quote closing rest) :
    ∃ between, closing = between ++ ')' :: rest ∧ ∀ c ∈ between, IsAround c := by
  cases closes with
  | bare blank => exact ⟨_, rfl, fun c listed => .inl (Text.isWhiteSpace_of_isXmlSpace (blank c listed))⟩
  | @quoted mark padding between rest isQuote white blank =>
      refine ⟨padding ++ mark :: between, (List.append_assoc padding (mark :: between) _).symm, ?_⟩
      intro c listed
      rcases List.mem_append.mp listed with outer | listed
      · exact .inl (white c outer)
      · rcases List.mem_cons.mp listed with rfl | inner
        · exact .inr isQuote
        · exact .inl (Text.isWhiteSpace_of_isXmlSpace (blank c inner))

/-- Whether a text can be an id between quotation marks, or without them. -/
structure IsName (quote : Option Char) (id : List Char) : Prop where
  nonempty : id ≠ []
  unquoted : ∀ c ∈ id, isQuote c = false
  bare : quote = Option.none → ∀ c ∈ id, c ≠ ' ' ∧ c ≠ ')'
  trimmed : quote.isSome = true → ∀ c ∈ id.getLast?, Text.isWhiteSpace c = false

/-- Whether a text is a reference to an id with a rest behind it, spelled in parts. -/
structure Spells (quote : Option Char) (before lead id closing rest cs : List Char) : Prop where
  text : cs = before ++ 'u' :: 'r' :: 'l' :: '(' :: (lead ++ '#' :: (id ++ closing))
  blank : ∀ c ∈ before, Text.isXmlSpace c = true
  opens : Opens quote lead
  name : IsName quote id
  closes : Closes quote closing rest

/-! ## The reader -/

/-- The id behind a number sign, and what follows the reference. -/
def scanId? (quote : Option Char) (cs : List Char) : Option (List Char × List Char) :=
  let inside (c : Char) : Bool :=
    match quote with
    | some q => c != q
    | Option.none => c != ' ' && c != ')'
  let run := cs.takeWhile inside
  let id := if quote.isSome then Text.dropSuffix Text.isWhiteSpace run else run
  if id.isEmpty || id.any isQuote then Option.none
  else do
    let rest := Value.skipSpaces (cs.dropWhile inside)
    let rest ←
      match quote with
      | some q => (([q] : List Char).isPrefixOf? rest).map Value.skipSpaces
      | Option.none => some rest
    let rest ← [')'].isPrefixOf? rest
    some (id, rest)

/-- The quotation mark at the front of a text, after blanks, and what follows. -/
def openQuote (cs : List Char) : Option Char × List Char :=
  let rest := Value.skipSpaces cs
  match rest with
  | c :: after => if isQuote c then (some c, Value.skipSpaces after) else (Option.none, rest)
  | [] => (Option.none, rest)

theorem scanFunction?_eq (cs : List Char) :
    scanFunction? cs = (['u', 'r', 'l', '('].isPrefixOf? (Value.skipSpaces cs)).bind fun rest =>
      (['#'].isPrefixOf? (openQuote rest).2).bind (scanId? (openQuote rest).1) :=
  rfl

theorem scanId?_none (cs : List Char) :
    scanId? Option.none cs =
      if ((cs.takeWhile fun c => c != ' ' && c != ')').isEmpty ||
          (cs.takeWhile fun c => c != ' ' && c != ')').any isQuote) = true then Option.none
      else ([')'].isPrefixOf? (Value.skipSpaces (cs.dropWhile fun c => c != ' ' && c != ')'))).bind fun rest =>
        some (cs.takeWhile fun c => c != ' ' && c != ')', rest) :=
  rfl

theorem scanId?_some (quote : Char) (cs : List Char) :
    scanId? (some quote) cs =
      if ((Text.dropSuffix Text.isWhiteSpace (cs.takeWhile (· != quote))).isEmpty ||
          (Text.dropSuffix Text.isWhiteSpace (cs.takeWhile (· != quote))).any isQuote) = true then Option.none
      else ((([quote] : List Char).isPrefixOf? (Value.skipSpaces (cs.dropWhile (· != quote)))).map
        Value.skipSpaces).bind fun rest => ([')'].isPrefixOf? rest).bind fun rest =>
          some (Text.dropSuffix Text.isWhiteSpace (cs.takeWhile (· != quote)), rest) :=
  rfl

theorem skipSpaces_append {blanks : List Char} (blank : ∀ c ∈ blanks, Text.isXmlSpace c = true) {c : Char}
    (solid : Text.isXmlSpace c = false) (rest : List Char) : Value.skipSpaces (blanks ++ c :: rest) = c :: rest := by
  apply Text.dropWhile_append_of_all blank
  rintro d ⟨⟩
  exact solid

theorem not_isWhiteSpace_of_isQuote {c : Char} (quote : isQuote c = true) : Text.isWhiteSpace c = false := by
  rw [isQuote, Bool.or_eq_true, beq_iff_eq, beq_iff_eq] at quote
  rcases quote with rfl | rfl <;> rfl

/-- An id is read up to what closes it. -/
theorem scanId?_of_closes (name : IsName quote id) (closes : Closes quote closing rest) :
    scanId? quote (id ++ closing) = some (id, rest) := by
  have accepted : ¬ (id.isEmpty || id.any isQuote) = true := by
    rw [Bool.not_eq_true, Bool.or_eq_false_iff, List.isEmpty_eq_false_iff, List.any_eq_false]
    exact ⟨name.nonempty, fun c listed => by rw [name.unquoted c listed]; exact Bool.false_ne_true⟩
  cases closes with
  | @bare between rest blank stops =>
      have inside : ∀ c ∈ id, (c != ' ' && c != ')') = true := by
        intro c listed
        rw [Bool.and_eq_true, bne_iff_ne, bne_iff_ne]
        exact name.bare rfl c listed
      have stop : ∀ c ∈ (between ++ ')' :: rest).head?, (c != ' ' && c != ')') = false := by
        intro c first
        cases between with
        | nil => exact Option.some.inj first ▸ rfl
        | cons d more =>
            rw [stops c first]
            rfl
      rw [scanId?_none, Text.takeWhile_append_of_all inside stop, Text.dropWhile_append_of_all inside stop,
        if_neg accepted, skipSpaces_append blank rfl]
      rfl
  | @quoted quote padding between rest quoteMark white blank =>
      have solid := not_isWhiteSpace_of_isQuote quoteMark
      have inside : ∀ c ∈ id ++ padding, (c != quote) = true := by
        intro c listed
        rw [bne_iff_ne]
        rintro rfl
        rcases List.mem_append.mp listed with own | behind
        · exact absurd (quoteMark.symm.trans (name.unquoted c own)) (by decide)
        · exact absurd (solid.symm.trans (white c behind)) (by decide)
      have stop : ∀ c ∈ (quote :: (between ++ ')' :: rest)).head?, (c != quote) = false := by
        rintro c ⟨⟩
        exact bne_self_eq_false _
      have front : Value.skipSpaces (quote :: (between ++ ')' :: rest)) = quote :: (between ++ ')' :: rest) := by
        refine List.dropWhile_cons_of_neg fun blank => ?_
        rw [Text.isWhiteSpace_of_isXmlSpace blank] at solid
        cases solid
      have ended : ([quote] : List Char).isPrefixOf? (quote :: (between ++ ')' :: rest)) = some (between ++ ')' :: rest) :=
        Text.isPrefixOf?_append [quote] _
      rw [scanId?_some, ← List.append_assoc, Text.takeWhile_append_of_all inside stop,
        Text.dropWhile_append_of_all inside stop, Text.dropSuffix_append_of_all white (name.trimmed rfl),
        if_neg accepted, front, ended, Option.map_some, skipSpaces_append blank rfl]
      rfl

theorem exists_blanks_append (cs : List Char) :
    ∃ blanks, cs = blanks ++ Value.skipSpaces cs ∧ ∀ c ∈ blanks, Text.isXmlSpace c = true :=
  ⟨cs.takeWhile Text.isXmlSpace, List.takeWhile_append_dropWhile.symm, fun _ listed => List.mem_takeWhile_imp listed⟩

/-- An id that is read is one, and something closes it. -/
theorem exists_closes_of_scanId? (mark : ∀ c ∈ quote, isQuote c = true) (found : scanId? quote cs = some (id, rest)) :
    ∃ closing, cs = id ++ closing ∧ IsName quote id ∧ Closes quote closing rest := by
  have checked {name : List Char} (solid : ¬ (name.isEmpty || name.any isQuote) = true) :
      name ≠ [] ∧ ∀ c ∈ name, isQuote c = false := by
    rw [Bool.not_eq_true, Bool.or_eq_false_iff, List.isEmpty_eq_false_iff, List.any_eq_false] at solid
    exact ⟨solid.1, fun c listed => Bool.not_eq_true _ ▸ solid.2 c listed⟩
  cases quote with
  | none =>
      rw [scanId?_none] at found
      rcases Option.ite_none_left_eq_some.mp found with ⟨solid, found⟩
      rcases Option.bind_eq_some_iff.mp found with ⟨last, closed, same⟩
      rcases Prod.mk.inj (Option.some.inj same) with ⟨rfl, rfl⟩
      rcases exists_blanks_append (cs.dropWhile fun c => c != ' ' && c != ')') with ⟨between, behind, blank⟩
      rw [Text.eq_append_of_isPrefixOf? closed] at behind
      refine ⟨cs.dropWhile fun c => c != ' ' && c != ')', List.takeWhile_append_dropWhile.symm, ?_, ?_⟩
      · refine ⟨(checked solid).1, (checked solid).2, fun _ c listed => ?_, fun impossible => nomatch impossible⟩
        have inside := List.mem_takeWhile_imp listed
        rwa [Bool.and_eq_true, bne_iff_ne, bne_iff_ne] at inside
      · have first := List.head?_dropWhile_not (fun c => c != ' ' && c != ')') cs
        rw [behind] at first ⊢
        refine .bare blank fun c begins => ?_
        cases between with
        | nil => cases begins
        | cons d more =>
            obtain rfl : d = c := Option.some.inj begins
            have stopped : (d != ' ' && d != ')') = false := first
            rw [Bool.and_eq_false_iff, bne_eq_false_iff_eq, bne_eq_false_iff_eq] at stopped
            rcases stopped with space | parenthesis
            · exact space
            · rw [parenthesis] at blank
              exact absurd (blank ')' List.mem_cons_self) (by decide)
  | some quote =>
      have quoteMark := mark quote rfl
      rw [scanId?_some] at found
      rcases Option.ite_none_left_eq_some.mp found with ⟨solid, found⟩
      rcases Option.bind_eq_some_iff.mp found with ⟨afterQuote, ended, found⟩
      rcases Option.bind_eq_some_iff.mp found with ⟨last, closed, same⟩
      rcases Option.map_eq_some_iff.mp ended with ⟨behindQuote, quoted, rfl⟩
      rcases Prod.mk.inj (Option.some.inj same) with ⟨rfl, rfl⟩
      rcases Text.exists_append_dropSuffix Text.isWhiteSpace (cs.takeWhile (· != quote)) with
        ⟨padding, run, white, trimmed⟩
      rcases exists_blanks_append (cs.dropWhile (· != quote)) with ⟨blanks, behind, blank⟩
      rcases exists_blanks_append behindQuote with ⟨between, afterEq, betweenBlank⟩
      rw [Text.eq_append_of_isPrefixOf? quoted] at behind
      rw [Text.eq_append_of_isPrefixOf? closed] at afterEq
      have none : blanks = [] := by
        have first := List.head?_dropWhile_not (· != quote) cs
        rw [behind] at first
        cases blanks with
        | nil => rfl
        | cons d more =>
            have same : (d != quote) = false := first
            have solid := not_isWhiteSpace_of_isQuote quoteMark
            rw [← bne_eq_false_iff_eq.mp same, Text.isWhiteSpace_of_isXmlSpace (blank d List.mem_cons_self)] at solid
            cases solid
      refine ⟨padding ++ cs.dropWhile (· != quote), ?_, ?_, ?_⟩
      · rw [← List.append_assoc, ← run, List.takeWhile_append_dropWhile]
      · exact ⟨(checked solid).1, (checked solid).2, (fun impossible => nomatch impossible), fun _ => trimmed⟩
      · rw [behind, none, afterEq]
        exact .quoted quoteMark white betweenBlank

/-! ## The spelling of what is read -/

theorem exists_opens_openQuote (cs : List Char) :
    ∃ lead, cs = lead ++ (openQuote cs).2 ∧ Opens (openQuote cs).1 lead := by
  rcases exists_blanks_append cs with ⟨blanks, csEq, blank⟩
  rw [openQuote]
  generalize Value.skipSpaces cs = behind at csEq
  cases behind with
  | nil => exact ⟨blanks, csEq, .bare blank⟩
  | cons c after =>
      dsimp only
      split
      · next mark =>
        rcases exists_blanks_append after with ⟨inner, afterEq, innerBlank⟩
        refine ⟨blanks ++ c :: inner, ?_, .quoted mark blank innerBlank⟩
        rw [List.append_assoc, List.cons_append, ← afterEq]
        exact csEq
      · exact ⟨blanks, csEq, .bare blank⟩

theorem Opens.isQuote {mark : Char} (opens : Opens quote lead) (quoted : mark ∈ quote) : isQuote mark = true := by
  cases opens with
  | bare => cases quoted
  | quoted isQuote => exact Option.some.inj quoted ▸ isQuote

theorem openQuote_of_opens {cs : List Char} (opens : Opens quote lead) :
    openQuote (lead ++ '#' :: cs) = (quote, '#' :: cs) := by
  cases opens with
  | bare blank =>
      rw [openQuote, skipSpaces_append blank rfl]
      rfl
  | @quoted mark blanks inner isQuote blank innerBlank =>
      have solid : Text.isXmlSpace mark = false := by
        rw [← Bool.not_eq_true]
        intro space
        exact absurd (Text.isWhiteSpace_of_isXmlSpace space) (by rw [not_isWhiteSpace_of_isQuote isQuote]; decide)
      rw [openQuote, List.append_assoc, List.cons_append, skipSpaces_append blank solid]
      dsimp only
      rw [if_pos isQuote, skipSpaces_append innerBlank rfl]

/-- What is spelled as a reference is read as one. -/
theorem Spells.scanFunction?_eq_some (spells : Spells quote before lead id closing rest cs) :
    scanFunction? cs = some (id, rest) := by
  rw [spells.text, scanFunction?_eq, skipSpaces_append spells.blank rfl]
  change ((['#'] : List Char).isPrefixOf? (openQuote (lead ++ '#' :: (id ++ closing))).2).bind _ = _
  rw [openQuote_of_opens spells.opens]
  exact scanId?_of_closes spells.name spells.closes

/-- What is read as a reference is spelled as one. -/
theorem exists_spells_of_scanFunction? (found : scanFunction? cs = some (id, rest)) :
    ∃ quote before lead closing, Spells quote before lead id closing rest cs := by
  rw [scanFunction?_eq] at found
  rcases Option.bind_eq_some_iff.mp found with ⟨afterName, named, found⟩
  rcases Option.bind_eq_some_iff.mp found with ⟨tail, hash, found⟩
  rcases exists_blanks_append cs with ⟨before, csEq, blank⟩
  rcases exists_opens_openQuote afterName with ⟨lead, afterNameEq, opens⟩
  rw [Text.eq_append_of_isPrefixOf? named] at csEq
  rw [Text.eq_append_of_isPrefixOf? hash] at afterNameEq
  rcases exists_closes_of_scanId? (fun c quoted => opens.isQuote quoted) found with ⟨closing, rfl, name, closes⟩
  exact ⟨_, before, lead, closing, by rw [csEq, afterNameEq]; rfl, blank, opens, name, closes⟩

end Reference

/-! ## References among paints -/

namespace Paint

theorem exists_scanFunction?_of_read? {s id : String} {fallback : Option PaintFallback}
    (read : read? s = some (.server id fallback)) :
    ∃ rest, Reference.scanFunction? (Text.trimChars s.toList) = some (id.toList, rest) ∧
      fallback? rest = some fallback := by
  rw [read?] at read
  dsimp only at read
  split at read
  · cases read
  split at read
  · cases read
  split at read
  · cases read
  split at read
  · cases read
  split at read
  · cases read
  split at read
  · rcases Option.bind_eq_some_iff.mp read with ⟨⟨name, rest⟩, scanned, read⟩
    rcases Option.bind_eq_some_iff.mp read with ⟨behind, found, same⟩
    cases same
    exact ⟨rest, scanned.trans (by rw [String.toList_ofList]), found⟩
  · rcases Option.map_eq_some_iff.mp read with ⟨c, -, same⟩
    cases same

end Paint

end SlimSvg
