import SlimSvg.Proofs.Text.Trim

namespace SlimSvg
namespace Text

/-!
# Words and the blanks between them

A text is cut from the right to the left into the word that is being read and the
words behind it.  Words that are written with blanks between them are read again
as the same words.
-/

section Runs

variable {p : Char → Bool}

/-- The run at the front of a text, possibly empty, and the runs behind it. -/
def splitRuns (p : Char → Bool) (cs : List Char) : List Char × List (List Char) :=
  cs.foldr
    (fun c (word, out) =>
      if p c then ([], if word.isEmpty then out else word :: out)
      else (c :: word, out))
    ([], [])

/-- The runs of a text, given the one at its front. -/
def closeRun (parts : List Char × List (List Char)) : List (List Char) :=
  if parts.1.isEmpty then parts.2 else parts.1 :: parts.2

theorem runs_eq (p : Char → Bool) (cs : List Char) : runs p cs = closeRun (splitRuns p cs) :=
  rfl

theorem splitRuns_cons (c : Char) (cs : List Char) :
    splitRuns p (c :: cs) =
      if p c then ([], runs p cs) else (c :: (splitRuns p cs).1, (splitRuns p cs).2) :=
  rfl

theorem splitRuns_append {word : List Char} (solid : ∀ c ∈ word, p c = false) (cs : List Char) :
    splitRuns p (word ++ cs) = (word ++ (splitRuns p cs).1, (splitRuns p cs).2) := by
  induction word with
  | nil => rfl
  | cons c rest inductionHypothesis =>
      have here := solid c List.mem_cons_self
      have later := inductionHypothesis fun other listed => solid other (List.mem_cons_of_mem c listed)
      rw [List.cons_append, splitRuns_cons, here, later]
      rfl

theorem closeRun_of_ne_nil {word : List Char} (nonempty : word ≠ []) (out : List (List Char)) :
    closeRun (word, out) = word :: out := by
  rw [closeRun, if_neg]
  simpa using nonempty

/-- A word alone is the only run. -/
theorem runs_word {word : List Char} (nonempty : word ≠ []) (solid : ∀ c ∈ word, p c = false) :
    runs p word = [word] := by
  have split := splitRuns_append solid []
  rw [List.append_nil] at split
  rw [runs_eq, split]
  change closeRun (word ++ [], []) = [word]
  rw [List.append_nil, closeRun_of_ne_nil nonempty]

/-- A word ends at the blank behind it. -/
theorem runs_word_append {word : List Char} (nonempty : word ≠ [])
    (solid : ∀ c ∈ word, p c = false) {blank : Char} (isBlank : p blank = true) (cs : List Char) :
    runs p (word ++ blank :: cs) = word :: runs p cs := by
  rw [runs_eq, splitRuns_append solid, splitRuns_cons, if_pos isBlank]
  change closeRun (word ++ [], runs p cs) = _
  rw [List.append_nil, closeRun_of_ne_nil nonempty]

/-- Runs are not empty and hold no blank. -/
theorem solid_of_mem_runs {cs word : List Char} (listed : word ∈ runs p cs) :
    word ≠ [] ∧ ∀ c ∈ word, p c = false := by
  have parts : (∀ c ∈ (splitRuns p cs).1, p c = false) ∧
      ∀ word ∈ (splitRuns p cs).2, word ≠ [] ∧ ∀ c ∈ word, p c = false := by
    clear listed
    induction cs with
    | nil => exact ⟨List.forall_mem_nil _, List.forall_mem_nil _⟩
    | cons c cs inductionHypothesis =>
        rw [splitRuns_cons]
        split
        · refine ⟨List.forall_mem_nil _, ?_⟩
          rw [runs_eq, closeRun]
          split
          · exact inductionHypothesis.2
          · next solid =>
            rw [List.forall_mem_cons]
            refine ⟨⟨?_, inductionHypothesis.1⟩, inductionHypothesis.2⟩
            simpa using solid
        · next solid =>
          refine ⟨?_, inductionHypothesis.2⟩
          rw [List.forall_mem_cons]
          exact ⟨Bool.not_eq_true _ ▸ solid, inductionHypothesis.1⟩
  rw [runs_eq, closeRun] at listed
  split at listed
  · exact parts.2 word listed
  · next nonempty =>
    rcases List.mem_cons.mp listed with front | behind
    · rw [front]
      exact ⟨by simpa using nonempty, parts.1⟩
    · exact parts.2 word behind

/-! ## Blanks around the runs -/

theorem runs_blank_append {front : List Char} (blank : ∀ c ∈ front, p c = true) (cs : List Char) :
    runs p (front ++ cs) = runs p cs := by
  induction front with
  | nil => rfl
  | cons c rest inductionHypothesis =>
      rcases List.forall_mem_cons.mp blank with ⟨here, later⟩
      rw [List.cons_append, runs_eq, splitRuns_cons, if_pos here]
      exact inductionHypothesis later

theorem runs_append_blank (cs : List Char) {back : List Char} (blank : ∀ c ∈ back, p c = true) :
    runs p (cs ++ back) = runs p cs := by
  have nothing : splitRuns p back = ([], []) := by
    cases back with
    | nil => rfl
    | cons c rest =>
        rcases List.forall_mem_cons.mp blank with ⟨here, later⟩
        have none := runs_blank_append later []
        rw [List.append_nil] at none
        rw [splitRuns_cons, if_pos here, none]
        rfl
  have same : splitRuns p (cs ++ back) = splitRuns p cs := by
    rw [splitRuns, List.foldr_append]
    exact congrArg (fun start => List.foldr _ start cs) nothing
  rw [runs_eq, same, runs_eq]

/-- The first run of a text that does not begin with a blank begins with it. -/
theorem exists_run_of_front {c : Char} (solid : p c = false) (cs : List Char) :
    ∃ run ∈ runs p (c :: cs), c ∈ run.head? := by
  rw [runs_eq, splitRuns_cons, solid]
  exact ⟨c :: (splitRuns p cs).1, List.mem_cons_self, rfl⟩

/-- The last run of a text that does not end with a blank ends with it. -/
theorem exists_run_of_last {c : Char} (solid : p c = false) (cs : List Char) :
    ∃ run ∈ runs p (cs ++ [c]), c ∈ run.getLast? := by
  induction cs with
  | nil =>
      rw [List.nil_append, runs_eq, splitRuns_cons, solid]
      exact ⟨[c], List.mem_cons_self, rfl⟩
  | cons d rest inductionHypothesis =>
      rcases inductionHypothesis with ⟨run, listed, last⟩
      rw [List.cons_append, runs_eq, splitRuns_cons]
      split
      · exact ⟨run, listed, last⟩
      · rw [runs_eq, closeRun] at listed
        split at listed
        · exact ⟨run, List.mem_cons_of_mem _ listed, last⟩
        · rcases List.mem_cons.mp listed with front | behind
          · refine ⟨d :: run, by rw [front]; exact List.mem_cons_self, ?_⟩
            rw [List.getLast?_cons, Option.mem_def.mp last]
            rfl
          · exact ⟨run, List.mem_cons_of_mem _ behind, last⟩

/-- Trimming takes white space off a run only if the run begins or ends with it. -/
theorem runs_trimChars {cs : List Char} (tight : ∀ run ∈ runs p cs, Tight run) : runs p (trimChars cs) = runs p cs := by
  rcases exists_append_trimChars cs with ⟨front, back, whole, frontBlank, backBlank, -⟩
  have frontApart : ∀ c ∈ front, p c = true := by
    have nothing : front.dropWhile p = [] := by
      cases rest : front.dropWhile p with
      | nil => rfl
      | cons c later =>
          have solid : p c = false := by
            have first := List.head?_dropWhile_not p front
            rw [rest] at first
            exact first
          have frontEq : front.takeWhile p ++ c :: later = front := by
            rw [← rest, List.takeWhile_append_dropWhile]
          have start : cs = front.takeWhile p ++ c :: (later ++ (trimChars cs ++ back)) := by
            rw [← List.cons_append, ← List.append_assoc, frontEq, ← List.append_assoc]
            exact whole
          rcases exists_run_of_front solid (later ++ (trimChars cs ++ back)) with ⟨run, listed, first⟩
          rw [start, runs_blank_append fun d among => List.mem_takeWhile_imp among] at tight
          have wanted := (tight run listed).first c first
          rw [frontBlank c ((List.dropWhile_sublist p).subset (rest ▸ List.mem_cons_self))] at wanted
          cases wanted
    exact List.dropWhile_eq_nil_iff.mp nothing
  have backApart : ∀ c ∈ back, p c = true := by
    rcases exists_append_dropSuffix p back with ⟨blanks, backEq, blanksApart, last⟩
    have nothing : dropSuffix p back = [] := by
      rcases List.eq_nil_or_concat (dropSuffix p back) with none | ⟨before, c, split⟩
      · exact none
      · rw [List.concat_eq_append] at split
        have solid : p c = false := by
          refine last c ?_
          rw [split, List.getLast?_concat]
          rfl
        have ended : cs = (front ++ trimChars cs ++ before ++ [c]) ++ blanks := by
          rw [List.append_assoc _ before, ← split, List.append_assoc _ (dropSuffix p back), ← backEq]
          exact whole
        rcases exists_run_of_last solid (front ++ trimChars cs ++ before) with ⟨run, listed, ends⟩
        rw [ended, runs_append_blank _ blanksApart] at tight
        have wanted := (tight run listed).last _ ends
        have among : c ∈ back := by
          rw [backEq, split]
          exact List.mem_append_left _ List.mem_concat_self
        rw [backBlank c among] at wanted
        cases wanted
    rw [backEq, nothing]
    exact blanksApart
  have kept : runs p (front ++ trimChars cs ++ back) = runs p (trimChars cs) := by
    rw [runs_append_blank _ backApart, runs_blank_append frontApart]
  rw [← whole] at kept
  exact kept.symm

end Runs

/-! ## Words of texts -/

/-- Whether a text is a single word. -/
def IsWord (s : String) : Prop :=
  s.toList ≠ [] ∧ ∀ c ∈ s.toList, isCssSpace c = false

theorem isWord_of_mem_words {s word : String} (listed : word ∈ words s) : IsWord word := by
  rcases List.mem_map.mp listed with ⟨cs, run, same⟩
  rw [← same, IsWord, String.toList_ofList]
  exact solid_of_mem_runs run

/-- Words that are written with blanks between them are read as they were. -/
theorem words_intercalate {list : List String} (solid : ∀ word ∈ list, IsWord word) :
    words (" ".intercalate list) = list := by
  have cut : runs isCssSpace (" ".intercalate list).toList = list.map String.toList := by
    rw [String.toList_intercalate]
    induction list with
    | nil => rfl
    | cons word rest inductionHypothesis =>
        have here := solid word List.mem_cons_self
        have later := inductionHypothesis fun other listed =>
          solid other (List.mem_cons_of_mem word listed)
        cases rest with
        | nil =>
            simp only [List.map_cons, List.map_nil, List.intercalate_singleton]
            exact runs_word here.1 here.2
        | cons next rest =>
            rw [List.map_cons, List.map_cons, List.intercalate_cons_cons, List.append_assoc]
            have isBlank : isCssSpace ' ' = true := rfl
            have cutHere := runs_word_append here.1 here.2 isBlank
              (" ".toList.intercalate (next.toList :: rest.map String.toList))
            exact cutHere.trans (congrArg (word.toList :: ·) later)
  rw [words, cut, List.map_map]
  have restored : (String.ofList ∘ String.toList) = id := funext fun _ => String.ofList_toList
  rw [restored, List.map_id]

end Text
end SlimSvg
