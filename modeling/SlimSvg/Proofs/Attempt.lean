namespace SlimSvg

/-!
# Steps that may be refused

A line of steps succeeds exactly if each of them does.  These lemmas take a
success apart, so that no later proof looks into the monad of failures.
-/

variable {ε α β : Type}

theorem bind_eq_ok {step : Except ε α} {next : α → Except ε β} {b : β} :
    (step >>= next) = .ok b ↔ ∃ a, step = .ok a ∧ next a = .ok b := by
  cases step with
  | error e =>
      constructor
      · intro failed
        cases failed
      · rintro ⟨a, succeeded, -⟩
        cases succeeded
  | ok a =>
      constructor
      · exact fun succeeded => ⟨a, rfl, succeeded⟩
      · rintro ⟨other, same, succeeded⟩
        rw [Except.ok.inj same]
        exact succeeded

theorem pure_eq_ok {a b : α} : (pure a : Except ε α) = .ok b ↔ a = b :=
  ⟨Except.ok.inj, congrArg Except.ok⟩

theorem map_eq_ok {step : Except ε α} {f : α → β} {b : β} :
    step.map f = .ok b ↔ ∃ a, step = .ok a ∧ f a = b := by
  cases step with
  | error e =>
      constructor
      · intro impossible
        cases impossible
      · rintro ⟨a, impossible, -⟩
        cases impossible
  | ok a =>
      constructor
      · exact fun same => ⟨a, rfl, Except.ok.inj same⟩
      · rintro ⟨other, same, result⟩
        rw [Except.ok.inj same]
        exact congrArg Except.ok result

theorem bind_pure_eq_map (step : Except ε α) (f : α → β) :
    (step >>= fun a => pure (f a)) = step.map f := by
  cases step with
  | error e => rfl
  | ok a => rfl

theorem toOption_eq_some {step : Except ε α} {a : α} : step.toOption = some a ↔ step = .ok a := by
  cases step with
  | error e =>
      constructor
      · intro impossible
        cases impossible
      · intro impossible
        cases impossible
  | ok b => exact ⟨fun same => congrArg Except.ok (Option.some.inj same),
      fun same => congrArg some (Except.ok.inj same)⟩

/-- Behind a test that refuses, the test was false. -/
theorem unless_refused_eq_ok {refused : Prop} [Decidable refused] {e : ε} {next : α → Except ε β}
    {rest : Except ε β} {b : β} :
    (if refused then throw e >>= next else rest) = .ok b ↔ ¬ refused ∧ rest = .ok b := by
  split
  · next holds =>
    constructor
    · intro impossible
      cases impossible
    · exact fun accepted => absurd holds accepted.1
  · next fails => exact ⟨fun succeeded => ⟨fails, succeeded⟩, fun accepted => accepted.2⟩

/-- Every result of a line of steps comes from one of its items. -/
theorem exists_of_mem_of_mapM_eq_ok {f : α → Except ε β} {items : List α} {results : List β}
    (succeeded : items.mapM f = .ok results) {result : β} (listed : result ∈ results) :
    ∃ item ∈ items, f item = .ok result := by
  induction items generalizing results with
  | nil =>
      rw [List.mapM_nil, pure_eq_ok] at succeeded
      rw [← succeeded] at listed
      cases listed
  | cons item rest inductionHypothesis =>
      rw [List.mapM_cons, bind_eq_ok] at succeeded
      obtain ⟨first, firstOk, remaining⟩ := succeeded
      obtain ⟨others, othersOk, same⟩ := bind_eq_ok.mp remaining
      rw [← pure_eq_ok.mp same] at listed
      rcases List.mem_cons.mp listed with here | later
      · exact ⟨item, List.mem_cons_self, here ▸ firstOk⟩
      · obtain ⟨other, among, otherOk⟩ := inductionHypothesis othersOk later
        exact ⟨other, List.mem_cons_of_mem item among, otherOk⟩

/-- What each step carries over from its item, the line carries over. -/
theorem map_eq_of_mapM_eq_ok {γ : Type} {f : α → Except ε β} {items : List α} {results : List β}
    (succeeded : items.mapM f = .ok results) {of : β → γ} (source : α → γ)
    (carried : ∀ item result, f item = .ok result → of result = source item) :
    results.map of = items.map source := by
  induction items generalizing results with
  | nil =>
      rw [List.mapM_nil, pure_eq_ok] at succeeded
      rw [← succeeded]
      rfl
  | cons item rest inductionHypothesis =>
      rw [List.mapM_cons, bind_eq_ok] at succeeded
      obtain ⟨first, firstOk, remaining⟩ := succeeded
      obtain ⟨others, othersOk, same⟩ := bind_eq_ok.mp remaining
      rw [← pure_eq_ok.mp same, List.map_cons, List.map_cons, carried item first firstOk,
        inductionHypothesis othersOk]

/-- If the steps of some items may be left out, so may their results. -/
theorem mapM_filter_eq_ok {f g : α → Except ε β} {items : List α} {results : List β}
    (succeeded : items.mapM f = .ok results) {keep : α → Bool} {kept : β → Bool}
    (carried : ∀ item ∈ items, ∀ result, f item = .ok result →
      kept result = keep item ∧ (keep item = true → g item = .ok result)) :
    (items.filter keep).mapM g = .ok (results.filter kept) := by
  induction items generalizing results with
  | nil =>
      rw [List.mapM_nil, pure_eq_ok] at succeeded
      rw [← succeeded]
      rfl
  | cons item rest inductionHypothesis =>
      rw [List.mapM_cons, bind_eq_ok] at succeeded
      obtain ⟨first, firstOk, remaining⟩ := succeeded
      obtain ⟨others, othersOk, same⟩ := bind_eq_ok.mp remaining
      obtain ⟨keptEq, again⟩ := carried item List.mem_cons_self first firstOk
      have later := inductionHypothesis othersOk fun other listed =>
        carried other (List.mem_cons_of_mem item listed)
      rw [← pure_eq_ok.mp same, List.filter_cons, List.filter_cons, keptEq]
      split
      · next keeps =>
        rw [List.mapM_cons, bind_eq_ok]
        exact ⟨first, again keeps, bind_eq_ok.mpr ⟨others.filter kept, later, rfl⟩⟩
      · exact later

end SlimSvg
