import Mathlib.Data.List.Nodup
import Mathlib.Data.List.Perm.Subperm
import SlimSvg.Cleanup.ShortName

namespace SlimSvg
namespace Cleanup
namespace ShortName

/-!
# Short names do not run out

A name tells its number, so different numbers have different names.  Of more
names than are taken one is free, and the search for a free name, which counts
its steps, ends where a search without a limit would end.  What is assigned is
therefore free, and no name is assigned twice.
-/

/-! ## Numbers and names -/

/-- The place of a letter among all letters, from one on. -/
def digit (c : Char) : Nat :=
  if c.isUpper then c.toNat - 'A'.toNat + 27 else c.toNat - 'a'.toNat + 1

/-- The number that letters stand for as digits. -/
def value (cs : List Char) : Nat :=
  cs.foldl (fun n c => letterCount * n + digit c) 0

theorem digit_letter : ∀ i < letterCount, digit (letter i) = i + 1 := by
  decide

theorem value_append_singleton (cs : List Char) (c : Char) :
    value (cs ++ [c]) = letterCount * value cs + digit c := by
  simp [value]

theorem value_letters (n : Nat) : value (letters n) = n + 1 := by
  induction n using letters.induct with
  | case1 n short =>
      rw [letters, if_pos short]
      simp [value, digit_letter n short]
  | case2 n long inductionHypothesis =>
      have inside : n % letterCount < letterCount := Nat.mod_lt _ (by decide)
      have parts := Nat.div_add_mod n letterCount
      have above : 1 ≤ n / letterCount := by
        simp only [letterCount] at long ⊢
        omega
      rw [letters, if_neg long, value_append_singleton, inductionHypothesis,
        digit_letter _ inside, Nat.sub_add_cancel above]
      omega

/-- Different numbers have different names. -/
theorem nth_injective {m n : Nat} (same : nth m = nth n) : m = n := by
  have letterEq : letters m = letters n := String.ofList_injective same
  have valueEq := congrArg value letterEq
  rw [value_letters, value_letters] at valueEq
  exact Nat.succ_inj.mp valueEq

theorem letters_ne_nil (n : Nat) : letters n ≠ [] := by
  rw [letters]
  split
  · exact List.cons_ne_nil _ _
  · exact List.append_ne_nil_of_right_ne_nil _ (List.cons_ne_nil _ _)

theorem exists_letter_of_mem_letters {c : Char} (n : Nat) (listed : c ∈ letters n) :
    ∃ i < letterCount, c = letter i := by
  induction n using letters.induct with
  | case1 n short =>
      rw [letters, if_pos short] at listed
      exact ⟨n, short, List.mem_singleton.mp listed⟩
  | case2 n long inductionHypothesis =>
      rw [letters, if_neg long] at listed
      rcases List.mem_append.mp listed with before | last
      · exact inductionHypothesis before
      · exact ⟨n % letterCount, Nat.mod_lt _ (by decide), List.mem_singleton.mp last⟩

/-! ## The first free name -/

/-- Whether a number is the first one from another number on whose name is free. -/
structure FirstFree (taken : List String) (n m : Nat) : Prop where
  le : n ≤ m
  free : nth m ∉ taken
  first : ∀ k, n ≤ k → k < m → nth k ∈ taken

/-- More names than are taken cannot all be taken. -/
theorem exists_free (taken : List String) (n : Nat) :
    ∃ k, n ≤ k ∧ k ≤ n + taken.length ∧ nth k ∉ taken := by
  by_contra none
  push Not at none
  have distinct : ((List.range' n (taken.length + 1)).map nth).Nodup :=
    List.Nodup.map (fun _ _ => nth_injective) List.nodup_range'
  have included : (List.range' n (taken.length + 1)).map nth ⊆ taken := by
    intro name listed
    rcases List.mem_map.mp listed with ⟨k, inRange, named⟩
    have bounds := List.mem_range'_1.mp inRange
    rw [← named]
    exact none k bounds.1 (by omega)
  have atMost := (List.Nodup.subperm distinct included).length_le
  rw [List.length_map, List.length_range'] at atMost
  exact absurd atMost (Nat.not_succ_le_self _)

/-- The search stops at the first free name, or after its last step. -/
theorem freeFrom_spec (taken : List String) (steps n : Nat) :
    n ≤ freeFrom taken steps n ∧
      (∀ k, n ≤ k → k < freeFrom taken steps n → nth k ∈ taken) ∧
      (nth (freeFrom taken steps n) ∉ taken ∨ freeFrom taken steps n = n + steps) := by
  induction steps generalizing n with
  | zero =>
      refine ⟨Nat.le_refl n, ?_, Or.inr rfl⟩
      intro k above below
      exact absurd below (Nat.not_lt_of_le above)
  | succ steps inductionHypothesis =>
      unfold freeFrom
      split
      · next occupied =>
        have later := inductionHypothesis (n + 1)
        refine ⟨Nat.le_of_succ_le later.1, ?_, ?_⟩
        · intro k above below
          rcases Nat.eq_or_lt_of_le above with here | behind
          · rw [← here]
            exact List.contains_iff_mem.mp occupied
          · exact later.2.1 k behind below
        · rcases later.2.2 with free | last
          · exact Or.inl free
          · right
            rw [last]
            omega
      · next free =>
        refine ⟨Nat.le_refl n, ?_, Or.inl ?_⟩
        · intro k above below
          exact absurd below (Nat.not_lt_of_le above)
        · intro listed
          exact free (List.contains_iff_mem.mpr listed)

/-- As many steps as there are taken names are enough: the search ends where it
would end without a limit. -/
theorem firstFree_freeFrom (taken : List String) (n : Nat) :
    FirstFree taken n (freeFrom taken taken.length n) := by
  rcases freeFrom_spec taken taken.length n with ⟨above, before, free | last⟩
  · exact ⟨above, free, before⟩
  · refine ⟨above, ?_, before⟩
    rcases exists_free taken n with ⟨k, kAbove, kBelow, kFree⟩
    rcases Nat.eq_or_lt_of_le kBelow with atEnd | inside
    · rw [last, ← atEnd]
      exact kFree
    · exact absurd (before k kAbove (by omega)) kFree

/-! ## Assigned names -/

theorem exists_number_of_mem_assign {taken : List String} {n : Nat} {old : List String}
    {pair : String × String} (assigned : pair ∈ assign taken n old) :
    ∃ m, n ≤ m ∧ pair.2 = nth m ∧ nth m ∉ taken := by
  induction old generalizing n with
  | nil => simp [assign] at assigned
  | cons name rest inductionHypothesis =>
      have search := firstFree_freeFrom taken n
      rcases List.mem_cons.mp assigned with here | later
      · exact ⟨_, search.le, congrArg Prod.snd here, search.free⟩
      · rcases inductionHypothesis later with ⟨m, above, named, free⟩
        exact ⟨m, Nat.le_trans search.le (Nat.le_of_succ_le above), named, free⟩

/-- Assigned names are free. -/
theorem notMem_taken_of_mem_assign {taken : List String} {n : Nat} {old : List String}
    {pair : String × String} (assigned : pair ∈ assign taken n old) : pair.2 ∉ taken := by
  rcases exists_number_of_mem_assign assigned with ⟨m, -, named, free⟩
  rw [named]
  exact free

/-- No name is assigned twice. -/
theorem nodup_map_snd_assign (taken : List String) (n : Nat) (old : List String) :
    ((assign taken n old).map Prod.snd).Nodup := by
  induction old generalizing n with
  | nil => exact List.nodup_nil
  | cons name rest inductionHypothesis =>
      refine List.nodup_cons.mpr ⟨?_, inductionHypothesis _⟩
      intro again
      rcases List.mem_map.mp again with ⟨pair, later, same⟩
      rcases exists_number_of_mem_assign later with ⟨m, above, named, -⟩
      have numberEq := nth_injective (named.symm.trans same)
      omega

end ShortName

end Cleanup
end SlimSvg
