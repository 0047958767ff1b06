import Mathlib.Data.List.Induction
import Mathlib.Data.List.Shortlex
import Mathlib.Data.Set.Operations
import SlimSvg.Proofs.Cleanup.ShortName

namespace SlimSvg
namespace Cleanup
namespace ShortName

/-!
# All names, in order

The names are all nonempty words over the letters, each of them once: shorter words go
first, and words of one length go in the order of the alphabet, in which the small letters
stand before the capital ones.  A word is found from its end.  Its last letter is the
remainder of its number, and the letters before it are the name with the quotient less one.
Where there are letters before it the quotient is not zero, so the number that is left is
the exact predecessor.

Numbers that are counted in a machine word end somewhere, and so do their names: they are
the words before the name of the first number that does not fit.
-/

/-! ## Letters -/

/-- The order of the alphabet: small letters before capital ones, and those of one kind by
their codes. -/
def Precedes (c d : Char) : Prop :=
  c.isLower = true ∧ d.isUpper = true ∨ c.isLower = d.isLower ∧ c < d

instance (c d : Char) : Decidable (Precedes c d) :=
  inferInstanceAs (Decidable (_ ∨ _))

/-- No letter is both small and capital, so the order goes one way only. -/
instance : Std.Asymm Precedes where
  asymm c d before after := by
    have apart (c : Char) (small : c.isLower = true) (capital : c.isUpper = true) : False := by
      unfold Char.isLower at small
      unfold Char.isUpper at capital
      simp only [Bool.and_eq_true, decide_eq_true_eq, UInt32.le_iff_toNat_le] at small capital
      have least : 97 ≤ c.val.toNat := small.1
      have most : c.val.toNat ≤ 90 := capital.2
      omega
    rcases before with ⟨small, capital⟩ | ⟨same, before⟩
    · rcases after with ⟨smallToo, -⟩ | ⟨same, -⟩
      · exact apart d smallToo capital
      · exact apart d (same.trans small) capital
    · rcases after with ⟨small, capital⟩ | ⟨-, after⟩
      · exact apart c (same.trans small) capital
      · exact Char.lt_asymm before after

theorem precedes_letter : ∀ j < letterCount, ∀ i < j, Precedes (letter i) (letter j) := by
  decide +kernel

theorem isAlpha_letter : ∀ i < letterCount, (letter i).isAlpha = true := by
  decide

theorem exists_letter_of_isAlpha {c : Char} (alpha : c.isAlpha = true) : ∃ i < letterCount, letter i = c := by
  unfold Char.isAlpha Char.isUpper Char.isLower at alpha
  simp only [Bool.or_eq_true, Bool.and_eq_true, decide_eq_true_eq, UInt32.le_iff_toNat_le] at alpha
  rcases alpha with ⟨least, most⟩ | ⟨least, most⟩
  · have capital : 65 ≤ c.toNat ∧ c.toNat ≤ 90 := ⟨least, most⟩
    refine ⟨c.toNat - 65 + 26, by unfold letterCount; omega, ?_⟩
    have code : 65 + (c.toNat - 65 + 26 - 26) = c.toNat := by omega
    rw [letter, if_neg (by omega)]
    exact (congrArg Char.ofNat code).trans c.ofNat_toNat
  · have small : 97 ≤ c.toNat ∧ c.toNat ≤ 122 := ⟨least, most⟩
    refine ⟨c.toNat - 97, by unfold letterCount; omega, ?_⟩
    have code : 97 + (c.toNat - 97) = c.toNat := by omega
    rw [letter, if_pos (by omega)]
    exact (congrArg Char.ofNat code).trans c.ofNat_toNat

/-! ## Words from their ends -/

/-- How a word is spelled for a number, letter by letter from its end.  Letters stand
before the last one only if the quotient has a predecessor, so nothing is ever taken away
from zero. -/
inductive Spelled : Nat → List Char → Prop
  | single {n : Nat} (short : n < letterCount) : Spelled n [letter n]
  | longer {n before : Nat} {cs : List Char} (exactly : n / letterCount = before + 1) (spelled : Spelled before cs) :
      Spelled n (cs ++ [letter (n % letterCount)])

theorem letters_of_lt {n : Nat} (short : n < letterCount) : letters n = [letter n] := by
  rw [letters, if_pos short]

/-- The letters with a number, if the quotient has a predecessor. -/
theorem letters_longer {n before : Nat} (exactly : n / letterCount = before + 1) :
    letters n = letters before ++ [letter (n % letterCount)] := by
  have long : ¬ n < letterCount := by
    intro short
    simp [Nat.div_eq_of_lt short] at exactly
  rw [letters, if_neg long, exactly, Nat.add_sub_cancel]

theorem exists_exactly {n : Nat} (long : ¬ n < letterCount) : ∃ before, n / letterCount = before + 1 := by
  have some : 0 < n / letterCount := Nat.div_pos (Nat.le_of_not_lt long) (by decide)
  exact ⟨n / letterCount - 1, by omega⟩

/-- The spelling of every number comes to its end, and it gives the letters of the name. -/
theorem spelled_iff (n : Nat) (cs : List Char) : Spelled n cs ↔ cs = letters n := by
  constructor
  · intro spelled
    induction spelled with
    | single short => rw [letters_of_lt short]
    | longer exactly _ inductionHypothesis => rw [letters_longer exactly, inductionHypothesis]
  · rintro rfl
    induction n using letters.induct with
    | case1 n short =>
        rw [letters_of_lt short]
        exact .single short
    | case2 n long inductionHypothesis =>
        obtain ⟨before, exactly⟩ := exists_exactly long
        rw [exactly, Nat.add_sub_cancel] at inductionHypothesis
        rw [letters_longer exactly]
        exact .longer exactly inductionHypothesis

/-- The letters of the name that has one more letter behind another name. -/
theorem letters_behind (before : Nat) {i : Nat} (inside : i < letterCount) :
    letters (letterCount * (before + 1) + i) = letters before ++ [letter i] := by
  have positive : 0 < letterCount := by decide
  have exactly : (letterCount * (before + 1) + i) / letterCount = before + 1 := by
    rw [Nat.mul_add_div positive, Nat.div_eq_of_lt inside, Nat.add_zero]
  rw [letters_longer exactly, Nat.mul_add_mod, Nat.mod_eq_of_lt inside]

/-- Every word over the letters is a name. -/
theorem exists_letters_eq {cs : List Char} (some : cs ≠ []) (alpha : ∀ c ∈ cs, c.isAlpha = true) :
    ∃ n, letters n = cs := by
  -- The induction takes letters away from the end, as the numbers do.
  induction cs using List.reverseRecOn with
  | nil => exact absurd rfl some
  | append_singleton cs c inductionHypothesis =>
      obtain ⟨i, inside, rfl⟩ := exists_letter_of_isAlpha (alpha c (by simp))
      by_cases alone : cs = []
      · refine ⟨i, ?_⟩
        rw [letters_of_lt inside, alone, List.nil_append]
      · obtain ⟨before, rfl⟩ := inductionHypothesis alone fun d listed => alpha d (by simp [listed])
        exact ⟨_, letters_behind before inside⟩

/-! ## The order of words -/

section Order

variable {α : Type} {r : α → α → Prop} {s t : List α}

/-- Of words with one length, what stands behind them does not change their order. -/
theorem lex_append_of_length_eq (less : List.Lex r s t) (same : s.length = t.length) (more others : List α) :
    List.Lex r (s ++ more) (t ++ others) := by
  induction less with
  | nil => simp at same
  | cons _ inductionHypothesis => exact .cons (inductionHypothesis (Nat.succ.inj same))
  | rel before => exact .rel before

theorem shortlex_append_singleton (less : List.Shortlex r s t) (a b : α) :
    List.Shortlex r (s ++ [a]) (t ++ [b]) := by
  rcases List.shortlex_def.mp less with shorter | ⟨same, less⟩
  · exact .of_length_lt (by simpa using shorter)
  · exact .of_lex (by simpa using same) (lex_append_of_length_eq less same [a] [b])

end Order

/-- The letters of a smaller number stand before those of a larger one. -/
theorem shortlex_letters {m n : Nat} (less : m < n) : List.Shortlex Precedes (letters m) (letters n) := by
  induction n using letters.induct generalizing m with
  | case1 n short =>
      rw [letters_of_lt short, letters_of_lt (Nat.lt_trans less short)]
      exact .of_lex rfl (.rel (precedes_letter n short m less))
  | case2 n long inductionHypothesis =>
      obtain ⟨after, exactly⟩ := exists_exactly long
      rw [exactly, Nat.add_sub_cancel] at inductionHypothesis
      rw [letters_longer exactly]
      by_cases short : m < letterCount
      · rw [letters_of_lt short]
        exact .of_length_lt (by simp [List.length_pos_iff, letters_ne_nil])
      · obtain ⟨before, exactlyToo⟩ := exists_exactly short
        rw [letters_longer exactlyToo]
        have ordered : before ≤ after := by
          have quotients := Nat.div_le_div_right (c := letterCount) (Nat.le_of_lt less)
          omega
        rcases Nat.eq_or_lt_of_le ordered with rfl | earlier
        · -- Both words begin alike, and their last letters decide.
          have wholes := And.intro (Nat.div_add_mod m letterCount) (Nat.div_add_mod n letterCount)
          rw [exactly, exactlyToo] at wholes
          have last : m % letterCount < n % letterCount := by omega
          have inside : n % letterCount < letterCount := Nat.mod_lt _ (by decide)
          refine .of_lex (by simp) (List.Lex.append_left Precedes (.rel ?_) (letters before))
          exact precedes_letter _ inside _ last
        · exact shortlex_append_singleton (inductionHypothesis earlier) _ _

/-- A name that stands before another one has the smaller number. -/
theorem shortlex_letters_iff {m n : Nat} : List.Shortlex Precedes (letters m) (letters n) ↔ m < n := by
  refine ⟨fun before => ?_, shortlex_letters⟩
  rcases Nat.lt_trichotomy m n with less | rfl | greater
  · exact less
  · exact absurd before (Std.Asymm.asymm _ _ before)
  · exact absurd before (Std.Asymm.asymm _ _ (shortlex_letters greater))

/-- As many letters are enough as a number has digits. -/
theorem length_letters_le {n k : Nat} (small : n < letterCount ^ (k + 1)) : (letters n).length ≤ k + 1 := by
  induction k generalizing n with
  | zero =>
      rw [Nat.zero_add, Nat.pow_one] at small
      simp [letters_of_lt small]
  | succ k inductionHypothesis =>
      by_cases short : n < letterCount
      · simp [letters_of_lt short]
      · obtain ⟨before, exactly⟩ := exists_exactly short
        have quotient : n / letterCount < letterCount ^ (k + 1) :=
          Nat.div_lt_of_lt_mul (by rwa [Nat.pow_succ'] at small)
        rw [letters_longer exactly, List.length_append, List.length_singleton]
        exact Nat.succ_le_succ (inductionHypothesis (by omega))

/-! ## The names -/

theorem toList_nth (n : Nat) : (nth n).toList = letters n :=
  String.toList_ofList

/-- No word is left out: wherever the numbers end, their names are all words before the name
that would be next. -/
theorem image_nth_Iio (limit : Nat) :
    nth '' Set.Iio limit =
      {s | s ≠ "" ∧ (∀ c ∈ s.toList, c.isAlpha = true) ∧ List.Shortlex Precedes s.toList (nth limit).toList} := by
  ext s
  rw [Set.mem_ofPred_eq, toList_nth]
  constructor
  · rintro ⟨n, below, rfl⟩
    rw [toList_nth]
    refine ⟨fun empty => letters_ne_nil n ?_, fun c listed => ?_, shortlex_letters below⟩
    · rw [← toList_nth, empty, String.toList_empty]
    · obtain ⟨i, inside, rfl⟩ := exists_letter_of_mem_letters n listed
      exact isAlpha_letter i inside
  · rintro ⟨some, alpha, before⟩
    obtain ⟨n, same⟩ := exists_letters_eq (fun empty => some (String.toList_eq_nil_iff.mp empty)) alpha
    rw [← same] at before
    exact ⟨n, shortlex_letters_iff.mp before, String.toList_injective ((toList_nth n).trans same)⟩

theorem range_toNat : Set.range USize.toNat = Set.Iio USize.size := by
  ext n
  constructor
  · rintro ⟨word, rfl⟩
    exact word.toNat_lt_size
  · intro below
    exact ⟨USize.ofNatLT n below, USize.toNat_ofNatLT⟩

/-- The names are nonempty words over the letters, each of them once and from the shortest
on.  Every name is found after finitely many letters without a number below zero, and the
name of a smaller number is shorter, or as long and earlier in the alphabet.  Machine words
name all words before the one that the first number too large for them would name, and so do
the numbers below any other limit. -/
theorem nth_enumerates :
    (∀ n cs, Spelled n cs ↔ cs = (nth n).toList) ∧ Function.Injective nth ∧
      (Set.range fun n : USize => nth n.toNat) =
        {s | s ≠ "" ∧ (∀ c ∈ s.toList, c.isAlpha = true) ∧
          List.Shortlex Precedes s.toList (nth USize.size).toList} ∧
      (∀ limit, nth '' Set.Iio limit =
        {s | s ≠ "" ∧ (∀ c ∈ s.toList, c.isAlpha = true) ∧ List.Shortlex Precedes s.toList (nth limit).toList}) ∧
      ∀ m n, m < n → List.Shortlex Precedes (nth m).toList (nth n).toList := by
  refine ⟨?_, fun _ _ => nth_injective, ?_, image_nth_Iio, ?_⟩
  · intro n cs
    rw [toList_nth]
    exact spelled_iff n cs
  · rw [← image_nth_Iio, ← range_toNat, ← Set.range_comp]
    rfl
  · intro m n less
    rw [toList_nth, toList_nth]
    exact shortlex_letters less

/-- Machine words do not number all words: even with 64 bits, no number is left for one of
thirteen letters. -/
theorem thirteen_letters_are_no_name :
    "aaaaaaaaaaaaa" ≠ "" ∧ (∀ c ∈ "aaaaaaaaaaaaa".toList, c.isAlpha = true) ∧
      ∀ n : USize, nth n.toNat ≠ "aaaaaaaaaaaaa" := by
  refine ⟨by decide, List.all_eq_true.mp (by decide), fun n named => ?_⟩
  have small : n.toNat < letterCount ^ (11 + 1) := calc
    n.toNat < 2 ^ 64 := n.toNat_lt
    _ ≤ letterCount ^ (11 + 1) := by decide
  have short := length_letters_le small
  have thirteen : (letters n.toNat).length = 13 := by
    rw [← toList_nth]
    exact congrArg (·.toList.length) named
  omega

example : [0, 25, 26, 51, 52, 103, 104].map nth = ["a", "z", "A", "Z", "aa", "aZ", "ba"] := by
  decide +kernel

end ShortName

end Cleanup
end SlimSvg
