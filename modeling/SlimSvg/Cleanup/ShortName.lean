namespace SlimSvg
namespace Cleanup

/-!
# Short names

The names over the 52 letters are counted from the shortest on, names of one
length in the order of the letters: `a` to `z`, `A` to `Z`, `aa`, `ab` and so
on.  Names that must not be used are passed over, so what is named first gets
the shortest name that is free.
-/

namespace ShortName

def letterCount : Nat := 52

/-- The letters by their places, small letters first. -/
def letter (i : Nat) : Char :=
  if i < 26 then Char.ofNat ('a'.toNat + i) else Char.ofNat ('A'.toNat + (i - 26))

/-- The letters of the name with a number.  Names that are longer by one letter
begin where all shorter ones end, hence the subtraction. -/
def letters (n : Nat) : List Char :=
  if n < letterCount then [letter n]
  else letters (n / letterCount - 1) ++ [letter (n % letterCount)]
termination_by n
decreasing_by
  unfold letterCount at *
  omega

/-- The name with a number.  Numbers go up by one for each name that is asked for, so none of
them comes near the end of a machine word, and there is no bound for them here. -/
def nth (n : Nat) : String :=
  String.ofList (letters n)

/-- The first number from `n` on whose name is not taken.  Different numbers have
different names, so as many steps as there are taken names are enough. -/
def freeFrom (taken : List String) : (steps n : Nat) → Nat
  | 0, n => n
  | steps + 1, n => if taken.contains (nth n) then freeFrom taken steps (n + 1) else n

/-- Give free names to old ones, in their order, from the name with number `n`
on. -/
def assign (taken : List String) : (n : Nat) → List String → List (String × String)
  | _, [] => []
  | n, old :: rest =>
    let free := freeFrom taken taken.length n
    (old, nth free) :: assign taken (free + 1) rest

/-- Every old name gets one new name. -/
theorem map_fst_assign (taken : List String) (n : Nat) (old : List String) :
    (assign taken n old).map Prod.fst = old := by
  induction old generalizing n with
  | nil => rfl
  | cons name rest ih => simp [assign, ih]

end ShortName

end Cleanup
end SlimSvg
