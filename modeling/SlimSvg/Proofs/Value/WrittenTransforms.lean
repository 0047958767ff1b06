import Mathlib.Analysis.SpecialFunctions.Trigonometric.Basic
import Mathlib.LinearAlgebra.Matrix.Notation
import SlimSvg.Proofs.Value.WrittenNumbers

namespace SlimSvg

/-!
# Written transform lists

A transform list is read as primitive steps, and a rotation between two opposite moves is
put together as one about a point.  Which steps are put together depends on where the scan
stands, and a written function leaves out the arguments that can be found again.  Neither
matters to the plane: taken apart again, a list has the steps that were read, up to moves by
nothing, and so has the list that is read from what is written for it.
-/

open Number

/-! ## Exact numbers -/

namespace Number.Binary

/-- The exact value of a finite number. -/
def exact : Binary → ℚ
  | finite negative m e => (if negative then -1 else 1) * (m * 2 ^ e)
  | _ => 0

/-- Whether a number is a finite number of the format. -/
def IsExact (x : Binary) : Prop :=
  x.Fits double ∧ x.isFinite = true

theorem exact_neg (x : Binary) : x.neg.exact = -x.exact := by
  cases x with
  | nan => exact neg_zero.symm
  | infinite => exact neg_zero.symm
  | finite negative m e => cases negative <;> simp [neg, exact]

theorem exact_of_isZero {x : Binary} (zero : x.isZero = true) : x.exact = 0 := by
  unfold isZero at zero
  split at zero
  · simp [exact]
  · cases zero

theorem exact_said (x : Binary) : x.said.exact = x.exact := by
  cases x with
  | nan => simp [said, Binary.zero, exact]
  | infinite => simp [said, Binary.zero, exact]
  | finite negative m e =>
      rw [said]
      split
      · next zero => simp [Binary.zero, exact, zero]
      · rfl

/-- Equal numbers are both zero or the same. -/
theorem eq_iff {x y : Binary} (number : x ≠ .nan) :
    x.eq y = true ↔ x.isZero = true ∧ y.isZero = true ∨ x = y := by
  cases x with
  | nan => exact absurd rfl number
  | infinite s =>
      cases y with
      | nan => simp [Binary.eq, isZero]
      | infinite t => simp [Binary.eq, isZero]
      | finite => simp [Binary.eq, isZero]
  | finite s m e =>
      cases y with
      | nan => simp [Binary.eq, isZero]
      | infinite t => simp [Binary.eq, isZero]
      | finite => simp [Binary.eq]

theorem exact_of_eq {x y : Binary} (equal : x.eq y = true) : x.exact = y.exact := by
  have number : x ≠ .nan := by
    rintro rfl
    cases equal
  rcases (eq_iff number).mp equal with ⟨xZero, yZero⟩ | same
  · rw [exact_of_isZero xZero, exact_of_isZero yZero]
  · rw [same]

section Said

variable {x y : Binary}

theorem said_of_isZero (zero : x.isZero = true) : x.said = Binary.zero false := by
  unfold isZero at zero
  split at zero
  · rfl
  · cases zero

theorem said_of_not_isZero (finite : x.isFinite = true) (nonzero : ¬ x.isZero = true) : x.said = x := by
  cases x with
  | nan => cases finite
  | infinite => cases finite
  | finite negative m e =>
      refine if_neg fun zero => nonzero ?_
      rw [zero]
      rfl

theorem isZero_said (finite : x.isFinite = true) : x.said.isZero = x.isZero := by
  by_cases zero : x.isZero = true
  · rw [said_of_isZero zero, zero]
    rfl
  · rw [said_of_not_isZero finite zero]

theorem isZero_neg (x : Binary) : x.neg.isZero = x.isZero := by
  cases x with
  | nan => rfl
  | infinite => rfl
  | finite s m e => cases m <;> rfl

theorem isFinite_neg (x : Binary) : x.neg.isFinite = x.isFinite := by
  cases x <;> rfl

/-- Two finite numbers are equal exactly if the same is said for both. -/
theorem eq_iff_said (xFinite : x.isFinite = true) (yFinite : y.isFinite = true) :
    x.eq y = true ↔ x.said = y.said := by
  have number : x ≠ .nan := by
    rintro rfl
    cases xFinite
  rw [eq_iff number]
  by_cases xZero : x.isZero = true
  · by_cases yZero : y.isZero = true
    · rw [said_of_isZero xZero, said_of_isZero yZero]
      exact iff_of_true (.inl ⟨xZero, yZero⟩) rfl
    · rw [said_of_isZero xZero, said_of_not_isZero yFinite yZero]
      refine iff_of_false ?_ ?_
      · rintro (⟨-, zero⟩ | rfl)
        · exact yZero zero
        · exact yZero xZero
      · rintro rfl
        exact yZero rfl
  · rw [said_of_not_isZero xFinite xZero]
    by_cases yZero : y.isZero = true
    · rw [said_of_isZero yZero]
      refine iff_of_false ?_ ?_
      · rintro (⟨zero, -⟩ | rfl)
        · exact xZero zero
        · exact xZero yZero
      · rintro rfl
        exact xZero rfl
    · rw [said_of_not_isZero yFinite yZero]
      exact or_iff_right fun zeros => xZero zeros.1

theorem isExact_zero : (Binary.zero false).IsExact :=
  ⟨.inl ⟨rfl, rfl⟩, rfl⟩

theorem IsExact.neg (exact : x.IsExact) : x.neg.IsExact := by
  cases x with
  | nan => exact exact
  | infinite => exact absurd exact.2 Bool.false_ne_true
  | finite => exact exact

theorem IsExact.said (exact : x.IsExact) : x.said.IsExact := by
  by_cases zero : x.isZero = true
  · rw [said_of_isZero zero]
    exact isExact_zero
  · rw [said_of_not_isZero exact.2 zero]
    exact exact

theorem said_said (finite : x.isFinite = true) : x.said.said = x.said :=
  (eq_iff_said (isFinite_said x) finite).mp (said_eq finite)

theorem said_neg_said (finite : x.isFinite = true) : x.said.neg.said = x.neg.said := by
  by_cases zero : x.isZero = true
  · rw [said_of_isZero zero, said_of_isZero ((isZero_neg x).trans zero)]
    rfl
  · rw [said_of_not_isZero finite zero]

end Said

end Number.Binary

/-! ## Exact steps -/

/-- A primitive step of a transform list with exact numbers. -/
inductive Motion where
  | matrix (a b c d e f : ℚ)
  | translate (tx ty : ℚ)
  | scale (sx sy : ℚ)
  | rotate (angle : ℚ)
  | skewX (angle : ℚ)
  | skewY (angle : ℚ)
deriving DecidableEq

namespace Motion

/-- The steps without moves by nothing. -/
def moving (steps : List Motion) : List Motion :=
  steps.filter (· != translate 0 0)

theorem moving_append (first second : List Motion) : moving (first ++ second) = moving first ++ moving second :=
  List.filter_append first second

theorem moving_cons (step : Motion) (steps : List Motion) : moving (step :: steps) = moving [step] ++ moving steps :=
  moving_append [step] steps

/-- The angle in radians. -/
noncomputable def radians (angle : ℚ) : ℝ :=
  angle * (Real.pi / 180)

/-- The map of the plane in homogeneous coordinates.  Angles are in degrees. -/
noncomputable def toMatrix : Motion → Matrix (Fin 3) (Fin 3) ℝ
  | matrix a b c d e f => !![a, c, e; b, d, f; 0, 0, 1]
  | translate tx ty => !![1, 0, tx; 0, 1, ty; 0, 0, 1]
  | scale sx sy => !![sx, 0, 0; 0, sy, 0; 0, 0, 1]
  | rotate angle =>
    !![Real.cos (radians angle), -Real.sin (radians angle), 0;
      Real.sin (radians angle), Real.cos (radians angle), 0; 0, 0, 1]
  | skewX angle => !![1, Real.tan (radians angle), 0; 0, 1, 0; 0, 0, 1]
  | skewY angle => !![1, 0, 0; Real.tan (radians angle), 1, 0; 0, 0, 1]

/-- The map that a list of steps stands for. -/
noncomputable def composed (steps : List Motion) : Matrix (Fin 3) (Fin 3) ℝ :=
  (steps.map toMatrix).prod

theorem toMatrix_translate_zero : toMatrix (translate 0 0) = 1 := by
  ext i j
  fin_cases i <;> fin_cases j <;> simp [toMatrix]

theorem composed_cons (step : Motion) (steps : List Motion) :
    composed (step :: steps) = step.toMatrix * composed steps :=
  List.prod_cons

/-- Moves by nothing change nothing. -/
theorem composed_moving (steps : List Motion) : composed (moving steps) = composed steps := by
  induction steps with
  | nil => rfl
  | cons step rest inductionHypothesis =>
      rw [composed_cons, ← inductionHypothesis]
      by_cases still : step = translate 0 0
      · rw [still, toMatrix_translate_zero, one_mul]
        rfl
      · have kept : moving (step :: rest) = step :: moving rest :=
          List.filter_cons_of_pos (by simpa using still)
        rw [kept, composed_cons]

/-- The composed map depends on the moving steps only. -/
theorem composed_congr {first second : List Motion} (same : moving first = moving second) :
    composed first = composed second := by
  rw [← composed_moving first, same, composed_moving]

end Motion

namespace TransformItem

/-- The step that a primitive function is. -/
def motion : TransformItem → Motion
  | matrix a b c d e f => .matrix a.exact b.exact c.exact d.exact e.exact f.exact
  | translate tx ty => .translate tx.exact ty.exact
  | scale sx sy => .scale sx.exact sy.exact
  | rotate angle _ _ => .rotate angle.exact
  | skewX angle => .skewX angle.exact
  | skewY angle => .skewY angle.exact

/-- The steps that a function is: a rotation about a point moves the point into the origin
and back. -/
def expand : TransformItem → List Motion
  | rotate angle cx cy =>
    [.translate cx.exact cy.exact, .rotate angle.exact, .translate (-cx.exact) (-cy.exact)]
  | item => [item.motion]

/-- The numbers of a function. -/
def numbers : TransformItem → List Binary
  | matrix a b c d e f => [a, b, c, d, e, f]
  | translate tx ty => [tx, ty]
  | scale sx sy => [sx, sy]
  | rotate angle cx cy => [angle, cx, cy]
  | skewX angle => [angle]
  | skewY angle => [angle]

/-- Whether a function has finite numbers of the format only. -/
def IsExact (item : TransformItem) : Prop :=
  ∀ x ∈ item.numbers, x.IsExact

/-- Whether a function is no rotation about a point other than the origin. -/
def IsCentred : TransformItem → Prop
  | rotate _ cx cy => cx.isZero = true ∧ cy.isZero = true
  | _ => True

/-- Whether a function is a primitive step with exact numbers. -/
def IsPrimitive (item : TransformItem) : Prop :=
  item.IsExact ∧ item.IsCentred

theorem isPrimitive_iff {item : TransformItem} :
    item.IsPrimitive ↔ (∀ x ∈ item.numbers, x.IsExact) ∧ item.IsCentred :=
  Iff.rfl

theorem moving_expand {item : TransformItem} (centred : item.IsCentred) :
    Motion.moving item.expand = Motion.moving [item.motion] := by
  cases item with
  | rotate angle cx cy =>
      rw [expand, Binary.exact_of_isZero centred.1, Binary.exact_of_isZero centred.2, neg_zero]
      rfl
  | _ => rfl

end TransformItem

namespace TransformList

open TransformItem Motion

/-- Rotations that are put together are the steps that they were put together from. -/
theorem moving_collapse {items : List TransformItem} (primitive : ∀ item ∈ items, item.IsPrimitive) :
    moving ((collapse items).flatMap expand) = moving (items.map motion) := by
  -- The cases are those of the scan: a group put together, a move that begins none, any other
  -- function.
  fun_induction collapse items with
  | case1 cx cy angle rx ry tx ty rest together inductionHypothesis =>
      simp only [List.forall_mem_cons] at primitive
      rw [Bool.and_eq_true, Bool.and_eq_true, Bool.and_eq_true] at together
      have back : (TransformItem.translate tx ty).motion = .translate (-cx.exact) (-cy.exact) := by
        rw [motion, Binary.exact_of_eq together.1.2, Binary.exact_of_eq together.2, Binary.exact_neg,
          Binary.exact_neg]
      have steps : ([TransformItem.translate cx cy, .rotate angle rx ry, .translate tx ty].map motion) =
          expand (.rotate angle cx cy) := by
        rw [List.map_cons, List.map_cons, List.map_cons, back]
        rfl
      have grouped : TransformItem.translate cx cy :: .rotate angle rx ry :: .translate tx ty :: rest =
          [TransformItem.translate cx cy, .rotate angle rx ry, .translate tx ty] ++ rest := rfl
      rw [List.flatMap_cons, moving_append, inductionHypothesis primitive.2.2.2, grouped, List.map_append,
        moving_append, steps]
  | case2 cx cy angle rx ry tx ty rest apart inductionHypothesis =>
      rw [List.flatMap_cons, moving_append, inductionHypothesis (List.forall_mem_cons.mp primitive).2]
      exact (moving_cons _ _).symm
  | case3 item rest other inductionHypothesis =>
      rcases List.forall_mem_cons.mp primitive with ⟨here, later⟩
      rw [List.flatMap_cons, moving_append, inductionHypothesis later, moving_expand here.2,
        List.map_cons, ← moving_cons]
  | case4 => rfl

theorem steps_cons (item : TransformItem) (rest : List TransformItem) :
    steps (item :: rest) = steps [item] ++ steps rest := by
  rw [steps, List.flatMap_cons, steps, List.flatMap_singleton, steps]

theorem moving_steps (items : List TransformItem) :
    moving ((steps items).map motion) = moving (items.flatMap expand) := by
  induction items with
  | nil => rfl
  | cons item rest inductionHypothesis =>
      rw [steps, List.flatMap_cons, List.map_append, moving_append, ← steps, inductionHypothesis,
        List.flatMap_cons, moving_append]
      congr 1
      cases item with
      | rotate angle cx cy =>
          dsimp only
          split
          · next zero =>
            rw [Bool.and_eq_true] at zero
            exact (@moving_expand (.rotate angle cx cy) zero).symm
          · simp only [List.map_cons, List.map_nil, motion, expand, Binary.exact_neg]
      | _ => rfl

end TransformList

/-! ## Numbers as they are written -/

namespace TransformItem

/-- The function with each number as its compact form says it. -/
def said : TransformItem → TransformItem
  | matrix a b c d e f => matrix a.said b.said c.said d.said e.said f.said
  | translate tx ty => translate tx.said ty.said
  | scale sx sy => scale sx.said sy.said
  | rotate angle cx cy => rotate angle.said cx.said cy.said
  | skewX angle => skewX angle.said
  | skewY angle => skewY angle.said

theorem parts_said {item : TransformItem} (exact : item.IsExact) :
    item.said.parts = (item.parts.1, item.parts.2.map Binary.said) := by
  have finite {x : Binary} (listed : x ∈ item.numbers) : x.isFinite = true := (exact x listed).2
  cases item with
  | translate tx ty =>
      rw [said, parts, Binary.isZero_said (finite (by simp [numbers])), parts]
      dsimp only
      split <;> rfl
  | scale sx sy =>
      have first := finite (show sx ∈ (scale sx sy).numbers by simp [numbers])
      have second := finite (show sy ∈ (scale sx sy).numbers by simp [numbers])
      have same : sx.said.eq sy.said = sx.eq sy := by
        rw [Bool.eq_iff_iff, Binary.eq_iff_said first second,
          Binary.eq_iff_said (Binary.isFinite_said sx) (Binary.isFinite_said sy), Binary.said_said first,
          Binary.said_said second]
      rw [said, parts, same, parts]
      dsimp only
      split <;> rfl
  | rotate angle cx cy =>
      rw [said, parts, Binary.isZero_said (finite (by simp [numbers])),
        Binary.isZero_said (finite (by simp [numbers])), parts]
      dsimp only
      split <;> rfl
  | _ => rfl

end TransformItem

section Exact

variable {cs rest : List Char} {x : Binary}

theorem isExact_of_scanListNumber? (found : Value.scanListNumber? cs = some (x, rest)) : x.IsExact := by
  rcases Option.map_eq_some_iff.mp found with ⟨⟨number, behind⟩, scanned, same⟩
  rcases Prod.mk.inj same with ⟨rfl, -⟩
  exact ⟨fits_of_scanNumber? scanned, isFinite_of_scanNumber? scanned⟩

theorem isExact_of_scanListNumbers? {n : Nat} {xs : List Binary}
    (found : Value.scanListNumbers? n cs = some (xs, rest)) : ∀ x ∈ xs, x.IsExact := by
  induction n generalizing cs xs with
  | zero =>
      rcases Prod.mk.inj (Option.some.inj found) with ⟨rfl, -⟩
      exact List.forall_mem_nil _
  | succ n inductionHypothesis =>
      rcases Option.bind_eq_some_iff.mp found with ⟨⟨x, behind⟩, first, found⟩
      rcases Option.bind_eq_some_iff.mp found with ⟨⟨xs, last⟩, others, same⟩
      rcases Prod.mk.inj (Option.some.inj same) with ⟨rfl, rfl⟩
      exact List.forall_mem_cons.mpr ⟨isExact_of_scanListNumber? first, inductionHypothesis others⟩

end Exact

theorem writeNumbers_map_said (before : List Char) (xs : List Binary) :
    writeNumbers before (xs.map Binary.said) = writeNumbers before xs := by
  induction xs generalizing before with
  | nil => rfl
  | cons x rest inductionHypothesis =>
      rw [List.map_cons, writeNumbers, writeNumbers, Binary.compactChars_said, inductionHypothesis]

namespace TransformItem

theorem write_said {item : TransformItem} (exact : item.IsExact) : item.said.write = item.write := by
  rw [write, parts_said exact, writeNumbers_map_said, write]

end TransformItem

namespace Number.Binary

theorem eq_said_neg {x y : Binary} (xFinite : x.isFinite = true) (yFinite : y.isFinite = true) :
    x.said.eq y.said.neg = x.eq y.neg := by
  have negFinite : y.neg.isFinite = true := (isFinite_neg y).trans yFinite
  have saidNegFinite : y.said.neg.isFinite = true := (isFinite_neg _).trans (isFinite_said y)
  rw [Bool.eq_iff_iff, eq_iff_said (isFinite_said x) saidNegFinite, eq_iff_said xFinite negFinite,
    said_said xFinite, said_neg_said yFinite]

end Number.Binary

namespace TransformList

open TransformItem

theorem exists_translate_of_said {item : TransformItem} {tx ty : Binary} (same : item.said = translate tx ty) :
    ∃ x y, item = translate x y := by
  cases item with
  | translate x y => exact ⟨x, y, rfl⟩
  | _ => cases same

theorem exists_rotate_of_said {item : TransformItem} {angle cx cy : Binary}
    (same : item.said = rotate angle cx cy) : ∃ a x y, item = rotate a x y := by
  cases item with
  | rotate a x y => exact ⟨a, x, y, rfl⟩
  | _ => cases same

/-- Which steps are put together does not depend on the signs of zeros. -/
theorem collapse_map_said {items : List TransformItem} (exact : ∀ item ∈ items, item.IsExact) :
    collapse (items.map said) = (collapse items).map said := by
  have condition {cx cy angle rx ry tx ty : Binary} {rest : List TransformItem}
      (exact : ∀ item ∈ .translate cx cy :: .rotate angle rx ry :: .translate tx ty :: rest, item.IsExact) :
      (rx.said.isZero && ry.said.isZero && tx.said.eq cx.said.neg && ty.said.eq cy.said.neg) =
        (rx.isZero && ry.isZero && tx.eq cx.neg && ty.eq cy.neg) := by
    simp only [List.forall_mem_cons, IsExact, numbers, List.not_mem_nil, false_imp_iff, implies_true,
      and_true] at exact
    rcases exact with ⟨⟨⟨-, cxFinite⟩, -, cyFinite⟩, ⟨-, ⟨-, rxFinite⟩, -, ryFinite⟩, ⟨⟨-, txFinite⟩, -, tyFinite⟩, -⟩
    rw [Binary.isZero_said rxFinite, Binary.isZero_said ryFinite, Binary.eq_said_neg txFinite cxFinite,
      Binary.eq_said_neg tyFinite cyFinite]
  fun_induction collapse items with
  | case1 cx cy angle rx ry tx ty rest together inductionHypothesis =>
      have later := inductionHypothesis fun item listed => exact item (by simp [listed])
      simp only [List.map_cons, said]
      rw [collapse, condition exact, if_pos together, later]
  | case2 cx cy angle rx ry tx ty rest apart inductionHypothesis =>
      have later := inductionHypothesis fun item listed => exact item (List.mem_cons_of_mem _ listed)
      simp only [List.map_cons, said] at later ⊢
      rw [collapse, condition exact, if_neg apart, later]
  | case3 item rest other inductionHypothesis =>
      have later := inductionHypothesis fun item listed => exact item (List.mem_cons_of_mem _ listed)
      rw [List.map_cons, List.map_cons, ← later]
      refine collapse.eq_2 _ _ ?_
      -- A group among the said functions would have been one before.
      intro cx cy angle rx ry tx ty behind front follows
      rcases List.map_eq_cons_iff.mp follows with ⟨middle, after, rfl, turned, followed⟩
      rcases List.map_eq_cons_iff.mp followed with ⟨last, behind, rfl, moved, -⟩
      rcases exists_translate_of_said front with ⟨x, y, rfl⟩
      rcases exists_rotate_of_said turned with ⟨a, rx, ry, rfl⟩
      rcases exists_translate_of_said moved with ⟨u, v, rfl⟩
      exact other x y a rx ry u v behind rfl rfl
  | case4 => rfl

end TransformList

/-! ## Reading what is written -/

namespace TransformList

open TransformItem

variable {cs rest : List Char} {x : Binary}

theorem endsBefore_parenthesis (cs rest : List Char) : EndsBefore cs (')' :: rest) where
  no_digit := by
    rintro c ⟨⟩
    rfl
  no_point impossible := by cases impossible
  no_exponent := rfl

theorem atEnd_writeNumbers (x : Binary) (xs : List Binary) (rest : List Char) :
    atEnd (writeNumbers [] (x :: xs) ++ rest) = false := by
  rw [atEnd, skipSpaces_writeNumbers, beq_eq_false_iff_ne]
  intro closed
  exact absurd (isNumeric_of_head? closed) (by unfold Value.IsNumeric; decide)

/-- The only argument of a function is read as it was written. -/
theorem scanListNumber?_only (fits : x.Fits double) (rest : List Char) :
    Value.scanListNumber? (writeNumbers [] [x] ++ ')' :: rest) = some (x.said, ')' :: rest) :=
  scanListNumber?_writeNumbers fits [] (endsBefore_parenthesis _ rest)

/-- The first of several arguments is read as it was written, and the others are next. -/
theorem scanListNumber?_first {y : Binary} (fits : x.Fits double) (ys : List Binary) (rest : List Char) :
    Value.scanListNumber? (writeNumbers [] (x :: y :: ys) ++ ')' :: rest) =
      some (x.said, writeNumbers [] (y :: ys) ++ ')' :: rest) := by
  rw [scanListNumber?_writeNumbers fits [] (endsBefore_writeNumbers x y ys _), skipSeparator_writeNumbers]

/-- The arguments of a function are read as they were written: those left out are found
again. -/
theorem scanArguments?_write {item : TransformItem} (exact : item.IsExact) (rest : List Char) :
    scanArguments? item.parts.1 (writeNumbers [] item.parts.2 ++ ')' :: rest) =
      some (steps [item.said], ')' :: rest) := by
  have fits {x : Binary} (listed : x ∈ item.numbers) : x.Fits double := (exact x listed).1
  have finite {x : Binary} (listed : x ∈ item.numbers) : x.isFinite = true := (exact x listed).2
  have closed : atEnd (')' :: rest) = true := rfl
  have open? (x : Binary) (xs : List Binary) : ¬ atEnd (writeNumbers [] (x :: xs) ++ ')' :: rest) = true :=
    Bool.eq_false_iff.mp (atEnd_writeNumbers x xs _)
  cases item with
  | matrix a b c d e f =>
      have scanned : Value.scanListNumbers? 6 (writeNumbers [] (matrix a b c d e f).parts.2 ++ ')' :: rest) = _ :=
        scanListNumbers?_writeNumbers (fun y => fits (x := y)) []
          fun y _ => endsBefore_parenthesis y.compactChars rest
      change (Value.scanListNumbers? 6 _).bind _ = _
      rw [scanned]
      rfl
  | translate tx ty =>
      have first := fits (show tx ∈ (translate tx ty).numbers by simp [numbers])
      have second := fits (show ty ∈ (translate tx ty).numbers by simp [numbers])
      change (Value.scanListNumber? _).bind _ = _
      rw [parts]
      dsimp only
      split
      · next zero =>
        rw [scanListNumber?_only first, Option.bind_some, said, Binary.said_of_isZero zero]
        exact if_pos closed
      · rw [scanListNumber?_first first, Option.bind_some]
        refine (if_neg (open? ty [])).trans ?_
        rw [scanListNumber?_only second]
        rfl
  | scale sx sy =>
      have firstListed : sx ∈ (scale sx sy).numbers := by simp [numbers]
      have secondListed : sy ∈ (scale sx sy).numbers := by simp [numbers]
      change (Value.scanListNumber? _).bind _ = _
      rw [parts]
      dsimp only
      split
      · next equal =>
        rw [scanListNumber?_only (fits firstListed), Option.bind_some, said,
          ← (Binary.eq_iff_said (finite firstListed) (finite secondListed)).mp equal]
        exact if_pos closed
      · rw [scanListNumber?_first (fits firstListed), Option.bind_some]
        refine (if_neg (open? sy [])).trans ?_
        rw [scanListNumber?_only (fits secondListed)]
        rfl
  | rotate angle cx cy =>
      have angleFits := fits (show angle ∈ (rotate angle cx cy).numbers by simp [numbers])
      have xListed : cx ∈ (rotate angle cx cy).numbers := by simp [numbers]
      have yListed : cy ∈ (rotate angle cx cy).numbers := by simp [numbers]
      have centred : (cx.said.isZero && cy.said.isZero) = (cx.isZero && cy.isZero) := by
        rw [Binary.isZero_said (finite xListed), Binary.isZero_said (finite yListed)]
      change (Value.scanListNumber? _).bind _ = _
      rw [parts, said, steps, List.flatMap_singleton]
      dsimp only
      rw [centred]
      split
      · next zero =>
        rw [Bool.and_eq_true] at zero
        rw [scanListNumber?_only angleFits, Option.bind_some, Binary.said_of_isZero zero.1,
          Binary.said_of_isZero zero.2]
        exact if_pos closed
      · have scanned : Value.scanListNumbers? 2 (writeNumbers [] [cx, cy] ++ ')' :: rest) = _ :=
          scanListNumbers?_writeNumbers (by simp [fits xListed, fits yListed]) []
            fun y _ => endsBefore_parenthesis y.compactChars rest
        rw [scanListNumber?_first angleFits, Option.bind_some]
        refine (if_neg (open? cx [cy])).trans ?_
        change (Value.scanListNumbers? 2 _).bind _ = _
        rw [scanned]
        rfl
  | skewX angle =>
      change (Value.scanListNumber? _).bind _ = _
      rw [parts, scanListNumber?_only (fits (by simp [numbers]))]
      rfl
  | skewY angle =>
      change (Value.scanListNumber? _).bind _ = _
      rw [parts, scanListNumber?_only (fits (by simp [numbers]))]
      rfl

/-- The names of functions. -/
def functionNames : List String :=
  ["matrix", "translate", "scale", "rotate", "skewX", "skewY"]

theorem fst_parts_mem (item : TransformItem) : item.parts.1 ∈ functionNames := by
  cases item <;> simp only [parts, functionNames, List.mem_cons, true_or, or_true]

theorem isNameChar_of_mem_parts {item : TransformItem} :
    ∀ c ∈ item.parts.1.toList, isNameChar c = true := by
  have all : ∀ name ∈ functionNames, name.toList.all isNameChar = true := by decide
  exact List.all_eq_true.mp (all _ (fst_parts_mem item))

theorem not_separator_of_isNameChar {c : Char} (named : isNameChar c = true) :
    Text.isXmlSpace c = false ∧ c ≠ ',' := by
  constructor
  · rw [← Bool.not_eq_true]
    intro space
    simp only [Text.isXmlSpace, Bool.or_eq_true, beq_iff_eq] at space
    rcases space with ((rfl | rfl) | rfl) | rfl <;> exact absurd named (by decide)
  · rintro rfl
    exact absurd named (by decide)

/-- A written function begins with a letter. -/
theorem exists_write_eq_cons (item : TransformItem) :
    ∃ c behind, item.write = c :: behind ∧ Text.isXmlSpace c = false ∧ c ≠ ',' := by
  rw [TransformItem.write]
  cases name : item.parts.1.toList with
  | nil =>
      have none : ∀ name ∈ functionNames, name.toList ≠ [] := by decide
      exact absurd name (none _ (fst_parts_mem item))
  | cons c behind =>
      exact ⟨c, _, rfl, not_separator_of_isNameChar (isNameChar_of_mem_parts c (name ▸ List.mem_cons_self))⟩

/-- A function is read as it was written, whatever stands behind it. -/
theorem scanFunction?_write {item : TransformItem} (exact : item.IsExact) (rest : List Char) :
    scanFunction? (item.write ++ rest) = some (steps [item.said], Value.skipSeparator rest) := by
  have written : item.write ++ rest =
      item.parts.1.toList ++ '(' :: (writeNumbers [] item.parts.2 ++ ')' :: rest) := by
    rw [TransformItem.write, List.append_assoc, List.append_assoc]
    rfl
  have notNamed : isNameChar '(' ≠ true := by decide
  rw [TransformList.scanFunction?, written, List.takeWhile_append_of_pos isNameChar_of_mem_parts,
    List.takeWhile_cons_of_neg notNamed, List.append_nil, String.ofList_toList,
    List.dropWhile_append_of_pos isNameChar_of_mem_parts, List.dropWhile_cons_of_neg notNamed]
  change (scanArguments? item.parts.1 (writeNumbers [] item.parts.2 ++ ')' :: rest)).bind _ = _
  rw [scanArguments?_write exact]
  rfl

theorem skipSpaces_functions (items : List TransformItem) :
    Value.skipSpaces (items.flatMap TransformItem.write) = items.flatMap TransformItem.write := by
  cases items with
  | nil => rfl
  | cons item rest =>
      rcases exists_write_eq_cons item with ⟨c, behind, written, solid, -⟩
      rw [List.flatMap_cons, written]
      exact List.dropWhile_cons_of_neg (Bool.eq_false_iff.mp solid)

theorem skipSeparator_functions (items : List TransformItem) :
    Value.skipSeparator (items.flatMap TransformItem.write) = items.flatMap TransformItem.write := by
  rw [skipSeparator_of_ne_comma, skipSpaces_functions]
  rw [skipSpaces_functions]
  cases items with
  | nil => exact fun impossible => nomatch impossible
  | cons item rest =>
      rcases exists_write_eq_cons item with ⟨c, behind, written, -, other⟩
      rw [List.flatMap_cons, written]
      exact fun comma => other (Option.some.inj comma)

/-- A list is read as it was written, up to the signs of zeros. -/
theorem scanSteps?_write {items : List TransformItem} (exact : ∀ item ∈ items, item.IsExact) {bound : Nat}
    (enough : items.length ≤ bound) :
    scanSteps? bound (items.flatMap TransformItem.write) = some (steps (items.map said)) := by
  induction items generalizing bound with
  | nil => cases bound <;> rfl
  | cons item rest inductionHypothesis =>
      rcases List.forall_mem_cons.mp exact with ⟨here, later⟩
      cases bound with
      | zero => exact absurd enough (Nat.not_succ_le_zero _)
      | succ bound =>
        have behind := inductionHypothesis later (Nat.le_of_succ_le_succ enough)
        have front := skipSpaces_functions (item :: rest)
        have function := scanFunction?_write here (rest.flatMap TransformItem.write)
        rw [skipSeparator_functions] at function
        rw [List.flatMap_cons] at front ⊢
        rw [scanSteps?, front]
        split
        · next none =>
          rcases exists_write_eq_cons item with ⟨c, behind, written, -⟩
          rw [written] at none
          cases none
        · change (TransformList.scanFunction? _).bind _ = _
          rw [function]
          change (scanSteps? bound _).bind _ = _
          rw [behind, List.map_cons, steps_cons item.said (rest.map said)]
          rfl

/-- Every function takes at least one character. -/
theorem length_le_length_write (items : List TransformItem) :
    items.length ≤ (items.flatMap TransformItem.write).length := by
  induction items with
  | nil => exact Nat.zero_le _
  | cons item rest inductionHypothesis =>
      rcases exists_write_eq_cons item with ⟨c, behind, written, -⟩
      rw [List.flatMap_cons, List.length_append, written, List.length_cons, List.length_cons]
      omega

/-- A list is read as it was written, with its rotations taken apart and put together
again. -/
theorem read?_write {l : TransformList} (exact : ∀ item ∈ l.items, item.IsExact) :
    read? l.write = some ⟨collapse (steps (l.items.map said))⟩ := by
  rw [read?, TransformList.write, String.toList_ofList, scanSteps?_write exact (length_le_length_write l.items)]
  rfl

/-- The arguments of a function are read as some primitive steps. -/
theorem spec_of_scanArguments? {name : String} {tokens : List TransformItem}
    (found : scanArguments? name cs = some (tokens, rest)) :
    tokens ≠ [] ∧ ∀ token ∈ tokens, token.IsPrimitive := by
  have zeroExact := Binary.isExact_zero
  have zeroIsZero : (Binary.zero false).isZero = true := rfl
  unfold scanArguments? at found
  dsimp only at found
  split at found
  · rcases Option.bind_eq_some_iff.mp found with ⟨⟨xs, behind⟩, scanned, found⟩
    have exact := isExact_of_scanListNumbers? scanned
    split at found
    · next same =>
      rcases Prod.mk.inj same with ⟨rfl, -⟩
      rcases Prod.mk.inj (Option.some.inj found) with ⟨rfl, -⟩
      exact ⟨List.cons_ne_nil _ _, List.forall_mem_singleton.mpr ⟨exact, trivial⟩⟩
    · cases found
  split at found
  · rcases Option.bind_eq_some_iff.mp found with ⟨⟨tx, behind⟩, first, found⟩
    have txExact := isExact_of_scanListNumber? first
    dsimp only at found
    split at found
    · rcases Prod.mk.inj (Option.some.inj found) with ⟨rfl, -⟩
      simp [isPrimitive_iff, numbers, IsCentred, txExact, zeroExact]
    · rcases Option.bind_eq_some_iff.mp found with ⟨⟨ty, behind⟩, second, found⟩
      have tyExact := isExact_of_scanListNumber? second
      rcases Prod.mk.inj (Option.some.inj found) with ⟨rfl, -⟩
      simp [isPrimitive_iff, numbers, IsCentred, txExact, tyExact]
  split at found
  · rcases Option.bind_eq_some_iff.mp found with ⟨⟨sx, behind⟩, first, found⟩
    have sxExact := isExact_of_scanListNumber? first
    dsimp only at found
    split at found
    · rcases Prod.mk.inj (Option.some.inj found) with ⟨rfl, -⟩
      simp [isPrimitive_iff, numbers, IsCentred, sxExact]
    · rcases Option.bind_eq_some_iff.mp found with ⟨⟨sy, behind⟩, second, found⟩
      have syExact := isExact_of_scanListNumber? second
      rcases Prod.mk.inj (Option.some.inj found) with ⟨rfl, -⟩
      simp [isPrimitive_iff, numbers, IsCentred, sxExact, syExact]
  split at found
  · rcases Option.bind_eq_some_iff.mp found with ⟨⟨angle, behind⟩, first, found⟩
    have angleExact := isExact_of_scanListNumber? first
    dsimp only at found
    split at found
    · rcases Prod.mk.inj (Option.some.inj found) with ⟨rfl, -⟩
      simp [isPrimitive_iff, numbers, IsCentred, angleExact, zeroExact, zeroIsZero]
    · rcases Option.bind_eq_some_iff.mp found with ⟨⟨xs, behind⟩, scanned, found⟩
      have exact := isExact_of_scanListNumbers? scanned
      split at found
      · next same =>
        rcases Prod.mk.inj same with ⟨rfl, -⟩
        rcases Prod.mk.inj (Option.some.inj found) with ⟨rfl, -⟩
        simp only [List.forall_mem_cons] at exact
        simp [isPrimitive_iff, numbers, IsCentred, angleExact, zeroExact, zeroIsZero, exact.1, exact.2.1,
          exact.1.neg, exact.2.1.neg]
      · cases found
  -- Either skew has one argument.
  split at found
  · rcases Option.bind_eq_some_iff.mp found with ⟨⟨angle, behind⟩, scanned, found⟩
    rcases Prod.mk.inj (Option.some.inj found) with ⟨rfl, -⟩
    simp [isPrimitive_iff, numbers, IsCentred, isExact_of_scanListNumber? scanned]
  split at found
  · rcases Option.bind_eq_some_iff.mp found with ⟨⟨angle, behind⟩, scanned, found⟩
    rcases Prod.mk.inj (Option.some.inj found) with ⟨rfl, -⟩
    simp [isPrimitive_iff, numbers, IsCentred, isExact_of_scanListNumber? scanned]
  · cases found

/-- Only primitive steps are read. -/
theorem isPrimitive_of_scanSteps? {bound : Nat} {tokens : List TransformItem}
    (found : scanSteps? bound cs = some tokens) : ∀ token ∈ tokens, token.IsPrimitive := by
  induction bound generalizing cs tokens with
  | zero =>
      rw [scanSteps?] at found
      split at found
      · rw [← Option.some.inj found]
        exact List.forall_mem_nil _
      · cases found
  | succ bound inductionHypothesis =>
      rw [scanSteps?] at found
      split at found
      · rw [← Option.some.inj found]
        exact List.forall_mem_nil _
      · rcases Option.bind_eq_some_iff.mp found with ⟨⟨first, behind⟩, function, found⟩
        rcases Option.bind_eq_some_iff.mp found with ⟨more, others, same⟩
        rcases Option.bind_eq_some_iff.mp function with ⟨opened, -, function⟩
        rcases Option.bind_eq_some_iff.mp function with ⟨⟨arguments, closing⟩, scanned, function⟩
        rcases Option.bind_eq_some_iff.mp function with ⟨closed, -, done⟩
        rcases Prod.mk.inj (Option.some.inj done) with ⟨rfl, -⟩
        rw [← Option.some.inj same]
        exact List.forall_mem_append.mpr ⟨(spec_of_scanArguments? scanned).2, inductionHypothesis others⟩

theorem collapse_ne_nil {tokens : List TransformItem} (some : tokens ≠ []) : collapse tokens ≠ [] := by
  unfold collapse
  split
  · split <;> exact List.cons_ne_nil _ _
  · exact List.cons_ne_nil _ _
  · exact some

/-- A text that is not blank is read as some transformations, if at all. -/
theorem items_ne_nil {s : String} {l : TransformList} (read : read? s = some l) (solid : Value.skipSpaces s.toList ≠ []) :
    l.items ≠ [] := by
  rcases Option.map_eq_some_iff.mp read with ⟨tokens, scanned, rfl⟩
  refine collapse_ne_nil ?_
  rintro rfl
  unfold scanSteps? at scanned
  split at scanned
  · next none => exact solid none
  · split at scanned
    · cases scanned
    · rcases Option.bind_eq_some_iff.mp scanned with ⟨⟨first, behind⟩, function, found⟩
      rcases Option.bind_eq_some_iff.mp found with ⟨more, others, same⟩
      rcases Option.bind_eq_some_iff.mp function with ⟨opened, -, function⟩
      rcases Option.bind_eq_some_iff.mp function with ⟨⟨arguments, closing⟩, inner, function⟩
      rcases Option.bind_eq_some_iff.mp function with ⟨closed, -, done⟩
      rcases Prod.mk.inj (Option.some.inj done) with ⟨rfl, -⟩
      exact (spec_of_scanArguments? inner).1 (List.append_eq_nil_iff.mp (Option.some.inj same)).1

end TransformList

/-! ## The same motion -/

namespace TransformItem

theorem expand_said (item : TransformItem) : item.said.expand = item.expand := by
  cases item <;> simp only [said, expand, motion, Binary.exact_said]

theorem IsExact.said {item : TransformItem} (exact : item.IsExact) : item.said.IsExact := by
  have moved : item.said.numbers = item.numbers.map Binary.said := by
    cases item <;> rfl
  rw [IsExact, moved]
  intro x listed
  rcases List.mem_map.mp listed with ⟨y, own, rfl⟩
  exact (exact y own).said

end TransformItem

namespace TransformList

open TransformItem Motion

theorem isPrimitive_of_mem_steps {items : List TransformItem} (exact : ∀ item ∈ items, item.IsExact) :
    ∀ token ∈ steps items, token.IsPrimitive := by
  intro token listed
  rcases List.mem_flatMap.mp listed with ⟨item, own, listed⟩
  have here := exact item own
  cases item with
  | rotate angle cx cy =>
      dsimp only at listed
      split at listed
      · next zero =>
        rw [List.mem_singleton.mp listed]
        rw [Bool.and_eq_true] at zero
        exact ⟨here, zero⟩
      · simp only [TransformItem.IsExact, numbers, List.forall_mem_cons] at here
        simp only [List.mem_cons, List.not_mem_nil, or_false] at listed
        rcases listed with rfl | rfl | rfl
        · exact ⟨by simp [TransformItem.IsExact, numbers, here], trivial⟩
        · exact ⟨by simp [TransformItem.IsExact, numbers, here, Binary.isExact_zero], rfl, rfl⟩
        · exact ⟨by simp [TransformItem.IsExact, numbers, here.2.1.neg, here.2.2.1.neg], trivial⟩
  | _ =>
      rw [List.mem_singleton.mp listed]
      exact ⟨here, trivial⟩

theorem isExact_of_mem_collapse {items : List TransformItem} (exact : ∀ item ∈ items, item.IsExact) :
    ∀ item ∈ collapse items, item.IsExact := by
  fun_induction collapse items with
  | case1 cx cy angle rx ry tx ty rest together inductionHypothesis =>
      simp only [List.forall_mem_cons] at exact
      refine List.forall_mem_cons.mpr ⟨?_, inductionHypothesis exact.2.2.2⟩
      simp only [TransformItem.IsExact, numbers, List.forall_mem_cons] at exact ⊢
      exact ⟨exact.2.1.1, exact.1.1, exact.1.2.1, List.forall_mem_nil _⟩
  | case2 cx cy angle rx ry tx ty rest apart inductionHypothesis =>
      rcases List.forall_mem_cons.mp exact with ⟨here, later⟩
      exact List.forall_mem_cons.mpr ⟨here, inductionHypothesis later⟩
  | case3 item rest other inductionHypothesis =>
      rcases List.forall_mem_cons.mp exact with ⟨here, later⟩
      exact List.forall_mem_cons.mpr ⟨here, inductionHypothesis later⟩
  | case4 => exact List.forall_mem_nil _

/-- A list moves like the one that is read from what is written for it. -/
theorem moving_read_write {items : List TransformItem} (exact : ∀ item ∈ items, item.IsExact) :
    ∃ again, read? (write ⟨items⟩) = some again ∧
      moving (again.items.flatMap expand) = moving (items.flatMap expand) := by
  have saidExact : ∀ item ∈ items.map said, item.IsExact := by
    intro item listed
    rcases List.mem_map.mp listed with ⟨own, ownListed, rfl⟩
    exact (exact own ownListed).said
  have sameSteps : (items.map said).flatMap expand = items.flatMap expand := by
    rw [List.flatMap_map]
    exact List.flatMap_congr fun item _ => expand_said item
  refine ⟨_, read?_write (l := ⟨items⟩) exact, ?_⟩
  rw [moving_collapse (isPrimitive_of_mem_steps saidExact), moving_steps, sameSteps]

/-- A text is read as its primitive steps, with rotations put together.  For all primitive
steps with exact numbers, the list that puts their rotations together and the list that is
read from what is written for it have, taken apart and without moves by nothing, those same
steps; so both compose to the same map of the plane. -/
theorem moves_alike :
    (∀ s l, read? s = some l →
      ∃ tokens, scanSteps? s.toList.length s.toList = some tokens ∧
        (∀ token ∈ tokens, token.IsPrimitive) ∧ l = ⟨collapse tokens⟩) ∧
    ∀ tokens : List TransformItem, (∀ token ∈ tokens, token.IsPrimitive) →
      moving ((collapse tokens).flatMap expand) = moving (tokens.map motion) ∧
      composed ((collapse tokens).flatMap expand) = composed (tokens.map motion) ∧
      ∃ again, read? (write ⟨collapse tokens⟩) = some again ∧
        moving (again.items.flatMap expand) = moving (tokens.map motion) ∧
        composed (again.items.flatMap expand) = composed (tokens.map motion) := by
  constructor
  · intro s l read
    rcases Option.map_eq_some_iff.mp read with ⟨tokens, scanned, rfl⟩
    exact ⟨tokens, scanned, isPrimitive_of_scanSteps? scanned, rfl⟩
  · intro tokens primitive
    have collapsed := moving_collapse primitive
    have exact := isExact_of_mem_collapse fun token listed => (primitive token listed).1
    rcases moving_read_write exact with ⟨again, read, sameMoves⟩
    have same := sameMoves.trans collapsed
    exact ⟨collapsed, composed_congr collapsed, again, read, same, composed_congr same⟩

/-- A turn between two moves has rests around it: it is put together with those first, and
with the moves when the written text is read. -/
theorem moves_alike_turned :
    ∃ tokens, scanSteps? 60 "translate(1)translate(0)rotate(45)translate(0)translate(-1)".toList = some tokens ∧
      write ⟨collapse tokens⟩ = "translate(1)rotate(45)translate(-1)" ∧
      (read? (write ⟨collapse tokens⟩)).map write = some "rotate(45 1 0)" ∧
      moving ((collapse tokens).flatMap expand) = [.translate 1 0, .rotate 45, .translate (-1) 0] ∧
      ∃ again, read? (write ⟨collapse tokens⟩) = some again ∧
        moving (again.items.flatMap expand) = [.translate 1 0, .rotate 45, .translate (-1) 0] := by
  obtain ⟨tokens, listed, scanned⟩ : ∃ tokens,
      tokens = [.translate (.finite false 1 0) (Binary.zero false),
        .translate (Binary.zero false) (Binary.zero false),
        .rotate (.finite false 45 0) (Binary.zero false) (Binary.zero false),
        .translate (Binary.zero false) (Binary.zero false), .translate (.finite true 1 0) (Binary.zero false)] ∧
      scanSteps? 60 "translate(1)translate(0)rotate(45)translate(0)translate(-1)".toList = some tokens :=
    ⟨_, rfl, by decide +kernel⟩
  have turned : moving (tokens.map motion) = [.translate 1 0, .rotate 45, .translate (-1) 0] := by
    rw [listed]
    decide +kernel
  have written : write ⟨collapse tokens⟩ = "translate(1)rotate(45)translate(-1)" := by
    rw [listed]
    decide +kernel
  rcases moves_alike.2 tokens (isPrimitive_of_scanSteps? scanned) with ⟨collapsed, -, again, read, same, -⟩
  refine ⟨tokens, scanned, written, ?_, collapsed.trans turned, again, read, same.trans turned⟩
  rw [written]
  decide +kernel

end TransformList

end SlimSvg
