namespace SlimSvg
namespace Number

/-!
# Binary numbers of fixed precision

A number in an attribute is a binary number of 53 significant bits, and one
colour formula is evaluated with 24.  Both are the same structure with another
`Precision`: a value is kept exactly as `± mantissa · 2 ^ exponent`, and every
operation is the exact one followed by one rounding to the nearest value of the
format, an exact tie going to the even neighbour.  The mantissa of a nonzero
value is kept odd, so a value has one representation and equality of values is
equality of representations, the two zeros apart.
-/

/-- The shape of a binary format: significant bits, the exponent of its least
bit, and the exponent of the power of two that no finite value reaches. -/
structure Precision where
  bits : Nat
  least : Int
  top : Int
deriving DecidableEq, Repr

/-- 53 significant bits. -/
def double : Precision := ⟨53, -1074, 1024⟩

/-- 24 significant bits. -/
def single : Precision := ⟨24, -149, 128⟩

/-- A value of a binary format. -/
inductive Binary where
  | nan
  | infinite (negative : Bool)
  | finite (negative : Bool) (mantissa : Nat) (exponent : Int)
deriving DecidableEq, Repr, Inhabited

/-- The same value with an odd mantissa; zero gets the exponent zero. -/
def odden (mantissa : Nat) (exponent : Int) : Nat × Int :=
  if h : mantissa = 0 then (0, 0)
  else if mantissa % 2 = 0 then odden (mantissa / 2) (exponent + 1)
  else (mantissa, exponent)
termination_by mantissa
decreasing_by omega

/-- The quotient rounded to the nearest whole number, ties to even. -/
def roundHalfEven (num den : Nat) : Nat :=
  let q := num / den
  let r := num % den
  if 2 * r < den then q
  else if den < 2 * r then q + 1
  else if q % 2 = 0 then q else q + 1

/-- Both sides of a fraction, scaled so that their quotient is
`num / den / 2 ^ exponent`. -/
def scaleDown (num den : Nat) (exponent : Int) : Nat × Nat :=
  if 0 ≤ exponent then (num, den * Nat.pow 2 exponent.toNat)
  else (num * Nat.pow 2 (-exponent).toNat, den)

/-- The value `mantissa · 2 ^ exponent` as a fraction. -/
def asRatio (mantissa : Nat) (exponent : Int) : Nat × Nat :=
  if 0 ≤ exponent then (mantissa * Nat.pow 2 exponent.toNat, 1)
  else (mantissa, Nat.pow 2 (-exponent).toNat)

/-- The exponent of the leading bit of a positive fraction. -/
def leadingExponent (num den : Nat) : Int :=
  let guess : Int := (Nat.log2 num : Int) - (Nat.log2 den : Int)
  let (n, d) := scaleDown num den guess
  if n < d then guess - 1 else guess

namespace Binary

/-- Zero, with its sign. -/
def zero (negative : Bool) : Binary :=
  finite negative 0 0

/-- The value nearest to `num / den`, ties to even. -/
def ofRatio (p : Precision) (negative : Bool) (num den : Nat) : Binary :=
  if num = 0 then zero negative
  else
    let exponent := max (leadingExponent num den - ((p.bits : Int) - 1)) p.least
    let (n, d) := scaleDown num den exponent
    let mantissa := roundHalfEven n d
    if mantissa = 0 then zero negative
    else if p.top ≤ exponent + (Nat.log2 mantissa : Int) then infinite negative
    else
      let (m, e) := odden mantissa exponent
      finite negative m e

/-- The value nearest to `± mantissa · 2 ^ exponent`. -/
def ofScaled (p : Precision) (negative : Bool) (mantissa : Nat) (exponent : Int) : Binary :=
  let (num, den) := asRatio mantissa exponent
  ofRatio p negative num den

/-- The value nearest to a whole number. -/
def ofNat (p : Precision) (n : Nat) : Binary :=
  ofRatio p false n 1

/-- The nearest value of another format. -/
def round (p : Precision) : Binary → Binary
  | finite s m e => ofScaled p s m e
  | x => x

/-! ## Signs and comparisons -/

def isFinite : Binary → Bool
  | finite .. => true
  | _ => false

/-- Whether the value is one of the two zeros. -/
def isZero : Binary → Bool
  | finite _ 0 _ => true
  | _ => false

def neg : Binary → Binary
  | nan => nan
  | infinite s => infinite (!s)
  | finite s m e => finite (!s) m e

/-- Equality of values: the two zeros are equal, and `nan` equals nothing. -/
def eq : Binary → Binary → Bool
  | nan, _ => false
  | _, nan => false
  | x, y => (x.isZero && y.isZero) || x == y

/-- The signed mantissas of two values over their common exponent. -/
def align (s₁ : Bool) (m₁ : Nat) (e₁ : Int) (s₂ : Bool) (m₂ : Nat) (e₂ : Int) :
    Int × Int × Int :=
  let e := min e₁ e₂
  let a : Int := (m₁ * Nat.pow 2 (e₁ - e).toNat : Nat)
  let b : Int := (m₂ * Nat.pow 2 (e₂ - e).toNat : Nat)
  (if s₁ then -a else a, if s₂ then -b else b, e)

/-- Strict order of values; `nan` is comparable with nothing. -/
def lt : Binary → Binary → Bool
  | nan, _ => false
  | _, nan => false
  | infinite s, infinite t => s && !t
  | infinite s, finite .. => s
  | finite .., infinite t => !t
  | finite s₁ m₁ e₁, finite s₂ m₂ e₂ =>
    let (a, b, _) := align s₁ m₁ e₁ s₂ m₂ e₂
    a < b

/-- The value, moved to the nearer bound if it is outside of the two. -/
def clamp (x low high : Binary) : Binary :=
  if x.lt low then low else if high.lt x then high else x

/-! ## Arithmetic -/

def add (p : Precision) : Binary → Binary → Binary
  | nan, _ => nan
  | _, nan => nan
  | infinite s, infinite t => if s == t then infinite s else nan
  | infinite s, finite .. => infinite s
  | finite .., infinite t => infinite t
  | finite s₁ m₁ e₁, finite s₂ m₂ e₂ =>
    let (a, b, e) := align s₁ m₁ e₁ s₂ m₂ e₂
    let sum := a + b
    if sum = 0 then zero (s₁ && s₂)
    else ofScaled p (sum < 0) sum.natAbs e

def sub (p : Precision) (x y : Binary) : Binary :=
  add p x y.neg

def mul (p : Precision) : Binary → Binary → Binary
  | nan, _ => nan
  | _, nan => nan
  | infinite s, infinite t => infinite (s != t)
  | infinite s, finite t m _ => if m = 0 then nan else infinite (s != t)
  | finite s m _, infinite t => if m = 0 then nan else infinite (s != t)
  | finite s₁ m₁ e₁, finite s₂ m₂ e₂ => ofScaled p (s₁ != s₂) (m₁ * m₂) (e₁ + e₂)

def div (p : Precision) : Binary → Binary → Binary
  | nan, _ => nan
  | _, nan => nan
  | infinite _, infinite _ => nan
  | infinite s, finite t _ _ => infinite (s != t)
  | finite s _ _, infinite t => zero (s != t)
  | finite s₁ m₁ e₁, finite s₂ m₂ e₂ =>
    if m₂ = 0 then if m₁ = 0 then nan else infinite (s₁ != s₂)
    else
      let e := e₁ - e₂
      if 0 ≤ e then ofRatio p (s₁ != s₂) (m₁ * Nat.pow 2 e.toNat) m₂
      else ofRatio p (s₁ != s₂) m₁ (m₂ * Nat.pow 2 (-e).toNat)

/-- The remainder of the division toward zero, with the sign of the dividend. -/
def rem (p : Precision) : Binary → Binary → Binary
  | finite s₁ m₁ e₁, finite _ m₂ e₂ =>
    if m₂ = 0 then nan
    else
      let e := min e₁ e₂
      let a := m₁ * Nat.pow 2 (e₁ - e).toNat
      let b := m₂ * Nat.pow 2 (e₂ - e).toNat
      ofScaled p s₁ (a % b) e
  | finite s m e, infinite _ => finite s m e
  | _, _ => nan

/-- The nearest whole number, a half going away from zero, moved into `0 … 255`. -/
def toByte : Binary → Nat
  | nan => 0
  | infinite s => if s then 0 else 255
  | finite s m e =>
    if s then 0
    else
      let (n, d) := asRatio m e
      min 255 ((2 * n + d) / (2 * d))

end Binary

end Number
end SlimSvg
