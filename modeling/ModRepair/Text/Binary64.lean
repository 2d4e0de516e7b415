import ModRepair.Text.Numeral

/-!
# Double-precision numbers

The finite values of the IEEE 754 binary64 format and its two infinities, kept exactly as sign, mantissa and
exponent. A decimal is rounded once, as a quotient, to the nearest value (`ofQuotient`), and a value is written
with seventeen significant digits, again rounded once (`text`). Each value has one representation, so two values
are equal exactly when they are the same, the two zeros apart.
-/

namespace ModRepair

/-- A binary64 value: `mantissa * 2 ^ exponent` with its sign, or an infinity.

Mantissas are below `2 ^ 53`, exponents at least `-1074`, and a mantissa below `2 ^ 52` has exponent `-1074`. -/
inductive Binary64
  | finite (negative : Bool) (mantissa : Nat) (exponent : Int)
  | infinite (negative : Bool)
  deriving DecidableEq, Repr

namespace Binary64

/-! ## Rounding -/

/-- The quotient rounded to the nearest natural number, a tie to the even one. -/
def roundDiv (n d : Nat) : Nat :=
  let q := n / d
  let twice := 2 * (n % d)
  if twice < d then q
  else if d < twice then q + 1
  else if q % 2 = 0 then q else q + 1

/-- The largest `k` with `2 ^ k ≤ n / d`, for positive `n` and `d`. -/
def floorLog2 (n d : Nat) : Int :=
  let k : Int := (Nat.log2 n : Int) - (Nat.log2 d : Int)
  let reached : Bool := if 0 ≤ k then d * Nat.pow 2 k.toNat ≤ n else d ≤ n * Nat.pow 2 (-k).toNat
  if reached then k else k - 1

/-- The value nearest to `n / d`, of two equally near the one with the even mantissa. Quotients from half a unit
above the largest finite value on become infinite. -/
def ofQuotient (negative : Bool) (n d : Nat) : Binary64 :=
  if n = 0 then .finite negative 0 (-1074)
  else
    let e := max (floorLog2 n d - 52) (-1074)
    let m := if 0 ≤ e then roundDiv n (d * Nat.pow 2 e.toNat) else roundDiv (n * Nat.pow 2 (-e).toNat) d
    let (m, e) := if m = Nat.pow 2 53 then (Nat.pow 2 52, e + 1) else (m, e)
    if 971 < e then .infinite negative else .finite negative m e

/-- The value nearest to `digits * 10 ^ exponent`. Magnitudes from `10 ^ 309` on are infinite and those up to
`10 ^ (-324)` are zero, whatever their digits, so no larger power of ten is ever formed. -/
def ofDecimal (negative : Bool) (digits : Nat) (exponent : Int) : Binary64 :=
  if digits = 0 then .finite negative 0 (-1074)
  else
    let magnitude : Int := (Numeral.decimal digits).length + exponent
    if 309 < magnitude then .infinite negative
    else if magnitude ≤ -324 then .finite negative 0 (-1074)
    else if 0 ≤ exponent then ofQuotient negative (digits * Nat.pow 10 exponent.toNat) 1
    else ofQuotient negative digits (Nat.pow 10 (-exponent).toNat)

/-- The value nearest to an integer. -/
def ofInt (i : Int) : Binary64 :=
  ofQuotient (decide (i < 0)) i.natAbs 1

/-- Equality of values: the two zeros are equal. -/
def same : Binary64 → Binary64 → Bool
  | .finite _ 0 _, .finite _ 0 _ => true
  | a, b => a == b

/-! ## Writing -/

/-- The number of decimal digits of `n`, one for zero. -/
def digitCount (n : Nat) : Nat :=
  (Numeral.decimal n).length

/-- The largest `k` with `10 ^ k ≤ n / d`, for positive `n` and `d`. -/
def floorLog10 (n d : Nat) : Int :=
  if d ≤ n then (digitCount (n / d) : Int) - 1 else -(digitCount ((d - 1) / n) : Int)

/-- Seventeen significant digits of `n / d` and the exponent of the first, rounded to nearest. -/
def significant (n d : Nat) : Nat × Int :=
  let k := floorLog10 n d
  let shift := 16 - k
  let s :=
    if 0 ≤ shift then roundDiv (n * Nat.pow 10 shift.toNat) d else roundDiv n (d * Nat.pow 10 (-shift).toNat)
  if s = Nat.pow 10 17 then (Nat.pow 10 16, k + 1) else (s, k)

/-- Digits without the zeros at their end. -/
def dropTrailingZeros (digits : Bytes) : Bytes :=
  (digits.reverse.dropWhile (· == Bytes.zero)).reverse

/-- A point and the digits, or nothing if there are none. -/
def fraction (digits : Bytes) : Bytes :=
  if digits.isEmpty then [] else Bytes.dot :: digits

/-- Digits with the exponent of the first: positional from `10 ^ (-4)` up to below `10 ^ 17`, else with an
exponent of at least two digits. Zeros at the end of the fraction are left out. -/
def layOut (digits : Bytes) (exponent : Int) : Bytes :=
  if -4 ≤ exponent ∧ exponent < 0 then
    ascii "0" ++
      fraction (dropTrailingZeros (List.replicate ((-exponent).toNat - 1) Bytes.zero ++ digits))
  else if 0 ≤ exponent ∧ exponent < 17 then
    digits.take (exponent.toNat + 1) ++ fraction (dropTrailingZeros (digits.drop (exponent.toNat + 1)))
  else
    digits.take 1 ++ fraction (dropTrailingZeros (digits.drop 1)) ++
      (if exponent < 0 then ascii "e-" else ascii "e+") ++
      Bytes.padLeft 2 Bytes.zero (Numeral.decimal exponent.natAbs)

/-- The magnitude of a finite value with seventeen significant digits. -/
def magnitudeText (mantissa : Nat) (exponent : Int) : Bytes :=
  if mantissa = 0 then ascii "0"
  else
    let (n, d) :=
      if 0 ≤ exponent then (mantissa * Nat.pow 2 exponent.toNat, 1) else (mantissa, Nat.pow 2 (-exponent).toNat)
    let (s, k) := significant n d
    layOut (Numeral.decimal s) k

/-- A text that shows a point or an exponent, so that it does not read as an integer. -/
def markFraction (s : Bytes) : Bytes :=
  if s.any fun c => c == Bytes.dot || c == 0x65 then s else s ++ ascii ".0"

/-- The text of a value: seventeen significant digits, never mistakable for an integer. An infinity has none. -/
def text? : Binary64 → Option Bytes
  | .infinite _ => none
  | .finite negative m e =>
    some (markFraction ((if negative then [Bytes.minus] else []) ++ magnitudeText m e))

end Binary64

end ModRepair
