import ModRepair.Text.Bytes

/-!
# Numerals

Numbers as digits and back. `numeral base n` writes `n` without leading zeros, `numeral_eq` is the equation it
satisfies, and `value` reads a run of decimal digits.
-/

namespace ModRepair.Numeral

/-- The digit for a value below sixteen, letters in lower case. -/
def digit (d : Nat) : UInt8 :=
  if d < 10 then UInt8.ofNat (0x30 + d) else UInt8.ofNat (0x57 + d)

/-- The digits of `n` put before `tail`; `fuel` bounds their number. -/
def digitsBefore (base : Nat) : (fuel : Nat) → Nat → Bytes → Bytes
  | 0, _, tail => tail
  | fuel + 1, n, tail =>
    if n < base then digit n :: tail
    else digitsBefore base fuel (n / base) (digit (n % base) :: tail)

/-- The digits of `n` in a base of two to sixteen. -/
def numeral (base n : Nat) : Bytes :=
  digitsBefore base (n + 1) n []

/-- The decimal digits of `n`. -/
def decimal (n : Nat) : Bytes :=
  numeral 10 n

/-- The decimal digits of an integer, after a minus sign if it is negative. -/
def decimalInt (i : Int) : Bytes :=
  if i < 0 then Bytes.minus :: decimal i.natAbs else decimal i.natAbs

/-- The hexadecimal digits of `n`, at least `width` of them. -/
def hex (width n : Nat) : Bytes :=
  Bytes.padLeft width Bytes.zero (numeral 16 n)

/-! ## Reading -/

def isDigit (c : UInt8) : Bool :=
  0x30 ≤ c && c ≤ 0x39

/-- The value of a decimal digit. -/
def digitValue (c : UInt8) : Nat :=
  c.toNat - 0x30

/-- The value of a run of decimal digits. -/
def value (digits : Bytes) : Nat :=
  digits.foldl (fun n c => n * 10 + digitValue c) 0

/-- The value of a hexadecimal digit of either case. -/
def hexValue? (c : UInt8) : Option Nat :=
  if 0x30 ≤ c ∧ c ≤ 0x39 then some (c.toNat - 0x30)
  else if 0x41 ≤ c ∧ c ≤ 0x46 then some (c.toNat - 0x37)
  else if 0x61 ≤ c ∧ c ≤ 0x66 then some (c.toNat - 0x57)
  else none

/-! ## The equation of `numeral` -/

theorem digitsBefore_append (base fuel n : Nat) (s t : Bytes) :
    digitsBefore base fuel n (s ++ t) = digitsBefore base fuel n s ++ t := by
  induction fuel generalizing n s with
  | zero => rfl
  | succ fuel ih =>
    unfold digitsBefore
    split
    · rfl
    · rw [← List.cons_append, ih]

/-- Fuel above the number is enough, whatever its amount. -/
theorem digitsBefore_fuel {base : Nat} (hb : 2 ≤ base) (fuel fuel' n : Nat) (tail : Bytes)
    (h : n < fuel) (h' : n < fuel') :
    digitsBefore base fuel n tail = digitsBefore base fuel' n tail := by
  induction fuel generalizing n tail fuel' with
  | zero => omega
  | succ fuel ih =>
    obtain _ | fuel' := fuel'
    · omega
    · unfold digitsBefore
      split
      · rfl
      · next hn =>
        have hlt : n / base < n := Nat.div_lt_self (by omega) hb
        exact ih fuel' _ _ (by omega) (by omega)

/-- A number below the base is its digit; any other ends in its last digit. -/
theorem numeral_eq {base : Nat} (hb : 2 ≤ base) (n : Nat) :
    numeral base n =
      if n < base then [digit n] else numeral base (n / base) ++ [digit (n % base)] := by
  unfold numeral
  rw [digitsBefore]
  split
  · rfl
  · next hn =>
    have hlt : n / base < n := Nat.div_lt_self (by omega) hb
    rw [digitsBefore_fuel hb n (n / base + 1) _ _ hlt (by omega), ← digitsBefore_append]
    rfl

end ModRepair.Numeral
