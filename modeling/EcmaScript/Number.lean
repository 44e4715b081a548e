import EcmaScript.Character

/-!
Values of numeric literals. Literals in radix two, eight and sixteen are exact integers of any size;
decimal ones are binary doubles, held as their 64 bits and rounded to nearest with ties to even.
-/

namespace EcmaScript

/-- The number `digits · 10 ^ exponent`. -/
structure Decimal where
  digits : Nat
  exponent : Int
  deriving DecidableEq, Repr

namespace Double

def infinity : UInt64 := 0x7FF0000000000000

/-- Quotient to the nearest integer; a tie goes to the even neighbour. -/
def roundDiv (num den : Nat) : Nat :=
  let quotient := num / den
  let twice := 2 * (num % den)
  if twice < den then quotient
  else if den < twice then quotient + 1
  else if quotient % 2 = 0 then quotient
  else quotient + 1

/-- The fraction `num / den` times `2 ^ shift`, as a fraction again. -/
def scale (num den : Nat) (shift : Int) : Nat × Nat :=
  if 0 ≤ shift then (num * Nat.pow 2 shift.toNat, den) else (num, den * Nat.pow 2 (-shift).toNat)

/-- The largest `e` with `2 ^ e ≤ num / den`, for a positive fraction. -/
def floorLog2 (num den : Nat) : Int :=
  let guess : Int := (num.log2 : Int) - den.log2
  let (n, d) := scale num den (-guess)
  if d ≤ n then guess else guess - 1

/-- Bits of `significand · 2 ^ exponent`, where the significand has at most 53 bits and has all of
them unless the exponent is the least one. -/
def encode (significand : Nat) (exponent : Int) : UInt64 :=
  if significand < Nat.pow 2 52 then UInt64.ofNat significand
  else if 971 < exponent then infinity
  else UInt64.ofNat ((exponent + 1075).toNat * Nat.pow 2 52 + (significand - Nat.pow 2 52))

/-- The double nearest to a positive fraction. -/
def ofFraction (num den : Nat) : UInt64 :=
  let exponent := max (floorLog2 num den - 52) (-1074)
  let (n, d) := scale num den (-exponent)
  let significand := roundDiv n d
  if significand = Nat.pow 2 53 then encode (Nat.pow 2 52) (exponent + 1) else encode significand exponent

/-- The double nearest to a decimal. Decimals far outside the range of doubles are recognised by
their size and never expanded. -/
def ofDecimal (d : Decimal) : UInt64 :=
  let size : Int := ((Nat.toDigits 10 d.digits).length : Int) + d.exponent
  if d.digits = 0 then 0
  else if 320 < size then infinity
  else if size < -340 then 0
  else if 0 ≤ d.exponent then ofFraction (d.digits * Nat.pow 10 d.exponent.toNat) 1
  else ofFraction d.digits (Nat.pow 10 (-d.exponent).toNat)

end Double

inductive Number where
  | integer (value : Nat)
  | double (bits : UInt64)
  deriving DecidableEq, Repr

end EcmaScript
