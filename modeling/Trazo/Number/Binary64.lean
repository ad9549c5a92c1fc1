/-!
Binary floating-point numbers of 64 bits, by their exact values.

A finite number is `m * 2 ^ e` with `m < 2 ^ 53`. The leading bit of `m` is set unless `e` is the
least exponent, so every value has one form. A quotient is rounded to the nearest number, and
half way to the one with even `m`.
-/

namespace Trazo

inductive Binary64
  | finite (negative : Bool) (mantissa : Nat) (exponent : Int)
  | infinite (negative : Bool)
  | nan
  deriving DecidableEq, Inhabited

namespace Binary64

def minExponent : Int := -1074
def maxExponent : Int := 971

def pow2 (k : Nat) : Nat := Nat.pow 2 k

def pow10 (k : Nat) : Nat := Nat.pow 10 k

/-- The least mantissa with its leading bit set. -/
def leastNormal : Nat := pow2 52

def zero : Binary64 := .finite false 0 minExponent

/-- Writes `num / den * 2 ^ (-e)` as a quotient of natural numbers. -/
def scaled (num den : Nat) (e : Int) : Nat × Nat :=
  if e < 0 then (num * pow2 (-e).toNat, den) else (num, den * pow2 e.toNat)

/-- The natural number nearest to `num / den`; half way, the even one. -/
def roundDiv (num den : Nat) : Nat :=
  let q := num / den
  let r := num % den
  if 2 * r < den then q
  else if 2 * r > den then q + 1
  else q + q % 2

/-- The exponent for which `num / den` has 53 bits before the point, no less than the least. -/
def exponentOf (num den : Nat) : Int :=
  let e : Int := (num.log2 : Int) - den.log2 - 52
  let (n, d) := scaled num den e
  max minExponent (if n / d < leastNormal then e - 1 else e)

/-- The number nearest to `num / den`. -/
def ofRatio (negative : Bool) (num den : Nat) : Binary64 :=
  if num = 0 then .finite negative 0 minExponent
  else
    let e := exponentOf num den
    let (n, d) := scaled num den e
    let m := roundDiv n d
    let (m, e) := if m = 2 * leastNormal then (leastNormal, e + 1) else (m, e)
    if e > maxExponent then .infinite negative else .finite negative m e

/-- The number nearest to `n`. -/
def ofInt (n : Int) : Binary64 := ofRatio (n < 0) n.natAbs 1

/-- The number nearest to `digits * 10 ^ exponent`. Far outside the range the power need not be
computed: a number of `k` digits is below `10 ^ k`. -/
def ofDecimal (negative : Bool) (digits : Nat) (exponent : Int) : Binary64 :=
  let k : Int := digits.log2 + 1
  if digits = 0 then .finite negative 0 minExponent
  else if exponent > 400 then .infinite negative
  else if exponent + k < -400 then .finite negative 0 minExponent
  else if exponent < 0 then ofRatio negative digits (pow10 (-exponent).toNat)
  else ofRatio negative (digits * pow10 exponent.toNat) 1

/-- Order of `m * 2 ^ e` and `m' * 2 ^ e'`. -/
def compareMagnitude (m : Nat) (e : Int) (m' : Nat) (e' : Int) : Ordering :=
  let k := min e e'
  compare (m * pow2 (e - k).toNat) (m' * pow2 (e' - k).toNat)

/-- Whether the first number is at most the second; never so with a NaN. -/
def le : Binary64 → Binary64 → Bool
  | .nan, _ => false
  | _, .nan => false
  | .infinite n, y => n || y == .infinite false
  | .finite .., .infinite n => !n
  | .finite n m e, .finite n' m' e' =>
    if m = 0 && m' = 0 then true
    else match n, n' with
      | false, false => compareMagnitude m e m' e' != .gt
      | true, true => compareMagnitude m' e' m e != .gt
      | true, false => true
      | false, true => false

/-- The integer that a finite number equals, if it equals one. -/
def toInt? : Binary64 → Option Int
  | .finite n m e =>
    if e ≥ 0 then
      let k := m * pow2 e.toNat
      some (if n then -(k : Int) else k)
    else
      let d := pow2 (-e).toNat
      if m % d = 0 then some (if n then -((m / d : Nat) : Int) else (m / d : Nat)) else none
  | _ => none

end Binary64

end Trazo
