import Trazo.Number.Binary64

/-!
The shortest decimal of a binary number.

Of all decimals that round to the number, those with the fewest digits are taken, and of these
the one nearest to the number, half way the even one. The reals that round to `m * 2 ^ e` form an
interval around it, whose ends belong to it when `m` is even. For each count of digits only the two
neighbours of the number on that decimal grid have to be tried.
-/

namespace Trazo.Binary64

/-- A value between two ends, all over one denominator, and whether the ends count. -/
structure Interval where
  low : Nat
  value : Nat
  high : Nat
  den : Nat
  closed : Bool

/-- The reals that round to `m * 2 ^ e`. Below a power of two the numbers lie twice as close. -/
def interval (m : Nat) (e : Int) : Interval :=
  let narrow := m = leastNormal && e > minExponent
  let unit := if e < 2 then 1 else pow2 (e - 2).toNat
  let den := if e < 2 then pow2 (2 - e).toNat else 1
  { low := (4 * m - (if narrow then 1 else 2)) * unit
    value := 4 * m * unit
    high := (4 * m + 2) * unit
    den := den
    closed := m % 2 = 0 }

namespace Interval

/-- Whether `n * 10 ^ q` lies in the interval. -/
def contains (i : Interval) (n : Nat) (q : Int) : Bool :=
  let x := n * pow10 q.toNat * i.den
  let s := pow10 (-q).toNat
  if i.closed then i.low * s ≤ x && x ≤ i.high * s
  else i.low * s < x && x < i.high * s

/-- The number of digits before the point; zero or less when the value is below one. -/
def magnitude (i : Interval) : Int :=
  if i.value ≥ i.den then ((Nat.toDigits 10 (i.value / i.den)).length : Int)
  else
    let zeros := ((List.range 400).find? fun j => i.value * pow10 (j + 1) ≥ i.den).getD 0
    0 - (zeros : Int)

/-- The better neighbour of the value among the multiples of `10 ^ q`, if one is inside. -/
def neighbour (i : Interval) (q : Int) : Option Nat :=
  let num := i.value * pow10 (-q).toNat
  let den := i.den * pow10 q.toNat
  let n := num / den
  match i.contains n q, i.contains (n + 1) q with
  | true, true => some (roundDiv num den)
  | true, false => some n
  | false, true => some (n + 1)
  | false, false => none

/-- Digits `n` and exponent `q` of the shortest decimal `n * 10 ^ q`; 17 digits always do. -/
def shortest (i : Interval) : Nat × Int :=
  let p := i.magnitude
  ((List.range 17).findSome? fun k =>
    let q := p - (k + 1 : Nat)
    (i.neighbour q).map fun n => (n, q)).getD (i.value / i.den, 0)

end Interval

/-- The digits without the zeros at the end, and the place of the point after the first of
them. -/
def placed (n : Nat) (q : Int) : List Char × Int :=
  let ds := Nat.toDigits 10 n
  ((ds.reverse.dropWhile (· = '0')).reverse, ds.length + q)

/-- How decimals are laid out: plain when the point falls at most this many places before the
first digit, and at most that many after it. -/
structure Layout where
  leastPoint : Int
  greatestPoint : Int

/-- Numbers are written plainly from `0.0001` up to sixteen digits before the point. -/
def plain : Layout := ⟨-3, 16⟩

private def padded (n : Nat) : String := if n < 10 then "0" ++ toString n else toString n

/-- The decimal `0.ds * 10 ^ point`, with at least one digit after the point or an exponent of at
least two digits. -/
def Layout.write (l : Layout) (ds : List Char) (point : Int) : String :=
  let len : Int := ds.length
  if point < l.leastPoint || point > l.greatestPoint then
    let mant := match ds with
      | [] => []
      | [d] => [d]
      | d :: r => d :: '.' :: r
    let x := point - 1
    String.ofList mant ++ (if x < 0 then "e-" else "e+") ++ padded x.natAbs
  else if point ≤ 0 then
    "0." ++ String.ofList (List.replicate (-point).toNat '0' ++ ds)
  else if point ≥ len then
    String.ofList (ds ++ List.replicate (point - len).toNat '0') ++ ".0"
  else
    String.ofList (ds.take point.toNat) ++ "." ++ String.ofList (ds.drop point.toNat)

/-- The shortest text that reads back as the number. -/
def display : Binary64 → String
  | .nan => "nan"
  | .infinite n => if n then "-inf" else "inf"
  | .finite n m e =>
    let s := if n then "-" else ""
    if m = 0 then s ++ "0.0"
    else
      let (d, q) := (interval m e).shortest
      let (ds, point) := placed d q
      s ++ plain.write ds point

end Trazo.Binary64
