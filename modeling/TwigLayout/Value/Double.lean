/-!
# Floating point numbers

Binary numbers of double precision as exact values: a mantissa below `2 ^ 53` times a power of two.
Reading a decimal rounds it to the nearest such number, and writing one gives the fewest decimal
digits that read back as it.
-/

namespace TwigLayout

inductive Double where
  | finite (negative : Bool) (mantissa : Nat) (exponent : Int)
  | infinite (negative : Bool)
  | nan
  deriving DecidableEq, Repr

namespace Double

/-! ## Exact arithmetic -/

/-- The fraction `num / den` times `base ^ e`, as numerator and denominator. -/
def scale (base num den : Nat) (e : Int) : Nat × Nat :=
  if 0 ≤ e then (num * base.pow e.toNat, den) else (num, den * base.pow (-e).toNat)

/-- The integer nearest to `num / den`. A half goes to the even neighbour. -/
def roundDiv (num den : Nat) : Nat :=
  let q := num / den
  let r := num % den
  if 2 * r < den then q else if den < 2 * r then q + 1 else q + q % 2

/-! ## Reading decimals -/

/-- Two to the power 53. Every mantissa is below it. -/
def mantissaBound : Nat := Nat.pow 2 53

/-- Two to the power 52, the least mantissa of a number that is not next to zero. -/
def mantissaStart : Nat := Nat.pow 2 52

def minExponent : Int := -1074

def maxExponent : Int := 971

/-- The double nearest to the positive fraction `num / den`. -/
def ofFraction (negative : Bool) (num den : Nat) : Double :=
  let guess : Int := (Nat.log2 num : Int) - (Nat.log2 den : Int) - 53
  let small (e : Int) : Bool :=
    let (n, d) := scale 2 num den (-e)
    n / d < mantissaBound
  let e := if small guess then guess else if small (guess + 1) then guess + 1 else guess + 2
  let e := if e < minExponent then minExponent else e
  let (n, d) := scale 2 num den (-e)
  let m := roundDiv n d
  let (m, e) := if m = mantissaBound then (mantissaStart, e + 1) else (m, e)
  if maxExponent < e then infinite negative else finite negative m e

/-- The double nearest to `digits * 10 ^ e`. Decimals far outside the range are decided by their
number of digits. -/
def ofDecimal (negative : Bool) (digits : Nat) (e : Int) : Double :=
  let magnitude : Int := (Nat.toDigits 10 digits).length + e
  if digits = 0 || magnitude < -400 then finite negative 0 minExponent
  else if 400 < magnitude then infinite negative
  else
    let (num, den) := scale 10 digits 1 e
    ofFraction negative num den

/-! ## Writing decimals -/

/-- Whether `num / den` reads back as the number `m * 2 ^ e`: it lies between the two halfway points
to the neighbours. A halfway point itself goes to an even mantissa. -/
def readsBack (m : Nat) (e : Int) (num den : Nat) : Bool :=
  let below := if m = mantissaStart && minExponent < e then 4 * m - 1 else 4 * m - 2
  let above := 4 * m + 2
  let (loNum, loDen) := scale 2 below 4 e
  let (hiNum, hiDen) := scale 2 above 4 e
  if m % 2 = 0 then
    loNum * den ≤ num * loDen && num * hiDen ≤ hiNum * den
  else
    loNum * den < num * loDen && num * hiDen < hiNum * den

/-- The largest `k` with `10 ^ k ≤ num / den`, for a positive fraction. -/
def decimalExponent (num den : Nat) : Int :=
  if den ≤ num then ((Nat.toDigits 10 (num / den)).length : Int) - 1
  else
    let k := (Nat.toDigits 10 (den / num)).length
    if den ≤ num * Nat.pow 10 (k - 1) then -((k : Int) - 1) else -(k : Int)

/-- A decimal of one digit: ten units are one of the next size. -/
def carried : Nat × Int → Nat × Int
  | (10, unit) => (1, unit + 1)
  | decimal => decimal

/-- The decimal of `n` digits nearest to `m * 2 ^ e` that reads back as it, if there is one. -/
def decimalOf (m : Nat) (e : Int) (n : Nat) : Option (Nat × Int) :=
  let (num, den) := scale 2 m 1 e
  let unit : Int := decimalExponent num den - n + 1
  let (gridNum, gridDen) := scale 10 num den (-unit)
  let down := gridNum / gridDen
  let fits (d : Nat) : Bool :=
    let (a, b) := scale 10 d 1 unit
    readsBack m e a b
  let near := roundDiv gridNum gridDen
  let far := if near = down then down + 1 else down
  if fits near then some (carried (near, unit))
  else if fits far then some (carried (far, unit))
  else none

/-- The fewest digits that read back, with the power of ten of the last of them. Seventeen digits
always do. -/
def shortest (m : Nat) (e : Int) : Nat × Int :=
  ((List.range 17).findSome? fun n => decimalOf m e (n + 1)).getD (0, 0)

/-- The text of a positive decimal: positional while the first digit stands for a power of ten from
`-4` to `15`, with a point always, and with an exponent of at least two digits otherwise. -/
def decimalText (digits : Nat) (e : Int) : String :=
  let ds := Nat.toDigits 10 digits
  let point : Int := ds.length + e
  if -3 ≤ point && point ≤ 16 then
    if point ≤ 0 then "0." ++ String.ofList (List.replicate (-point).toNat '0' ++ ds)
    else if e < 0 then
      String.ofList (ds.take point.toNat) ++ "." ++ String.ofList (ds.drop point.toNat)
    else String.ofList (ds ++ List.replicate e.toNat '0') ++ ".0"
  else
    let power := point - 1
    let tail := if ds.length = 1 then "" else "." ++ String.ofList (ds.drop 1)
    let size := Nat.toDigits 10 power.natAbs
    let size := if size.length < 2 then '0' :: size else size
    String.ofList (ds.take 1) ++ tail ++ (if power < 0 then "e-" else "e+") ++ String.ofList size

/-- The shortest text of a number. -/
def text : Double → String
  | nan => "nan"
  | infinite negative => if negative then "-inf" else "inf"
  | finite negative m e =>
    let (digits, unit) := if m = 0 then (0, 0) else shortest m e
    (if negative then "-" else "") ++ decimalText digits unit

/-! ## Sums -/

/-- The double nearest to a fraction of any sign, zero included. -/
def ofSigned (num : Int) (den : Nat) : Double :=
  if num = 0 then finite false 0 minExponent else ofFraction (num < 0) num.natAbs den

/-- The double nearest to a number times a positive natural number. -/
def scaled (x : Double) (n : Nat) : Double :=
  match x with
  | finite negative m e =>
    let (num, den) := scale 2 (m * n) 1 e
    if num = 0 then finite negative 0 minExponent else ofFraction negative num den
  | x => x

/-- The double nearest to the sum of two numbers. -/
def add : Double → Double → Double
  | finite a m e, finite b n f =>
    let (num, den) := scale 2 m 1 e
    let (num', den') := scale 2 n 1 f
    let signed (negative : Bool) (k : Nat) : Int := if negative then -k else k
    ofSigned (signed a (num * den') + signed b (num' * den)) (den * den')
  | infinite a, infinite b => if a = b then infinite a else nan
  | infinite a, finite .. => infinite a
  | finite .., infinite b => infinite b
  | nan, _ => nan
  | _, nan => nan

def negate : Double → Double
  | finite negative m e => finite (!negative) m e
  | infinite negative => infinite (!negative)
  | nan => nan

/-! ## Comparison -/

/-- The integer that a number is, if it is one. -/
def toInt? : Double → Option Int
  | finite negative m e =>
    let (num, den) := scale 2 m 1 e
    if num % den = 0 then
      let n : Int := num / den
      some (if negative then -n else n)
    else none
  | _ => none

def isZero : Double → Bool
  | finite _ m _ => m == 0
  | _ => false

/-- Whether the number is at least `n`. -/
def atLeast (n : Nat) : Double → Bool
  | nan => false
  | infinite negative => !negative
  | finite true m _ => n == 0 && m == 0
  | finite false m e =>
    let (num, den) := scale 2 m 1 e
    n * den ≤ num

end Double

end TwigLayout
