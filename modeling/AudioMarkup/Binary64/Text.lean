import AudioMarkup.Binary64.Decimal

/-!
The shortest decimal that reads back as a given number. The digits are searched length by length;
on each decimal grid only the two neighbours of the number can be nearest, and a candidate counts
if reading it gives the number back.

Numbers are written in two formats. A script has its numbers in positional notation of any length. A
tree has a fraction in every number and an exponent far from one; it cannot hold values that are
not finite.
-/

namespace AudioMarkup

-- Powers of naturals are the ones of the core library, also next to algebra that has its own.
attribute [local instance (high)] instPowNat

inductive Tie where
  | up
  | toEven
  deriving DecidableEq, Repr

namespace Binary64

def exactDecimal (x : Binary64) : Decimal :=
  if 1075 ≤ x.biasedExponent then
    { digits := x.significand * 2 ^ (x.biasedExponent - 1075), exponent := 0 }
  else
    let halvings := 1075 - x.biasedExponent
    { digits := x.significand * 5 ^ halvings, exponent := -halvings }

def readsBack (x : Binary64) (decimal : Decimal) : Bool :=
  (decimal.toBinary64 false).magnitudeBits == x.magnitudeBits

/-- The decimal nearest to `x` among those on the grid of `10 ^ exponent` that read back. -/
def onGrid? (tie : Tie) (x : Binary64) (exponent : Int) : Option Decimal :=
  let (numerator, denominator) := x.ratio
  let scaled := numerator * 10 ^ (-exponent).toNat
  let unit := denominator * 10 ^ exponent.toNat
  let below : Decimal := { digits := scaled / unit, exponent := exponent }
  let above : Decimal := { digits := scaled / unit + 1, exponent := exponent }
  let twice := 2 * (scaled % unit)
  let nearerBelow := twice < unit || (twice == unit && tie == .toEven && below.digits % 2 == 0)
  match x.readsBack below, x.readsBack above with
  | true, true => some (if nearerBelow then below else above)
  | true, false => some below
  | false, true => some above
  | false, false => none

/-- The `e` with `10 ^ (e - 1) ≤ x < 10 ^ e`, for a positive finite number. -/
def decimalPoint (x : Binary64) : Int :=
  ((Decimal.digitsOf x.exactDecimal.digits).length : Int) + x.exactDecimal.exponent

/-- The shortest decimal that reads back as the magnitude of a positive finite number, nearest to
it among those of that length. Seventeen digits are always enough. -/
def shortest (tie : Tie) (x : Binary64) : Decimal :=
  let point := x.decimalPoint
  let grids := (List.range 17).map fun (length : Nat) => point - (length + 1)
  ((grids.findSome? (x.onGrid? tie)).getD x.exactDecimal).trim

end Binary64

/-! ### Text -/

namespace Decimal

def zeros (count : Int) : List Char := List.replicate count.toNat '0'

/-- The number of digits before the point; not positive for values below one. -/
def point (decimal : Decimal) : Int := ((digitsOf decimal.digits).length : Int) + decimal.exponent

/-- Positional notation: a zero before the point where no digit stands there, and no point after
the last digit. -/
def positional (decimal : Decimal) : List Char :=
  let digits := digitsOf decimal.digits
  if decimal.point ≤ 0 then '0' :: '.' :: zeros (-decimal.point) ++ digits
  else if 0 ≤ decimal.exponent then digits ++ zeros decimal.exponent
  else digits.take decimal.point.toNat ++ '.' :: digits.drop decimal.point.toNat

def scientific (decimal : Decimal) : List Char :=
  let digits := digitsOf decimal.digits
  let exponent := decimal.point - 1
  let mantissa := match digits with
    | first :: second :: rest => first :: '.' :: second :: rest
    | short => short
  let sign := if exponent < 0 then '-' else '+'
  mantissa ++ 'e' :: sign :: Nat.toDigits 10 exponent.natAbs

end Decimal

namespace Binary64

def signed (x : Binary64) (magnitude : List Char) : String :=
  String.ofList (if x.isNegative then '-' :: magnitude else magnitude)

def scriptText (x : Binary64) : String :=
  if x.isInfinite then x.signed "Infinity".toList
  else if !x.isFinite then "NaN"
  else if x.isZero then x.signed ['0']
  else x.signed (x.shortest .up).positional

/-- The text of a number in a tree: positional from `10 ^ -5` up to `10 ^ 16`. -/
def treeText (x : Binary64) : String :=
  if !x.isFinite then "null"
  else if x.isZero then x.signed "0.0".toList
  else
    let decimal := x.shortest .toEven
    if -4 ≤ decimal.point && decimal.point ≤ 16 then
      x.signed (decimal.positional ++ if 0 ≤ decimal.exponent then ".0".toList else [])
    else x.signed decimal.scientific

end Binary64

end AudioMarkup
