/-!
Numbers of the markup: binary64 values, kept as their 64 bits. A finite value is a significand
times a power of two, both exact naturals or integers; no floating point operation is used.

`ofRatio` rounds a ratio of naturals to the nearest value, a half to the even neighbour.
-/

namespace AudioMarkup

-- Powers of naturals are the ones of the core library, also next to algebra that has its own.
attribute [local instance (high)] instPowNat

structure Binary64 where
  bits : UInt64
  deriving DecidableEq, Repr, Inhabited

namespace Binary64

/-- The bits without the sign. Among finite values of one sign they are ordered as the values. -/
def magnitudeBits (x : Binary64) : Nat := x.bits.toNat % 2 ^ (63 : Nat)

def isNegative (x : Binary64) : Bool := 2 ^ (63 : Nat) ≤ x.bits.toNat

/-- The magnitude bits of infinity; those of a NaN are greater. -/
def infinityBits : Nat := 0x7ff * 2 ^ (52 : Nat)

def isFinite (x : Binary64) : Bool := x.magnitudeBits < infinityBits

def isInfinite (x : Binary64) : Bool := x.magnitudeBits == infinityBits

def isZero (x : Binary64) : Bool := x.magnitudeBits == 0

/-- The biased exponent of a finite value, at least one: subnormal values share the least. -/
def biasedExponent (x : Binary64) : Nat := max 1 (x.magnitudeBits / 2 ^ (52 : Nat))

/-- The significand `m` of a finite value `m * 2 ^ (biasedExponent - 1075)`. -/
def significand (x : Binary64) : Nat :=
  if x.magnitudeBits < 2 ^ (52 : Nat) then x.magnitudeBits
  else 2 ^ (52 : Nat) + x.magnitudeBits % 2 ^ (52 : Nat)

def ratio (x : Binary64) : Nat × Nat :=
  if 1075 ≤ x.biasedExponent then (x.significand * 2 ^ (x.biasedExponent - 1075), 1)
  else (x.significand, 2 ^ (1075 - x.biasedExponent))

def ofMagnitudeBits (negative : Bool) (magnitude : Nat) : Binary64 :=
  ⟨UInt64.ofNat (if negative then 2 ^ (63 : Nat) + magnitude else magnitude)⟩

def infinity (negative : Bool) : Binary64 := ofMagnitudeBits negative infinityBits

def nan : Binary64 := ofMagnitudeBits false (infinityBits + 2 ^ (51 : Nat))

/-- The quotient to the nearest natural, a half to the even neighbour. -/
def divideToEven (numerator denominator : Nat) : Nat :=
  let quotient := numerator / denominator
  let twice := 2 * (numerator % denominator)
  if twice < denominator then quotient
  else if denominator < twice then quotient + 1
  else quotient + quotient % 2

/-- The greatest `e` with `2 ^ e ≤ numerator / denominator`, for positive arguments. -/
def floorLog2 (numerator denominator : Nat) : Int :=
  let estimate : Int := (numerator.log2 : Int) - denominator.log2
  if denominator * 2 ^ estimate.toNat ≤ numerator * 2 ^ (-estimate).toNat then estimate
  else estimate - 1

/-- The magnitude bits of the value nearest to a positive ratio; infinity beyond the greatest.
With `m` units of `2 ^ q` the bits are `(q + 1074) * 2 ^ 52 + m`, also when rounding carries `m`
into the next binade. -/
def nearestBits (numerator denominator : Nat) : Nat :=
  let unit : Int := max (floorLog2 numerator denominator - 52) (-1074)
  let count := divideToEven (numerator * 2 ^ (-unit).toNat) (denominator * 2 ^ unit.toNat)
  min ((unit + 1074).toNat * 2 ^ (52 : Nat) + count) infinityBits

def ofRatio (negative : Bool) (numerator denominator : Nat) : Binary64 :=
  ofMagnitudeBits negative (if numerator = 0 then 0 else nearestBits numerator denominator)

end Binary64
end AudioMarkup
