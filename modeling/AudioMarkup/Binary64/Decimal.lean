import AudioMarkup.Binary64.Basic

/-!
Decimals and the numbers nearest to them. A numeral is read as an exact decimal first and rounded
once.

Numerals may have a sign, a fraction, an exponent, digits on one side of the point only, or be one
of the words for infinity and for no number at all. Digits are ASCII. The digits before the exponent
count without a limit to their number, those of the exponent only up to a bound.

`natOfDigits_eq_foldl` states that reading digits in blocks gives their decimal value.
-/

namespace AudioMarkup

-- Powers of naturals are the ones of the core library, also next to algebra that has its own.
attribute [local instance (high)] instPowNat

/-- The exact value `digits * 10 ^ exponent`. -/
structure Decimal where
  digits : Nat
  exponent : Int
  deriving DecidableEq, Repr, Inhabited

namespace Decimal

/-- The decimal digits of a natural; zero has none. -/
def digitsOf (n : Nat) : List Char :=
  if n = 0 then [] else Nat.toDigits 10 n

def trim (decimal : Decimal) : Decimal :=
  let zeros := ((digitsOf decimal.digits).reverse.takeWhile (· == '0')).length
  { digits := decimal.digits / 10 ^ zeros, exponent := decimal.exponent + zeros }

/-- The number nearest to a decimal. As `10 ^ e` lies beyond `2 ^ (3 * e)`, decimals far outside
the range of the format are recognised before any power of ten is computed. -/
def toBinary64 (negative : Bool) (decimal : Decimal) : Binary64 :=
  let scale := (decimal.digits.log2 : Int) + 3 * decimal.exponent
  if decimal.digits = 0 || (decimal.exponent < 0 && scale < -1100) then .ofMagnitudeBits negative 0
  else if 0 ≤ decimal.exponent && 1100 < scale then .infinity negative
  else .ofRatio negative (decimal.digits * 10 ^ decimal.exponent.toNat)
    (10 ^ (-decimal.exponent).toNat)

end Decimal

namespace Numeral

def appendDigit (value : Nat) (digit : Char) : Nat := value * 10 + (digit.toNat - '0'.toNat)

/-- Digits read so far, where the last of them form a block that is still short: `unit` is ten to
the number of its digits. A long numeral takes a step on a large natural only once for every
block. -/
structure Blocks where
  total : Nat
  block : Nat
  unit : Nat

def Blocks.value (blocks : Blocks) : Nat := blocks.total * blocks.unit + blocks.block

def Blocks.extend (blocks : Blocks) (digit : Char) : Blocks where
  total := blocks.total
  block := appendDigit blocks.block digit
  unit := blocks.unit * 10

def Blocks.settle (blocks : Blocks) : Blocks :=
  if blocks.unit < 10 ^ (18 : Nat) then blocks else { total := blocks.value, block := 0, unit := 1 }

def Blocks.push (blocks : Blocks) (digit : Char) : Blocks := (blocks.extend digit).settle

theorem Blocks.value_extend (blocks : Blocks) (digit : Char) :
    (blocks.extend digit).value = appendDigit blocks.value digit := by
  simp only [Blocks.value, Blocks.extend, appendDigit, Nat.add_mul, Nat.mul_assoc, Nat.add_assoc]

theorem Blocks.value_settle (blocks : Blocks) : blocks.settle.value = blocks.value := by
  unfold Blocks.settle
  split
  · rfl
  · simp [Blocks.value]

theorem Blocks.value_push (blocks : Blocks) (digit : Char) :
    (blocks.push digit).value = appendDigit blocks.value digit := by
  rw [Blocks.push, Blocks.value_settle, Blocks.value_extend]

theorem Blocks.value_foldl_push (digits : List Char) (blocks : Blocks) :
    (digits.foldl Blocks.push blocks).value = digits.foldl appendDigit blocks.value := by
  induction digits generalizing blocks with
  | nil => rfl
  | cons digit rest ih =>
      rw [List.foldl_cons, List.foldl_cons, ih, Blocks.value_push]

def natOfDigits (digits : List Char) : Nat :=
  (digits.foldl Blocks.push { total := 0, block := 0, unit := 1 }).value

/-- Blocks are a matter of speed only. -/
theorem natOfDigits_eq_foldl (digits : List Char) :
    natOfDigits digits = digits.foldl appendDigit 0 := by
  rw [natOfDigits, Blocks.value_foldl_push]
  rfl

/-- The size of an exponent. Once it has reached 65536 the digits that follow are passed over, so
that it stays below 655360 however many there are. -/
def exponentOfDigits (digits : List Char) : Nat :=
  digits.foldl (fun size digit => if size < 65536 then appendDigit size digit else size) 0

/-- A sign, if there is one, and the rest; true stands for minus. -/
def splitSign : List Char → Bool × List Char
  | '-' :: rest => (true, rest)
  | '+' :: rest => (false, rest)
  | text => (false, text)

def exponent? : List Char → Option Int
  | [] => some 0
  | mark :: rest =>
    if mark = 'e' || mark = 'E' then
      let (negative, digits) := splitSign rest
      if digits.isEmpty || !digits.all Char.isDigit then none
      else if negative then some (-exponentOfDigits digits) else some (exponentOfDigits digits)
    else none

def decimal? (text : List Char) : Option Decimal :=
  let whole := text.takeWhile Char.isDigit
  let (fraction, tail) : List Char × List Char :=
    match text.dropWhile Char.isDigit with
    | '.' :: rest => (rest.takeWhile Char.isDigit, rest.dropWhile Char.isDigit)
    | rest => ([], rest)
  if whole.isEmpty && fraction.isEmpty then none
  else (exponent? tail).map fun exponent =>
    { digits := natOfDigits (whole ++ fraction), exponent := exponent - fraction.length }

def read? (text : String) : Option Binary64 :=
  let (negative, unsigned) := splitSign text.toList
  let word := String.ofList (unsigned.map Char.toLower)
  if word = "inf" || word = "infinity" then some (.infinity negative)
  else if word = "nan" then some .nan
  else (decimal? unsigned).map (·.toBinary64 negative)

end Numeral
end AudioMarkup
