import AudioMarkup.Binary64.Text
import AudioMarkup.Proofs.Binary64.Rounding
import AudioMarkup.Token.Scan
import Mathlib.Data.List.TakeWhile

/-!
Numerals. A numeral without a sign and an exponent is read as the decimal of its digits, and the
script text of a finite number is such a numeral, one that is read as the number itself.

The digits of the text were found by a search that tries what is read from a candidate, so a found
candidate needs no argument; where the search finds none the exact decimal is taken, and that one
needs no rounding.
-/

namespace AudioMarkup

/-! ### Digits -/

namespace Numeral

theorem natOfDigits_eq_ofDigitChars (digits : List Char) :
    natOfDigits digits = Nat.ofDigitChars 10 digits 0 := by
  have step : appendDigit = fun value digit => 10 * value + (digit.toNat - '0'.toNat) := by
    funext value digit
    rw [appendDigit, Nat.mul_comm]
  rw [natOfDigits_eq_foldl, Nat.ofDigitChars_eq_foldl, step]

theorem natOfDigits_append (front back : List Char) :
    natOfDigits (front ++ back) = natOfDigits front * 10 ^ back.length + natOfDigits back := by
  simp only [natOfDigits_eq_ofDigitChars]
  rw [Nat.ofDigitChars_append, Nat.ofDigitChars_eq_ofDigitChars_zero, Nat.mul_comm]

theorem natOfDigits_zeros (count : Nat) : natOfDigits (List.replicate count '0') = 0 := by
  rw [natOfDigits_eq_ofDigitChars, Nat.ofDigitChars_replicate_zero, Nat.mul_zero]

end Numeral

namespace Decimal

open Numeral

theorem natOfDigits_digitsOf (value : Nat) : natOfDigits (digitsOf value) = value := by
  unfold digitsOf
  split
  · rename_i zero
    rw [zero]
    rfl
  · rw [natOfDigits_eq_ofDigitChars, Nat.ofDigitChars_ten_toDigits]

theorem all_isDigit_digitsOf (value : Nat) : (digitsOf value).all Char.isDigit = true := by
  unfold digitsOf
  split
  · rfl
  · rw [List.all_eq_true]
    intro digit member
    exact Nat.isDigit_of_mem_toDigits (by omega) (by omega) member

theorem digitsOf_ne_nil {value : Nat} (nonzero : value ≠ 0) : digitsOf value ≠ [] := by
  rw [digitsOf, if_neg nonzero]
  exact Nat.toDigits_ne_nil

theorem value_shift (digits zeros : Nat) (exponent : Int) :
    value { digits := digits * 10 ^ zeros, exponent } =
      value { digits, exponent := exponent + zeros } := by
  simp only [value]
  push_cast
  rw [zpow_add₀ (by norm_num), zpow_natCast]
  ring

/-- The zeros that are moved into the exponent stand at the end of the digits. -/
theorem value_trim (decimal : Decimal) : decimal.trim.value = decimal.value := by
  let zeros := ((digitsOf decimal.digits).reverse.takeWhile (· == '0')).length
  let front := ((digitsOf decimal.digits).reverse.dropWhile (· == '0')).reverse
  have split : digitsOf decimal.digits = front ++ List.replicate zeros '0' := by
    have tail : (digitsOf decimal.digits).reverse.takeWhile (· == '0') =
        List.replicate zeros '0' := by
      refine List.eq_replicate_iff.mpr ⟨rfl, fun digit member => ?_⟩
      exact beq_iff_eq.mp (List.mem_takeWhile_imp (p := fun digit => digit == '0') member)
    have whole := List.takeWhile_append_dropWhile (p := (· == '0'))
      (l := (digitsOf decimal.digits).reverse)
    rw [tail] at whole
    have reversed := congrArg List.reverse whole
    rw [List.reverse_append, List.reverse_replicate, List.reverse_reverse] at reversed
    exact reversed.symm
  have digits : decimal.digits = natOfDigits front * 10 ^ zeros := by
    have counted := congrArg natOfDigits split
    rwa [natOfDigits_digitsOf, natOfDigits_append, natOfDigits_zeros, Nat.add_zero,
      List.length_replicate] at counted
  have quotient : decimal.digits / 10 ^ zeros = natOfDigits front := by
    rw [digits, Nat.mul_div_cancel _ (Nat.pow_pos (by norm_num))]
  have trimmed : decimal.trim =
      { digits := natOfDigits front, exponent := decimal.exponent + zeros } := by
    rw [← quotient]
    rfl
  rw [trimmed, ← value_shift, ← digits]

end Decimal

/-! ### Numerals of digits and a point -/

namespace Text

theorem isDigits_iff {text : List Char} :
    isDigits text = true ↔ text ≠ [] ∧ ∀ digit ∈ text, digit.isDigit = true := by
  simp [isDigits]

private theorem ne_point_of_isDigit {digit : Char} (isDigit : digit.isDigit = true) :
    (digit != '.') = true := by
  rw [bne_iff_ne]
  intro point
  rw [point] at isDigit
  cases isDigit

theorem isDecimal_iff {text : List Char} :
    isDecimal text = true ↔ isDigits text = true ∨
      ∃ whole fraction, text = whole ++ '.' :: fraction ∧ isDigits whole = true ∧
        isDigits fraction = true := by
  constructor
  · intro decimal
    unfold isDecimal at decimal
    split at decimal
    · exact .inl decimal
    · rename_i point fraction dropped
      have pointFound : point = '.' := by
        have head := List.head?_dropWhile_not (fun digit => digit != '.') text
        rw [dropped] at head
        simpa using head
      have joined := List.takeWhile_append_dropWhile (p := (· != '.')) (l := text)
      rw [dropped, pointFound] at joined
      rw [Bool.and_eq_true] at decimal
      exact .inr ⟨_, fraction, joined.symm, decimal⟩
  · intro form
    rcases form with digits | ⟨whole, fraction, rfl, wholeDigits, fractionDigits⟩
    · have undotted := (isDigits_iff.mp digits).2
      have dropped : text.dropWhile (· != '.') = [] := by
        apply List.dropWhile_eq_nil_iff.mpr
        intro digit member
        exact ne_point_of_isDigit (undotted digit member)
      simp only [isDecimal, dropped, digits]
    · have undotted : ∀ digit ∈ whole, (digit != '.') = true :=
        fun digit member => ne_point_of_isDigit ((isDigits_iff.mp wholeDigits).2 digit member)
      have dropped : (whole ++ '.' :: fraction).dropWhile (· != '.') = '.' :: fraction := by
        rw [List.dropWhile_append_of_pos undotted]
        rfl
      have taken : (whole ++ '.' :: fraction).takeWhile (· != '.') = whole := by
        rw [List.takeWhile_append_of_pos undotted]
        exact List.append_nil _
      simp only [isDecimal, dropped, taken, wholeDigits, fractionDigits, Bool.and_self]

theorem isDecimal_starts {text : List Char} (decimal : isDecimal text = true) :
    ∃ first rest, text = first :: rest ∧ first.isDigit = true := by
  have starts {digits : List Char} (isDigits : Text.isDigits digits = true) :
      ∃ first rest, digits = first :: rest ∧ first.isDigit = true := by
    obtain ⟨nonempty, all⟩ := isDigits_iff.mp isDigits
    obtain ⟨first, rest, rfl⟩ := List.exists_cons_of_ne_nil nonempty
    exact ⟨first, rest, rfl, all first (List.mem_cons_self ..)⟩
  rcases isDecimal_iff.mp decimal with digits | ⟨whole, fraction, rfl, digits, _⟩
  · exact starts digits
  · obtain ⟨first, rest, rfl, isDigit⟩ := starts digits
    exact ⟨first, rest ++ '.' :: fraction, rfl, isDigit⟩

end Text

namespace Numeral

open Text (isDigits isDecimal isDigits_iff)

private theorem takeWhile_isDigit {digits : List Char} (rest : List Char)
    (isDigits : isDigits digits = true) :
    (digits ++ rest).takeWhile Char.isDigit = digits ++ rest.takeWhile Char.isDigit :=
  List.takeWhile_append_of_pos (isDigits_iff.mp isDigits).2

private theorem dropWhile_isDigit {digits : List Char} (rest : List Char)
    (isDigits : isDigits digits = true) :
    (digits ++ rest).dropWhile Char.isDigit = rest.dropWhile Char.isDigit :=
  List.dropWhile_append_of_pos (isDigits_iff.mp isDigits).2

theorem decimal?_digits {digits : List Char} (isDigits : isDigits digits = true) :
    decimal? digits = some { digits := natOfDigits digits, exponent := 0 } := by
  have taken := takeWhile_isDigit [] isDigits
  have dropped := dropWhile_isDigit [] isDigits
  have nonempty : digits.isEmpty = false := by
    simpa using (isDigits_iff.mp isDigits).1
  rw [List.append_nil] at taken dropped
  simp only [decimal?, taken, dropped, List.takeWhile_nil, List.dropWhile_nil, List.append_nil,
    nonempty, Bool.false_and, Bool.false_eq_true, if_false, exponent?, Option.map_some,
    List.length_nil]
  rfl

theorem decimal?_point {whole fraction : List Char} (wholeDigits : isDigits whole = true)
    (fractionDigits : isDigits fraction = true) :
    decimal? (whole ++ '.' :: fraction) =
      some { digits := natOfDigits (whole ++ fraction), exponent := -fraction.length } := by
  have fractionTaken := takeWhile_isDigit [] fractionDigits
  have fractionDropped := dropWhile_isDigit [] fractionDigits
  have nonempty : whole.isEmpty = false := by
    simpa using (isDigits_iff.mp wholeDigits).1
  have pointTaken : ('.' :: fraction).takeWhile Char.isDigit = [] := rfl
  have pointDropped : ('.' :: fraction).dropWhile Char.isDigit = '.' :: fraction := rfl
  rw [List.append_nil] at fractionTaken fractionDropped
  simp only [decimal?, takeWhile_isDigit _ wholeDigits, dropWhile_isDigit _ wholeDigits, pointTaken,
    pointDropped, fractionTaken, fractionDropped, List.takeWhile_nil, List.dropWhile_nil,
    List.append_nil, nonempty, Bool.false_and, Bool.false_eq_true, if_false, exponent?,
    Option.map_some, Int.zero_sub]

theorem splitSign_of_isDigit {first : Char} (rest : List Char) (isDigit : first.isDigit = true) :
    splitSign (first :: rest) = (false, first :: rest) := by
  unfold splitSign
  split
  · rename_i minus
    cases minus
    cases isDigit
  · rename_i plus
    cases plus
    cases isDigit
  · rfl

/-- A text that starts with a digit has no sign and is none of the words. -/
private theorem read?_of_isDigit {text : String} {first : Char} {rest : List Char}
    (starts : text.toList = first :: rest) (isDigit : first.isDigit = true) :
    read? text = (decimal? text.toList).map (·.toBinary64 false) := by
  have unsigned : splitSign text.toList = (false, text.toList) := by
    rw [starts]
    exact splitSign_of_isDigit rest isDigit
  have noWord (word : String) (letter : word.toList.head?.all Char.isDigit = false) :
      String.ofList (text.toList.map Char.toLower) ≠ word := by
    intro same
    have lower : first.toLower = first := by
      have notUpper : ¬('A'.val ≤ first.val ∧ first.val ≤ 'Z'.val) := by
        simp only [Char.isDigit, Bool.and_eq_true, decide_eq_true_eq,
          UInt32.le_iff_toNat_le] at isDigit ⊢
        intro upper
        have low : (65 : UInt32).toNat ≤ first.val.toNat := upper.1
        have high : first.val.toNat ≤ (57 : UInt32).toNat := isDigit.2
        exact absurd (Nat.le_trans low high) (by decide)
      exact dif_neg notUpper
    rw [← same, String.toList_ofList, starts, List.map_cons, List.head?_cons, Option.all_some,
      lower, isDigit] at letter
    cases letter
  simp only [read?, unsigned, noWord "inf" rfl, noWord "infinity" rfl, noWord "nan" rfl,
    decide_false, Bool.or_self, Bool.false_eq_true, if_false]

theorem read?_of_isDecimal {text : String} (decimal : isDecimal text.toList = true) :
    read? text = (decimal? text.toList).map (·.toBinary64 false) := by
  obtain ⟨first, rest, starts, isDigit⟩ := Text.isDecimal_starts decimal
  exact read?_of_isDigit starts isDigit

/-- Every text of the form of a number can be read as one, also with a minus sign. -/
theorem exists_read?_of_isNumeral {text : String} (numeral : Text.isNumeral text.toList = true) :
    ∃ value, read? text = some value := by
  have readable {unsigned : List Char} (decimal : isDecimal unsigned = true) :
      ∃ value, decimal? unsigned = some value := by
    rcases Text.isDecimal_iff.mp decimal with digits | ⟨whole, fraction, rfl, digits, behind⟩
    · exact ⟨_, decimal?_digits digits⟩
    · exact ⟨_, decimal?_point digits behind⟩
  obtain ⟨negative, unsigned, split, value, read⟩ : ∃ negative unsigned,
      splitSign text.toList = (negative, unsigned) ∧ ∃ value, decimal? unsigned = some value := by
    generalize text.toList = characters at numeral
    unfold Text.isNumeral at numeral
    split at numeral
    · exact ⟨true, _, rfl, readable numeral⟩
    · obtain ⟨first, rest, rfl, isDigit⟩ := Text.isDecimal_starts numeral
      exact ⟨false, first :: rest, splitSign_of_isDigit rest isDigit, readable numeral⟩
  rw [read?, split]
  dsimp only
  split
  · exact ⟨_, rfl⟩
  · split
    · exact ⟨_, rfl⟩
    · rw [read]
      exact ⟨_, rfl⟩

end Numeral

/-! ### Positional notation -/

namespace Decimal

open Text (isDigits isDecimal isDigits_iff isDecimal_iff)
open Numeral

private theorem isDigits_digitsOf {value : Nat} (nonzero : value ≠ 0) :
    isDigits (digitsOf value) = true :=
  isDigits_iff.mpr ⟨digitsOf_ne_nil nonzero, List.all_eq_true.mp (all_isDigit_digitsOf value)⟩

private theorem isDigit_of_mem_zeros {count : Int} {digit : Char} (member : digit ∈ zeros count) :
    digit.isDigit = true := by
  rw [(List.mem_replicate.mp member).2]
  rfl

/-- The characters are a numeral without a sign or an exponent, and of the value of the decimal. -/
def Notates (chars : List Char) (decimal : Decimal) : Prop :=
  isDecimal chars = true ∧ ∃ read, decimal? chars = some read ∧ read.value = decimal.value

private theorem notates_below_one {decimal : Decimal} (nonzero : decimal.digits ≠ 0)
    (belowOne : decimal.point ≤ 0) :
    Notates (['0'] ++ '.' :: (zeros (-decimal.point) ++ digitsOf decimal.digits)) decimal := by
  obtain ⟨nonempty, allDigits⟩ := isDigits_iff.mp (isDigits_digitsOf nonzero)
  have wholeDigits : isDigits ['0'] = true := rfl
  have fractionDigits : isDigits (zeros (-decimal.point) ++ digitsOf decimal.digits) = true := by
    refine isDigits_iff.mpr ⟨by simp [nonempty], fun digit member => ?_⟩
    rcases List.mem_append.mp member with zero | own
    · exact isDigit_of_mem_zeros zero
    · exact allDigits digit own
  have leading : natOfDigits (['0'] ++ (zeros (-decimal.point) ++ digitsOf decimal.digits)) =
      decimal.digits := by
    rw [natOfDigits_append, natOfDigits_append, zeros, natOfDigits_zeros,
      show natOfDigits ['0'] = 0 from rfl, natOfDigits_digitsOf, Nat.zero_mul, Nat.zero_mul,
      Nat.zero_add, Nat.zero_add]
  have places : -((zeros (-decimal.point) ++ digitsOf decimal.digits).length : Int) =
      decimal.exponent := by
    have total : decimal.point = (digitsOf decimal.digits).length + decimal.exponent := rfl
    rw [List.length_append, zeros, List.length_replicate]
    omega
  refine ⟨isDecimal_iff.mpr (.inr ⟨_, _, rfl, wholeDigits, fractionDigits⟩), _,
    decimal?_point wholeDigits fractionDigits, ?_⟩
  rw [leading, places]

private theorem notates_integral {decimal : Decimal} (nonzero : decimal.digits ≠ 0)
    (integral : 0 ≤ decimal.exponent) :
    Notates (digitsOf decimal.digits ++ zeros decimal.exponent) decimal := by
  obtain ⟨nonempty, allDigits⟩ := isDigits_iff.mp (isDigits_digitsOf nonzero)
  have wholeDigits : isDigits (digitsOf decimal.digits ++ zeros decimal.exponent) = true := by
    refine isDigits_iff.mpr ⟨by simp [nonempty], fun digit member => ?_⟩
    rcases List.mem_append.mp member with own | zero
    · exact allDigits digit own
    · exact isDigit_of_mem_zeros zero
  have places : (0 : Int) + decimal.exponent.toNat = decimal.exponent := by omega
  refine ⟨isDecimal_iff.mpr (.inl wholeDigits), _, decimal?_digits wholeDigits, ?_⟩
  rw [natOfDigits_append, natOfDigits_digitsOf, zeros, natOfDigits_zeros, Nat.add_zero,
    List.length_replicate, value_shift, places]

private theorem notates_fractional {decimal : Decimal} (nonzero : decimal.digits ≠ 0)
    (aboveOne : 0 < decimal.point) (fractional : decimal.exponent < 0) :
    Notates ((digitsOf decimal.digits).take decimal.point.toNat ++
      '.' :: (digitsOf decimal.digits).drop decimal.point.toNat) decimal := by
  obtain ⟨_, allDigits⟩ := isDigits_iff.mp (isDigits_digitsOf nonzero)
  have total : decimal.point = (digitsOf decimal.digits).length + decimal.exponent := rfl
  have wholeDigits : isDigits ((digitsOf decimal.digits).take decimal.point.toNat) = true := by
    apply isDigits_iff.mpr
    refine ⟨?_, fun digit member => allDigits digit (List.mem_of_mem_take member)⟩
    rw [← List.length_pos_iff, List.length_take]
    omega
  have fractionDigits : isDigits ((digitsOf decimal.digits).drop decimal.point.toNat) = true := by
    apply isDigits_iff.mpr
    refine ⟨?_, fun digit member => allDigits digit (List.mem_of_mem_drop member)⟩
    rw [← List.length_pos_iff, List.length_drop]
    omega
  have places : -(((digitsOf decimal.digits).drop decimal.point.toNat).length : Int) =
      decimal.exponent := by
    rw [List.length_drop]
    omega
  refine ⟨isDecimal_iff.mpr (.inr ⟨_, _, rfl, wholeDigits, fractionDigits⟩), _,
    decimal?_point wholeDigits fractionDigits, ?_⟩
  rw [List.take_append_drop, natOfDigits_digitsOf, places]

theorem notates_positional {decimal : Decimal} (nonzero : decimal.digits ≠ 0) :
    Notates decimal.positional decimal := by
  unfold positional
  dsimp only
  split
  · rename_i belowOne
    exact notates_below_one nonzero belowOne
  · rename_i aboveOne
    split
    · rename_i integral
      exact notates_integral nonzero integral
    · rename_i fractional
      exact notates_fractional nonzero (by omega) (by omega)

end Decimal

/-! ### The text of a number -/

namespace Binary64

/-- What is read from a decimal without a sign has none, and is a number. -/
theorem toBinary64_false (decimal : Decimal) :
    (decimal.toBinary64 false).isNegative = false ∧
      (decimal.toBinary64 false).magnitudeBits ≤ infinityBits := by
  have bounded : (if decimal.ratio.1 = 0 then 0
      else nearestBits decimal.ratio.1 decimal.ratio.2) ≤ infinityBits := by
    split
    · exact Nat.zero_le _
    · exact nearestBits_le _ _
  have small : infinityBits < 2 ^ 63 := by decide
  rw [Decimal.toBinary64_eq_ofRatio, ofRatio]
  constructor
  · exact isNegative_ofMagnitudeBits false (by omega)
  · rw [magnitudeBits_ofMagnitudeBits false (by omega)]
    exact bounded

private theorem eq_of_readsBack {x : Binary64} {decimal : Decimal}
    (positive : x.isNegative = false) (readsBack : x.readsBack decimal = true) :
    decimal.toBinary64 false = x := by
  have sameBits : (decimal.toBinary64 false).magnitudeBits = x.magnitudeBits :=
    beq_iff_eq.mp readsBack
  rw [← ofMagnitudeBits_magnitudeBits (toBinary64_false decimal).1, sameBits,
    ofMagnitudeBits_magnitudeBits positive]

private theorem readsBack_of_onGrid? {tie : Tie} {x : Binary64} {exponent : Int}
    {decimal : Decimal} (found : x.onGrid? tie exponent = some decimal) :
    x.readsBack decimal = true := by
  unfold onGrid? at found
  dsimp only at found
  split at found
  · rename_i belowReads aboveReads
    cases found
    split
    · exact belowReads
    · exact aboveReads
  · rename_i belowReads _
    cases found
    exact belowReads
  · rename_i _ aboveReads
    cases found
    exact aboveReads
  · cases found

private theorem value_halvings (significand halvings : Nat) :
    Decimal.value { digits := significand * 5 ^ halvings, exponent := -halvings } =
      (significand : ℚ) / ((2 ^ halvings : Nat) : ℚ) := by
  have power : (5 : ℚ) ^ halvings ≠ 0 := by positivity
  rw [Decimal.value]
  push_cast
  rw [zpow_neg, zpow_natCast, show (10 : ℚ) = 5 * 2 by norm_num, mul_pow]
  field_simp

private theorem value_exactDecimal (x : Binary64) :
    x.exactDecimal.value = (x.ratio.1 : ℚ) / (x.ratio.2 : ℚ) := by
  unfold exactDecimal ratio
  split
  · simp only [Decimal.value, zpow_zero, mul_one, Nat.cast_one, div_one]
  · exact value_halvings _ _

private theorem readsBack_exactDecimal {x : Binary64} (finite : x.isFinite = true) :
    x.readsBack x.exactDecimal = true := by
  have bounded : x.magnitudeBits < 2 ^ 63 := Nat.mod_lt _ (by decide)
  have denominatorPositive : 0 < x.ratio.2 := by
    rw [ratio_eq]
    exact Nat.two_pow_pos _
  have rounded : x.exactDecimal.toBinary64 false = ofMagnitudeBits false x.magnitudeBits := by
    rw [← ofRatio_ratio finite, Decimal.toBinary64_eq_ofRatio]
    refine ofRatio_congr false (Decimal.ratio_snd_pos _) denominatorPositive ?_
    rw [Decimal.ratio_value, value_exactDecimal]
  rw [readsBack, rounded, magnitudeBits_ofMagnitudeBits false bounded, beq_self_eq_true]

theorem readsBack_shortest (tie : Tie) {x : Binary64} (finite : x.isFinite = true) :
    x.readsBack (x.shortest tie) = true := by
  unfold shortest
  dsimp only
  rw [readsBack, Decimal.toBinary64_congr (Decimal.value_trim _)]
  cases found : List.findSome? (x.onGrid? tie)
      ((List.range 17).map fun (length : Nat) => x.decimalPoint - (length + 1)) with
  | none =>
      rw [Option.getD_none]
      exact readsBack_exactDecimal finite
  | some decimal =>
      obtain ⟨exponent, _, onGrid⟩ := List.exists_of_findSome?_eq_some found
      rw [Option.getD_some]
      exact readsBack_of_onGrid? onGrid

/-- The shortest decimal of a finite number is read as the number. -/
theorem toBinary64_shortest (tie : Tie) {x : Binary64} (finite : x.isFinite = true)
    (positive : x.isNegative = false) : (x.shortest tie).toBinary64 false = x :=
  eq_of_readsBack positive (readsBack_shortest tie finite)

theorem digits_shortest (tie : Tie) {x : Binary64} (finite : x.isFinite = true)
    (nonzero : x.isZero = false) : (x.shortest tie).digits ≠ 0 := by
  intro zero
  have readsBack := readsBack_shortest tie finite
  rw [Binary64.readsBack, Decimal.toBinary64_eq_ofRatio, ofRatio, Decimal.ratio, zero, Nat.zero_mul,
    if_pos rfl, beq_iff_eq] at readsBack
  rw [isZero, ← readsBack] at nonzero
  cases nonzero

/-- The script text of a finite number without a sign is a numeral for that number. -/
theorem read?_scriptText {x : Binary64} (finite : x.isFinite = true)
    (positive : x.isNegative = false) :
    Text.isDecimal x.scriptText.toList = true ∧ Numeral.read? x.scriptText = some x := by
  have notInfinite : x.isInfinite = false := by
    rw [isFinite, decide_eq_true_eq] at finite
    rw [isInfinite, beq_eq_false_iff_ne]
    exact finite.ne
  cases zero : x.isZero with
  | true =>
      have noBits : x.magnitudeBits = 0 := beq_iff_eq.mp zero
      have text : x.scriptText = "0" := by
        simp only [scriptText, notInfinite, finite, zero, signed, positive, Bool.false_eq_true,
          if_false, Bool.not_true, if_true]
      have number : x = ofMagnitudeBits false 0 := by
        rw [← noBits, ofMagnitudeBits_magnitudeBits positive]
      rw [text, number]
      exact ⟨rfl, by decide +kernel⟩
  | false =>
      have text : x.scriptText = String.ofList (x.shortest .up).positional := by
        simp only [scriptText, notInfinite, finite, zero, signed, positive, Bool.false_eq_true,
          if_false, Bool.not_true]
      obtain ⟨isDecimal, read, decimal, sameValue⟩ :=
        Decimal.notates_positional (digits_shortest .up finite zero)
      rw [text]
      rw [← String.toList_ofList (l := (x.shortest .up).positional)] at isDecimal decimal
      refine ⟨isDecimal, ?_⟩
      rw [Numeral.read?_of_isDecimal isDecimal, decimal, Option.map_some,
        Decimal.toBinary64_congr sameValue, toBinary64_shortest .up finite positive]

/-! ### Numbers that numerals stand for -/

/-- Neither negative nor the value that is no number. -/
def isWritable (x : Binary64) : Bool := !x.isNegative && (x.isFinite || x.isInfinite)

/-- A numeral for each number that has one. The first power of ten beyond all finite numbers stands
for infinity. -/
def numeral (x : Binary64) : String :=
  if x.isInfinite then String.ofList ('1' :: List.replicate 309 '0') else x.scriptText

theorem numeral_of_finite {x : Binary64} (finite : x.isFinite = true) :
    x.numeral = x.scriptText := by
  have notInfinite : x.isInfinite = false := by
    rw [isFinite, decide_eq_true_eq] at finite
    rw [isInfinite, beq_eq_false_iff_ne]
    exact finite.ne
  rw [numeral, notInfinite, if_neg Bool.false_ne_true]

theorem isWritable_of_read? {text : String} {x : Binary64}
    (decimal : Text.isDecimal text.toList = true) (read : Numeral.read? text = some x) :
    x.isWritable = true := by
  rw [Numeral.read?_of_isDecimal decimal, Option.map_eq_some_iff] at read
  obtain ⟨exact, _, rfl⟩ := read
  obtain ⟨positive, bounded⟩ := toBinary64_false exact
  rcases Nat.lt_or_eq_of_le bounded with less | same
  · simp only [isWritable, positive, isFinite, less, decide_true, Bool.true_or, Bool.not_false,
      Bool.and_self]
  · simp only [isWritable, positive, isInfinite, same, beq_self_eq_true, Bool.or_true,
      Bool.not_false, Bool.and_self]

private theorem read?_powerOfTen (zeros : Nat) :
    Text.isDecimal ('1' :: List.replicate zeros '0') = true ∧
      Numeral.read? (String.ofList ('1' :: List.replicate zeros '0')) =
        some (Decimal.toBinary64 false { digits := 1, exponent := zeros }) := by
  have digits : Text.isDigits ('1' :: List.replicate zeros '0') = true := by
    refine Text.isDigits_iff.mpr ⟨List.cons_ne_nil _ _, fun digit member => ?_⟩
    rcases List.mem_cons.mp member with rfl | zero
    · rfl
    · rw [(List.mem_replicate.mp zero).2]
      rfl
  have decimal := Text.isDecimal_iff.mpr (.inl digits)
  have counted : Numeral.natOfDigits ('1' :: List.replicate zeros '0') = 1 * 10 ^ zeros := by
    have split := Numeral.natOfDigits_append ['1'] (List.replicate zeros '0')
    rwa [Numeral.natOfDigits_zeros, List.length_replicate] at split
  have value := Decimal.value_shift 1 zeros 0
  rw [Int.zero_add] at value
  refine ⟨decimal, ?_⟩
  rw [Numeral.read?_of_isDecimal (by rwa [String.toList_ofList]), String.toList_ofList,
    Numeral.decimal?_digits digits, Option.map_some, counted, Decimal.toBinary64_congr value]

theorem read?_numeral {x : Binary64} (writable : x.isWritable = true) :
    Text.isDecimal x.numeral.toList = true ∧ Numeral.read? x.numeral = some x := by
  simp only [isWritable, Bool.and_eq_true, Bool.or_eq_true, Bool.not_eq_true'] at writable
  obtain ⟨positive, finite | infinite⟩ := writable
  · rw [numeral_of_finite finite]
    exact read?_scriptText finite positive
  · have number : x = infinity false := by
      rw [infinity, ← beq_iff_eq.mp infinite, ofMagnitudeBits_magnitudeBits positive]
    have beyond : Decimal.toBinary64 false { digits := 1, exponent := (309 : Nat) } =
        infinity false := by
      decide +kernel
    rw [numeral, if_pos infinite, String.toList_ofList, number, ← beyond]
    exact read?_powerOfTen 309

end Binary64
end AudioMarkup
