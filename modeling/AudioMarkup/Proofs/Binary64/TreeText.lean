import AudioMarkup.Proofs.Binary64.Numerals

/-!
Numbers in trees. The text of a finite number is its shortest decimal in one of two notations, and
each of them tells the value of the decimal. As the decimal reads back, the text tells the number.
-/

namespace AudioMarkup

def Text.isNumberPart (c : Char) : Bool := c.isDigit || c == '.' || c == 'e' || c == '+' || c == '-'

theorem Text.isNumberPart_of_isDigit {digit : Char} (isDigit : digit.isDigit = true) :
    isNumberPart digit = true := by
  rw [isNumberPart, isDigit]
  rfl

/-- A run of characters of one sort ends where a character is not of the sort. -/
theorem Text.run_inj {sort : Char → Bool} {first second behind beyond : List Char}
    (inFirst : ∀ c ∈ first, sort c = true) (inSecond : ∀ c ∈ second, sort c = true)
    (ends : behind.head?.all (!sort ·) = true) (otherEnds : beyond.head?.all (!sort ·) = true)
    (same : first ++ behind = second ++ beyond) : first = second ∧ behind = beyond := by
  have run {text rest : List Char} (inText : ∀ c ∈ text, sort c = true)
      (ends : rest.head?.all (!sort ·) = true) : (text ++ rest).takeWhile sort = text := by
    rw [List.takeWhile_append_of_pos inText]
    cases rest with
    | nil => simp
    | cons next rest => simpa using ends
  have runs : first = second := by
    rw [← run inFirst ends, same, run inSecond otherEnds]
  rw [runs] at same
  exact ⟨runs, List.append_cancel_left same⟩

namespace Decimal

open Text (isDigits isDecimal isDigits_iff isDecimal_iff isNumberPart isNumberPart_of_isDigit)
open Numeral

/-! ### Notation with an exponent -/

private def mantissa (decimal : Decimal) : List Char :=
  match digitsOf decimal.digits with
  | first :: second :: rest => first :: '.' :: second :: rest
  | short => short

private theorem scientific_eq (decimal : Decimal) :
    decimal.scientific = decimal.mantissa ++ 'e' :: (if decimal.point - 1 < 0 then '-' else '+') ::
      Nat.toDigits 10 (decimal.point - 1).natAbs := rfl

private theorem filter_mantissa (decimal : Decimal) :
    decimal.mantissa.filter Char.isDigit = digitsOf decimal.digits := by
  have digits := List.all_eq_true.mp (all_isDigit_digitsOf decimal.digits)
  unfold mantissa
  split
  · rename_i first second rest same
    rw [same] at digits
    have point : Char.isDigit '.' = false := rfl
    have others : (second :: rest).filter Char.isDigit = second :: rest :=
      List.filter_eq_self.mpr fun digit member => digits digit (List.mem_cons_of_mem _ member)
    rw [List.filter_cons_of_pos (digits first (by simp)), List.filter_cons_of_neg (by simp [point]),
      others, same]
  · exact List.filter_eq_self.mpr digits

private theorem mem_mantissa {decimal : Decimal} {c : Char} (member : c ∈ decimal.mantissa) :
    c.isDigit = true ∨ c = '.' := by
  have digits := List.all_eq_true.mp (all_isDigit_digitsOf decimal.digits)
  unfold mantissa at member
  split at member
  · rename_i first second rest same
    rw [same] at digits
    rcases List.mem_cons.mp member with rfl | behind
    · exact .inl (digits _ (by simp))
    · rcases List.mem_cons.mp behind with rfl | behind
      · exact .inr rfl
      · exact .inl (digits c (List.mem_cons_of_mem _ behind))
  · exact .inl (digits c member)

private theorem mantissa_starts {decimal : Decimal} (nonzero : decimal.digits ≠ 0) :
    ∃ first rest, decimal.mantissa = first :: rest ∧ first.isDigit = true := by
  have digits := List.all_eq_true.mp (all_isDigit_digitsOf decimal.digits)
  have nonempty := digitsOf_ne_nil nonzero
  unfold mantissa
  split
  · rename_i first second rest same
    rw [same] at digits
    exact ⟨first, _, rfl, digits first (by simp)⟩
  · obtain ⟨first, rest, same⟩ := List.exists_cons_of_ne_nil nonempty
    rw [same] at digits
    exact ⟨first, rest, same, digits first (by simp)⟩

/-- The characters up to the exponent tell the digits, those behind it the place of the point. -/
private theorem eq_of_scientific_eq {first second : Decimal}
    (same : first.scientific = second.scientific) : first = second := by
  have unmarked {decimal : Decimal} : ∀ c ∈ decimal.mantissa, (c != 'e') = true := by
    intro c member
    rw [bne_iff_ne]
    rcases mem_mantissa member with isDigit | rfl
    · intro mark
      rw [mark] at isDigit
      cases isDigit
    · decide
  rw [scientific_eq, scientific_eq] at same
  obtain ⟨mantissas, behind⟩ := Text.run_inj unmarked unmarked rfl rfl same
  obtain ⟨signs, exponents⟩ := List.cons.inj (List.cons.inj behind).2
  have sizes : (first.point - 1).natAbs = (second.point - 1).natAbs := by
    have read := congrArg (Nat.ofDigitChars 10 · 0) exponents
    simpa using read
  have points : first.point = second.point := by
    by_cases below : first.point - 1 < 0
    · by_cases otherBelow : second.point - 1 < 0
      · omega
      · simp [below, otherBelow] at signs
    · by_cases otherBelow : second.point - 1 < 0
      · simp [below, otherBelow] at signs
      · omega
  have texts : digitsOf first.digits = digitsOf second.digits := by
    rw [← filter_mantissa, mantissas, filter_mantissa]
  have digits : first.digits = second.digits := by
    rw [← natOfDigits_digitsOf first.digits, texts, natOfDigits_digitsOf]
  have exponent : first.exponent = second.exponent := by
    rw [point, point, texts] at points
    omega
  cases first
  cases second
  cases digits
  cases exponent
  rfl

/-! ### The two notations -/

/-- A fraction of one zero does not change the value of an integer. -/
private theorem Notates.append_fraction {chars : List Char} {decimal : Decimal}
    (digits : isDigits chars = true) (notates : Notates chars decimal) :
    Notates (chars ++ ['.', '0']) decimal := by
  obtain ⟨_, read, found, value⟩ := notates
  have zero : isDigits ['0'] = true := rfl
  refine ⟨isDecimal_iff.mpr (.inr ⟨chars, ['0'], rfl, digits, zero⟩), _,
    decimal?_point digits zero, ?_⟩
  rw [decimal?_digits digits] at found
  cases found
  rw [← value, natOfDigits_append]
  exact value_shift _ 1 _

inductive WrittenAs (decimal : Decimal) (chars : List Char) : Prop where
  | positional : Notates chars decimal → '.' ∈ chars → WrittenAs decimal chars
  | scientific : decimal.digits ≠ 0 → chars = decimal.scientific → WrittenAs decimal chars

namespace WrittenAs

variable {decimal : Decimal} {chars : List Char}

theorem positional_append (nonzero : decimal.digits ≠ 0) :
    WrittenAs decimal (decimal.positional ++ if 0 ≤ decimal.exponent then ".0".toList else []) := by
  have notates := notates_positional nonzero
  have length : 0 < (digitsOf decimal.digits).length :=
    List.length_pos_iff.mpr (digitsOf_ne_nil nonzero)
  by_cases integral : 0 ≤ decimal.exponent
  · have aboveOne : ¬decimal.point ≤ 0 := by
      rw [point]
      omega
    have written : decimal.positional = digitsOf decimal.digits ++ zeros decimal.exponent := by
      rw [Decimal.positional, if_neg aboveOne, if_pos integral]
    have digits : isDigits decimal.positional = true := by
      rcases isDecimal_iff.mp notates.1 with digits | ⟨whole, fraction, same, _⟩
      · exact digits
      · have point : '.' ∈ digitsOf decimal.digits ++ zeros decimal.exponent := by
          rw [← written, same]
          simp
        rcases List.mem_append.mp point with own | zero
        · cases List.all_eq_true.mp (all_isDigit_digitsOf decimal.digits) '.' own
        · cases (List.mem_replicate.mp zero).2
    rw [if_pos integral]
    exact .positional (notates.append_fraction digits) (by simp)
  · rw [if_neg integral, List.append_nil]
    refine .positional notates ?_
    rw [Decimal.positional, if_neg integral]
    split
    · simp
    · simp

private theorem mem_of_isDecimal {c : Char} (decimal : isDecimal chars = true)
    (member : c ∈ chars) : c.isDigit = true ∨ c = '.' := by
  rcases isDecimal_iff.mp decimal with digits | ⟨whole, fraction, rfl, digits, behind⟩
  · exact .inl ((isDigits_iff.mp digits).2 c member)
  · rcases List.mem_append.mp member with inWhole | inRest
    · exact .inl ((isDigits_iff.mp digits).2 c inWhole)
    · rcases List.mem_cons.mp inRest with point | inFraction
      · exact .inr point
      · exact .inl ((isDigits_iff.mp behind).2 c inFraction)

theorem isNumberPart (written : WrittenAs decimal chars) {c : Char} (member : c ∈ chars) :
    Text.isNumberPart c = true := by
  have numeric (plain : c.isDigit = true ∨ c = '.') : Text.isNumberPart c = true := by
    rcases plain with isDigit | rfl
    · exact isNumberPart_of_isDigit isDigit
    · rfl
  cases written with
  | positional notates _ => exact numeric (mem_of_isDecimal notates.1 member)
  | scientific _ same =>
      rw [same, scientific_eq] at member
      rcases List.mem_append.mp member with inMantissa | inRest
      · exact numeric (mem_mantissa inMantissa)
      · rcases List.mem_cons.mp inRest with rfl | inRest
        · rfl
        · rcases List.mem_cons.mp inRest with rfl | inDigits
          · split
            · rfl
            · rfl
          · exact isNumberPart_of_isDigit
              (Nat.isDigit_of_mem_toDigits (by decide) (by decide) inDigits)

theorem starts (written : WrittenAs decimal chars) :
    ∃ first rest, chars = first :: rest ∧ first.isDigit = true := by
  cases written with
  | positional notates _ => exact Text.isDecimal_starts notates.1
  | scientific nonzero same =>
      obtain ⟨first, rest, starts, isDigit⟩ := mantissa_starts nonzero
      rw [same, scientific_eq, starts]
      exact ⟨first, _, rfl, isDigit⟩

theorem marked (written : WrittenAs decimal chars) : ∃ c ∈ chars, c.isDigit = false := by
  cases written with
  | positional _ point => exact ⟨'.', point, rfl⟩
  | scientific _ same =>
      rw [same, scientific_eq]
      exact ⟨'e', by simp, rfl⟩

private theorem not_isDecimal_scientific (decimal : Decimal) :
    isDecimal decimal.scientific ≠ true := by
  intro isDecimal
  have mark : 'e' ∈ decimal.scientific := by
    rw [scientific_eq]
    simp
  rcases mem_of_isDecimal isDecimal mark with isDigit | point
  · cases isDigit
  · cases point

theorem value_eq {other : Decimal} (written : WrittenAs decimal chars)
    (otherWritten : WrittenAs other chars) : decimal.value = other.value := by
  cases written with
  | positional notates _ =>
      cases otherWritten with
      | positional otherNotates _ =>
          obtain ⟨_, read, found, value⟩ := notates
          obtain ⟨_, otherRead, otherFound, otherValue⟩ := otherNotates
          rw [found] at otherFound
          rw [← value, ← otherValue, Option.some.inj otherFound]
      | scientific _ same => exact absurd (same ▸ notates.1) (not_isDecimal_scientific other)
  | scientific _ same =>
      cases otherWritten with
      | positional otherNotates _ =>
          exact absurd (same ▸ otherNotates.1) (not_isDecimal_scientific decimal)
      | scientific _ otherSame => rw [eq_of_scientific_eq (same.symm.trans otherSame)]

end WrittenAs
end Decimal

/-! ### Numbers -/

namespace Binary64

theorem eq_of_magnitudeBits_eq {x y : Binary64} (signs : x.isNegative = y.isNegative)
    (magnitudes : x.magnitudeBits = y.magnitudeBits) : x = y := by
  have bounded := x.bits.toNat_lt
  have otherBounded := y.bits.toNat_lt
  have sides : 2 ^ 63 ≤ x.bits.toNat ↔ 2 ^ 63 ≤ y.bits.toNat := by
    simpa only [isNegative, decide_eq_decide] using signs
  have bits : x.bits.toNat = y.bits.toNat := by
    simp only [magnitudeBits] at magnitudes
    omega
  cases x
  cases y
  exact congrArg Binary64.mk (UInt64.toNat_inj.mp bits)

/-- The text of a finite number has its sign and a decimal that reads back. -/
theorem treeText_eq {x : Binary64} (finite : x.isFinite = true) :
    ∃ decimal chars, x.treeText = x.signed chars ∧ decimal.WrittenAs chars ∧
      x.readsBack decimal = true := by
  rw [treeText, finite, if_neg (by decide)]
  by_cases zero : x.isZero = true
  · have notates : Decimal.Notates "0.0".toList { digits := 0, exponent := 0 } :=
      ⟨rfl, { digits := 0, exponent := -1 }, by decide +kernel, by simp [Decimal.value]⟩
    have readsBack : x.readsBack { digits := 0, exponent := 0 } = true := by
      rw [Binary64.readsBack, beq_iff_eq.mp zero]
      decide +kernel
    rw [if_pos zero]
    exact ⟨_, _, rfl, .positional notates (by simp), readsBack⟩
  · have nonzero := digits_shortest .toEven finite (Bool.not_eq_true _ ▸ zero)
    have readsBack := readsBack_shortest .toEven finite
    rw [if_neg zero]
    dsimp only
    split
    · exact ⟨_, _, rfl, .positional_append nonzero, readsBack⟩
    · exact ⟨_, _, rfl, .scientific nonzero rfl, readsBack⟩

/-- A sign and what begins with a digit can be told apart. -/
private theorem signed_inj {x y : Binary64} {first second : Char} {rest others : List Char}
    (isDigit : first.isDigit = true) (otherIsDigit : second.isDigit = true)
    (same : x.signed (first :: rest) = y.signed (second :: others)) :
    x.isNegative = y.isNegative ∧ first :: rest = second :: others := by
  rw [signed, signed, String.ofList_inj] at same
  cases negative : x.isNegative with
  | true =>
      cases otherNegative : y.isNegative with
      | true =>
          rw [negative, otherNegative] at same
          exact ⟨rfl, (List.cons.inj same).2⟩
      | false =>
          rw [negative, otherNegative] at same
          rw [← (List.cons.inj same).1] at otherIsDigit
          cases otherIsDigit
  | false =>
      cases otherNegative : y.isNegative with
      | true =>
          rw [negative, otherNegative] at same
          rw [(List.cons.inj same).1] at isDigit
          cases isDigit
      | false =>
          rw [negative, otherNegative] at same
          exact ⟨rfl, same⟩

theorem eq_of_treeText_eq {x y : Binary64} (finite : x.isFinite = true)
    (otherFinite : y.isFinite = true) (same : x.treeText = y.treeText) : x = y := by
  obtain ⟨decimal, chars, text, written, readsBack⟩ := treeText_eq finite
  obtain ⟨other, otherChars, otherText, otherWritten, otherReadsBack⟩ := treeText_eq otherFinite
  obtain ⟨first, rest, rfl, isDigit⟩ := written.starts
  obtain ⟨second, others, rfl, otherIsDigit⟩ := otherWritten.starts
  rw [text, otherText] at same
  obtain ⟨signs, texts⟩ := signed_inj isDigit otherIsDigit same
  rw [← texts] at otherWritten
  apply eq_of_magnitudeBits_eq signs
  rw [Binary64.readsBack, beq_iff_eq] at readsBack otherReadsBack
  rw [← readsBack, ← otherReadsBack, Decimal.toBinary64_congr (written.value_eq otherWritten)]

/-- The text of a finite number is a run of characters of numbers, with more than digits in it. -/
theorem treeText_parts {x : Binary64} (finite : x.isFinite = true) :
    (∃ first rest, x.treeText.toList = first :: rest ∧ (first.isDigit = true ∨ first = '-')) ∧
      (∀ c ∈ x.treeText.toList, Text.isNumberPart c = true) ∧
      ∃ c ∈ x.treeText.toList, c.isDigit = false := by
  obtain ⟨decimal, chars, text, written, _⟩ := treeText_eq finite
  obtain ⟨first, rest, starts, isDigit⟩ := written.starts
  obtain ⟨mark, member, noDigit⟩ := written.marked
  rw [text, signed, String.toList_ofList]
  by_cases negative : x.isNegative = true
  · rw [if_pos negative]
    refine ⟨⟨'-', chars, rfl, .inr rfl⟩, fun c inText => ?_, mark, by simp [member], noDigit⟩
    rcases List.mem_cons.mp inText with rfl | inChars
    · rfl
    · exact written.isNumberPart inChars
  · rw [if_neg negative]
    exact ⟨⟨first, rest, starts, .inl isDigit⟩, fun c => written.isNumberPart, mark, member,
      noDigit⟩

end Binary64
end AudioMarkup
