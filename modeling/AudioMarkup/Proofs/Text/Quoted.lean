import AudioMarkup.Text.Basic

/-!
Quoted text, read back. `unescape?` has the rules of JSON for what stands between quotes, whoever
wrote it: short escapes, code units of four hexadecimal digits with surrogates in pairs, and no
quote and no control character as such. A text that was escaped is read back as it was.
-/

namespace AudioMarkup.Text

def hexDigit? (c : Char) : Option Nat :=
  if c.isDigit then some (c.toNat - 48)
  else if 'a' ≤ c && c ≤ 'f' then some (c.toNat - 87)
  else if 'A' ≤ c && c ≤ 'F' then some (c.toNat - 55)
  else none

def codeUnit? (digits : List Char) : Option Nat :=
  digits.foldlM (fun unit digit => (hexDigit? digit).map fun value => unit * 16 + value) 0

def shortEscape? : Char → Option Char
  | '"' => some '"'
  | '\\' => some '\\'
  | '/' => some '/'
  | 'b' => some '\x08'
  | 'f' => some '\x0c'
  | 'n' => some '\n'
  | 'r' => some '\r'
  | 't' => some '\t'
  | _ => none

def surrogatePair? (high low : Nat) : Option Char :=
  if 0xd800 ≤ high && high < 0xdc00 && 0xdc00 ≤ low && low < 0xe000 then
    some (Char.ofNat (0x10000 + (high - 0xd800) * 0x400 + (low - 0xdc00)))
  else none

def unescape? : List Char → Option (List Char)
  | [] => some []
  | c :: rest =>
    if c = '\\' then
      match rest with
      | 'u' :: d₁ :: d₂ :: d₃ :: d₄ :: rest =>
        match codeUnit? [d₁, d₂, d₃, d₄] with
        | none => none
        | some unit =>
          if unit < 0xd800 || 0xe000 ≤ unit then
            (unescape? rest).map (Char.ofNat unit :: ·)
          else match rest with
            | '\\' :: 'u' :: e₁ :: e₂ :: e₃ :: e₄ :: rest =>
              match (codeUnit? [e₁, e₂, e₃, e₄]).bind (surrogatePair? unit) with
              | none => none
              | some pair => (unescape? rest).map (pair :: ·)
            | _ => none
      | mark :: rest =>
        match shortEscape? mark with
        | none => none
        | some escaped => (unescape? rest).map (escaped :: ·)
      | [] => none
    else if c = '"' || c.toNat < 0x20 then none
    else (unescape? rest).map (c :: ·)

/-- The three forms of a character between quotes. -/
theorem escape_cases (c : Char) :
    (∃ mark, shortEscape? mark = some c ∧ escape c = ['\\', mark]) ∨
    (c.toNat < 0x20 ∧ escape c =
      ['\\', 'u', '0', '0', Nat.digitChar (c.toNat / 16), Nat.digitChar (c.toNat % 16)]) ∨
    (c ≠ '"' ∧ c ≠ '\\' ∧ ¬ c.toNat < 0x20 ∧ escape c = [c]) := by
  fun_cases escape c with
  | case1 quote => exact .inl ⟨'"', congrArg some quote.symm, rfl⟩
  | case2 _ backslash => exact .inl ⟨'\\', congrArg some backslash.symm, rfl⟩
  | case3 _ _ backspace => exact .inl ⟨'b', congrArg some backspace.symm, rfl⟩
  | case4 _ _ _ formFeed => exact .inl ⟨'f', congrArg some formFeed.symm, rfl⟩
  | case5 _ _ _ _ lineFeed => exact .inl ⟨'n', congrArg some lineFeed.symm, rfl⟩
  | case6 _ _ _ _ _ carriageReturn => exact .inl ⟨'r', congrArg some carriageReturn.symm, rfl⟩
  | case7 _ _ _ _ _ _ tabulator => exact .inl ⟨'t', congrArg some tabulator.symm, rfl⟩
  | case8 _ _ _ _ _ _ _ small => exact .inr (.inl ⟨small, rfl⟩)
  | case9 notQuote notBackslash _ _ _ _ _ notSmall =>
      exact .inr (.inr ⟨notQuote, notBackslash, notSmall, rfl⟩)

private theorem unescape?_short {mark c : Char} (short : shortEscape? mark = some c)
    (rest : List Char) : unescape? ('\\' :: mark :: rest) = (unescape? rest).map (c :: ·) := by
  have notUnit : mark ≠ 'u' := by
    rintro rfl
    cases short
  rw [unescape?.eq_def]
  dsimp only
  rw [if_pos rfl]
  split
  · rename_i unit
    exact absurd (List.cons.inj unit).1 notUnit
  · rename_i same
    obtain ⟨rfl, rfl⟩ := List.cons.inj same
    rw [short]
  · rename_i impossible
    cases impossible

private theorem codeUnit?_of_lt {code : Nat} (small : code < 0x20) :
    codeUnit? ['0', '0', Nat.digitChar (code / 16), Nat.digitChar (code % 16)] = some code := by
  revert code
  decide

private theorem unescape?_unit {code : Nat} (small : code < 0x20) (rest : List Char) :
    unescape? ('\\' :: 'u' :: '0' :: '0' :: Nat.digitChar (code / 16) ::
      Nat.digitChar (code % 16) :: rest) = (unescape? rest).map (Char.ofNat code :: ·) := by
  have single : (decide (code < 0xd800) || decide (0xe000 ≤ code)) = true := by
    rw [decide_eq_true (Nat.lt_trans small (by decide)), Bool.true_or]
  rw [unescape?, if_pos rfl, codeUnit?_of_lt small]
  exact if_pos single

private theorem unescape?_bare {c : Char} (notQuote : c ≠ '"') (notBackslash : c ≠ '\\')
    (notSmall : ¬ c.toNat < 0x20) (rest : List Char) :
    unescape? (c :: rest) = (unescape? rest).map (c :: ·) := by
  have accepted : (decide (c = '"') || decide (c.toNat < 0x20)) = false := by
    rw [decide_eq_false notQuote, decide_eq_false notSmall, Bool.or_self]
  rw [unescape?.eq_def]
  dsimp only
  rw [if_neg notBackslash, accepted, if_neg Bool.false_ne_true]

private theorem unescape?_escape (c : Char) (rest : List Char) :
    unescape? (escape c ++ rest) = (unescape? rest).map (c :: ·) := by
  rcases escape_cases c with
    ⟨mark, short, same⟩ | ⟨small, same⟩ | ⟨notQuote, notBackslash, notSmall, same⟩
  · rw [same]
    exact unescape?_short short rest
  · have read := unescape?_unit small rest
    rw [Char.ofNat_toNat] at read
    rw [same]
    exact read
  · rw [same]
    exact unescape?_bare notQuote notBackslash notSmall rest

theorem unescape?_flatMap_escape (text : List Char) :
    unescape? (text.flatMap escape) = some text := by
  induction text with
  | nil => rfl
  | cons c rest ih => rw [List.flatMap_cons, unescape?_escape, ih, Option.map_some]

/-! ### Quotes and what follows them -/

/-- The length of the character that the text begins with, as it is between quotes. -/
private def escapeLength : List Char → Nat
  | '\\' :: 'u' :: _ => 6
  | '\\' :: _ => 2
  | _ => 1

private theorem escapeLength_escape (c : Char) (rest : List Char) :
    escapeLength (escape c ++ rest) = (escape c).length := by
  rcases escape_cases c with ⟨mark, short, same⟩ | ⟨_, same⟩ | ⟨_, notBackslash, _, same⟩
  · have notUnit : mark ≠ 'u' := by
      rintro rfl
      cases short
    rw [same]
    simp [escapeLength, notUnit]
  · rw [same]
    rfl
  · rw [same]
    simp [escapeLength, notBackslash]

private theorem escape_append_inj {c d : Char} {rest others : List Char}
    (same : escape c ++ rest = escape d ++ others) : c = d ∧ rest = others := by
  have lengths : (escape c).length = (escape d).length := by
    rw [← escapeLength_escape c rest, same, escapeLength_escape]
  obtain ⟨escaped, behind⟩ := List.append_inj same lengths
  have read (c : Char) : unescape? (escape c) = some [c] := by
    rw [← unescape?_flatMap_escape [c], List.flatMap_singleton]
  have characters : some [c] = some [d] := by
    rw [← read c, escaped, read d]
  exact ⟨(List.cons.inj (Option.some.inj characters)).1, behind⟩

private theorem escape_append_ne_quote (c : Char) (rest others : List Char) :
    escape c ++ rest ≠ '"' :: others := by
  intro same
  rcases escape_cases c with ⟨mark, _, escaped⟩ | ⟨_, escaped⟩ | ⟨notQuote, _, _, escaped⟩
  · rw [escaped] at same
    cases (List.cons.inj same).1
  · rw [escaped] at same
    cases (List.cons.inj same).1
  · rw [escaped] at same
    exact notQuote (List.cons.inj same).1

private theorem flatMap_escape_inj {text other rest others : List Char}
    (same : text.flatMap escape ++ '"' :: rest = other.flatMap escape ++ '"' :: others) :
    text = other ∧ rest = others := by
  induction text generalizing other with
  | nil =>
      cases other with
      | nil => exact ⟨rfl, (List.cons.inj same).2⟩
      | cons d other =>
          rw [List.flatMap_cons, List.append_assoc] at same
          exact absurd same.symm (escape_append_ne_quote d _ _)
  | cons c text ih =>
      rw [List.flatMap_cons, List.append_assoc] at same
      cases other with
      | nil => exact absurd same (escape_append_ne_quote c _ _)
      | cons d other =>
          rw [List.flatMap_cons, List.append_assoc] at same
          obtain ⟨rfl, behind⟩ := escape_append_inj same
          obtain ⟨rfl, rests⟩ := ih behind
          exact ⟨rfl, rests⟩

/-- Quoted text ends with its closing quote, whatever follows. -/
theorem quote_append_inj {text other : String} {rest others : List Char}
    (same : (quote text).toList ++ rest = (quote other).toList ++ others) :
    text = other ∧ rest = others := by
  simp only [quote, String.toList_ofList, List.cons_append, List.append_assoc, List.cons.injEq,
    List.nil_append, true_and] at same
  obtain ⟨texts, rests⟩ := flatMap_escape_inj same
  exact ⟨String.toList_inj.mp texts, rests⟩

end AudioMarkup.Text
