import AudioMarkup.Proofs.Token.Words

/-!
The canonical form of a text: its tokens with single blanks between them, strings in quotes and all
other tokens as their texts. It is read as the same words. So it is its own canonical form, and two
texts have the same canonical form exactly if they have the same words.
-/

namespace AudioMarkup

def Token.markup (token : Token) : String :=
  if token.kind = .string then "\"" ++ token.text ++ "\"" else token.text

def Text.canonical (source : String) : String :=
  " ".intercalate ((Token.scan source).map Token.markup)

theorem Token.toList_markup (token : Token) : token.markup.toList = token.word.markup := by
  have sameKind : token.word.kind = token.kind := rfl
  rw [markup, Word.markup, sameKind]
  split
  · rw [String.toList_append, String.toList_append]
    rfl
  · rfl

theorem Word.intercalate_markup (words : List Word) :
    [' '].intercalate (words.map markup) = markupAll words := by
  induction words with
  | nil => rfl
  | cons word rest ih =>
      cases rest with
      | nil => exact List.intercalate_singleton
      | cons next others =>
          rw [List.map_cons, List.map_cons, List.intercalate_cons_cons, ← List.map_cons, ih,
            List.append_assoc]
          rfl

namespace Text

theorem canonical_eq (source : String) :
    canonical source = String.ofList (Word.markupAll ((Token.scan source).map Token.word)) := by
  have characters : String.toList ∘ Token.markup = Word.markup ∘ Token.word :=
    funext Token.toList_markup
  rw [← String.toList_inj, String.toList_ofList, canonical, String.toList_intercalate, List.map_map,
    characters, ← List.map_map]
  exact Word.intercalate_markup _

/-- Each token of a text is a well formed word, and such words are read back. -/
theorem words_canonical (source : String) :
    (Token.scan (canonical source)).map Token.word = (Token.scan source).map Token.word := by
  rw [canonical_eq]
  apply Token.scan_markupAll
  intro word member
  obtain ⟨token, scanned, rfl⟩ := List.mem_map.mp member
  exact Token.wellFormed_of_mem_scan scanned

theorem canonical_eq_iff (first second : String) :
    canonical first = canonical second ↔
      (Token.scan first).map Token.word = (Token.scan second).map Token.word := by
  constructor
  · intro same
    rw [← words_canonical first, same, words_canonical]
  · intro same
    rw [canonical_eq, canonical_eq, same]

/-- Scanning the canonical form of a text gives the same words. The form does not change when it is
taken again, and it is shared by exactly the texts with these words. -/
theorem scan_canonical_same_words (source : String) :
    (Token.scan (canonical source)).map Token.word = (Token.scan source).map Token.word ∧
    canonical (canonical source) = canonical source ∧
    ∀ other, canonical other = canonical source ↔
      (Token.scan other).map Token.word = (Token.scan source).map Token.word := by
  refine ⟨words_canonical source, ?_, fun other => canonical_eq_iff other source⟩
  rw [canonical_eq_iff]
  exact words_canonical source

-- Blanks in strings stay, and a string that is left open is closed.
example : canonical "a\"b  c\n\"+(\"" = "a \"b  c\" + ( \"\"" := by decide

end Text
end AudioMarkup
