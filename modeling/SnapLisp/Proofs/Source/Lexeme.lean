import Mathlib.Data.List.TakeWhile
import SnapLisp.Proofs.Number.RoundTrip
import SnapLisp.Source.Reading

/-!
# Lexemes in front of other text

Which lexeme is cut off a text that starts with its characters: a numeral or a word ends where no
character behind it goes on with it, a sign is a mark where no digit follows. In front of a blank, a
parenthesis or the end of the text (`Delimits`) all of them end, so an operator, a word and a written
number are each read as the token they spell (`next?_mark`, `next?_word`, `next?_write`).
-/

namespace SnapLisp

/-- An empty text, or one that starts with a blank or a parenthesis. -/
def Delimits (rest : List Char) : Prop :=
  ∀ c ∈ rest.head?, isBlank c = true ∨ c = '(' ∨ c = ')'

theorem Delimits.nil : Delimits [] := by simp [Delimits]

theorem Delimits.cons {c : Char} {rest : List Char}
    (h : isBlank c = true ∨ c = '(' ∨ c = ')') : Delimits (c :: rest) := by
  simpa [Delimits] using h

/-! ### Classes of characters -/

theorem isDigit_iff {c : Char} : isDigit c = true ↔ 48 ≤ c.toNat ∧ c.toNat ≤ 57 := by
  simp [isDigit, Char.le_def, UInt32.le_iff_toNat_le]

theorem isLetter_iff {c : Char} :
    isLetter c = true ↔ 97 ≤ c.toNat ∧ c.toNat ≤ 122 ∨ 65 ≤ c.toNat ∧ c.toNat ≤ 90 := by
  simp [isLetter, Char.le_def, UInt32.le_iff_toNat_le]

theorem not_isDigit_of_isLetter {c : Char} (h : isLetter c = true) : isDigit c = false := by
  have := isLetter_iff.1 h
  rw [Bool.eq_false_iff, ne_eq, isDigit_iff]
  omega

theorem not_isSign_of_isLetter {c : Char} (h : isLetter c = true) : Numeral.isSign c = false := by
  rw [Bool.eq_false_iff]
  intro hs
  rcases (by simpa [Numeral.isSign] using hs : c = '+' ∨ c = '-') with rfl | rfl <;>
    revert h <;> decide

theorem not_isMark {c : Char} (h : isDigit c = true ∨ Numeral.isSign c = true ∨ isLetter c = true) :
    Lexeme.isMark c = false := by
  rw [Bool.eq_false_iff]
  intro hm
  have hcase : c = '(' ∨ c = ')' ∨ c = '*' ∨ c = '/' := by simpa [Lexeme.isMark, or_assoc] using hm
  rcases hcase with rfl | rfl | rfl | rfl <;> revert h <;> decide

theorem isBlank_bounds {c : Char} (h : isBlank c = true) :
    c.toNat ≤ 32 ∨ 133 ≤ c.toNat := by
  simp [isBlank] at h
  omega

theorem not_isDigit_of_isBlank {c : Char} (h : isBlank c = true) : isDigit c = false := by
  have := isBlank_bounds h
  rw [Bool.eq_false_iff, ne_eq, isDigit_iff]
  omega

theorem not_isLetter_of_isBlank {c : Char} (h : isBlank c = true) : isLetter c = false := by
  have := isBlank_bounds h
  rw [Bool.eq_false_iff, ne_eq, isLetter_iff]
  omega

theorem not_continues_of_isBlank {c : Char} (h : isBlank c = true) :
    Numeral.continues c = false := by
  have hpoint : c ≠ '.' := by rintro rfl; revert h; decide
  simp [Numeral.continues, not_isDigit_of_isBlank h, hpoint]

theorem not_isBlank_of_isLetter {c : Char} (h : isLetter c = true) : isBlank c = false := by
  rw [Bool.eq_false_iff]
  intro hblank
  rw [not_isLetter_of_isBlank hblank] at h
  cases h

theorem not_isBlank_of_beginsNumeral {c : Char} {cs : List Char}
    (h : Lexeme.beginsNumeral c cs = true) : isBlank c = false := by
  rw [Bool.eq_false_iff]
  intro hblank
  have hc : isDigit c = true ∨ Numeral.isSign c = true ∧ cs.head?.any isDigit = true := by
    simpa [Lexeme.beginsNumeral] using h
  rcases hc with hdigit | ⟨hsign, -⟩
  · rw [not_isDigit_of_isBlank hblank] at hdigit
    cases hdigit
  · rcases (by simpa [Numeral.isSign] using hsign : c = '+' ∨ c = '-') with rfl | rfl <;>
      revert hblank <;> decide

/-- No class of characters that has neither blanks nor parentheses goes on behind a delimiter. -/
theorem Delimits.head?_any {p : Char → Bool} {rest : List Char} (h : Delimits rest)
    (hblank : ∀ c, isBlank c = true → p c = false) (hopen : p '(' = false) (hclose : p ')' = false) :
    rest.head?.any p = false := by
  cases rest with
  | nil => rfl
  | cons c rest =>
    rcases h c rfl with hc | rfl | rfl
    · exact hblank c hc
    · exact hopen
    · exact hclose

theorem takeWhile_append_of_head? {p : Char → Bool} {cs rest : List Char} (hcs : ∀ c ∈ cs, p c = true)
    (hrest : rest.head?.any p = false) : (cs ++ rest).takeWhile p = cs := by
  rw [List.takeWhile_append_of_pos hcs]
  cases rest with
  | nil => simp
  | cons c rest => simp [show p c = false from hrest]

theorem dropWhile_append_of_head? {p : Char → Bool} {cs rest : List Char} (hcs : ∀ c ∈ cs, p c = true)
    (hrest : rest.head?.any p = false) : (cs ++ rest).dropWhile p = rest := by
  rw [List.dropWhile_append_of_pos hcs]
  cases rest with
  | nil => rfl
  | cons c rest => simp [show p c = false from hrest]

/-! ### Cutting off a lexeme -/

namespace Lexeme

theorem split?_mark {c : Char} (hc : isMark c = true) (rest : List Char) :
    split? (c :: rest) = some (mark c, rest) := by
  simp [split?, hc]

theorem split?_sign {c : Char} {rest : List Char} (hc : Numeral.isSign c = true)
    (hrest : rest.head?.any isDigit = false) : split? (c :: rest) = some (mark c, rest) := by
  have hcase : c = '+' ∨ c = '-' := by simpa [Numeral.isSign] using hc
  have hmark : isMark c = false := by rcases hcase with rfl | rfl <;> rfl
  have hdigit : isDigit c = false := by rcases hcase with rfl | rfl <;> rfl
  simp [split?, beginsNumeral, hmark, hdigit, hc, hrest]

theorem split?_numeral {c : Char} {cs rest : List Char} (hc : beginsNumeral c cs = true)
    (hcs : ∀ x ∈ cs, Numeral.continues x = true) (hrest : rest.head?.any Numeral.continues = false) :
    split? (c :: cs ++ rest) = some (numeral (c :: cs), rest) := by
  have hc' : isDigit c = true ∨ Numeral.isSign c = true ∧ cs.head?.any isDigit = true := by
    simpa [beginsNumeral] using hc
  have hmark : isMark c = false := not_isMark (hc'.imp_right fun h => .inl h.1)
  have hbegins : beginsNumeral c (cs ++ rest) = true := by
    cases cs with
    | nil => simpa [beginsNumeral] using .inl (by simpa using hc')
    | cons d ds => exact hc
  simp [split?, hmark, hbegins, takeWhile_append_of_head? hcs hrest,
    dropWhile_append_of_head? hcs hrest]

theorem split?_word {letters rest : List Char} (hne : letters ≠ [])
    (hletters : ∀ c ∈ letters, isLetter c = true) (hrest : rest.head?.any isLetter = false) :
    split? (letters ++ rest) = some (word letters, rest) := by
  obtain ⟨c, cs, rfl⟩ := List.exists_cons_of_ne_nil hne
  obtain ⟨hc, hcs⟩ := List.forall_mem_cons.1 hletters
  have hmark : isMark c = false := not_isMark (.inr (.inr hc))
  have hsign : Numeral.isSign c = false := not_isSign_of_isLetter hc
  have hdigit : isDigit c = false := not_isDigit_of_isLetter hc
  have hquote : c ≠ '"' := by rintro rfl; revert hc; decide
  simp [split?, beginsNumeral, hmark, hsign, hdigit, hquote, hc,
    takeWhile_append_of_head? hcs hrest, dropWhile_append_of_head? hcs hrest]

theorem eq_quoted_of_reading {lexeme : Lexeme} {atEnd : Bool} {s : String}
    (h : lexeme.reading atEnd = .token (.text s)) : ∃ closed, lexeme = .quoted s.toList closed := by
  cases lexeme with
  | quoted body closed =>
    cases h
    exact ⟨closed, by rw [String.toList_ofList]⟩
  | mark c =>
    simp only [reading, Token.ofMark, Reading.token.injEq] at h
    split at h <;> cases h
  | numeral cs =>
    simp only [reading] at h
    split at h <;> cases h
  | word letters =>
    simp only [reading, Token.ofWord, Reading.token.injEq] at h
    repeat' split at h
    all_goals cases h
  | illegal c => cases h

theorem mem_chars_of_reading {lexeme : Lexeme} {atEnd : Bool} {c : Char}
    (h : lexeme.reading atEnd = .token (.illegal c)) : c ∈ lexeme.chars := by
  cases lexeme with
  | mark c' =>
    simp only [reading, Token.ofMark, Reading.token.injEq] at h
    split at h <;> cases h
    exact List.mem_singleton_self _
  | illegal c' =>
    cases h
    exact List.mem_singleton_self _
  | numeral cs =>
    simp only [reading] at h
    split at h <;> cases h
  | word letters =>
    simp only [reading, Token.ofWord, Reading.token.injEq] at h
    repeat' split at h
    all_goals cases h
  | quoted body closed => cases h

theorem eq_word_of_reading {lexeme : Lexeme} {atEnd : Bool} {name : String}
    (h : lexeme.reading atEnd = .token (.literal name)) :
    ∃ letters, lexeme = .word letters ∧ name = String.ofList (letters.map Char.toUpper) ∧
      letters.map Char.toUpper ≠ ['N', 'I', 'L'] := by
  cases lexeme with
  | word letters =>
    simp only [reading, Token.ofWord, Reading.token.injEq] at h
    split at h
    · cases h
    split at h
    · cases h
    · rename_i hnil
      cases h
      exact ⟨letters, rfl, rfl, hnil⟩
  | mark c =>
    simp only [reading, Token.ofMark, Reading.token.injEq] at h
    split at h <;> cases h
  | numeral cs =>
    simp only [reading] at h
    split at h <;> cases h
  | quoted body closed => cases h
  | illegal c => cases h

end Lexeme

namespace Reading

theorem exists_lexeme_of_next? {cs rest : List Char} {r : Reading} (h : next? cs = some (r, rest)) :
    ∃ lexeme, Lexeme.split? (cs.dropWhile isBlank) = some (lexeme, rest) ∧
      lexeme.reading rest.isEmpty = r := by
  unfold next? at h
  split at h
  · cases h
  · rename_i lexeme rest' hsplit
    cases h
    exact ⟨lexeme, hsplit, rfl⟩

theorem next?_blanks_append {blanks : List Char} (h : ∀ c ∈ blanks, isBlank c = true)
    (cs : List Char) : next? (blanks ++ cs) = next? cs := by
  simp only [next?, List.dropWhile_append_of_pos h]

theorem next?_eq_none_iff {cs : List Char} : next? cs = none ↔ ∀ c ∈ cs, isBlank c = true := by
  constructor
  · intro h
    unfold next? at h
    split at h
    · rename_i hsplit
      cases hdrop : cs.dropWhile isBlank with
      | nil => exact List.dropWhile_eq_nil_iff.1 hdrop
      | cons c cs =>
        rw [hdrop] at hsplit
        cases hsplit
    · cases h
  · intro h
    rw [← List.append_nil cs, next?_blanks_append h]
    rfl

theorem next?_of_split? {c : Char} {cs rest : List Char} {lexeme : Lexeme} (hc : isBlank c = false)
    (h : Lexeme.split? (c :: cs) = some (lexeme, rest)) :
    next? (c :: cs) = some (lexeme.reading rest.isEmpty, rest) := by
  have hdrop : (c :: cs).dropWhile isBlank = c :: cs := by simp [hc]
  simp only [next?, hdrop, h]

theorem next?_mark {c : Char} (hc : Lexeme.isMark c = true) (rest : List Char) :
    next? (c :: rest) = some (.token (.ofMark c), rest) := by
  have hcase : c = '(' ∨ c = ')' ∨ c = '*' ∨ c = '/' := by simpa [Lexeme.isMark, or_assoc] using hc
  have hblank : isBlank c = false := by rcases hcase with rfl | rfl | rfl | rfl <;> rfl
  exact next?_of_split? hblank (Lexeme.split?_mark hc rest)

theorem next?_sign {c : Char} {rest : List Char} (hc : Numeral.isSign c = true)
    (hrest : Delimits rest) : next? (c :: rest) = some (.token (.ofMark c), rest) := by
  have hcase : c = '+' ∨ c = '-' := by simpa [Numeral.isSign] using hc
  have hblank : isBlank c = false := by rcases hcase with rfl | rfl <;> rfl
  exact next?_of_split? hblank (Lexeme.split?_sign hc
    (hrest.head?_any (fun _ => not_isDigit_of_isBlank) rfl rfl))

theorem next?_word {letters rest : List Char} (hne : letters ≠ [])
    (hletters : ∀ c ∈ letters, isLetter c = true) (hrest : Delimits rest) :
    next? (letters ++ rest) = some (.token (.ofWord letters rest.isEmpty), rest) := by
  have hsplit := Lexeme.split?_word hne hletters
    (hrest.head?_any (fun _ => not_isLetter_of_isBlank) rfl rfl)
  obtain ⟨c, cs, rfl⟩ := List.exists_cons_of_ne_nil hne
  have hblank := not_isBlank_of_isLetter (hletters c List.mem_cons_self)
  exact next?_of_split? hblank hsplit

theorem next?_numeral {c : Char} {cs rest : List Char} (hc : Lexeme.beginsNumeral c cs = true)
    (hcs : ∀ x ∈ cs, Numeral.continues x = true) (hrest : Delimits rest) :
    next? (c :: cs ++ rest) = some ((Lexeme.numeral (c :: cs)).reading rest.isEmpty, rest) := by
  have hblank := not_isBlank_of_beginsNumeral hc
  exact next?_of_split? hblank (Lexeme.split?_numeral hc hcs
    (hrest.head?_any (fun _ => not_continues_of_isBlank) rfl rfl))

/-- The text of a finite number begins and goes on as a numeral does. -/
theorem exists_write_cons {x : Binary64} (hx : x.IsFinite) : ∃ c cs,
    Layout.plain.write x = c :: cs ∧ Lexeme.beginsNumeral c cs = true ∧
    ∀ x ∈ cs, Numeral.continues x = true := by
  cases x with
  | nan => exact hx.elim
  | signed negative rank hle =>
    obtain ⟨whole, fraction, htext, hne, hwhole, hfraction, -⟩ := exists_write hx
    have hcontinues := Numeral.continues_of_mem_pointed hwhole hfraction
    obtain ⟨d, ds, rfl⟩ := List.exists_cons_of_ne_nil hne
    have hd : isDigit d = true := hwhole d List.mem_cons_self
    cases negative with
    | false =>
      exact ⟨d, Numeral.pointed ds fraction, htext, by simp [Lexeme.beginsNumeral, hd],
        fun x hx => hcontinues x (List.mem_cons_of_mem _ hx)⟩
    | true =>
      refine ⟨'-', Numeral.pointed (d :: ds) fraction, htext, ?_, hcontinues⟩
      simp [Lexeme.beginsNumeral, Numeral.pointed, Numeral.isSign, hd]

/-- A finite number in the plain layout is read as a number token. -/
theorem next?_write {x : Binary64} (hx : x.IsFinite) {rest : List Char} (hrest : Delimits rest) :
    next? (Layout.plain.write x ++ rest) = some (.token (.number x), rest) := by
  obtain ⟨c, cs, htext, hc, hcs⟩ := exists_write_cons hx
  have hread := read?_write hx
  rw [htext] at hread ⊢
  rw [next?_numeral hc hcs hrest, Lexeme.reading, hread]

end Reading

end SnapLisp
