import SnapLisp.Proofs.Source.Escape
import SnapLisp.Proofs.Source.Name
import SnapLisp.Proofs.Source.Number

/-!
# Spans

A source is tiled by pieces, each a gap of blanks with a span behind it, and by blanks at the end
(`Tiles`). What a span is read as depends on its characters and on where the text behind it goes on:
`Reading.OfSpan` lists the kinds of spans, without saying how a reader finds them. Each text that does
not start with a blank starts with exactly one of them (`next?_eq_some_iff`), so a source has one tiling
only, and its readings are those of the pieces (`all_partition`).
-/

namespace SnapLisp

/-- A digit with or without a sign in front, and then digits and points. -/
def IsNumeral (text : List Char) : Prop :=
  ∃ sign d ds, text = sign ++ d :: ds ∧ (sign = [] ∨ sign = ['+'] ∨ sign = ['-']) ∧
    isDigit d = true ∧ ∀ c ∈ ds, isDigit c = true ∨ c = '.'

def IsWord (text : List Char) : Prop :=
  text ≠ [] ∧ ∀ c ∈ text, isLetter c = true

/-- A character that no other kind of span starts with. -/
def IsStray (c : Char) : Prop :=
  isBlank c = false ∧ c ∉ ['(', ')', '*', '/', '+', '-', '"'] ∧ isDigit c = false ∧ isLetter c = false

/-- What a span with `left` behind it is read as. -/
inductive Reading.OfSpan (left : List Char) : List Char → Reading → Prop
  | mark {c : Char} {t : Token}
    (mem : (c, t) ∈ [('(', .lparen), (')', .rparen), ('*', .asterisk), ('/', Token.slash)]) :
    OfSpan left [c] (.token t)
  | sign {c : Char} {t : Token} (mem : (c, t) ∈ [('+', .plus), ('-', Token.minus)])
    (apart : ∀ d ∈ left.head?, isDigit d = false) : OfSpan left [c] (.token t)
  | number {text : List Char} {x : Binary64} (numeral : IsNumeral text)
    (maximal : ∀ c ∈ left.head?, isDigit c = false ∧ c ≠ '.') (value : Numeral.read? text = some x) :
    OfSpan left text (.token (.number x))
  | malformed {text : List Char} (numeral : IsNumeral text)
    (maximal : ∀ c ∈ left.head?, isDigit c = false ∧ c ≠ '.') (points : 2 ≤ text.count '.') :
    OfSpan left text (.malformed (String.ofList text))
  | closed {body : List Char} (quotes : QuotesEscaped body) (ends : ¬ Escapes body) :
    OfSpan left ('"' :: (body ++ ['"'])) (.token (.text (String.ofList body)))
  | unclosed {body : List Char} (quotes : QuotesEscaped body) (ended : left = []) :
    OfSpan left ('"' :: body) (.token (.text (String.ofList body)))
  | nil {text : List Char} (word : IsWord text) (maximal : ∀ c ∈ left.head?, isLetter c = false)
    (name : text.map Char.toUpper = ['N', 'I', 'L']) : OfSpan left text (.token .nil)
  | truth {c : Char} (letter : c = 't' ∨ c = 'T') (ended : left = []) : OfSpan left [c] (.token .truth)
  | literal {text : List Char} (word : IsWord text) (maximal : ∀ c ∈ left.head?, isLetter c = false)
    (not_nil : text.map Char.toUpper ≠ ['N', 'I', 'L'])
    (not_truth : text.map Char.toUpper = ['T'] → left ≠ []) :
    OfSpan left text (.token (.literal (String.ofList (text.map Char.toUpper))))
  | illegal {c : Char} (stray : IsStray c) : OfSpan left [c] (.token (.illegal c))

/-- A span of a source with the blanks in front of it and the text behind it. -/
structure Piece where
  gap : List Char
  span : List Char
  reading : Reading
  left : List Char

inductive Tiles : List Char → List Piece → Prop
  | done {cs : List Char} (blank : ∀ c ∈ cs, isBlank c = true) : Tiles cs []
  | piece {cs : List Char} {p : Piece} {pieces : List Piece}
    (chars : cs = p.gap ++ (p.span ++ p.left)) (blank : ∀ c ∈ p.gap, isBlank c = true)
    (ofSpan : p.reading.OfSpan p.left p.span) (rest : Tiles p.left pieces) : Tiles cs (p :: pieces)

/-! ### Spans -/

section
variable {text : List Char}

theorem any_head?_eq_false_iff {p : Char → Bool} :
    text.head?.any p = false ↔ ∀ c ∈ text.head?, p c = false := by
  cases text <;> simp

theorem continues_eq_false_iff {c : Char} :
    Numeral.continues c = false ↔ isDigit c = false ∧ c ≠ '.' := by
  simp [Numeral.continues]

theorem any_head?_dropWhile (p : Char → Bool) (cs : List Char) :
    (cs.dropWhile p).head?.any p = false := by
  have hhead := List.head?_dropWhile_not p cs
  cases hdrop : (cs.dropWhile p).head? with
  | none => rfl
  | some c => simpa [hdrop] using hhead

theorem any_continues_eq_false_iff : text.head?.any Numeral.continues = false ↔
    ∀ c ∈ text.head?, isDigit c = false ∧ c ≠ '.' := by
  simp only [any_head?_eq_false_iff, continues_eq_false_iff]

theorem isNumeral_iff : IsNumeral text ↔ ∃ c cs, text = c :: cs ∧
    Lexeme.beginsNumeral c cs = true ∧ ∀ x ∈ cs, Numeral.continues x = true := by
  constructor
  · rintro ⟨sign, d, ds, rfl, hsign, hd, hds⟩
    have hcontinues : ∀ x ∈ ds, Numeral.continues x = true := by
      intro x hx
      simpa [Numeral.continues] using hds x hx
    rcases hsign with rfl | rfl | rfl
    · exact ⟨d, ds, rfl, by simp [Lexeme.beginsNumeral, hd], hcontinues⟩
    · refine ⟨'+', d :: ds, rfl, by simp [Lexeme.beginsNumeral, Numeral.isSign, hd], ?_⟩
      exact List.forall_mem_cons.2 ⟨by simp [Numeral.continues, hd], hcontinues⟩
    · refine ⟨'-', d :: ds, rfl, by simp [Lexeme.beginsNumeral, Numeral.isSign, hd], ?_⟩
      exact List.forall_mem_cons.2 ⟨by simp [Numeral.continues, hd], hcontinues⟩
  · rintro ⟨c, cs, rfl, hbegins, hcontinues⟩
    have hcs : ∀ x ∈ cs, isDigit x = true ∨ x = '.' := by
      intro x hx
      simpa [Numeral.continues] using hcontinues x hx
    by_cases hdigit : isDigit c = true
    · exact ⟨[], c, cs, rfl, .inl rfl, hdigit, hcs⟩
    · cases cs with
      | nil => simp [Lexeme.beginsNumeral, hdigit] at hbegins
      | cons d ds =>
        obtain ⟨hsign, hd⟩ : Numeral.isSign c = true ∧ isDigit d = true := by
          simpa [Lexeme.beginsNumeral, hdigit] using hbegins
        refine ⟨[c], d, ds, rfl, .inr ?_, hd, (List.forall_mem_cons.1 hcs).2⟩
        simpa [Numeral.isSign] using hsign

theorem toUpper_eq_T_iff {c : Char} : c.toUpper = 'T' ↔ c = 't' ∨ c = 'T' := by
  constructor
  · intro h
    unfold Char.toUpper at h
    split at h
    · have hval : (c.val + ('A'.val - 'a'.val)).toNat = 'T'.val.toNat :=
        congrArg (fun d => d.val.toNat) h
      rw [UInt32.toNat_add, show ('A'.val - 'a'.val).toNat = 4294967264 from rfl,
        show 'T'.val.toNat = 84 from rfl] at hval
      have hlt := c.val.toNat_lt
      refine .inl (Char.ext (UInt32.toNat_inj.1 ?_))
      show c.val.toNat = 116
      omega
    · exact .inr h
  · rintro (rfl | rfl) <;> rfl

/-- Two points are one too many, with or without a sign. -/
theorem read?_eq_none_iff : Numeral.read? text = none ↔ 2 ≤ text.count '.' := by
  have hcount : (Numeral.unsigned text).2.count '.' = text.count '.' := by
    cases text with
    | nil => rfl
    | cons c cs =>
      by_cases hsign : Numeral.isSign c = true
      · have hpoint : c ≠ '.' := by rintro rfl; revert hsign; decide
        simp [Numeral.unsigned, hsign, hpoint]
      · simp [Numeral.unsigned, hsign]
  unfold Numeral.read?
  simp only [hcount]
  split <;> simp_all

end

namespace Lexeme
variable {c : Char} {cs rest : List Char} {lexeme : Lexeme}

theorem beginsNumeral_takeWhile (h : beginsNumeral c cs = true) :
    beginsNumeral c (cs.takeWhile Numeral.continues) = true := by
  cases cs with
  | nil => exact h
  | cons d ds =>
    cases hd : isDigit d with
    | true => simpa [beginsNumeral, Numeral.continues, hd] using h
    | false =>
      have hdigit : isDigit c = true := by simpa [beginsNumeral, hd] using h
      simp [beginsNumeral, hdigit]

theorem ofSpan_word {letters : List Char} (hword : IsWord letters)
    (hmaximal : ∀ c ∈ rest.head?, isLetter c = false) :
    ((word letters).reading rest.isEmpty).OfSpan rest letters := by
  simp only [reading, Token.ofWord, List.isEmpty_iff]
  split
  · rename_i htruth
    obtain ⟨hT, hended⟩ := htruth
    obtain ⟨c, rfl, hc⟩ := List.map_eq_singleton_iff.1 hT
    exact .truth (toUpper_eq_T_iff.1 hc) hended
  · rename_i htruth
    split
    · rename_i hnil
      exact .nil hword hmaximal hnil
    · rename_i hnil
      exact .literal hword hmaximal hnil fun hT hended => htruth ⟨hT, hended⟩

/-- What is cut off a text is a span of one of the kinds. -/
theorem ofSpan_of_split? (hblank : isBlank c = false) (h : split? (c :: cs) = some (lexeme, rest)) :
    (lexeme.reading rest.isEmpty).OfSpan rest lexeme.chars := by
  simp only [split?, Option.some.injEq] at h
  split at h
  · rename_i hmark
    cases h
    rcases (by simpa [isMark, or_assoc] using hmark : c = '(' ∨ c = ')' ∨ c = '*' ∨ c = '/')
      with rfl | rfl | rfl | rfl
    all_goals exact .mark (by decide)
  rename_i hmark
  split at h
  · rename_i hnumeral
    cases h
    have htext : IsNumeral (c :: cs.takeWhile Numeral.continues) :=
      isNumeral_iff.2 ⟨c, _, rfl, beginsNumeral_takeWhile hnumeral, List.all_eq_true.1 List.all_takeWhile⟩
    have hmaximal := any_continues_eq_false_iff.1 (any_head?_dropWhile Numeral.continues cs)
    rw [reading]
    split
    · exact .number htext hmaximal ‹_›
    · exact .malformed htext hmaximal (read?_eq_none_iff.1 ‹_›)
  rename_i hnumeral
  split at h
  · rename_i hsign
    cases h
    obtain ⟨-, hapart⟩ : isDigit c = false ∧ cs.head?.any isDigit = false := by
      simpa [beginsNumeral, hsign] using hnumeral
    rcases (by simpa [Numeral.isSign] using hsign : c = '+' ∨ c = '-') with rfl | rfl
    all_goals exact .sign (by decide) (any_head?_eq_false_iff.1 hapart)
  rename_i hsign
  split at h
  · rename_i hquote
    subst hquote
    cases hbody : quotedBody cs with
    | mk body rest' =>
      rw [hbody] at h
      obtain ⟨hquotes, hend⟩ := quotedBody_escaped hbody
      cases rest' with
      | none =>
        cases h
        have hspan : chars (quoted body false) = '"' :: body := by simp [chars]
        rw [Option.isSome_none, hspan]
        exact .unclosed hquotes rfl
      | some rest' =>
        cases h
        exact .closed hquotes (hend rfl)
  rename_i hquote
  split at h
  · rename_i hletter
    cases h
    have hword : IsWord (c :: cs.takeWhile isLetter) :=
      ⟨List.cons_ne_nil _ _, List.forall_mem_cons.2 ⟨hletter, List.all_eq_true.1 List.all_takeWhile⟩⟩
    exact ofSpan_word hword (any_head?_eq_false_iff.1 (any_head?_dropWhile isLetter cs))
  · rename_i hletter
    cases h
    have hother : isDigit c = false ∧ c ∉ ['(', ')', '*', '/', '+', '-', '"'] := by
      simp_all [isMark, beginsNumeral, Numeral.isSign]
    exact .illegal ⟨hblank, hother.2, hother.1, by simpa using hletter⟩

end Lexeme

namespace Reading
variable {cs left span : List Char} {r : Reading}

theorem next?_of_isNumeral {text : List Char} (h : IsNumeral text)
    (hmaximal : ∀ c ∈ left.head?, isDigit c = false ∧ c ≠ '.') :
    next? (text ++ left) = some ((Lexeme.numeral text).reading left.isEmpty, left) := by
  obtain ⟨c, cs, rfl, hbegins, hcontinues⟩ := isNumeral_iff.1 h
  have hsplit := Lexeme.split?_numeral hbegins hcontinues (any_continues_eq_false_iff.2 hmaximal)
  exact next?_of_split? (not_isBlank_of_beginsNumeral hbegins) hsplit

theorem next?_of_isWord {letters : List Char} (h : IsWord letters)
    (hmaximal : ∀ c ∈ left.head?, isLetter c = false) :
    next? (letters ++ left) = some (.token (.ofWord letters left.isEmpty), left) := by
  obtain ⟨hne, hletters⟩ := h
  have hsplit := Lexeme.split?_word hne hletters (any_head?_eq_false_iff.2 hmaximal)
  obtain ⟨c, cs, rfl⟩ := List.exists_cons_of_ne_nil hne
  exact next?_of_split? (not_isBlank_of_isLetter (hletters c List.mem_cons_self)) hsplit

theorem next?_of_quotedBody {cs body : List Char} {rest : Option (List Char)}
    (h : Lexeme.quotedBody cs = (body, rest)) :
    next? ('"' :: cs) = some (.token (.text (String.ofList body)), rest.getD []) := by
  have hsplit : Lexeme.split? ('"' :: cs) = some (.quoted body rest.isSome, rest.getD []) := by
    simp [Lexeme.split?, Lexeme.isMark, Lexeme.beginsNumeral, Numeral.isSign, isDigit, h]
  exact next?_of_split? rfl hsplit

theorem next?_of_isStray {c : Char} (h : IsStray c) (left : List Char) :
    next? (c :: left) = some (.token (.illegal c), left) := by
  obtain ⟨hblank, hother, hdigit, hletter⟩ := h
  have hsplit : Lexeme.split? (c :: left) = some (.illegal c, left) := by
    simp only [List.mem_cons, List.not_mem_nil, or_false, not_or] at hother
    simp [Lexeme.split?, Lexeme.isMark, Lexeme.beginsNumeral, Numeral.isSign, hother, hdigit, hletter]
  exact next?_of_split? hblank hsplit

/-- A span is read as it says, whatever has been read in front of it. -/
theorem OfSpan.next? (h : r.OfSpan left span) : next? (span ++ left) = some (r, left) := by
  cases h with
  | mark mem =>
    rcases (by simpa using mem) with ⟨rfl, rfl⟩ | ⟨rfl, rfl⟩ | ⟨rfl, rfl⟩ | ⟨rfl, rfl⟩
    all_goals exact next?_mark rfl left
  | sign mem apart =>
    have hapart := any_head?_eq_false_iff.2 apart
    rcases (by simpa using mem) with ⟨rfl, rfl⟩ | ⟨rfl, rfl⟩
    all_goals exact next?_of_split? rfl (Lexeme.split?_sign rfl hapart)
  | number numeral maximal value =>
    rw [next?_of_isNumeral numeral maximal, Lexeme.reading, value]
  | malformed numeral maximal points =>
    rw [next?_of_isNumeral numeral maximal, Lexeme.reading, read?_eq_none_iff.2 points]
  | @closed body quotes ends =>
    have hbody : Lexeme.quotedBody (body ++ '"' :: left) = (body, some left) :=
      Lexeme.quotedBody_eq_some_iff.2 ⟨rfl, quotes, ends⟩
    have htext : '"' :: (body ++ ['"']) ++ left = '"' :: (body ++ '"' :: left) := by simp
    rw [htext, next?_of_quotedBody hbody]
    rfl
  | unclosed quotes ended =>
    have hbody := Lexeme.quotedBody_eq_none_iff.2 ⟨rfl, quotes⟩
    rw [ended, List.append_nil, next?_of_quotedBody hbody]
    rfl
  | nil word maximal name =>
    rw [next?_of_isWord word maximal]
    simp [Token.ofWord, name]
  | truth letter ended =>
    subst ended
    rcases letter with rfl | rfl <;> rfl
  | literal word maximal not_nil not_truth =>
    have htruth : ¬ (span.map Char.toUpper = ['T'] ∧ left.isEmpty = true) := by
      rintro ⟨hT, hended⟩
      exact not_truth hT (List.isEmpty_iff.1 hended)
    rw [next?_of_isWord word maximal]
    simp only [Token.ofWord, if_neg htruth, if_neg not_nil]
  | illegal stray => exact next?_of_isStray stray left

theorem OfSpan.exists_cons (h : r.OfSpan left span) : ∃ c cs, span = c :: cs ∧ isBlank c = false := by
  cases h with
  | mark mem =>
    refine ⟨_, [], rfl, ?_⟩
    rcases (by simpa using mem) with ⟨rfl, -⟩ | ⟨rfl, -⟩ | ⟨rfl, -⟩ | ⟨rfl, -⟩
    all_goals rfl
  | sign mem apart =>
    refine ⟨_, [], rfl, ?_⟩
    rcases (by simpa using mem) with ⟨rfl, -⟩ | ⟨rfl, -⟩
    all_goals rfl
  | number numeral | malformed numeral =>
    obtain ⟨c, cs, rfl, hbegins, -⟩ := isNumeral_iff.1 numeral
    exact ⟨c, cs, rfl, not_isBlank_of_beginsNumeral hbegins⟩
  | closed | unclosed => exact ⟨'"', _, rfl, rfl⟩
  | nil word | literal word =>
    obtain ⟨c, cs, rfl⟩ := List.exists_cons_of_ne_nil word.1
    exact ⟨c, cs, rfl, not_isBlank_of_isLetter (word.2 c List.mem_cons_self)⟩
  | truth letter =>
    rcases letter with rfl | rfl
    all_goals exact ⟨_, [], rfl, rfl⟩
  | illegal stray => exact ⟨_, [], rfl, stray.1⟩

/-- A sign is a span of its own where no digit follows it. -/
theorem OfSpan.sign_iff {c : Char} {cs : List Char} (h : r.OfSpan left (c :: cs))
    (hsign : c = '+' ∨ c = '-') : cs = [] ↔ ∀ d ∈ (cs ++ left).head?, isDigit d = false := by
  cases h with
  | mark mem => rcases hsign with rfl | rfl <;> simp at mem
  | sign mem apart => simpa using apart
  | number numeral | malformed numeral =>
    obtain ⟨_, _, heq, hbegins, -⟩ := isNumeral_iff.1 numeral
    cases heq
    have hdigit : isDigit c = false := by rcases hsign with rfl | rfl <;> rfl
    cases cs with
    | nil => simp [Lexeme.beginsNumeral, hdigit] at hbegins
    | cons d ds =>
      obtain ⟨-, hd⟩ : Numeral.isSign c = true ∧ isDigit d = true := by
        simpa [Lexeme.beginsNumeral, hdigit] using hbegins
      simp [hd]
  | closed | unclosed => rcases hsign with hsign | hsign <;> cases hsign
  | nil word | literal word =>
    have hletter := word.2 c List.mem_cons_self
    rcases hsign with rfl | rfl <;> cases hletter
  | truth letter => rcases hsign with rfl | rfl <;> simp at letter
  | illegal stray => rcases hsign with rfl | rfl <;> simp [IsStray] at stray

/-- A text that is not blank starts with one span, behind its blanks. -/
theorem next?_eq_some_iff : next? cs = some (r, left) ↔ ∃ gap span,
    cs = gap ++ (span ++ left) ∧ (∀ c ∈ gap, isBlank c = true) ∧ r.OfSpan left span := by
  constructor
  · intro h
    obtain ⟨lexeme, hsplit, rfl⟩ := exists_lexeme_of_next? h
    refine ⟨cs.takeWhile isBlank, lexeme.chars, ?_, List.all_eq_true.1 List.all_takeWhile, ?_⟩
    · rw [Lexeme.chars_append_of_split? hsplit, List.takeWhile_append_dropWhile]
    · have hhead := any_head?_dropWhile isBlank cs
      cases hdrop : cs.dropWhile isBlank with
      | nil =>
        rw [hdrop] at hsplit
        cases hsplit
      | cons c cs' =>
        rw [hdrop] at hsplit hhead
        exact Lexeme.ofSpan_of_split? (by simpa using hhead) hsplit
  · rintro ⟨gap, span, rfl, hgap, hspan⟩
    rw [next?_blanks_append hgap, hspan.next?]

end Reading

namespace Tiles
variable {cs : List Char} {p : Piece} {pieces pieces' : List Piece}

theorem next?_eq (h : Tiles cs (p :: pieces)) : Reading.next? cs = some (p.reading, p.left) := by
  cases h with
  | piece chars blank ofSpan rest => exact Reading.next?_eq_some_iff.2 ⟨_, _, chars, blank, ofSpan⟩

theorem all_eq (h : Tiles cs pieces) :
    Reading.all cs = pieces.map fun p => (p.reading, p.left) := by
  induction h with
  | done blank => exact Reading.all_of_next?_eq_none (Reading.next?_eq_none_iff.2 blank)
  | piece chars blank ofSpan rest ih =>
    have hnext := (piece chars blank ofSpan rest).next?_eq
    rw [Reading.all_of_next? hnext, ih, List.map_cons]

theorem exists_tail (h : Tiles cs pieces) : ∃ tail,
    cs = pieces.flatMap (fun p => p.gap ++ p.span) ++ tail ∧ ∀ c ∈ tail, isBlank c = true := by
  induction h with
  | @done cs blank => exact ⟨cs, rfl, blank⟩
  | piece chars blank ofSpan _ ih =>
    obtain ⟨tail, hleft, htail⟩ := ih
    refine ⟨tail, ?_, htail⟩
    rw [chars, hleft]
    simp

theorem gap_eq (h : Tiles cs (p :: pieces)) : p.gap = cs.takeWhile isBlank := by
  cases h with
  | piece chars blank ofSpan rest =>
    obtain ⟨c, span, hspan, hc⟩ := ofSpan.exists_cons
    have hhead : (p.span ++ p.left).head?.any isBlank = false := by simp [hspan, hc]
    rw [chars, takeWhile_append_of_head? blank hhead]

theorem unique (h : Tiles cs pieces) (h' : Tiles cs pieces') : pieces' = pieces := by
  induction h generalizing pieces' with
  | done blank =>
    cases h' with
    | done => rfl
    | piece chars blank' ofSpan rest =>
      have hnext := (piece chars blank' ofSpan rest).next?_eq
      rw [Reading.next?_eq_none_iff.2 blank] at hnext
      cases hnext
  | @piece cs p pieces chars blank ofSpan rest ih =>
    have hnext := (piece chars blank ofSpan rest).next?_eq
    have hgap := (piece chars blank ofSpan rest).gap_eq
    cases h' with
    | done blank' =>
      rw [Reading.next?_eq_none_iff.2 blank'] at hnext
      cases hnext
    | @piece _ p' pieces' chars' blank' ofSpan' rest' =>
      have hnext' := (piece chars' blank' ofSpan' rest').next?_eq
      have hgap' := (piece chars' blank' ofSpan' rest').gap_eq
      obtain ⟨gap, span, reading, left⟩ := p
      obtain ⟨gap', span', reading', left'⟩ := p'
      dsimp only at *
      rw [hnext] at hnext'
      cases hnext'
      obtain rfl : gap' = gap := hgap'.trans hgap.symm
      obtain rfl : span' = span := by
        rw [chars] at chars'
        simpa using chars'.symm
      rw [ih rest']

theorem exists_tiles (cs : List Char) : ∃ pieces, Tiles cs pieces := by
  fun_induction Reading.all cs with
  | case1 cs hnext => exact ⟨[], .done (Reading.next?_eq_none_iff.1 hnext)⟩
  | case2 cs r left hnext ih =>
    obtain ⟨pieces, hpieces⟩ := ih
    obtain ⟨gap, span, hchars, hgap, hspan⟩ := Reading.next?_eq_some_iff.1 hnext
    exact ⟨⟨gap, span, r, left⟩ :: pieces, .piece hchars hgap hspan hpieces⟩

theorem forall_mem (h : Tiles cs pieces) : ∀ p ∈ pieces,
    (∀ c ∈ p.gap, isBlank c = true) ∧ p.reading.OfSpan p.left p.span := by
  induction h with
  | done => simp
  | piece chars blank ofSpan _ ih => exact List.forall_mem_cons.2 ⟨⟨blank, ofSpan⟩, ih⟩

end Tiles

/-- Gaps and spans make up the source, with blanks behind the last span. No span is empty or starts with
a blank, each is read as its characters and the text behind it say, and a sign is a span of its own
exactly where no digit follows. There is no other way to cut the source into such pieces. -/
theorem Reading.all_partition (source : List Char) : ∃ pieces, Tiles source pieces ∧
    (∀ pieces', Tiles source pieces' → pieces' = pieces) ∧
    all source = pieces.map (fun p => (p.reading, p.left)) ∧
    (∃ tail, source = pieces.flatMap (fun p => p.gap ++ p.span) ++ tail ∧
      ∀ c ∈ tail, isBlank c = true) ∧
    ∀ p ∈ pieces, (∀ c ∈ p.gap, isBlank c = true) ∧ p.reading.OfSpan p.left p.span ∧
      ∃ c cs, p.span = c :: cs ∧ isBlank c = false ∧
        (c = '+' ∨ c = '-' → (cs = [] ↔ ∀ d ∈ (cs ++ p.left).head?, isDigit d = false)) := by
  obtain ⟨pieces, hpieces⟩ := Tiles.exists_tiles source
  refine ⟨pieces, hpieces, fun _ => hpieces.unique, hpieces.all_eq, hpieces.exists_tail, fun p hp => ?_⟩
  obtain ⟨hgap, hspan⟩ := hpieces.forall_mem p hp
  obtain ⟨c, cs, hcons, hblank⟩ := hspan.exists_cons
  refine ⟨hgap, hspan, c, cs, hcons, hblank, fun hsign => ?_⟩
  rw [hcons] at hspan
  exact hspan.sign_iff hsign

end SnapLisp
