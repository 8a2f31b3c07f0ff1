import SnapLisp.Proofs.Source.Grammar
import SnapLisp.Proofs.Source.Number

/-!
# Text behind a text

Reading goes no further than a lexeme and the character behind it, so other text behind a text does not
change what is read of it, as long as the last lexeme ends there (`Lexeme.EndsBefore`). In front of a
blank or a parenthesis each lexeme does but a string that is not closed, and only the constant T reads
as something else where the text goes on. A text that ends in neither (`EndsApart`) has the same tokens
in front of a delimiter, and the same expression unless its end closes a list (`read_append`).
-/

namespace SnapLisp

/-! ### Lexemes -/

section
variable {p : Char → Bool} {cs tail : List Char}

/-- A stretch of characters of a class is the same in front of a text that does not go on with it. -/
theorem stretch_append (h : cs.dropWhile p = [] → tail.head?.any p = false) :
    (cs ++ tail).takeWhile p = cs.takeWhile p ∧ (cs ++ tail).dropWhile p = cs.dropWhile p ++ tail := by
  induction cs with
  | nil =>
    exact ⟨takeWhile_append_of_head? (by simp) (h rfl), dropWhile_append_of_head? (by simp) (h rfl)⟩
  | cons c cs ih =>
    cases hc : p c with
    | true =>
      simp only [List.dropWhile_cons, hc, if_true] at h
      simp only [List.cons_append, List.takeWhile_cons, List.dropWhile_cons, hc, if_true, ih h, and_self]
    | false => simp [hc]

theorem getLast?_cons_ne {α : Type} {a b : α} {l : List α} (h : (a :: l).getLast? ≠ some b) :
    l.getLast? ≠ some b := by
  intro hlast
  rw [List.getLast?_cons, hlast] at h
  exact h rfl

end

namespace Lexeme
variable {cs rest tail : List Char} {lexeme : Lexeme} {c : Char}

/-- Nothing in front of the text goes on with the lexeme. -/
def EndsBefore (tail : List Char) : Lexeme → Prop
  | mark c => Numeral.isSign c = true → tail.head?.any isDigit = false
  | numeral _ => tail.head?.any Numeral.continues = false
  | quoted _ closed => closed = true
  | word _ => tail.head?.any isLetter = false
  | illegal _ => True

theorem endsBefore_of_delimits (h : Delimits tail) (hclosed : ∀ body, lexeme ≠ quoted body false) :
    lexeme.EndsBefore tail := by
  cases lexeme with
  | mark c => exact fun _ => h.head?_any (fun _ => not_isDigit_of_isBlank) rfl rfl
  | numeral cs => exact h.head?_any (fun _ => not_continues_of_isBlank) rfl rfl
  | quoted body closed =>
    cases closed with
    | true => rfl
    | false => exact absurd rfl (hclosed body)
  | word letters => exact h.head?_any (fun _ => not_isLetter_of_isBlank) rfl rfl
  | illegal c => trivial

theorem beginsNumeral_append (h : beginsNumeral c cs = true) : beginsNumeral c (cs ++ tail) = true := by
  cases cs with
  | cons d ds => exact h
  | nil =>
    have hdigit : isDigit c = true := by simpa [beginsNumeral] using h
    simp [beginsNumeral, hdigit]

theorem not_beginsNumeral_append (h : beginsNumeral c cs = false)
    (hsign : Numeral.isSign c = true → cs = [] → tail.head?.any isDigit = false) :
    beginsNumeral c (cs ++ tail) = false := by
  cases cs with
  | cons d ds => exact h
  | nil =>
    have hdigit : isDigit c = false := by simpa [beginsNumeral] using h
    cases hc : Numeral.isSign c with
    | false => simp [beginsNumeral, hdigit, hc]
    | true => simp [beginsNumeral, hdigit, hsign hc rfl]

theorem quotedBody_append {body : List Char} (h : quotedBody cs = (body, some rest)) :
    quotedBody (cs ++ tail) = (body, some (rest ++ tail)) := by
  fun_induction quotedBody cs generalizing body rest with
  | case1 => cases h
  | case2 cs => cases h; rfl
  | case3 c cs body' rest' hq ih =>
    cases h
    simp only [List.cons_append, quotedBody, ih hq]
  | case4 c cs hquote hbackslash body' rest' hq ih =>
    cases h
    rw [List.cons_append, quotedBody, ih hq]
    · exact hquote
    · -- A backslash at the end would take a character of the tail along, but no quote is behind it.
      rintro c' cs' rfl -
      cases cs with
      | nil => cases hq
      | cons d ds => exact hbackslash d ds rfl rfl

/-- A lexeme that ends there is cut off in the same way. -/
theorem split?_append (h : split? cs = some (lexeme, rest)) (hend : rest = [] → lexeme.EndsBefore tail) :
    split? (cs ++ tail) = some (lexeme, rest ++ tail) := by
  cases cs with
  | nil => cases h
  | cons c cs =>
    simp only [split?, Option.some.injEq] at h
    split at h
    · rename_i hmark
      cases h
      exact split?_mark hmark _
    rename_i hmark
    split at h
    · rename_i hnumeral
      cases h
      obtain ⟨htake, hdrop⟩ := stretch_append hend
      simp only [List.cons_append, split?, hmark, beginsNumeral_append hnumeral, htake, hdrop,
        if_true, Bool.false_eq_true, if_false]
    rename_i hnumeral
    rw [Bool.not_eq_true] at hnumeral
    split at h
    · rename_i hsign
      cases h
      have hbegins := not_beginsNumeral_append hnumeral fun _ hnil => hend hnil hsign
      simp only [List.cons_append, split?, hmark, hbegins, hsign, if_true, Bool.false_eq_true, if_false]
    rename_i hsign
    have hbegins : beginsNumeral c (cs ++ tail) = false :=
      not_beginsNumeral_append hnumeral fun hc => absurd hc hsign
    simp only [List.cons_append, split?, hmark, hbegins, hsign, Bool.false_eq_true, if_false,
      Option.some.injEq]
    split at h
    · rename_i hquote
      rw [if_pos hquote]
      cases hbody : quotedBody cs with
      | mk body rest' =>
        rw [hbody] at h
        cases rest' with
        | none =>
          cases h
          cases hend rfl
        | some rest' =>
          cases h
          rw [quotedBody_append hbody]
          rfl
    rename_i hquote
    rw [if_neg hquote]
    split at h
    · rename_i hletter
      cases h
      obtain ⟨htake, hdrop⟩ := stretch_append hend
      rw [if_pos hletter, htake, hdrop]
    · rename_i hletter
      cases h
      rw [if_neg hletter]

theorem suffix_of_split? (h : split? (cs.dropWhile isBlank) = some (lexeme, rest)) : rest <:+ cs :=
  .trans ⟨lexeme.chars, chars_append_of_split? h⟩ (List.dropWhile_suffix isBlank)

theorem split?_dropWhile_append (h : split? (cs.dropWhile isBlank) = some (lexeme, rest))
    (hend : rest = [] → lexeme.EndsBefore tail) :
    split? ((cs ++ tail).dropWhile isBlank) = some (lexeme, rest ++ tail) := by
  have hne : cs.dropWhile isBlank = [] → tail.head?.any isBlank = false := fun hnil => by
    rw [hnil] at h
    cases h
  rw [(stretch_append hne).2, split?_append h hend]

/-- Only the constant T reads as something else where the text goes on. -/
theorem reading_eq_of_ne_truth (h : lexeme.reading true ≠ .token .truth) (atEnd : Bool) :
    lexeme.reading atEnd = lexeme.reading true := by
  cases lexeme with
  | mark | numeral | quoted | illegal => rfl
  | word letters =>
    cases atEnd with
    | true => rfl
    | false =>
      have hname : letters.map Char.toUpper ≠ ['T'] := fun hT => h (by simp [reading, Token.ofWord, hT])
      simp [reading, Token.ofWord, hname]

/-- All lexemes of a text, each with the text left behind it. -/
def all (cs : List Char) : List (Lexeme × List Char) :=
  match _h : split? (cs.dropWhile isBlank) with
  | none => []
  | some (lexeme, rest) => (lexeme, rest) :: all rest
termination_by cs.length
decreasing_by exact Reading.length_left_lt (by rw [Reading.next?, _h])

theorem all_of_split? (h : split? (cs.dropWhile isBlank) = some (lexeme, rest)) :
    all cs = (lexeme, rest) :: all rest := by
  rw [all]
  split
  · rename_i hnone
    rw [hnone] at h
    cases h
  · rename_i hsome
    rw [hsome] at h
    cases h
    rfl

theorem all_of_split?_eq_none (h : split? (cs.dropWhile isBlank) = none) : all cs = [] := by
  rw [all]
  split
  · rfl
  · rename_i hsome
    rw [hsome] at h
    cases h

end Lexeme

/-- The readings of a text are those of its lexemes. -/
theorem Reading.all_eq (cs : List Char) :
    Reading.all cs = (Lexeme.all cs).map fun p => (p.1.reading p.2.isEmpty, p.2) := by
  fun_induction Lexeme.all cs with
  | case1 cs hsplit =>
    have hnext : next? cs = none := by rw [next?, hsplit]
    rw [all_of_next?_eq_none hnext, List.map_nil]
  | case2 cs lexeme rest hsplit ih =>
    have hnext : next? cs = some (lexeme.reading rest.isEmpty, rest) := by rw [next?, hsplit]
    rw [all_of_next? hnext, List.map_cons, ih]

/-- The last lexeme of the text is neither a string that is not closed nor the constant T. -/
structure EndsApart (cs : List Char) : Prop where
  closed : ∀ body left, (Lexeme.all cs).getLast? ≠ some (.quoted body false, left)
  not_truth : ∀ left, (Reading.all cs).getLast? ≠ some (.token .truth, left)

namespace Reading
variable {cs rest left tail : List Char} {lexeme : Lexeme} {r : Reading} {ts : List Token}

theorem next?_append_of_none (h : next? cs = none) (tail : List Char) :
    next? (cs ++ tail) = next? tail :=
  next?_blanks_append (next?_eq_none_iff.1 h) tail

theorem next?_append_of_split? (h : Lexeme.split? (cs.dropWhile isBlank) = some (lexeme, rest))
    (hend : rest = [] → lexeme.EndsBefore tail ∧ lexeme.reading true ≠ .token .truth) :
    next? (cs ++ tail) = some (lexeme.reading rest.isEmpty, rest ++ tail) := by
  rw [next?, Lexeme.split?_dropWhile_append h fun hnil => (hend hnil).1]
  cases rest with
  | cons c rest => rfl
  | nil =>
    have hreading := Lexeme.reading_eq_of_ne_truth (hend rfl).2
    show some (lexeme.reading _, tail) = some (lexeme.reading true, tail)
    rw [hreading]

end Reading

namespace EndsApart
open Reading
variable {cs rest left tail : List Char} {lexeme : Lexeme} {r : Reading} {ts : List Token}

theorem of_getLast? (hlast : (Lexeme.all cs).getLast? = some (lexeme, left))
    (hclosed : ∀ body, lexeme ≠ .quoted body false)
    (htruth : lexeme.reading left.isEmpty ≠ .token .truth) : EndsApart cs := by
  constructor
  · intro body left' h
    rw [hlast] at h
    cases h
    exact hclosed body rfl
  · intro left' h
    rw [Reading.all_eq, List.getLast?_map, hlast] at h
    exact htruth (congrArg Prod.fst (Option.some.inj h))

theorem of_next? (h : EndsApart cs) (hnext : next? cs = some (r, rest)) : EndsApart rest := by
  obtain ⟨lexeme, hsplit, -⟩ := exists_lexeme_of_next? hnext
  constructor
  · intro body left
    have hclosed := h.closed body left
    rw [Lexeme.all_of_split? hsplit] at hclosed
    exact getLast?_cons_ne hclosed
  · intro left
    have htruth := h.not_truth left
    rw [all_of_next? hnext] at htruth
    exact getLast?_cons_ne htruth

theorem last (h : EndsApart cs) (hsplit : Lexeme.split? (cs.dropWhile isBlank) = some (lexeme, [])) :
    (∀ body, lexeme ≠ .quoted body false) ∧ lexeme.reading true ≠ .token .truth := by
  have hnext : next? cs = some (lexeme.reading true, []) := by rw [next?, hsplit]; rfl
  constructor
  · rintro body rfl
    apply h.closed body []
    rw [Lexeme.all_of_split? hsplit, Lexeme.all_of_split?_eq_none rfl]
    rfl
  · intro htruth
    apply h.not_truth []
    rw [all_of_next? hnext, all_nil, htruth]
    rfl

theorem next?_append (h : EndsApart cs) (hnext : next? cs = some (r, rest)) (htail : Delimits tail) :
    next? (cs ++ tail) = some (r, rest ++ tail) := by
  obtain ⟨lexeme, hsplit, rfl⟩ := exists_lexeme_of_next? hnext
  refine next?_append_of_split? hsplit ?_
  rintro rfl
  obtain ⟨hclosed, htruth⟩ := h.last hsplit
  exact ⟨Lexeme.endsBefore_of_delimits htail hclosed, htruth⟩

theorem of_begins (h : EndsApart cs) (hbegins : Begins cs ts left) : EndsApart left := by
  induction hbegins with
  | nil cs => exact h
  | cons next _ _ ih => exact ih (h.of_next? next)

/-- The tokens of a text are the same in front of a delimiter. -/
theorem begins_append (h : EndsApart cs) (hbegins : Begins cs ts left) (htail : Delimits tail) :
    Begins (cs ++ tail) ts (left ++ tail) := by
  induction hbegins with
  | nil cs => exact .nil _
  | cons next legal _ ih => exact .cons (h.next?_append next htail) legal (ih (h.of_next? next))

end EndsApart

/-- The end of the text closes a list. -/
def LeavesOpen (cs : List Char) : Prop :=
  ∃ ts left, Reading.Begins cs ts left ∧ Reading.next? left = none ∧ 0 < Token.depth 0 ts

theorem LeavesOpen.of_begins {cs left : List Char} {ts : List Token} (h : LeavesOpen left)
    (hbegins : Reading.Begins cs ts left) (hwhole : Token.depth 0 ts = 0) : LeavesOpen cs := by
  obtain ⟨ts', left', hbegins', hended, hopen⟩ := h
  exact ⟨ts ++ ts', left', hbegins.append hbegins', hended, by rwa [Token.depth_append, hwhole]⟩

namespace Form
open Reading
variable {cs left tail : List Char} {form : Form}

/-- An expression that the text does not break off is the same with other text behind it. -/
theorem read_append (hread : read cs = (form, left)) (hnext : next? cs ≠ none)
    (hclosed : ¬ LeavesOpen cs) (hapart : EndsApart cs) (htail : Delimits tail) :
    read (cs ++ tail) = (form, left ++ tail) := by
  cases read_spelt hread with
  | ended _ hended => exact absurd hended hnext
  | stray _ next => exact read_eq_stop_iff.2 (.inr (hapart.next?_append next htail))
  | fault begins unfinished next fault =>
    refine read_of_fault? (hapart.begins_append begins htail) unfinished ?_ fault
    exact (hapart.of_begins begins).next?_append next htail
  | closed begins _ tokens =>
    rw [Open.tokens, List.nil_append] at tokens
    rw [← tokens] at begins
    exact read_of_tokens (isTree_of_read hread) (hapart.begins_append begins htail)
  | cut begins ended depth => exact absurd ⟨_, _, begins, ended, depth⟩ hclosed

/-- Unless it has a fault, what was read of the text leaves no list open. -/
theorem begins_of_read (hread : read cs = (form, left)) (hnext : next? cs ≠ none)
    (hclosed : ¬ LeavesOpen cs) (hform : ∀ f, form ≠ .fault f) :
    ∃ ts, Begins cs ts left ∧ Token.depth 0 ts = 0 := by
  cases read_spelt hread with
  | ended _ hended => exact absurd hended hnext
  | stray _ next => exact ⟨[.rparen], .singleton next rfl, rfl⟩
  | fault => exact absurd rfl (hform _)
  | closed begins depth _ => exact ⟨_, begins, depth⟩
  | cut begins ended depth => exact absurd ⟨_, _, begins, ended, depth⟩ hclosed

theorem length_lt_of_read (hread : read cs = (form, left)) (hnext : next? cs ≠ none) :
    left.length < cs.length := by
  cases left with
  | cons c left => exact length_left_lt hread (List.cons_ne_nil c left)
  | nil =>
    refine List.length_pos_iff.2 fun hnil => hnext ?_
    rw [hnil]
    rfl

end Form
end SnapLisp
