import SnapLisp.Proofs.Source.InStep
import SnapLisp.Proofs.Source.Span

/-!
# Letter case

Two sources that differ in the case of letters only, and not inside texts, are in step
(`IsRecased.inStep`). What a span is read as does not depend on the case of letters unless it is a text
(`Reading.OfSpan.recased`); where a text ends is told by its quotes and backslashes. So the tiling of the
first source says how the second is read, from one piece to the next.
-/

namespace SnapLisp

/-- The same character, or the same letter in another case. -/
def SameLetter (c c' : Char) : Prop :=
  c = c' ∨ isLetter c = true ∧ isLetter c' = true ∧ c.toUpper = c'.toUpper

/-- The place is in the span of the piece, and the piece is a text. -/
def Piece.HasText (p : Piece) (source : List Char) (i : Nat) : Prop :=
  (∃ s, p.reading = .token (.text s)) ∧
    position source (p.span ++ p.left) ≤ i ∧ i < position source p.left

/-- The second source is the first with some letters in another case, but none of those in texts. -/
structure IsRecased (source source' : List Char) : Prop where
  length_eq : source.length = source'.length
  letters : ∀ (i : Nat) (c c' : Char), source[i]? = some c → source'[i]? = some c' → SameLetter c c'
  texts : ∀ pieces, Tiles source pieces → ∀ p ∈ pieces, ∀ i : Nat,
    p.HasText source i → source[i]? = source'[i]?

theorem getElem?_append_add {α : Type} (front l : List α) (i : Nat) :
    (front ++ l)[front.length + i]? = l[i]? := by
  rw [List.getElem?_append_right (Nat.le_add_right _ _), Nat.add_sub_cancel_left]

theorem Piece.HasText.append {p : Piece} {cs : List Char} {i : Nat} (h : p.HasText cs i)
    (front : List Char) : p.HasText (front ++ cs) (front.length + i) := by
  obtain ⟨htext, hfirst, hlast⟩ := h
  refine ⟨htext, ?_, ?_⟩
  all_goals
    simp only [position, List.length_append] at hfirst hlast ⊢
    omega

theorem not_continues_of_isLetter {c : Char} (h : isLetter c = true) :
    Numeral.continues c = false := by
  have hpoint : c ≠ '.' := by
    rintro rfl
    cases h
  simp [Numeral.continues, not_isDigit_of_isLetter h, hpoint]

namespace SameLetter
variable {c c' : Char} {cs cs' as bs : List Char}

theorem eq_of_not_isLetter (h : SameLetter c c') (hc : isLetter c = false) : c = c' := by
  rcases h with rfl | ⟨hletter, -⟩
  · rfl
  · rw [hc] at hletter
    cases hletter

theorem toUpper_eq (h : SameLetter c c') : c.toUpper = c'.toUpper := by
  rcases h with rfl | ⟨-, -, hupper⟩
  · rfl
  · exact hupper

/-- A class with all letters or none does not tell the cases of a letter apart. -/
theorem class_eq {p : Char → Bool} {b : Bool} (h : SameLetter c c')
    (hp : ∀ {c}, isLetter c = true → p c = b) : p c = p c' := by
  rcases h with rfl | ⟨hc, hc', -⟩
  · rfl
  · rw [hp hc, hp hc']

theorem eq_of_not_letters (h : List.Forall₂ SameLetter cs cs') (hcs : ∀ c ∈ cs, isLetter c = false) :
    cs = cs' := by
  induction h with
  | nil => rfl
  | cons hc _ ih =>
    obtain ⟨hhead, htail⟩ := List.forall_mem_cons.1 hcs
    rw [hc.eq_of_not_isLetter hhead, ih htail]

theorem map_toUpper_eq (h : List.Forall₂ SameLetter cs cs') :
    cs.map Char.toUpper = cs'.map Char.toUpper := by
  induction h with
  | nil => rfl
  | cons hc _ ih => rw [List.map_cons, List.map_cons, hc.toUpper_eq, ih]

theorem forall_head? {p : Char → Bool} {b : Bool} (h : List.Forall₂ SameLetter cs cs')
    (hp : ∀ {c}, isLetter c = true → p c = b) (hcs : ∀ c ∈ cs.head?, p c = false) :
    ∀ c ∈ cs'.head?, p c = false := by
  cases h with
  | nil => exact hcs
  | cons hc =>
    intro c' hc'
    obtain rfl := Option.mem_some_iff.1 hc'
    rw [← hc.class_eq hp]
    exact hcs _ rfl

theorem forall₂_append (h : List.Forall₂ SameLetter (as ++ bs) cs) : ∃ as' bs',
    cs = as' ++ bs' ∧ List.Forall₂ SameLetter as as' ∧ List.Forall₂ SameLetter bs bs' := by
  have has := List.forall₂_take as.length h
  have hbs := List.forall₂_drop as.length h
  rw [List.take_left] at has
  rw [List.drop_left] at hbs
  exact ⟨_, _, (List.take_append_drop as.length cs).symm, has, hbs⟩

end SameLetter

theorem IsWord.recased {text text' : List Char} (h : IsWord text)
    (htext : List.Forall₂ SameLetter text text') : IsWord text' := by
  obtain ⟨hne, hletters⟩ := h
  refine ⟨fun hnil => hne ?_, ?_⟩
  · rwa [hnil, List.forall₂_nil_right_iff] at htext
  · clear hne
    induction htext with
    | nil => exact hletters
    | cons hc _ ih =>
      obtain ⟨hhead, htail⟩ := List.forall_mem_cons.1 hletters
      exact List.forall_mem_cons.2 ⟨hc.class_eq id ▸ hhead, ih htail⟩

theorem not_isLetter_of_isNumeral {text : List Char} (h : IsNumeral text) :
    ∀ c ∈ text, isLetter c = false := by
  intro c hc
  rw [Bool.eq_false_iff]
  intro hletter
  obtain ⟨c', cs, rfl, hbegins, hcs⟩ := isNumeral_iff.1 h
  rcases List.mem_cons.1 hc with rfl | hmem
  · simp [Lexeme.beginsNumeral, not_isDigit_of_isLetter hletter, not_isSign_of_isLetter hletter] at hbegins
  · have hcontinues := hcs c hmem
    rw [not_continues_of_isLetter hletter] at hcontinues
    cases hcontinues

/-- A span is read as before when letters of it and of the text behind it get another case, unless they
are in a text. -/
theorem Reading.OfSpan.recased {r : Reading} {left left' span span' : List Char} (h : r.OfSpan left span)
    (hspan : List.Forall₂ SameLetter span span') (hleft : List.Forall₂ SameLetter left left')
    (htext : (∃ s, r = .token (.text s)) → span = span') : r.OfSpan left' span' := by
  have hsame := SameLetter.eq_of_not_letters hspan
  have hupper := SameLetter.map_toUpper_eq hspan
  have hdigit := SameLetter.forall_head? hleft not_isDigit_of_isLetter
  have hletter := SameLetter.forall_head? hleft id
  have hcontinues : (∀ c ∈ left.head?, isDigit c = false ∧ c ≠ '.') →
      ∀ c ∈ left'.head?, isDigit c = false ∧ c ≠ '.' := by
    simp only [← continues_eq_false_iff]
    exact SameLetter.forall_head? hleft not_continues_of_isLetter
  have hnil : left = [] ↔ left' = [] := by
    rw [← List.length_eq_zero_iff, ← List.length_eq_zero_iff, hleft.length_eq]
  cases h with
  | @mark c t mem =>
    have hc : ∀ c' ∈ [c], isLetter c' = false := by
      rcases (by simpa using mem) with ⟨rfl, -⟩ | ⟨rfl, -⟩ | ⟨rfl, -⟩ | ⟨rfl, -⟩
      all_goals exact List.forall_mem_singleton.2 rfl
    obtain rfl := hsame hc
    exact .mark mem
  | @sign c t mem apart =>
    have hc : ∀ c' ∈ [c], isLetter c' = false := by
      rcases (by simpa using mem) with ⟨rfl, -⟩ | ⟨rfl, -⟩
      all_goals exact List.forall_mem_singleton.2 rfl
    obtain rfl := hsame hc
    exact .sign mem (hdigit apart)
  | number numeral maximal value =>
    obtain rfl := hsame (not_isLetter_of_isNumeral numeral)
    exact .number numeral (hcontinues maximal) value
  | malformed numeral maximal points =>
    obtain rfl := hsame (not_isLetter_of_isNumeral numeral)
    exact .malformed numeral (hcontinues maximal) points
  | closed quotes ends =>
    obtain rfl := htext ⟨_, rfl⟩
    exact .closed quotes ends
  | unclosed quotes ended =>
    obtain rfl := htext ⟨_, rfl⟩
    exact .unclosed quotes (hnil.1 ended)
  | nil word maximal name => exact .nil (word.recased hspan) (hletter maximal) (hupper ▸ name)
  | @truth c letter ended =>
    cases hspan with
    | @cons _ c' _ _ hc hrest =>
      cases hrest
      have hT : c'.toUpper = 'T' := hc.toUpper_eq ▸ toUpper_eq_T_iff.2 letter
      exact .truth (toUpper_eq_T_iff.1 hT) (hnil.1 ended)
  | literal word maximal not_nil not_truth =>
    rw [hupper] at not_nil not_truth ⊢
    exact .literal (word.recased hspan) (hletter maximal) not_nil fun hT => mt hnil.2 (not_truth hT)
  | illegal stray =>
    obtain rfl := hsame (List.forall_mem_singleton.2 stray.2.2.2)
    exact .illegal stray

namespace Tiles
variable {cs cs' : List Char} {pieces : List Piece}

theorem inStep (h : Tiles cs pieces) (hletters : List.Forall₂ SameLetter cs cs')
    (htexts : ∀ p ∈ pieces, ∀ i : Nat, p.HasText cs i → cs[i]? = cs'[i]?) : Reading.InStep cs cs' := by
  induction h generalizing cs' with
  | done blank =>
    have heq := SameLetter.eq_of_not_letters hletters fun c hc => not_isLetter_of_isBlank (blank c hc)
    exact heq ▸ .refl _
  | @piece cs p pieces chars blank ofSpan rest ih =>
    obtain ⟨gap, span, r, left⟩ := p
    dsimp only at chars blank ofSpan ih
    subst chars
    have hlength := hletters.length_eq
    obtain ⟨gap', behind', rfl, hgap, hbehind⟩ := SameLetter.forall₂_append hletters
    obtain ⟨span', left', rfl, hspan, hleft⟩ := SameLetter.forall₂_append hbehind
    obtain rfl := SameLetter.eq_of_not_letters hgap fun c hc => not_isLetter_of_isBlank (blank c hc)
    have hspans := hspan.length_eq
    have htext : (∃ s, r = .token (.text s)) → span = span' := by
      intro hr
      refine List.ext_getElem hspans fun i hi hi' => ?_
      have hplace := htexts ⟨gap, span, r, left⟩ List.mem_cons_self (gap.length + i)
        ⟨hr, by simp [position], by simp [position]; omega⟩
      rw [getElem?_append_add, getElem?_append_add, List.getElem?_append_left hi,
        List.getElem?_append_left hi', List.getElem?_eq_getElem hi,
        List.getElem?_eq_getElem hi'] at hplace
      exact Option.some.inj hplace
    have hnext : Reading.next? (gap ++ (span ++ left)) = some (r, left) :=
      Reading.next?_eq_some_iff.2 ⟨gap, span, rfl, blank, ofSpan⟩
    have hnext' : Reading.next? (gap ++ (span' ++ left')) = some (r, left') :=
      Reading.next?_eq_some_iff.2 ⟨gap, span', rfl, blank, ofSpan.recased hspan hleft htext⟩
    refine .of_next? (ih hleft fun p hp i hi => ?_) hnext hnext' hlength
    have hplace := htexts p (List.mem_cons_of_mem _ hp) (gap.length + (span.length + i))
      ((hi.append span).append gap)
    rwa [getElem?_append_add, getElem?_append_add, getElem?_append_add, hspans,
      getElem?_append_add] at hplace

end Tiles

theorem IsRecased.inStep {source source' : List Char} (h : IsRecased source source') :
    Reading.InStep source source' := by
  obtain ⟨pieces, hpieces⟩ := Tiles.exists_tiles source
  have hletters : List.Forall₂ SameLetter source source' := by
    refine List.forall₂_iff_get.2 ⟨h.length_eq, fun i hi hi' => ?_⟩
    exact h.letters i _ _ (List.getElem?_eq_getElem hi) (List.getElem?_eq_getElem hi')
  exact hpieces.inStep hletters (h.texts pieces hpieces)

end SnapLisp
