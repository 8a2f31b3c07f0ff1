import SnapLisp.Proofs.Source.Span

/-!
# Spellings

The spelling of a token in front of a blank or at the end of a source is a span that reads as the token
(`ofSpan_inSource`); only T needs something behind it to be a symbol, and nothing behind it to be the
constant. So a source is tiled by the spellings of its tokens, whatever blanks stand between them, and its
tokens are the ones that were spelt (`tokens_laidOut`).
-/

namespace SnapLisp

theorem Reading.tokens_eq_ok {readings : List (Reading × List Char)} {ts : List Token}
    (h : readings.map (·.1) = ts.map .token) : Reading.tokens readings = .ok ts := by
  induction readings generalizing ts with
  | nil =>
    obtain rfl : ts = [] := List.map_eq_nil_iff.1 h.symm
    rfl
  | cons reading readings ih =>
    obtain ⟨t, ts', rfl, hhead, htail⟩ := List.map_eq_cons_iff.1 h.symm
    obtain ⟨r, left⟩ := reading
    obtain rfl : Reading.token t = r := hhead
    rw [Reading.tokens, ih htail.symm]
    rfl

namespace Token

/-- The tokens that can be spelt at any place of a source. -/
inductive IsSpellable : Token → Prop
  | fixed {t : Token} (mem : t ∈ [plus, minus, asterisk, slash, lparen, rparen, nil]) : IsSpellable t
  | literal {name : String} (ne_nil : name.toList ≠ [])
    (capitals : ∀ c ∈ name.toList, isCapital c = true) (ne : name ≠ "NIL") :
    IsSpellable (literal name)
  | number {x : Binary64} (finite : x.IsFinite) : IsSpellable (number x)
  | text {s : String} (quotes : QuotesEscaped s.toList) (ends : ¬ Escapes s.toList) :
    IsSpellable (text s)

/-- The spelling of a token as it stands in a source, a text in its quotes. -/
def inSource (t : Token) : List Char :=
  match t with
  | text _ => '"' :: (t.spelling ++ ['"'])
  | _ => t.spelling

/-- Tokens, each with the blanks behind it. -/
def laidOut (items : List (Token × List Char)) : List Char :=
  items.flatMap fun item => item.1.inSource ++ item.2

-- `+ "a"`.
example : laidOut [(plus, [' ']), (text "a", [])] = ['+', ' ', '"', 'a', '"'] := rfl

/-- There are blanks between tokens, and the constant T is the last of all. -/
structure IsLaidOut (items : List (Token × List Char)) : Prop where
  blank : ∀ item ∈ items, ∀ c ∈ item.2, isBlank c = true
  between : ∀ item ∈ items.dropLast, item.1.IsSpellable ∧ item.2 ≠ []
  last : ∀ item ∈ items.getLast?,
    item.1.IsSpellable ∧ (item.1 = literal "T" → item.2 ≠ []) ∨ item.1 = truth ∧ item.2 = []

variable {t : Token} {item : Token × List Char} {items : List (Token × List Char)}
  {gap left : List Char}

theorem ofSpan_inSource (h : t.IsSpellable) (hleft : ∀ c ∈ left.head?, isBlank c = true)
    (hT : t = literal "T" → left ≠ []) : (Reading.token t).OfSpan left t.inSource := by
  have hdigit : ∀ c ∈ left.head?, isDigit c = false := fun c hc => not_isDigit_of_isBlank (hleft c hc)
  have hletter : ∀ c ∈ left.head?, isLetter c = false := fun c hc =>
    not_isLetter_of_isBlank (hleft c hc)
  have hcontinues : ∀ c ∈ left.head?, isDigit c = false ∧ c ≠ '.' := fun c hc =>
    continues_eq_false_iff.1 (not_continues_of_isBlank (hleft c hc))
  cases h with
  | fixed mem =>
    have hcases : t = plus ∨ t = minus ∨ t = asterisk ∨ t = slash ∨ t = lparen ∨ t = rparen ∨
        t = nil := by simpa using mem
    rcases hcases with rfl | rfl | rfl | rfl | rfl | rfl | rfl
    · exact .sign (by simp) hdigit
    · exact .sign (by simp) hdigit
    · exact .mark (by simp)
    · exact .mark (by simp)
    · exact .mark (by simp)
    · exact .mark (by simp)
    · exact .nil ⟨List.cons_ne_nil _ _, List.all_eq_true.1 rfl⟩ hletter rfl
  | @literal name ne_nil capitals ne =>
    have hword : IsWord name.toList := ⟨ne_nil, fun c hc => isLetter_of_isCapital (capitals c hc)⟩
    have hupper := map_toUpper_of_capitals capitals
    have hspan := @Reading.OfSpan.literal left name.toList hword hletter
    rw [hupper, String.ofList_toList] at hspan
    exact hspan (mt toList_eq_NIL_iff.1 ne) fun hname => hT (congrArg _ (toList_eq_T_iff.1 hname))
  | @number x finite =>
    obtain ⟨c, cs, htext, hbegins, hcs⟩ := Reading.exists_write_cons finite
    have hnumeral : IsNumeral (Layout.plain.write x) := isNumeral_iff.2 ⟨c, cs, htext, hbegins, hcs⟩
    exact .number hnumeral hcontinues (read?_write finite)
  | @text s quotes ends =>
    have hspan := @Reading.OfSpan.closed left s.toList quotes ends
    rwa [String.ofList_toList] at hspan

namespace IsLaidOut

theorem tail (h : IsLaidOut (item :: items)) : IsLaidOut items := by
  obtain ⟨blank, between, last⟩ := h
  have hblank := (List.forall_mem_cons.1 blank).2
  cases items with
  | nil => exact ⟨hblank, by simp, by simp⟩
  | cons next items =>
    rw [List.dropLast_cons_of_ne_nil (List.cons_ne_nil next items)] at between
    rw [List.getLast?_cons_cons] at last
    exact ⟨hblank, (List.forall_mem_cons.1 between).2, last⟩

/-- The first token, with its blanks and the other tokens behind it. -/
theorem ofSpan_head (h : IsLaidOut (item :: items)) :
    (Reading.token item.1).OfSpan (item.2 ++ laidOut items) item.1.inSource := by
  obtain ⟨t, blanks⟩ := item
  have hblank : ∀ c ∈ blanks, isBlank c = true := h.blank _ List.mem_cons_self
  have hhead : ∀ c ∈ blanks.head?, isBlank c = true := fun c hc => hblank c (List.mem_of_mem_head? hc)
  cases items with
  | nil =>
    have hlast := h.last (t, blanks) rfl
    show (Reading.token t).OfSpan (blanks ++ []) t.inSource
    rw [List.append_nil]
    rcases hlast with ⟨hspellable, hT⟩ | ⟨htruth, hnil⟩
    · exact ofSpan_inSource hspellable hhead hT
    · obtain rfl : t = truth := htruth
      exact .truth (.inr rfl) hnil
  | cons next items =>
    obtain ⟨hspellable, hne⟩ := h.between (t, blanks) (by simp)
    obtain ⟨c, blanks, rfl⟩ := List.exists_cons_of_ne_nil hne
    exact ofSpan_inSource hspellable hhead fun _ => List.cons_ne_nil _ _

/-- The spellings tile the text, each with the blanks in front of it. -/
theorem exists_tiles (h : IsLaidOut items) (hgap : ∀ c ∈ gap, isBlank c = true) :
    ∃ pieces, Tiles (gap ++ laidOut items) pieces ∧
      pieces.map (·.reading) = items.map (.token ·.1) := by
  induction items generalizing gap with
  | nil => exact ⟨[], .done (by simpa [laidOut] using hgap), rfl⟩
  | cons item items ih =>
    obtain ⟨pieces, htiles, hreadings⟩ := ih h.tail (h.blank item List.mem_cons_self)
    have htext : gap ++ laidOut (item :: items) =
        gap ++ (item.1.inSource ++ (item.2 ++ laidOut items)) := by
      simp [laidOut]
    let piece : Piece := ⟨gap, item.1.inSource, .token item.1, item.2 ++ laidOut items⟩
    refine ⟨piece :: pieces, .piece htext hgap h.ofSpan_head htiles, ?_⟩
    exact congrArg (_ :: ·) hreadings

end IsLaidOut

/-- Tokens that are spelt one after the other, with any blanks between them, are the tokens of the text.
A number comes back as it was, and so does a text, with the backslashes in it. -/
theorem tokens_laidOut (hgap : ∀ c ∈ gap, isBlank c = true) (h : IsLaidOut items) :
    Reading.tokens (Reading.all (gap ++ laidOut items)) = .ok (items.map (·.1)) := by
  obtain ⟨pieces, htiles, hreadings⟩ := h.exists_tiles hgap
  refine Reading.tokens_eq_ok ?_
  rw [htiles.all_eq, List.map_map, List.map_map]
  exact hreadings

/-- A symbol T in front of a negative zero, of a text with a quote in it and of the constant. -/
theorem tokens_laidOut_truth :
    let items : List (Token × List Char) := [(literal "T", ['\t']),
      (number (.signed true 0 (Nat.zero_le _)), ['\u2028']), (text "\\\"", [' ', '\n']), (truth, [])]
    (∀ c ∈ ['\u3000'], isBlank c = true) ∧ IsLaidOut items ∧
      Reading.tokens (Reading.all (['\u3000'] ++ laidOut items)) = .ok (items.map (·.1)) := by
  intro items
  have hgap : ∀ c ∈ ['\u3000'], isBlank c = true := List.forall_mem_singleton.2 rfl
  have hbody : Lexeme.quotedBody ['\\', '"', '"'] = (['\\', '"'], some []) := rfl
  obtain ⟨-, hquotes, hends⟩ := Lexeme.quotedBody_eq_some_iff.1 hbody
  have hsymbol : (literal "T").IsSpellable :=
    .literal (List.cons_ne_nil _ _) (List.forall_mem_singleton.2 rfl) (by decide)
  have hzero : (number (.signed true 0 (Nat.zero_le _))).IsSpellable := .number (by decide)
  have hitems : IsLaidOut items := by
    refine ⟨?_, ?_, ?_⟩
    · simp only [items, List.forall_mem_cons]
      exact ⟨⟨rfl, List.forall_mem_nil _⟩, ⟨rfl, List.forall_mem_nil _⟩,
        ⟨rfl, rfl, List.forall_mem_nil _⟩, List.forall_mem_nil _, List.forall_mem_nil _⟩
    · simp only [items, List.dropLast_cons_cons, List.dropLast_singleton, List.forall_mem_cons]
      exact ⟨⟨hsymbol, List.cons_ne_nil _ _⟩, ⟨hzero, List.cons_ne_nil _ _⟩,
        ⟨.text hquotes hends, List.cons_ne_nil _ _⟩, List.forall_mem_nil _⟩
    · intro item hitem
      obtain rfl : (truth, []) = item := Option.mem_some_iff.1 hitem
      exact .inr ⟨rfl, rfl⟩
  exact ⟨hgap, hitems, tokens_laidOut hgap hitems⟩

end Token
end SnapLisp
