import Mathlib.Order.Bounds.Basic
import SnapLisp.Proofs.Source.Span

/-!
# Strings in a source

A quote that opens a string is closed by the first quote behind it with an even number of backslashes
directly in front (`Closes`). A reader that takes backslashes in pairs from the left finds just that
quote, and where there is none it takes the rest of the source (`Reading.next?_string`).
-/

namespace SnapLisp

/-- The text behind place `q` and in front of place `p`. -/
def between (source : List Char) (q p : Nat) : List Char :=
  (source.drop (q + 1)).take (p - (q + 1))

/-- The quote at place `p` has an even number of backslashes directly in front of it, counted back as far
as place `q`. -/
structure Closes (source : List Char) (q p : Nat) : Prop where
  behind : q < p
  isQuote : source[p]? = some '"'
  even : trailingBackslashes (between source q p) % 2 = 0

variable {source body left : List Char} {q p : Nat}

theorem between_of_drop (h : source.drop (q + 1) = body ++ left) :
    between source q (q + 1 + body.length) = body := by
  rw [between, h, Nat.add_sub_cancel_left, List.take_left]

theorem closes_iff : Closes source q p ↔ ∃ body left,
    source.drop (q + 1) = body ++ '"' :: left ∧ p = q + 1 + body.length ∧ ¬ Escapes body := by
  constructor
  · rintro ⟨hbehind, hquote, heven⟩
    obtain ⟨k, rfl⟩ := Nat.exists_eq_add_of_le (Nat.succ_le_of_lt hbehind)
    obtain ⟨hlt, hquote⟩ := List.getElem?_eq_some_iff.1 hquote
    have hlength : ((source.drop (q + 1)).take k).length = k := by
      rw [List.length_take, List.length_drop]
      omega
    have hdrop : (source.drop (q + 1)).drop k = '"' :: source.drop (q + 1 + k + 1) := by
      rw [List.drop_drop, List.drop_eq_getElem_cons hlt, hquote]
    refine ⟨(source.drop (q + 1)).take k, source.drop (q + 1 + k + 1), ?_, by rw [hlength], ?_⟩
    · rw [← hdrop, List.take_append_drop]
    · rw [between, Nat.add_sub_cancel_left] at heven
      rw [Escapes, heven]
      decide
  · rintro ⟨body, left, hdrop, rfl, hends⟩
    refine ⟨by omega, ?_, ?_⟩
    · rw [← List.getElem?_drop, hdrop]
      simp
    · rw [between_of_drop hdrop]
      rw [Escapes] at hends
      omega

/-- Quotes in a text in which all of them are escaped close nothing. -/
theorem not_closes_of_quotesEscaped (h : QuotesEscaped (source.drop (q + 1))) (p : Nat) :
    ¬ Closes source q p := by
  intro hcloses
  obtain ⟨body, left, hdrop, -, hends⟩ := closes_iff.1 hcloses
  exact hends (h body left hdrop)

theorem isLeast_closes (hdrop : source.drop (q + 1) = body ++ '"' :: left) (hquotes : QuotesEscaped body)
    (hends : ¬ Escapes body) : IsLeast {p | Closes source q p} (q + 1 + body.length) := by
  refine ⟨closes_iff.2 ⟨body, left, hdrop, rfl, hends⟩, fun p hp => ?_⟩
  obtain ⟨body', left', hdrop', rfl, hends'⟩ := closes_iff.1 hp
  refine Nat.add_le_add_left ?_ _
  rcases List.append_eq_append_iff.1 (hdrop.symm.trans hdrop') with ⟨mid, rfl, -⟩ | ⟨mid, hbody, hleft⟩
  · rw [List.length_append]
    exact Nat.le_add_right ..
  · cases mid with
    | nil => rw [hbody, List.append_nil]
    | cons c mid =>
      cases hleft
      exact absurd (hquotes body' mid hbody) hends'

namespace Reading

/-- Where a quote opens a string, the string goes up to the first quote behind it that has an even number of
backslashes directly in front, or to the end of the source if there is no such quote. The text in between
is taken as it is, and the position is behind the closing quote, or at the end. -/
theorem next?_string (hopen : source[q]? = some '"') :
    ((∃ p, Closes source q p) → ∃ p, IsLeast {p | Closes source q p} p ∧
      next? (source.drop q) =
        some (.token (.text (String.ofList (between source q p))), source.drop (p + 1)) ∧
      position source (source.drop (p + 1)) = p + 1 ∧ p + 1 ≤ source.length) ∧
    ((∀ p, ¬ Closes source q p) →
      next? (source.drop q) = some (.token (.text (String.ofList (source.drop (q + 1)))), []) ∧
      position source [] = source.length) := by
  obtain ⟨hlt, hquote⟩ := List.getElem?_eq_some_iff.1 hopen
  have hsource : source.drop q = '"' :: source.drop (q + 1) := by
    rw [List.drop_eq_getElem_cons hlt, hquote]
  rw [hsource]
  cases hbody : Lexeme.quotedBody (source.drop (q + 1)) with
  | mk body rest =>
    rw [next?_of_quotedBody hbody]
    cases rest with
    | some left =>
      obtain ⟨hdrop, hquotes, hends⟩ := Lexeme.quotedBody_eq_some_iff.1 hbody
      have hleast := isLeast_closes hdrop hquotes hends
      refine ⟨fun _ => ⟨q + 1 + body.length, hleast, ?_⟩, fun hnone => absurd hleast.1 (hnone _)⟩
      have hleft : source.drop (q + 1 + body.length + 1) = left := by
        rw [Nat.add_assoc, ← List.drop_drop, hdrop]
        simp
      obtain ⟨hend, -⟩ := List.getElem?_eq_some_iff.1 hleast.1.isQuote
      refine ⟨?_, ?_, hend⟩
      · rw [between_of_drop hdrop, hleft]
        rfl
      · rw [position, List.length_drop]
        omega
    | none =>
      obtain ⟨hdrop, hquotes⟩ := Lexeme.quotedBody_eq_none_iff.1 hbody
      rw [← hdrop] at hquotes ⊢
      exact ⟨fun ⟨p, hp⟩ => absurd hp (not_closes_of_quotesEscaped hquotes p), fun _ => ⟨rfl, rfl⟩⟩

/-- A quote behind one backslash stands in the string, and one behind two of them closes it. -/
theorem next?_string_escaped :
    let source := ['(', '"', '\\', '"', 'a', '\\', '\\', '"', ')']
    source[1]? = some '"' ∧ next? (source.drop 1) =
      some (.token (.text (String.ofList ['\\', '"', 'a', '\\', '\\'])), [')']) := by
  intro source
  have hcloses : Closes source 1 7 := ⟨by decide, rfl, by decide +zetaReduce⟩
  have honly : ∀ p ≤ 7, 1 < p → source[p]? = some '"' →
      trailingBackslashes (between source 1 p) % 2 = 0 → p = 7 := by
    decide +zetaReduce
  have hopen : source[1]? = some '"' := rfl
  obtain ⟨p, ⟨hp, hleast⟩, hnext, -⟩ := (next?_string hopen).1 ⟨7, hcloses⟩
  obtain rfl := honly p (hleast hcloses) hp.behind hp.isQuote hp.even
  exact ⟨hopen, hnext⟩

end Reading
end SnapLisp
