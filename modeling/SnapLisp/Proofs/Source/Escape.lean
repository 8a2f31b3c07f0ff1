import Mathlib.Logic.Basic
import SnapLisp.Source.Lexeme

/-!
# Escaped characters

Inside a string the backslashes go in pairs from the left, so a character is escaped if an odd number
of backslashes stand right in front of it (`Escapes`). The string ends at the first quote that is not
escaped: all quotes in front of it are (`QuotesEscaped`), and both determine how the text is cut
(`quotedBody_eq_some_iff`, `quotedBody_eq_none_iff`).
-/

namespace SnapLisp

/-- How many backslashes a text ends with. -/
def trailingBackslashes (cs : List Char) : Nat :=
  (cs.reverse.takeWhile (· == '\\')).length

/-- The last backslash of the text takes the character behind it along. -/
def Escapes (before : List Char) : Prop :=
  trailingBackslashes before % 2 = 1

/-- Every quote in the text is escaped. -/
def QuotesEscaped (body : List Char) : Prop :=
  ∀ before after, body = before ++ '"' :: after → Escapes before

section
variable {cs : List Char} {c : Char}

theorem trailingBackslashes_nil : trailingBackslashes [] = 0 := rfl

theorem trailingBackslashes_backslash (cs : List Char) :
    trailingBackslashes (cs ++ ['\\']) = trailingBackslashes cs + 1 := by
  simp [trailingBackslashes]

theorem trailingBackslashes_of_ne (hc : c ≠ '\\') : trailingBackslashes (cs ++ [c]) = 0 := by
  simp [trailingBackslashes, hc]

theorem not_escapes_nil : ¬ Escapes [] := by
  simp [Escapes, trailingBackslashes_nil]

theorem escapes_backslash_iff : Escapes (cs ++ ['\\']) ↔ ¬ Escapes cs := by
  rw [Escapes, Escapes, trailingBackslashes_backslash]
  omega

theorem not_escapes_of_ne (cs : List Char) (hc : c ≠ '\\') : ¬ Escapes (cs ++ [c]) := by
  rw [Escapes, trailingBackslashes_of_ne hc]
  omega

/-- A pair of a backslash and another character starts anew. -/
theorem not_escapes_pair (h : ¬ Escapes cs) (c : Char) : ¬ Escapes (cs ++ ['\\', c]) := by
  have hpair : cs ++ ['\\', c] = (cs ++ ['\\']) ++ [c] := by simp
  rw [hpair]
  by_cases hc : c = '\\'
  · subst hc
    rw [escapes_backslash_iff, escapes_backslash_iff, not_not]
    exact h
  · exact not_escapes_of_ne _ hc

/-- A text has one first quote that is not escaped. -/
theorem eq_of_append_quote {body body' left left' : List Char}
    (h : body ++ '"' :: left = body' ++ '"' :: left') (hquotes : QuotesEscaped body)
    (hend : ¬ Escapes body) (hquotes' : QuotesEscaped body') (hend' : ¬ Escapes body') :
    body = body' ∧ left = left' := by
  rcases List.append_eq_append_iff.1 h with ⟨mid, hbody, hleft⟩ | ⟨mid, hbody, hleft⟩
  · cases mid with
    | nil => simpa using And.intro hbody.symm (List.cons.inj hleft).2
    | cons c mid =>
      cases hleft
      exact absurd (hquotes' body mid hbody) hend
  · cases mid with
    | nil => simpa using And.intro hbody (List.cons.inj hleft).2.symm
    | cons c mid =>
      cases hleft
      exact absurd (hquotes body' mid hbody) hend'

end

namespace Lexeme
variable {cs body : List Char} {rest : Option (List Char)}

-- The recursion skips a pair at once, so the text in front is carried along and escapes nothing.
theorem quotedBody_escaped_behind (h : quotedBody cs = (body, rest)) {done : List Char}
    (hdone : ¬ Escapes done) :
    (∀ before after, body = before ++ '"' :: after → Escapes (done ++ before)) ∧
      (rest.isSome = true → ¬ Escapes (done ++ body)) := by
  fun_induction quotedBody cs generalizing body rest done with
  | case1 =>
    cases h
    simp
  | case2 cs =>
    cases h
    simpa using hdone
  | case3 c cs body' rest' hq ih =>
    cases h
    obtain ⟨hquotes, hend⟩ := ih hq (not_escapes_pair hdone c)
    refine ⟨fun before after heq => ?_, by simpa using hend⟩
    cases before with
    | nil => cases heq
    | cons _ before =>
      cases before with
      | nil =>
        cases heq
        exact escapes_backslash_iff.2 hdone
      | cons _ before =>
        cases heq
        simpa using hquotes before after rfl
  | case4 c cs hquote hbackslash body' rest' hq ih =>
    cases h
    by_cases hc : c = '\\'
    · -- A backslash at the end has nothing to take along.
      cases cs with
      | cons d ds => exact absurd rfl (hbackslash d ds hc)
      | nil =>
        cases hq
        refine ⟨fun before after heq => ?_, by simp⟩
        cases before with
        | nil =>
          cases heq
          cases hc
        | cons _ before => simp at heq
    · obtain ⟨hquotes, hend⟩ := ih hq (not_escapes_of_ne done hc)
      refine ⟨fun before after heq => ?_, by simpa using hend⟩
      cases before with
      | nil =>
        cases heq
        exact (hquote rfl).elim
      | cons _ before =>
        cases heq
        simpa using hquotes before after rfl

theorem quotedBody_escaped (h : quotedBody cs = (body, rest)) :
    QuotesEscaped body ∧ (rest.isSome = true → ¬ Escapes body) :=
  quotedBody_escaped_behind h not_escapes_nil

/-- A string ends at the first quote that is not escaped. -/
theorem quotedBody_eq_some_iff {left : List Char} : quotedBody cs = (body, some left) ↔
    cs = body ++ '"' :: left ∧ QuotesEscaped body ∧ ¬ Escapes body := by
  constructor
  · intro h
    obtain ⟨hquotes, hend⟩ := quotedBody_escaped h
    exact ⟨by simpa using (chars_append_of_quotedBody h).symm, hquotes, hend rfl⟩
  · rintro ⟨rfl, hquotes, hend⟩
    cases hread : quotedBody (body ++ '"' :: left) with
    | mk body' rest =>
      have hchars := chars_append_of_quotedBody hread
      obtain ⟨hquotes', hend'⟩ := quotedBody_escaped hread
      cases rest with
      | none =>
        have hbody : body' = body ++ '"' :: left := by simpa using hchars
        exact absurd (hquotes' body left hbody) hend
      | some left' =>
        have hsame : body' ++ '"' :: left' = body ++ '"' :: left := by simpa using hchars
        obtain ⟨rfl, rfl⟩ := eq_of_append_quote hsame hquotes' (hend' rfl) hquotes hend
        rfl

/-- Without such a quote it goes on to the end of the text. -/
theorem quotedBody_eq_none_iff : quotedBody cs = (body, none) ↔ cs = body ∧ QuotesEscaped body := by
  constructor
  · intro h
    exact ⟨by simpa using (chars_append_of_quotedBody h).symm, (quotedBody_escaped h).1⟩
  · rintro ⟨rfl, hquotes⟩
    cases hread : quotedBody cs with
    | mk body rest =>
      have hchars := chars_append_of_quotedBody hread
      cases rest with
      | none =>
        obtain rfl : body = cs := by simpa using hchars
        rfl
      | some left =>
        have hcs : cs = body ++ '"' :: left := by simpa using hchars.symm
        exact absurd (hquotes body left hcs) ((quotedBody_escaped hread).2 rfl)

end Lexeme
end SnapLisp
