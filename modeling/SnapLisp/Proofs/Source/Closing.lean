import SnapLisp.Proofs.Source.Boundary

/-!
# Closing parentheses at the end of a text

The end of a text closes all open lists at once, closing parentheses close them one by one, and
either way they are the same lists (`readFrom_rparens`). So it does not matter how many of the
parentheses that are missing at the end of a text are put there, nor how many are put there that are
not missing (`read_append_rparens`).
-/

namespace SnapLisp

theorem delimits_rparens (j : Nat) : Delimits (.replicate j ')') := by
  cases j with
  | zero => exact .nil
  | succ j => exact .cons (.inr (.inr rfl))

/-- How the text ends matters for its last reading only. -/
theorem Reading.next?_append_of_apart {cs rest tail : List Char} {r : Reading}
    (hnext : next? cs = some (r, rest)) (hapart : rest = [] → EndsApart cs)
    (htail : Delimits tail) : next? (cs ++ tail) = some (r, rest ++ tail) := by
  cases rest with
  | nil => exact (hapart rfl).next?_append hnext htail
  | cons c rest =>
    obtain ⟨lexeme, hsplit, rfl⟩ := exists_lexeme_of_next? hnext
    exact next?_append_of_split? hsplit fun hnil => absurd hnil (List.cons_ne_nil c rest)

namespace Form
open Reading
variable {cs : List Char}

/-- Closing parentheses that no open list needs are left. Where no list is open, one is taken off. -/
theorem readFrom_rparens (opened : Open) (j : Nat) : readFrom opened (.replicate j ')') =
    (closeAll opened, .replicate (j - max 1 opened.length) ')') := by
  induction j generalizing opened with
  | zero =>
    rw [Nat.zero_sub]
    exact readFrom_of_next?_eq_none rfl
  | succ j ih =>
    rw [List.replicate_succ, readFrom_of_next? next?_rparen]
    cases opened with
    | nil => rfl
    | cons items outer =>
      rw [step_rparen]
      cases outer with
      | nil => rfl
      | cons items' outer =>
        show readFrom ((.list items.reverse :: items') :: outer) _ = _
        have hclose : closeAll ((.list items.reverse :: items') :: outer) =
          closeAll (items :: items' :: outer) := rfl
        have hleft : j - max 1 (outer.length + 1) = j + 1 - max 1 (outer.length + 1 + 1) := by omega
        rw [ih, hclose, List.length_cons, List.length_cons, List.length_cons, hleft]

theorem readFrom_append_rparens (opened : Open) (hapart : (readFrom opened cs).2 = [] → EndsApart cs)
    (j : Nat) : (readFrom opened (cs ++ .replicate j ')')).1 = (readFrom opened cs).1 ∧
      ∃ k, k ≤ j ∧ (readFrom opened (cs ++ .replicate j ')')).2 =
        (readFrom opened cs).2 ++ .replicate k ')' := by
  fun_induction readFrom opened cs with
  | case1 opened cs hnext =>
    rw [readFrom_congr (next?_append_of_none hnext _), readFrom_rparens]
    exact ⟨rfl, _, Nat.sub_le .., rfl⟩
  | case2 opened cs r rest hnext form hstep =>
    rw [readFrom_of_next? (next?_append_of_apart hnext hapart (delimits_rparens j)), hstep]
    exact ⟨rfl, j, Nat.le_refl j, rfl⟩
  | case3 opened cs r rest hnext opened' hstep ih =>
    have hrest : rest = [] → EndsApart cs := by
      rintro rfl
      exact hapart (by rw [readFrom_of_next?_eq_none rfl])
    rw [readFrom_of_next? (next?_append_of_apart hnext hrest (delimits_rparens j)), hstep]
    exact ih fun hended => (hapart hended).of_next? hnext

/-- Closing parentheses behind a text do not change its first expression, nor the fault in it, and the
text behind the expression is the same but for those that close nothing. How the text ends matters only
if the expression ends there too. -/
theorem read_append_rparens (hapart : (read cs).2 = [] → EndsApart cs) (j : Nat) :
    (read (cs ++ .replicate j ')')).1 = (read cs).1 ∧
      ∃ k, k ≤ j ∧ (read (cs ++ .replicate j ')')).2 = (read cs).2 ++ .replicate k ')' :=
  readFrom_append_rparens [] hapart j

/-- Five closing parentheses behind `((1`. -/
theorem read_append_rparens_numeral :
    let cs := ['(', '(', '1']
    ((read cs).2 = [] → EndsApart cs) ∧ (read (cs ++ .replicate 5 ')')).1 = (read cs).1 ∧
      ∃ k, k ≤ 5 ∧ (read (cs ++ .replicate 5 ')')).2 = (read cs).2 ++ .replicate k ')' := by
  intro cs
  have hlexemes : Lexeme.all cs = [(.mark '(', ['(', '1']), (.mark '(', ['1']), (.numeral ['1'], [])] := by
    refine (@Lexeme.all_of_split? cs _ _ rfl).trans (congrArg _ ?_)
    refine (@Lexeme.all_of_split? ['(', '1'] _ _ rfl).trans (congrArg _ ?_)
    refine (@Lexeme.all_of_split? ['1'] _ _ rfl).trans (congrArg _ ?_)
    exact Lexeme.all_of_split?_eq_none rfl
  have hapart : EndsApart cs := .of_getLast? (congrArg List.getLast? hlexemes) (by simp) (by decide)
  exact ⟨fun _ => hapart, read_append_rparens (fun _ => hapart) 5⟩

end Form
end SnapLisp
