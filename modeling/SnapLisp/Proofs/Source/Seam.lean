import SnapLisp.Proofs.Source.Boundary
import SnapLisp.Proofs.Source.InStep

/-!
# Seams

Two texts meet in a seam if the first one is empty, if there is a blank on either side, or if the first
one ends with a token that nothing can go on with (`IsSeam`). The lexemes of both together are those of
the first and then those of the second (`Lexeme.all_append`), provided that the first one leaves no
string open and does not end with the constant T. So are the readings, at places that are moved by the
length of the first text (`Reading.placed_all_append`).
-/

namespace SnapLisp

/-- A token that ends where its spelling does, whatever stands behind it. -/
def Token.IsDetached : Token → Prop
  | lparen | rparen | asterisk | slash | illegal _ | text _ => True
  | plus | minus | truth | nil | number _ | literal _ => False

/-- The ways in which two texts can meet so that no lexeme goes on from the first into the second. -/
inductive IsSeam (cs tail : List Char) : Prop
  | empty (nothing : cs = [])
  | blankBefore {c : Char} (last : cs.getLast? = some c) (blank : isBlank c = true)
  | detached {t : Token} {left : List Char} (last : (Reading.all cs).getLast? = some (.token t, left))
    (detached : t.IsDetached)
  | blankBehind {c : Char} (head : tail.head? = some c) (blank : isBlank c = true)

namespace Lexeme
variable {cs rest left tail : List Char} {lexeme : Lexeme} {c : Char} {t : Token}

/-- A lexeme of a text is cut off somewhere in it, where no blank is. -/
theorem exists_split?_of_mem (h : (lexeme, left) ∈ all cs) : ∃ c mid, c :: mid <:+ cs ∧
    isBlank c = false ∧ split? (c :: mid) = some (lexeme, left) := by
  fun_induction all cs with
  | case1 => exact absurd h List.not_mem_nil
  | case2 cs lexeme' rest hsplit ih =>
    rcases List.mem_cons.1 h with heq | h
    · cases heq
      have hsuffix := List.dropWhile_suffix isBlank (l := cs)
      have hhead := List.head?_dropWhile_not isBlank cs
      cases hdrop : cs.dropWhile isBlank with
      | nil =>
        rw [hdrop] at hsplit
        cases hsplit
      | cons c mid =>
        rw [hdrop] at hsplit hsuffix hhead
        exact ⟨c, mid, hsuffix, by simpa using hhead, hsplit⟩
    · obtain ⟨c, mid, hmid, hblank, hmem⟩ := ih h
      exact ⟨c, mid, hmid.trans (suffix_of_split? hsplit), hblank, hmem⟩

theorem length_le_of_mem_all (h : (lexeme, left) ∈ all cs) : left.length ≤ cs.length := by
  obtain ⟨c, mid, hmid, -, hsplit⟩ := exists_split?_of_mem h
  have hleft : left <:+ c :: mid := ⟨lexeme.chars, chars_append_of_split? hsplit⟩
  exact (hleft.trans hmid).length_le

theorem not_isBlank_of_mem_takeWhile {p : Char → Bool} (hp : ∀ c, isBlank c = true → p c = false)
    (h : c ∈ cs.takeWhile p) : isBlank c = false := by
  cases hblank : isBlank c with
  | false => rfl
  | true =>
    have hmem := List.mem_takeWhile_imp h
    rw [hp c hblank] at hmem
    cases hmem

/-- Blanks stand in no lexemes but strings. -/
theorem not_isBlank_of_mem_chars {d : Char} (hc : isBlank c = false)
    (hsplit : split? (c :: cs) = some (lexeme, rest)) (hquoted : ∀ body closed, lexeme ≠ quoted body closed)
    (hmem : d ∈ lexeme.chars) : isBlank d = false := by
  have hfirst : d ∈ [c] → isBlank d = false := fun h => by rwa [List.mem_singleton.1 h]
  have hstretch (p : Char → Bool) (hp : ∀ c, isBlank c = true → p c = false)
      (h : d ∈ c :: cs.takeWhile p) : isBlank d = false := by
    rcases List.mem_cons.1 h with rfl | h
    · exact hc
    · exact not_isBlank_of_mem_takeWhile hp h
  simp only [split?, Option.some.injEq] at hsplit
  split at hsplit
  · cases hsplit
    exact hfirst hmem
  split at hsplit
  · cases hsplit
    exact hstretch _ (fun _ => not_continues_of_isBlank) hmem
  split at hsplit
  · cases hsplit
    exact hfirst hmem
  split at hsplit
  · cases hsplit
    exact absurd rfl (hquoted _ _)
  split at hsplit
  · cases hsplit
    exact hstretch _ (fun _ => not_isLetter_of_isBlank) hmem
  · cases hsplit
    exact hfirst hmem

/-- A lexeme ends with a blank only if it is a string that is not closed. -/
theorem not_isBlank_of_getLast? {d : Char} (hc : isBlank c = false)
    (hsplit : split? (c :: cs) = some (lexeme, rest)) (hclosed : ∀ body, lexeme ≠ quoted body false)
    (hlast : lexeme.chars.getLast? = some d) : isBlank d = false := by
  by_cases hquoted : ∃ body closed, lexeme = quoted body closed
  · obtain ⟨body, closed, rfl⟩ := hquoted
    cases closed with
    | true =>
      have hquote : ('"' :: (body ++ ['"'])).getLast? = some '"' := by
        rw [← List.cons_append, List.getLast?_concat]
      cases hquote.symm.trans hlast
      rfl
    | false => exact absurd rfl (hclosed body)
  · refine not_isBlank_of_mem_chars hc hsplit (fun body closed h => ?_) (List.mem_of_getLast? hlast)
    exact hquoted ⟨body, closed, h⟩

theorem endsBefore_of_detached (hreading : lexeme.reading true = .token t) (ht : t.IsDetached)
    (hclosed : ∀ body, lexeme ≠ quoted body false) : lexeme.EndsBefore tail := by
  cases lexeme with
  | mark c =>
    intro hsign
    rcases (by simpa [Numeral.isSign] using hsign : c = '+' ∨ c = '-') with rfl | rfl
    all_goals
      cases hreading
      exact ht.elim
  | numeral cs =>
    simp only [reading] at hreading
    split at hreading
    · cases hreading
      exact ht.elim
    · cases hreading
  | quoted body closed =>
    cases closed with
    | true => rfl
    | false => exact absurd rfl (hclosed body)
  | word letters =>
    simp only [reading, Token.ofWord, Reading.token.injEq] at hreading
    repeat' split at hreading
    all_goals
      cases hreading
      exact ht.elim
  | illegal c => trivial

/-! ### Lexemes on both sides -/

/-- Text behind a text goes on with none of its lexemes and changes none of its readings. -/
def Stops (cs tail : List Char) : Prop :=
  ∀ lexeme, (all cs).getLast? = some (lexeme, []) →
    lexeme.EndsBefore tail ∧ lexeme.reading true ≠ .token .truth

namespace Stops

theorem of_split? (h : Stops cs tail) (hsplit : split? (cs.dropWhile isBlank) = some (lexeme, rest)) :
    Stops rest tail := by
  intro last hlast
  apply h
  rw [all_of_split? hsplit, List.getLast?_cons, hlast]
  rfl

theorem last (h : Stops cs tail) (hsplit : split? (cs.dropWhile isBlank) = some (lexeme, [])) :
    lexeme.EndsBefore tail ∧ lexeme.reading true ≠ .token .truth := by
  apply h
  rw [all_of_split? hsplit, all_of_split?_eq_none rfl]
  rfl

theorem of_isSeam (hapart : EndsApart cs) (h : IsSeam cs tail) : Stops cs tail := by
  intro lexeme hlast
  have hclosed : ∀ body, lexeme ≠ quoted body false := by
    rintro body rfl
    exact hapart.closed body [] hlast
  have hreading : (Reading.all cs).getLast? = some (lexeme.reading true, []) := by
    rw [Reading.all_eq, List.getLast?_map, hlast]
    rfl
  have htruth : lexeme.reading true ≠ .token .truth := by
    intro htruth
    rw [htruth] at hreading
    exact hapart.not_truth [] hreading
  refine ⟨?_, htruth⟩
  cases h with
  | empty nothing =>
    rw [nothing, all_of_split?_eq_none rfl] at hlast
    cases hlast
  | @blankBefore d last blank =>
    obtain ⟨c, mid, ⟨before, rfl⟩, hc, hsplit⟩ := exists_split?_of_mem (List.mem_of_getLast? hlast)
    have hchars : lexeme.chars = c :: mid := by simpa using chars_append_of_split? hsplit
    have hend : lexeme.chars.getLast? = some d := by
      rwa [List.getLast?_append_of_ne_nil _ (List.cons_ne_nil c mid), ← hchars] at last
    rw [not_isBlank_of_getLast? hc hsplit hclosed hend] at blank
    cases blank
  | detached last detached =>
    rw [hreading] at last
    exact endsBefore_of_detached (congrArg Prod.fst (Option.some.inj last)) detached hclosed
  | @blankBehind c head blank =>
    refine endsBefore_of_delimits (fun d hd => .inl ?_) hclosed
    rw [head] at hd
    cases hd
    exact blank

end Stops

theorem all_blanks_append (h : ∀ c ∈ cs, isBlank c = true) (tail : List Char) :
    all (cs ++ tail) = all tail := by
  have hdrop : (cs ++ tail).dropWhile isBlank = tail.dropWhile isBlank := List.dropWhile_append_of_pos h
  cases hsplit : split? (tail.dropWhile isBlank) with
  | none => rw [all_of_split?_eq_none hsplit, all_of_split?_eq_none (hdrop ▸ hsplit)]
  | some p => rw [all_of_split? hsplit, all_of_split? (hdrop ▸ hsplit)]

theorem all_append (h : Stops cs tail) :
    all (cs ++ tail) = (all cs).map (Prod.map id (· ++ tail)) ++ all tail := by
  fun_induction all cs with
  | case1 cs hsplit =>
    have hblank : ∀ c ∈ cs, isBlank c = true :=
      Reading.next?_eq_none_iff.1 (by rw [Reading.next?, hsplit])
    rw [all_blanks_append hblank]
    rfl
  | case2 cs lexeme rest hsplit ih =>
    have happend : split? ((cs ++ tail).dropWhile isBlank) = some (lexeme, rest ++ tail) :=
      split?_dropWhile_append hsplit fun hnil => (h.last (hnil ▸ hsplit)).1
    rw [all_of_split? happend, ih (h.of_split? hsplit)]
    rfl

/-- Each reading of the first text is the same with the other text behind it. -/
theorem Stops.reading_eq (h : Stops cs tail) {p : Lexeme × List Char} (hp : p ∈ all cs) :
    p.1.reading (p.2 ++ tail).isEmpty = p.1.reading p.2.isEmpty := by
  fun_induction all cs with
  | case1 => exact absurd hp List.not_mem_nil
  | case2 cs lexeme rest hsplit ih =>
    rcases List.mem_cons.1 hp with rfl | hp
    · cases rest with
      | cons c rest => rfl
      | nil => exact reading_eq_of_ne_truth (h.last hsplit).2 _
    · exact ih (h.of_split? hsplit) hp

end Lexeme

namespace Reading
variable {cs tail : List Char}

theorem all_append (h : Lexeme.Stops cs tail) :
    all (cs ++ tail) = (all cs).map (Prod.map id (· ++ tail)) ++ all tail := by
  rw [all_eq, all_eq, all_eq, Lexeme.all_append h, List.map_append, List.map_map, List.map_map]
  refine congrArg (· ++ _) (List.map_congr_left fun p hp => ?_)
  exact Prod.ext (h.reading_eq hp) rfl

end Reading

/-- Two rows read one behind the other, with the places of the second moved by the length of the first
text. -/
theorem placed_append {α : Type} {cs tail : List Char} (l : List (α × List Char))
    {l' : List (α × List Char)} (h : ∀ p ∈ l', p.2.length ≤ tail.length) :
    placed (cs ++ tail) (l.map (Prod.map id (· ++ tail)) ++ l') =
      placed cs l ++ (placed tail l').map (Prod.map id (cs.length + ·)) := by
  rw [placed, placed, placed, List.map_append, List.map_map, List.map_map]
  congr 1
  · refine List.map_congr_left fun p _ => Prod.ext rfl ?_
    show position (cs ++ tail) (p.2 ++ tail) = position cs p.2
    rw [position, position, List.length_append, List.length_append, Nat.add_sub_add_right]
  · refine List.map_congr_left fun p hp => Prod.ext rfl ?_
    show position (cs ++ tail) p.2 = cs.length + position tail p.2
    rw [position, position, List.length_append, Nat.add_sub_assoc (h p hp)]

/-- In a seam the readings of two texts are those of the first one and then those of the second one, and
so are the lexemes. -/
theorem Reading.placed_all_append {cs tail : List Char} (hapart : EndsApart cs) (hseam : IsSeam cs tail) :
    placed (cs ++ tail) (all (cs ++ tail)) =
      placed cs (all cs) ++ (placed tail (all tail)).map (Prod.map id (cs.length + ·)) ∧
    placed (cs ++ tail) (Lexeme.all (cs ++ tail)) =
      placed cs (Lexeme.all cs) ++ (placed tail (Lexeme.all tail)).map (Prod.map id (cs.length + ·)) := by
  have hstops := Lexeme.Stops.of_isSeam hapart hseam
  have hlexemes : ∀ p ∈ Lexeme.all tail, p.2.length ≤ tail.length := fun p hp =>
    Lexeme.length_le_of_mem_all hp
  have hreadings : ∀ p ∈ all tail, p.2.length ≤ tail.length := by
    rw [all_eq]
    exact List.forall_mem_map.2 hlexemes
  rw [all_append hstops, Lexeme.all_append hstops]
  exact ⟨placed_append _ hreadings, placed_append _ hlexemes⟩

/-- A malformed numeral in front of a parenthesis, and a number behind it. -/
theorem Reading.placed_all_append_rparen :
    let cs := ['1', '.', '.', ')']
    let tail := ['-', '1']
    EndsApart cs ∧ IsSeam cs tail ∧
    placed (cs ++ tail) (all (cs ++ tail)) =
      placed cs (all cs) ++ (placed tail (all tail)).map (Prod.map id (4 + ·)) ∧
    placed (cs ++ tail) (Lexeme.all (cs ++ tail)) =
      placed cs (Lexeme.all cs) ++ (placed tail (Lexeme.all tail)).map (Prod.map id (4 + ·)) := by
  intro cs tail
  have hlexemes : Lexeme.all cs = [(.numeral ['1', '.', '.'], [')']), (.mark ')', [])] := by
    refine (@Lexeme.all_of_split? cs _ _ rfl).trans (congrArg _ ?_)
    refine (@Lexeme.all_of_split? [')'] _ _ rfl).trans (congrArg _ ?_)
    exact Lexeme.all_of_split?_eq_none rfl
  have hapart : EndsApart cs := .of_getLast? (congrArg List.getLast? hlexemes) (by simp) (by decide)
  have hlast : (all cs).getLast? = some (.token .rparen, []) := by
    rw [all_eq, hlexemes]
    rfl
  have hseam : IsSeam cs tail := .detached hlast trivial
  exact ⟨hapart, hseam, placed_all_append hapart hseam⟩

end SnapLisp
