import SnapLisp.Proofs.Source.Boundary
import SnapLisp.Proofs.Source.InStep

/-!
# Progress of a reader

What is left of a text behind a reading, and behind an expression, is a shorter end of the text, unless
the text had nothing but blanks in it. So a reader ends, however it goes about it: by recursive descent
(`Form.descend`) with a depth in proportion to the text (`descend_eq_read`), through all expressions in
a loop (`readAllWithin_eq`), or asked again and again, with faults passed over (`getLast?_reads`).
`reader_progress` puts this together for the places of a source.
-/

namespace SnapLisp

/-- Each end of the text behind a place is the text behind a place further on. -/
theorem exists_place {source rest : List Char} {p : Nat} (h : rest <:+ source.drop p)
    (hp : p ≤ source.length) : ∃ q, rest = source.drop q ∧ p ≤ q ∧ q ≤ source.length := by
  have hle := h.length_le
  rw [List.length_drop] at hle
  refine ⟨position source rest, List.suffix_iff_eq_drop.1 (h.trans (List.drop_suffix p source)), ?_,
    Nat.sub_le ..⟩
  rw [position]
  omega

theorem lt_of_length_drop_lt {source : List Char} {p q : Nat}
    (h : (source.drop q).length < (source.drop p).length) : p < q := by
  rw [List.length_drop, List.length_drop] at h
  omega

namespace Reading
variable {cs rest : List Char} {r : Reading}

theorem suffix_of_next? (h : next? cs = some (r, rest)) : rest <:+ cs := by
  obtain ⟨lexeme, hsplit, -⟩ := exists_lexeme_of_next? h
  exact Lexeme.suffix_of_split? hsplit

end Reading

namespace Form
open Reading
variable {cs rest left : List Char} {opened : Open} {form : Form} {v : Value} {n : Nat}

theorem suffix_of_readFrom (h : readFrom opened cs = (form, left)) : left <:+ cs := by
  fun_induction readFrom opened cs with
  | case1 =>
    cases h
    exact List.nil_suffix
  | case2 opened cs r rest hnext form' hstep =>
    cases h
    exact suffix_of_next? hnext
  | case3 opened cs r rest hnext opened' hstep ih => exact (ih h).trans (suffix_of_next? hnext)

theorem suffix_of_read (h : read cs = (form, left)) : left <:+ cs :=
  suffix_of_readFrom h

theorem length_lt_of_read_value (h : read cs = (.value v, left)) : left.length < cs.length := by
  refine length_lt_of_read h fun hnext => ?_
  rw [read_eq_stop_iff.2 (.inl ⟨hnext, rfl⟩)] at h
  cases h

/-! ### Recursive descent -/

/-- What a reading that opens no list is as an expression. -/
def ofReading : Reading → Form
  | .malformed numeral => fault (.malformedNumeral numeral)
  | .token (.illegal c) => fault (.illegalCharacter c)
  | .token t => (atom? t).elim stop value

mutual

/-- The expression that a text begins with, by recursive descent with so many calls inside one another
at most. -/
def descend : Nat → List Char → Option (Form × List Char)
  | 0, _ => none
  | n + 1, cs =>
    match next? cs with
    | none => some (.stop, [])
    | some (r, rest) =>
      if r = .token .lparen then descendItems n [] rest else some (ofReading r, rest)

/-- The rest of a list, with the items so far in reverse. -/
def descendItems : Nat → List Value → List Char → Option (Form × List Char)
  | 0, _, _ => none
  | n + 1, items, cs =>
    match descend n cs with
    | some (.value v, rest) => descendItems n (v :: items) rest
    | some (.stop, rest) => some (.value (.list items.reverse), rest)
    | some (.fault f, rest) => some (.fault f, rest)
    | none => none

end

/-- What an expression does to the lists that it is read in. -/
def enter : Form → Open → Form ⊕ Open
  | value v, opened => place v opened
  | stop, opened => close opened
  | fault f, _ => .inl (.fault f)

theorem step_eq_enter {r : Reading} (h : r ≠ .token .lparen) :
    step opened r = (ofReading r).enter opened := by
  cases r with
  | malformed numeral => rfl
  | token t =>
    cases t with
    | lparen => exact absurd rfl h
    | number | text | literal | plus | minus | asterisk | slash | truth | nil | rparen | illegal => rfl

theorem resume_enter_nil (form : Form) (rest : List Char) : resume rest (form.enter []) = (form, rest) := by
  cases form <;> rfl

/-- Where nothing is left, closing the innermost list is closing all of them. -/
theorem resume_close_nil (opened : Open) : resume [] (close opened) = (closeAll opened, []) := by
  cases opened with
  | nil => rfl
  | cons items outer =>
    cases outer with
    | nil => rfl
    | cons items' outer => exact readFrom_of_next?_eq_none rfl

/-- Recursive descent does to the open lists what reading on inside them does. -/
theorem readFrom_of_descend (n : Nat) :
    (∀ opened cs form rest, descend n cs = some (form, rest) →
      readFrom opened cs = resume rest (form.enter opened)) ∧
    ∀ items opened cs form rest, descendItems n items cs = some (form, rest) →
      readFrom (items :: opened) cs = resume rest (form.enter opened) := by
  induction n with
  | zero => exact ⟨nofun, nofun⟩
  | succ n ih =>
    obtain ⟨ihForm, ihItems⟩ := ih
    refine ⟨fun opened cs form rest h => ?_, fun items opened cs form rest h => ?_⟩
    · rw [descend] at h
      cases hnext : next? cs with
      | none =>
        rw [hnext] at h
        cases h
        rw [readFrom_of_next?_eq_none hnext]
        exact (resume_close_nil opened).symm
      | some p =>
        obtain ⟨r, left⟩ := p
        rw [hnext] at h
        rw [readFrom_eq_resume hnext]
        by_cases hopens : r = .token .lparen
        · subst hopens
          exact ihItems [] opened left form rest h
        · rw [step_eq_enter hopens]
          obtain ⟨rfl, rfl⟩ := Prod.mk.inj (Option.some.inj ((if_neg hopens).symm.trans h))
          rfl
    · rw [descendItems] at h
      cases hform : descend n cs with
      | none => rw [hform] at h; cases h
      | some p =>
        obtain ⟨form', left⟩ := p
        rw [hform] at h
        rw [ihForm (items :: opened) cs form' left hform]
        cases form' with
        | value v => exact ihItems (v :: items) opened left form rest h
        | stop | fault => cases h; rfl

theorem read_of_descend (h : descend n cs = some (form, rest)) : read cs = (form, rest) := by
  rw [read, (readFrom_of_descend n).1 [] cs form rest h, resume_enter_nil]

/-- Each list takes two calls, one for itself and one for its items, and each item one more. -/
theorem exists_descend (n : Nat) : (∀ cs : List Char, 2 * cs.length < n → ∃ p, descend n cs = some p) ∧
    ∀ items (cs : List Char), 2 * cs.length + 1 < n → ∃ p, descendItems n items cs = some p := by
  induction n with
  | zero => exact ⟨fun cs h => absurd h (Nat.not_lt_zero _), fun items cs h => absurd h (Nat.not_lt_zero _)⟩
  | succ n ih =>
    obtain ⟨ihForm, ihItems⟩ := ih
    refine ⟨fun cs hn => ?_, fun items cs hn => ?_⟩
    · rw [descend]
      cases hnext : next? cs with
      | none => exact ⟨_, rfl⟩
      | some p =>
        obtain ⟨r, rest⟩ := p
        have hlt := Reading.length_left_lt hnext
        show ∃ p, (if r = .token .lparen then descendItems n [] rest else some (ofReading r, rest)) = some p
        split
        · exact ihItems [] rest (by omega)
        · exact ⟨_, rfl⟩
    · obtain ⟨⟨form, rest⟩, hform⟩ := ihForm cs (by omega)
      rw [descendItems, hform]
      cases form with
      | value v =>
        have hlt := length_lt_of_read_value (read_of_descend hform)
        exact ihItems (v :: items) rest (by omega)
      | stop | fault => exact ⟨_, rfl⟩

theorem descend_eq_read (h : 2 * cs.length < n) : descend n cs = some (read cs) := by
  obtain ⟨⟨form, rest⟩, hform⟩ := (exists_descend n).1 cs h
  rw [hform, read_of_descend hform]

/-! ### All expressions -/

/-- All expressions of a text, in a loop of so many turns at most. -/
def readAllWithin : Nat → List Char → Option Sequence
  | 0, _ => none
  | n + 1, cs =>
    match read cs with
    | (.fault f, rest) => some ⟨[], some f, rest⟩
    | (.stop, rest) => if rest = [] then some ⟨[], none, []⟩ else readAllWithin n rest
    | (.value v, rest) => (readAllWithin n rest).map fun sequence =>
      { sequence with forms := (v, rest) :: sequence.forms }

/-- Each turn but the last one takes something off the text. -/
theorem readAllWithin_eq (h : cs.length < n) : readAllWithin n cs = some (readAll cs) := by
  induction n generalizing cs with
  | zero => exact absurd h (Nat.not_lt_zero _)
  | succ n ih =>
    rw [readAllWithin]
    cases hread : read cs with
    | mk form rest =>
      cases form with
      | fault f => rw [readAll_of_fault hread]
      | stop =>
        rw [readAll_of_stop hread]
        cases rest with
        | nil => rw [readAll_nil]; rfl
        | cons c rest =>
          have hlt := length_left_lt hread (List.cons_ne_nil c rest)
          exact ih (by omega)
      | value v =>
        have hlt := length_lt_of_read_value hread
        rw [readAll_of_value hread]
        show (readAllWithin n rest).map _ = _
        rw [ih (by omega)]
        rfl

theorem length_left_read_lt (h : cs.length ≤ n + 1) : (read cs).2.length ≤ n := by
  cases hread : read cs with
  | mk form left =>
    cases left with
    | nil => exact Nat.zero_le n
    | cons c left =>
      have hlt := length_left_lt hread (List.cons_ne_nil c left)
      exact Nat.le_of_lt_succ (Nat.lt_of_lt_of_le hlt h)

/-- A reader that is asked again and again gets to the end of the text, past all faults. -/
theorem getLast?_reads (h : cs.length ≤ n) : (reads cs (n + 1)).getLast? = some (.stop, []) := by
  induction n generalizing cs with
  | zero =>
    obtain rfl : cs = [] := List.length_eq_zero_iff.1 (Nat.le_zero.1 h)
    rw [reads, reads, read_eq_stop_iff.2 (.inl ⟨rfl, rfl⟩)]
    rfl
  | succ n ih =>
    rw [reads, List.getLast?_cons, ih (length_left_read_lt h)]
    rfl

/-! ### Places of a source -/

/-- Progress at each place `p` of a source. A reading ends at a place behind `p`; if there is none, skipping
blanks leads to the end. An expression ends behind `p` too, unless there are only blanks behind `p`, and
recursive descent gets there. All expressions are read in one turn more at most than the source has
characters, and so is the end of the source reached by asking for one expression after the other,
whatever faults are met. -/
theorem reader_progress (source : List Char) :
    (∀ p ≤ source.length,
      next? (source.drop p) = none ∧ (source.drop p).dropWhile isBlank = [] ∨
      ∃ r q, next? (source.drop p) = some (r, source.drop q) ∧ p < q ∧ q ≤ source.length) ∧
    (∀ p ≤ source.length, ∃ form q, read (source.drop p) = (form, source.drop q) ∧
      (∀ n, 2 * (source.length - p) < n → descend n (source.drop p) = some (form, source.drop q)) ∧
      p ≤ q ∧ q ≤ source.length ∧ (p < q ∨ ∀ c ∈ source.drop p, isBlank c = true)) ∧
    (∀ n, source.length < n → readAllWithin n source = some (readAll source)) ∧
    ∀ n, source.length ≤ n → (reads source (n + 1)).getLast? = some (.stop, []) := by
  refine ⟨fun p hp => ?reading, fun p hp => ?expression, fun n => readAllWithin_eq,
    fun n => getLast?_reads⟩
  case reading =>
    cases hnext : next? (source.drop p) with
    | none => exact .inl ⟨rfl, List.dropWhile_eq_nil_iff.2 (next?_eq_none_iff.1 hnext)⟩
    | some s =>
      obtain ⟨r, rest⟩ := s
      obtain ⟨q, rfl, -, hq⟩ := exists_place (suffix_of_next? hnext) hp
      exact .inr ⟨r, q, rfl, lt_of_length_drop_lt (Reading.length_left_lt hnext), hq⟩
  case expression =>
    cases hread : read (source.drop p) with
    | mk form rest =>
      obtain ⟨q, rfl, hpq, hq⟩ := exists_place (suffix_of_read hread) hp
      refine ⟨form, q, rfl, fun n hn => ?_, hpq, hq, ?_⟩
      · rw [← hread]
        exact descend_eq_read (by rwa [List.length_drop])
      · by_cases hnext : next? (source.drop p) = none
        · exact .inr (next?_eq_none_iff.1 hnext)
        · exact .inl (lt_of_length_drop_lt (length_lt_of_read hread hnext))

/-- A fault inside of two lists, met again and again from each place of `((1..`. -/
theorem reader_progress_faults :
    let source := ['(', '(', '1', '.', '.']
    1 ≤ source.length ∧ 2 * (source.length - 1) < 9 ∧ source.length < 6 ∧ source.length ≤ 5 ∧
    (∃ r q, next? (source.drop 1) = some (r, source.drop q) ∧ 1 < q ∧ q ≤ source.length) ∧
    descend 9 (source.drop 1) = some (read (source.drop 1)) ∧
    readAllWithin 6 source = some (readAll source) ∧
    (reads source (5 + 1)).getLast? = some (.stop, []) := by
  intro source
  obtain ⟨hreading, hexpression, hall, hreads⟩ := reader_progress source
  have hplace : 1 ≤ source.length := by decide
  refine ⟨hplace, by decide, by decide, by decide, ?_, ?_, hall 6 (by decide), hreads 5 (by decide)⟩
  · exact (hreading 1 hplace).resolve_left fun h => by cases h.1
  · obtain ⟨form, q, hread, hdescend, -⟩ := hexpression 1 hplace
    rw [hread]
    exact hdescend 9 (by decide)

end Form
end SnapLisp
