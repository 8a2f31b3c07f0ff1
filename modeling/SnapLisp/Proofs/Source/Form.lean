import SnapLisp.Proofs.Source.Name

/-!
# Forms in front of other text

`readFrom` goes from one reading to the next (`readFrom_of_next?`), so it is enough to know what each
piece of a text does to the open lists. `ReadsAs text v`: inside an open list, in front of a
delimiter, the text puts `v` into the innermost list and does nothing else. Numbers and names read as
themselves, and a list reads as the list of what its items read as (`ReadsAs.list`); alone in a source
it is the whole expression (`read_list`).
-/

namespace SnapLisp
namespace Form

variable {opened : Open} {cs rest : List Char}

theorem readFrom_of_next? {r : Reading} (h : Reading.next? cs = some (r, rest)) :
    readFrom opened cs = match step opened r with
      | .inl form => (form, rest)
      | .inr opened' => readFrom opened' rest := by
  rw [readFrom]
  split
  · rename_i hnone; rw [hnone] at h; cases h
  · rename_i hsome
    rw [hsome] at h
    cases h
    cases step opened r <;> rfl

theorem readFrom_of_next?_eq_none (h : Reading.next? cs = none) :
    readFrom opened cs = (closeAll opened, []) := by
  rw [readFrom]
  split
  · rfl
  · rename_i hsome; rw [hsome] at h; cases h

/-- What is read depends on the text only from its first lexeme on. -/
theorem readFrom_congr {cs' : List Char} (h : Reading.next? cs = Reading.next? cs') :
    readFrom opened cs = readFrom opened cs' := by
  cases hnext : Reading.next? cs' with
  | none => rw [readFrom_of_next?_eq_none (h.trans hnext), readFrom_of_next?_eq_none hnext]
  | some p => rw [readFrom_of_next? (h.trans hnext), readFrom_of_next? hnext]

theorem readFrom_space : readFrom opened (' ' :: cs) = readFrom opened cs := by
  have hblank : ∀ c ∈ [' '], isBlank c = true := List.forall_mem_singleton.2 rfl
  exact readFrom_congr (Reading.next?_blanks_append hblank cs)

theorem readFrom_lparen : readFrom opened ('(' :: cs) = readFrom ([] :: opened) cs :=
  readFrom_of_next? (Reading.next?_mark rfl cs)

theorem next?_rparen : Reading.next? (')' :: cs) = some (.token .rparen, cs) :=
  Reading.next?_mark rfl cs

theorem step_rparen {items : List Value} :
    step (items :: opened) (.token .rparen) = place (.list items.reverse) opened := rfl

theorem step_of_atom? {t : Token} {v : Value} (h : atom? t = some v) :
    step opened (.token t) = place v opened := by
  cases t <;> cases h <;> rfl

/-- Inside a list the text reads as one item of it, the value. -/
def ReadsAs (text : List Char) (v : Value) : Prop :=
  ∀ inner outer rest, rest ≠ [] → Delimits rest →
    readFrom (inner :: outer) (text ++ rest) = readFrom ((v :: inner) :: outer) rest

theorem ReadsAs.of_atom? {text : List Char} {v : Value}
    (h : ∀ rest, rest ≠ [] → Delimits rest →
      ∃ t, Reading.next? (text ++ rest) = some (.token t, rest) ∧ atom? t = some v) :
    ReadsAs text v := by
  intro inner outer rest hne hrest
  obtain ⟨t, hnext, hatom⟩ := h rest hne hrest
  rw [readFrom_of_next? hnext, step_of_atom? hatom]
  rfl

theorem readsAs_number {x : Binary64} (hx : x.IsFinite) :
    ReadsAs (Layout.plain.write x) (.number x) :=
  .of_atom? fun _ _ hrest => ⟨.number x, Reading.next?_write hx hrest, rfl⟩

theorem readsAs_name {name : String} (hn : IsName name) : ReadsAs name.toList (.symbol name) :=
  .of_atom? fun rest hne hrest => by simpa [hne] using next?_name hn hrest

theorem readsAs_nil : ReadsAs ['N', 'I', 'L'] .nil :=
  .of_atom? fun _ _ hrest => ⟨.nil, Reading.next?_word (by simp) (List.all_eq_true.1 rfl) hrest, rfl⟩

/-- The items of a list one by one, up to its closing parenthesis. -/
theorem readFrom_items {items : List (List Char × Value)} (h : ∀ i ∈ items, ReadsAs i.1 i.2)
    (inner : List Value) (outer : Open) :
    readFrom (inner :: outer) ([' '].intercalate (items.map (·.1)) ++ ')' :: rest) =
      readFrom (((items.map (·.2)).reverse ++ inner) :: outer) (')' :: rest) := by
  have hclose : Delimits (')' :: rest) := .cons (.inr (.inr rfl))
  induction items generalizing inner with
  | nil => rfl
  | cons i items ih =>
    obtain ⟨hi, hitems⟩ := List.forall_mem_cons.1 h
    cases items with
    | nil => simpa [List.intercalate] using hi inner outer _ (by simp) hclose
    | cons j items =>
      have hspace := hi inner outer (' ' :: ([' '].intercalate ((j :: items).map (·.1)) ++ ')' :: rest))
        (by simp) (.cons (.inl rfl))
      have htext : [' '].intercalate ((i :: j :: items).map (·.1)) ++ ')' :: rest =
          i.1 ++ ' ' :: ([' '].intercalate ((j :: items).map (·.1)) ++ ')' :: rest) := by
        simp [List.intercalate]
      rw [htext, hspace, readFrom_space, ih hitems]
      simp

theorem ReadsAs.list {items : List (List Char × Value)} (h : ∀ i ∈ items, ReadsAs i.1 i.2) :
    ReadsAs ('(' :: ([' '].intercalate (items.map (·.1)) ++ [')'])) (.list (items.map (·.2))) := by
  intro inner outer rest _ _
  rw [List.cons_append, List.append_assoc, List.singleton_append, readFrom_lparen, readFrom_items h,
    readFrom_of_next? next?_rparen, step_rparen, List.append_nil, List.reverse_reverse]
  rfl

/-- A list alone in a source. -/
theorem read_list {items : List (List Char × Value)} (h : ∀ i ∈ items, ReadsAs i.1 i.2) :
    read ('(' :: ([' '].intercalate (items.map (·.1)) ++ [')'])) =
      (.value (.list (items.map (·.2))), []) := by
  rw [read, readFrom_lparen, readFrom_items h, readFrom_of_next? next?_rparen, step_rparen,
    List.append_nil, List.reverse_reverse]
  rfl

/-- An expression of one token alone in a source. -/
theorem read_of_atom? {t : Token} {v : Value} (hnext : Reading.next? cs = some (.token t, rest))
    (hatom : atom? t = some v) : read cs = (.value v, rest) := by
  rw [read, readFrom_of_next? hnext, step_of_atom? hatom]
  rfl

end Form
end SnapLisp
