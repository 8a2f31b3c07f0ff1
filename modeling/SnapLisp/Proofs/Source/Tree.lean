import SnapLisp.Proofs.Source.Name

/-!
# Trees

The values that a reader makes of a text: trees of numbers, texts, symbols, `nil` and `truth`, without
any function in them. `IsTree p` also says that the characters of the texts in the tree have the
property `p`, as they do if all characters of the source have it (`read_sound`).
-/

namespace SnapLisp

/-- What a reader makes of a source whose characters all have the property `p`. -/
inductive Value.IsTree (p : Char → Prop) : Value → Prop
  | number (x : Binary64) : IsTree p (.number x)
  | text {s : String} (chars : ∀ c ∈ s.toList, p c) : IsTree p (.text s)
  | symbol {name : String} (isName : IsName name) : IsTree p (.symbol name)
  | nil : IsTree p .nil
  | truth : IsTree p .truth
  | list {items : List Value} (each : ∀ v ∈ items, v.IsTree p) : IsTree p (.list items)

/-- The characters of names have the property. -/
def SpellsNames (p : Char → Prop) : Prop :=
  ∀ name, IsName name → ∀ c ∈ name.toList, p c

namespace Reading
variable {cs rest : List Char} {r : Reading}

theorem mem_of_mem_chars {lexeme : Lexeme} {c : Char}
    (h : Lexeme.split? (cs.dropWhile isBlank) = some (lexeme, rest)) (hc : c ∈ lexeme.chars ++ rest) :
    c ∈ cs := by
  rw [Lexeme.chars_append_of_split? h] at hc
  exact (List.dropWhile_suffix isBlank).subset hc

theorem mem_of_mem_left (h : next? cs = some (r, rest)) {c : Char} (hc : c ∈ rest) : c ∈ cs := by
  obtain ⟨lexeme, hsplit, _⟩ := exists_lexeme_of_next? h
  exact mem_of_mem_chars hsplit (List.mem_append_right _ hc)

theorem mem_of_mem_text {s : String} (h : next? cs = some (.token (.text s), rest)) {c : Char}
    (hc : c ∈ s.toList) : c ∈ cs := by
  obtain ⟨lexeme, hsplit, hreading⟩ := exists_lexeme_of_next? h
  obtain ⟨closed, rfl⟩ := Lexeme.eq_quoted_of_reading hreading
  refine mem_of_mem_chars hsplit (List.mem_append_left _ ?_)
  exact List.mem_cons_of_mem _ (List.mem_append_left _ hc)

theorem mem_of_illegal {c : Char} (h : next? cs = some (.token (.illegal c), rest)) : c ∈ cs := by
  obtain ⟨lexeme, hsplit, hreading⟩ := exists_lexeme_of_next? h
  exact mem_of_mem_chars hsplit (List.mem_append_left _ (Lexeme.mem_chars_of_reading hreading))

end Reading

namespace Form
variable {p : Char → Prop} {cs rest : List Char} {opened : Open}

/-- All items of the open lists are trees. -/
def Open.AreTrees (p : Char → Prop) (opened : Open) : Prop :=
  ∀ items ∈ opened, ∀ v ∈ items, v.IsTree p

/-- An expression that has been read is a tree, and an illegal character is one of the source. -/
def IsSound (p : Char → Prop) : Form → Prop
  | value v => v.IsTree p
  | fault (.illegalCharacter c) => p c
  | stop | fault (.malformedNumeral _) => True

def StepIsSound (p : Char → Prop) : Form ⊕ Open → Prop
  | .inl form => form.IsSound p
  | .inr opened => opened.AreTrees p

theorem isTree_of_atom? {t : Token} {v : Value} (hcs : ∀ c ∈ cs, p c)
    (hnext : Reading.next? cs = some (.token t, rest)) (hatom : atom? t = some v) : v.IsTree p := by
  cases t with
  | number x => cases hatom; exact .number x
  | text s =>
    cases hatom
    exact .text fun c hc => hcs c (Reading.mem_of_mem_text hnext hc)
  | literal | plus | minus | asterisk | slash =>
    cases hatom
    exact .symbol (isName_of_atom? hnext rfl)
  | truth => cases hatom; exact .truth
  | nil => cases hatom; exact .nil
  | lparen | rparen | illegal => cases hatom

theorem areTrees_nil : Open.AreTrees p [] :=
  fun _ h => absurd h List.not_mem_nil

theorem isTree_reverse {items : List Value} (h : ∀ v ∈ items, v.IsTree p) :
    (Value.list items.reverse).IsTree p :=
  .list fun v hv => h v (List.mem_reverse.1 hv)

theorem place_sound {v : Value} (hv : v.IsTree p) (h : opened.AreTrees p) :
    StepIsSound p (place v opened) := by
  cases opened with
  | nil => exact hv
  | cons items outer =>
    obtain ⟨hitems, houter⟩ := List.forall_mem_cons.1 h
    exact List.forall_mem_cons.2 ⟨List.forall_mem_cons.2 ⟨hv, hitems⟩, houter⟩

theorem close_sound (h : opened.AreTrees p) : StepIsSound p (close opened) := by
  cases opened with
  | nil => exact ⟨⟩
  | cons items outer =>
    obtain ⟨hitems, houter⟩ := List.forall_mem_cons.1 h
    exact place_sound (isTree_reverse hitems) houter

theorem foldl_isTree {v : Value} (hv : v.IsTree p) (h : opened.AreTrees p) :
    (opened.foldl (fun v items => .list (v :: items).reverse) v).IsTree p := by
  induction opened generalizing v with
  | nil => exact hv
  | cons items outer ih =>
    obtain ⟨hitems, houter⟩ := List.forall_mem_cons.1 h
    exact ih (isTree_reverse (List.forall_mem_cons.2 ⟨hv, hitems⟩)) houter

theorem closeAll_sound (h : opened.AreTrees p) : (closeAll opened).IsSound p := by
  cases opened with
  | nil => exact ⟨⟩
  | cons items outer =>
    obtain ⟨hitems, houter⟩ := List.forall_mem_cons.1 h
    exact foldl_isTree (isTree_reverse hitems) houter

theorem step_sound {r : Reading} (hcs : ∀ c ∈ cs, p c) (hnext : Reading.next? cs = some (r, rest))
    (h : opened.AreTrees p) : StepIsSound p (step opened r) := by
  cases r with
  | malformed numeral => exact ⟨⟩
  | token t =>
    cases t with
    | illegal c => exact hcs c (Reading.mem_of_illegal hnext)
    | lparen => exact List.forall_mem_cons.2 ⟨by simp, h⟩
    | rparen => exact close_sound h
    | number | text | literal | plus | minus | asterisk | slash | truth | nil =>
      exact place_sound (isTree_of_atom? hcs hnext rfl) h

theorem readFrom_sound {form : Form} (hcs : ∀ c ∈ cs, p c) (h : opened.AreTrees p)
    (hread : readFrom opened cs = (form, rest)) : form.IsSound p ∧ ∀ c ∈ rest, p c := by
  fun_induction readFrom opened cs with
  | case1 =>
    cases hread
    exact ⟨closeAll_sound h, by simp⟩
  | case2 opened cs r rest' hnext form' hstep =>
    cases hread
    have hform := step_sound hcs hnext h
    rw [hstep] at hform
    exact ⟨hform, fun c hc => hcs c (Reading.mem_of_mem_left hnext hc)⟩
  | case3 opened cs r rest' hnext opened' hstep ih =>
    have htrees := step_sound hcs hnext h
    rw [hstep] at htrees
    exact ih (fun c hc => hcs c (Reading.mem_of_mem_left hnext hc)) htrees hread

/-- What is read of a text, and the text left, have no other characters than the text. -/
theorem read_sound {form : Form} (hcs : ∀ c ∈ cs, p c) (hread : read cs = (form, rest)) :
    form.IsSound p ∧ ∀ c ∈ rest, p c :=
  readFrom_sound hcs areTrees_nil hread

theorem isTree_of_read {v : Value} (hread : read cs = (.value v, rest)) : v.IsTree fun _ => True := by
  have hcs : ∀ c ∈ cs, (fun _ : Char => True) c := fun _ _ => trivial
  exact (read_sound hcs hread).1

end Form
end SnapLisp
