import SnapLisp.Proofs.Source.Form
import SnapLisp.Value.Printed

/-!
# Printed values read back

What the text of a value reads as, for values made of finite numbers, names, `nil`, `truth` and
lists. The letter T is the constant only at the end of a source, so inside a list the constant comes
back as the symbol (`Value.asItem`) and a symbol T alone comes back as the constant (`Value.asRead`);
all else comes back as it was. Main statement: `read_print`.
-/

namespace SnapLisp

/-- The values that a source can spell without quotes. -/
inductive IsReadable : Value → Prop
  | number {x : Binary64} (finite : x.IsFinite) : IsReadable (.number x)
  | symbol {name : String} (isName : IsName name) : IsReadable (.symbol name)
  | nil : IsReadable .nil
  | truth : IsReadable .truth
  | list {items : List Value} (each : ∀ v ∈ items, IsReadable v) : IsReadable (.list items)

namespace Value

mutual

/-- What a value's text reads as inside a list. -/
def asItem : Value → Value
  | truth => symbol "T"
  | list items => list (asItems items)
  | v => v

def asItems : List Value → List Value
  | [] => []
  | v :: vs => asItem v :: asItems vs

end

/-- What a value's text reads as when it is a whole source. -/
def asRead : Value → Value
  | truth => truth
  | symbol name => if name = "T" then truth else symbol name
  | v => v.asItem

theorem asRead_list (items : List Value) : (list items).asRead = list (asItems items) := by
  simp [asRead, asItem]

end Value

open Form Value

theorem isName_T : IsName "T" :=
  .word (by decide) (List.all_eq_true.1 rfl) (by decide)

/-- The items of a list with their texts, if each item prints as a text that reads as the item. -/
theorem exists_texts {items : List Value}
    (h : ∀ v ∈ items, ∃ text, v.print? = some text ∧ v.asItem.print? = some text ∧
      ReadsAs text v.asItem) :
    ∃ pairs : List (List Char × Value), printItems? items = some (pairs.map (·.1)) ∧
      printItems? (asItems items) = some (pairs.map (·.1)) ∧ asItems items = pairs.map (·.2) ∧
      ∀ i ∈ pairs, ReadsAs i.1 i.2 := by
  induction items with
  | nil => exact ⟨[], rfl, rfl, rfl, by simp⟩
  | cons v items ih =>
    obtain ⟨hv, hitems⟩ := List.forall_mem_cons.1 h
    obtain ⟨text, hprint, hprint', hreads⟩ := hv
    obtain ⟨pairs, hprints, hprints', hvalues, hpairs⟩ := ih hitems
    refine ⟨(text, v.asItem) :: pairs, ?_, ?_, ?_, List.forall_mem_cons.2 ⟨hreads, hpairs⟩⟩
    · simp [printItems?, hprint, hprints]
    · simp [printItems?, asItems, hprint', hprints']
    · simp [asItems, hvalues]

/-- Inside a list a readable value comes back as an item. -/
theorem IsReadable.exists_readsAs {v : Value} (hv : IsReadable v) :
    ∃ text, v.print? = some text ∧ v.asItem.print? = some text ∧ ReadsAs text v.asItem := by
  induction hv with
  | number finite => exact ⟨_, rfl, rfl, readsAs_number finite⟩
  | symbol isName => exact ⟨_, rfl, rfl, readsAs_name isName⟩
  | nil => exact ⟨_, rfl, rfl, readsAs_nil⟩
  | truth => exact ⟨_, rfl, rfl, readsAs_name isName_T⟩
  | list _ ih =>
    obtain ⟨pairs, hprints, hprints', hvalues, hpairs⟩ := exists_texts ih
    refine ⟨_, by simp only [print?, hprints]; rfl, by simp only [asItem, print?, hprints']; rfl, ?_⟩
    rw [asItem, hvalues]
    exact .list hpairs

/-- A readable value has a text. All of that text reads as one expression, which is the value with
the constant T and the symbol T told apart by their places, and which has the same text again. -/
theorem read_print {v : Value} (hv : IsReadable v) :
    ∃ text, v.print? = some text ∧ Form.read text = (.value v.asRead, []) ∧
      v.asRead.print? = some text := by
  cases hv with
  | number finite =>
    have hnext := Reading.next?_write finite .nil
    rw [List.append_nil] at hnext
    exact ⟨_, rfl, read_of_atom? hnext rfl, rfl⟩
  | symbol isName =>
    rename_i name
    obtain ⟨t, hnext, hatom⟩ := next?_name isName .nil
    rw [List.append_nil] at hnext
    refine ⟨_, rfl, read_of_atom? hnext (by simpa [asRead] using hatom), ?_⟩
    by_cases hT : name = "T"
    · simp [asRead, hT, print?]
    · simp [asRead, hT, print?]
  | nil =>
    have hnext := Reading.next?_word (by simp : ['N', 'I', 'L'] ≠ []) (List.all_eq_true.1 rfl) .nil
    exact ⟨_, rfl, read_of_atom? hnext rfl, rfl⟩
  | truth =>
    have hnext := Reading.next?_word (by simp : ['T'] ≠ []) (List.all_eq_true.1 rfl) .nil
    exact ⟨_, rfl, read_of_atom? hnext rfl, rfl⟩
  | list each =>
    obtain ⟨pairs, hprints, hprints', hvalues, hpairs⟩ :=
      exists_texts fun v hv => (each v hv).exists_readsAs
    refine ⟨_, by simp only [print?, hprints]; rfl, ?_,
      by simp only [asRead_list, print?, hprints']; rfl⟩
    rw [asRead_list, hvalues]
    exact read_list hpairs

/-- The list `(-0 T T NIL ())`, of the symbol T and the constant. -/
theorem read_print_list :
    let zero := Value.number (.signed true 0 (by decide))
    let v := Value.list [zero, .symbol "T", .truth, .nil, .list []]
    IsReadable v ∧ ∃ text, v.print? = some text ∧
      Form.read text = (.value (.list [zero, .symbol "T", .symbol "T", .nil, .list []]), []) := by
  intro zero v
  have hv : IsReadable v := by
    refine .list fun w hw => ?_
    simp only [List.mem_cons, List.not_mem_nil, or_false] at hw
    rcases hw with rfl | rfl | rfl | rfl | rfl
    · exact .number (by decide)
    · exact .symbol isName_T
    · exact .truth
    · exact .nil
    · exact .list (by simp)
  obtain ⟨text, hprint, hread, _⟩ := read_print hv
  exact ⟨hv, text, hprint, hread⟩

end SnapLisp
