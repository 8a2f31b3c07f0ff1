import SnapLisp.Proofs.Source.Sequence

/-!
# Texts in step

Two texts are in step if they have the same readings, with as much text left behind each (`InStep`). A
reader of expressions knows nothing else of its text, so it reads the same expressions off both and is
at the same place behind each of them (`Form.reads_inStep`, `Form.readAll_inStep`).
-/

namespace SnapLisp

/-- What was read of a source, and how far into the source the reader was then. -/
def placed {α : Type} (source : List Char) (l : List (α × List Char)) : List (α × Nat) :=
  l.map (Prod.map id (position source))

theorem placed_congr {α : Type} {source source' : List Char} {l l' : List (α × List Char)}
    (hsource : source.length = source'.length)
    (h : l.map (Prod.map id List.length) = l'.map (Prod.map id List.length)) :
    placed source l = placed source' l' := by
  have hplaced := congrArg (List.map (Prod.map id (source.length - ·))) h
  rw [List.map_map, List.map_map] at hplaced
  rw [placed, placed, show position source' = fun left => source.length - left.length from
    funext fun _ => congrArg (· - _) hsource.symm]
  exact hplaced

namespace Reading
variable {cs cs' rest rest' : List Char} {r : Reading}

structure InStep (cs cs' : List Char) : Prop where
  length_eq : cs.length = cs'.length
  readings : (all cs).map (Prod.map id List.length) = (all cs').map (Prod.map id List.length)

namespace InStep

theorem refl (cs : List Char) : InStep cs cs :=
  ⟨rfl, rfl⟩

theorem of_next? (h : InStep rest rest') (hnext : next? cs = some (r, rest))
    (hnext' : next? cs' = some (r, rest')) (hlength : cs.length = cs'.length) : InStep cs cs' := by
  refine ⟨hlength, ?_⟩
  rw [all_of_next? hnext, all_of_next? hnext', List.map_cons, List.map_cons, h.readings]
  exact congrArg (fun n => (r, n) :: _) h.length_eq

theorem next?_eq_none (h : InStep cs cs') (hnext : next? cs = none) : next? cs' = none := by
  have hreadings := h.readings
  rw [all_of_next?_eq_none hnext] at hreadings
  cases hnext' : next? cs' with
  | none => rfl
  | some p =>
    rw [all_of_next? hnext'] at hreadings
    cases hreadings

theorem exists_next? (h : InStep cs cs') (hnext : next? cs = some (r, rest)) :
    ∃ rest', next? cs' = some (r, rest') ∧ InStep rest rest' := by
  have hreadings := h.readings
  rw [all_of_next? hnext] at hreadings
  cases hnext' : next? cs' with
  | none =>
    rw [all_of_next?_eq_none hnext'] at hreadings
    cases hreadings
  | some p =>
    obtain ⟨r', rest'⟩ := p
    rw [all_of_next? hnext', List.map_cons, List.map_cons] at hreadings
    obtain ⟨hhead, htail⟩ := List.cons.inj hreadings
    obtain ⟨rfl, hlength⟩ : r = r' ∧ rest.length = rest'.length := Prod.mk.inj hhead
    exact ⟨rest', rfl, hlength, htail⟩

theorem eq_nil_iff (h : InStep cs cs') : cs = [] ↔ cs' = [] := by
  rw [← List.length_eq_zero_iff, ← List.length_eq_zero_iff, h.length_eq]

end InStep

end Reading

namespace Form
open Reading
variable {cs cs' : List Char} {opened : Open}

theorem readFrom_inStep (h : InStep cs cs') : (readFrom opened cs).1 = (readFrom opened cs').1 ∧
    InStep (readFrom opened cs).2 (readFrom opened cs').2 := by
  fun_induction readFrom opened cs generalizing cs' with
  | case1 opened cs hnext =>
    rw [readFrom_of_next?_eq_none (h.next?_eq_none hnext)]
    exact ⟨rfl, .refl []⟩
  | case2 opened cs r rest hnext form hstep =>
    obtain ⟨rest', hnext', hrest⟩ := h.exists_next? hnext
    rw [readFrom_of_next? hnext', hstep]
    exact ⟨rfl, hrest⟩
  | case3 opened cs r rest hnext opened' hstep ih =>
    obtain ⟨rest', hnext', hrest⟩ := h.exists_next? hnext
    rw [readFrom_of_next? hnext', hstep]
    exact ih hrest

theorem read_inStep (h : InStep cs cs') :
    (read cs).1 = (read cs').1 ∧ InStep (read cs).2 (read cs').2 :=
  readFrom_inStep h

theorem exists_read {form : Form} {left : List Char} (h : InStep cs cs') (hread : read cs = (form, left)) :
    ∃ left', read cs' = (form, left') ∧ InStep left left' := by
  obtain ⟨hform, hleft⟩ := read_inStep h
  rw [hread] at hform hleft
  exact ⟨(read cs').2, Prod.ext hform.symm rfl, hleft⟩

/-- What a reader gives that is asked for an expression so many times. -/
def reads (cs : List Char) : Nat → List (Form × List Char)
  | 0 => []
  | n + 1 => read cs :: reads (read cs).2 n

theorem reads_inStep (h : InStep cs cs') (n : Nat) :
    (reads cs n).map (Prod.map id List.length) = (reads cs' n).map (Prod.map id List.length) := by
  induction n generalizing cs cs' with
  | zero => rfl
  | succ n ih =>
    obtain ⟨hform, hleft⟩ := read_inStep h
    have hhead : Prod.map id List.length (read cs) = Prod.map id List.length (read cs') :=
      Prod.ext hform hleft.length_eq
    rw [reads, reads, List.map_cons, List.map_cons, hhead, ih hleft]

/-- The same expressions and the same end, with as much text left behind each. -/
structure Sequence.InStep (a b : Sequence) : Prop where
  forms : a.forms.map (Prod.map id List.length) = b.forms.map (Prod.map id List.length)
  fault : a.fault = b.fault
  left : a.left.length = b.left.length

theorem Sequence.InStep.values {a b : Sequence} (h : a.InStep b) : a.values = b.values := by
  have hvalues := congrArg (List.map Prod.fst) h.forms
  rwa [List.map_map, List.map_map] at hvalues

theorem readAll_inStep (h : Reading.InStep cs cs') : (readAll cs).InStep (readAll cs') := by
  fun_induction readAll cs generalizing cs' with
  | case1 cs f left hread =>
    obtain ⟨left', hread', hleft⟩ := exists_read h hread
    rw [readAll_of_fault hread']
    exact ⟨rfl, rfl, hleft.length_eq⟩
  | case2 cs hread =>
    obtain ⟨left', hread', hleft⟩ := exists_read h hread
    rw [readAll_of_stop hread', hleft.eq_nil_iff.1 rfl, readAll_nil]
    exact ⟨rfl, rfl, rfl⟩
  | case3 cs left hread hne ih =>
    obtain ⟨left', hread', hleft⟩ := exists_read h hread
    rw [readAll_of_stop hread']
    exact ih hleft
  | case4 cs v hread =>
    obtain ⟨left', hread', hleft⟩ := exists_read h hread
    rw [readAll_of_value hread', hleft.eq_nil_iff.1 rfl, readAll_nil]
    exact ⟨rfl, rfl, rfl⟩
  | case5 cs v left hread hne sequence =>
    rename_i ih
    obtain ⟨left', hread', hleft⟩ := exists_read h hread
    obtain ⟨hforms, hfault, hend⟩ := ih hleft
    rw [readAll_of_value hread']
    refine ⟨?_, hfault, hend⟩
    rw [List.map_cons, List.map_cons, hforms]
    exact congrArg (fun n => (v, n) :: _) hleft.length_eq

end Form

end SnapLisp
