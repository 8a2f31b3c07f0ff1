import SnapLisp.Proofs.Environment.Compare
import SnapLisp.Proofs.Evaluation.Operator
import SnapLisp.Proofs.Source.Tree

/-!
# Results

What the evaluation of trees can give, bind and raise. Its results (`Value.IsResult`) are no lists or
symbols, and the only trees in them are the bodies of lambdas. All of them have a text, so no note and
no message fails, and the builtins among them have their places in the table of operators. The faults
that are left are those of `Fault.Arises`, each with the value that its message shows.
-/

namespace SnapLisp

/-- What a tree can evaluate to. -/
inductive Value.IsResult (p : Char → Prop) : Value → Prop
  | number (x : Binary64) : IsResult p (.number x)
  | text {s : String} (chars : ∀ c ∈ s.toList, p c) : IsResult p (.text s)
  | nil : IsResult p .nil
  | truth : IsResult p .truth
  | builtin {index : Int} (nonneg : 0 ≤ index) (lt : index < 4) : IsResult p (.builtin index)
  | lambda {params : List String} {body : Value} (areNames : ∀ name ∈ params, IsName name)
    (tree : body.IsTree p) : IsResult p (.lambda params body)

/-- Names are bound to results, and nothing else is bound. -/
def Environment.IsSound (p : Char → Prop) (env : Environment) : Prop :=
  ∀ e ∈ env.entries, (∃ name, e.1 = .symbol name ∧ IsName name) ∧ e.2.IsResult p

/-- The faults that the evaluation of a tree can end with. -/
inductive Fault.Arises (p : Char → Prop) : Fault → Prop
  | unbound {env : Environment} {name dump : String} (isName : IsName name) (sound : env.IsSound p)
    (printed : env.printed? = some dump) : Arises p (.unbound name dump)
  | emptyForm : Arises p .emptyForm
  | notApplicable {v : Value} {text : String} (head : v.IsResult p)
    (printed : v.printed? = some text) : Arises p (.notApplicable text)
  | setqWithoutTarget : Arises p .setqWithoutTarget
  | setqTarget : Arises p .setqTarget
  | setqWithoutValue : Arises p .setqWithoutValue
  | defunLength : Arises p .defunLength
  | defunName {v : Value} {text : String} (tree : v.IsTree p) (printed : v.printed? = some text) :
    Arises p (.defunName text)
  | defunParams {v : Value} {text : String} (tree : v.IsTree p) (printed : v.printed? = some text) :
    Arises p (.defunParams text)
  | defunParam {v : Value} {text : String} (tree : v.IsTree p) (printed : v.printed? = some text) :
    Arises p (.defunParam text)
  | argumentCount : Arises p .argumentCount
  | notNumber {v : Value} {text : String} (argument : v.IsResult p)
    (printed : v.printed? = some text) : Arises p (.notNumber text)
  | noNumbers : Arises p .noNumbers
  | depthExceeded : Arises p .depthExceeded

variable {p : Char → Prop}

/-! ### Texts -/

namespace Value

theorem exists_printed?_of_print? {v : Value} (h : ∃ text, v.print? = some text) :
    ∃ text, v.printed? = some text := by
  obtain ⟨text, htext⟩ := h
  exact ⟨String.ofList text, by rw [printed?, htext]; rfl⟩

theorem exists_printItems? {items : List Value} (h : ∀ v ∈ items, ∃ text, v.print? = some text) :
    ∃ texts, printItems? items = some texts := by
  induction items with
  | nil => exact ⟨[], rfl⟩
  | cons v items ih =>
    obtain ⟨⟨text, hv⟩, hitems⟩ := List.forall_mem_cons.1 h
    obtain ⟨texts, htexts⟩ := ih hitems
    exact ⟨text :: texts, by rw [printItems?, hv, htexts]⟩

theorem exists_print?_list {items : List Value} (h : ∀ v ∈ items, ∃ text, v.print? = some text) :
    ∃ text, (list items).print? = some text := by
  obtain ⟨texts, htexts⟩ := exists_printItems? h
  exact ⟨_, by rw [print?, htexts]; rfl⟩

theorem IsTree.exists_print? {v : Value} (h : v.IsTree p) : ∃ text, v.print? = some text := by
  induction h with
  | number | text | symbol | nil | truth => exact ⟨_, rfl⟩
  | list _ ih => exact exists_print?_list ih

theorem IsResult.exists_print? {v : Value} (h : v.IsResult p) : ∃ text, v.print? = some text := by
  cases h with
  | number | text | nil | truth | builtin | lambda => exact ⟨_, rfl⟩

theorem IsResult.exists_printed? {v : Value} (h : v.IsResult p) :
    ∃ text, v.printed? = some text :=
  exists_printed?_of_print? h.exists_print?

theorem IsTree.exists_printed? {v : Value} (h : v.IsTree p) : ∃ text, v.printed? = some text :=
  exists_printed?_of_print? h.exists_print?

end Value

namespace Environment
variable {env : Environment}

namespace IsSound

theorem exists_printed? (h : env.IsSound p) : ∃ dump, env.printed? = some dump :=
  exists_printed?_iff.2 fun e he => (h e he).2.exists_print?

/-! ### Environments -/

theorem get? (h : env.IsSound p) {key : Key} {v : Value} (hv : env.get? key = some v) : v.IsResult p := by
  obtain ⟨e, he, rfl⟩ := Option.map_eq_some_iff.1 hv
  exact (h e (List.mem_of_find?_eq_some he)).2

theorem insert (h : env.IsSound p) {name : String} {v : Value} (hname : IsName name)
    (hv : v.IsResult p) : (env.insert (.symbol name) v).IsSound p := by
  intro e he
  rcases mem_of_mem_insertEntry he with rfl | he
  · exact ⟨⟨name, rfl, hname⟩, hv⟩
  · exact h e he

theorem bindParams (h : env.IsSound p) {params : List String} {args : List Value}
    (hparams : ∀ name ∈ params, IsName name) (hargs : ∀ v ∈ args, v.IsResult p) :
    (env.bindParams params args).IsSound p := by
  unfold Environment.bindParams
  induction params generalizing env args with
  | nil => exact h
  | cons name params ih =>
    cases args with
    | nil => exact h
    | cons v args =>
      obtain ⟨hname, hparams⟩ := List.forall_mem_cons.1 hparams
      obtain ⟨hv, hargs⟩ := List.forall_mem_cons.1 hargs
      exact ih (h.insert hname hv) hparams hargs

end IsSound
end Environment

/-! ### Operators -/

namespace Operator

theorem checkNumbers_arises {args : List Value} (h : ∀ v ∈ args, v.IsResult p) {fault : Fault}
    (hcheck : checkNumbers args = .error fault) : fault.Arises p := by
  induction args with
  | nil => cases hcheck
  | cons v args ih =>
    obtain ⟨hv, hargs⟩ := List.forall_mem_cons.1 h
    obtain ⟨text, htext⟩ := hv.exists_printed?
    have hresult := hv
    cases hv with
    | number x => exact ih hargs hcheck
    | text | nil | truth | builtin | lambda =>
      simp only [checkNumbers, htext] at hcheck
      cases hcheck
      exact .notNumber hresult htext

theorem exists_numbers {args : List Value} (h : ∀ v ∈ args, v.IsResult p) :
    ∃ xs, numbers args = .ok xs := by
  induction args with
  | nil => exact ⟨[], rfl⟩
  | cons v args ih =>
    obtain ⟨hv, hargs⟩ := List.forall_mem_cons.1 h
    obtain ⟨xs, hxs⟩ := ih hargs
    cases hv with
    | number x => exact ⟨x :: xs, by rw [numbers_number, hxs]; rfl⟩
    | text | nil | truth | builtin | lambda => exact ⟨xs, hxs⟩

theorem run_sound (op : Operator) {args : List Value} (h : ∀ v ∈ args, v.IsResult p) :
    match op.run args with
    | .ok v => v.IsResult p
    | .error fault => fault.Arises p := by
  obtain ⟨xs, hxs⟩ := exists_numbers h
  cases hcheck : checkNumbers args with
  | error fault =>
    have hrun : op.run args = .error fault := by simp only [run, hcheck]; rfl
    rw [hrun]
    exact checkNumbers_arises h hcheck
  | ok u =>
    cases xs with
    | nil =>
      have hrun : op.run args = .error .noNumbers := by simp only [run, hcheck, hxs]; rfl
      rw [hrun]
      exact .noNumbers
    | cons x xs =>
      have hrun : op.run args = .ok (.number (xs.foldl op.apply x)) := by
        simp only [run, hcheck, hxs]; rfl
      rw [hrun]
      exact .number _

end Operator

end SnapLisp
