import SnapLisp.Proofs.Evaluation.Keeps
import SnapLisp.Proofs.Evaluation.Operator

/-!
# Faults in evaluation

A fault in reading comes from the text of a source. Evaluation has values for its forms and reads no
text, so it raises no such fault, whatever the environment binds (`eval_evaluates`): `step_evaluates` is
the inductive step, for the subforms and for the bodies of lambdas alike.
-/

namespace SnapLisp

def Fault.IsInReading : Fault → Prop
  | unreadable _ => True
  | _ => False

/-- Of these kinds there are no other faults. -/
theorem Fault.isInReading_of_kind {fault : Fault}
    (h : fault.kind = .wrongSyntax ∨ fault.kind = .malformedNumeral) : fault.IsInReading := by
  cases fault with
  | unreadable => trivial
  | _ => rcases h with h | h <;> cases h

namespace EvalM

/-- In no environment does `m` raise a fault in reading. -/
abbrev Evaluates {α : Type} (m : EvalM α) : Prop :=
  Keeps (fun _ => True) (fun fault => ¬ fault.IsInReading) (fun _ => True) m

theorem throw_evaluates {α : Type} {fault : Fault} (h : ¬ fault.IsInReading) :
    Evaluates (throw fault : EvalM α) :=
  .throw h

theorem printed_evaluates (v : Value) : Evaluates (printed v) :=
  .printed (fun _ _ => ⟨⟩) fun _ => id

/-- A value is refused with a fault that shows its text. -/
theorem refused_evaluates {α : Type} (v : Value) {fault : String → Fault}
    (h : ∀ text, ¬ (fault text).IsInReading) :
    Evaluates (do throw (fault (← printed v)) : EvalM α) :=
  (printed_evaluates v).bind fun text _ => throw_evaluates (h text)

theorem lookup_evaluates (name : String) : Evaluates (lookup name) := by
  refine .lookup fun env _ => ?_
  unfold Environment.lookup
  cases env.get? (.symbol name) with
  | some v => trivial
  | none => cases env.printed? <;> exact id

theorem bindSymbol_evaluates (name : String) (v : Value) : Evaluates (bindSymbol name v) :=
  .bindSymbol fun _ _ => ⟨⟩

end EvalM

namespace Evaluation
open EvalM
variable {verbose : Bool} {ev : Value → EvalM Value}

theorem paramNames_evaluates (params : List Value) : Evaluates (paramNames params) := by
  have hparam : ∀ v ∈ params, Keeps (fun _ => True) (fun fault => ¬ fault.IsInReading)
      (fun text => ¬ (Fault.defunParam text).IsInReading) (printed v) :=
    fun v _ => (printed_evaluates v).imp fun _ _ => id
  exact (paramNames_keeps hparam).imp fun _ _ => ⟨⟩

theorem defun_evaluates (forms : List Value) : Evaluates (defun forms) := by
  unfold defun
  split
  · rename_i name params body
    refine (paramNames_evaluates params).bind fun params _ => ?_
    exact (bindSymbol_evaluates name _).bind fun _ _ => .pure ⟨⟩
  · exact refused_evaluates _ fun _ => id
  · exact refused_evaluates _ fun _ => id
  · exact throw_evaluates id

section
variable (hev : ∀ form, Evaluates (ev form))
include hev

theorem setq_evaluates (forms : List Value) : Evaluates (setq ev forms) := by
  unfold setq
  split
  · exact throw_evaluates id
  · rename_i name form _
    exact (hev form).bind fun v _ => (bindSymbol_evaluates name v).bind fun _ _ => .pure ⟨⟩
  · exact throw_evaluates id
  · exact throw_evaluates id

theorem evalArgs_evaluates (forms : List Value) : Evaluates (evalArgs ev forms) :=
  (evalArgs_keeps fun form _ => hev form).imp fun _ _ => ⟨⟩

theorem apply_evaluates (head : Value) (forms : List Value) :
    Evaluates (apply verbose ev head forms) := by
  unfold apply
  split
  · rename_i index
    refine apply_builtin_keeps (fun form _ => hev form) (fun fault hrefusal => ?_) fun _ => ⟨⟩
    cases hrefusal <;> exact id
  · rename_i params body
    split
    · refine (evalArgs_evaluates hev forms).bind fun args _ => ?_
      have hnote : Evaluates (lambdaNote params args) :=
        (printed_evaluates _).bind fun _ _ => .pure ⟨⟩
      exact (Keeps.note hnote).bind fun _ _ => .inCopy (hev body) fun _ _ => ⟨⟩
    · exact throw_evaluates id
  · exact refused_evaluates _ fun _ => id

/-- One evaluation raises no fault in reading if the evaluations of other forms raise none. -/
theorem step_evaluates (form : Value) : Evaluates (step verbose ev form) := by
  unfold step
  split
  · exact lookup_evaluates _
  · exact throw_evaluates id
  · rename_i head forms
    cases SpecialForm.ofHead? head with
    | some special =>
      refine (Keeps.note (.pure ⟨⟩)).bind fun _ _ => ?_
      cases special with
      | setq => exact setq_evaluates hev forms
      | defun => exact defun_evaluates forms
    | none => exact (hev head).bind fun fn _ => apply_evaluates hev fn forms
  · split
    · exact .pure ⟨⟩
    · exact refused_evaluates _ fun _ => id

end

theorem eval_evaluates (verbose : Bool) (limit : Nat) (form : Value) :
    Evaluates (eval verbose limit form) := by
  induction limit generalizing form with
  | zero => exact throw_evaluates id
  | succ limit ih => exact step_evaluates ih form

end Evaluation
end SnapLisp
