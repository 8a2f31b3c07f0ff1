import SnapLisp.Evaluation.Basic
import SnapLisp.Evaluation.Operator
/-!
# Evaluation of forms

Numbers, texts, `nil` and `truth` are their own values, and a symbol has the value it is bound to. A
list headed by SETQ or DEFUN is a special form; any other list applies the value of its head. A
lambda's body runs in a copy of the caller's environment with the parameters bound, so it sees the
caller's bindings as they are at the call, and nothing it binds comes back.

`step` is one evaluation with the evaluation of subforms left open. `eval` closes it under a limit
on evaluations inside one another.
-/

namespace SnapLisp

/-- The forms whose arguments are not evaluated as such. -/
inductive SpecialForm
  | setq
  | defun
deriving DecidableEq

namespace SpecialForm

def name : SpecialForm → String
  | setq => "SETQ"
  | defun => "DEFUN"

def ofHead? : Value → Option SpecialForm
  | .symbol name =>
    if name = setq.name then some setq else if name = defun.name then some defun else none
  | _ => none

end SpecialForm

namespace Evaluation

open EvalM

def isConstant : Value → Bool
  | .number _ | .integer _ | .flag _ | .text _ | .nil | .truth => true
  | .symbol _ | .list _ | .builtin _ | .lambda _ _ | .absent => false

/-- `(SETQ symbol form)` binds the symbol to the form's value; what follows is ignored. -/
def setq (ev : Value → EvalM Value) : List Value → EvalM Value
  | [] => throw .setqWithoutTarget
  | .symbol name :: form :: _ => do
    let v ← ev form
    bindSymbol name v
    return v
  | [.symbol _] => throw .setqWithoutValue
  | _ :: _ => throw .setqTarget

def paramNames : List Value → EvalM (List String)
  | [] => pure []
  | .symbol name :: rest => return name :: (← paramNames rest)
  | v :: _ => do throw (.defunParam (← printed v))

/-- `(DEFUN symbol (symbol ...) form)` binds the symbol to a lambda and gives its name as a text. -/
def defun : List Value → EvalM Value
  | [.symbol name, .list params, body] => do
    let params ← paramNames params
    bindSymbol name (.lambda params body)
    return .text name
  | [.symbol _, params, _] => do throw (.defunParams (← printed params))
  | [name, _, _] => do throw (.defunName (← printed name))
  | _ => throw .defunLength

/-- The values of argument forms, from left to right. -/
def evalArgs (ev : Value → EvalM Value) : List Value → EvalM (List Value)
  | [] => pure []
  | form :: forms => do
    let v ← ev form
    return v :: (← evalArgs ev forms)

def builtinNote (index : Int) (args : List Value) : EvalM String := do
  let op ← ofExcept (Operator.ofIndex index)
  let args ← printed (.list args)
  return "calling builtin " ++ op.name ++ " with " ++ args

def lambdaNote (params : List String) (args : List Value) : EvalM String := do
  let args ← printed (.list args)
  return "calling lambda " ++ String.ofList (Value.lambdaText params) ++ " with " ++ args

/-- Applies a value to argument forms. The number of a lambda's arguments is checked before any of
them is evaluated. -/
def apply (verbose : Bool) (ev : Value → EvalM Value) (head : Value) (forms : List Value) :
    EvalM Value :=
  match head with
  | .builtin index => do
    let args ← evalArgs ev forms
    note verbose .evaluation fun _ => builtinNote index args
    let op ← ofExcept (Operator.ofIndex index)
    ofExcept (op.run args)
  | .lambda params body =>
    if forms.length = params.length then do
      let args ← evalArgs ev forms
      note verbose .evaluation fun _ => lambdaNote params args
      inCopy (·.bindParams params args) (ev body)
    else
      throw .argumentCount
  | head => do throw (.notApplicable (← printed head))

/-- One evaluation, with `ev` for the subforms and for the bodies of lambdas. -/
def step (verbose : Bool) (ev : Value → EvalM Value) (form : Value) : EvalM Value :=
  match form with
  | .symbol name => lookup name
  | .list [] => throw .emptyForm
  | .list (head :: forms) =>
    match SpecialForm.ofHead? head with
    | some special => do
      note verbose .evaluation fun _ => return "special form " ++ special.name
      match special with
      | .setq => setq ev forms
      | .defun => defun forms
    | none => do
      let fn ← ev head
      apply verbose ev fn forms
  | form => if isConstant form then pure form else do throw (.notEvaluable (← printed form))

/-- Evaluates a form with at most `limit` evaluations inside one another. -/
def eval (verbose : Bool) : (limit : Nat) → Value → EvalM Value
  | 0, _ => throw .depthExceeded
  | limit + 1, form => step verbose (eval verbose limit) form

end Evaluation

end SnapLisp
