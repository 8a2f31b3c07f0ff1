import SnapLisp.Evaluation.Eval
import SnapLisp.Source.Form
/-!
# Sessions

A session evaluates source text in an environment of its own, which starts with the built-in
functions. `runLine` answers a line with the value of its first expression or, for a reported fault,
with the fault's message. `evalSource` evaluates all expressions of a text, each as soon as it is
read.
-/

namespace SnapLisp

/-- How a session runs: whether it keeps a journal, and how deep it may evaluate. -/
structure Mode where
  verbose : Bool
  limit : Nat

def Environment.initial : Environment :=
  Environment.empty.register

def State.initial : State :=
  ⟨.initial, []⟩

namespace Session

open EvalM

variable (mode : Mode)

def illegalNote (c : Char) (place : Nat) : String :=
  "illegal character " ++ String.ofList (Quoted.encode [c]) ++ " at " ++
    String.ofList (digits place)

def parsedNote (form : Value) : String :=
  "parsed " ++ String.ofList form.inspect

def errorNote (line : List Char) (fault : Fault) : String :=
  "error evaluating " ++ String.ofList (Quoted.encode line) ++ ": " ++ fault.message

/-- Raises a fault in reading, and notes an illegal character; `left` is the text behind it. -/
def refuse {α : Type} (source left : List Char) (fault : ReadFault) : EvalM α := do
  match fault with
  | .illegalCharacter c =>
    note mode.verbose .lexer fun _ => pure (illegalNote c (position source left - 1))
  | .malformedNumeral _ => pure ()
  throw (.unreadable fault)

/-- The expression that `rest`, the last part of a source, begins with; where there is none, it is
`nil`. -/
def readAt (source rest : List Char) : EvalM Value :=
  match Form.read rest with
  | (.value form, _) => do
    note mode.verbose .parser fun _ => pure (parsedNote form)
    return form
  | (.stop, _) => return .nil
  | (.fault fault, left) => refuse mode source left fault

/-- The first expression of a source. -/
def readLine (source : List Char) : EvalM Value :=
  readAt mode source source

def evalLine (source : List Char) : EvalM Value := do
  let form ← readLine mode source
  Evaluation.eval mode.verbose mode.limit form

def runLine (line : List Char) : EvalM String :=
  try
    let v ← evalLine mode line
    printed v
  catch fault =>
    if fault.kind.isReported then
      note mode.verbose .interpreter fun _ => pure (errorNote line fault)
      return fault.message
    else
      throw fault

/-- The values of the expressions in `rest`, the last part of a source. -/
def evalRest (source rest : List Char) : EvalM (List Value) :=
  match _h : Form.read rest with
  | (.fault fault, left) => refuse mode source left fault
  | (.stop, left) => if _hl : left = [] then return [] else evalRest source left
  | (.value form, left) => do
    let v ← Evaluation.eval mode.verbose mode.limit form
    if _hl : left = [] then return [v]
    else return v :: (← evalRest source left)
termination_by rest.length
decreasing_by all_goals exact Form.length_left_lt _h _hl

def evalSource (source : List Char) : EvalM (List Value) :=
  evalRest mode source source

end Session

end SnapLisp
