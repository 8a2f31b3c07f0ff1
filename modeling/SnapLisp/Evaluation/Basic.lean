import SnapLisp.Environment.Basic
/-!
# Evaluations

An evaluation runs on a state, the environment and a journal of what happened, and gives a value or
a fault. The state outlives a fault: what was bound before it stays bound.

The journal is kept only by a verbose evaluation. Writing a note can fail like the evaluation
itself, since a note may show values that have no text.
-/

namespace SnapLisp

inductive Channel
  | lexer
  | parser
  | evaluation
  | interpreter
  | repl
deriving DecidableEq

structure Note where
  channel : Channel
  text : String
deriving DecidableEq

structure State where
  env : Environment
  /-- The notes so far, in order. -/
  journal : List Note

abbrev EvalM := EStateM Fault State

namespace EvalM

/-- The text of a value, which an integer without a binary64 number does not have. -/
def printed (v : Value) : EvalM String :=
  match v.printed? with
  | some text => pure text
  | none => throw .integerTooLarge

/-- Adds a note to the journal of a verbose evaluation. -/
def note (verbose : Bool) (channel : Channel) (text : Unit → EvalM String) : EvalM Unit := do
  if verbose then
    let text ← text ()
    modify fun s => { s with journal := s.journal ++ [⟨channel, text⟩] }

def lookup (name : String) : EvalM Value := do
  ofExcept ((← get).env.lookup (.symbol name))

/-- Binds a symbol in the environment itself. -/
def bindSymbol (name : String) (v : Value) : EvalM Unit :=
  modify fun s => { s with env := s.env.insert (.symbol name) v }

/-- Runs an evaluation in a changed copy of the environment, which is dropped afterwards. -/
def inCopy {α : Type} (change : Environment → Environment) (run : EvalM α) : EvalM α := fun s =>
  match run { s with env := change s.env } with
  | .ok a s' => .ok a { s' with env := s.env }
  | .error fault s' => .error fault { s' with env := s.env }

end EvalM

end SnapLisp
