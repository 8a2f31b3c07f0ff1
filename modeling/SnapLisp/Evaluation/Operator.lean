import SnapLisp.Environment.Basic
/-!
# Operators

The four built-in functions. A builtin value refers to its operator by the place in a table;
negative places count from the end of it. Every operator folds its arguments from the left, starting
with the first, so a single argument is its own result.
-/

namespace SnapLisp

inductive Operator
  | add
  | subtract
  | multiply
  | divide
deriving DecidableEq

namespace Operator

def table : List Operator :=
  [add, subtract, multiply, divide]

def name : Operator → String
  | add => "+"
  | subtract => "-"
  | multiply => "*"
  | divide => "/"

def apply : Operator → Binary64 → Binary64 → Binary64
  | add => (· + ·)
  | subtract => (· - ·)
  | multiply => (· * ·)
  | divide => (· / ·)

/-- The operator at a place of the table. -/
def ofIndex? (index : Int) : Option Operator :=
  if 0 ≤ index then table[index.toNat]?
  else if -table.length ≤ index then table[(index + table.length).toNat]?
  else none

def ofIndex (index : Int) : Except Fault Operator :=
  match ofIndex? index with
  | some op => .ok op
  | none => .error .noSuchBuiltin

/-- Refuses the first argument that is no number. -/
def checkNumbers : List Value → Except Fault Unit
  | [] => .ok ()
  | .number _ :: rest | .integer _ :: rest => checkNumbers rest
  | v :: _ =>
    match v.printed? with
    | some text => .error (.notNumber text)
    | none => .error .integerTooLarge

/-- The binary64 numbers that numbers and integers stand for, other values being passed over. -/
def numbers : List Value → Except Fault (List Binary64)
  | [] => .ok []
  | .number x :: rest => (numbers rest).map (x :: ·)
  | .integer n :: rest =>
    (Binary64.ofInt? n).elim (.error .integerTooLarge) fun x => (numbers rest).map (x :: ·)
  | _ :: rest => numbers rest

def run (op : Operator) (args : List Value) : Except Fault Value := do
  checkNumbers args
  match ← numbers args with
  | [] => throw .noNumbers
  | x :: xs => return .number (xs.foldl op.apply x)

/-- The pairs that bind each operator's name to its builtin. -/
def bindings : List (Key × Value) :=
  table.zipIdx.map fun (op, i) => (.symbol op.name, .builtin i)

end Operator

/-- Binds the built-in functions under their names. -/
def Environment.register (env : Environment) : Environment :=
  (env.update Operator.bindings).1

end SnapLisp
