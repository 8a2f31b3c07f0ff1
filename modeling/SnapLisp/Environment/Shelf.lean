import SnapLisp.Evaluation.Operator
/-!
# Shelves of environments

A shelf holds environments under names, and a request changes one of them, copies one, or asks about
one. Only `create` and `copy` put a name on the shelf; a name that is not there holds the empty
environment.
-/

namespace SnapLisp

abbrev Shelf := List (String × Environment)

namespace Shelf

def get (shelf : Shelf) (name : String) : Environment :=
  (shelf.lookup name).getD .empty

/-- The shelf with an environment under a name, in the place of the one that was there. -/
def put (name : String) (env : Environment) : Shelf → Shelf
  | [] => [(name, env)]
  | (n, e) :: rest => if n = name then (n, env) :: rest else (n, e) :: put name env rest

inductive Request
  /-- A new environment with these bindings, whatever their keys are. -/
  | create (items : List (Key × Value))
  | register
  /-- A definition of any value, which is refused unless the value is a symbol. -/
  | define (key value : Value)
  | update (items : List (Key × Value))
  | copy (target : String)
  | lookup (key : Key)
  | contains (key : Key)
  | names
  | size
  | inspect

inductive Answer
  | done
  | value (v : Value)
  | flag (b : Bool)
  | keys (ks : List Key)
  | count (n : Nat)
  | text (s : String)
  | fault (f : Fault)

/-- Answers a request to the environment under a name. -/
def answer (shelf : Shelf) (name : String) : Request → Answer × Shelf
  | .create items => (.done, shelf.put name (.ofItems items))
  | .register => (.done, shelf.put name (shelf.get name).register)
  | .define key value =>
    match (shelf.get name).define key value with
    | .ok env => (.done, shelf.put name env)
    | .error fault => (.fault fault, shelf)
  | .update items =>
    let (env, fault?) := (shelf.get name).update items
    (fault?.elim .done .fault, shelf.put name env)
  | .copy target => (.done, shelf.put target (shelf.get name))
  | .lookup key =>
    match (shelf.get name).lookup key with
    | .ok v => (.value v, shelf)
    | .error fault => (.fault fault, shelf)
  | .contains key => (.flag ((shelf.get name).contains key), shelf)
  | .names => (.keys (shelf.get name).names, shelf)
  | .size => (.count (shelf.get name).size, shelf)
  | .inspect => (((shelf.get name).inspected?).elim (.fault .integerTooLarge) .text, shelf)

end Shelf

end SnapLisp
