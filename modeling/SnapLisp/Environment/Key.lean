import SnapLisp.Value.Identity
import SnapLisp.Value.Inspected
/-!
# Keys

What a binding is found under. A value with an identity is found under every value that is the same. A
function or NaN is found under that very object only, so as a key it has a place, and keys are told
apart by it; which places objects have is up to the host. Lists are no keys.
-/

namespace SnapLisp

/-- Whether a value is told apart as an object, whatever it holds. -/
def Value.isObject : Value → Bool
  | number .nan | builtin _ | lambda _ _ => true
  | _ => false

inductive Key
  | content (v : Value) (identity : Identity) (h : v.identity? = some identity)
  | object (place : Nat) (v : Value) (h : v.isObject = true)

/-- A value as a key, its object being at a place. -/
def Value.key? (place : Nat) (v : Value) : Option Key :=
  match h : v.identity? with
  | some identity => some (.content v identity h)
  | none => if ho : v.isObject then some (.object place v ho) else none

namespace Key

def symbol (name : String) : Key :=
  .content (.symbol name) (.symbol name) rfl

def text (s : String) : Key :=
  .content (.text s) (.text s) rfl

def value : Key → Value
  | content v _ _ | object _ v _ => v

/-- What makes two keys the same. -/
def identity : Key → Identity ⊕ Nat
  | content _ i _ => .inl i
  | object place _ _ => .inr place

def same (a b : Key) : Bool :=
  decide (a.identity = b.identity)

def display (key : Key) : List Char :=
  key.value.display

@[simp] theorem symbol_inj {m n : String} : symbol m = symbol n ↔ m = n :=
  ⟨fun h => Value.symbol.inj (congrArg value h), congrArg symbol⟩

theorem same_iff {a b : Key} : a.same b = true ↔ a.identity = b.identity :=
  decide_eq_true_iff

end Key

end SnapLisp
