import SnapLisp.Environment.Key
import SnapLisp.Fault
import SnapLisp.Value.Printed
/-!
# Environments

Bindings of keys to values in the order in which the keys were first bound. Binding a key anew keeps
its place. Symbols are the keys that `define` takes; an environment that a host makes may hold any
others, and keys are told apart by `Key.same`. No two keys of an environment are the same.

There is no chain of scopes: a call runs in a copy of the caller's environment, and since
environments are values, to copy one is to keep it.
-/

namespace SnapLisp

/-- The entries with the first one whose key is the same given a new value, or with a new entry at
the end. -/
def insertEntry (key : Key) (value : Value) : List (Key × Value) → List (Key × Value)
  | [] => [(key, value)]
  | (k, v) :: rest =>
    if k.same key then (k, value) :: rest else (k, v) :: insertEntry key value rest

theorem fst_mem_insertEntry {key : Key} {value : Value} {entries : List (Key × Value)}
    {e : Key × Value} (h : e ∈ insertEntry key value entries) :
    e.1 = key ∨ ∃ e' ∈ entries, e.1 = e'.1 := by
  induction entries with
  | nil => simp [insertEntry] at h; exact .inl (by rw [h])
  | cons p rest ih =>
    obtain ⟨k, v⟩ := p
    simp only [insertEntry] at h
    split at h
    · rcases List.mem_cons.mp h with rfl | h
      · exact .inr ⟨(k, v), List.mem_cons_self, rfl⟩
      · exact .inr ⟨e, List.mem_cons_of_mem _ h, rfl⟩
    · rcases List.mem_cons.mp h with rfl | h
      · exact .inr ⟨(k, v), List.mem_cons_self, rfl⟩
      · rcases ih h with h | ⟨e', he', h⟩
        · exact .inl h
        · exact .inr ⟨e', List.mem_cons_of_mem _ he', h⟩

/-- Each key differs from those behind it. -/
def KeysDistinct (entries : List (Key × Value)) : Prop :=
  entries.Pairwise fun a b => a.1.same b.1 = false

theorem KeysDistinct.insertEntry {entries : List (Key × Value)} (h : KeysDistinct entries)
    (key : Key) (value : Value) : KeysDistinct (insertEntry key value entries) := by
  induction entries with
  | nil => exact List.pairwise_singleton ..
  | cons p rest ih =>
    obtain ⟨k, v⟩ := p
    obtain ⟨hk, hrest⟩ := List.pairwise_cons.mp h
    simp only [SnapLisp.insertEntry]
    split
    · exact List.pairwise_cons.mpr ⟨hk, hrest⟩
    · rename_i hne
      refine List.pairwise_cons.mpr ⟨fun e he => ?_, ih hrest⟩
      rcases fst_mem_insertEntry he with h | ⟨e', he', h⟩
      · simpa [h] using hne
      · simpa [h] using hk e' he'

structure Environment where
  entries : List (Key × Value)
  distinct : KeysDistinct entries

namespace Environment

def empty : Environment :=
  ⟨[], .nil⟩

instance : Inhabited Environment := ⟨empty⟩

/-- The environment with a key bound, whatever the key is. -/
def insert (env : Environment) (key : Key) (value : Value) : Environment :=
  ⟨insertEntry key value env.entries, env.distinct.insertEntry key value⟩

/-- The bindings of a list of pairs, a later one for the same key in place of an earlier one. -/
def ofItems (items : List (Key × Value)) : Environment :=
  items.foldl (fun env item => env.insert item.1 item.2) empty

def get? (env : Environment) (key : Key) : Option Value :=
  (env.entries.find? fun e => e.1.same key).map (·.2)

def contains (env : Environment) (key : Key) : Bool :=
  (env.get? key).isSome

def names (env : Environment) : List Key :=
  env.entries.map (·.1)

def size (env : Environment) : Nat :=
  env.entries.length

def printEntries? : List (Key × Value) → Option (List (List Char))
  | [] => some []
  | (k, v) :: rest =>
    match v.print?, printEntries? rest with
    | some t, some ts => some ((k.display ++ '=' :: t) :: ts)
    | _, _ => none

/-- The dump of all bindings; there is none if a value has no text. -/
def printed? (env : Environment) : Option String :=
  (printEntries? env.entries).map fun ts => String.ofList ([' '].intercalate ts)

/-- The dump as an inspected environment shows it. -/
def inspected? (env : Environment) : Option String :=
  env.printed?.map fun dump => "<Environment " ++ dump ++ ">"

/-- Binds a symbol, and refuses all other values, those that are no keys included. -/
def define (env : Environment) (key value : Value) : Except Fault Environment :=
  match key with
  | .symbol name => .ok (env.insert (.symbol name) value)
  | _ => .error (.notDefinable (String.ofList key.display))

/-- The value of a key, or a fault that dumps the bindings. -/
def lookup (env : Environment) (key : Key) : Except Fault Value :=
  match env.get? key with
  | some v => .ok v
  | none =>
    match env.printed? with
    | some dump => .error (.unbound (String.ofList key.display) dump)
    | none => .error .integerTooLarge

/-- Defines entries one by one up to the first key that is no symbol. -/
def defineAll (env : Environment) : List (Key × Value) → Environment × Option Fault
  | [] => (env, none)
  | (k, v) :: rest =>
    match env.define k.value v with
    | .ok env' => env'.defineAll rest
    | .error fault => (env, some fault)

def update (env : Environment) (items : List (Key × Value)) : Environment × Option Fault :=
  env.defineAll (ofItems items).entries

/-- Binds parameters to the arguments of a call, from left to right. -/
def bindParams (env : Environment) (params : List String) (args : List Value) : Environment :=
  (params.zip args).foldl (fun env p => env.insert (.symbol p.1) p.2) env

end Environment

end SnapLisp
