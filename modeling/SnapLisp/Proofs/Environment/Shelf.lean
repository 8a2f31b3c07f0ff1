import Mathlib.Logic.Function.Basic
import SnapLisp.Environment.Shelf
import SnapLisp.Proofs.Environment.History

/-!
# Shelves as histories

A request adds definitions to the history of one name, or gives one name the history of another one
(`Shelf.Request.record`), and all answers can be read off the history of the name that is asked
(`Shelf.Request.reply`). Each step of a shelf keeps its environments and the histories together
(`Shelf.Records.answer`), and so does each sequence of steps (`Shelf.Records.after`). Main statement: every
sequence of requests to an empty shelf is answered from the histories alone, and leaves environments that
tell their histories (`Shelf.after_tells`).
-/

namespace SnapLisp

/-- The history of each name. -/
abbrev Histories := String → History

namespace Shelf
variable {shelf : Shelf} {name other : String}

/-! ### Names -/

theorem get_cons (n : String) (env : Environment) (shelf : Shelf) (other : String) :
    get ((n, env) :: shelf) other = if other = n then env else shelf.get other := by
  unfold get
  rw [List.lookup_cons]
  split
  · rename_i heq
    rw [if_pos (beq_iff_eq.1 heq)]
    rfl
  · rename_i hne
    rw [if_neg (beq_eq_false_iff_ne.1 hne)]

theorem get_put (shelf : Shelf) (name : String) (env : Environment) :
    (shelf.put name env).get = Function.update shelf.get name env := by
  funext other
  rw [Function.update_apply]
  induction shelf with
  | nil => rw [put, get_cons]
  | cons e shelf ih =>
    obtain ⟨n, e⟩ := e
    rw [put, get_cons]
    split
    · rename_i hn
      rw [get_cons, hn]
      split <;> rfl
    · rename_i hn
      rw [get_cons, ih]
      by_cases h : other = n
      · rw [if_pos h, if_pos h, if_neg fun hname => hn (h.symm.trans hname)]
      · rw [if_neg h, if_neg h]

/-- A name with the request to its environment. -/
abbrev Step := String × Request

namespace Request

/-- The name whose environment a request may change. -/
def target (name : String) : Request → String
  | .copy target => target
  | _ => name

/-- The histories after a request to a name. A definition that is refused adds nothing, and of a mapping
only what stands in front of the first key that is refused is added. -/
def record (name : String) (histories : Histories) : Request → Histories
  | .create items => Function.update histories name items
  | .register => Function.update histories name (histories name ++ Operator.bindings)
  | .define key value => Function.update histories name (histories name ++ History.definition key value)
  | .update items => Function.update histories name (histories name ++ History.defined items)
  | .copy target => Function.update histories target (histories name)
  | .lookup _ | .contains _ | .names | .size | .inspect => histories

/-- The answer to a request that a history gives. -/
def reply (history : History) : Request → Answer
  | .create _ | .register | .copy _ => .done
  | .define key _ => if key.isSymbol then .done else .fault (.ofKey key)
  | .update items => (History.refused? items).elim .done fun key => .fault (.ofKey key.value)
  | .lookup key =>
    match history.lastValue? key with
    | some v => .value v
    | none => .fault (.unbound (String.ofList key.display) history.dump)
  | .contains key => .flag (history.lastValue? key).isSome
  | .names => .keys history.keys
  | .size => .count history.keys.length
  | .inspect => .text ("<Environment " ++ history.dump ++ ">")

/-- All values that a request defines have a text. -/
def IsShown : Request → Prop
  | .create items | .update items => History.IsShown items
  | .define _ value => ∃ text, value.print? = some text
  | _ => True

end Request

/-- The answers to steps, one after the other. -/
def serve : List Step → Shelf → List Answer
  | [], _ => []
  | (name, request) :: steps, shelf =>
    (shelf.answer name request).1 :: serve steps (shelf.answer name request).2

/-- The shelf after steps. -/
def after (shelf : Shelf) (steps : List Step) : Shelf :=
  steps.foldl (fun shelf step => (shelf.answer step.1 step.2).2) shelf

end Shelf

namespace Histories
open SnapLisp.Shelf (Step Answer)

/-- The answers to steps that the histories give. -/
def serve : List Step → Histories → List Answer
  | [], _ => []
  | (name, request) :: steps, histories =>
    request.reply (histories name) :: serve steps (request.record name histories)

/-- The histories after steps. -/
def after (histories : Histories) (steps : List Step) : Histories :=
  steps.foldl (fun histories step => step.2.record step.1 histories) histories

/-- All values have a text. -/
def IsShown (histories : Histories) : Prop :=
  ∀ name, (histories name).IsShown

variable {histories : Histories} {name : String} {history : History}

theorem IsShown.update (h : histories.IsShown) (hhistory : history.IsShown) (name : String) :
    Histories.IsShown (Function.update histories name history) := by
  intro other
  rw [Function.update_apply]
  split
  · exact hhistory
  · exact h other

theorem IsShown.record (h : histories.IsShown) {request : Shelf.Request} (hrequest : request.IsShown) :
    Histories.IsShown (request.record name histories) := by
  cases request with
  | create items => exact h.update hrequest name
  | register => exact h.update ((h name).append .bindings) name
  | define key value => exact h.update ((h name).append (.definition hrequest key)) name
  | update items => exact h.update ((h name).append hrequest.defined) name
  | copy target => exact h.update (h name) target
  | lookup | contains | names | size | inspect => exact h

theorem IsShown.after (h : histories.IsShown) {steps : List Step}
    (hsteps : ∀ step ∈ steps, step.2.IsShown) :
    (histories.after steps).IsShown := by
  induction steps generalizing histories with
  | nil => exact h
  | cons step steps ih =>
    obtain ⟨hstep, hsteps⟩ := List.forall_mem_cons.1 hsteps
    exact ih (h.record hstep) hsteps

end Histories

namespace Shelf
variable {shelf : Shelf} {name other : String} {histories : Histories} {request : Request}

/-- Each environment has the history of its name. -/
def Records (shelf : Shelf) (histories : Histories) : Prop :=
  ∀ name, (shelf.get name).Records (histories name)

namespace Records

theorem put (h : shelf.Records histories) {env : Environment} {history : History}
    (henv : env.Records history) (name : String) :
    (shelf.put name env).Records (Function.update histories name history) := by
  intro other
  rw [get_put, Function.update_apply, Function.update_apply]
  split
  · exact henv
  · exact h other

theorem answer (h : shelf.Records histories) (name : String) (request : Request) :
    (shelf.answer name request).2.Records (request.record name histories) := by
  cases request with
  | create items => exact h.put (.ofItems items) name
  | register => exact h.put (h name).register name
  | define key value =>
    cases hkey : key.isSymbol with
    | true =>
      obtain ⟨n, rfl⟩ := Value.isSymbol_iff.1 hkey
      exact h.put ((h name).insert (.symbol n) value) name
    | false =>
      rw [Shelf.answer, Environment.define_of_not_isSymbol _ hkey, Request.record,
        History.definition_of_not_isSymbol hkey, List.append_nil, Function.update_eq_self]
      exact h
  | update items => exact h.put ((h name).update items).1 name
  | copy target => exact h.put (h name) target
  | lookup key =>
    rw [Shelf.answer]
    split <;> exact h
  | contains | names | size | inspect => exact h

theorem reply (h : shelf.Records histories) (hshown : (histories name).IsShown) (request : Request) :
    (shelf.answer name request).1 = request.reply (histories name) := by
  cases request with
  | create | register | copy => rfl
  | define key value =>
    rw [Shelf.answer, Request.reply]
    cases hkey : key.isSymbol with
    | true =>
      obtain ⟨n, rfl⟩ := Value.isSymbol_iff.1 hkey
      rfl
    | false => rw [Environment.define_of_not_isSymbol _ hkey, if_neg Bool.false_ne_true]
  | update items =>
    have hfault := ((h name).update items).2
    simp only [Shelf.answer, Request.reply, hfault]
    cases History.refused? items <;> rfl
  | lookup key =>
    rw [Shelf.answer, (h name).lookup_eq hshown, Request.reply]
    cases (histories name).lastValue? key <;> rfl
  | contains key => rw [Shelf.answer, (h name).contains_eq, Request.reply]
  | names => rw [Shelf.answer, (h name).names_eq, Request.reply]
  | size => rw [Shelf.answer, (h name).size_eq, Request.reply]
  | inspect =>
    rw [Shelf.answer, Environment.inspected?, (h name).printed?_eq hshown, Request.reply]
    rfl

/-- Each sequence of steps is answered from the histories. -/
theorem serve_eq {steps : List Step} (h : shelf.Records histories) (hshown : histories.IsShown)
    (hsteps : ∀ step ∈ steps, step.2.IsShown) : shelf.serve steps = histories.serve steps := by
  induction steps generalizing shelf histories with
  | nil => rfl
  | cons step steps ih =>
    obtain ⟨name, request⟩ := step
    obtain ⟨hstep, hsteps⟩ := List.forall_mem_cons.1 hsteps
    rw [serve, Histories.serve, h.reply (hshown name) request,
      ih (h.answer name request) (hshown.record hstep) hsteps]

theorem after (h : shelf.Records histories) (steps : List Step) :
    (shelf.after steps).Records (histories.after steps) := by
  induction steps generalizing shelf histories with
  | nil => exact h
  | cons step steps ih => exact ih (h.answer step.1 step.2)

end Records

/-! ### Other names -/

theorem get_put_of_ne (hne : other ≠ name) (env : Environment) :
    (shelf.put name env).get other = shelf.get other := by
  rw [get_put, Function.update_of_ne hne]

/-- A request changes the environment of its target only. -/
theorem get_answer_of_ne (hne : other ≠ request.target name) :
    (shelf.answer name request).2.get other = shelf.get other := by
  cases request with
  | create | register | update | copy => exact get_put_of_ne hne _
  | define key value =>
    rw [answer]
    split
    · exact get_put_of_ne hne _
    · rfl
  | lookup key =>
    rw [answer]
    split <;> rfl
  | contains | names | size | inspect => rfl

theorem get_after_of_ne {steps : List Step} (hne : ∀ step ∈ steps, other ≠ step.2.target step.1) :
    (shelf.after steps).get other = shelf.get other := by
  induction steps generalizing shelf with
  | nil => rfl
  | cons step steps ih =>
    obtain ⟨hstep, hsteps⟩ := List.forall_mem_cons.1 hne
    exact (ih hsteps).trans (get_answer_of_ne hstep)

/-- Requests to an empty shelf are answered from the histories of the names, and then each environment
tells its history. Further steps leave the environments of all names but their targets as they are, be it
the source of a copy or the copy; a definition of a value that is no symbol is refused and changes nothing.
All values but lists are keys. These are the same if their values are or if they are one object, and so a
key is the same as itself, and never a text the same as a symbol. -/
theorem after_tells (steps : List Step) (hsteps : ∀ step ∈ steps, step.2.IsShown) :
    let shelf := after [] steps
    let histories := Histories.after (fun _ => []) steps
    serve steps [] = Histories.serve steps (fun _ => []) ∧
      (∀ name, (shelf.get name).Tells (histories name)) ∧
      (∀ (later : List Step) (other : String), (∀ step ∈ later, other ≠ step.2.target step.1) →
        (shelf.after later).get other = shelf.get other) ∧
      (∀ name key value, key.isSymbol = false →
        shelf.answer name (.define key value) = (.fault (.ofKey key), shelf)) ∧
      (∀ (v : Value) (place : Nat), (∀ items, v ≠ .list items) →
        ∃ key, v.key? place = some key ∧ key.value = v) ∧
      (∀ a b : Key, a.same b = true ↔ a.value.same b.value = true ∨
        ∃ place, a.identity = .inr place ∧ b.identity = .inr place) ∧
      (∀ key : Key, key.same key = true) ∧
      ∀ s n, (Key.text s).same (.symbol n) = false ∧ (Key.symbol n).same (.text s) = false := by
  intro shelf histories
  have hempty : Records [] fun _ => [] := fun _ => rfl
  have hshown : Histories.IsShown fun _ => [] := fun _ => List.forall_mem_nil _
  refine ⟨hempty.serve_eq hshown hsteps, fun name => ?tells, fun later other hlater => get_after_of_ne hlater,
    fun name key value hkey => ?define, fun v place => Value.exists_key? place,
    fun a b => Key.same_iff_value, Key.same_self, fun s n => ?text⟩
  case tells => exact (hempty.after steps name).tells (hshown.after hsteps name)
  case define => rw [answer, Environment.define_of_not_isSymbol _ hkey]
  case text => exact ⟨rfl, rfl⟩

/-- A function that is bound twice is there once, in the copy too; another one with the same text is not
there. A mapping is defined up to the function. -/
theorem after_tells_copied :
    let f := Key.object 0 (.builtin 0) rfl
    let steps : List Step := [("x", .create [(.text "A", .nil), (f, .truth), (f, .nil)]), ("x", .copy "y"),
      ("y", .update [(.symbol "A", .truth), (f, .truth)]), ("y", .lookup (.symbol "A")), ("x", .lookup f),
      ("x", .lookup (.object 1 (.builtin 0) rfl))]
    (∀ step ∈ steps, step.2.IsShown) ∧ serve steps [] =
      [.done, .done, .fault (.notDefinable "FUNCTION"), .value .truth, .value .nil,
        .fault (.unbound "FUNCTION" "A=NIL FUNCTION=NIL")] := by
  intro f steps
  have hsteps : ∀ step ∈ steps, step.2.IsShown := by
    simp only [steps, List.forall_mem_cons, Request.IsShown, History.IsShown]
    simp [Value.print?]
  exact ⟨hsteps, (after_tells steps hsteps).1.trans rfl⟩

end Shelf
end SnapLisp
