import Mathlib.Data.List.Induction
import SnapLisp.Evaluation.Operator
import SnapLisp.Proofs.Environment.Compare

/-!
# Environments as histories

What has been defined in an environment, one definition after the other, is its history. A history lists
each key once, where it was first defined, with the value of its last definition (`History.listing`).
Defining a key adds a definition to the history (`History.listing_concat`), so the entries of an environment
are the listing of its history (`Environment.Records`), and the values, the names, the size and the dump can
be read off from it.
-/

namespace SnapLisp

/-- The keys with the values that they were defined with, one after the other. -/
abbrev History := List (Key × Value)

namespace History

/-- The value of the last definition of the key. -/
def lastValue? (history : History) (key : Key) : Option Value :=
  (history.reverse.find? fun d => d.1.same key).map (·.2)

/-- The definitions of keys that no earlier definition has. -/
def firsts : History → History
  | [] => []
  | d :: rest => d :: (firsts rest).filter fun e => !e.1.same d.1

/-- The keys in the order of their first definitions. -/
def keys (history : History) : List Key :=
  history.firsts.map (·.1)

/-- Each key with its last value, in the order of the first definitions. -/
def listing (history : History) : List (Key × Value) :=
  history.firsts.map fun d => (d.1, (history.lastValue? d.1).getD d.2)

variable {history : History} {key k : Key} {v : Value}

/-! ### Values -/

theorem lastValue?_append (history history' : History) (key : Key) :
    (history ++ history').lastValue? key = (history'.lastValue? key).or (history.lastValue? key) := by
  rw [lastValue?, List.reverse_append, List.find?_append, Option.map_or]
  rfl

theorem lastValue?_concat (history : History) (k : Key) (v : Value) (key : Key) :
    (history ++ [(k, v)]).lastValue? key = if k.same key then some v else history.lastValue? key := by
  rw [lastValue?_append]
  cases h : k.same key <;> simp [lastValue?, h]

theorem lastValue?_cons (history : History) (k : Key) (v : Value) (key : Key) :
    lastValue? ((k, v) :: history) key =
      (history.lastValue? key).or (if k.same key then some v else none) := by
  rw [← List.singleton_append, lastValue?_append]
  cases h : k.same key <;> simp [lastValue?, h]

/-! ### Listings -/

theorem listing_cons (history : History) (k : Key) (v : Value) : listing ((k, v) :: history) =
    (k, (history.lastValue? k).getD v) :: history.listing.filter fun e => !e.1.same k := by
  have hfirst : (lastValue? ((k, v) :: history) k).getD v = (history.lastValue? k).getD v := by
    rw [lastValue?_cons]
    cases history.lastValue? k with
    | none => cases h : k.same k <;> rfl
    | some w => rfl
  have hrest : ∀ d ∈ history.firsts.filter fun e => !e.1.same k,
      lastValue? ((k, v) :: history) d.1 = history.lastValue? d.1 := by
    intro d hd
    have hne : k.same d.1 = false := by
      rw [Key.same_comm]
      simpa using (List.mem_filter.1 hd).2
    rw [lastValue?_cons, hne, if_neg Bool.false_ne_true, Option.or_none]
  rw [listing, firsts, List.map_cons, hfirst, listing, List.filter_map]
  exact congrArg _ (List.map_congr_left fun d hd => congrArg (fun o => (d.1, o.getD d.2)) (hrest d hd))

/-- To define a key is to insert an entry into the listing. -/
theorem listing_concat (history : History) (k : Key) (v : Value) :
    (history ++ [(k, v)]).listing = insertEntry k v history.listing := by
  induction history with
  | nil => exact listing_cons [] k v
  | cons d history ih =>
    obtain ⟨k', v'⟩ := d
    rw [List.cons_append, listing_cons, listing_cons, ih, lastValue?_concat, insertEntry,
      Key.same_comm k' k]
    cases h : k.same k' with
    | true => simp [filter_insertEntry_of_same h]
    | false => simp [filter_insertEntry_of_not_same h]

theorem find?_listing (history : History) (key : Key) :
    (history.listing.find? fun e => e.1.same key).map (·.2) = history.lastValue? key := by
  induction history using List.reverseRecOn with
  | nil => rfl
  | append_singleton history d ih => rw [listing_concat, find?_insertEntry, ih, lastValue?_concat]

theorem map_fst_listing (history : History) : history.listing.map (·.1) = history.keys := by
  rw [listing, keys, List.map_map]
  rfl

theorem exists_of_mem_listing {e : Key × Value} (h : e ∈ history.listing) : ∃ d ∈ history, d.2 = e.2 := by
  induction history using List.reverseRecOn with
  | nil => cases h
  | append_singleton history d ih =>
    rw [listing_concat] at h
    rcases mem_insertEntry_cases h with ⟨hvalue, -⟩ | h
    · exact ⟨d, List.mem_append_right _ List.mem_cons_self, hvalue.symm⟩
    · obtain ⟨d', hd', hvalue⟩ := ih h
      exact ⟨d', List.mem_append_left _ hd', hvalue⟩

end History

def Value.isSymbol : Value → Bool
  | symbol _ => true
  | _ => false

theorem Value.isSymbol_iff {v : Value} : v.isSymbol = true ↔ ∃ name, v = .symbol name := by
  constructor
  · intro h
    cases v with
    | symbol name => exact ⟨name, rfl⟩
    | _ => cases h
  · rintro ⟨name, rfl⟩
    rfl

namespace History

/-- What a definition adds: nothing, unless it is one of a symbol. -/
def definition : Value → Value → History
  | .symbol name, value => [(.symbol name, value)]
  | _, _ => []

theorem definition_of_not_isSymbol {v : Value} (h : v.isSymbol = false) (value : Value) :
    definition v value = [] := by
  cases v with
  | symbol name => cases h
  | _ => rfl

/-- What a mapping defines: its pairs in front of the first key that is no symbol. -/
def defined (items : History) : History :=
  items.listing.takeWhile (·.1.value.isSymbol)

/-- The first key of a mapping that is no symbol. -/
def refused? (items : History) : Option Key :=
  items.keys.find? fun k => !k.value.isSymbol

/-- The bindings as a dump shows them. -/
def dump (history : History) : String :=
  String.ofList ([' '].intercalate
    (history.listing.map fun e => e.1.display ++ '=' :: (e.2.print?).getD []))

/-- All values have a text. -/
def IsShown (history : History) : Prop :=
  ∀ d ∈ history, ∃ text, d.2.print? = some text

namespace IsShown
variable {history history' : History}

theorem append (h : history.IsShown) (h' : history'.IsShown) : IsShown (history ++ history') :=
  List.forall_mem_append.2 ⟨h, h'⟩

theorem listing (h : history.IsShown) : IsShown history.listing := by
  intro e he
  obtain ⟨d, hd, hvalue⟩ := exists_of_mem_listing he
  exact hvalue ▸ h d hd

theorem definition {value : Value} (h : ∃ text, value.print? = some text) (v : Value) :
    IsShown (definition v value) := by
  intro d hd
  cases v with
  | symbol name =>
    obtain rfl := List.mem_singleton.1 hd
    exact h
  | _ => cases hd

theorem defined (h : history.IsShown) : IsShown history.defined := fun e he =>
  h.listing e ((List.takeWhile_prefix _).subset he)

theorem bindings : IsShown Operator.bindings := by
  simp [IsShown, Operator.bindings, Operator.table, Value.print?]

end IsShown
end History

/-- What is reported of a value that is no symbol where one is to be bound. -/
def Fault.ofKey (v : Value) : Fault :=
  .notDefinable (String.ofList v.display)

namespace Environment
variable {env : Environment} {history items : History} {key : Key} {v : Value}

theorem define_of_isSymbol (env : Environment) (h : key.value.isSymbol = true) (value : Value) :
    env.define key.value value = .ok (env.insert key value) := by
  obtain ⟨name, hname⟩ := Value.isSymbol_iff.1 h
  rw [hname, Key.eq_symbol_of_value hname]
  rfl

theorem define_of_not_isSymbol (env : Environment) (h : v.isSymbol = false) (value : Value) :
    env.define v value = .error (.ofKey v) := by
  cases v with
  | symbol name => cases h
  | _ => rfl

theorem printEntries?_eq {entries : List (Key × Value)}
    (h : ∀ e ∈ entries, ∃ text, e.2.print? = some text) :
    printEntries? entries = some (entries.map fun e => e.1.display ++ '=' :: (e.2.print?).getD []) := by
  induction entries with
  | nil => rfl
  | cons e entries ih =>
    obtain ⟨⟨text, htext⟩, hentries⟩ := List.forall_mem_cons.1 h
    rw [printEntries?, htext, ih hentries, List.map_cons, htext]
    rfl

/-- The history is one of the environment: its listing is the entries. -/
def Records (env : Environment) (history : History) : Prop :=
  env.entries = history.listing

namespace Records

theorem insert (h : env.Records history) (key : Key) (value : Value) :
    (env.insert key value).Records (history ++ [(key, value)]) := by
  rw [Records, History.listing_concat, ← h]
  rfl

theorem ofItems (items : History) : (Environment.ofItems items).Records items := by
  induction items using List.reverseRecOn with
  | nil => exact rfl
  | append_singleton items d ih =>
    rw [Environment.ofItems, List.foldl_append]
    exact ih.insert d.1 d.2

/-- Entries are defined up to the first key that is no symbol, which is reported. -/
theorem defineAll (h : env.Records history) (entries : List (Key × Value)) :
    (env.defineAll entries).1.Records (history ++ entries.takeWhile (·.1.value.isSymbol)) ∧
      (env.defineAll entries).2 = ((entries.map (·.1)).find? fun k => !k.value.isSymbol).map
        fun k => .ofKey k.value := by
  induction entries generalizing env history with
  | nil => exact ⟨by simpa [Environment.defineAll] using h, rfl⟩
  | cons e entries ih =>
    obtain ⟨k, v⟩ := e
    rw [Environment.defineAll]
    cases hk : k.value.isSymbol with
    | false => simpa [define_of_not_isSymbol env hk, hk] using h
    | true =>
      have hrest := ih (h.insert k v)
      simpa [define_of_isSymbol env hk, hk] using hrest

theorem update (h : env.Records history) (items : History) :
    (env.update items).1.Records (history ++ items.defined) ∧
      (env.update items).2 = items.refused?.map fun k => .ofKey k.value := by
  have hentries : (Environment.ofItems items).entries = items.listing := ofItems items
  have hdefine := h.defineAll items.listing
  rw [History.map_fst_listing] at hdefine
  rw [Environment.update, hentries]
  exact hdefine

theorem register (h : env.Records history) : env.register.Records (history ++ Operator.bindings) :=
  (h.update Operator.bindings).1

theorem get?_eq (h : env.Records history) (key : Key) : env.get? key = history.lastValue? key := by
  rw [get?, h, History.find?_listing]

theorem names_eq (h : env.Records history) : env.names = history.keys := by
  rw [names, h, History.map_fst_listing]

theorem size_eq (h : env.Records history) : env.size = history.keys.length := by
  rw [← h.names_eq, names, List.length_map, size]

theorem contains_eq (h : env.Records history) (key : Key) :
    env.contains key = (history.lastValue? key).isSome := by
  rw [contains, h.get?_eq]

/-! ### Dumps -/

theorem printed?_eq (h : env.Records history) (hshown : history.IsShown) :
    env.printed? = some history.dump := by
  rw [printed?, h, printEntries?_eq hshown.listing]
  rfl

theorem lookup_eq (h : env.Records history) (hshown : history.IsShown) (key : Key) :
    env.lookup key = match history.lastValue? key with
      | some v => .ok v
      | none => .error (.unbound (String.ofList key.display) history.dump) := by
  rw [lookup, h.get?_eq]
  cases history.lastValue? key with
  | some v => rfl
  | none => simp only [h.printed?_eq hshown]

end Records

theorem names_pairwise (env : Environment) :
    env.names.Pairwise fun a b => a.same b = false ∧ b.same a = false := by
  rw [names, List.pairwise_map]
  exact env.distinct.imp fun h => ⟨h, by rw [Key.same_comm, h]⟩

/-- All that can be asked of an environment is as the history has it, and no key is there twice. -/
structure Tells (env : Environment) (history : History) : Prop where
  distinct : env.names.Pairwise fun a b => a.same b = false ∧ b.same a = false
  entries : env.entries = history.listing
  names : env.names = history.keys
  size : env.size = history.keys.length
  contains : ∀ key, env.contains key = (history.lastValue? key).isSome
  lookup : ∀ key, env.lookup key = match history.lastValue? key with
    | some v => .ok v
    | none => .error (.unbound (String.ofList key.display) history.dump)
  printed : env.printed? = some history.dump

theorem Records.tells (h : env.Records history) (hshown : history.IsShown) : env.Tells history where
  distinct := env.names_pairwise
  entries := h
  names := h.names_eq
  size := h.size_eq
  contains := h.contains_eq
  lookup := h.lookup_eq hshown
  printed := h.printed?_eq hshown

end Environment

end SnapLisp
