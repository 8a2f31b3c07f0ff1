import SnapLisp.Environment.Key
import SnapLisp.Proofs.Value.Identity

/-!
# Same keys

Every value but a list is a key (`Value.exists_key?`). Keys are the same if their values are, or if they are
one object (`Key.same_iff_value`), which is an equivalence. A symbol is the same as itself and as no other
key (`Key.same_symbol_iff`).
-/

namespace SnapLisp
namespace Value
variable {v : Value} {name : String}

theorem eq_symbol_of_identity? (h : v.identity? = some (.symbol name)) : v = .symbol name := by
  cases v with
  | symbol n =>
    cases h
    rfl
  | number x =>
    obtain ⟨q, _, hq⟩ := Option.map_eq_some_iff.1 h
    cases hq
  | integer | flag | text | list | nil | truth | builtin | lambda | absent => cases h

theorem isObject_iff : v.isObject = true ↔ v.identity? = none ∧ ∀ items, v ≠ .list items := by
  cases v with
  | number x =>
    cases x with
    | nan => exact iff_of_true rfl ⟨rfl, fun items h => by cases h⟩
    | signed negative rank hle =>
      refine iff_of_false (fun h => by cases h) fun ⟨h, _⟩ => ?_
      rw [identity?, Binary64.quantity?] at h
      split at h <;> cases h
  | list items => exact iff_of_false (fun h => by cases h) fun ⟨_, hne⟩ => hne items rfl
  | builtin | lambda => exact iff_of_true rfl ⟨rfl, fun items h => by cases h⟩
  | integer | flag | text | symbol | nil | truth | absent =>
    exact iff_of_false (fun h => by cases h) fun ⟨h, _⟩ => by cases h

/-- Every value but a list is a key, wherever its object is. -/
theorem exists_key? (place : Nat) (hne : ∀ items, v ≠ .list items) :
    ∃ key, v.key? place = some key ∧ key.value = v := by
  unfold key?
  split
  · exact ⟨_, rfl, rfl⟩
  · rename_i hidentity
    rw [dif_pos (isObject_iff.2 ⟨hidentity, hne⟩)]
    exact ⟨_, rfl, rfl⟩

end Value

namespace Key
variable {a b c : Key} {name : String}

theorem value_ne_list (a : Key) (items : List Value) : a.value ≠ .list items := by
  cases a with
  | content v identity h =>
    rintro rfl
    cases h
  | object place v h => exact (Value.isObject_iff.1 h).2 items

theorem identity?_value (a : Key) : a.value.identity? = a.identity.getLeft? := by
  cases a with
  | content v identity h => exact h
  | object place v h => exact (Value.isObject_iff.1 h).1

/-- Keys are the same if their values are, or if they are one object. -/
theorem same_iff_value : a.same b = true ↔
    a.value.same b.value = true ∨ ∃ place, a.identity = .inr place ∧ b.identity = .inr place := by
  rw [same_iff, Value.same_iff_of_ne_list a.value_ne_list, identity?_value, identity?_value]
  cases a.identity <;> cases b.identity <;> simp [eq_comm]

theorem same_self (a : Key) : a.same a = true :=
  same_iff.2 rfl

theorem same_symm (h : a.same b = true) : b.same a = true :=
  same_iff.2 (same_iff.1 h).symm

theorem same_trans (h : a.same b = true) (h' : b.same c = true) : a.same c = true :=
  same_iff.2 ((same_iff.1 h).trans (same_iff.1 h'))

theorem same_comm (a b : Key) : a.same b = b.same a :=
  Bool.eq_iff_iff.2 ⟨same_symm, same_symm⟩

/-- Whether a key is the same as a third does not depend on which of two same keys is asked. -/
theorem same_congr_left (h : a.same b = true) (c : Key) : a.same c = b.same c :=
  Bool.eq_iff_iff.2 ⟨same_trans (same_symm h), same_trans h⟩

theorem eq_symbol_of_value (h : a.value = .symbol name) : a = symbol name := by
  cases a with
  | content v identity hidentity =>
    obtain rfl : v = .symbol name := h
    cases hidentity
    rfl
  | object place v hobject =>
    obtain rfl : v = .symbol name := h
    cases hobject

theorem same_symbol_iff : a.same (symbol name) = true ↔ a = symbol name := by
  constructor
  · intro h
    have hidentity := a.identity?_value
    rw [same_iff.1 h] at hidentity
    exact eq_symbol_of_value (Value.eq_symbol_of_identity? hidentity)
  · rintro rfl
    exact same_self _

theorem symbol_same_iff : (symbol name).same a = true ↔ a = symbol name := by
  rw [same_comm, same_symbol_iff]

end Key

end SnapLisp
