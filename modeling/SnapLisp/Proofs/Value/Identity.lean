import Mathlib.Data.List.Forall2
import SnapLisp.Value.Identity

/-!
# Same values

Values are the same if they are lists of same items (`list_same_iff`) or have an identity in common
(`same_iff_of_ne_list`). So being the same is symmetric and transitive (`same_symm`, `same_trans`); NaN,
functions, and lists with these are not the same as themselves.
-/

namespace SnapLisp
namespace Value

/-- Induction over lists and their items, all other values being taken together. -/
@[elab_as_elim]
theorem items_induction {motive : Value → Prop}
    (list : ∀ items, (∀ v ∈ items, motive v) → motive (.list items))
    (other : ∀ v, (∀ items, v ≠ .list items) → motive v) (v : Value) : motive v := by
  cases v with
  | list items => exact list items fun v _ => items_induction list other v
  | _ => exact other _ nofun
termination_by v
decreasing_by exact sizeOf_item_lt ‹_›

variable {a b c : Value}

theorem sameItems_iff {as bs : List Value} :
    sameItems as bs = true ↔ List.Forall₂ (fun a b => a.same b = true) as bs := by
  induction as generalizing bs with
  | nil => cases bs <;> simp [sameItems]
  | cons a as ih => cases bs <;> simp [sameItems, ih]

theorem same_iff_identity? (h : ∀ as bs, a = list as → b = list bs → False) :
    a.same b = true ↔ ∃ p, a.identity? = some p ∧ b.identity? = some p := by
  rw [same]
  · cases a.identity? with
    | none => simp
    | some p =>
      cases b.identity? with
      | none => simp
      | some q =>
        simp only [beq_iff_eq, Option.some.injEq, exists_eq_left']
        exact eq_comm
  · exact h

theorem same_iff_of_ne_list (h : ∀ items, a ≠ list items) :
    a.same b = true ↔ ∃ p, a.identity? = some p ∧ b.identity? = some p :=
  same_iff_identity? fun as _ ha _ => h as ha

theorem same_of_identity? {p : Identity} (ha : a.identity? = some p) (hb : b.identity? = some p) :
    a.same b = true := by
  refine (same_iff_of_ne_list ?_).2 ⟨p, ha, hb⟩
  rintro items rfl
  cases ha

theorem list_same_iff {as : List Value} : (list as).same b = true ↔
    ∃ bs, b = list bs ∧ List.Forall₂ (fun a b => a.same b = true) as bs := by
  by_cases hlist : ∃ bs, b = list bs
  · obtain ⟨bs, rfl⟩ := hlist
    simp [same, sameItems_iff]
  · rw [same_iff_identity? fun _ bs _ hb => hlist ⟨bs, hb⟩]
    refine iff_of_false ?_ fun h => hlist (h.imp fun _ => And.left)
    rintro ⟨p, hp, -⟩
    cases hp

theorem same_symm (h : a.same b = true) : b.same a = true := by
  induction a using items_induction generalizing b with
  | list as ih =>
    obtain ⟨bs, rfl, hitems⟩ := list_same_iff.1 h
    refine list_same_iff.2 ⟨as, rfl, ?_⟩
    clear h
    induction hitems with
    | nil => exact .nil
    | cons hsame _ hrest =>
      obtain ⟨hfirst, ih⟩ := List.forall_mem_cons.1 ih
      exact .cons (hfirst hsame) (hrest ih)
  | other a hne =>
    obtain ⟨p, ha, hb⟩ := (same_iff_of_ne_list hne).1 h
    exact same_of_identity? hb ha

theorem same_trans (h : a.same b = true) (h' : b.same c = true) : a.same c = true := by
  induction a using items_induction generalizing b c with
  | list as ih =>
    obtain ⟨bs, rfl, hitems⟩ := list_same_iff.1 h
    obtain ⟨cs, rfl, hitems'⟩ := list_same_iff.1 h'
    refine list_same_iff.2 ⟨cs, rfl, ?_⟩
    clear h h'
    induction hitems generalizing cs with
    | nil => exact hitems'
    | cons hsame _ hrest =>
      obtain ⟨hfirst, ih⟩ := List.forall_mem_cons.1 ih
      cases hitems' with
      | cons hsame' hitems' => exact .cons (hfirst hsame hsame') (hrest ih _ hitems')
  | other a hne =>
    obtain ⟨p, ha, hb⟩ := (same_iff_of_ne_list hne).1 h
    have hne' : ∀ items, b ≠ list items := by
      rintro items rfl
      cases hb
    obtain ⟨q, hb', hc⟩ := (same_iff_of_ne_list hne').1 h'
    exact same_of_identity? ha (Option.some.inj (hb.symm.trans hb') ▸ hc)

/-- Whether a value is the same as a third does not depend on which of two same values is asked. -/
theorem same_congr_left (h : a.same b = true) (c : Value) : a.same c = b.same c :=
  Bool.eq_iff_iff.2 ⟨same_trans (same_symm h), same_trans h⟩

theorem same_comm (a b : Value) : a.same b = b.same a :=
  Bool.eq_iff_iff.2 ⟨same_symm, same_symm⟩

end Value
end SnapLisp
