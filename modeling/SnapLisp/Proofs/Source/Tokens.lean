import SnapLisp.Proofs.Source.Name

/-!
# Tokens in a row

`Begins cs ts left`: the text `cs` begins with the tokens `ts`, all of them legal, and `left` is the
text behind them. Where the tokens of a text end, or a reading is no legal token, they cannot go on, so
any two rows of tokens of a text are one the beginning of the other (`exists_append_of_ended`).

`Token.depth` counts the lists that are open behind tokens; they are unfinished as long as one is.
-/

namespace SnapLisp
namespace Reading

/-- The fault in a reading that is no legal token. -/
def fault? : Reading → Option ReadFault
  | token (.illegal c) => some (.illegalCharacter c)
  | token _ => none
  | malformed numeral => some (.malformedNumeral numeral)

/-- The text begins with legal tokens, and this is the text behind them. -/
inductive Begins : List Char → List Token → List Char → Prop
  | nil (cs : List Char) : Begins cs [] cs
  | cons {cs rest left : List Char} {t : Token} {ts : List Token}
    (next : next? cs = some (.token t, rest)) (legal : (token t).fault? = none)
    (tail : Begins rest ts left) : Begins cs (t :: ts) left

namespace Begins
variable {cs mid rest left : List Char} {t : Token} {ts ts' : List Token}

theorem append (h : Begins cs ts mid) (h' : Begins mid ts' left) : Begins cs (ts ++ ts') left := by
  induction h with
  | nil cs => exact h'
  | cons next legal _ ih => exact .cons next legal (ih h')

theorem singleton (next : next? cs = some (.token t, rest)) (legal : (token t).fault? = none) :
    Begins cs [t] rest :=
  .cons next legal (.nil rest)

theorem split (h : Begins cs (ts ++ ts') left) :
    ∃ mid, Begins cs ts mid ∧ Begins mid ts' left := by
  induction ts generalizing cs with
  | nil => exact ⟨cs, .nil cs, h⟩
  | cons t ts ih =>
    cases h with
    | cons next legal tail =>
      obtain ⟨mid, hmid, hleft⟩ := ih tail
      exact ⟨mid, .cons next legal hmid, hleft⟩

theorem eq_of_next? (h : Begins cs (t :: ts) left) {r : Reading} (hnext : next? cs = some (r, rest)) :
    r = .token t ∧ r.fault? = none ∧ Begins rest ts left := by
  cases h with
  | cons next legal tail =>
    rw [next] at hnext
    cases hnext
    exact ⟨rfl, legal, tail⟩

/-- All other tokens that the text begins with are the first of those up to its end. -/
theorem exists_append_of_ended (h : Begins cs ts left) (hended : next? left = none)
    (h' : Begins cs ts' rest) : ∃ us, ts = ts' ++ us ∧ Begins rest us left := by
  induction h' generalizing ts with
  | nil cs => exact ⟨ts, rfl, h⟩
  | @cons cs rest left' t' ts' next' legal' tail' ih =>
    cases h with
    | nil => rw [hended] at next'; cases next'
    | cons next legal tail =>
      rw [next] at next'
      cases next'
      obtain ⟨us, rfl, hus⟩ := ih tail
      exact ⟨us, rfl, hus⟩

theorem eq_nil_of_ended (h : Begins cs ts left) (hended : next? cs = none) : ts = [] ∧ left = cs := by
  cases h with
  | nil => exact ⟨rfl, rfl⟩
  | cons next => rw [hended] at next; cases next

theorem eq_of_ended (h : Begins cs ts left) (hended : next? left = none) (h' : Begins cs ts' rest)
    (hended' : next? rest = none) : ts = ts' ∧ left = rest := by
  obtain ⟨us, rfl, hus⟩ := h.exists_append_of_ended hended h'
  obtain ⟨rfl, rfl⟩ := hus.eq_nil_of_ended hended'
  exact ⟨List.append_nil ts', rfl⟩

/-- A text whose tokens go on to its end has no other readings. -/
theorem fault?_eq_none_of_ended {r : Reading} {after : List Char} (h : Begins cs ts left)
    (hended : next? left = none) (h' : Begins cs ts' rest) (hnext : next? rest = some (r, after)) :
    r.fault? = none := by
  obtain ⟨us, rfl, hus⟩ := h.exists_append_of_ended hended h'
  cases us with
  | nil => cases hus; rw [hended] at hnext; cases hnext
  | cons u us => exact (hus.eq_of_next? hnext).2.1

end Begins
end Reading

namespace Token
variable {d : Nat} {t : Token} {ts ts' : List Token}

/-- How many lists are open behind a token. A closing parenthesis that closes none changes nothing. -/
def depthAfter (d : Nat) : Token → Nat
  | lparen => d + 1
  | rparen => d - 1
  | _ => d

def depth (d : Nat) (ts : List Token) : Nat :=
  ts.foldl depthAfter d

theorem depth_cons : depth d (t :: ts) = depth (depthAfter d t) ts := rfl

theorem depth_append : depth d (ts ++ ts') = depth (depth d ts) ts' :=
  List.foldl_append ..

/-- Behind each of the tokens some list is open. -/
def IsUnfinished (d : Nat) (ts : List Token) : Prop :=
  ∀ ts', ts' <+: ts → ts' ≠ [] → 0 < depth d ts'

theorem isUnfinished_nil (d : Nat) : IsUnfinished d [] :=
  fun _ hsub hne => absurd (List.prefix_nil.1 hsub) hne

theorem isUnfinished_cons_iff :
    IsUnfinished d (t :: ts) ↔ 0 < depthAfter d t ∧ IsUnfinished (depthAfter d t) ts := by
  constructor
  · intro h
    refine ⟨h [t] ((List.prefix_cons_inj t).2 List.nil_prefix) (by simp), fun ts' hsub _ => ?_⟩
    exact h (t :: ts') ((List.prefix_cons_inj t).2 hsub) (by simp)
  · rintro ⟨hhead, htail⟩ ts' hsub hne
    rcases List.prefix_cons_iff.1 hsub with rfl | ⟨us, rfl, hus⟩
    · exact absurd rfl hne
    cases us with
    | nil => exact hhead
    | cons u us => exact htail _ hus (by simp)

end Token
end SnapLisp
