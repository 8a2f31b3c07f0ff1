import Mathlib.Order.WithBot
import SnapLisp.Proofs.Number.Integer
import SnapLisp.Proofs.Value.Identity

/-!
# Equality of values

Numbers, integers and flags are the same if they stand for the same amount, a rational number or an
infinity (`Value.amount?`), with no rounding on the way (`same_iff_of_amount?`). Lists are the same item
by item, and all other values only if they are equal (`IsComparable.same_iff_eq`). Where no NaN and no
function is in the values, this is an equivalence (`same_equivalence`).
-/

namespace SnapLisp

/-- The rational numbers with both infinities. -/
abbrev Extended := WithBot (WithTop ℚ)

namespace Extended

def ofRat (q : ℚ) : Extended :=
  ((q : WithTop ℚ) : WithBot (WithTop ℚ))

theorem ofRat_inj {p q : ℚ} : ofRat p = ofRat q ↔ p = q := by
  rw [ofRat, ofRat, WithBot.coe_inj, WithTop.coe_inj]

end Extended

/-- The exact amount of a number; NaN has none. -/
def Binary64.amount? : Binary64 → Option Extended
  | nan => none
  | signed negative rank hle =>
    if rank = infinityRank then some (if negative then ⊥ else ⊤)
    else some (.ofRat (signed negative rank hle).value)

namespace Value

/-- The exact amount that a number, an integer or a flag stands for. -/
def amount? : Value → Option Extended
  | number x => x.amount?
  | integer n => some (.ofRat n)
  | flag b => some (.ofRat (if b then 1 else 0))
  | text _ | symbol _ | list _ | nil | truth | builtin _ | lambda _ _ | absent => none

/-- A value without NaN and functions in it. -/
inductive IsComparable : Value → Prop
  | number {x : Binary64} (not_nan : x ≠ .nan) : IsComparable (number x)
  | integer (n : Int) : IsComparable (integer n)
  | flag (b : Bool) : IsComparable (flag b)
  | text (s : String) : IsComparable (text s)
  | symbol (name : String) : IsComparable (symbol name)
  | nil : IsComparable nil
  | truth : IsComparable truth
  | absent : IsComparable absent
  | list {items : List Value} (each : ∀ v ∈ items, IsComparable v) : IsComparable (list items)

end Value

/-- The one value with an identity that is no quantity. -/
def Identity.value? : Identity → Option Value
  | quantity _ => none
  | text s => some (.text s)
  | symbol name => some (.symbol name)
  | nil => some .nil
  | truth => some .truth
  | absent => some .absent

/-! ### Amounts -/

def Quantity.amount : Quantity → Extended
  | finite steps => .ofRat (steps / stepsPerOne)
  | infinite negative => if negative then ⊥ else ⊤

theorem Quantity.amount_injective : Function.Injective amount := by
  intro p q h
  cases p with
  | finite m =>
    cases q with
    | finite n =>
      have hquotient : (m : ℚ) / stepsPerOne = n / stepsPerOne := Extended.ofRat_inj.1 h
      rw [div_left_inj' stepsPerOne_ne_zero, Int.cast_inj] at hquotient
      rw [hquotient]
    | infinite negative => cases negative <;> cases h
  | infinite negative =>
    cases q with
    | finite n => cases negative <;> cases h
    | infinite negative' =>
      cases negative <;> cases negative' <;> first | rfl | cases h

theorem Binary64.amount?_eq (x : Binary64) : x.amount? = x.quantity?.map Quantity.amount := by
  cases x with
  | nan => rfl
  | signed negative rank hle =>
    rw [amount?, quantity?]
    split
    · rfl
    · refine congrArg (fun q => some (Extended.ofRat q)) ?_
      cases negative with
      | false =>
        show magnitude rank = ((units rank : ℤ) : ℚ) / stepsPerOne
        rw [magnitude, Int.cast_natCast]
      | true =>
        show -magnitude rank = ((-(units rank : ℤ) : ℤ) : ℚ) / stepsPerOne
        rw [magnitude, Int.cast_neg, Int.cast_natCast, neg_div]

namespace Value
variable {a b : Value} {p : Extended}

/-- A value that stands for no amount is the only one with its identity. -/
theorem value?_of_identity? {i : Identity} (h : a.identity? = some i) :
    (∃ q, i = .quantity q) ∨ i.value? = some a := by
  cases a with
  | number x =>
    obtain ⟨q, -, hq⟩ := Option.map_eq_some_iff.1 h
    exact .inl ⟨q, hq.symm⟩
  | integer | flag =>
    cases h
    exact .inl ⟨_, rfl⟩
  | text | symbol | nil | truth | absent =>
    cases h
    exact .inr rfl
  | list | builtin | lambda => cases h

theorem amount?_iff_of_quantity {q : Quantity} (hidentity : a.identity? = some (.quantity q))
    (hamount : a.amount? = some q.amount) :
    a.amount? = some p ↔ ∃ q, a.identity? = some (.quantity q) ∧ q.amount = p := by
  rw [hidentity, hamount]
  simp only [Option.some.injEq, Identity.quantity.injEq, exists_eq_left']

theorem amount?_eq_some_iff :
    a.amount? = some p ↔ ∃ q, a.identity? = some (.quantity q) ∧ q.amount = p := by
  cases a with
  | number x =>
    have hamount : (number x).amount? = x.quantity?.map Quantity.amount := x.amount?_eq
    cases hx : x.quantity? with
    | none =>
      rw [hamount, identity?, hx]
      exact iff_of_false (fun h => by cases h) fun ⟨q, hq, _⟩ => by cases hq
    | some q =>
      rw [hx] at hamount
      exact amount?_iff_of_quantity (by rw [identity?, hx]; rfl) hamount
  | integer n =>
    have hvalue : (n : ℚ) = ((n * stepsPerOne : ℤ) : ℚ) / stepsPerOne := by
      rw [Int.cast_mul, Int.cast_natCast, mul_div_cancel_right₀ _ stepsPerOne_ne_zero]
    exact amount?_iff_of_quantity rfl (congrArg (fun q => some (Extended.ofRat q)) hvalue)
  | flag b =>
    have hvalue : (if b then 1 else 0 : ℚ) = ((if b then stepsPerOne else 0 : ℤ) : ℚ) / stepsPerOne := by
      cases b with
      | false =>
        show (0 : ℚ) = ((0 : ℤ) : ℚ) / stepsPerOne
        rw [Int.cast_zero, zero_div]
      | true =>
        show (1 : ℚ) = ((stepsPerOne : ℤ) : ℚ) / stepsPerOne
        rw [Int.cast_natCast, div_self stepsPerOne_ne_zero]
    exact amount?_iff_of_quantity rfl (congrArg (fun q => some (Extended.ofRat q)) hvalue)
  | text | symbol | list | nil | truth | builtin | lambda | absent =>
    exact iff_of_false (fun h => by cases h) fun ⟨q, hq, _⟩ => by cases hq

/-- What stands for an amount is the same as all that stands for it, and as nothing else. -/
theorem same_iff_of_amount? (h : a.amount? = some p) : a.same b = true ↔ b.amount? = some p := by
  obtain ⟨q, ha, hq⟩ := amount?_eq_some_iff.1 h
  have hne : ∀ items, a ≠ list items := by
    rintro items rfl
    cases ha
  rw [same_iff_of_ne_list hne, amount?_eq_some_iff]
  constructor
  · rintro ⟨i, hi, hb⟩
    rw [ha] at hi
    cases hi
    exact ⟨q, hb, hq⟩
  · rintro ⟨q', hb, hq'⟩
    obtain rfl : q = q' := Quantity.amount_injective (hq.trans hq'.symm)
    exact ⟨_, ha, hb⟩

namespace IsComparable

theorem exists_identity (h : a.IsComparable) (hne : ∀ items, a ≠ Value.list items) :
    ∃ i, a.identity? = some i := by
  cases h with
  | @number x not_nan =>
    cases x with
    | nan => exact absurd rfl not_nan
    | signed negative rank hle =>
      rw [identity?, Binary64.quantity?]
      split <;> exact ⟨_, rfl⟩
  | list => exact absurd rfl (hne _)
  | integer | flag | text | symbol | nil | truth | absent => exact ⟨_, rfl⟩

theorem same_self (h : a.IsComparable) : a.same a = true := by
  induction a using items_induction with
  | list items ih =>
    cases h with
    | list each => exact list_same_iff.2 ⟨items, rfl, List.forall₂_same.2 fun v hv => ih v hv (each v hv)⟩
  | other a hne =>
    obtain ⟨i, hi⟩ := h.exists_identity hne
    exact same_of_identity? hi hi

theorem same_iff_eq (h : a.IsComparable) (hamount : a.amount? = none)
    (hne : ∀ items, a ≠ Value.list items) : a.same b = true ↔ a = b := by
  refine ⟨fun hsame => ?_, fun heq => heq ▸ h.same_self⟩
  obtain ⟨i, ha, hb⟩ := (same_iff_of_ne_list hne).1 hsame
  have hquantity : ∀ q, i ≠ .quantity q := by
    rintro q rfl
    rw [amount?_eq_some_iff.2 ⟨q, ha, rfl⟩] at hamount
    cases hamount
  have ha' := (value?_of_identity? ha).resolve_left fun ⟨q, hq⟩ => hquantity q hq
  have hb' := (value?_of_identity? hb).resolve_left fun ⟨q, hq⟩ => hquantity q hq
  exact Option.some.inj (ha'.symm.trans hb')

end IsComparable

/-- Values without NaN and functions are divided into classes of same ones. What stands for an amount is
in one class with all that stands for the same amount, lists are with the lists of same items, and each
other value is alone in its class. -/
theorem same_equivalence :
    Equivalence (fun a b : {v : Value // v.IsComparable} => a.1.same b.1 = true) ∧
    (∀ (a b : Value) (p : Extended), a.amount? = some p →
      (a.same b = true ↔ b.amount? = some p)) ∧
    (∀ (items : List Value) (b : Value), (list items).same b = true ↔
      ∃ items', b = list items' ∧ List.Forall₂ (fun a b => a.same b = true) items items') ∧
    ∀ a b : Value, a.IsComparable → a.amount? = none → (∀ items, a ≠ list items) →
      (a.same b = true ↔ a = b) := by
  refine ⟨⟨fun a => a.2.same_self, same_symm, same_trans⟩, ?number, ?list, ?other⟩
  case number => exact fun a b p => same_iff_of_amount?
  case list => exact fun items b => list_same_iff
  case other => exact fun a b h hamount hne => h.same_iff_eq hamount hne

/-- The integer `2 ^ 53 + 1` is not the same as the number that it rounds to, nor as an infinity. Minus
zero and a flag are the same, a text and the symbol of that name are not. -/
theorem same_equivalence_rounded :
    (integer (2 ^ 53 + 1)).same (number (.ofInt (2 ^ 53 + 1))) = false ∧
    (integer (2 ^ 53 + 1)).same (number (.signed false infinityRank le_rfl)) = false ∧
    (number (.signed true 0 (Nat.zero_le _))).same (flag false) = true ∧
    (text "A").same (symbol "A") = false := by
  have hrounded : Binary64.ofInt (2 ^ 53 + 1) =
      .signed false (1075 * binadeSize + binadeSize) (by decide) := by decide +kernel
  have hmagnitude : magnitude (1075 * binadeSize + binadeSize) = 2 ^ 53 := by
    rw [magnitude_of_binade 1 le_rfl (Nat.le_mul_of_pos_left _ Nat.two_pos), binadeSize_eq]
    norm_num
  have hrounds : (number (.ofInt (2 ^ 53 + 1))).amount? = some (.ofRat (2 ^ 53)) := by
    rw [hrounded, amount?, Binary64.amount?, if_neg (by decide), Binary64.value, hmagnitude]
    rfl
  have hzero : (number (.signed true 0 (Nat.zero_le _))).amount? = some (.ofRat 0) := by
    rw [amount?, Binary64.amount?, if_neg (by decide), Binary64.value, magnitude_zero, neg_zero]
    rfl
  obtain ⟨-, hamount, -, hother⟩ := same_equivalence
  refine ⟨?rounded, ?infinite, (hamount _ _ _ hzero).2 rfl, ?text⟩
  case rounded =>
    rw [Bool.eq_false_iff, ne_eq, hamount _ _ _ rfl, hrounds, Option.some_inj, Extended.ofRat_inj]
    norm_num
  case infinite =>
    rw [Bool.eq_false_iff, ne_eq, hamount _ _ _ rfl]
    intro h
    cases h
  case text =>
    have hne : ∀ items, text "A" ≠ list items := fun items h => by cases h
    rw [Bool.eq_false_iff, ne_eq, hother _ _ (.text "A") rfl hne]
    intro h
    cases h

end Value
end SnapLisp
