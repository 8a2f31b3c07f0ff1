import SnapLisp.Number.Layout
import SnapLisp.Number.Numeral
import SnapLisp.Proofs.Number.Decimal

/-!
# Written numbers read back

Without an exponent a decimal is written as digits, with a point in front of the fraction if there
is one (`pointed`). That text denotes the decimal again up to zeros that moved into the coefficient
(`IsPlaced.eq_shift`), and those do not change its rank. Main statement: a finite number in the plain
layout reads as itself, the sign of zero included (`read?_write`).
-/

namespace SnapLisp

namespace Numeral

/-- Digits with a point in front of the fraction, or without a point where there is none. -/
def pointed (whole fraction : List Char) : List Char :=
  whole ++ if fraction = [] then [] else '.' :: fraction

variable {sign whole rest fraction : List Char}

theorem isDigit_point : isDigit '.' = false := by decide

/-- Behind the digits in front of it, a point may stand with a fraction, which may be empty. -/
theorem decimal_append (hw : ∀ c ∈ whole, isDigit c = true) (hrest : ∀ c ∈ rest.head?, c = '.') :
    decimal (whole ++ rest) = ⟨ofDigits (whole ++ rest.drop 1), -(rest.drop 1).length⟩ := by
  simp only [decimal, List.takeWhile_append_of_pos hw, List.dropWhile_append_of_pos hw]
  cases rest with
  | nil => simp
  | cons c fraction =>
    obtain rfl := hrest c rfl
    simp [isDigit_point]

theorem exists_pointed (whole fraction : List Char) : ∃ rest,
    pointed whole fraction = whole ++ rest ∧ (∀ c ∈ rest.head?, c = '.') ∧ rest.drop 1 = fraction := by
  unfold pointed
  split
  · rename_i hnil
    exact ⟨[], rfl, by simp, hnil.symm⟩
  · exact ⟨'.' :: fraction, rfl, by simp, rfl⟩

theorem count_point_of_digits {cs : List Char} (h : ∀ c ∈ cs, isDigit c = true) :
    cs.count '.' = 0 :=
  List.count_eq_zero.2 fun hmem => by simpa [isDigit_point] using h _ hmem

theorem count_point_append (hw : ∀ c ∈ whole, isDigit c = true) (hf : ∀ c ∈ rest.drop 1, isDigit c = true) :
    (whole ++ rest).count '.' ≤ 1 := by
  cases rest with
  | nil => simp [count_point_of_digits hw]
  | cons c fraction =>
    have hfraction : fraction.count '.' = 0 := count_point_of_digits hf
    rw [List.count_append, count_point_of_digits hw, List.count_cons, hfraction]
    split <;> omega

theorem continues_of_mem_pointed (hw : ∀ c ∈ whole, isDigit c = true)
    (hf : ∀ c ∈ fraction, isDigit c = true) : ∀ c ∈ pointed whole fraction, continues c = true := by
  intro c hc
  have hcase : c ∈ whole ∨ c = '.' ∨ c ∈ fraction := by
    unfold pointed at hc
    split at hc
    · exact .inl (by simpa using hc)
    · simpa using hc
  rcases hcase with hc | rfl | hc
  · simp [continues, hw c hc]
  · rfl
  · simp [continues, hf c hc]

theorem not_isSign_of_isDigit {c : Char} (h : isDigit c = true) : isSign c = false := by
  cases hs : isSign c with
  | false => rfl
  | true =>
    rcases (by simpa [isSign] using hs : c = '+' ∨ c = '-') with rfl | rfl <;> revert h <;> decide

def IsSignText (sign : List Char) : Prop :=
  sign = [] ∨ sign = ['+'] ∨ sign = ['-']

theorem unsigned_append (hsign : IsSignText sign) {c : Char} (hc : isDigit c = true) (cs : List Char) :
    unsigned (sign ++ c :: cs) = (decide (sign = ['-']), c :: cs) := by
  rcases hsign with rfl | rfl | rfl
  · simp [unsigned, not_isSign_of_isDigit hc]
  · rfl
  · rfl

theorem read?_append (hsign : IsSignText sign) (hne : whole ≠ []) (hw : ∀ c ∈ whole, isDigit c = true)
    (hrest : ∀ c ∈ rest.head?, c = '.') (hf : ∀ c ∈ rest.drop 1, isDigit c = true) :
    read? (sign ++ (whole ++ rest)) =
      some (.ofDecimal (sign = ['-']) ⟨ofDigits (whole ++ rest.drop 1), -(rest.drop 1).length⟩) := by
  obtain ⟨c, cs, hcs, hc⟩ : ∃ c cs, whole ++ rest = c :: cs ∧ isDigit c = true := by
    obtain ⟨c, cs, rfl⟩ := List.exists_cons_of_ne_nil hne
    exact ⟨c, _, rfl, hw c List.mem_cons_self⟩
  have hun := unsigned_append hsign hc cs
  rw [← hcs] at hun
  have hcount := count_point_append hw hf
  simp only [read?, hun, decimal_append hw hrest]
  rw [if_neg (by omega)]

theorem isSignText_signText (negative : Bool) :
    IsSignText (signText negative) ∧ decide (signText negative = ['-']) = negative := by
  cases negative with
  | false => exact ⟨.inl rfl, rfl⟩
  | true => exact ⟨.inr (.inr rfl), rfl⟩

theorem read?_pointed (negative : Bool) (hne : whole ≠ []) (hw : ∀ c ∈ whole, isDigit c = true)
    (hf : ∀ c ∈ fraction, isDigit c = true) :
    read? (signText negative ++ pointed whole fraction) =
      some (.ofDecimal negative ⟨ofDigits (whole ++ fraction), -fraction.length⟩) := by
  obtain ⟨hsign, hnegative⟩ := isSignText_signText negative
  obtain ⟨rest, hrest, hpoint, rfl⟩ := exists_pointed whole fraction
  rw [hrest, read?_append hsign hne hw hpoint hf, hnegative]

end Numeral

namespace Decimal
open Numeral

/-- The digits of a decimal are at their places: up to the point, zeros stand in front of them or behind
them, in front only if the whole part is a zero, and behind only if there is no fraction. -/
structure IsPlaced (d : Decimal) (whole fraction : List Char) (front back : Nat) : Prop where
  ne_nil : whole ≠ []
  eq_digits : whole ++ fraction =
    List.replicate front '0' ++ digits d.coefficient ++ List.replicate back '0'
  exponent : d.exponent + fraction.length = back
  front : front = 0 ∨ whole = ['0']
  back : back = 0 ∨ fraction = []

/-- How a decimal is written. -/
theorem exists_isPlaced (d : Decimal) : ∃ whole fraction front back,
    d.positional [] = pointed whole fraction ∧ d.IsPlaced whole fraction front back := by
  obtain ⟨n, e⟩ := d
  have hpos : 0 < (digits n).length := List.length_pos_iff.2 (digits_ne_nil n)
  rcases lt_or_ge e 0 with he | he
  · obtain ⟨places, rfl⟩ : ∃ places : Nat, e = -places := ⟨(-e).toNat, by omega⟩
    have hneg : ¬ 0 ≤ -(places : Int) := by omega
    rcases Nat.lt_or_ge places (digits n).length with hlt | hge
    · have hne : (digits n).drop ((digits n).length - places) ≠ [] := by
        rw [← List.length_pos_iff, List.length_drop]; omega
      refine ⟨(digits n).take ((digits n).length - places), (digits n).drop ((digits n).length - places),
        0, 0, ?_, ?_, by simp, ?_, .inl rfl, .inl rfl⟩
      · simp only [positional, pointed, hneg, hlt, if_true, if_false, neg_neg, Int.toNat_natCast]
        rw [if_neg hne]
      · rw [← List.length_pos_iff, List.length_take]; omega
      · rw [List.length_drop, Nat.sub_sub_self (Nat.le_of_lt hlt)]
        exact neg_add_cancel _
    · refine ⟨['0'], List.replicate (places - (digits n).length) '0' ++ digits n,
        places - (digits n).length + 1, 0, ?_, by simp, by simp [List.replicate_succ], ?_, .inr rfl,
        .inl rfl⟩
      · simp only [positional, pointed, hneg, Nat.not_lt.2 hge, if_false, neg_neg, Int.toNat_natCast]
        simp [digits_ne_nil]
      · rw [List.length_append, List.length_replicate, Nat.sub_add_cancel hge]
        exact neg_add_cancel _
  · refine ⟨digits n ++ List.replicate e.toNat '0', [], 0, e.toNat, ?_, ?_, by simp, ?_, .inl rfl, .inr rfl⟩
    · simp [positional, pointed, he]
    · simp [digits_ne_nil]
    · simp [he]

namespace IsPlaced
variable {d : Decimal} {whole fraction : List Char} {front back : Nat}

theorem forall_isDigit (h : d.IsPlaced whole fraction front back) :
    ∀ c ∈ whole ++ fraction, isDigit c = true := by
  rw [h.eq_digits]
  intro c hc
  simp only [List.mem_append, List.mem_replicate] at hc
  rcases hc with (⟨-, rfl⟩ | hc) | ⟨-, rfl⟩
  · rfl
  · exact isDigit_of_mem_digits _ c hc
  · rfl

/-- The digits denote the decimal up to zeros that have moved into the coefficient. -/
theorem eq_shift (h : d.IsPlaced whole fraction front back) :
    (⟨ofDigits (whole ++ fraction), -fraction.length⟩ : Decimal) =
      ⟨d.coefficient * 10 ^ back, d.exponent - back⟩ := by
  rw [h.eq_digits, ofDigits_append, ofDigits_append, ofDigits_zeros, ofDigits_zeros, ofDigits_digits,
    List.length_replicate, ← h.exponent]
  simp

theorem rank_eq (h : d.IsPlaced whole fraction front back) :
    rank ⟨ofDigits (whole ++ fraction), -fraction.length⟩ = d.rank := by
  rw [h.eq_shift, rank_shift, sub_add_cancel]

end IsPlaced
end Decimal

/-- A finite number in the plain layout is written as its shortest decimal. -/
theorem write_signed {negative : Bool} {rank : Nat} {hle : rank ≤ infinityRank}
    (hx : (Binary64.signed negative rank hle).IsFinite) : Layout.plain.write (.signed negative rank hle) =
      signText negative ++ (Decimal.shortestOfRank rank).positional [] := by
  have hfinite : rank ≠ infinityRank := Nat.ne_of_lt hx
  simp only [Layout.write, Layout.magnitude, Layout.plain, hfinite, if_false, Bool.false_eq_true]

/-- How a finite number is written in the plain layout, and that the digits have its rank. -/
theorem exists_write {negative : Bool} {rank : Nat} {hle : rank ≤ infinityRank}
    (hx : (Binary64.signed negative rank hle).IsFinite) : ∃ whole fraction,
    Layout.plain.write (.signed negative rank hle) =
      signText negative ++ Numeral.pointed whole fraction ∧ whole ≠ [] ∧
    (∀ c ∈ whole, isDigit c = true) ∧ (∀ c ∈ fraction, isDigit c = true) ∧
    Decimal.rank ⟨ofDigits (whole ++ fraction), -fraction.length⟩ = rank := by
  obtain ⟨whole, fraction, front, back, htext, hplaced⟩ := (Decimal.shortestOfRank rank).exists_isPlaced
  obtain ⟨hwhole, hfraction⟩ := List.forall_mem_append.1 hplaced.forall_isDigit
  refine ⟨whole, fraction, by rw [write_signed hx, htext], hplaced.ne_nil, hwhole, hfraction, ?_⟩
  rw [hplaced.rank_eq, Decimal.rank_shortestOfRank hle]

/-- A finite number in the plain layout reads as itself. -/
theorem read?_write {x : Binary64} (hx : x.IsFinite) :
    Numeral.read? (Layout.plain.write x) = some x := by
  cases x with
  | nan => exact hx.elim
  | signed negative rank hle =>
    obtain ⟨whole, fraction, htext, hne, hwhole, hfraction, hrank⟩ := exists_write hx
    rw [htext, Numeral.read?_pointed negative hne hwhole hfraction]
    simp only [Binary64.ofDecimal, hrank]

end SnapLisp
