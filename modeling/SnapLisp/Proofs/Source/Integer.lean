import SnapLisp.Proofs.Evaluation.Keeps
import SnapLisp.Proofs.Evaluation.Operator
import SnapLisp.Proofs.Number.Integer
import SnapLisp.Proofs.Source.Span

/-!
# Integers in a source

An integer can come from a host, which converts it, or from a source, which spells its decimal digits.
Both give the same number, whatever its size, but an integer beyond the range is read as an infinity and
cannot be converted (`Reading.all_integerText`).
-/

namespace SnapLisp

theorem isNumeral_integerText (n : ℤ) : IsNumeral (Value.integerText n) := by
  obtain ⟨d, ds, hdigits⟩ := List.exists_cons_of_ne_nil (digits_ne_nil n.natAbs)
  have hall := isDigit_of_mem_digits n.natAbs
  rw [hdigits] at hall
  obtain ⟨hd, hds⟩ := List.forall_mem_cons.1 hall
  refine ⟨signText (n < 0), d, ds, ?_, (Numeral.isSignText_signText _).1, hd, fun c hc => .inl (hds c hc)⟩
  rw [Value.integerText, hdigits]

/-- The digits of an integer denote the number that it is converted to. -/
theorem read?_integerText (n : ℤ) : Numeral.read? (Value.integerText n) = some (.ofInt n) := by
  have hread := Numeral.read?_pointed (n < 0) (digits_ne_nil n.natAbs) (isDigit_of_mem_digits n.natAbs)
    (List.forall_mem_nil fun c => isDigit c = true)
  have hrank : Decimal.rank ⟨n.natAbs, 0⟩ = nearestRank n.natAbs 1 := by
    simp [Decimal.rank]
  simpa [Numeral.pointed, Value.integerText, Binary64.ofDecimal, Binary64.ofInt, Binary64.ofQuotient,
    hrank] using hread

namespace Reading

/-- The text of an integer is one number token, and its number is what the integer rounds to. Within the
range, an addition of the integer alone gives a number with the same bits, and the integer is printed like
that number. Beyond the range, the token's number is the infinity of the integer's sign, while the addition
and the printing are refused. -/
theorem all_integerText (n : ℤ) : ∃ x : Binary64,
    all (Value.integerText n) = [(.token (.number x), [])] ∧ Binary64.RoundsTo n x ∧
    (|(n : ℚ)| < rangeEnd → ∃ y, Operator.add.run [.integer n] = .ok (.number y) ∧
      x.toBits = y.toBits ∧ (Value.integer n).printed? = (Value.number y).printed?) ∧
    (rangeEnd ≤ |(n : ℚ)| → x = .signed (n < 0) infinityRank le_rfl ∧
      ∃ fault : Fault, fault.kind = .overflow ∧ Operator.add.run [.integer n] = .error fault ∧
        EvalM.printed (.integer n) = throw fault) := by
  have hspan : OfSpan [] (Value.integerText n) (.token (.number (.ofInt n))) :=
    .number (isNumeral_integerText n) (by simp) (read?_integerText n)
  have hnext := hspan.next?
  rw [List.append_nil] at hnext
  refine ⟨.ofInt n, ?_, Binary64.roundsTo_ofInt n, fun hlt => ?_, fun hle => ?_⟩
  · rw [all_of_next? hnext, all_nil]
  · refine ⟨.ofInt n, ?_, rfl, ?_⟩
    · rw [Operator.run_integer, Binary64.ofInt?_of_lt hlt]
      rfl
    · rw [Value.printed?, Value.printed?, Value.print?, Value.print?, Binary64.ofInt?_of_lt hlt]
      rfl
  · refine ⟨Binary64.ofInt_of_le hle, .integerTooLarge, rfl, ?_, ?_⟩
    · rw [Operator.run_integer, Binary64.ofInt?_of_le hle]
      rfl
    · have hprinted : (Value.integer n).printed? = none := by
        rw [Value.printed?, Value.print?_integer_of_le hle]
        rfl
      rw [EvalM.printed, hprinted]

/-- The last integer of the range and the first one beyond it. -/
theorem all_integerText_rangeEnd :
    let last : ℤ := 2 ^ 1024 - 2 ^ 970 - 1
    (∃ x y : Binary64, all (Value.integerText last) = [(.token (.number x), [])] ∧
      Operator.add.run [.integer last] = .ok (.number y) ∧ x.toBits = y.toBits) ∧
    ∃ (x : Binary64) (fault : Fault), all (Value.integerText (last + 1)) = [(.token (.number x), [])] ∧
      x.IsInfinite ∧ fault.kind = .overflow ∧ Operator.add.run [.integer (last + 1)] = .error fault := by
  intro last
  have hcast : (last : ℚ) = rangeEnd - 1 := by
    simp only [last, rangeEnd, Int.cast_sub, Int.cast_pow, Int.cast_ofNat, Int.cast_one]
  have hone : 1 ≤ rangeEnd := by
    have hpow : (2 : ℚ) ^ 1024 = 2 ^ 54 * 2 ^ 970 := by rw [← pow_add]
    have hlow : (1 : ℚ) ≤ 2 ^ 970 := one_le_pow₀ one_le_two
    rw [rangeEnd, hpow]
    generalize (2 : ℚ) ^ 970 = t at hlow ⊢
    linarith
  have hin : |(last : ℚ)| < rangeEnd := by
    rw [hcast, abs_of_nonneg (sub_nonneg.2 hone)]
    exact sub_one_lt _
  have hbeyond : rangeEnd ≤ |((last + 1 : ℤ) : ℚ)| := by
    rw [Int.cast_add, hcast, Int.cast_one, sub_add_cancel]
    exact le_abs_self _
  obtain ⟨x, hall, -, hadd, -⟩ := all_integerText last
  obtain ⟨y, hrun, hbits, -⟩ := hadd hin
  obtain ⟨x', hall', -, -, hrefused⟩ := all_integerText (last + 1)
  obtain ⟨hinfinite, fault, hkind, hrun', -⟩ := hrefused hbeyond
  refine ⟨⟨x, y, hall, hrun, hbits⟩, x', fault, hall', ?_, hkind, hrun'⟩
  rw [hinfinite, Binary64.IsInfinite]

end Reading
end SnapLisp
