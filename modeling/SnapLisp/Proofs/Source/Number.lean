import SnapLisp.Proofs.Source.Lexeme

/-!
# Numbers in a source

The exponent field of an encoding is all ones for NaN and the infinities only (`isFinite_ofBits_iff`),
and all other numbers have one encoding each (`toBits_ofBits`). The plain text of such a number, as a
source of its own, is one token, and that token's number has the bits that were written
(`all_write_ofBits`).
-/

namespace SnapLisp

namespace Binary64
variable {bits : UInt64}

def exponentField (bits : UInt64) : Nat :=
  bits.toNat / 2 ^ 52 % 2 ^ 11

theorem rank_lt_infinityRank_iff :
    bits.toNat % signBit < infinityRank ↔ exponentField bits ≠ 2047 := by
  have hbits := bits.toNat_lt
  simp only [exponentField, signBit, infinityRank, binadeSize, Nat.pow_eq]
  omega

theorem isFinite_ofBits_iff : (ofBits bits).IsFinite ↔ exponentField bits ≠ 2047 := by
  rw [← rank_lt_infinityRank_iff]
  unfold ofBits
  split
  · exact Iff.rfl
  · rename_i hnan
    constructor
    · intro h
      exact h.elim
    · intro h
      exact absurd h.le hnan

/-- Of the NaNs only one comes back. -/
theorem toBits_ofBits (h : (ofBits bits).IsFinite) : (ofBits bits).toBits = bits := by
  have hrank := rank_lt_infinityRank_iff.2 (isFinite_ofBits_iff.1 h)
  have hbits := bits.toNat_lt
  rw [ofBits, dif_pos hrank.le, toBits, ← UInt64.toNat_inj, UInt64.toNat_ofNat']
  by_cases hsign : signBit ≤ bits.toNat
  · simp only [hsign, decide_true, if_true]
    simp only [signBit, Nat.pow_eq] at hsign ⊢
    omega
  · simp only [hsign, decide_false, Bool.false_eq_true, if_false]
    simp only [signBit, Nat.pow_eq] at hsign ⊢
    omega

end Binary64

namespace Reading

theorem all_of_next? {cs rest : List Char} {r : Reading} (h : next? cs = some (r, rest)) :
    all cs = (r, rest) :: all rest := by
  rw [all]
  split
  · rename_i hnone
    rw [hnone] at h
    cases h
  · rename_i hsome
    rw [hsome] at h
    cases h
    rfl

theorem all_of_next?_eq_none (h : next? cs = none) : all cs = [] := by
  rw [all]
  split
  · rfl
  · rename_i hsome
    rw [hsome] at h
    cases h

theorem all_nil : all [] = [] :=
  all_of_next?_eq_none rfl

/-- The text of a finite number is one number token up to its end, with the number's bits. -/
theorem all_write_ofBits {bits : UInt64} (h : Binary64.exponentField bits ≠ 2047) :
    ∃ x : Binary64, all (Layout.plain.write (.ofBits bits)) = [(.token (.number x), [])] ∧
      x.toBits = bits := by
  have hfinite := Binary64.isFinite_ofBits_iff.2 h
  have hnext := next?_write hfinite .nil
  rw [List.append_nil] at hnext
  refine ⟨.ofBits bits, ?_, Binary64.toBits_ofBits hfinite⟩
  rw [all_of_next? hnext, all_nil]

/-- The negative number next to zero, with its 324 digits behind the point. -/
theorem all_write_ofBits_least :
    let bits : UInt64 := 0x8000000000000001
    Binary64.exponentField bits ≠ 2047 ∧
      ∃ x : Binary64, all (Layout.plain.write (.ofBits bits)) = [(.token (.number x), [])] ∧
        x.toBits = bits := by
  intro bits
  have hfield : Binary64.exponentField bits ≠ 2047 := by decide
  exact ⟨hfield, all_write_ofBits hfield⟩

end Reading
end SnapLisp
