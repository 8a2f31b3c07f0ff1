import SnapLisp.Proofs.Number.Denoted
import SnapLisp.Proofs.Source.Span

/-!
# Numerals in a source

Where a numeral starts, a reader takes the longest one. With two points or more it is malformed, and
otherwise it reads as the number that the denoted quantity rounds to, however long the text is
(`Reading.next?_rounded`); the position is behind the text in either case.
-/

namespace SnapLisp

/-- A part of the text at its start is a numeral. -/
def StartsNumeral (cs : List Char) : Prop :=
  ∃ text, text <+: cs ∧ IsNumeral text

theorem StartsNumeral.exists_longest {cs : List Char} (h : StartsNumeral cs) : ∃ text left,
    cs = text ++ left ∧ IsNumeral text ∧ ∀ c ∈ left.head?, isDigit c = false ∧ c ≠ '.' := by
  obtain ⟨_, ⟨left, rfl⟩, sign, d, ds, rfl, hsign, hd, hds⟩ := h
  refine ⟨sign ++ d :: (ds ++ left.takeWhile Numeral.continues), left.dropWhile Numeral.continues, ?_,
    ⟨sign, d, _, rfl, hsign, hd, ?_⟩, ?_⟩
  · simp
  · intro c hc
    rcases List.mem_append.1 hc with hc | hc
    · exact hds c hc
    · have hcontinues : Numeral.continues c = true := List.all_eq_true.1 List.all_takeWhile c hc
      simpa [Numeral.continues] using hcontinues
  · exact any_continues_eq_false_iff.1 (any_head?_dropWhile Numeral.continues left)

/-- A numeral with one point at most is a sign, digits, and the point with a fraction or nothing. -/
theorem IsNumeral.exists_parts {text : List Char} (h : IsNumeral text) (hpoints : text.count '.' < 2) :
    ∃ sign whole rest, text = sign ++ (whole ++ rest) ∧ Numeral.IsSignText sign ∧ whole ≠ [] ∧
      (∀ c ∈ whole, isDigit c = true) ∧ (∀ c ∈ rest.head?, c = '.') ∧
      ∀ c ∈ rest.drop 1, isDigit c = true := by
  obtain ⟨sign, d, ds, rfl, hsign, hd, hds⟩ := h
  have hsplit := List.takeWhile_append_dropWhile (p := isDigit) (l := ds)
  have hhead := any_head?_eq_false_iff.1 (any_head?_dropWhile isDigit ds)
  have hmem : ∀ c ∈ ds.dropWhile isDigit, isDigit c = true ∨ c = '.' := fun c hc =>
    hds c ((List.dropWhile_suffix isDigit).subset hc)
  have hcount : (ds.dropWhile isDigit).count '.' < 2 := by
    refine Nat.lt_of_le_of_lt ?_ hpoints
    exact (List.Sublist.trans (List.dropWhile_suffix isDigit).sublist
      ((List.sublist_cons_self d ds).trans (List.sublist_append_right sign _))).count_le _
  refine ⟨sign, d :: ds.takeWhile isDigit, ds.dropWhile isDigit, ?_, hsign, List.cons_ne_nil _ _,
    List.forall_mem_cons.2 ⟨hd, List.all_eq_true.1 List.all_takeWhile⟩, ?_, ?_⟩
  · rw [List.cons_append, hsplit]
  · intro c hc
    exact (hmem c (List.mem_of_mem_head? hc)).resolve_left (by simp [hhead c hc])
  · intro c hc
    refine (hmem c (List.mem_of_mem_drop hc)).resolve_right ?_
    rintro rfl
    cases hrest : ds.dropWhile isDigit with
    | nil => simp [hrest] at hc
    | cons x fraction =>
      rw [hrest] at hc hcount hhead hmem
      obtain rfl : x = '.' := (hmem x List.mem_cons_self).resolve_left (by simp [hhead x rfl])
      have hpos : 0 < fraction.count '.' := List.count_pos_iff.2 hc
      rw [List.count_cons_self] at hcount
      omega

namespace Reading

/-- Where a numeral starts, the longest one is read, and the position is behind it. It is malformed if it
has two points or more. Else it reads as the number that the denoted quantity rounds to: with the sign
that is written, infinite if and only if the quantity is beyond the range, and zero if it is no more
than half of the smallest magnitude. -/
theorem next?_rounded (front : List Char) {cs : List Char} (h : StartsNumeral cs) : ∃ text left,
    cs = text ++ left ∧ IsNumeral text ∧ (∀ c ∈ left.head?, isDigit c = false ∧ c ≠ '.') ∧
      position (front ++ cs) left = front.length + text.length ∧
      (2 ≤ text.count '.' ↔ next? cs = some (.malformed (String.ofList text), left)) ∧
      (text.count '.' < 2 → ∃ x, next? cs = some (.token (.number x), left) ∧
        Binary64.RoundsTo (Numeral.denoted text) x ∧
        (x.isNegative = true ↔ text.head? = some '-') ∧
        (x.IsInfinite ↔ rangeEnd ≤ |Numeral.denoted text|) ∧
        (2 * |Numeral.denoted text| ≤ magnitude 1 → x.value = 0)) := by
  obtain ⟨text, left, rfl, hnumeral, hmaximal⟩ := h.exists_longest
  have hnext := next?_of_isNumeral hnumeral hmaximal
  refine ⟨text, left, rfl, hnumeral, hmaximal, ?_, ?_, fun hpoints => ?_⟩
  · simp only [position, List.length_append]
    omega
  · rw [hnext, ← read?_eq_none_iff, Lexeme.reading]
    cases Numeral.read? text <;> simp
  · obtain ⟨sign, whole, rest, rfl, hsign, hne, hwhole, hrest, hfraction⟩ := hnumeral.exists_parts hpoints
    obtain ⟨x, hread, hrounds, hnegative⟩ := Numeral.read?_denoted hsign hne hwhole hrest hfraction
    refine ⟨x, ?_, hrounds, ?_, hrounds.isInfinite_iff, hrounds.value_eq_zero⟩
    · rw [hnext, Lexeme.reading, hread]
    · rw [hnegative, decide_eq_true_iff, Numeral.head?_eq_minus_iff hsign hne hwhole]

/-- A zero keeps its sign, also with a point and nothing behind it. -/
theorem next?_rounded_minus_zero :
    let cs := ['-', '0', '.', ')']
    StartsNumeral cs ∧ ∃ x left, next? cs = some (.token (.number x), left) ∧ x.isNegative = true := by
  intro cs
  have h : StartsNumeral cs :=
    ⟨['-', '0', '.'], ⟨[')'], rfl⟩, ['-'], '0', ['.'], rfl, .inr (.inr rfl), by decide, by simp⟩
  obtain ⟨text, left, hcs, hnumeral, -, -, -, hread⟩ := next?_rounded ['('] h
  have hpoints : text.count '.' ≤ cs.count '.' := by
    rw [hcs]
    exact (List.sublist_append_left text left).count_le _
  obtain ⟨x, hnext, -, hnegative, -⟩ := hread (Nat.lt_of_le_of_lt hpoints (by decide))
  obtain ⟨c, text, rfl, -⟩ := isNumeral_iff.1 hnumeral
  exact ⟨h, x, left, hnext, hnegative.2 (congrArg List.head? hcs).symm⟩

end Reading
end SnapLisp
