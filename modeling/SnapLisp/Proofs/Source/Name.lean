import SnapLisp.Proofs.Source.Lexeme
import SnapLisp.Source.Form

/-!
# Names of symbols

The names that a source can give a symbol: those of the operators, and words of ASCII capitals other
than NIL. A name is read as its symbol (`next?_name`), except that T at the end of a source is the
constant, and the reader makes symbols of no other name (`isName_of_atom?`).
-/

namespace SnapLisp

/-- Whether a character is an ASCII capital letter. -/
def isCapital (c : Char) : Bool :=
  'A' ≤ c && c ≤ 'Z'

/-- The names of the symbols that a source can hold. -/
inductive IsName : String → Prop
  | operator {name : String} (mem : name ∈ ["+", "-", "*", "/"]) : IsName name
  | word {name : String} (ne_nil : name.toList ≠ [])
    (capitals : ∀ c ∈ name.toList, isCapital c = true) (ne : name ≠ "NIL") : IsName name

theorem isCapital_iff {c : Char} : isCapital c = true ↔ 65 ≤ c.toNat ∧ c.toNat ≤ 90 := by
  simp [isCapital, Char.le_def, UInt32.le_iff_toNat_le]

theorem isLetter_of_isCapital {c : Char} (h : isCapital c = true) : isLetter c = true :=
  isLetter_iff.2 (.inr (isCapital_iff.1 h))

theorem toUpper_of_isCapital {c : Char} (h : isCapital c = true) : c.toUpper = c := by
  have hc := isCapital_iff.1 h
  have hlow : ¬ (c.val ≥ 'a'.val ∧ c.val ≤ 'z'.val) := by
    rw [ge_iff_le, UInt32.le_iff_toNat_le]
    show ¬ (97 ≤ c.toNat ∧ _)
    omega
  exact dif_neg hlow

theorem isCapital_toUpper {c : Char} (h : isLetter c = true) : isCapital c.toUpper = true := by
  rcases isLetter_iff.1 h with hlow | hup
  · have hcond : c.val ≥ 'a'.val ∧ c.val ≤ 'z'.val := by
      rw [ge_iff_le, UInt32.le_iff_toNat_le, UInt32.le_iff_toNat_le]
      exact hlow
    have hupper : c.toUpper = _ := dif_pos hcond
    rw [isCapital_iff, hupper]
    show 65 ≤ (c.val + ('A'.val - 'a'.val)).toNat ∧ (c.val + ('A'.val - 'a'.val)).toNat ≤ 90
    have hval : c.val.toNat = c.toNat := rfl
    rw [UInt32.toNat_add, hval, show ('A'.val - 'a'.val).toNat = 4294967264 from rfl]
    omega
  · rw [toUpper_of_isCapital (isCapital_iff.2 hup)]
    exact isCapital_iff.2 hup

theorem map_toUpper_of_capitals {cs : List Char} (h : ∀ c ∈ cs, isCapital c = true) :
    cs.map Char.toUpper = cs := by
  rw [List.map_congr_left fun c hc => toUpper_of_isCapital (h c hc), List.map_id']

theorem toList_eq_T_iff {name : String} : name.toList = ['T'] ↔ name = "T" := by
  rw [← String.toList_inj]; rfl

theorem toList_eq_NIL_iff {name : String} : name.toList = ['N', 'I', 'L'] ↔ name = "NIL" := by
  rw [← String.toList_inj]; rfl

/-- A name in front of a delimiter is read as its symbol, but T at the end of a text as the
constant. -/
theorem next?_name {name : String} {rest : List Char} (hn : IsName name) (hrest : Delimits rest) :
    ∃ t, Reading.next? (name.toList ++ rest) = some (.token t, rest) ∧
      Form.atom? t = some (if name = "T" ∧ rest = [] then .truth else .symbol name) := by
  cases hn with
  | operator mem =>
    rcases (by simpa using mem : name = "+" ∨ name = "-" ∨ name = "*" ∨ name = "/")
      with rfl | rfl | rfl | rfl
    · exact ⟨.plus, Reading.next?_sign rfl hrest, rfl⟩
    · exact ⟨.minus, Reading.next?_sign rfl hrest, rfl⟩
    · exact ⟨.asterisk, Reading.next?_mark rfl rest, rfl⟩
    · exact ⟨.slash, Reading.next?_mark rfl rest, rfl⟩
  | word ne_nil capitals ne =>
    refine ⟨_, Reading.next?_word ne_nil (fun c hc => isLetter_of_isCapital (capitals c hc)) hrest, ?_⟩
    simp only [Token.ofWord, map_toUpper_of_capitals capitals, toList_eq_T_iff, toList_eq_NIL_iff,
      List.isEmpty_iff, String.ofList_toList, ne, if_false]
    split <;> rfl

theorem letters_of_split? {cs rest letters : List Char}
    (h : Lexeme.split? cs = some (.word letters, rest)) :
    letters ≠ [] ∧ ∀ c ∈ letters, isLetter c = true := by
  cases cs with
  | nil => cases h
  | cons c cs =>
    simp only [Lexeme.split?, Option.some.injEq] at h
    repeat' split at h
    all_goals cases h
    rename_i hc
    refine ⟨List.cons_ne_nil _ _, fun x hx => ?_⟩
    rcases List.mem_cons.1 hx with rfl | hx
    · exact hc
    · exact List.all_eq_true.1 List.all_takeWhile x hx

theorem isName_ofList_of_letters {letters : List Char} (hne : letters ≠ [])
    (hletters : ∀ c ∈ letters, isLetter c = true)
    (hnil : letters.map Char.toUpper ≠ ['N', 'I', 'L']) :
    IsName (String.ofList (letters.map Char.toUpper)) := by
  refine .word (by simpa using hne) (fun c hc => ?_) fun h => hnil ?_
  · rw [String.toList_ofList] at hc
    obtain ⟨x, hx, rfl⟩ := List.mem_map.1 hc
    exact isCapital_toUpper (hletters x hx)
  · rw [← toList_eq_NIL_iff.2 h, String.toList_ofList]

theorem isName_of_literal {cs rest : List Char} {name : String}
    (h : Reading.next? cs = some (.token (.literal name), rest)) : IsName name := by
  obtain ⟨lexeme, hsplit, hreading⟩ := Reading.exists_lexeme_of_next? h
  obtain ⟨letters, rfl, rfl, hnil⟩ := Lexeme.eq_word_of_reading hreading
  obtain ⟨hne, hletters⟩ := letters_of_split? hsplit
  exact isName_ofList_of_letters hne hletters hnil

/-- The reader makes symbols of no other name. -/
theorem isName_of_atom? {cs rest : List Char} {t : Token} {name : String}
    (h : Reading.next? cs = some (.token t, rest)) (hatom : Form.atom? t = some (.symbol name)) :
    IsName name := by
  cases t with
  | literal n => cases hatom; exact isName_of_literal h
  | plus | minus | asterisk | slash => cases hatom; exact .operator (by simp)
  | number | text | truth | nil | lparen | rparen | illegal => cases hatom

end SnapLisp
