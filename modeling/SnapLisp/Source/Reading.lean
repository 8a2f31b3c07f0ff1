import SnapLisp.Fault
import SnapLisp.Source.Lexeme
import SnapLisp.Source.Token
import SnapLisp.Text.Blank
/-!
# Readings

What the lexemes of a source read as. `Reading.next?` skips blanks and reads one lexeme; all that a
reader keeps between two readings is the text left. Whether a source ends behind a word can matter
to what the word reads as. Every reading leaves less text (`length_left_lt`).
-/

namespace SnapLisp

/-- What an element of a source reads as: a token, or a numeral that denotes no number. -/
inductive Reading
  | token (t : Token)
  | malformed (numeral : String)
deriving DecidableEq

/-- The word of letters as a token; the letter T is the constant only at the end of a source. -/
def Token.ofWord (letters : List Char) (atEnd : Bool) : Token :=
  let name := letters.map Char.toUpper
  if name = ['T'] ∧ atEnd then .truth
  else if name = ['N', 'I', 'L'] then .nil
  else .literal (String.ofList name)

def Token.ofMark (c : Char) : Token :=
  match c with
  | '(' => .lparen
  | ')' => .rparen
  | '*' => .asterisk
  | '/' => .slash
  | '+' => .plus
  | '-' => .minus
  | c => .illegal c

/-- What a lexeme reads as, `atEnd` telling whether a source ends with it. -/
def Lexeme.reading (atEnd : Bool) : Lexeme → Reading
  | mark c => .token (.ofMark c)
  | numeral cs =>
    match Numeral.read? cs with
    | some x => .token (.number x)
    | none => .malformed (String.ofList cs)
  | quoted body _ => .token (.text (String.ofList body))
  | word letters => .token (.ofWord letters atEnd)
  | illegal c => .token (.illegal c)

namespace Reading

/-- The first reading of a text and the text left behind it; none if there are only blanks. -/
def next? (cs : List Char) : Option (Reading × List Char) :=
  match Lexeme.split? (cs.dropWhile isBlank) with
  | none => none
  | some (lexeme, rest) => some (lexeme.reading rest.isEmpty, rest)

theorem length_left_lt {cs rest : List Char} {r : Reading} (h : next? cs = some (r, rest)) :
    rest.length < cs.length := by
  simp only [next?] at h
  split at h
  · cases h
  · rename_i lexeme rest' hs
    cases h
    have happ := Lexeme.chars_append_of_split? hs
    have hne := List.length_pos_iff.mpr (Lexeme.chars_ne_nil_of_split? hs)
    have hle := (List.dropWhile_suffix isBlank (l := cs)).length_le
    rw [← happ, List.length_append] at hle
    omega

/-- All readings of a text, each with the text left behind it. -/
def all (cs : List Char) : List (Reading × List Char) :=
  match _h : next? cs with
  | none => []
  | some (r, rest) => (r, rest) :: all rest
termination_by cs.length
decreasing_by exact length_left_lt _h

/-- The tokens among readings, unless one of them is malformed. -/
def tokens : List (Reading × List Char) → Except ReadFault (List Token)
  | [] => .ok []
  | (token t, _) :: rest => (tokens rest).map (t :: ·)
  | (malformed numeral, _) :: _ => .error (.malformedNumeral numeral)

end Reading

/-- How far into a source a reader is that has `rest` of it left. -/
def position (source rest : List Char) : Nat :=
  source.length - rest.length

end SnapLisp
