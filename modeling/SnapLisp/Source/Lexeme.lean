import SnapLisp.Number.Numeral
/-!
# Lexemes

A lexeme is a stretch of a source that reads as one token. `Lexeme.split?` cuts the first one off a
text that starts with it, and `Lexeme.chars` is the stretch itself. Main statement: a lexeme and the
text behind it make up the text (`chars_append_of_split?`).
-/

namespace SnapLisp

def isLetter (c : Char) : Bool :=
  ('a' ≤ c && c ≤ 'z') || ('A' ≤ c && c ≤ 'Z')

inductive Lexeme
  /-- A parenthesis or an operator. -/
  | mark (c : Char)
  | numeral (chars : List Char)
  | quoted (body : List Char) (closed : Bool)
  | word (letters : List Char)
  | illegal (c : Char)
deriving DecidableEq

namespace Lexeme

def chars : Lexeme → List Char
  | mark c | illegal c => [c]
  | numeral cs | word cs => cs
  | quoted body closed => '"' :: (body ++ if closed then ['"'] else [])

/-- Whether a character stands for itself wherever it is met. -/
def isMark (c : Char) : Bool :=
  c == '(' || c == ')' || c == '*' || c == '/'

/-- Whether a character with `cs` behind it begins a numeral: a digit does, and a sign in front of
one. -/
def beginsNumeral (c : Char) (cs : List Char) : Bool :=
  isDigit c || (Numeral.isSign c && cs.head?.any isDigit)

/-- The text in front of the closing quote and the text behind it, if there is such a quote. A
backslash takes the character behind it along. -/
def quotedBody : List Char → List Char × Option (List Char)
  | [] => ([], none)
  | '"' :: cs => ([], some cs)
  | '\\' :: c :: cs =>
    let (body, rest) := quotedBody cs
    ('\\' :: c :: body, rest)
  | c :: cs =>
    let (body, rest) := quotedBody cs
    (c :: body, rest)

/-- The first lexeme of a text that does not start with a blank, and the text behind it. -/
def split? : List Char → Option (Lexeme × List Char)
  | [] => none
  | c :: cs => some <|
    if isMark c then (mark c, cs)
    else if beginsNumeral c cs then
      (numeral (c :: cs.takeWhile Numeral.continues), cs.dropWhile Numeral.continues)
    else if Numeral.isSign c then (mark c, cs)
    else if c = '"' then
      let (body, rest) := quotedBody cs
      (quoted body rest.isSome, rest.getD [])
    else if isLetter c then (word (c :: cs.takeWhile isLetter), cs.dropWhile isLetter)
    else (illegal c, cs)

theorem chars_append_of_quotedBody {cs body : List Char} {rest : Option (List Char)}
    (h : quotedBody cs = (body, rest)) :
    body ++ (if rest.isSome then ['"'] else []) ++ rest.getD [] = cs := by
  fun_induction quotedBody cs generalizing body rest with
  | case1 => cases h; rfl
  | case2 cs => cases h; rfl
  | case3 c cs body' rest' hq ih => cases h; simpa using ih hq
  | case4 c cs _ _ body' rest' hq ih => cases h; simpa using ih hq

theorem chars_append_of_split? {cs rest : List Char} {lexeme : Lexeme}
    (h : split? cs = some (lexeme, rest)) : lexeme.chars ++ rest = cs := by
  cases cs with
  | nil => simp [split?] at h
  | cons c cs =>
    simp only [split?, Option.some.injEq] at h
    split at h
    · cases h; rfl
    split at h
    · cases h; simp [chars]
    split at h
    · cases h; rfl
    split at h
    · rename_i hc
      cases h
      simpa [chars, hc] using chars_append_of_quotedBody (Prod.eta (quotedBody cs)).symm
    split at h
    · cases h; simp [chars]
    · cases h; rfl

theorem chars_ne_nil_of_split? {cs rest : List Char} {lexeme : Lexeme}
    (h : split? cs = some (lexeme, rest)) : lexeme.chars ≠ [] := by
  cases cs with
  | nil => simp [split?] at h
  | cons c cs =>
    simp only [split?, Option.some.injEq] at h
    repeat' split at h
    all_goals cases h; simp [chars]

end Lexeme

end SnapLisp
