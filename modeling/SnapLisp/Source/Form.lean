import SnapLisp.Source.Reading
/-!
# Forms

The expressions of a source. A list runs to its closing parenthesis or to the end of the source,
whichever comes first; outside a list either of them stops the reading. `Form.read` reads one
expression and gives the text left; `Form.readAll` reads on to the end and passes over closing
parentheses that close nothing. Every step takes something off the text (`Form.length_left_lt`).
-/

namespace SnapLisp

inductive Form
  | value (v : Value)
  /-- A closing parenthesis or the end of the source, and no expression. -/
  | stop
  | fault (f : ReadFault)

namespace Form

/-- The value of a token that is an expression of its own. -/
def atom? : Token → Option Value
  | .number x => some (.number x)
  | .text s => some (.text s)
  | .literal name => some (.symbol name)
  | .plus => some (.symbol "+")
  | .minus => some (.symbol "-")
  | .asterisk => some (.symbol "*")
  | .slash => some (.symbol "/")
  | .truth => some .truth
  | .nil => some .nil
  | .lparen | .rparen | .illegal _ => none

/-- The lists that are open at some place of a source, the innermost first, each with the items read
so far in reverse. -/
abbrev Open := List (List Value)

/-- An expression is complete: it goes into the innermost open list, if there is one. -/
def place (v : Value) : Open → Form ⊕ Open
  | [] => .inl (.value v)
  | items :: outer => .inr ((v :: items) :: outer)

def close : Open → Form ⊕ Open
  | [] => .inl .stop
  | items :: outer => place (.list items.reverse) outer

/-- Closes all open lists, as the end of a source does. -/
def closeAll : Open → Form
  | [] => .stop
  | items :: outer =>
    .value (outer.foldl (fun v items => .list (v :: items).reverse) (.list items.reverse))

/-- What a reading does to the open lists; `inl` ends the expression. -/
def step (opened : Open) : Reading → Form ⊕ Open
  | .malformed numeral => .inl (.fault (.malformedNumeral numeral))
  | .token (.illegal c) => .inl (.fault (.illegalCharacter c))
  | .token .lparen => .inr ([] :: opened)
  | .token .rparen => close opened
  | .token t =>
    match atom? t with
    | some v => place v opened
    | none => .inl .stop

/-- Reads on inside open lists to the end of the outermost expression, and gives the text left. -/
def readFrom (opened : Open) (cs : List Char) : Form × List Char :=
  match _h : Reading.next? cs with
  | none => (closeAll opened, [])
  | some (r, rest) =>
    match step opened r with
    | .inl form => (form, rest)
    | .inr opened' => readFrom opened' rest
termination_by cs.length
decreasing_by exact Reading.length_left_lt _h

def read (cs : List Char) : Form × List Char :=
  readFrom [] cs

/-- Reading an expression leaves less of the text, unless nothing was left of it. -/
theorem length_left_lt {opened : Open} {cs rest : List Char} {form : Form}
    (h : readFrom opened cs = (form, rest)) (hrest : rest ≠ []) : rest.length < cs.length := by
  fun_induction readFrom opened cs with
  | case1 => cases h; exact absurd rfl hrest
  | case2 opened cs r rest' hnext form' hstep =>
    cases h
    exact Reading.length_left_lt hnext
  | case3 opened cs r rest' hnext opened' hstep ih =>
    exact Nat.lt_trans (ih h) (Reading.length_left_lt hnext)

/-- The expressions of a text, each with the text left behind it, and what ended the reading. -/
structure Sequence where
  forms : List (Value × List Char)
  fault : Option ReadFault
  left : List Char

/-- Reads all expressions of a text, up to the end or to the first fault. -/
def readAll (cs : List Char) : Sequence :=
  match _h : read cs with
  | (.fault f, rest) => ⟨[], some f, rest⟩
  | (.stop, rest) => if _hr : rest = [] then ⟨[], none, []⟩ else readAll rest
  | (.value v, rest) =>
    if _hr : rest = [] then ⟨[(v, [])], none, []⟩
    else
      let sequence := readAll rest
      { sequence with forms := (v, rest) :: sequence.forms }
termination_by cs.length
decreasing_by all_goals exact length_left_lt _h _hr

end Form

end SnapLisp
