import SnapLisp.Session.Basic
import SnapLisp.Text.Line
/-!
# Transcripts

A conversation line by line: the prompt, then for each line that is not blank its answer on a line
of its own and the prompt again. A fault that is not reported ends the conversation where it stands.
-/

namespace SnapLisp

/-- What a stretch of conversation wrote, the state it left, and the fault that ended it. -/
structure Transcript where
  out : List Char
  state : State
  fault : Option Fault

namespace Transcript

/-- A stretch of conversation and what follows it, unless a fault ended it. -/
def andThen (first : Transcript) (next : State → Transcript) : Transcript :=
  match first.fault with
  | some _ => first
  | none =>
    let second := next first.state
    { second with out := first.out ++ second.out }

def content (raw : List Char) : List Char :=
  trimEnd isLineEnd raw

def isSkipped (raw : List Char) : Bool :=
  trim (content raw) = []

def closingNote (env : Environment) : Note :=
  ⟨.repl, "input exhausted; " ++ String.ofList (digits env.size) ++ " bindings in session"⟩

variable (mode : Mode) (prompt : List Char)

/-- The state with the end of the input noted. -/
def close (s : State) : State :=
  if mode.verbose then { s with journal := s.journal ++ [closingNote s.env] } else s

/-- The answer to one raw line, with the prompt for the next one. -/
def reply (raw : List Char) (s : State) : Transcript :=
  if isSkipped raw then ⟨[], s, none⟩
  else
    match Session.runLine mode (content raw) s with
    | .ok answer s' => ⟨answer.toList ++ '\n' :: prompt, s', none⟩
    | .error fault s' => ⟨[], s', some fault⟩

/-- The answers to raw lines, up to the end of the input. -/
def replies : List (List Char) → State → Transcript
  | [], s => ⟨[], close mode s, none⟩
  | raw :: raws, s => (reply mode prompt raw s).andThen (replies raws)

def ofLines (raws : List (List Char)) (s : State) : Transcript :=
  let transcript := replies mode prompt raws s
  { transcript with out := prompt ++ transcript.out }

end Transcript

end SnapLisp
