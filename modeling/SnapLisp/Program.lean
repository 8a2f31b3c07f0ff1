import SnapLisp.Session.Transcript
import SnapLisp.Settings
/-!
# The program

One session over the lines of the input, its journal written as a log.
-/

namespace SnapLisp

def Channel.name : Channel → String
  | lexer => "kappa.reader.lexer"
  | parser => "kappa.reader.parser"
  | evaluation => "kappa.evaluation"
  | interpreter => "kappa.interpreter"
  | repl => "kappa.repl"

def Note.logLine (note : Note) : String :=
  "DEBUG " ++ note.channel.name ++ ": " ++ note.text ++ "\n"

namespace Program

/-- The deepest nesting of evaluations that the program attempts. -/
def depthLimit : Nat := 5000

def mode (limit : Nat) (settings : Settings) : Mode :=
  ⟨settings.isVerbose, limit⟩

/-- What the program writes, and the fault that ended it before the end of its input. -/
structure Outcome where
  out : String
  log : String
  fault : Option Fault

def log (journal : List Note) : String :=
  String.join (journal.map Note.logLine)

/-- Runs the program on its whole input. -/
def run (limit : Nat) (settings : Settings) (input : String) : Outcome :=
  let transcript := Transcript.ofLines (mode limit settings) settings.promptText.toList
    (lines input.toList) .initial
  ⟨String.ofList transcript.out, log transcript.state.journal, transcript.fault⟩

end Program

end SnapLisp
