import SnapLisp.Program
/-!
# Command line

Converses on the standard streams, each line being answered as soon as it is read. What a line adds
to the journal goes to the log with its answer.
-/

namespace SnapLisp.Program

/-- Writes a stretch of conversation, and gives its state with an empty journal. -/
def emit (transcript : Transcript) : IO State := do
  IO.print (String.ofList transcript.out)
  (← IO.getStdout).flush
  IO.eprint (log transcript.state.journal)
  return { transcript.state with journal := [] }

/-- Answers the lines of the input from a state on, and gives the fault that ended the session. -/
partial def converse (mode : Mode) (prompt : List Char) (input : IO.FS.Stream) (s : State) :
    IO (Option Fault) := do
  let chunk ← input.getLine
  if chunk.isEmpty then
    let _ ← emit ⟨[], Transcript.close mode s, none⟩
    return none
  let mut s := s
  for raw in lines chunk.toList do
    let transcript := Transcript.reply mode prompt raw s
    s ← emit transcript
    if transcript.fault.isSome then return transcript.fault
  converse mode prompt input s

end SnapLisp.Program

open SnapLisp in
def main : IO UInt32 := do
  let settings : Settings := ⟨← IO.getEnv "KAPPA_PROMPT", ← IO.getEnv "KAPPA_LOG_LEVEL"⟩
  IO.print settings.promptText
  (← IO.getStdout).flush
  match ← Program.converse (Program.mode Program.depthLimit settings) settings.promptText.toList
    (← IO.getStdin) .initial with
  | none => return 0
  | some fault =>
    IO.eprintln fault.message
    return 1
