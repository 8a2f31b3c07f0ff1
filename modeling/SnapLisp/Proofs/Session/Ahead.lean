import SnapLisp.Proofs.Evaluation.Faults
import SnapLisp.Proofs.Session.Source
import SnapLisp.Proofs.Source.Sequence

/-!
# Reading ahead

A session evaluates the expressions of a source while it reads them, but it could read them all in
advance (`evalAhead`): evaluation changes nothing that is read and raises no fault in reading. So a fault
in the source is raised when the expressions in front of it have been evaluated, and a line with a
fault in it changes nothing (`evalSource_ahead`). What a line is answered depends on its text only through
the expression that is read (`runLine_same`).
-/

namespace SnapLisp

namespace Session
open EvalM
variable {mode : Mode} {source source' line line' left : List Char}

/-! ### One expression -/

theorem readLine_of_stop (h : Form.read line = (.stop, left)) : readLine mode line = pure .nil := by
  rw [readLine, readAt, h]

theorem readLine_of_fault {fault : ReadFault} (h : Form.read line = (.fault fault, left)) :
    readLine mode line = refuse mode line left fault := by
  rw [readLine, readAt, h]

theorem readLine_keeps (mode : Mode) (line : List Char) (env : Environment) :
    Keeps (· = env) (fun _ => True) (fun _ => True) (readLine mode line) := by
  unfold readLine readAt
  split
  · exact (Keeps.note (.pure ⟨⟩)).bind fun _ _ => .pure ⟨⟩
  · exact .pure ⟨⟩
  · exact refuse_keeps ⟨⟩

/-- A fault in reading is raised before anything is evaluated. -/
theorem env_of_evalLine_fault {s s' : State} {fault : Fault}
    (hrun : evalLine mode line s = .error fault s') (hfault : fault.IsInReading) : s'.env = s.env := by
  have hline := readLine_keeps mode line s.env s rfl
  rw [evalLine, bind_run] at hrun
  cases hform : readLine mode line s with
  | error fault' s'' =>
    rw [hform] at hrun hline
    cases hrun
    exact hline.2
  | ok form s'' =>
    rw [hform] at hrun
    have heval := Evaluation.eval_evaluates mode.verbose mode.limit form s'' ⟨⟩
    dsimp only at hrun
    rw [hrun] at heval
    exact absurd hfault heval.1

section
variable (h : (Form.read line).1 = (Form.read line').1)
include h

theorem readLine_same : Same (readLine mode line) (readLine mode line') := by
  unfold readLine readAt
  generalize Form.read line = p, Form.read line' = p' at h ⊢
  obtain ⟨form, left⟩ := p
  obtain ⟨form', left'⟩ := p'
  obtain rfl : form = form' := h
  cases form with
  | value form => exact (note_agrees _ _).bind fun _ _ => .pure ⟨⟩
  | stop => exact .pure ⟨⟩
  | fault fault => exact refuse_agrees fault _ _ _ _

theorem evalLine_same : Same (evalLine mode line) (evalLine mode line') :=
  (readLine_same h).bind fun form _ => eval_same form

theorem runLine_same : Same (runLine mode line) (runLine mode line') := by
  have hline : Same (evalLine mode line) (evalLine mode line') := evalLine_same h
  have hprinted := hline.bind fun v _ => Agree.printed (fun _ => rfl) v
  rw [runLine_eq, runLine_eq]
  refine hprinted.tryCatch ?_
  rintro fault _ rfl
  split
  · -- The note shows the line, which can be another one.
    exact (Agree.of_quiet (.note (.pure _)) (.note (.pure _))).bind fun _ _ => .pure ⟨⟩
  · exact .throw rfl

end

/-! ### All expressions -/

/-- The values of the expressions of a source, all of which are read before the first is evaluated. A
fault that ends the reading is raised when they have been evaluated. -/
def evalAhead (mode : Mode) (source : List Char) : EvalM (List Value) := do
  let vs ← (Form.readAll source).values.mapM (Evaluation.eval mode.verbose mode.limit)
  match (Form.readAll source).fault with
  | none => return vs
  | some fault => throw (.unreadable fault)

section
variable {form : Value} {fault : ReadFault}

theorem evalAhead_nil (mode : Mode) : evalAhead mode [] = pure [] := by
  rw [evalAhead, Form.readAll_nil]
  rfl

theorem evalAhead_of_fault (h : Form.read source = (.fault fault, left)) :
    evalAhead mode source = throw (.unreadable fault) := by
  rw [evalAhead, Form.readAll_of_fault h]
  rfl

theorem evalAhead_of_stop (h : Form.read source = (.stop, left)) :
    evalAhead mode source = evalAhead mode left := by
  rw [evalAhead, Form.readAll_of_stop h]
  rfl

theorem evalAhead_of_value (h : Form.read source = (.value form, left)) :
    evalAhead mode source = do
      let v ← Evaluation.eval mode.verbose mode.limit form
      let vs ← evalAhead mode left
      return v :: vs := by
  have hvalues : (Form.readAll source).values = form :: (Form.readAll left).values := by
    rw [Form.readAll_of_value h]
    rfl
  have hfault : (Form.readAll source).fault = (Form.readAll left).fault := by
    rw [Form.readAll_of_value h]
  unfold evalAhead
  rw [hvalues, hfault, List.mapM_cons]
  cases (Form.readAll left).fault with
  | none => simp only [bind_assoc, pure_bind]
  | some fault =>
    simp only [bind_assoc, pure_bind]
    rfl

end

theorem refuse_same (fault : ReadFault) (source left : List Char) :
    Same (refuse mode source left fault : EvalM (List Value)) (throw (.unreadable fault)) := by
  unfold refuse
  cases fault with
  | illegalCharacter c =>
    have hquiet : Same (note mode.verbose .lexer fun _ =>
        pure (illegalNote c (position source left - 1))) (pure ()) :=
      .of_quiet (.note (.pure _)) (.pure ())
    exact hquiet.bind fun _ _ => .throw rfl
  | malformedNumeral numeral => exact .throw rfl

theorem evalRest_ahead (mode : Mode) (source rest : List Char) :
    Same (evalRest mode source rest) (evalAhead mode rest) := by
  fun_induction evalRest mode source rest with
  | case1 rest fault left hread =>
    rw [evalAhead_of_fault hread]
    exact refuse_same fault source left
  | case2 rest hread =>
    rw [evalAhead_of_stop hread, evalAhead_nil]
    exact .pure ⟨⟩
  | case3 rest left hread hleft ih =>
    rw [evalAhead_of_stop hread]
    exact ih
  | case4 rest form left hread ih =>
    rw [evalAhead_of_value hread]
    refine (eval_same form).bind fun v _ => ?_
    split
    · rename_i hnil
      rw [hnil, evalAhead_nil]
      exact .pure ⟨⟩
    · rename_i hne
      exact (ih hne).cons v

/-- A source is evaluated as if all its expressions were read first: the values or the first fault are the
same, and so is the environment that is left. A line with a fault in reading leaves the environment as it
was. -/
theorem evalSource_ahead (mode : Mode) (source line : List Char) (s : State) :
    outcome (evalSource mode source s) = outcome (evalAhead mode source s) ∧
      ∀ fault s', evalLine mode line s = .error fault s' →
        fault.kind = .wrongSyntax ∨ fault.kind = .malformedNumeral → s'.env = s.env := by
  refine ⟨(evalRest_ahead mode source source).outcome_eq rfl, fun fault s' hrun hkind => ?_⟩
  exact env_of_evalLine_fault hrun (Fault.isInReading_of_kind hkind)

/-- The line `(SETQ A 1.2.3)` does not bind A. -/
theorem evalSource_ahead_malformed :
    let line := ['(', 'S', 'E', 'T', 'Q', ' ', 'A', ' ', '1', '.', '2', '.', '3', ')']
    ∃ fault s', evalLine ⟨false, 9⟩ line .initial = .error fault s' ∧ fault.kind = .malformedNumeral ∧
      s'.env = State.initial.env := by
  intro line
  have hbegins : Reading.Begins line [.lparen, .literal "SETQ", .literal "A"] (line.drop 7) :=
    .cons rfl rfl (.cons rfl rfl (.cons rfl rfl (.nil _)))
  have hopen : Token.IsUnfinished 0 [.lparen, .literal "SETQ", .literal "A"] := by
    simp [Token.isUnfinished_cons_iff, Token.depthAfter, Token.isUnfinished_nil]
  have hread : Form.read line = (.fault (.malformedNumeral "1.2.3"), [')']) :=
    Form.read_of_fault? hbegins hopen rfl rfl
  have hrun : evalLine ⟨false, 9⟩ line .initial =
      .error (.unreadable (.malformedNumeral "1.2.3")) .initial := by
    rw [evalLine, readLine, readAt, hread]
    rfl
  exact ⟨_, _, hrun, rfl, (evalSource_ahead ⟨false, 9⟩ [] line .initial).2 _ _ hrun (.inr rfl)⟩

end Session
end SnapLisp
