import SnapLisp.Proofs.Evaluation.Agree
import SnapLisp.Session.Workspace

/-!
# Lines and answers

A line is answered with the text of its value, or with the message of a fault that is reported
(`runLine_eq`); the other faults leave the session (`runLine_keeps`), and are its answer in their own
right (`answer_keeps`).
-/

namespace SnapLisp
namespace Session
open EvalM
variable {mode mode' : Mode} {line : List Char}

theorem refuse_keeps {α : Type} {I : Environment → Prop} {F : Fault → Prop} {Q : α → Prop}
    {source left : List Char} {fault : ReadFault}
    (h : F (.unreadable fault)) : Keeps I F Q (refuse mode source left fault) := by
  unfold refuse
  cases fault with
  | illegalCharacter c => exact (Keeps.note (.pure ⟨⟩)).bind fun _ _ => .throw h
  | malformedNumeral numeral => exact .throw h

theorem refuse_agrees {α : Type} {R : Environment → Environment → Prop} {Q : α → Prop}
    (fault : ReadFault) (source source' left left' : List Char) :
    Agree R (· = ·) Q (refuse mode source left fault) (refuse mode' source' left' fault) := by
  unfold refuse
  cases fault with
  | illegalCharacter c =>
    exact (Agree.of_quiet (Quiet.note (.pure _)) (Quiet.note (.pure _))).bind fun _ _ => .throw rfl
  | malformedNumeral numeral => exact .throw rfl

/-- Notes with plain texts make no difference. -/
theorem note_agrees {R : Environment → Environment → Prop} {F : Fault → Fault → Prop}
    (channel : Channel) (text : String) :
    Agree R F (fun _ => True) (note mode.verbose channel fun _ => pure text)
      (note mode'.verbose channel fun _ => pure text) :=
  .note (.inr (.pure _))

theorem runLine_eq (mode : Mode) (line : List Char) :
    runLine mode line = tryCatch (do let v ← evalLine mode line; printed v) fun fault =>
      if fault.kind.isReported then do
        note mode.verbose .interpreter fun _ => pure (errorNote line fault)
        pure fault.message
      else throw fault := by
  funext s
  simp only [runLine, bind, EStateM.bind, tryCatch_run]
  cases evalLine mode line s with
  | ok v s' =>
    dsimp only
    cases printed v s' with
    | ok text s'' => rfl
    | error fault s'' =>
      dsimp only
      cases fault.kind.isReported with
      | false => rfl
      | true => cases mode.verbose <;> rfl
  | error fault s' =>
    dsimp only
    cases fault.kind.isReported with
    | false => rfl
    | true => cases mode.verbose <;> rfl

theorem runLine_keeps {I : Environment → Prop} {F F' : Fault → Prop} {Q : String → Prop}
    {R : Value → Prop} (hvalue : Keeps I F R (evalLine mode line))
    (htext : ∀ v, R v → ∃ text, v.printed? = some text ∧ Q text)
    (hmessage : ∀ fault, F fault → fault.kind.isReported = true → Q fault.message)
    (hout : ∀ fault, F fault → fault.kind.isReported = false → F' fault) :
    Keeps I F' Q (runLine mode line) := by
  have hprinted : Keeps I F Q (do let v ← evalLine mode line; printed v) := by
    refine hvalue.bind fun v hv => ?_
    obtain ⟨text, hprint, htext⟩ := htext v hv
    exact (Keeps.printed_some hprint).imp fun _ h => h ▸ htext
  rw [runLine_eq]
  refine hprinted.tryCatch fun fault hfault => ?_
  split
  · rename_i hreported
    exact (Keeps.note (.pure ⟨⟩)).bind fun _ _ => .pure (hmessage fault hfault hreported)
  · rename_i hreported
    exact .throw (hout fault hfault (Bool.eq_false_iff.2 hreported))

theorem answer_keeps {I : Environment → Prop} {P : Answer → Prop} {request : Request}
    {env : Environment} (h : Keeps I (fun fault => P (.fault fault)) P (request.run mode))
    (henv : I env) : P (answer mode request env).1 ∧ I (answer mode request env).2 := by
  have hrun := h ⟨env, []⟩ henv
  unfold answer
  cases hrequest : request.run mode ⟨env, []⟩ with
  | ok a s =>
    rw [hrequest] at hrun
    exact hrun
  | error fault s =>
    rw [hrequest] at hrun
    exact hrun

end Session
end SnapLisp
