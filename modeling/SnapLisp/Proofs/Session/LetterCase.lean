import SnapLisp.Proofs.Session.Ahead
import SnapLisp.Proofs.Source.LetterCase

/-!
# Letter case in sessions

An answer depends on its source only through the expressions that are read, so sources in step are
answered alike (`answer_inStep`). It follows that the case of letters makes no difference outside texts
(`answer_recased`).
-/

namespace SnapLisp
namespace Session
open EvalM
variable {source source' : List Char}

theorem answer_of_run {α : Type} {mode : Mode} {request : Request} {wrap : α → Answer} {m : EvalM α}
    (hrun : request.run mode = do return wrap (← m)) (env : Environment) :
    answer mode request env =
      match outcome (m ⟨env, []⟩) with
      | (.ok a, env') => (wrap a, env')
      | (.error fault, env') => (.fault fault, env') := by
  unfold answer
  rw [hrun, bind_run]
  cases m ⟨env, []⟩ <;> rfl

theorem evalAhead_inStep (h : Reading.InStep source source') (mode : Mode) :
    evalAhead mode source = evalAhead mode source' := by
  have hsequence := Form.readAll_inStep h
  rw [evalAhead, evalAhead, hsequence.values, hsequence.fault]

theorem outcome_evalSource_inStep (h : Reading.InStep source source') (mode : Mode) (s : State) :
    outcome (evalSource mode source s) = outcome (evalSource mode source' s) := by
  have hahead := (evalRest_ahead mode source source).outcome_eq (Eq.refl s.env)
  have hahead' := (evalRest_ahead mode source' source').outcome_eq (Eq.refl s.env)
  rw [evalSource, evalSource, hahead, hahead', evalAhead_inStep h]

theorem answer_inStep (h : Reading.InStep source source') (mode : Mode) (env : Environment) :
    ∀ request ∈ [Request.runLine, .evalLine, .evalSource],
      answer mode (request source) env = answer mode (request source') env := by
  have hform := (Form.read_inStep h).1
  have hrun : Same (runLine mode source) (runLine mode source') := runLine_same hform
  have heval : Same (evalLine mode source) (evalLine mode source') := evalLine_same hform
  have hstart := Eq.refl (⟨env, []⟩ : State).env
  refine List.forall_mem_cons.2 ⟨?_, List.forall_mem_cons.2 ⟨?_, List.forall_mem_singleton.2 ?_⟩⟩
  · rw [answer_of_run rfl, answer_of_run rfl, hrun.outcome_eq hstart]
  · rw [answer_of_run rfl, answer_of_run rfl, heval.outcome_eq hstart]
  · rw [answer_of_run rfl, answer_of_run rfl, outcome_evalSource_inStep h]

/-- Letters outside texts can be in either case. The readings are the same, malformed ones too, and so are
the expressions and the faults of a reader, whether it is asked for one expression after the other or for
all of them. Each ends at the same place, and a session answers the same and has the same environment
then. -/
theorem answer_recased (h : IsRecased source source') :
    placed source (Reading.all source) = placed source' (Reading.all source') ∧
    (∀ n, placed source (Form.reads source n) = placed source' (Form.reads source' n)) ∧
    (placed source (Form.readAll source).forms = placed source' (Form.readAll source').forms ∧
      (Form.readAll source).fault = (Form.readAll source').fault ∧
      position source (Form.readAll source).left = position source' (Form.readAll source').left) ∧
    ∀ mode env, ∀ request ∈ [Request.runLine, .evalLine, .evalSource],
      answer mode (request source) env = answer mode (request source') env := by
  have hstep := h.inStep
  have hsequence := Form.readAll_inStep hstep
  refine ⟨placed_congr h.length_eq hstep.readings, fun n => ?_, ⟨?_, hsequence.fault, ?_⟩,
    answer_inStep hstep⟩
  · exact placed_congr h.length_eq (Form.reads_inStep hstep n)
  · exact placed_congr h.length_eq hsequence.forms
  · rw [position, position, h.length_eq, hsequence.left]

/-- The constant can be in either case, the letter in the text cannot. -/
theorem answer_recased_truth :
    let source := ['"', 't', '"', 't']
    let source' := ['"', 't', '"', 'T']
    IsRecased source source' ∧
      answer ⟨false, 9⟩ (.evalSource source) .initial =
        answer ⟨false, 9⟩ (.evalSource source') .initial := by
  intro source source'
  let text : Piece := ⟨[], ['"', 't', '"'], .token (.text (String.ofList ['t'])), ['t']⟩
  let truth : Piece := ⟨[], ['t'], .token .truth, []⟩
  have hbody : Lexeme.quotedBody ['t', '"', 't'] = (['t'], some ['t']) := rfl
  obtain ⟨-, hquotes, hends⟩ := Lexeme.quotedBody_eq_some_iff.1 hbody
  have htruth : Tiles ['t'] [truth] :=
    .piece rfl (List.forall_mem_nil _) (.truth (.inl rfl) rfl) (.done (List.forall_mem_nil _))
  have htiles : Tiles source [text, truth] :=
    .piece rfl (List.forall_mem_nil _) (.closed hquotes hends) htruth
  have hrecased : IsRecased source source' := by
    refine ⟨rfl, fun i c c' hc hc' => ?_, fun pieces hpieces p hp i hi => ?_⟩
    · match i with
      | 0 | 1 | 2 => exact .inl (Option.some.inj (hc.symm.trans hc'))
      | 3 =>
        obtain rfl := Option.some.inj hc
        obtain rfl := Option.some.inj hc'
        exact .inr ⟨rfl, rfl, rfl⟩
      | n + 4 => cases hc
    · rw [htiles.unique hpieces] at hp
      obtain ⟨⟨s, hreading⟩, -, hlast⟩ := hi
      rcases List.mem_cons.1 hp with rfl | hp
      · match i with
        | 0 | 1 | 2 => rfl
        | n + 3 => exact absurd hlast (Nat.not_lt.2 (Nat.le_add_left 3 n))
      · obtain rfl := List.mem_singleton.1 hp
        cases hreading
  exact ⟨hrecased, (answer_recased hrecased).2.2.2 _ _ .evalSource (by simp)⟩

end Session
end SnapLisp
