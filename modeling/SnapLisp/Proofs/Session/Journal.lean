import SnapLisp.Program
import SnapLisp.Proofs.Evaluation.Journal
import SnapLisp.Proofs.Session.Sound

/-!
# Sessions and the journal

Two conversations that differ only in whether a journal is kept write the same text and end with the same
fault (`replies_like`), and without a journal there are no notes (`replies_silent`). The log level is
all that decides about the journal, so the program behaves in the same way under all levels
(`run_level_independent`).
-/

namespace SnapLisp
open EvalM Environment

namespace Session
variable {mode mode' : Mode}

theorem readLine_agrees (mode mode' : Mode) (source : List Char) :
    Agree SameResults (· = ·) (·.IsTree fun _ => True) (readLine mode source) (readLine mode' source) := by
  unfold readLine readAt
  split
  · rename_i form left hread
    exact (note_agrees _ _).bind fun _ _ => .pure (Form.isTree_of_read hread)
  · exact .pure .nil
  · exact refuse_agrees _ _ _ _ _

section
variable (hlimit : mode.limit = mode'.limit)
include hlimit

theorem evalLine_agrees (source : List Char) :
    Agree SameResults (· = ·) (·.IsResult fun _ => True)
      (evalLine mode source) (evalLine mode' source) := by
  refine (readLine_agrees mode mode' source).bind fun form hform => ?_
  rw [hlimit]
  exact Evaluation.eval_same_of_results mode.verbose mode'.verbose mode'.limit hform

theorem runLine_agrees (line : List Char) :
    Agree SameResults (· = ·) (fun _ => True) (runLine mode line) (runLine mode' line) := by
  have hprinted := (evalLine_agrees hlimit line).bind fun v _ => Agree.printed (fun _ => rfl) v
  rw [runLine_eq, runLine_eq]
  refine hprinted.tryCatch ?_
  rintro fault _ rfl
  split
  · exact (note_agrees _ _).bind fun _ _ => .pure ⟨⟩
  · exact .throw rfl

end

theorem refuse_silent {α : Type} (limit : Nat) (source left : List Char) (fault : ReadFault) :
    Silent (refuse ⟨false, limit⟩ source left fault : EvalM α) := by
  unfold refuse
  cases fault with
  | illegalCharacter c => exact (Silent.note _ _).bind fun _ => .throw _
  | malformedNumeral numeral => exact .throw _

theorem readLine_silent (limit : Nat) (source : List Char) : Silent (readLine ⟨false, limit⟩ source) := by
  unfold readLine readAt
  split
  · exact (Silent.note _ _).bind fun _ => .pure _
  · exact .pure _
  · exact refuse_silent _ _ _ _

theorem evalLine_silent (limit : Nat) (source : List Char) : Silent (evalLine ⟨false, limit⟩ source) :=
  (readLine_silent limit source).bind fun form => Evaluation.eval_silent limit form

theorem runLine_silent (limit : Nat) (line : List Char) : Silent (runLine ⟨false, limit⟩ line) := by
  rw [runLine_eq]
  refine ((evalLine_silent limit line).bind fun v => .printed v).tryCatch fun fault => ?_
  split
  · exact (Silent.note _ _).bind fun _ => .pure _
  · exact .throw _

end Session

/-! ### Conversations -/

namespace Transcript
variable {mode mode' : Mode} {t t' : Transcript}

/-- The same text and the same fault, in environments that are the same. -/
structure Like (t t' : Transcript) : Prop where
  out : t.out = t'.out
  fault : t.fault = t'.fault
  envs : SameResults t.state.env t'.state.env

theorem Like.andThen {next next' : State → Transcript} (h : Like t t')
    (hnext : ∀ s s', SameResults s.env s'.env → Like (next s) (next' s')) :
    Like (t.andThen next) (t'.andThen next') := by
  unfold Transcript.andThen
  rw [← h.fault]
  cases t.fault with
  | some fault => exact h
  | none =>
    have hrest := hnext t.state t'.state h.envs
    exact ⟨congrArg₂ (· ++ ·) h.out hrest.out, hrest.fault, hrest.envs⟩

theorem reply_like (hlimit : mode.limit = mode'.limit) (prompt raw : List Char) {s s' : State}
    (hs : SameResults s.env s'.env) : Like (reply mode prompt raw s) (reply mode' prompt raw s') := by
  unfold reply
  split
  · exact ⟨rfl, rfl, hs⟩
  · have hrun := Session.runLine_agrees hlimit (content raw) s s' hs
    generalize Session.runLine mode (content raw) s = r at hrun ⊢
    generalize Session.runLine mode' (content raw) s' = r' at hrun ⊢
    cases hrun with
    | ok _ envs => exact ⟨rfl, rfl, envs⟩
    | error faults envs => exact ⟨rfl, congrArg some faults, envs⟩

theorem close_env (mode : Mode) (s : State) : (close mode s).env = s.env := by
  unfold close
  split <;> rfl

theorem replies_like (hlimit : mode.limit = mode'.limit) (prompt : List Char)
    (raws : List (List Char)) {s s' : State} (hs : SameResults s.env s'.env) :
    Like (replies mode prompt raws s) (replies mode' prompt raws s') := by
  induction raws generalizing s s' with
  | nil =>
    refine ⟨rfl, rfl, ?_⟩
    show SameResults (close mode s).env (close mode' s').env
    rw [close_env, close_env]
    exact hs
  | cons raw raws ih => exact (reply_like hlimit prompt raw hs).andThen fun _ _ => ih

theorem reply_silent (limit : Nat) (prompt raw : List Char) (s : State) :
    (reply ⟨false, limit⟩ prompt raw s).state.journal = s.journal := by
  unfold reply
  split
  · rfl
  · have hrun := Session.runLine_silent limit (content raw) s
    unfold stateAfter at hrun
    generalize Session.runLine ⟨false, limit⟩ (content raw) s = r at hrun ⊢
    cases r with
    | ok answer s' => exact hrun
    | error fault s' => exact hrun

theorem replies_silent (limit : Nat) (prompt : List Char) (raws : List (List Char)) (s : State) :
    (replies ⟨false, limit⟩ prompt raws s).state.journal = s.journal := by
  induction raws generalizing s with
  | nil => rfl
  | cons raw raws ih =>
    have hreply := reply_silent limit prompt raw s
    rw [replies]
    unfold andThen
    split
    · exact hreply
    · exact (ih _).trans hreply

end Transcript

namespace Program

theorem not_isVerbose {settings : Settings} (hdebug : settings.logLevel ≠ .debug)
    (heverything : settings.logLevel ≠ .everything) : settings.isVerbose = false := by
  unfold Settings.isVerbose
  cases hlevel : settings.logLevel with
  | debug => exact absurd hlevel hdebug
  | everything => exact absurd hlevel heverything
  | info | warning | error | critical => rfl

/-- The conversation of the program, without the prompt in front of it. -/
def replies (limit : Nat) (settings : Settings) (prompt : List Char) (raws : List (List Char)) :
    Transcript :=
  .replies (mode limit settings) prompt raws .initial

def outcome (prompt : List Char) (transcript : Transcript) : Outcome :=
  ⟨String.ofList (prompt ++ transcript.out), log transcript.state.journal, transcript.fault⟩

theorem run_eq (limit : Nat) (settings : Settings) (input : String) :
    run limit settings input = outcome settings.promptText.toList
      (replies limit settings settings.promptText.toList (lines input.toList)) := rfl

theorem replies_like (limit : Nat) (settings settings' : Settings) (prompt : List Char)
    (raws : List (List Char)) :
    (replies limit settings prompt raws).Like (replies limit settings' prompt raws) := by
  have hinitial : SameResults State.initial.env State.initial.env :=
    (Session.initial_isSound fun _ => True).sameResults
  have hlimit : (mode limit settings).limit = (mode limit settings').limit := rfl
  exact Transcript.replies_like hlimit prompt raws hinitial

/-- Under all log levels the program writes the same text and ends with the same fault, and under levels
above DEBUG it logs nothing. -/
theorem run_level_independent (limit : Nat) (prompt level level' : Option String) (input : String) :
    let settings : Settings := ⟨prompt, level⟩
    let settings' : Settings := ⟨prompt, level'⟩
    (run limit settings input).out = (run limit settings' input).out ∧
      (run limit settings input).fault = (run limit settings' input).fault ∧
      (settings.logLevel ≠ .debug → settings.logLevel ≠ .everything →
        (run limit settings input).log = "") := by
  intro settings settings'
  have hprompt : settings'.promptText = settings.promptText := rfl
  have hlike := replies_like limit settings settings' settings.promptText.toList (lines input.toList)
  have hsilent : settings.isVerbose = false →
      (replies limit settings settings.promptText.toList (lines input.toList)).state.journal = [] := by
    intro hquiet
    have hmode : mode limit settings = ⟨false, limit⟩ := congrArg (Mode.mk · limit) hquiet
    rw [replies, hmode]
    exact Transcript.replies_silent limit _ _ .initial
  rw [run_eq, run_eq, hprompt]
  unfold outcome
  refine ⟨?_, hlike.fault, fun hdebug heverything => ?_⟩
  · rw [hlike.out]
  · rw [hsilent (not_isVerbose hdebug heverything)]
    rfl

/-- Without a level nothing is logged, and the output is that of a session that is logged. -/
theorem run_level_independent_unset :
    let settings : Settings := ⟨none, none⟩
    let settings' : Settings := ⟨none, some " debug"⟩
    (settings.logLevel ≠ .debug ∧ settings.logLevel ≠ .everything) ∧ settings'.logLevel = .debug ∧
      (run 9 settings "(+ 1 2)\n").out = (run 9 settings' "(+ 1 2)\n").out ∧
      (run 9 settings "(+ 1 2)\n").log = "" := by
  intro settings settings'
  have hunset : settings.logLevel = .warning := by decide
  have hdebug : settings.logLevel ≠ .debug := by rw [hunset]; exact nofun
  have heverything : settings.logLevel ≠ .everything := by rw [hunset]; exact nofun
  obtain ⟨hout, -, hlog⟩ := run_level_independent 9 none none (some " debug") "(+ 1 2)\n"
  exact ⟨⟨hdebug, heverything⟩, by decide, hout, hlog hdebug heverything⟩

end Program
end SnapLisp
