import SnapLisp.Proofs.Evaluation.Sound
import SnapLisp.Proofs.Session.Line

/-!
# Sound sessions

What a session can come to hold, answer and raise. A request reads trees and evaluates them, so in a
sound environment it has a sound answer and leaves the environment sound (`answer_sound`), whether it
succeeds or fails; a new session has the four builtins. By induction on the requests this holds for
all that a session goes through (`after_isSound`).
-/

namespace SnapLisp

/-- The faults that a session can meet in a source, all of whose characters have the property `p`. -/
def Fault.IsMet (p : Char → Prop) : Fault → Prop
  | .unreadable (.illegalCharacter c) => p c
  | .unreadable (.malformedNumeral _) => True
  | fault => fault.Arises p

theorem Fault.Arises.isMet {p : Char → Prop} {fault : Fault} (h : fault.Arises p) : fault.IsMet p := by
  cases h <;> constructor <;> assumption

/-- No number overflows, no builtin is missing, only the empty list cannot be evaluated, and only the
special forms refuse a symbol. -/
theorem Fault.IsMet.kind {p : Char → Prop} {fault : Fault} (h : fault.IsMet p) :
    fault.kind ≠ .overflow ∧ fault.kind ≠ .missingIndex ∧
      (fault.kind = .invalidExpression → fault = .emptyForm) ∧
      (fault.kind = .invalidSymbol → fault = .setqTarget ∨ ∃ name, fault = .defunName name) := by
  cases fault with
  | notDefinable | notEvaluable | integerTooLarge | noSuchBuiltin => cases h
  | unreadable fault => cases fault <;> simp [Fault.kind]
  | defunName name => simp [Fault.kind]
  | unbound | emptyForm | notApplicable | setqWithoutTarget | setqTarget | setqWithoutValue
  | defunLength | defunParams | defunParam | argumentCount | notNumber | noNumbers | depthExceeded =>
    simp [Fault.kind]

namespace Session

/-- The text that a request brings. -/
def Request.source : Request → List Char
  | runLine source | evalLine source | evalSource source => source

/-- The answers that a request can have. Lines are answered with the text of a result or with the
message of a fault; the other requests are answered with results, and let all faults out. -/
def Answer.IsSound (p : Char → Prop) : Request → Answer → Prop
  | .runLine _, .text s =>
    (∃ v : Value, v.IsResult p ∧ v.printed? = some s) ∨
      ∃ fault : Fault, fault.IsMet p ∧ fault.kind.isReported = true ∧ fault.message = s
  | .runLine _, .fault f => f.IsMet p ∧ f.kind.isReported = false
  | .evalLine _, .value v => v.IsResult p
  | .evalSource _, .values vs => ∀ v ∈ vs, v.IsResult p
  | .evalLine _, .fault f | .evalSource _, .fault f => f.IsMet p
  | _, _ => False

theorem Answer.IsSound.isMet {p : Char → Prop} {request : Request} {fault : Fault}
    (h : Answer.IsSound p request (.fault fault)) : fault.IsMet p := by
  cases request with
  | runLine line => exact h.1
  | evalLine source => exact h
  | evalSource source => exact h

/-- The environment of a session after the requests of a history. -/
def after (history : List (Mode × Request)) : Environment :=
  history.foldl (fun env asked => (answer asked.1 asked.2 env).2) .initial

open EvalM
variable {p : Char → Prop} {mode : Mode} {source : List Char}

/-- In sound environments `m` has values in `Q`, ends with no fault but those that can be met, and
keeps the environment sound. -/
abbrev Sound {α : Type} (p : Char → Prop) (Q : α → Prop) (m : EvalM α) : Prop :=
  Keeps (Environment.IsSound p) (Fault.IsMet p) Q m

theorem note_sound {channel : Channel} {text : String} :
    Sound p (fun _ => True) (note mode.verbose channel fun _ => pure text) :=
  .note (.pure ⟨⟩)

theorem refuse_sound {α : Type} {Q : α → Prop} {left : List Char} {fault : ReadFault}
    (h : (Form.fault fault).IsSound p) : Sound p Q (refuse mode source left fault) := by
  cases fault with
  | illegalCharacter c => exact refuse_keeps h
  | malformedNumeral numeral => exact refuse_keeps h

theorem eval_sound (hp : SpellsNames p) {form : Value}
    (hform : form.IsTree p) :
    Sound p (·.IsResult p) (Evaluation.eval mode.verbose mode.limit form) :=
  (Evaluation.eval_sound hp mode.verbose mode.limit hform).faults fun _ h => h.isMet

theorem readLine_sound (hsource : ∀ c ∈ source, p c) :
    Sound p (·.IsTree p) (readLine mode source) := by
  unfold readLine readAt
  split
  · rename_i form left hread
    exact note_sound.bind fun _ _ => .pure (Form.read_sound hsource hread).1
  · exact .pure .nil
  · rename_i fault left hread
    exact refuse_sound (Form.read_sound hsource hread).1

theorem evalLine_sound (hp : SpellsNames p)
    (hsource : ∀ c ∈ source, p c) : Sound p (·.IsResult p) (evalLine mode source) :=
  (readLine_sound hsource).bind fun _ hform => eval_sound hp hform

theorem evalRest_sound (hp : SpellsNames p) {rest : List Char}
    (hrest : ∀ c ∈ rest, p c) :
    Sound p (fun vs => ∀ v ∈ vs, v.IsResult p) (evalRest mode source rest) := by
  fun_induction evalRest mode source rest with
  | case1 rest fault left hread => exact refuse_sound (Form.read_sound hrest hread).1
  | case2 rest hread => exact .pure (by simp)
  | case3 rest left hread hleft ih => exact ih (Form.read_sound hrest hread).2
  | case4 rest form left hread ih =>
    obtain ⟨hform, hleft⟩ := Form.read_sound hrest hread
    refine (eval_sound hp hform).bind fun v hv => ?_
    split
    · exact .pure (List.forall_mem_singleton.2 hv)
    · rename_i hne
      exact (ih hne hleft).bind fun vs hvs => .pure (List.forall_mem_cons.2 ⟨hv, hvs⟩)

/-- A line is answered unless it has a malformed numeral or evaluates too deep. -/
theorem runLine_sound (hp : SpellsNames p)
    (hsource : ∀ c ∈ source, p c) :
    Keeps (Environment.IsSound p) (fun fault => fault.IsMet p ∧ fault.kind.isReported = false)
      (fun s => Answer.IsSound p (.runLine source) (.text s)) (runLine mode source) := by
  refine runLine_keeps (evalLine_sound hp hsource) (fun v hv => ?_) (fun fault hfault hreported => ?_)
    fun fault hfault hreported => ⟨hfault, hreported⟩
  · obtain ⟨text, htext⟩ := hv.exists_printed?
    exact ⟨text, htext, .inl ⟨v, hv, htext⟩⟩
  · exact Or.inr ⟨fault, hfault, hreported, rfl⟩

theorem run_sound (hp : SpellsNames p) {request : Request}
    (hsource : ∀ c ∈ request.source, p c) (mode : Mode) :
    Keeps (Environment.IsSound p) (fun fault => Answer.IsSound p request (.fault fault))
      (Answer.IsSound p request) (request.run mode) := by
  cases request with
  | runLine line => exact (runLine_sound hp hsource).bind fun s hs => .pure hs
  | evalLine source =>
    exact ((evalLine_sound hp hsource).faults fun _ h => h).bind fun v hv => .pure hv
  | evalSource source =>
    exact ((evalRest_sound hp hsource).faults fun _ h => h).bind fun vs hvs => .pure hvs

/-- In a sound environment the answer is sound, and the environment that it leaves is. -/
theorem answer_sound (hp : SpellsNames p) (mode : Mode)
    {request : Request} (hsource : ∀ c ∈ request.source, p c) {env : Environment}
    (henv : env.IsSound p) :
    (answer mode request env).1.IsSound p request ∧ (answer mode request env).2.IsSound p :=
  answer_keeps (run_sound hp hsource mode) henv

theorem initial_isSound (p : Char → Prop) : Environment.initial.IsSound p := by
  have hentries : Environment.initial.entries = Operator.bindings := rfl
  intro e he
  rw [hentries, Operator.bindings_eq] at he
  simp only [List.mem_cons, List.not_mem_nil, or_false] at he
  rcases he with rfl | rfl | rfl | rfl
  · exact ⟨⟨_, rfl, .operator (by decide)⟩, .builtin (by decide) (by decide)⟩
  · exact ⟨⟨_, rfl, .operator (by decide)⟩, .builtin (by decide) (by decide)⟩
  · exact ⟨⟨_, rfl, .operator (by decide)⟩, .builtin (by decide) (by decide)⟩
  · exact ⟨⟨_, rfl, .operator (by decide)⟩, .builtin (by decide) (by decide)⟩

theorem after_isSound (hp : SpellsNames p)
    {history : List (Mode × Request)} (hhistory : ∀ asked ∈ history, ∀ c ∈ asked.2.source, p c) :
    (after history).IsSound p := by
  have hall : ∀ env : Environment, env.IsSound p →
      (history.foldl (fun env asked => (answer asked.1 asked.2 env).2) env).IsSound p := by
    induction history with
    | nil => exact fun _ henv => henv
    | cons asked history ih =>
      obtain ⟨hasked, hhistory⟩ := List.forall_mem_cons.1 hhistory
      exact fun env henv => ih hhistory _ (answer_sound hp _ hasked henv).2
  exact hall _ (initial_isSound p)

/-- After any requests a session binds names to results, and whatever it is asked next, its answer is
made of results. What it raises is neither an overflow nor a missing builtin; the only form that it
cannot evaluate is the empty list, and only SETQ and DEFUN refuse a symbol. -/
theorem answer_after (history : List (Mode × Request)) (mode : Mode) (request : Request) :
    (after history).IsSound (fun _ => True) ∧
      (answer mode request (after history)).1.IsSound (fun _ => True) request ∧
      ∀ fault, (answer mode request (after history)).1 = .fault fault →
        fault.kind ≠ .overflow ∧ fault.kind ≠ .missingIndex ∧
        (fault.kind = .invalidExpression → fault.message = "cannot evaluate empty list") ∧
        (fault.kind = .invalidSymbol → fault = .setqTarget ∨ ∃ name, fault = .defunName name) := by
  have hnames : SpellsNames fun _ => True := fun _ _ _ _ => trivial
  have henv : (after history).IsSound (fun _ => True) :=
    after_isSound hnames fun _ _ _ _ => trivial
  have hsource : ∀ c ∈ request.source, (fun _ : Char => True) c := fun _ _ => trivial
  obtain ⟨hanswer, _⟩ := answer_sound hnames mode hsource henv
  refine ⟨henv, hanswer, fun fault hfault => ?_⟩
  rw [hfault] at hanswer
  obtain ⟨hoverflow, hmissing, hempty, hsymbol⟩ := hanswer.isMet.kind
  refine ⟨hoverflow, hmissing, fun hkind => ?_, hsymbol⟩
  exact congrArg Fault.message (hempty hkind)

end Session
end SnapLisp
