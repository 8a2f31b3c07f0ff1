import SnapLisp.Proofs.Evaluation.Order
import SnapLisp.Proofs.Session.Sound
import SnapLisp.Proofs.Source.Boundary

/-!
# Sources

What a session makes of a source. The expression that it reads at some place of a source is the one
that the grammar says (`readAt_grammar`). Text behind a source that leaves nothing open does not change
what is read of it, and evaluation does not see the journal. So evaluating two sources with blanks
between them is evaluating the one and then the other (`answer_append`).
-/

namespace SnapLisp

/-- How a fault in reading is raised. -/
def ReadFault.IsRaisedAs : ReadFault → Fault → Prop
  | illegalCharacter c, fault =>
    fault.kind = .wrongSyntax ∧ fault.message = "invalid token: " ++ c.toString
  | malformedNumeral numeral, fault =>
    fault.kind = .malformedNumeral ∧
      fault.message = "could not convert string to float: '" ++ numeral ++ "'"

theorem ReadFault.isRaisedAs (fault : ReadFault) : fault.IsRaisedAs (.unreadable fault) := by
  cases fault with
  | illegalCharacter c => exact ⟨rfl, rfl⟩
  | malformedNumeral numeral => exact ⟨rfl, rfl⟩

namespace Session
open EvalM Reading
variable {mode : Mode} {source rest left : List Char}

/-! ### One expression -/

/-- At any place of a source, a closing parenthesis or the end of the source is read as `nil`. A reading
that is no legal token is a fault if some list is open in front of it, or if it is the first one. Otherwise
what is read is the one tree with the tokens of the source, up to closing parentheses that are missing
at the end of the source. Nothing behind the expression is taken off the source, and no environment is
changed. -/
theorem readAt_grammar (rest left : List Char) :
    (Form.read rest = (.stop, left) ↔
      next? rest = none ∧ left = [] ∨ next? rest = some (.token .rparen, left)) ∧
    (∀ fault, Form.read rest = (.fault fault, left) ↔
      ∃ ts mid r, Begins rest ts mid ∧ Token.IsUnfinished 0 ts ∧ next? mid = some (r, left) ∧
        r.fault? = some fault) ∧
    (∀ v, Form.read rest = (.value v, left) ↔
      v.IsTree (fun _ => True) ∧ ∃ ts mid k, Begins rest ts mid ∧
        v.tokens = ts ++ .replicate k .rparen ∧
        (k = 0 ∧ left = mid ∨ 0 < k ∧ next? mid = none ∧ left = [])) ∧
    ∀ mode source env, Keeps (· = env)
      (fun fault => ∃ f after, Form.read rest = (.fault f, after) ∧ f.IsRaisedAs fault)
      (fun v => ∃ after, Form.read rest = (.value v, after) ∨
        Form.read rest = (.stop, after) ∧ v = .nil)
      (readAt mode source rest) := by
  refine ⟨Form.read_eq_stop_iff, fun _ => Form.read_eq_fault_iff, fun _ => Form.read_eq_value_iff, ?_⟩
  intro mode source env
  unfold readAt
  split
  · rename_i form after hread
    exact (Keeps.note (.pure ⟨⟩)).bind fun _ _ => .pure ⟨after, .inl hread⟩
  · rename_i after hread
    exact .pure ⟨after, .inr ⟨hread, rfl⟩⟩
  · rename_i fault after hread
    exact refuse_keeps ⟨fault, after, hread, fault.isRaisedAs⟩

/-! ### All expressions -/

section
variable {form : Value} {fault : ReadFault}

theorem evalRest_of_fault (h : Form.read rest = (.fault fault, left)) :
    evalRest mode source rest = refuse mode source left fault := by
  rw [evalRest]
  split <;> rename_i hread <;> rw [h] at hread <;> cases hread
  rfl

theorem evalRest_of_none (h : next? rest = none) : evalRest mode source rest = pure [] := by
  have hstop : Form.read rest = (.stop, []) := Form.read_eq_stop_iff.2 (.inl ⟨h, rfl⟩)
  rw [evalRest]
  split <;> rename_i hread <;> rw [hstop] at hread <;> cases hread
  rfl

theorem evalRest_of_stop (h : Form.read rest = (.stop, left)) :
    evalRest mode source rest = evalRest mode source left := by
  rw [evalRest]
  split <;> rename_i hread <;> rw [h] at hread <;> cases hread
  split
  · rename_i hnil
    rw [hnil, evalRest_of_none rfl]
  · rfl

theorem evalRest_of_value (h : Form.read rest = (.value form, left)) :
    evalRest mode source rest = do
      let v ← Evaluation.eval mode.verbose mode.limit form
      let vs ← evalRest mode source left
      return v :: vs := by
  rw [evalRest]
  split <;> rename_i hread <;> rw [h] at hread <;> cases hread
  split
  · rename_i hnil
    rw [hnil, evalRest_of_none rfl]
    rfl
  · rfl

end

/-! ### Two sources -/

/-- In the same environment `m` and `m'` end alike, whatever the journals are. -/
abbrev Same {α : Type} (m m' : EvalM α) : Prop :=
  Agree (· = ·) (· = ·) (fun _ => True) m m'

theorem refuse_bind {α β : Type} (fault : ReadFault) (source left : List Char) (k : α → EvalM β) :
    (refuse mode source left fault >>= k) = refuse mode source left fault := by
  unfold refuse
  cases fault with
  | illegalCharacter c =>
    rw [bind_assoc]
    rfl
  | malformedNumeral numeral => rfl

theorem eval_same (form : Value) :
    Same (Evaluation.eval mode.verbose mode.limit form)
      (Evaluation.eval mode.verbose mode.limit form) := by
  have hagree : Agree (· = ·) (Fault.SameButDump (· = ·)) (fun _ => True)
      (Evaluation.eval mode.verbose mode.limit form) (Evaluation.eval mode.verbose mode.limit form) :=
    Evaluation.eval_agrees Value.isClosed_true Environment.eq_indistinct mode.verbose mode.limit ⟨⟩
  exact hagree.mono (fun _ _ h => h.eq fun _ _ h => h) fun _ h => h

theorem Same.cons {m m' : EvalM (List Value)} (h : Same m m') (v : Value) :
    Same (do let vs ← m; return v :: vs) (do let vs ← m'; return v :: vs) :=
  h.bind fun _ _ => .pure ⟨⟩

theorem evalRest_same (mode : Mode) (source source' rest : List Char) :
    Same (evalRest mode source rest) (evalRest mode source' rest) := by
  fun_induction evalRest mode source rest with
  | case1 rest fault left hread =>
    rw [evalRest_of_fault hread]
    exact refuse_agrees fault _ _ _ _
  | case2 rest hread =>
    rw [evalRest_of_stop hread, evalRest_of_none rfl]
    exact .pure ⟨⟩
  | case3 rest left hread hleft ih =>
    rw [evalRest_of_stop hread]
    exact ih
  | case4 rest form left hread ih =>
    rw [evalRest_of_value hread]
    refine (eval_same form).bind fun v _ => ?_
    split
    · rename_i hnil
      rw [hnil, evalRest_of_none rfl]
      exact .pure ⟨⟩
    · rename_i hne
      exact (ih hne).cons v

theorem evalRest_congr {rest' : List Char} (h : next? rest = next? rest') :
    evalRest mode source rest = evalRest mode source rest' := by
  have hsame : Form.read rest = Form.read rest' := Form.readFrom_congr h
  cases hread : Form.read rest' with
  | mk form left =>
    rw [hread] at hsame
    cases form with
    | fault f => rw [evalRest_of_fault hsame, evalRest_of_fault hread]
    | stop => rw [evalRest_of_stop hsame, evalRest_of_stop hread]
    | value v => rw [evalRest_of_value hsame, evalRest_of_value hread]

/-- What is left behind the expressions of `rest` is evaluated last. -/
theorem evalRest_append {tail : List Char} (mode : Mode) (source source' source'' : List Char)
    (hapart : EndsApart rest) (hclosed : ¬ LeavesOpen rest) (htail : Delimits tail) :
    Same (evalRest mode source (rest ++ tail)) (do
      let vs ← evalRest mode source' rest
      let vs' ← evalRest mode source'' tail
      return vs ++ vs') := by
  induction hlength : rest.length using Nat.strong_induction_on generalizing rest with
  | _ n ih =>
    by_cases hnext : next? rest = none
    · rw [evalRest_congr (next?_append_of_none hnext tail), evalRest_of_none hnext]
      simpa using evalRest_same mode source source'' tail
    · cases hread : Form.read rest with
      | mk form left =>
        have hleft : left.length < n := hlength ▸ Form.length_lt_of_read hread hnext
        have hmore := Form.read_append hread hnext hclosed hapart htail
        cases form with
        | fault fault =>
          rw [evalRest_of_fault hmore, evalRest_of_fault hread, refuse_bind]
          exact refuse_agrees fault _ _ _ _
        | stop =>
          obtain ⟨ts, hbegins, hwhole⟩ := Form.begins_of_read hread hnext hclosed (by simp)
          rw [evalRest_of_stop hmore, evalRest_of_stop hread]
          exact ih _ hleft (hapart.of_begins hbegins)
            (fun h => hclosed (h.of_begins hbegins hwhole)) rfl
        | value v =>
          obtain ⟨ts, hbegins, hwhole⟩ := Form.begins_of_read hread hnext hclosed (by simp)
          rw [evalRest_of_value hmore, evalRest_of_value hread]
          simp only [bind_assoc]
          refine (eval_same v).bind fun v _ => ?_
          have hrest := ih _ hleft (hapart.of_begins hbegins)
            (fun h => hclosed (h.of_begins hbegins hwhole)) rfl
          simpa using hrest.cons v

/-- What is left of a run's end besides the journal. -/
def outcome {α : Type} : EStateM.Result Fault State α → Except Fault α × Environment
  | .ok a s => (.ok a, s.env)
  | .error fault s => (.error fault, s.env)

theorem Same.outcome_eq {α : Type} {m m' : EvalM α} (h : Same m m') {s s' : State}
    (hs : s.env = s'.env) : outcome (m s) = outcome (m' s') := by
  have hms := h s s' hs
  generalize m s = r, m' s' = r' at hms ⊢
  cases hms with
  | ok value envs => rw [outcome, outcome, envs]
  | error faults envs => rw [outcome, outcome, faults, envs]

theorem answer_evalSource (mode : Mode) (source : List Char) (env : Environment) :
    answer mode (.evalSource source) env =
      match outcome (evalRest mode source source ⟨env, []⟩) with
      | (.ok vs, env') => (.values vs, env')
      | (.error fault, env') => (.fault fault, env') := by
  unfold answer Request.run evalSource
  simp only [bind_run]
  cases evalRest mode source source ⟨env, []⟩ <;> rfl

/-- The answer to one source and then another as if they were one: the values of both, or the fault of
the first of them that has one. After a fault nothing more is evaluated. -/
def answerBoth (mode : Mode) (source source' : List Char) (env : Environment) :
    Answer × Environment :=
  match answer mode (.evalSource source) env with
  | (.values vs, env') =>
    match answer mode (.evalSource source') env' with
    | (.values vs', env'') => (.values (vs ++ vs'), env'')
    | faulted => faulted
  | faulted => faulted

/-- Two sources with blanks between them are evaluated one after the other, if the first ends in neither
an open string nor the constant T, and its end closes no list. -/
theorem answer_append (mode : Mode) {source source' blanks : List Char} (hapart : EndsApart source)
    (hclosed : ¬ LeavesOpen source) (hne : blanks ≠ []) (hblank : ∀ c ∈ blanks, isBlank c = true)
    (env : Environment) :
    answer mode (.evalSource (source ++ blanks ++ source')) env =
      answerBoth mode source source' env := by
  have htail : Delimits (blanks ++ source') := by
    obtain ⟨c, blanks, rfl⟩ := List.exists_cons_of_ne_nil hne
    exact .cons (.inl (hblank c List.mem_cons_self))
  have hblanks : evalRest mode source' (blanks ++ source') = evalRest mode source' source' :=
    evalRest_congr (next?_blanks_append hblank source')
  rw [List.append_assoc]
  have happend := (evalRest_append mode (source ++ (blanks ++ source')) source source' hapart hclosed
    htail).outcome_eq (Eq.refl (⟨env, []⟩ : State).env)
  rw [answer_evalSource, happend, bind_run, answerBoth, answer_evalSource mode source env]
  cases evalRest mode source source ⟨env, []⟩ with
  | error fault s => rfl
  | ok vs s =>
    -- Behind the first source the journal is not empty, but that makes no difference.
    have hsecond : outcome (evalRest mode source' source' s) =
        outcome (evalRest mode source' source' ⟨s.env, []⟩) :=
      (evalRest_same mode source' source' source').outcome_eq rfl
    dsimp only [outcome]
    rw [answer_evalSource, ← hsecond, hblanks, bind_run]
    cases evalRest mode source' source' s <;> rfl

/-- A binding that the first source makes, looked up by the second. -/
theorem answer_append_setq :
    let mode : Mode := ⟨false, 9⟩
    let source := ['(', 'S', 'E', 'T', 'Q', ' ', 'A', ' ', 'N', 'I', 'L', ')']
    EndsApart source ∧ ¬ LeavesOpen source ∧
      answer mode (.evalSource (source ++ ['\n'] ++ ['A'])) .initial =
        answerBoth mode source ['A'] .initial := by
  intro mode source
  have hbegins : Begins source [.lparen, .literal "SETQ", .literal "A", .nil, .rparen] [] :=
    .cons rfl rfl (.cons rfl rfl (.cons rfl rfl (.cons rfl rfl (.cons rfl rfl (.nil [])))))
  have hclosed : ¬ LeavesOpen source := by
    rintro ⟨ts, left, hbegins', hended, hopen⟩
    obtain ⟨rfl, rfl⟩ := hbegins.eq_of_ended rfl hbegins' hended
    cases hopen
  have hlexemes : Lexeme.all source = [(.mark '(', source.drop 1),
      (.word ['S', 'E', 'T', 'Q'], source.drop 5), (.word ['A'], source.drop 7),
      (.word ['N', 'I', 'L'], source.drop 11), (.mark ')', [])] := by
    refine (@Lexeme.all_of_split? source _ _ rfl).trans (congrArg _ ?_)
    refine (@Lexeme.all_of_split? (source.drop 1) _ _ rfl).trans (congrArg _ ?_)
    refine (@Lexeme.all_of_split? (source.drop 5) _ _ rfl).trans (congrArg _ ?_)
    refine (@Lexeme.all_of_split? (source.drop 7) _ _ rfl).trans (congrArg _ ?_)
    refine (@Lexeme.all_of_split? (source.drop 11) _ _ rfl).trans (congrArg _ ?_)
    exact Lexeme.all_of_split?_eq_none rfl
  have hapart : EndsApart source := by
    constructor
    · intro body left
      rw [hlexemes]
      exact nofun
    · intro left
      rw [Reading.all_eq, hlexemes]
      exact nofun
  have hblank : ∀ c ∈ ['\n'], isBlank c = true := List.forall_mem_singleton.2 rfl
  exact ⟨hapart, hclosed, answer_append mode hapart hclosed (by simp) hblank .initial⟩

end Session
end SnapLisp
