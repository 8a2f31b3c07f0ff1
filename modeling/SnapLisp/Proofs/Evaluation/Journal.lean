import SnapLisp.Proofs.Evaluation.Agree
import SnapLisp.Proofs.Evaluation.Sound

/-!
# Evaluations and the journal

The journal does not matter to an evaluation, and neither does whether it is kept: where all bound values
are results, no note fails, so a verbose evaluation of a tree ends like one that is not
(`eval_same_of_results`). One that is not verbose writes nothing down (`eval_silent`).
-/

namespace SnapLisp

/-! ### Results are noted without fail -/

/-- All bound values are results. -/
def Environment.HoldsResults (env : Environment) : Prop :=
  ∀ e ∈ env.entries, e.2.IsResult fun _ => True

/-- One environment, which holds results. -/
def Environment.SameResults (env env' : Environment) : Prop :=
  env = env' ∧ env.HoldsResults

theorem Environment.IsSound.sameResults {env : Environment}
    (h : env.IsSound fun _ => True) : env.SameResults env :=
  ⟨rfl, fun e he => (h e he).2⟩

namespace Value

theorem trees_isClosed : IsClosed (·.IsTree fun _ => True) (·.IsResult fun _ => True) where
  head := fun h _ => by
    cases h with
    | list each => exact each _ List.mem_cons_self
  item := fun h v hv => by
    cases h with
    | list each => exact each v (List.mem_cons_of_mem _ hv)
  constant := fun h hconstant => by
    cases h with
    | number x => exact .number x
    | text chars => exact .text chars
    | nil => exact .nil
    | truth => exact .truth
    | symbol | list => cases hconstant
  body := fun h => by
    cases h with
    | lambda areNames tree => exact tree
  lambda := fun hparams hbody => by
    refine .lambda (fun name hname => ?_) hbody
    cases hparams with
    | list each =>
      cases each _ (List.mem_map_of_mem hname) with
      | symbol isName => exact isName
  number := .number
  text := fun _ => .text fun _ _ => trivial

theorem results_areNoted : AreNoted (·.IsResult fun _ => True) where
  printed := Evaluation.exists_printed?_args
  operator := fun h => by
    cases h with
    | builtin nonneg lt => exact Operator.exists_ofIndex nonneg lt

end Value

theorem Environment.sameResults_indistinct :
    Indistinct (·.IsTree fun _ => True) (·.IsResult fun _ => True) SameResults where
  get?_eq := fun h _ => h.1 ▸ rfl
  value := fun h _ hv => by
    obtain ⟨e, he, rfl⟩ := Option.map_eq_some_iff.1 hv
    exact h.2 e (List.mem_of_find?_eq_some he)
  exists_printed?_iff := fun h => h.1 ▸ Iff.rfl
  insert := fun h name v hv => by
    refine ⟨h.1 ▸ rfl, fun e he => ?_⟩
    rcases mem_of_mem_insertEntry he with rfl | he
    · exact hv
    · exact h.2 e he

namespace Evaluation
open EvalM

/-- Verbose or not, the evaluation of a tree ends in the same way. -/
theorem eval_same_of_results (verbose verbose' : Bool) (limit : Nat) {form : Value}
    (hform : form.IsTree fun _ => True) :
    Agree Environment.SameResults (· = ·) (·.IsResult fun _ => True)
      (eval verbose limit form) (eval verbose' limit form) := by
  have hagree := eval_agrees_of_notes Value.trees_isClosed Environment.sameResults_indistinct
    (.inr Value.results_areNoted : verbose = verbose' ∨ _) limit hform
  exact hagree.mono (fun _ _ h => h.eq fun _ _ h => h.1) fun _ h => h

end Evaluation

/-! ### Without notes -/

namespace EvalM

/-- However it is started, the run leaves the journal as it is. -/
def Silent {α : Type} (m : EvalM α) : Prop :=
  ∀ s, (stateAfter m s).journal = s.journal

namespace Silent
variable {α β : Type}

protected theorem pure (a : α) : Silent (pure a) := fun _ => rfl

protected theorem throw (fault : Fault) : Silent (throw fault : EvalM α) := fun _ => rfl

protected theorem bind {m : EvalM α} {k : α → EvalM β} (hm : Silent m) (hk : ∀ a, Silent (k a)) :
    Silent (m >>= k) := by
  intro s
  have hms := hm s
  unfold stateAfter at hms ⊢
  rw [bind_run]
  cases hrun : m s with
  | ok a s' =>
    rw [hrun] at hms
    exact (hk a s').trans hms
  | error fault s' =>
    rw [hrun] at hms
    exact hms

protected theorem tryCatch {m : EvalM α} {handle : Fault → EvalM α} (hm : Silent m)
    (hhandle : ∀ fault, Silent (handle fault)) : Silent (tryCatch m handle) := by
  intro s
  have hms := hm s
  unfold stateAfter at hms ⊢
  rw [tryCatch_run]
  cases hrun : m s with
  | ok a s' =>
    rw [hrun] at hms
    exact hms
  | error fault s' =>
    rw [hrun] at hms
    exact (hhandle fault s').trans hms

protected theorem ofExcept (e : Except Fault α) : Silent (ofExcept e : EvalM α) := by
  cases e with
  | ok a => exact .pure a
  | error fault => exact .throw fault

protected theorem printed (v : Value) : Silent (printed v) := by
  unfold EvalM.printed
  split
  · exact .pure _
  · exact .throw _

protected theorem note (channel : Channel) (text : Unit → EvalM String) :
    Silent (note false channel text) := fun _ => rfl

protected theorem lookup (name : String) : Silent (lookup name) :=
  .bind (fun _ => rfl) fun _ => .ofExcept _

protected theorem bindSymbol (name : String) (v : Value) : Silent (bindSymbol name v) := fun _ => rfl

protected theorem inCopy {m : EvalM α} (h : Silent m) (change : Environment → Environment) :
    Silent (inCopy change m) := by
  intro s
  have hms := h { s with env := change s.env }
  unfold stateAfter at hms ⊢
  rw [EvalM.inCopy]
  cases hrun : m { s with env := change s.env } with
  | ok a s' =>
    rw [hrun] at hms
    exact hms
  | error fault s' =>
    rw [hrun] at hms
    exact hms

end Silent
end EvalM

namespace Evaluation
open EvalM
variable {ev : Value → EvalM Value}

theorem paramNames_silent (params : List Value) : Silent (paramNames params) := by
  fun_induction paramNames params with
  | case1 => exact .pure _
  | case2 name rest ih => exact ih.bind fun _ => .pure _
  | case3 v rest _ => exact (Silent.printed v).bind fun _ => .throw _

theorem defun_silent (forms : List Value) : Silent (defun forms) := by
  unfold defun
  split
  · exact (paramNames_silent _).bind fun _ => (Silent.bindSymbol _ _).bind fun _ => .pure _
  · exact (Silent.printed _).bind fun _ => .throw _
  · exact (Silent.printed _).bind fun _ => .throw _
  · exact .throw _

section
variable (hev : ∀ form, Silent (ev form))
include hev

theorem setq_silent (forms : List Value) : Silent (setq ev forms) := by
  unfold setq
  split
  · exact .throw _
  · exact (hev _).bind fun _ => (Silent.bindSymbol _ _).bind fun _ => .pure _
  · exact .throw _
  · exact .throw _

theorem evalArgs_silent (forms : List Value) : Silent (evalArgs ev forms) := by
  induction forms with
  | nil => exact .pure _
  | cons form forms ih => exact (hev form).bind fun _ => ih.bind fun _ => .pure _

theorem apply_silent (head : Value) (forms : List Value) : Silent (apply false ev head forms) := by
  unfold apply
  split
  · refine (evalArgs_silent hev forms).bind fun _ => (Silent.note _ _).bind fun _ => ?_
    exact (Silent.ofExcept _).bind fun _ => .ofExcept _
  · split
    · refine (evalArgs_silent hev forms).bind fun _ => (Silent.note _ _).bind fun _ => ?_
      exact (hev _).inCopy _
    · exact .throw _
  · exact (Silent.printed _).bind fun _ => .throw _

theorem step_silent (form : Value) : Silent (step false ev form) := by
  unfold step
  split
  · exact .lookup _
  · exact .throw _
  · rename_i head forms
    cases SpecialForm.ofHead? head with
    | some special =>
      refine (Silent.note _ _).bind fun _ => ?_
      cases special with
      | setq => exact setq_silent hev forms
      | defun => exact defun_silent forms
    | none => exact (hev head).bind fun fn => apply_silent hev fn forms
  · split
    · exact .pure _
    · exact (Silent.printed _).bind fun _ => .throw _

end

theorem eval_silent (limit : Nat) (form : Value) : Silent (eval false limit form) := by
  induction limit generalizing form with
  | zero => exact .throw _
  | succ limit ih => exact step_silent ih form

end Evaluation
end SnapLisp
