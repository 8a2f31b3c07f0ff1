import SnapLisp.Evaluation.Eval
import SnapLisp.Proofs.Evaluation.Operator

/-!
# What evaluations keep

`Keeps I F Q m`: started in an environment with `I`, the evaluation `m` ends in one with `I` too,
with a value in `Q` or a fault in `F`. The rules follow the operations that evaluations are made of;
`inCopy` is the only one at which the environment inside differs from the one that is kept.
-/

namespace SnapLisp
namespace EvalM

/-- However `m` ends, it keeps `I`, and its values are in `Q` and its faults in `F`. -/
def Keeps {α : Type} (I : Environment → Prop) (F : Fault → Prop) (Q : α → Prop) (m : EvalM α) :
    Prop :=
  ∀ s, I s.env → match m s with
    | .ok a s' => Q a ∧ I s'.env
    | .error fault s' => F fault ∧ I s'.env

/-- The state that `m` ends in, with a value or with a fault. -/
def stateAfter {α : Type} (m : EvalM α) (s : State) : State :=
  match m s with
  | .ok _ s' | .error _ s' => s'

theorem bind_run {α β : Type} (m : EvalM α) (k : α → EvalM β) (s : State) :
    (m >>= k) s = match m s with
      | .ok a s' => k a s'
      | .error fault s' => .error fault s' := by
  show EStateM.bind m k s = _
  unfold EStateM.bind
  cases m s <;> rfl

theorem tryCatch_run {α : Type} (m : EvalM α) (handle : Fault → EvalM α) (s : State) :
    tryCatch m handle s = match m s with
      | .ok a s' => .ok a s'
      | .error fault s' => handle fault s' := by
  show EStateM.tryCatch m handle s = _
  delta EStateM.tryCatch
  cases m s <;> rfl

namespace Keeps
variable {α β : Type} {I : Environment → Prop} {F : Fault → Prop} {Q : α → Prop} {R : β → Prop}

protected theorem pure {a : α} (h : Q a) : Keeps I F Q (pure a) :=
  fun _ hs => ⟨h, hs⟩

protected theorem throw {fault : Fault} (h : F fault) : Keeps I F Q (throw fault : EvalM α) :=
  fun _ hs => ⟨h, hs⟩

protected theorem bind {m : EvalM α} {k : α → EvalM β} (hm : Keeps I F Q m)
    (hk : ∀ a, Q a → Keeps I F R (k a)) : Keeps I F R (m >>= k) := by
  intro s hs
  have hms := hm s hs
  rw [bind_run]
  cases hrun : m s with
  | ok a s' =>
    rw [hrun] at hms
    exact hk a hms.1 s' hms.2
  | error fault s' =>
    rw [hrun] at hms
    exact hms

theorem of_ok {m : EvalM α} (h : Keeps I F Q m) {s s' : State} {a : α} (hs : I s.env)
    (hrun : m s = .ok a s') : Q a ∧ I s'.env := by
  have hms := h s hs
  rwa [hrun] at hms

theorem exists_run {env : Environment} {a : α} {m : EvalM α}
    (h : Keeps (· = env) (fun _ => False) (· = a) m) (journal : List Note) :
    ∃ journal', m ⟨env, journal⟩ = .ok a ⟨env, journal'⟩ := by
  have hms := h ⟨env, journal⟩ rfl
  cases hrun : m ⟨env, journal⟩ with
  | error fault s =>
    rw [hrun] at hms
    exact hms.1.elim
  | ok a' s =>
    rw [hrun] at hms
    obtain ⟨rfl, henv⟩ := hms
    exact ⟨s.journal, by rw [← henv]⟩

protected theorem mono {F' : Fault → Prop} {Q' : α → Prop} {m : EvalM α} (h : Keeps I F Q m)
    (hF : ∀ fault, F fault → F' fault) (hQ : ∀ a, Q a → Q' a) : Keeps I F' Q' m := by
  intro s hs
  have hms := h s hs
  cases hrun : m s with
  | ok a s' =>
    rw [hrun] at hms
    exact ⟨hQ a hms.1, hms.2⟩
  | error fault s' =>
    rw [hrun] at hms
    exact ⟨hF fault hms.1, hms.2⟩

theorem imp {Q' : α → Prop} {m : EvalM α} (h : Keeps I F Q m) (hQ : ∀ a, Q a → Q' a) :
    Keeps I F Q' m :=
  h.mono (fun _ h => h) hQ

theorem faults {F' : Fault → Prop} {m : EvalM α} (h : Keeps I F Q m)
    (hF : ∀ fault, F fault → F' fault) : Keeps I F' Q m :=
  h.mono hF fun _ h => h

protected theorem ofExcept {e : Except Fault α} (hok : ∀ a, e = .ok a → Q a)
    (herror : ∀ fault, e = .error fault → F fault) : Keeps I F Q (ofExcept e : EvalM α) := by
  cases e with
  | ok a => exact .pure (hok a rfl)
  | error fault => exact .throw (herror fault rfl)

protected theorem tryCatch {F' : Fault → Prop} {m : EvalM α} {handle : Fault → EvalM α}
    (hm : Keeps I F' Q m) (hhandle : ∀ fault, F' fault → Keeps I F Q (handle fault)) :
    Keeps I F Q (tryCatch m handle) := by
  intro s hs
  have hms := hm s hs
  rw [tryCatch_run]
  cases hrun : m s with
  | ok a s' =>
    rw [hrun] at hms
    exact hms
  | error fault s' =>
    rw [hrun] at hms
    exact hhandle fault hms.1 s' hms.2

protected theorem note {verbose : Bool} {channel : Channel} {text : Unit → EvalM String}
    (h : Keeps I F (fun _ => True) (text ())) :
    Keeps I F (fun _ => True) (note verbose channel text) := by
  cases verbose with
  | false => exact .pure ⟨⟩
  | true => exact .bind h fun _ _ s hs => ⟨⟨⟩, hs⟩

protected theorem printed {Q : String → Prop} {v : Value}
    (h : ∀ text, v.printed? = some text → Q text)
    (hnone : v.printed? = none → F .integerTooLarge) : Keeps I F Q (printed v) := by
  unfold EvalM.printed
  split
  · exact .pure (h _ ‹_›)
  · exact .throw (hnone ‹_›)

theorem printed_some {v : Value} {text : String} (h : v.printed? = some text) :
    Keeps I F (· = text) (printed v) := by
  unfold EvalM.printed
  rw [h]
  exact .pure rfl

protected theorem lookup {Q : Value → Prop} {name : String}
    (h : ∀ env, I env → match env.lookup (.symbol name) with
      | .ok v => Q v
      | .error fault => F fault) : Keeps I F Q (lookup name) := by
  intro s hs
  have hname := h s.env hs
  have hrun : EvalM.lookup name s =
      (ofExcept (s.env.lookup (.symbol name)) : EvalM Value) s := rfl
  rw [hrun]
  cases hlookup : s.env.lookup (.symbol name) with
  | ok v =>
    rw [hlookup] at hname
    exact ⟨hname, hs⟩
  | error fault =>
    rw [hlookup] at hname
    exact ⟨hname, hs⟩

protected theorem bindSymbol {name : String} {v : Value}
    (h : ∀ env, I env → I (env.insert (.symbol name) v)) :
    Keeps I F (fun _ => True) (bindSymbol name v) :=
  fun s hs => ⟨⟨⟩, h s.env hs⟩

/-- The copy may have another invariant `J`, since it is dropped. -/
protected theorem inCopy {J : Environment → Prop} {change : Environment → Environment} {m : EvalM α}
    (h : Keeps J F Q m) (hchange : ∀ env, I env → J (change env)) :
    Keeps I F Q (inCopy change m) := by
  intro s hs
  have hms := h { s with env := change s.env } (hchange s.env hs)
  unfold EvalM.inCopy
  cases hrun : m { s with env := change s.env } with
  | ok a s' =>
    rw [hrun] at hms
    exact ⟨hms.1, hs⟩
  | error fault s' =>
    rw [hrun] at hms
    exact ⟨hms.1, hs⟩

theorem stateAfter {m : EvalM α} {s : State} (h : Keeps I F Q m) (hs : I s.env) :
    I (stateAfter m s).env := by
  have hms := h s hs
  unfold EvalM.stateAfter
  cases hrun : m s with
  | ok a s' =>
    rw [hrun] at hms
    exact hms.2
  | error fault s' =>
    rw [hrun] at hms
    exact hms.2

/-- Nothing is asked of any evaluation. -/
theorem trivial (m : EvalM α) :
    Keeps (fun _ => True) (fun _ => True) (fun _ => True) m := by
  intro s _
  cases m s with
  | ok a s' => exact ⟨⟨⟩, ⟨⟩⟩
  | error fault s' => exact ⟨⟨⟩, ⟨⟩⟩

end Keeps
end EvalM

namespace Evaluation
open EvalM
variable {I : Environment → Prop} {F : Fault → Prop}

theorem ofHead?_operator (op : Operator) : SpecialForm.ofHead? (.symbol op.name) = none := by
  cases op <;> rfl

/-- The head of an application is evaluated before its forms. -/
theorem eval_application {head : Value} (h : SpecialForm.ofHead? head = none) (verbose : Bool)
    (limit : Nat) (forms : List Value) : eval verbose (limit + 1) (.list (head :: forms)) =
      eval verbose limit head >>= fun fn => apply verbose (eval verbose limit) fn forms := by
  rw [eval, step]
  simp only [h]

theorem evalArgs_keeps {Q : Value → Prop} {ev : Value → EvalM Value} {forms : List Value}
    (h : ∀ form ∈ forms, Keeps I F Q (ev form)) :
    Keeps I F (fun args => ∀ v ∈ args, Q v) (evalArgs ev forms) := by
  induction forms with
  | nil => exact .pure (by simp)
  | cons form forms ih =>
    obtain ⟨hform, hforms⟩ := List.forall_mem_cons.1 h
    refine hform.bind fun v hv => ?_
    exact (ih hforms).bind fun args hargs => .pure (List.forall_mem_cons.2 ⟨hv, hargs⟩)

theorem paramNames_keeps {params : List Value}
    (h : ∀ v ∈ params, Keeps I F (fun text => F (.defunParam text)) (printed v)) :
    Keeps I F (fun names => ∀ name ∈ names, .symbol name ∈ params) (paramNames params) := by
  fun_induction paramNames params with
  | case1 => exact .pure (by simp)
  | case2 name rest ih =>
    refine (ih (List.forall_mem_cons.1 h).2).bind fun names hnames => .pure ?_
    refine List.forall_mem_cons.2 ⟨List.mem_cons_self, fun n hn => ?_⟩
    exact List.mem_cons_of_mem _ (hnames n hn)
  | case3 v rest _ => exact (h v List.mem_cons_self).bind fun _ htext => .throw htext

theorem builtinNote_keeps {index : Int} {op : Operator} {args : List Value}
    (hindex : Operator.ofIndex index = .ok op)
    (hargs : ∃ text, (Value.list args).printed? = some text) :
    Keeps I F (fun _ => True) (builtinNote index args) := by
  obtain ⟨text, htext⟩ := hargs
  rw [builtinNote, hindex]
  refine .bind (.pure rfl) fun op' (_ : op = op') => ?_
  exact (Keeps.printed_some htext).bind fun _ _ => .pure ⟨⟩

/-- The application of a builtin adds no faults but refusals to those of the arguments. -/
theorem apply_builtin_keeps {Q R : Value → Prop} {verbose : Bool} {ev : Value → EvalM Value}
    {index : Int} {forms : List Value} (hforms : ∀ form ∈ forms, Keeps I F Q (ev form))
    (hrefused : ∀ fault, fault.IsRefusal → F fault) (hnumber : ∀ x, R (.number x)) :
    Keeps I F R (apply verbose ev (.builtin index) forms) := by
  have hoperator : Keeps I F (fun _ => True) (ofExcept (Operator.ofIndex index)) :=
    .ofExcept (fun _ _ => ⟨⟩) fun fault h => hrefused fault (Operator.ofIndex_fault h)
  refine (evalArgs_keeps hforms).bind fun args _ => ?_
  refine (Keeps.note ?_).bind fun _ _ => ?_
  · refine hoperator.bind fun op _ => ?_
    have hargs : Keeps I F (fun _ => True) (printed (.list args)) :=
      .printed (fun _ _ => ⟨⟩) fun _ => hrefused _ .integerTooLarge
    exact hargs.bind fun _ _ => .pure ⟨⟩
  · refine hoperator.bind fun op _ => ?_
    refine .ofExcept (fun v hv => ?_) fun fault h => hrefused fault (Operator.run_fault h)
    obtain ⟨x, rfl⟩ := Operator.exists_number_of_run hv
    exact hnumber x

theorem lambdaNote_keeps {params : List String} {args : List Value}
    (hargs : ∃ text, (Value.list args).printed? = some text) :
    Keeps I F (fun _ => True) (lambdaNote params args) := by
  obtain ⟨text, htext⟩ := hargs
  exact (Keeps.printed_some htext).bind fun _ _ => .pure ⟨⟩

end Evaluation
end SnapLisp
