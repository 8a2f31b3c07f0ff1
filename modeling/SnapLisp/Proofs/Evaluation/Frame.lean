import SnapLisp.Proofs.Environment.Insert
import SnapLisp.Proofs.Evaluation.Keeps

/-!
# What an evaluation leaves of its environment

`Value.targets` reads off a form the names that its own SETQ and DEFUN forms bind. An evaluation of
the form, however it ends, only binds such names (`Environment.Extends`): what the bodies of lambdas
bind is bound in copies, so the bindings of the environment do not matter. `step_confined` is the
inductive step, for any evaluation of the subforms; the main statement is `eval_frame`.
-/

namespace SnapLisp
namespace Value

mutual

/-- The names that the special forms in a form bind. -/
def targets : Value → List String
  | list (head :: forms) =>
    match SpecialForm.ofHead? head with
    | some .setq => setqTargets forms
    | some .defun => defunTargets forms
    | none => targets head ++ itemTargets forms
  | _ => []

def setqTargets : List Value → List String
  | symbol name :: form :: _ => name :: targets form
  | [symbol name] => [name]
  | _ => []

def defunTargets : List Value → List String
  | symbol name :: _ => [name]
  | _ => []

def itemTargets : List Value → List String
  | [] => []
  | v :: vs => targets v ++ itemTargets vs

end

-- `(+ (SETQ A (DEFUN F () (SETQ B NIL))))` binds A and F; it would take a call of F to bind B.
example : targets (list [symbol "+", list [symbol "SETQ", symbol "A", list [symbol "DEFUN",
    symbol "F", list [], list [symbol "SETQ", symbol "B", nil]]]]) = ["A", "F"] := rfl

theorem mem_itemTargets_iff {forms : List Value} {name : String} :
    name ∈ itemTargets forms ↔ ∃ v ∈ forms, name ∈ v.targets := by
  induction forms with
  | nil => simp [itemTargets]
  | cons v forms ih => simp [itemTargets, ih]

end Value

namespace Environment

/-- From `env` to `env'` only names of `T` have been bound, new names behind the old ones. -/
structure Extends (T : List String) (env env' : Environment) : Prop where
  names : ∃ new : List String, env'.names = env.names ++ new.map .symbol ∧ ∀ n ∈ new, n ∈ T
  get?_eq : ∀ key, (∀ n ∈ T, key ≠ .symbol n) → env'.get? key = env.get? key

namespace Extends
variable {T T' : List String} {env env' env'' : Environment}

theorem refl (T : List String) (env : Environment) : env.Extends T env :=
  ⟨⟨[], by simp, by simp⟩, fun _ _ => rfl⟩

theorem trans (h : env.Extends T env') (h' : env'.Extends T env'') : env.Extends T env'' := by
  obtain ⟨new, hnames, hnew⟩ := h.names
  obtain ⟨new', hnames', hnew'⟩ := h'.names
  refine ⟨⟨new ++ new', ?_, ?_⟩, fun key hkey => ?_⟩
  · rw [hnames', hnames, List.map_append, List.append_assoc]
  · intro n hn
    rcases List.mem_append.1 hn with hn | hn
    · exact hnew n hn
    · exact hnew' n hn
  · rw [h'.get?_eq key hkey, h.get?_eq key hkey]

theorem mono (hT : ∀ n ∈ T, n ∈ T') (h : env.Extends T env') : env.Extends T' env' := by
  obtain ⟨new, hnames, hnew⟩ := h.names
  exact ⟨⟨new, hnames, fun n hn => hT n (hnew n hn)⟩,
    fun key hkey => h.get?_eq key fun n hn => hkey n (hT n hn)⟩

theorem insert {name : String} (hname : name ∈ T) (v : Value) :
    env.Extends T (env.insert (.symbol name) v) := by
  refine ⟨?_, fun key hkey => get?_insert_of_ne (hkey name hname)⟩
  rcases env.names_insert (.symbol name) v with hnames | hnames
  · exact ⟨[], by simpa using hnames, by simp⟩
  · exact ⟨[name], by simpa using hnames, by simpa using hname⟩

end Extends
end Environment

namespace EvalM

/-- Whatever `m` starts from and however it ends, it only binds names of `T`. -/
def Confined {α : Type} (T : List String) (m : EvalM α) : Prop :=
  ∀ env : Environment, Keeps (env.Extends T) (fun _ => True) (fun _ => True) m

namespace Confined
variable {α β : Type} {T T' : List String}

theorem mono {m : EvalM α} (hT : ∀ n ∈ T, n ∈ T') (h : Confined T m) : Confined T' m := by
  intro env s hs
  -- From the state that `m` starts in, not from `env`, since other names of `T'` may be bound by now.
  have hms := h s.env s (.refl T s.env)
  cases hrun : m s with
  | ok a s' =>
    rw [hrun] at hms
    exact ⟨⟨⟩, hs.trans (hms.2.mono hT)⟩
  | error fault s' =>
    rw [hrun] at hms
    exact ⟨⟨⟩, hs.trans (hms.2.mono hT)⟩

protected theorem pure (T : List String) (a : α) : Confined T (pure a) :=
  fun _ => .pure ⟨⟩

protected theorem throw (T : List String) (fault : Fault) : Confined T (throw fault : EvalM α) :=
  fun _ => .throw ⟨⟩

protected theorem bind {m : EvalM α} {k : α → EvalM β} (hm : Confined T m)
    (hk : ∀ a, Confined T (k a)) : Confined T (m >>= k) :=
  fun env => .bind (hm env) fun a _ => hk a env

protected theorem ofExcept (T : List String) (e : Except Fault α) :
    Confined T (ofExcept e : EvalM α) :=
  fun _ => .ofExcept (fun _ _ => ⟨⟩) fun _ _ => ⟨⟩

protected theorem printed (T : List String) (v : Value) : Confined T (printed v) :=
  fun _ => .printed (fun _ _ => ⟨⟩) fun _ => ⟨⟩

protected theorem note {verbose : Bool} {channel : Channel} {text : Unit → EvalM String}
    (h : Confined T (text ())) : Confined T (note verbose channel text) :=
  fun env => .note (h env)

protected theorem lookup (T : List String) (name : String) : Confined T (lookup name) := by
  intro env
  refine .lookup fun env' _ => ?_
  split
  · exact ⟨⟩
  · exact ⟨⟩

protected theorem bindSymbol {name : String} (hname : name ∈ T) (v : Value) :
    Confined T (bindSymbol name v) :=
  fun _ => .bindSymbol fun _ h => h.trans (.insert hname v)

/-- What happens in a copy does not matter. -/
protected theorem inCopy (T : List String) (change : Environment → Environment) (m : EvalM α) :
    Confined T (inCopy change m) :=
  fun _ => .inCopy (.trivial m) fun _ _ => ⟨⟩

end Confined
end EvalM

namespace Evaluation
open EvalM
variable {verbose : Bool} {ev : Value → EvalM Value}

theorem setq_confined (hev : ∀ form, Confined form.targets (ev form)) (forms : List Value) :
    Confined (Value.setqTargets forms) (setq ev forms) := by
  unfold setq
  split
  · exact .throw _ _
  · rename_i name form _
    have hform : Confined (name :: form.targets) (ev form) :=
      (hev form).mono fun _ hn => List.mem_cons_of_mem _ hn
    exact hform.bind fun v => (Confined.bindSymbol List.mem_cons_self v).bind fun _ => .pure _ _
  · exact .throw _ _
  · exact .throw _ _

theorem paramNames_confined (T : List String) (params : List Value) :
    Confined T (paramNames params) :=
  fun env => (paramNames_keeps fun v _ => Confined.printed T v env).imp fun _ _ => ⟨⟩

theorem defun_confined (forms : List Value) : Confined (Value.defunTargets forms) (defun forms) := by
  unfold defun
  split
  · rename_i name params body
    refine (paramNames_confined _ params).bind fun _ => ?_
    exact (Confined.bindSymbol List.mem_cons_self _).bind fun _ => .pure _ _
  · exact (Confined.printed _ _).bind fun _ => .throw _ _
  · exact (Confined.printed _ _).bind fun _ => .throw _ _
  · exact .throw _ _

theorem evalArgs_confined (hev : ∀ form, Confined form.targets (ev form)) (forms : List Value) :
    Confined (Value.itemTargets forms) (evalArgs ev forms) := by
  intro env
  have hforms : ∀ form ∈ forms, Confined (Value.itemTargets forms) (ev form) := fun form hform =>
    (hev form).mono fun _ hname => Value.mem_itemTargets_iff.2 ⟨form, hform, hname⟩
  exact (evalArgs_keeps fun form hform => hforms form hform env).imp fun _ _ => ⟨⟩

theorem apply_confined (hev : ∀ form, Confined form.targets (ev form)) (head : Value)
    (forms : List Value) : Confined (Value.itemTargets forms) (apply verbose ev head forms) := by
  unfold apply
  split
  · refine (evalArgs_confined hev forms).bind fun args => ?_
    refine (Confined.note ?_).bind fun _ => ?_
    · exact (Confined.ofExcept _ _).bind fun _ => (Confined.printed _ _).bind fun _ => .pure _ _
    · exact (Confined.ofExcept _ _).bind fun _ => .ofExcept _ _
  · split
    · refine (evalArgs_confined hev forms).bind fun args => ?_
      refine (Confined.note ?_).bind fun _ => .inCopy _ _ _
      exact (Confined.printed _ _).bind fun _ => .pure _ _
    · exact .throw _ _
  · exact (Confined.printed _ _).bind fun _ => .throw _ _

/-- One evaluation is confined to the targets of its form if the evaluations of subforms are. -/
theorem step_confined (hev : ∀ form, Confined form.targets (ev form)) (form : Value) :
    Confined form.targets (step verbose ev form) := by
  unfold step
  split
  · exact .lookup _ _
  · exact .throw _ _
  · rename_i head forms
    rw [Value.targets]
    cases SpecialForm.ofHead? head with
    | some special =>
      refine (Confined.note (.pure _ _)).bind fun _ => ?_
      cases special with
      | setq => exact setq_confined hev forms
      | defun => exact defun_confined forms
    | none =>
      have hhead : Confined (head.targets ++ Value.itemTargets forms) (ev head) :=
        (hev head).mono fun _ hn => List.mem_append_left _ hn
      exact hhead.bind fun fn => (apply_confined hev fn forms).mono fun _ hn =>
        List.mem_append_right _ hn
  · split
    · exact .pure _ _
    · exact (Confined.printed _ _).bind fun _ => .throw _ _

theorem eval_confined (verbose : Bool) (limit : Nat) (form : Value) :
    Confined form.targets (eval verbose limit form) := by
  induction limit generalizing form with
  | zero => exact .throw _ _
  | succ limit ih => exact step_confined ih form

/-- However an evaluation ends, the names that were bound are the first ones afterwards, in their
order; the names behind them are targets of the form, and what is no target keeps its value. -/
theorem eval_frame (verbose : Bool) (limit : Nat) (form : Value) (s : State) :
    let env := (stateAfter (eval verbose limit form) s).env
    env.names.Pairwise (fun a b => a.same b = false) ∧
      (∃ new : List String, env.names = s.env.names ++ new.map .symbol ∧
        ∀ n ∈ new, n ∈ form.targets) ∧
      ∀ key, (∀ n ∈ form.targets, key ≠ .symbol n) → env.get? key = s.env.get? key := by
  have hextends := (eval_confined verbose limit form s.env).stateAfter (.refl _ s.env)
  refine ⟨?_, hextends.names, hextends.get?_eq⟩
  exact List.pairwise_map.2 (stateAfter (eval verbose limit form) s).env.distinct

end Evaluation
end SnapLisp
