import SnapLisp.Proofs.Evaluation.Keeps

/-!
# Evaluations and their limit

A run that ends below its limit does not depend on it: under a higher limit it is the same run
(`eval_ascending`). A run that exceeds every limit still leaves one environment from some limit on
(`eval_settles`), since up to the place where it exceeds the limit it consists of runs that end, and
the place is the same under all limits that are high enough: a subform of the form, which is smaller,
or the body of a lambda, which runs in a copy. Both are proved from a step (`step_approximates`,
`step_settles`), the first by induction on the limit and the second by induction on the form.
-/

namespace SnapLisp
namespace EvalM
variable {α β : Type}

/-- Where `m` does not exceed its limit, `m'` runs as `m` does. -/
def Approximates (m m' : EvalM α) : Prop :=
  ∀ s, (∃ s', m s = .error .depthExceeded s') ∨ m' s = m s

namespace Approximates

theorem refl (m : EvalM α) : Approximates m m :=
  fun _ => .inr rfl

theorem trans {m m' m'' : EvalM α} (h : Approximates m m') (h' : Approximates m' m'') :
    Approximates m m'' := by
  intro s
  rcases h s with hdeep | heq
  · exact .inl hdeep
  · rcases h' s with hdeep | heq'
    · exact .inl (heq ▸ hdeep)
    · exact .inr (heq'.trans heq)

theorem exceeded (m : EvalM α) : Approximates (throw .depthExceeded) m :=
  fun s => .inl ⟨s, rfl⟩

protected theorem bind {m m' : EvalM α} {k k' : α → EvalM β} (hm : Approximates m m')
    (hk : ∀ a, Approximates (k a) (k' a)) : Approximates (m >>= k) (m' >>= k') := by
  intro s
  rw [bind_run, bind_run]
  rcases hm s with ⟨s', hdeep⟩ | heq
  · rw [hdeep]
    exact .inl ⟨s', rfl⟩
  · rw [heq]
    cases m s with
    | ok a s' => exact hk a s'
    | error fault s' => exact .inr rfl

protected theorem inCopy {m m' : EvalM α} (h : Approximates m m')
    (change : Environment → Environment) :
    Approximates (inCopy change m) (inCopy change m') := by
  intro s
  unfold EvalM.inCopy
  rcases h { s with env := change s.env } with ⟨s', hdeep⟩ | heq
  · rw [hdeep]
    exact .inl ⟨_, rfl⟩
  · rw [heq]
    exact .inr rfl

end Approximates

/-- A run under each limit, none of which depends on its limit where it does not exceed it. -/
def Ascending (m : Nat → EvalM α) : Prop :=
  ∀ limit limit', limit ≤ limit' → Approximates (m limit) (m limit')

/-- Whatever the runs start from, from some limit on they all leave the same environment. -/
def Settles (m : Nat → EvalM α) : Prop :=
  ∀ s, ∃ env start, ∀ limit, start ≤ limit → (stateAfter (m limit) s).env = env

namespace Settles

theorem const (m : EvalM α) : Settles fun _ => m :=
  fun s => ⟨(EvalM.stateAfter m s).env, 0, fun _ _ => rfl⟩

theorem of_succ {m : Nat → EvalM α} (h : Settles fun limit => m (limit + 1)) : Settles m := by
  intro s
  obtain ⟨env, start, hsettled⟩ := h s
  refine ⟨env, start + 1, fun limit hlimit => ?_⟩
  obtain ⟨limit, rfl⟩ := Nat.exists_eq_add_of_le' (Nat.le_of_add_left_le hlimit)
  exact hsettled limit (Nat.le_of_succ_le_succ hlimit)

/-- The copy is dropped, so it does not matter whether its environment settles. -/
protected theorem inCopy (change : Environment → Environment) (m : Nat → EvalM α) :
    Settles fun limit => inCopy change (m limit) := by
  intro s
  refine ⟨s.env, 0, fun limit _ => ?_⟩
  simp only [EvalM.stateAfter, EvalM.inCopy]
  cases m limit { s with env := change s.env } <;> rfl

protected theorem bind {m : Nat → EvalM α} {k : Nat → α → EvalM β} (hasc : Ascending m)
    (hm : Settles m) (hk : ∀ a, Settles fun limit => k limit a) :
    Settles fun limit => m limit >>= k limit := by
  intro s
  by_cases hdeep : ∀ limit, ∃ s', m limit s = .error .depthExceeded s'
  · obtain ⟨env, start, hsettled⟩ := hm s
    refine ⟨env, start, fun limit hlimit => ?_⟩
    rw [← hsettled limit hlimit]
    obtain ⟨s', hrun⟩ := hdeep limit
    simp only [EvalM.stateAfter, bind_run, hrun]
  · -- From this limit on the first part is always the same run, so the rest starts from one state.
    obtain ⟨enough, hended⟩ := Classical.not_forall.1 hdeep
    have hsame : ∀ limit, enough ≤ limit → m limit s = m enough s := fun limit hlimit =>
      (hasc enough limit hlimit s).resolve_left hended
    cases hrun : m enough s with
    | ok a s' =>
      obtain ⟨env, start, hsettled⟩ := hk a s'
      refine ⟨env, max enough start, fun limit hlimit => ?_⟩
      obtain ⟨henough, hstart⟩ := Nat.max_le.1 hlimit
      rw [← hsettled limit hstart]
      simp only [EvalM.stateAfter, bind_run, hsame limit henough, hrun]
    | error fault s' =>
      refine ⟨s'.env, enough, fun limit hlimit => ?_⟩
      simp only [EvalM.stateAfter, bind_run, hsame limit hlimit, hrun]

end Settles
end EvalM

namespace Evaluation
open EvalM
variable {verbose : Bool}

/-! ### Runs that end -/

section
variable {ev ev' : Value → EvalM Value} (hev : ∀ form, Approximates (ev form) (ev' form))
include hev

theorem setq_approximates (forms : List Value) : Approximates (setq ev forms) (setq ev' forms) := by
  unfold setq
  split
  · exact .refl _
  · exact (hev _).bind fun _ => .refl _
  · exact .refl _
  · exact .refl _

theorem evalArgs_approximates (forms : List Value) :
    Approximates (evalArgs ev forms) (evalArgs ev' forms) := by
  induction forms with
  | nil => exact .refl _
  | cons form forms ih => exact (hev form).bind fun _ => ih.bind fun _ => .refl _

theorem apply_approximates (head : Value) (forms : List Value) :
    Approximates (apply verbose ev head forms) (apply verbose ev' head forms) := by
  unfold apply
  split
  · exact (evalArgs_approximates hev forms).bind fun _ => .refl _
  · rename_i params body
    split
    · refine (evalArgs_approximates hev forms).bind fun args => ?_
      exact (Approximates.refl _).bind fun _ => (hev body).inCopy _
    · exact .refl _
  · exact .refl _

theorem step_approximates (form : Value) :
    Approximates (step verbose ev form) (step verbose ev' form) := by
  unfold step
  split
  · exact .refl _
  · exact .refl _
  · rename_i head forms
    cases SpecialForm.ofHead? head with
    | some special =>
      refine (Approximates.refl _).bind fun _ => ?_
      cases special with
      | setq => exact setq_approximates hev forms
      | defun => exact .refl _
    | none => exact (hev head).bind fun fn => apply_approximates hev fn forms
  · exact .refl _

end

theorem eval_approximates_succ (verbose : Bool) (limit : Nat) (form : Value) :
    Approximates (eval verbose limit form) (eval verbose (limit + 1) form) := by
  induction limit generalizing form with
  | zero => exact .exceeded _
  | succ limit ih => exact step_approximates ih form

theorem eval_ascending (verbose : Bool) (form : Value) :
    Ascending fun limit => eval verbose limit form := by
  intro limit limit' hle
  induction hle with
  | refl => exact .refl _
  | step _ ih => exact ih.trans (eval_approximates_succ verbose _ form)

/-! ### Environments that are left -/

section
variable {ev : Nat → Value → EvalM Value} (hasc : ∀ form, Ascending fun limit => ev limit form)
include hasc

theorem evalArgs_ascending (forms : List Value) :
    Ascending fun limit => evalArgs (ev limit) forms :=
  fun limit limit' hle => evalArgs_approximates (fun form => hasc form limit limit' hle) forms

theorem setq_settles {forms : List Value}
    (hforms : ∀ form ∈ forms, Settles fun limit => ev limit form) :
    Settles fun limit => setq (ev limit) forms := by
  unfold setq
  split
  · exact .const _
  · exact .bind (hasc _) (hforms _ (by simp)) fun _ => .const _
  · exact .const _
  · exact .const _

theorem evalArgs_settles {forms : List Value}
    (hforms : ∀ form ∈ forms, Settles fun limit => ev limit form) :
    Settles fun limit => evalArgs (ev limit) forms := by
  induction forms with
  | nil => exact .const _
  | cons form forms ih =>
    obtain ⟨hform, hforms⟩ := List.forall_mem_cons.1 hforms
    refine .bind (hasc form) hform fun v => ?_
    exact .bind (evalArgs_ascending hasc forms) (ih hforms) fun _ => .const _

theorem apply_settles (head : Value) {forms : List Value}
    (hforms : ∀ form ∈ forms, Settles fun limit => ev limit form) :
    Settles fun limit => apply verbose (ev limit) head forms := by
  have hargs := evalArgs_ascending hasc forms
  unfold apply
  split
  · exact .bind hargs (evalArgs_settles hasc hforms) fun _ => .const _
  · split
    · refine .bind hargs (evalArgs_settles hasc hforms) fun args => ?_
      exact .bind (fun _ _ _ => .refl _) (.const _) fun _ => .inCopy _ _
    · exact .const _
  · exact .const _

theorem step_settles {form : Value}
    (hitems : ∀ items, form = .list items → ∀ v ∈ items, Settles fun limit => ev limit v) :
    Settles fun limit => step verbose (ev limit) form := by
  unfold step
  split
  · exact .const _
  · exact .const _
  · rename_i head forms
    obtain ⟨hhead, hforms⟩ := List.forall_mem_cons.1 (hitems _ rfl)
    cases SpecialForm.ofHead? head with
    | some special =>
      refine .bind (fun _ _ _ => .refl _) (.const _) fun _ => ?_
      cases special with
      | setq => exact setq_settles hasc hforms
      | defun => exact .const _
    | none => exact .bind (hasc head) hhead fun fn => apply_settles hasc fn hforms
  · exact .const _

end

-- By induction on the form and not on the limit: a body that is run is no part of the form, but as it
-- runs in a copy, nothing has to be known of it.
theorem eval_settles (verbose : Bool) (form : Value) :
    Settles fun limit => eval verbose limit form :=
  .of_succ <| step_settles (eval_ascending verbose) fun _ _ v _ => eval_settles verbose v
termination_by form
decreasing_by
  subst form
  exact Value.sizeOf_item_lt ‹v ∈ _›

/-- A run that does not exceed its limit is the same run under all higher limits. Whether or not a
form ever ends, the environment that it leaves is the same under all limits from some limit on. -/
theorem eval_limit_independent (verbose : Bool) (form : Value) (s : State) :
    (∀ limit limit', limit ≤ limit' →
      (∀ s', eval verbose limit form s ≠ .error .depthExceeded s') →
      eval verbose limit' form s = eval verbose limit form s) ∧
    ∃ env start, ∀ limit, start ≤ limit →
      (stateAfter (eval verbose limit form) s).env = env := by
  refine ⟨fun limit limit' hle hended => ?_, eval_settles verbose form s⟩
  rcases eval_ascending verbose form limit limit' hle s with ⟨s', hdeep⟩ | heq
  · exact absurd hdeep (hended s')
  · exact heq

/-! ### A function that calls itself -/

theorem lookup_run {name : String} {v : Value} {s : State}
    (h : s.env.get? (.symbol name) = some v) : EvalM.lookup name s = .ok v s := by
  show (ofExcept (s.env.lookup (.symbol name)) : EvalM Value) s = _
  rw [Environment.lookup, h]
  rfl

theorem lookup_fault_run {name : String} {s : State} {fault : Fault}
    (h : s.env.lookup (.symbol name) = .error fault) : EvalM.lookup name s = .error fault s := by
  show (ofExcept (s.env.lookup (.symbol name)) : EvalM Value) s = _
  rw [h]
  rfl

theorem apply_thunk_run {ev : Value → EvalM Value} {body : Value} {s s' : State} {fault : Fault}
    (h : ev body s = .error fault s') :
    ∃ s'', apply false ev (.lambda [] body) [] s = .error fault s'' := by
  refine ⟨{ s' with env := s.env }, ?_⟩
  show inCopy (·.bindParams [] []) (ev body) s = _
  simp only [inCopy, Environment.bindParams, List.zip_nil_left, List.foldl_nil, h]

/-- A function without parameters that does nothing but call itself exceeds every limit. -/
theorem eval_loop {name : String} (hname : SpecialForm.ofHead? (.symbol name) = none) {s : State}
    (hloop : s.env.get? (.symbol name) = some (.lambda [] (.list [.symbol name]))) (limit : Nat) :
    ∃ s', eval false limit (.list [.symbol name]) s = .error .depthExceeded s' := by
  induction limit with
  | zero => exact ⟨s, rfl⟩
  | succ limit ih =>
    rw [eval_application hname]
    cases limit with
    | zero => exact ⟨s, rfl⟩
    | succ limit =>
      have hhead : eval false (limit + 1) (.symbol name) s = .ok _ s := lookup_run hloop
      obtain ⟨s', hrun⟩ := ih
      rw [bind_run, hhead]
      exact apply_thunk_run hrun

/-- With F such a function, `(SETQ A F)` has its value under every limit from two on, and `((SETQ A F))`
exceeds every limit and leaves one environment from some limit on. -/
theorem eval_limit_independent_loop :
    let loop := Value.lambda [] (.list [.symbol "F"])
    let s : State := ⟨Environment.empty.insert (.symbol "F") loop, []⟩
    let call := Value.list [.symbol "SETQ", .symbol "A", .symbol "F"]
    (∀ limit, 2 ≤ limit → eval false limit call s = eval false 2 call s) ∧
      (∀ limit, ∃ s', eval false limit (.list [call]) s = .error .depthExceeded s') ∧
      ∃ env start, ∀ limit, start ≤ limit →
        (stateAfter (eval false limit (.list [call])) s).env = env := by
  intro loop s call
  have hcall : eval false 2 call s = .ok loop ⟨s.env.insert (.symbol "A") loop, []⟩ := rfl
  have hsame : ∀ limit, 2 ≤ limit → eval false limit call s = eval false 2 call s := by
    intro limit hle
    refine (eval_limit_independent false call s).1 2 limit hle fun s' hdeep => ?_
    rw [hcall] at hdeep
    cases hdeep
  refine ⟨hsame, fun limit => ?_, (eval_limit_independent false _ s).2⟩
  match limit with
  | 0 => exact ⟨s, rfl⟩
  | 1 => exact ⟨s, rfl⟩
  | 2 => exact ⟨s, rfl⟩
  | limit + 3 =>
    obtain ⟨s', hrun⟩ := @eval_loop "F" rfl ⟨s.env.insert (.symbol "A") loop, []⟩ rfl (limit + 2)
    have hstep : eval false (limit + 3) (.list [call]) s =
        (eval false (limit + 2) call >>= fun fn => apply false (eval false (limit + 2)) fn []) s := rfl
    rw [hstep, bind_run, hsame (limit + 2) (by omega), hcall]
    exact apply_thunk_run hrun

end Evaluation
end SnapLisp
