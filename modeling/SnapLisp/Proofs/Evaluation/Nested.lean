import Mathlib.Data.List.Induction
import SnapLisp.Proofs.Evaluation.Limit
import SnapLisp.Proofs.Evaluation.Order
import SnapLisp.Proofs.Evaluation.Result

/-!
# Flat and nested applications

An operator folds its arguments from the left, so an application of it to many forms can be written as
applications to two, nested to the left. `Gives` is evaluation with a value, under some limit and whatever
the journal is; forms that are evaluated one after the other are in `GiveAll`. An application of a builtin
gives what the operator gives for the values of its forms (`gives_application_iff`), and the flat and the
nested form have the same forms in the same order (`gives_leftNested_iff`). The inner heads are looked up
before the first form is evaluated, so it does not matter whether a form binds the operator's name anew.
-/

namespace SnapLisp
namespace Evaluation
open EvalM
variable {verbose : Bool} {env env' env'' : Environment} {form v : Value} {forms vs : List Value}
  {limit : Nat} {journal : List Note}

/-! ### What forms give -/

/-- Under some limit the form has this value, and leaves the environment `env'`. -/
def Gives (verbose : Bool) (env : Environment) (form v : Value) (env' : Environment) : Prop :=
  ∃ limit journal journal', eval verbose limit form ⟨env, journal⟩ = .ok v ⟨env', journal'⟩

/-- One after the other the forms have these values. -/
inductive GiveAll (verbose : Bool) :
    Environment → List Value → List Value → Environment → Prop
  | nil (env : Environment) : GiveAll verbose env [] [] env
  | cons {env env' env'' : Environment} {form v : Value} {forms vs : List Value}
    (first : Gives verbose env form v env') (rest : GiveAll verbose env' forms vs env'') :
    GiveAll verbose env (form :: forms) (v :: vs) env''

/-- The journal at the start makes no difference. -/
theorem exists_run_of_run {s : State} (h : eval verbose limit form ⟨env, journal⟩ = .ok v s)
    (journal' : List Note) :
    ∃ journal'', eval verbose limit form ⟨env, journal'⟩ = .ok v ⟨s.env, journal''⟩ := by
  have hagree : Agree (· = ·) _ _ (eval verbose limit form) _ :=
    eval_agrees Value.isClosed_true Environment.eq_indistinct verbose limit ⟨⟩
  have halike := hagree ⟨env, journal⟩ ⟨env, journal'⟩ rfl
  rw [h] at halike
  generalize eval verbose limit form ⟨env, journal'⟩ = r at halike ⊢
  cases halike with
  | @ok _ _ s' _ envs => exact ⟨s'.journal, by rw [envs]⟩

theorem Gives.exists_start (h : Gives verbose env form v env') : ∃ start, ∀ limit, start ≤ limit →
    ∀ journal, ∃ journal', eval verbose limit form ⟨env, journal⟩ = .ok v ⟨env', journal'⟩ := by
  obtain ⟨start, journal, journal', hrun⟩ := h
  refine ⟨start, fun limit hle => ?_⟩
  rcases eval_ascending verbose form start limit hle ⟨env, journal⟩ with ⟨s, hdeep⟩ | heq
  · cases hrun.symm.trans hdeep
  · exact exists_run_of_run (heq.trans hrun)

/-- A run that does not exceed its limit shows what the form gives. -/
theorem exists_run_iff (hended : ∀ s, eval verbose limit form ⟨env, journal⟩ ≠ .error .depthExceeded s) :
    (∃ journal', eval verbose limit form ⟨env, journal⟩ = .ok v ⟨env', journal'⟩) ↔
      Gives verbose env form v env' := by
  constructor
  · rintro ⟨journal', hrun⟩
    exact ⟨limit, journal, journal', hrun⟩
  · intro h
    obtain ⟨start, hstart⟩ := h.exists_start
    obtain ⟨journal', hrun⟩ := hstart (max start limit) (Nat.le_max_left ..) journal
    rcases eval_ascending verbose form limit (max start limit) (Nat.le_max_right ..) ⟨env, journal⟩
      with ⟨s, hdeep⟩ | heq
    · exact absurd hdeep (hended s)
    · exact ⟨journal', heq.symm.trans hrun⟩

theorem giveAll_of_run {s s' : State} (h : evalArgs (eval verbose limit) forms s = .ok vs s') :
    GiveAll verbose s.env forms vs s'.env := by
  induction forms generalizing vs s with
  | nil =>
    cases h
    exact .nil _
  | cons form forms ih =>
    simp only [evalArgs, bind_run] at h
    cases hform : eval verbose limit form s with
    | error fault t =>
      rw [hform] at h
      cases h
    | ok v t =>
      cases hforms : evalArgs (eval verbose limit) forms t with
      | error fault t' =>
        simp only [hform, hforms] at h
        cases h
      | ok vs' t' =>
        simp only [hform, hforms] at h
        cases h
        exact .cons ⟨limit, s.journal, t.journal, hform⟩ (ih hforms)

theorem GiveAll.exists_start (h : GiveAll verbose env forms vs env') : ∃ start, ∀ limit, start ≤ limit →
    ∀ journal, ∃ journal', evalArgs (eval verbose limit) forms ⟨env, journal⟩ =
      .ok vs ⟨env', journal'⟩ := by
  induction h with
  | nil env => exact ⟨0, fun _ _ journal => ⟨journal, rfl⟩⟩
  | cons first _ ih =>
    obtain ⟨start, hfirst⟩ := first.exists_start
    obtain ⟨start', hrest⟩ := ih
    refine ⟨max start start', fun limit hlimit journal => ?_⟩
    obtain ⟨hle, hle'⟩ := Nat.max_le.1 hlimit
    obtain ⟨journal', hrun⟩ := hfirst limit hle journal
    obtain ⟨journal'', hruns⟩ := hrest limit hle' journal'
    refine ⟨journal'', ?_⟩
    simp only [evalArgs, bind_run, hrun, hruns]
    rfl

theorem giveAll_concat_iff : GiveAll verbose env (forms ++ [form]) vs env'' ↔
    ∃ us v env', vs = us ++ [v] ∧ GiveAll verbose env forms us env' ∧ Gives verbose env' form v env'' := by
  constructor
  · intro h
    induction forms generalizing env vs with
    | nil =>
      cases h with
      | cons first rest =>
        cases rest
        exact ⟨[], _, env, rfl, .nil env, first⟩
    | cons form' forms ih =>
      cases h with
      | @cons _ _ _ _ v' _ _ first rest =>
        obtain ⟨us, v, env', rfl, hforms, hform⟩ := ih rest
        exact ⟨v' :: us, v, env', rfl, .cons first hforms, hform⟩
  · rintro ⟨us, v, env', rfl, hforms, hform⟩
    induction hforms with
    | nil env => exact .cons hform (.nil _)
    | cons first _ ih => exact .cons first (ih hform)

theorem GiveAll.length_eq (h : GiveAll verbose env forms vs env') : vs.length = forms.length := by
  induction h with
  | nil => rfl
  | cons _ _ ih => rw [List.length_cons, List.length_cons, ih]

/-! ### Applications of a builtin -/

theorem exists_print?_of_toNumber? {x : Binary64} (h : v.toNumber? = some x) :
    ∃ text, v.print? = some text := by
  cases v with
  | number x => exact ⟨_, rfl⟩
  | integer n =>
    rw [Value.toNumber?] at h
    rw [Value.print?, h]
    exact ⟨_, rfl⟩
  | flag | text | symbol | list | nil | truth | builtin | lambda | absent => cases h

/-- The application of a symbol to the first two forms, and then, each time to what there is and to
the next form. -/
def leftNested (s : String) (first second : Value) (rest : List Value) : Value :=
  rest.foldl (fun inner form => .list [.symbol s, inner, form]) (.list [.symbol s, first, second])

theorem leftNested_concat (s : String) (first second : Value) (rest : List Value) (last : Value) :
    leftNested s first second (rest ++ [last]) =
      .list [.symbol s, leftNested s first second rest, last] := by
  rw [leftNested, List.foldl_concat, leftNested]

section
variable {s : String} {index : Int} {op : Operator}

/-- Behind its arguments an application leaves the environment as it is, and gives what the operator gives;
a note of the arguments fails only if the operator does. -/
theorem builtin_keeps (verbose : Bool) (env : Environment) (hindex : Operator.ofIndex index = .ok op)
    (args : List Value) :
    Keeps (· = env) (fun _ => ¬ ∃ v, op.run args = .ok v) (fun v => op.run args = .ok v) (do
      note verbose .evaluation fun _ => builtinNote index args
      let op ← ofExcept (Operator.ofIndex index)
      ofExcept (op.run args)) := by
  have hnote : Keeps (· = env) (fun _ => ¬ ∃ v, op.run args = .ok v) (fun _ => True)
      (builtinNote index args) := by
    by_cases hrun : ∃ v, op.run args = .ok v
    · obtain ⟨v, hv⟩ := hrun
      obtain ⟨x, xs, hargs, -⟩ := Operator.run_eq_ok_iff.1 hv
      refine builtinNote_keeps hindex (Value.exists_printed?_of_print? (Value.exists_print?_list ?_))
      intro w hw
      have hmem : w.toNumber? ∈ (x :: xs).map some := hargs ▸ List.mem_map_of_mem hw
      obtain ⟨y, -, hy⟩ := List.mem_map.1 hmem
      exact exists_print?_of_toNumber? hy.symm
    · refine .bind (.ofExcept (fun _ _ => ⟨⟩) fun _ _ => hrun) fun op' (_ : True) => ?_
      exact (Keeps.printed (fun _ _ => ⟨⟩) fun _ => hrun).bind fun _ (_ : True) => .pure ⟨⟩
  refine (Keeps.note hnote).bind fun _ _ => ?_
  rw [hindex]
  refine .bind (.pure rfl) fun op' (hop : op = op') => ?_
  subst hop
  exact .ofExcept (fun v hv => hv) fun fault hfault ⟨v, hv⟩ => by simp [hfault] at hv

variable (hs : env.get? (.symbol s) = some (.builtin index)) (hindex : Operator.ofIndex index = .ok op)
  (hspecial : SpecialForm.ofHead? (.symbol s) = none)
include hs hspecial

theorem application_run (verbose : Bool) (limit : Nat) (forms : List Value) (journal : List Note) :
    eval verbose (limit + 2) (.list (.symbol s :: forms)) ⟨env, journal⟩ =
      apply verbose (eval verbose (limit + 1)) (.builtin index) forms ⟨env, journal⟩ := by
  have hhead : eval verbose (limit + 1) (.symbol s) ⟨env, journal⟩ = .ok (.builtin index) ⟨env, journal⟩ :=
    lookup_run hs
  rw [eval_application hspecial, bind_run, hhead]

include hindex

/-- An application gives what the operator gives for the values of the forms. -/
theorem gives_application_iff : Gives verbose env (.list (.symbol s :: forms)) v env' ↔
    ∃ vs, GiveAll verbose env forms vs env' ∧ op.run vs = .ok v := by
  constructor
  · rintro ⟨limit, journal, journal', hrun⟩
    match limit with
    | 0 => cases hrun
    | 1 =>
      rw [eval_application hspecial] at hrun
      cases hrun
    | limit + 2 =>
      rw [application_run hs hspecial, apply, bind_run] at hrun
      cases hargs : evalArgs (eval verbose (limit + 1)) forms ⟨env, journal⟩ with
      | error fault t =>
        rw [hargs] at hrun
        cases hrun
      | ok vs t =>
        rw [hargs] at hrun
        obtain ⟨hv, rfl⟩ := (builtin_keeps verbose t.env hindex vs).of_ok rfl hrun
        exact ⟨vs, giveAll_of_run hargs, hv⟩
  · rintro ⟨vs, hforms, hv⟩
    obtain ⟨start, hstart⟩ := hforms.exists_start
    obtain ⟨journal', hargs⟩ := hstart (start + 1) (Nat.le_succ start) []
    have hrest := (builtin_keeps verbose env' hindex vs).mono
      (fun _ hnone => hnone ⟨v, hv⟩) fun w hw => Except.ok.inj (hw.symm.trans hv)
    obtain ⟨journal'', hrun⟩ := hrest.exists_run journal'
    refine ⟨start + 2, [], journal'', ?_⟩
    rw [application_run hs hspecial, apply, bind_run, hargs]
    exact hrun

/-! ### Nested applications -/

-- By induction from the end: the last form is the last argument of the flat form and of the outermost
-- nested one, and both evaluate the forms before it first.
theorem gives_leftNested_iff {first second : Value} {rest : List Value} :
    Gives verbose env (.list (.symbol s :: first :: second :: rest)) v env' ↔
      Gives verbose env (leftNested s first second rest) v env' := by
  induction rest using List.reverseRecOn generalizing v env' with
  | nil => exact Iff.rfl
  | append_singleton rest last ih =>
    rw [leftNested_concat, ← List.cons_append, ← List.cons_append]
    rw [gives_application_iff hs hindex hspecial, gives_application_iff hs hindex hspecial]
    constructor
    · rintro ⟨vs, hforms, hv⟩
      obtain ⟨us, w, env₁, rfl, hinit, hlast⟩ := giveAll_concat_iff.1 hforms
      have hne : us ≠ [] := List.ne_nil_of_length_pos (by rw [hinit.length_eq]; simp)
      obtain ⟨u, hu, huw⟩ := (Operator.run_concat_iff hne).1 hv
      have hinner := ih.1 ((gives_application_iff hs hindex hspecial).2 ⟨us, hinit, hu⟩)
      exact ⟨[u, w], .cons hinner (.cons hlast (.nil _)), huw⟩
    · rintro ⟨vs, hforms, hv⟩
      rcases hforms with _ | ⟨hinner, _ | ⟨hlast, ⟨⟩⟩⟩
      obtain ⟨us, hinit, hu⟩ := (gives_application_iff hs hindex hspecial).1 (ih.2 hinner)
      have hne : us ≠ [] := List.ne_nil_of_length_pos (by rw [hinit.length_eq]; simp)
      exact ⟨_, giveAll_concat_iff.2 ⟨us, _, _, rfl, hinit, hlast⟩,
        (Operator.run_concat_iff hne).2 ⟨_, hu, hv⟩⟩

/-- An operator that is applied to two or more forms at once or to two at a time, nested to the left:
where neither run exceeds its limit, one has a value exactly when the other does, and then both have
the same number and leave the same environment. -/
theorem eval_leftNested (verbose : Bool) (first second : Value) (rest : List Value)
    {limit limit' : Nat} {journal journal' : List Note}
    (hflat : ∀ t, eval verbose limit (.list (.symbol s :: first :: second :: rest)) ⟨env, journal⟩ ≠
      .error .depthExceeded t)
    (hnested : ∀ t, eval verbose limit' (leftNested s first second rest) ⟨env, journal'⟩ ≠
      .error .depthExceeded t) (v : Value) (env' : Environment) :
    ((∃ end', eval verbose limit (.list (.symbol s :: first :: second :: rest)) ⟨env, journal⟩ =
        .ok v ⟨env', end'⟩) ↔
      ∃ end', eval verbose limit' (leftNested s first second rest) ⟨env, journal'⟩ =
        .ok v ⟨env', end'⟩) ∧
    ((∃ end', eval verbose limit (.list (.symbol s :: first :: second :: rest)) ⟨env, journal⟩ =
      .ok v ⟨env', end'⟩) → ∃ x, v = .number x) := by
  rw [exists_run_iff hflat, exists_run_iff hnested]
  refine ⟨gives_leftNested_iff hs hindex hspecial, fun h => ?_⟩
  obtain ⟨vs, -, hv⟩ := (gives_application_iff hs hindex hspecial).1 h
  exact Operator.exists_number_of_run hv

end

/-- The first form binds `+` to a number, which the last form then looks up. -/
theorem eval_leftNested_rebound :
    let zero := Value.number (.signed false 0 (by decide))
    let s : State := ⟨Environment.empty.register, []⟩
    let first := Value.list [.symbol "SETQ", .symbol "+", zero]
    let flat := Value.list [.symbol "+", first, zero, .symbol "+"]
    let nested := Value.list [.symbol "+", .list [.symbol "+", first, zero], .symbol "+"]
    (∃ v t, eval false 5 flat s = .ok v t) ∧ ∀ v env',
      (∃ end', eval false 5 flat s = .ok v ⟨env', end'⟩) ↔
        ∃ end', eval false 5 nested s = .ok v ⟨env', end'⟩ := by
  intro zero s first flat nested
  obtain ⟨v, t, hflat⟩ : ∃ v t, eval false 5 flat s = .ok v t := ⟨_, _, rfl⟩
  obtain ⟨v', t', hnested⟩ : ∃ v t, eval false 5 nested s = .ok v t := ⟨_, _, rfl⟩
  have hindex : Operator.ofIndex 0 = .ok .add := rfl
  refine ⟨⟨v, t, hflat⟩, fun w env' => (eval_leftNested (s := "+") rfl hindex rfl false first
    zero [.symbol "+"] ?_ ?_ w env').1⟩
  · intro t hdeep
    cases hflat.symm.trans hdeep
  · intro t hdeep
    cases hnested.symm.trans hdeep

end Evaluation
end SnapLisp
