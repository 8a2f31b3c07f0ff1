import SnapLisp.Proofs.Evaluation.Agree
import SnapLisp.Proofs.Evaluation.FirstOrder
import SnapLisp.Proofs.Evaluation.Limit
import SnapLisp.Proofs.Evaluation.Result
import SnapLisp.Proofs.Number.Integer

/-!
# Calls and substitution

The body of a lambda is arithmetic (`Value.IsArithmetic`) if it is a nesting of constants, symbols and
applications of operators. The call of such a lambda on numbers ends as its body does, in the environment
of the call, when the numbers are put for the parameters (`eval_call_substitute`). The body runs in a copy
where the parameters are bound, and the two runs are in step (`eval_substitute_agrees`): at a parameter
both give the number, at any other symbol the copy gives what the environment gives (`get?_bindParams`).

Only the dump of an unbound name can tell the copy apart. It fails in the environment alone if a parameter
hides a value there that has no text (`exists_printed?_of_bindParams`), and then the call finds the name
unbound while the substituted body finds the dump impossible (`eval_call_hidden`).
-/

namespace SnapLisp

/-! ### Forms -/

namespace Value

mutual

/-- The form with values put for names, at any depth. -/
def substitute (values : List (String × Value)) : Value → Value
  | symbol name => (values.lookup name).getD (symbol name)
  | list items => list (substituteItems values items)
  | v => v

def substituteItems (values : List (String × Value)) : List Value → List Value
  | [] => []
  | v :: vs => substitute values v :: substituteItems values vs

end

-- In `(+ X (* X Y))`, 2 for X.
example : substitute [("X", integer 2)] (list [symbol "+", symbol "X",
    list [symbol "*", symbol "X", symbol "Y"]]) =
  list [symbol "+", integer 2, list [symbol "*", integer 2, symbol "Y"]] := rfl

/-- A nesting of constants, symbols and applications of operators to any number of forms. -/
inductive IsArithmetic : Value → Prop
  | constant {v : Value} (isConstant : Evaluation.isConstant v = true) : IsArithmetic v
  | symbol (name : String) : IsArithmetic (.symbol name)
  | application (op : Operator) {forms : List Value} (each : ∀ v ∈ forms, IsArithmetic v) :
    IsArithmetic (.list (.symbol op.name :: forms))

variable {values : List (String × Value)}

theorem substituteItems_eq (items : List Value) :
    substituteItems values items = items.map (substitute values) := by
  induction items with
  | nil => rfl
  | cons v items ih => rw [substituteItems, ih, List.map_cons]

theorem substitute_constant {v : Value} (h : Evaluation.isConstant v = true) :
    v.substitute values = v := by
  cases v with
  | symbol | list => cases h
  | number | integer | flag | text | nil | truth | builtin | lambda | absent => rfl

theorem substitute_application {name : String} (hname : values.lookup name = none)
    (forms : List Value) : (list (symbol name :: forms)).substitute values =
      list (symbol name :: forms.map (substitute values)) := by
  rw [substitute, substituteItems, substitute, hname, Option.getD_none, substituteItems_eq]

theorem IsArithmetic.substitute {v : Value} (h : v.IsArithmetic)
    (hvalues : ∀ name w, values.lookup name = some w → Evaluation.isConstant w = true)
    (hoperators : ∀ op : Operator, values.lookup op.name = none) :
    (v.substitute values).IsArithmetic := by
  induction h with
  | constant isConstant =>
    rw [substitute_constant isConstant]
    exact .constant isConstant
  | symbol name =>
    rw [Value.substitute]
    cases hname : values.lookup name with
    | none => exact .symbol name
    | some w => exact .constant (hvalues name w hname)
  | application op each ih =>
    rw [substitute_application (hoperators op)]
    exact .application op (List.forall_mem_map.2 ih)

end Value

/-! ### The copy for a call -/

namespace Environment
variable {env : Environment} {params : List String} {args : List Value}

theorem HasOperators.insert (h : env.HasOperators) {name : String}
    (hname : ∀ b ∈ Operator.bindings, b.1 ≠ .symbol name) (v : Value) :
    (env.insert (.symbol name) v).HasOperators :=
  fun b hb => (get?_insert_of_ne (hname b hb)).trans (h b hb)

theorem lookup_zip_of_not_mem {name : String} (h : name ∉ params) :
    (params.zip args).lookup name = none := by
  refine List.lookup_eq_none_iff.2 fun p hp => ?_
  have hne : name ≠ p.1 := fun heq => h (heq ▸ (List.of_mem_zip hp).1)
  simpa using hne

theorem mem_of_lookup_zip {name : String} {v : Value} (h : (params.zip args).lookup name = some v) :
    v ∈ args := by
  obtain ⟨before, behind, hzip, -⟩ := List.lookup_eq_some_iff.1 h
  have hmem : (name, v) ∈ params.zip args := by simp [hzip]
  exact (List.of_mem_zip hmem).2

/-- A parameter has the value of its argument, and another name the value that it had. -/
theorem get?_bindParams (hnodup : params.Nodup) (name : String) :
    (env.bindParams params args).get? (.symbol name) =
      ((params.zip args).lookup name).or (env.get? (.symbol name)) := by
  unfold bindParams
  induction params generalizing env args with
  | nil => rfl
  | cons param params ih =>
    obtain ⟨hparam, hnodup⟩ := List.nodup_cons.1 hnodup
    cases args with
    | nil => rfl
    | cons v args =>
      rw [List.zip_cons_cons, List.foldl_cons, ih hnodup, List.lookup_cons]
      by_cases hname : name = param
      · subst hname
        simp [lookup_zip_of_not_mem hparam, get?_insert_self]
      · have hkey : Key.symbol name ≠ .symbol param := fun heq => hname (Key.symbol_inj.1 heq)
        rw [get?_insert_of_ne hkey, beq_eq_false_iff_ne.2 hname]

theorem exists_printed?_bindParams (henv : ∃ dump, env.printed? = some dump)
    (hargs : ∀ v ∈ args, ∃ text, v.print? = some text) :
    ∃ dump, (env.bindParams params args).printed? = some dump := by
  unfold bindParams
  induction params generalizing env args with
  | nil => exact henv
  | cons param params ih =>
    cases args with
    | nil => exact henv
    | cons v args =>
      obtain ⟨hv, hargs⟩ := List.forall_mem_cons.1 hargs
      refine ih (exists_printed?_iff.2 fun e he => ?_) hargs
      rcases mem_of_mem_insertEntry he with rfl | he
      · exact hv
      · exact exists_printed?_iff.1 henv e he

/-- If the parameters hide no value without a text, the copy has a dump only if the environment has one. -/
theorem exists_printed?_of_bindParams (hshown : ∀ name ∈ params, env.Shows name)
    (hargs : ∀ v ∈ args, ∃ text, v.print? = some text)
    (h : ∃ dump, (env.bindParams params args).printed? = some dump) :
    ∃ dump, env.printed? = some dump := by
  unfold bindParams at h
  induction params generalizing env args with
  | nil => exact h
  | cons param params ih =>
    cases args with
    | nil => exact h
    | cons v args =>
      obtain ⟨hparam, hshown⟩ := List.forall_mem_cons.1 hshown
      obtain ⟨hv, hargs⟩ := List.forall_mem_cons.1 hargs
      have hsame := SameApartFrom.of_insert hparam hv
      refine hsame.exists_printed?_iff.2 (ih (fun name hname => ?_) hargs h)
      by_cases hne : name = param
      · exact hne ▸ hsame.shown.1 hparam
      · intro w hw
        rw [← hsame.get?_eq hne] at hw
        exact hshown name hname w hw

end Environment

/-! ### Evaluation in step -/

theorem Fault.eq_depthExceeded_of_kind {fault : Fault} (h : fault.kind = .depth) :
    fault = .depthExceeded := by
  cases fault with
  | depthExceeded => rfl
  | unreadable fault => cases fault <;> cases h
  | _ => cases h

/-- Faults of one kind, or a name that is unbound in the copy for a call while in the environment of the
call, where a parameter hides a value without a text, the dump for it fails. -/
def Fault.SameKindInCall (env : Environment) (params : List String) (fault fault' : Fault) : Prop :=
  fault.kind = fault'.kind ∨ fault.kind = .unboundSymbol ∧ fault'.kind = .overflow ∧
    ∃ name ∈ params, ¬ env.Shows name

theorem Fault.SameKindInCall.refl {env : Environment} {params : List String} (fault : Fault) :
    fault.SameKindInCall env params fault :=
  .inl rfl

namespace Evaluation
open EvalM Environment
variable {env : Environment} {params : List String} {args : List Value} {body : Value}
  {verbose : Bool} {limit : Nat}

theorem exists_print?_of_numbers (h : ∀ v ∈ args, ∃ x, v = .number x) :
    ∀ v ∈ args, ∃ text, v.print? = some text := by
  intro v hv
  obtain ⟨x, rfl⟩ := h v hv
  exact ⟨_, rfl⟩

theorem eval_constant {v : Value} (h : isConstant v = true) :
    eval verbose (limit + 1) v = pure v := by
  cases v with
  | symbol | list => cases h
  | number | integer | flag | text | nil | truth | builtin | lambda | absent => simp [eval, step, h]

theorem evalArgs_constants {vs : List Value} (h : ∀ v ∈ vs, isConstant v = true) :
    evalArgs (eval verbose (limit + 1)) vs = pure vs := by
  induction vs with
  | nil => rfl
  | cons v vs ih =>
    obtain ⟨hv, hvs⟩ := List.forall_mem_cons.1 h
    rw [evalArgs, eval_constant hv, ih hvs]
    rfl

open Filter in
/-- Whatever the symbols are bound to, an arithmetic form stays below every limit that is high enough. -/
theorem eval_arithmetic_ends (hoperators : env.HasOperators) (verbose : Bool)
    (hbody : body.IsArithmetic) : ∀ᶠ limit in atTop,
      Keeps (· = env) (· ≠ .depthExceeded) (fun _ => True) (eval verbose limit body) := by
  induction hbody with
  | @constant v isConstant =>
    filter_upwards [eventually_ge_atTop 1] with limit hlimit
    obtain ⟨limit, rfl⟩ := Nat.exists_eq_add_of_le' hlimit
    rw [eval_constant isConstant]
    exact .pure ⟨⟩
  | symbol name =>
    filter_upwards [eventually_ge_atTop 1] with limit hlimit
    obtain ⟨limit, rfl⟩ := Nat.exists_eq_add_of_le' hlimit
    refine .lookup fun env' _ => ?_
    unfold Environment.lookup
    cases env'.get? (.symbol name) with
    | some v => trivial
    | none => cases env'.printed? <;> simp
  | @application op forms each ih =>
    obtain ⟨index, hbinding, -⟩ := op.exists_binding
    have hforms := (eventually_all_finite (List.finite_toSet forms)).2 ih
    refine eventually_of_succ ?_
    filter_upwards [hforms, eventually_ge_atTop 1] with limit hforms hlimit
    obtain ⟨limit, rfl⟩ := Nat.exists_eq_add_of_le' hlimit
    have hhead : Keeps (· = env) (· ≠ .depthExceeded) (· = .builtin index)
        (eval verbose (limit + 1) (.symbol op.name)) := by
      refine .lookup fun env' henv' => ?_
      rw [henv', Environment.lookup, hoperators _ hbinding]
    rw [eval_application (ofHead?_operator op)]
    refine hhead.bind ?_
    rintro fn rfl
    exact apply_builtin_keeps hforms (fun _ hrefusal => hrefusal.ne_depthExceeded) fun _ => ⟨⟩

/-- One run is in the copy for a call, the other in the environment of the call. -/
def InCall (env : Environment) (params : List String) (args : List Value)
    (env' env'' : Environment) : Prop :=
  env' = env.bindParams params args ∧ env'' = env

section
variable (hnodup : params.Nodup) (hargs : ∀ v ∈ args, ∃ x, v = .number x)
include hnodup hargs

/-- A symbol that is no parameter has one value, or in both environments none. -/
theorem lookup_agrees_in_call {name : String} (hname : (params.zip args).lookup name = none) :
    Agree (InCall env params args) (Fault.SameKindInCall env params)
      (fun v => env.get? (.symbol name) = some v) (EvalM.lookup name) (EvalM.lookup name) := by
  rintro ⟨env', journal⟩ ⟨env'', journal'⟩ ⟨rfl, rfl⟩
  have hprint := exists_print?_of_numbers hargs
  have hget : (env''.bindParams params args).get? (.symbol name) = env''.get? (.symbol name) := by
    rw [get?_bindParams hnodup, hname, Option.none_or]
  show Alike _ _ _ ((ofExcept ((env''.bindParams params args).lookup (.symbol name)) : EvalM Value) _)
    ((ofExcept (env''.lookup (.symbol name)) : EvalM Value) _)
  unfold Environment.lookup
  rw [hget]
  cases hv : env''.get? (.symbol name) with
  | some v => exact .ok rfl ⟨rfl, rfl⟩
  | none =>
    -- The copy has a dump if the environment has one.
    cases hcopy : (env''.bindParams params args).printed? with
    | some dump =>
      cases hdump : env''.printed? with
      | some dump' => exact .error (.inl rfl) ⟨rfl, rfl⟩
      | none =>
        refine .error (.inr ⟨rfl, rfl, ?_⟩) ⟨rfl, rfl⟩
        by_contra hnone
        have hshown : ∀ name ∈ params, env''.Shows name := fun name hname =>
          Classical.not_not.1 fun hhidden => hnone ⟨name, hname, hhidden⟩
        obtain ⟨dump', hdump'⟩ := exists_printed?_of_bindParams hshown hprint ⟨dump, hcopy⟩
        cases hdump.symm.trans hdump'
    | none =>
      cases hdump : env''.printed? with
      | some dump' =>
        obtain ⟨dump, hdump⟩ := exists_printed?_bindParams ⟨dump', hdump⟩ hprint
        cases hcopy.symm.trans hdump
      | none => exact .error (.inl rfl) ⟨rfl, rfl⟩

variable (hoperators : env.HasOperators) (hparams : ∀ op : Operator, op.name ∉ params)
include hoperators hparams

/-- The body in the copy for a call, and in the environment of the call the body with the arguments put
for the parameters. -/
theorem eval_substitute_agrees (verbose : Bool) (limit : Nat) (hbody : body.IsArithmetic) :
    Agree (InCall env params args) (Fault.SameKindInCall env params) (fun _ => True)
      (eval verbose limit body) (eval verbose limit (body.substitute (params.zip args))) := by
  -- By induction on the limit, so that both runs reach it at the same place.
  induction limit generalizing body with
  | zero => exact .throw (.refl _)
  | succ limit ih =>
    cases hbody with
    | constant isConstant =>
      rw [Value.substitute_constant isConstant, eval_constant isConstant]
      exact .pure ⟨⟩
    | symbol name =>
      rw [Value.substitute]
      cases hname : (params.zip args).lookup name with
      | none => exact (lookup_agrees_in_call hnodup hargs hname).mono (fun _ _ h => h) fun _ _ => ⟨⟩
      | some v =>
        obtain ⟨x, rfl⟩ := hargs v (mem_of_lookup_zip hname)
        rintro s s' ⟨hs, hs'⟩
        have hget : s.env.get? (.symbol name) = some (.number x) := by
          rw [hs, get?_bindParams hnodup, hname, Option.some_or]
        have hlookup : eval verbose (limit + 1) (.symbol name) s = .ok (.number x) s := lookup_run hget
        rw [hlookup]
        exact .ok ⟨⟩ ⟨hs, hs'⟩
    | @application op forms each =>
      obtain ⟨index, hbinding, -⟩ := op.exists_binding
      have hname : (params.zip args).lookup op.name = none := lookup_zip_of_not_mem (hparams op)
      have hhead : Agree (InCall env params args) (Fault.SameKindInCall env params)
          (· = .builtin index) (eval verbose limit (.symbol op.name))
          (eval verbose limit (.symbol op.name)) := by
        cases limit with
        | zero => exact .throw (.refl _)
        | succ limit =>
          refine (lookup_agrees_in_call hnodup hargs hname).mono (fun _ _ h => h) fun v hv => ?_
          exact Option.some.inj (hv.symm.trans (hoperators _ hbinding))
      have hspecial := ofHead?_operator op
      rw [Value.substitute_application hname, eval_application hspecial, eval_application hspecial]
      refine hhead.bind ?_
      rintro fn rfl
      exact apply_builtin_agrees .refl (.inl rfl) (fun _ => ⟨⟩) ⟨⟩ _ fun form hform =>
        ih (each form hform)

end

/-! ### Calls -/

section
variable {f : String} (hf : env.get? (.symbol f) = some (.lambda params body))
  (hspecial : SpecialForm.ofHead? (.symbol f) = none)
  (hargs : ∀ v ∈ args, ∃ x, v = .number x) (hlength : args.length = params.length)
include hf hspecial hargs hlength

/-- A call on numbers is a run of the body in the copy. -/
theorem call_run (verbose : Bool) (limit : Nat) (journal : List Note) :
    ∃ journal', eval verbose (limit + 2) (.list (.symbol f :: args)) ⟨env, journal⟩ =
      inCopy (·.bindParams params args) (eval verbose (limit + 1) body) ⟨env, journal'⟩ := by
  have hconstant : ∀ v ∈ args, isConstant v = true := fun v hv => by
    obtain ⟨x, rfl⟩ := hargs v hv
    rfl
  have hnote : Keeps (· = env) (fun _ => False) (· = ())
      (note verbose .evaluation fun _ => lambdaNote params args) := by
    have hprint := Value.exists_print?_list (exists_print?_of_numbers hargs)
    exact (Keeps.note (lambdaNote_keeps (Value.exists_printed?_of_print? hprint))).imp fun _ _ => rfl
  obtain ⟨journal', hnoted⟩ := hnote.exists_run journal
  refine ⟨journal', ?_⟩
  have hhead : eval verbose (limit + 1) (.symbol f) ⟨env, journal⟩ = .ok _ ⟨env, journal⟩ := lookup_run hf
  have hrun : evalArgs (eval verbose (limit + 1)) args ⟨env, journal⟩ = .ok args ⟨env, journal⟩ := by
    rw [evalArgs_constants hconstant]
    rfl
  rw [eval_application hspecial]
  simp only [bind_run, hhead, apply, if_pos hlength, hrun, hnoted]

variable (hoperators : env.HasOperators) (hnodup : params.Nodup)
  (hparams : ∀ op : Operator, op.name ∉ params) (hbody : body.IsArithmetic)
include hoperators hnodup hparams hbody

/-- The call needs one evaluation more than the substituted body. -/
theorem call_alike (verbose : Bool) (limit : Nat) (journal journal' : List Note) :
    Alike (fun env' env'' => env' = env ∧ env'' = env) (Fault.SameKindInCall env params) (fun _ => True)
      (eval verbose (limit + 1) (.list (.symbol f :: args)) ⟨env, journal⟩)
      (eval verbose limit (body.substitute (params.zip args)) ⟨env, journal'⟩) := by
  cases limit with
  | zero =>
    have hcall : eval verbose 1 (.list (.symbol f :: args)) ⟨env, journal⟩ =
        .error .depthExceeded ⟨env, journal⟩ := by
      rw [eval_application hspecial]
      rfl
    rw [hcall]
    exact .error (.refl _) ⟨rfl, rfl⟩
  | succ limit =>
    obtain ⟨journal₁, hcall⟩ := call_run hf hspecial hargs hlength verbose limit journal
    rw [hcall]
    have halike := eval_substitute_agrees hnodup hargs hoperators hparams verbose (limit + 1) hbody
      ⟨env.bindParams params args, journal₁⟩ ⟨env, journal'⟩ ⟨rfl, rfl⟩
    unfold inCopy
    generalize eval verbose (limit + 1) body _ = r, eval verbose (limit + 1) _ ⟨env, journal'⟩ = r'
      at halike ⊢
    cases halike with
    | ok _ envs => exact .ok ⟨⟩ ⟨rfl, envs.2⟩
    | error faults envs => exact .error faults ⟨rfl, envs.2⟩

omit hf hspecial hlength hnodup in
theorem substitute_ends (verbose : Bool) : ∃ start, ∀ limit, start ≤ limit → ∀ journal s,
    eval verbose limit (body.substitute (params.zip args)) ⟨env, journal⟩ ≠ .error .depthExceeded s := by
  have hsubstituted : (body.substitute (params.zip args)).IsArithmetic := by
    refine hbody.substitute (fun name v hv => ?_) fun op => lookup_zip_of_not_mem (hparams op)
    obtain ⟨x, rfl⟩ := hargs v (mem_of_lookup_zip hv)
    rfl
  obtain ⟨start, hstart⟩ := Filter.eventually_atTop.1 <|
    eval_arithmetic_ends hoperators verbose hsubstituted
  refine ⟨start, fun limit hlimit journal s hrun => ?_⟩
  have hkept := hstart limit hlimit ⟨env, journal⟩ rfl
  rw [hrun] at hkept
  exact hkept.1 rfl

/-- The call of a lambda with an arithmetic body, on as many numbers as it has parameters, ends as its
body does with the numbers put for the parameters: with the same value or a fault of the same kind, unless
a parameter hides a value without a text and an unbound name is looked up. Neither changes the
environment, and under a limit that is high enough neither exceeds it. -/
theorem eval_call_substitute (verbose : Bool) :
    (∀ limit journal journal',
      Alike (fun env' env'' => env' = env ∧ env'' = env) (Fault.SameKindInCall env params) (fun _ => True)
        (eval verbose (limit + 1) (.list (.symbol f :: args)) ⟨env, journal⟩)
        (eval verbose limit (body.substitute (params.zip args)) ⟨env, journal'⟩)) ∧
    ∃ start, ∀ limit, start ≤ limit → ∀ journal s,
      eval verbose (limit + 1) (.list (.symbol f :: args)) ⟨env, journal⟩ ≠ .error .depthExceeded s ∧
      eval verbose limit (body.substitute (params.zip args)) ⟨env, journal⟩ ≠ .error .depthExceeded s := by
  have halike := call_alike hf hspecial hargs hlength hoperators hnodup hparams hbody verbose
  obtain ⟨start, hended⟩ := substitute_ends hargs hoperators hparams hbody verbose
  refine ⟨halike, start, fun limit hlimit journal s => ⟨fun hcall => ?_, hended limit hlimit journal s⟩⟩
  have hrun := halike limit journal journal
  have hend := hended limit hlimit journal
  rw [hcall] at hrun
  generalize eval verbose limit (body.substitute (params.zip args)) ⟨env, journal⟩ = r at hrun hend
  cases hrun with
  | @error _ fault' _ s' faults _ =>
    obtain hkind | ⟨hkind, -⟩ := faults
    · exact hend s' (Fault.eq_depthExceeded_of_kind hkind.symm ▸ rfl)
    · cases hkind

end

/-- The caller binds A, which the parameter hides, and C, which the body sees. -/
theorem eval_call_substitute_shadowed :
    let x := Binary64.signed false 0 (by decide)
    let body := Value.list [.symbol "+", .symbol "A", .list [.symbol "*", .symbol "C", .symbol "A"]]
    let env := ((Environment.empty.register.insert (.symbol "A") .truth).insert (.symbol "C")
      (.number x)).insert (.symbol "F") (.lambda ["A"] body)
    ∀ limit journal journal',
      Alike (fun env' env'' => env' = env ∧ env'' = env) (Fault.SameKindInCall env ["A"]) (fun _ => True)
        (eval false (limit + 1) (.list [.symbol "F", .number x]) ⟨env, journal⟩)
        (eval false limit (.list [.symbol "+", .number x, .list [.symbol "*", .symbol "C", .number x]])
          ⟨env, journal'⟩) := by
  intro x body env
  have hoperators : env.HasOperators :=
    ((register_hasOperators.insert (by simp [Operator.bindings_eq]) _).insert
      (by simp [Operator.bindings_eq]) _).insert (by simp [Operator.bindings_eq]) _
  have hbody : body.IsArithmetic := by
    refine .application .add (List.forall_mem_cons.2 ⟨.symbol "A", List.forall_mem_singleton.2 ?_⟩)
    refine .application .multiply (List.forall_mem_cons.2 ⟨.symbol "C", List.forall_mem_singleton.2 ?_⟩)
    exact .symbol "A"
  have hargs : ∀ v ∈ [Value.number x], ∃ x, v = .number x := List.forall_mem_singleton.2 ⟨x, rfl⟩
  have hparams : ∀ op : Operator, op.name ∉ ["A"] := fun op => by cases op <;> decide
  exact (eval_call_substitute rfl rfl hargs rfl hoperators (by decide) hparams hbody false).1

/-- In the copy the parameter A hides an integer that has no text; B, which the body looks up, is unbound.
In the environment of the call it is the integer that the lookup fails at. -/
theorem eval_call_hidden :
    let x := Binary64.signed false 0 (by decide)
    let body := Value.symbol "B"
    let env := (Environment.empty.register.insert (.symbol "A") (.integer (2 ^ 1024))).insert
      (.symbol "F") (.lambda ["A"] body)
    (env.HasOperators ∧ env.get? (.symbol "F") = some (.lambda ["A"] body) ∧ body.IsArithmetic ∧
      ∀ op : Operator, op.name ∉ ["A"]) ∧
    ∃ fault fault' s s',
      eval false 2 (.list [.symbol "F", .number x]) ⟨env, []⟩ = .error fault s ∧
      eval false 1 (body.substitute [("A", .number x)]) ⟨env, []⟩ = .error fault' s' ∧
      fault.kind = .unboundSymbol ∧ fault'.kind = .overflow := by
  intro x body env
  have hoperators : env.HasOperators :=
    (register_hasOperators.insert (by simp [Operator.bindings_eq]) _).insert
      (by simp [Operator.bindings_eq]) _
  have hparams : ∀ op : Operator, op.name ∉ ["A"] := fun op => by cases op <;> decide
  have hargs : ∀ v ∈ [Value.number x], ∃ x, v = .number x := List.forall_mem_singleton.2 ⟨x, rfl⟩
  refine ⟨⟨hoperators, rfl, .symbol "B", hparams⟩, ?_⟩
  have hdump : env.printed? = none := by
    have hget : env.get? (.symbol "A") = some (.integer (2 ^ 1024)) :=
      (get?_insert_of_ne (by simp)).trans get?_insert_self
    refine printed?_eq_none hget (Value.print?_integer_of_le ?_)
    rw [Int.cast_pow, Int.cast_ofNat, abs_of_pos (by positivity), rangeEnd]
    exact sub_le_self _ (by positivity)
  obtain ⟨dump, hcopy⟩ : ∃ dump, (env.bindParams ["A"] [.number x]).printed? = some dump := by
    have hentries : (env.bindParams ["A"] [.number x]).entries = Operator.bindings ++
      [(.symbol "A", .number x), (.symbol "F", .lambda ["A"] body)] := rfl
    refine exists_printed?_iff.2 ?_
    rw [hentries, Operator.bindings_eq]
    simp [Value.print?]
  have hunbound : (env.bindParams ["A"] [.number x]).lookup (.symbol "B") =
      .error (.unbound (String.ofList (Key.symbol "B").display) dump) := by
    rw [Environment.lookup, hcopy]
    rfl
  have hfree : env.lookup (.symbol "B") = .error .integerTooLarge := by
    rw [Environment.lookup, hdump]
    rfl
  have hf : env.get? (.symbol "F") = some (.lambda ["A"] body) := rfl
  obtain ⟨journal, hcall⟩ := call_run hf rfl hargs rfl false 0 []
  obtain ⟨s, hrun⟩ : ∃ s, eval false 2 (.list [.symbol "F", .number x]) ⟨env, []⟩ =
      .error (.unbound (String.ofList (Key.symbol "B").display) dump) s := by
    have hbody : eval false 1 body ⟨env.bindParams ["A"] [.number x], journal⟩ = .error _ _ :=
      lookup_fault_run hunbound
    rw [hcall, inCopy, hbody]
    exact ⟨_, rfl⟩
  exact ⟨_, _, s, _, hrun, lookup_fault_run hfree, rfl, rfl⟩

end Evaluation
end SnapLisp
