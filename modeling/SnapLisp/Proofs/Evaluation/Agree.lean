import SnapLisp.Proofs.Environment.Compare
import SnapLisp.Proofs.Evaluation.Keeps
import SnapLisp.Proofs.Evaluation.Operator

/-!
# Evaluations in two environments

`Agree R F Q m m'`: started in environments that `R` relates, `m` and `m'` end alike, with one value in
`Q` or with faults that `F` relates, and in environments that `R` relates again. The rules follow the
operations that evaluations are made of, as those of `Keeps` do for one run. What a relation of
environments has to be like for the evaluation of a form to agree with itself is `Indistinct`; then
`step_agrees` is the inductive step and `eval_agrees` the result. If no note can fail (`AreNoted`), a
verbose evaluation also agrees with one that is not (`eval_agrees_of_notes`).
-/

namespace SnapLisp

/-- The same fault, where the dumps that a message shows may be of two environments in `R`. -/
inductive Fault.SameButDump (R : Environment → Environment → Prop) : Fault → Fault → Prop
  | same (fault : Fault) : SameButDump R fault fault
  | unbound {env env' : Environment} {dump dump' : String} (key : String) (envs : R env env')
    (printed : env.printed? = some dump) (printed' : env'.printed? = some dump') :
    SameButDump R (.unbound key dump) (.unbound key dump')

theorem Fault.SameButDump.mono {R R' : Environment → Environment → Prop}
    (hR : ∀ env env', R env env' → R' env env') {fault fault' : Fault}
    (h : SameButDump R fault fault') : SameButDump R' fault fault' := by
  cases h with
  | same => exact .same _
  | unbound key envs printed printed' => exact .unbound key (hR _ _ envs) printed printed'

/-- Of one environment there is one dump. -/
theorem Fault.SameButDump.eq {R : Environment → Environment → Prop}
    (hR : ∀ env env', R env env' → env = env') {fault fault' : Fault} (h : SameButDump R fault fault') :
    fault = fault' := by
  cases h with
  | same => rfl
  | unbound key envs printed printed' =>
    obtain rfl := hR _ _ envs
    rw [printed] at printed'
    cases printed'
    rfl

namespace EvalM
variable {α β : Type}

/-- Two ends of runs: one value in `Q`, or faults in `F`; environments in `R`. -/
inductive Alike (R : Environment → Environment → Prop) (F : Fault → Fault → Prop) (Q : α → Prop) :
    EStateM.Result Fault State α → EStateM.Result Fault State α → Prop
  | ok {a : α} {s s' : State} (value : Q a) (envs : R s.env s'.env) :
    Alike R F Q (.ok a s) (.ok a s')
  | error {fault fault' : Fault} {s s' : State} (faults : F fault fault') (envs : R s.env s'.env) :
    Alike R F Q (.error fault s) (.error fault' s')

/-- However it is started, the run leaves the environment as it is and does not fail. -/
def Quiet (m : EvalM α) : Prop :=
  ∀ env, Keeps (· = env) (fun _ => False) (fun _ => True) m

theorem Quiet.pure (a : α) : Quiet (pure a) :=
  fun _ => .pure ⟨⟩

theorem Quiet.note {verbose : Bool} {channel : Channel} {text : Unit → EvalM String}
    (h : Quiet (text ())) : Quiet (note verbose channel text) :=
  fun env => .note (h env)

def Agree (R : Environment → Environment → Prop) (F : Fault → Fault → Prop) (Q : α → Prop)
    (m m' : EvalM α) : Prop :=
  ∀ s s', R s.env s'.env → Alike R F Q (m s) (m' s')

variable {R : Environment → Environment → Prop} {F : Fault → Fault → Prop} {Q : α → Prop}
  {Q' : β → Prop}

theorem Alike.stateAfter {m m' : EvalM α} {s s' : State} (h : Alike R F Q (m s) (m' s')) :
    R (stateAfter m s).env (stateAfter m' s').env := by
  unfold EvalM.stateAfter
  generalize m s = r, m' s' = r' at h ⊢
  cases h with
  | ok value envs => exact envs
  | error faults envs => exact envs

/-- The environments that are left can be related in another way. -/
theorem Alike.relate {R' : Environment → Environment → Prop} {m m' : EvalM α} {s s' : State}
    (h : Alike R F Q (m s) (m' s'))
    (hR : R' (EvalM.stateAfter m s).env (EvalM.stateAfter m' s').env) :
    Alike R' F Q (m s) (m' s') := by
  unfold EvalM.stateAfter at hR
  generalize m s = r, m' s' = r' at h hR ⊢
  cases h with
  | ok value envs => exact .ok value hR
  | error faults envs => exact .error faults hR

theorem Alike.mono {F' : Fault → Fault → Prop} {Q' : α → Prop}
    {r r' : EStateM.Result Fault State α} (h : Alike R F Q r r')
    (hF : ∀ fault fault', F fault fault' → F' fault fault') (hQ : ∀ a, Q a → Q' a) :
    Alike R F' Q' r r' := by
  cases h with
  | ok value envs => exact .ok (hQ _ value) envs
  | error faults envs => exact .error (hF _ _ faults) envs

namespace Agree

protected theorem pure {a : α} (h : Q a) : Agree R F Q (pure a) (pure a) :=
  fun _ _ hs => .ok h hs

protected theorem throw {fault fault' : Fault} (h : F fault fault') :
    Agree R F Q (throw fault : EvalM α) (throw fault') :=
  fun _ _ hs => .error h hs

protected theorem bind {m m' : EvalM α} {k k' : α → EvalM β} (hm : Agree R F Q m m')
    (hk : ∀ a, Q a → Agree R F Q' (k a) (k' a)) : Agree R F Q' (m >>= k) (m' >>= k') := by
  intro s s' hs
  have hms := hm s s' hs
  rw [bind_run, bind_run]
  generalize m s = r, m' s' = r' at hms ⊢
  cases hms with
  | ok value envs => exact hk _ value _ _ envs
  | error faults envs => exact .error faults envs

protected theorem ofExcept {e : Except Fault α} (hF : ∀ fault, F fault fault)
    (hQ : ∀ a, e = .ok a → Q a) : Agree R F Q (ofExcept e) (ofExcept e) := by
  cases e with
  | ok a => exact .pure (hQ a rfl)
  | error fault => exact .throw (hF fault)

protected theorem printed (hF : ∀ fault, F fault fault) (v : Value) :
    Agree R F (fun _ => True) (printed v) (printed v) := by
  unfold EvalM.printed
  split
  · exact .pure ⟨⟩
  · exact .throw (hF _)

protected theorem mono {F' : Fault → Fault → Prop} {Q' : α → Prop} {m m' : EvalM α}
    (h : Agree R F Q m m') (hF : ∀ fault fault', F fault fault' → F' fault fault')
    (hQ : ∀ a, Q a → Q' a) : Agree R F' Q' m m' :=
  fun s s' hs => (h s s' hs).mono hF hQ

protected theorem tryCatch {F' : Fault → Fault → Prop} {m m' : EvalM α}
    {handle handle' : Fault → EvalM α} (hm : Agree R F' Q m m')
    (hhandle : ∀ fault fault', F' fault fault' → Agree R F Q (handle fault) (handle' fault')) :
    Agree R F Q (tryCatch m handle) (tryCatch m' handle') := by
  intro s s' hs
  have hms := hm s s' hs
  rw [tryCatch_run, tryCatch_run]
  generalize m s = r, m' s' = r' at hms ⊢
  cases hms with
  | ok value envs => exact .ok value envs
  | error faults envs => exact hhandle _ _ faults _ _ envs

/-- Quiet runs agree whatever they write down. -/
theorem of_quiet {m m' : EvalM Unit} (h : Quiet m) (h' : Quiet m') :
    Agree R F (fun _ => True) m m' := by
  intro s s' hs
  have hms := h s.env s rfl
  have hms' := h' s'.env s' rfl
  generalize m s = r, m' s' = r' at hms hms' ⊢
  cases r with
  | error fault t => exact hms.1.elim
  | ok u t =>
    cases r' with
    | error fault t' => exact hms'.1.elim
    | ok u' t' =>
      refine .ok ⟨⟩ ?_
      rw [hms.2, hms'.2]
      exact hs

protected theorem note {verbose verbose' : Bool} {channel : Channel} {text : Unit → EvalM String}
    (h : verbose = verbose' ∧ Agree R F (fun _ => True) (text ()) (text ()) ∨ Quiet (text ())) :
    Agree R F (fun _ => True) (note verbose channel text) (note verbose' channel text) := by
  rcases h with ⟨rfl, h⟩ | h
  · cases verbose with
    | false => exact .pure ⟨⟩
    | true => exact .bind h fun _ _ s s' hs => .ok ⟨⟩ hs
  · exact .of_quiet h.note h.note

protected theorem bindSymbol {name : String} {v : Value}
    (h : ∀ env env', R env env' → R (env.insert (.symbol name) v) (env'.insert (.symbol name) v)) :
    Agree R F (fun _ => True) (bindSymbol name v) (bindSymbol name v) :=
  fun s s' hs => .ok ⟨⟩ (h s.env s'.env hs)

protected theorem inCopy {change : Environment → Environment} {m m' : EvalM α}
    (h : Agree R F Q m m') (hchange : ∀ env env', R env env' → R (change env) (change env')) :
    Agree R F Q (inCopy change m) (inCopy change m') := by
  intro s s' hs
  have hms := h { s with env := change s.env } { s' with env := change s'.env } (hchange _ _ hs)
  unfold EvalM.inCopy
  generalize m { s with env := change s.env } = r, m' { s' with env := change s'.env } = r' at hms ⊢
  cases hms with
  | ok value envs => exact .ok value hs
  | error faults envs => exact .error faults hs

end Agree
end EvalM

/-! ### Forms -/

/-- Forms in `P` and values in `V` that evaluation does not lead out of: what is evaluated of a form and
of a lambda is in `P`, and what comes from a form alone is in `V`. -/
structure Value.IsClosed (P V : Value → Prop) : Prop where
  head : ∀ {head : Value} {forms : List Value}, P (.list (head :: forms)) →
    SpecialForm.ofHead? head = none → P head
  item : ∀ {head : Value} {forms : List Value}, P (.list (head :: forms)) → ∀ v ∈ forms, P v
  constant : ∀ {v : Value}, P v → Evaluation.isConstant v = true → V v
  body : ∀ {params : List String} {body : Value}, V (.lambda params body) → P body
  lambda : ∀ {params : List String} {body : Value}, P (.list (params.map .symbol)) → P body →
    V (.lambda params body)
  number : ∀ x, V (.number x)
  text : ∀ s, V (.text s)

/-- Environments in `R` give the symbols of `P` the same values, which are in `V`, and both have a dump
or neither has; and this stays so when the same is bound in both. -/
structure Environment.Indistinct (P V : Value → Prop) (R : Environment → Environment → Prop) :
    Prop where
  get?_eq : ∀ {env env' : Environment} {name : String}, R env env' → P (.symbol name) →
    env.get? (.symbol name) = env'.get? (.symbol name)
  value : ∀ {env env' : Environment} {name : String} {v : Value}, R env env' → P (.symbol name) →
    env.get? (.symbol name) = some v → V v
  exists_printed?_iff : ∀ {env env' : Environment}, R env env' →
    ((∃ dump, env.printed? = some dump) ↔ ∃ dump, env'.printed? = some dump)
  insert : ∀ {env env' : Environment}, R env env' → ∀ name {v : Value}, V v →
    R (env.insert (.symbol name) v) (env'.insert (.symbol name) v)

/-- The notes that are written of these values cannot fail. -/
structure Value.AreNoted (V : Value → Prop) : Prop where
  printed : ∀ {args : List Value}, (∀ v ∈ args, V v) → ∃ text, (Value.list args).printed? = some text
  operator : ∀ {index : Int}, V (.builtin index) → ∃ op, Operator.ofIndex index = .ok op

namespace Evaluation
open EvalM
variable {P V : Value → Prop} {R : Environment → Environment → Prop} {verbose verbose' : Bool}
  {ev ev' : Value → EvalM Value}

theorem paramNames_agrees (params : List Value) :
    Agree R (Fault.SameButDump R) (fun names => params = names.map .symbol)
      (paramNames params) (paramNames params) := by
  fun_induction paramNames params with
  | case1 => exact .pure rfl
  | case2 name rest ih =>
    exact ih.bind fun names hnames => .pure (by rw [hnames]; rfl)
  | case3 v rest _ => exact (Agree.printed .same v).bind fun text _ => .throw (.same _)

/-- Forms that are changed one by one. -/
theorem evalArgs_map_agrees {F : Fault → Fault → Prop} (change : Value → Value) {forms : List Value}
    (hforms : ∀ form ∈ forms, Agree R F V (ev form) (ev' (change form))) :
    Agree R F (fun args => ∀ v ∈ args, V v) (evalArgs ev forms) (evalArgs ev' (forms.map change)) := by
  induction forms with
  | nil => exact .pure (by simp)
  | cons form forms ih =>
    obtain ⟨hform, hforms⟩ := List.forall_mem_cons.1 hforms
    refine hform.bind fun v hv => ?_
    exact (ih hforms).bind fun args hargs => .pure (List.forall_mem_cons.2 ⟨hv, hargs⟩)

/-- Builtins find the same faults in the same arguments. -/
theorem apply_builtin_agrees {F : Fault → Fault → Prop} (hF : ∀ fault, F fault fault)
    (hnotes : verbose = verbose' ∨ Value.AreNoted V) (hnumber : ∀ x, V (.number x)) {index : Int}
    (hindex : V (.builtin index)) (change : Value → Value) {forms : List Value}
    (hforms : ∀ form ∈ forms, Agree R F V (ev form) (ev' (change form))) :
    Agree R F V (apply verbose ev (.builtin index) forms)
      (apply verbose' ev' (.builtin index) (forms.map change)) := by
  refine (evalArgs_map_agrees change hforms).bind fun args hargs => ?_
  refine (Agree.note ?_).bind fun _ _ => ?_
  · refine hnotes.imp (fun hsame => ⟨hsame, ?_⟩) fun hnoted env => ?_
    · refine (Agree.ofExcept hF fun _ _ => ⟨⟩).bind fun op (_ : True) => ?_
      exact (Agree.printed hF _).bind fun _ _ => .pure ⟨⟩
    · obtain ⟨op, hop⟩ := hnoted.operator hindex
      exact builtinNote_keeps hop (hnoted.printed hargs)
  · refine (Agree.ofExcept hF fun _ _ => ⟨⟩).bind fun op (_ : True) => ?_
    refine .ofExcept hF fun v hv => ?_
    obtain ⟨x, rfl⟩ := Operator.exists_number_of_run hv
    exact hnumber x

section
variable (hR : Environment.Indistinct P V R)
include hR

theorem lookup_agrees {name : String} (hname : P (.symbol name)) :
    Agree R (Fault.SameButDump R) V (EvalM.lookup name) (EvalM.lookup name) := by
  intro s s' hs
  have hget := hR.get?_eq hs hname
  show Alike R (Fault.SameButDump R) V ((ofExcept (s.env.lookup (.symbol name)) : EvalM Value) s)
    ((ofExcept (s'.env.lookup (.symbol name)) : EvalM Value) s')
  unfold Environment.lookup
  rw [← hget]
  cases hv : s.env.get? (.symbol name) with
  | some v => exact .ok (hR.value hs hname hv) hs
  | none =>
    -- A dump that cannot be written makes the lookup end with another fault, in both or in neither.
    have hdumps := hR.exists_printed?_iff hs
    cases hdump : s.env.printed? with
    | some dump =>
      obtain ⟨dump', hdump'⟩ := hdumps.1 ⟨dump, hdump⟩
      rw [hdump']
      exact .error (.unbound _ hs hdump hdump') hs
    | none =>
      have hdump' : s'.env.printed? = none := by
        refine Option.eq_none_iff_forall_ne_some.2 fun dump' hdump' => ?_
        obtain ⟨dump, hsome⟩ := hdumps.2 ⟨dump', hdump'⟩
        rw [hdump] at hsome
        cases hsome
      rw [hdump']
      exact .error (.same _) hs

theorem bindParams_related {env env' : Environment} (henv : R env env') (params : List String)
    {args : List Value} (hargs : ∀ v ∈ args, V v) :
    R (env.bindParams params args) (env'.bindParams params args) := by
  unfold Environment.bindParams
  induction params generalizing env env' args with
  | nil => exact henv
  | cons name params ih =>
    cases args with
    | nil => exact henv
    | cons v args =>
      obtain ⟨hv, hargs⟩ := List.forall_mem_cons.1 hargs
      exact ih (hR.insert henv name hv) hargs

theorem bindSymbol_agrees (name : String) {v : Value} (hv : V v) :
    Agree R (Fault.SameButDump R) (fun _ => True) (bindSymbol name v) (bindSymbol name v) :=
  .bindSymbol fun _ _ henv => hR.insert henv name hv

theorem defun_agrees (hP : Value.IsClosed P V) {forms : List Value} (hforms : ∀ v ∈ forms, P v) :
    Agree R (Fault.SameButDump R) V (defun forms) (defun forms) := by
  unfold defun
  split
  · rename_i name params body
    obtain ⟨-, hparams, hbody⟩ : P (.symbol name) ∧ P (.list params) ∧ P body := by simpa using hforms
    refine (paramNames_agrees params).bind fun names hnames => ?_
    subst hnames
    exact (bindSymbol_agrees hR name (hP.lambda hparams hbody)).bind fun _ _ => .pure (hP.text name)
  · exact (Agree.printed .same _).bind fun _ _ => .throw (.same _)
  · exact (Agree.printed .same _).bind fun _ _ => .throw (.same _)
  · exact .throw (.same _)

variable (hev : ∀ form, P form → Agree R (Fault.SameButDump R) V (ev form) (ev' form))
include hev

theorem setq_agrees {forms : List Value} (hforms : ∀ v ∈ forms, P v) :
    Agree R (Fault.SameButDump R) V (setq ev forms) (setq ev' forms) := by
  unfold setq
  split
  · exact .throw (.same _)
  · rename_i name form _
    refine (hev form (hforms form (by simp))).bind fun v hv => ?_
    exact (bindSymbol_agrees hR name hv).bind fun _ _ => .pure hv
  · exact .throw (.same _)
  · exact .throw (.same _)

omit hR in
theorem evalArgs_agrees {forms : List Value} (hforms : ∀ v ∈ forms, P v) :
    Agree R (Fault.SameButDump R) (fun args => ∀ v ∈ args, V v)
      (evalArgs ev forms) (evalArgs ev' forms) := by
  have hmap := evalArgs_map_agrees id fun form hform => hev form (hforms form hform)
  rwa [List.map_id] at hmap

variable (hnotes : verbose = verbose' ∨ Value.AreNoted V)
include hnotes

theorem apply_agrees (hP : Value.IsClosed P V) {head : Value} (hhead : V head)
    {forms : List Value} (hforms : ∀ v ∈ forms, P v) :
    Agree R (Fault.SameButDump R) V (apply verbose ev head forms) (apply verbose' ev' head forms) := by
  unfold apply
  split
  · rename_i index
    have hbuiltin := apply_builtin_agrees .same hnotes hP.number hhead id fun form hform =>
      hev form (hforms form hform)
    rwa [List.map_id] at hbuiltin
  · rename_i params body
    split
    · refine (evalArgs_agrees hev hforms).bind fun args hargs => ?_
      refine (Agree.note ?_).bind fun _ _ => ?_
      · refine hnotes.imp (fun hsame => ⟨hsame, ?_⟩) fun hnoted env => ?_
        · exact (Agree.printed .same _).bind fun _ _ => .pure ⟨⟩
        · exact lambdaNote_keeps (hnoted.printed hargs)
      · refine (hev body (hP.body hhead)).inCopy fun env env' henv => ?_
        exact bindParams_related hR henv params hargs
    · exact .throw (.same _)
  · exact (Agree.printed .same _).bind fun _ _ => .throw (.same _)

/-- One evaluation agrees with itself if the evaluations of forms in the class do. -/
theorem step_agrees (hP : Value.IsClosed P V) {form : Value} (hform : P form) :
    Agree R (Fault.SameButDump R) V (step verbose ev form) (step verbose' ev' form) := by
  unfold step
  split
  · exact lookup_agrees hR hform
  · exact .throw (.same _)
  · rename_i head forms
    have hforms := hP.item hform
    cases hspecial : SpecialForm.ofHead? head with
    | some special =>
      refine (Agree.note (.inr (.pure _))).bind fun _ _ => ?_
      cases special with
      | setq => exact setq_agrees hR hev hforms
      | defun => exact defun_agrees hR hP hforms
    | none =>
      refine (hev head (hP.head hform hspecial)).bind fun fn hfn => ?_
      exact apply_agrees hR hev hnotes hP hfn hforms
  · split
    · rename_i hconstant
      exact .pure (hP.constant hform hconstant)
    · exact (Agree.printed .same _).bind fun _ _ => .throw (.same _)

end

theorem eval_agrees_of_notes (hP : Value.IsClosed P V) (hR : Environment.Indistinct P V R)
    (hnotes : verbose = verbose' ∨ Value.AreNoted V) (limit : Nat) {form : Value} (hform : P form) :
    Agree R (Fault.SameButDump R) V (eval verbose limit form) (eval verbose' limit form) := by
  induction limit generalizing form with
  | zero => exact .throw (.same _)
  | succ limit ih => exact step_agrees hR (fun _ h => ih h) hnotes hP hform

theorem eval_agrees (hP : Value.IsClosed P V) (hR : Environment.Indistinct P V R) (verbose : Bool)
    (limit : Nat) {form : Value} (hform : P form) :
    Agree R (Fault.SameButDump R) V (eval verbose limit form) (eval verbose limit form) :=
  eval_agrees_of_notes hP hR (.inl rfl) limit hform

end Evaluation
end SnapLisp
