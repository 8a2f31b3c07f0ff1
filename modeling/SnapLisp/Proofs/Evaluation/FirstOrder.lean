import Mathlib.Data.Set.Finite.List
import Mathlib.Order.Filter.AtTopBot.Basic
import Mathlib.Order.Filter.Finite
import SnapLisp.Proofs.Environment.Compare
import SnapLisp.Proofs.Environment.Insert
import SnapLisp.Proofs.Evaluation.Keeps
import SnapLisp.Proofs.Evaluation.Operator

/-!
# First-order programs

In a first-order form the names of functions stand at the head of applications only, and the form
defines none (`Value.IsFirstOrder`). If this holds of a form and of all bound bodies, and no parameter
is the name of a function, then no lambda ever becomes the value of an argument or a variable: the
functions stay what they are (`SameFunctions`) in the environment and in all copies of it. If the bodies
also call functions of lower rank only, evaluation ends. By induction on the rank the bodies end from
some limit on, and by induction on the form the form does (`eval_ends_of_bodies`, `body_ends`,
`eval_ends`).
-/

namespace SnapLisp

/-! ### Forms -/

namespace Value

mutual

/-- The lists in a form, at any depth, each as its head and what is behind it. -/
def lists : Value → List (Value × List Value)
  | list (head :: forms) => (head, forms) :: (lists head ++ itemLists forms)
  | _ => []

def itemLists : List Value → List (Value × List Value)
  | [] => []
  | v :: vs => lists v ++ itemLists vs

end

/-- Names in `F` stand at the head of applications only, and nothing is defined. -/
structure IsFirstOrder (F : String → Prop) (form : Value) : Prop where
  symbol : ∀ name, form = .symbol name → ¬ F name
  item : ∀ p ∈ form.lists, ∀ name, .symbol name ∈ p.2 → ¬ F name
  not_defun : ∀ p ∈ form.lists, SpecialForm.ofHead? p.1 ≠ some .defun

/-- The name heads an application in the form. -/
def Applies (form : Value) (name : String) : Prop :=
  SpecialForm.ofHead? (symbol name) = none ∧ ∃ p ∈ form.lists, p.1 = symbol name

/-- A value other than a lambda. -/
def IsData : Value → Prop
  | lambda _ _ => False
  | _ => True

variable {F : String → Prop} {head v : Value} {forms items : List Value} {name : String}

theorem mem_itemLists_iff {p : Value × List Value} :
    p ∈ itemLists forms ↔ ∃ v ∈ forms, p ∈ v.lists := by
  induction forms with
  | nil => simp [itemLists]
  | cons v forms ih => simp [itemLists, ih]

theorem mem_lists_of_mem {p : Value × List Value} (hv : v ∈ items) (hp : p ∈ v.lists) :
    p ∈ (list items).lists := by
  obtain ⟨head, forms, rfl⟩ := List.exists_cons_of_ne_nil (List.ne_nil_of_mem hv)
  rw [lists]
  rcases List.mem_cons.1 hv with rfl | hv
  · exact List.mem_cons_of_mem _ (List.mem_append_left _ hp)
  · exact List.mem_cons_of_mem _ (List.mem_append_right _ (mem_itemLists_iff.2 ⟨v, hv, hp⟩))

theorem mem_lists_self : (head, forms) ∈ (list (head :: forms)).lists := by
  simp [lists]

theorem Applies.of_mem (hv : v ∈ items) (h : v.Applies name) : (list items).Applies name := by
  obtain ⟨hspecial, p, hp, hname⟩ := h
  exact ⟨hspecial, p, mem_lists_of_mem hv hp, hname⟩

namespace IsFirstOrder

theorem of_mem (h : (list items).IsFirstOrder F) (hv : v ∈ items)
    (hsymbol : ∀ name, v = .symbol name → ¬ F name) : v.IsFirstOrder F where
  symbol := hsymbol
  item := fun p hp => h.item p (mem_lists_of_mem hv hp)
  not_defun := fun p hp => h.not_defun p (mem_lists_of_mem hv hp)

theorem tail (h : (list (head :: forms)).IsFirstOrder F) : ∀ v ∈ forms, v.IsFirstOrder F := by
  intro v hv
  refine h.of_mem (List.mem_cons_of_mem _ hv) fun name hname => ?_
  subst hname
  exact h.item (head, forms) mem_lists_self name hv

end IsFirstOrder
end Value

/-! ### Environments -/

namespace Environment

/-- The name is bound to a lambda. -/
def Defines (env : Environment) (name : String) : Prop :=
  ∃ params body, env.get? (.symbol name) = some (.lambda params body)

/-- The form applies a function with this body. -/
def Runs (env : Environment) (form body : Value) : Prop :=
  ∃ f forms params, form = .list (.symbol f :: forms) ∧ SpecialForm.ofHead? (.symbol f) = none ∧
    env.get? (.symbol f) = some (.lambda params body)

theorem Runs.unique {env : Environment} {form body body' : Value} (h : env.Runs form body)
    (h' : env.Runs form body') : body = body' := by
  obtain ⟨f, forms, params, rfl, -, hf⟩ := h
  obtain ⟨f', forms', params', heq, -, hf'⟩ := h'
  cases heq
  rw [hf] at hf'
  cases hf'
  rfl

/-- The lambdas are first order, and each applies lambdas of lower rank only. -/
structure IsRanked (rank : String → Nat) (env : Environment) : Prop where
  params : ∀ {f params body}, env.get? (.symbol f) = some (.lambda params body) →
    ∀ name ∈ params, ¬ env.Defines name
  firstOrder : ∀ {f params body}, env.get? (.symbol f) = some (.lambda params body) →
    body.IsFirstOrder env.Defines
  below : ∀ {f params body}, env.get? (.symbol f) = some (.lambda params body) →
    ∀ g, body.Applies g → env.Defines g → rank g < rank f

/-- The same names are bound to the same lambdas. -/
def SameFunctions (env env' : Environment) : Prop :=
  ∀ name params body, env'.get? (.symbol name) = some (.lambda params body) ↔
    env.get? (.symbol name) = some (.lambda params body)

namespace SameFunctions
variable {env env' : Environment} {name : String} {v : Value}

theorem isData (h : env.SameFunctions env') (hname : ¬ env.Defines name)
    (hv : env'.get? (.symbol name) = some v) : v.IsData := by
  cases v with
  | lambda params body => exact hname ⟨params, body, (h name params body).1 hv⟩
  | number | integer | flag | text | symbol | list | nil | truth | builtin | absent => trivial

theorem insert (h : env.SameFunctions env') (hname : ¬ env.Defines name) (hv : v.IsData) :
    env.SameFunctions (env'.insert (.symbol name) v) := by
  intro n params body
  by_cases hn : n = name
  · subst hn
    rw [get?_insert_self]
    constructor
    · intro heq
      cases heq
      exact hv.elim
    · intro hlambda
      exact absurd ⟨params, body, hlambda⟩ hname
  · have hkey : Key.symbol n ≠ .symbol name := fun heq => hn (Key.symbol_inj.1 heq)
    rw [get?_insert_of_ne hkey]
    exact h n params body

theorem bindParams (h : env.SameFunctions env') {params : List String} {args : List Value}
    (hparams : ∀ name ∈ params, ¬ env.Defines name) (hargs : ∀ v ∈ args, v.IsData) :
    env.SameFunctions (env'.bindParams params args) := by
  unfold Environment.bindParams
  induction params generalizing env' args with
  | nil => exact h
  | cons name params ih =>
    cases args with
    | nil => exact h
    | cons v args =>
      obtain ⟨hname, hparams⟩ := List.forall_mem_cons.1 hparams
      obtain ⟨hv, hargs⟩ := List.forall_mem_cons.1 hargs
      exact ih (h.insert hname hv) hparams hargs

end SameFunctions
end Environment

/-! ### Evaluation -/

namespace EvalM

/-- `m` does not exceed its limit and has no lambda as its value; the functions of `env` stay. -/
abbrev Ends {α : Type} (env : Environment) (Q : α → Prop) (m : EvalM α) : Prop :=
  Keeps env.SameFunctions (· ≠ .depthExceeded) Q m

variable {env : Environment} {name : String}

theorem printed_ends (v : Value) : Ends env (fun _ => True) (printed v) :=
  .printed (fun _ _ => ⟨⟩) fun _ => nofun

theorem lookup_ends (hname : ¬ env.Defines name) : Ends env Value.IsData (lookup name) := by
  refine .lookup fun env' henv => ?_
  unfold Environment.lookup
  cases hget : env'.get? (.symbol name) with
  | some v => exact henv.isData hname hget
  | none => cases env'.printed? <;> exact nofun

theorem lookup_function_ends {params : List String} {body : Value}
    (h : env.get? (.symbol name) = some (.lambda params body)) :
    Ends env (· = .lambda params body) (lookup name) := by
  refine .lookup fun env' henv => ?_
  rw [Environment.lookup, (henv name params body).2 h]

end EvalM

namespace Evaluation
open EvalM
variable {env : Environment} {verbose : Bool} {ev : Value → EvalM Value}

theorem evalArgs_ends {forms : List Value} (hforms : ∀ v ∈ forms, Ends env Value.IsData (ev v)) :
    Ends env (fun args => ∀ v ∈ args, v.IsData) (evalArgs ev forms) :=
  evalArgs_keeps hforms

theorem setq_ends {forms : List Value} (hforms : ∀ v ∈ forms, Ends env Value.IsData (ev v))
    (hnames : ∀ name, .symbol name ∈ forms → ¬ env.Defines name) :
    Ends env Value.IsData (setq ev forms) := by
  unfold setq
  split
  · exact .throw nofun
  · rename_i name form _
    refine (hforms form (by simp)).bind fun v hv => ?_
    have hbind : Ends env (fun _ => True) (bindSymbol name v) :=
      .bindSymbol fun _ henv => henv.insert (hnames name (by simp)) hv
    exact hbind.bind fun _ _ => .pure hv
  · exact .throw nofun
  · exact .throw nofun

/-- Data are applied without a body to run. -/
theorem apply_data_ends {head : Value} (hhead : head.IsData) {forms : List Value}
    (hforms : ∀ v ∈ forms, Ends env Value.IsData (ev v)) :
    Ends env Value.IsData (apply verbose ev head forms) := by
  unfold apply
  split
  · exact apply_builtin_keeps hforms (fun _ hrefusal => hrefusal.ne_depthExceeded) fun _ => ⟨⟩
  · exact hhead.elim
  · exact (printed_ends _).bind fun _ _ => .throw nofun

theorem apply_lambda_ends {params : List String} {body : Value} {forms : List Value}
    (hparams : ∀ name ∈ params, ¬ env.Defines name)
    (hforms : ∀ v ∈ forms, Ends env Value.IsData (ev v)) (hbody : Ends env Value.IsData (ev body)) :
    Ends env Value.IsData (apply verbose ev (.lambda params body) forms) := by
  simp only [apply]
  split
  · refine (evalArgs_ends hforms).bind fun args hargs => ?_
    refine (Keeps.note ?_).bind fun _ _ => ?_
    · exact (printed_ends _).bind fun _ _ => .pure ⟨⟩
    · exact .inCopy hbody fun _ henv => henv.bindParams hparams hargs
  · exact .throw nofun

/-- One evaluation ends if those of the items do, and the body that is run if a function is applied. -/
theorem step_ends {form : Value} (hform : form.IsFirstOrder env.Defines)
    (hparams : ∀ f params body, env.get? (.symbol f) = some (.lambda params body) →
      ∀ name ∈ params, ¬ env.Defines name)
    (hsymbol : ∀ name, ev (.symbol name) = lookup name)
    (hitems : ∀ items, form = .list items → ∀ v ∈ items, v.IsFirstOrder env.Defines →
      Ends env Value.IsData (ev v))
    (hbody : ∀ body, env.Runs form body → Ends env Value.IsData (ev body)) :
    Ends env Value.IsData (step verbose ev form) := by
  unfold step
  split
  · exact lookup_ends (hform.symbol _ rfl)
  · exact .throw nofun
  · rename_i head forms
    have hforms : ∀ v ∈ forms, Ends env Value.IsData (ev v) := fun v hv =>
      hitems _ rfl v (List.mem_cons_of_mem _ hv) (hform.tail v hv)
    cases hspecial : SpecialForm.ofHead? head with
    | some special =>
      refine (Keeps.note (.pure ⟨⟩)).bind fun _ _ => ?_
      cases special with
      | setq => exact setq_ends hforms (hform.item (head, forms) Value.mem_lists_self)
      | defun => exact absurd hspecial (hform.not_defun (head, forms) Value.mem_lists_self)
    | none =>
      by_cases hcall : ∃ f params body, head = .symbol f ∧
          env.get? (.symbol f) = some (.lambda params body)
      · obtain ⟨f, params, body, rfl, hf⟩ := hcall
        have hlambda := lookup_function_ends hf
        rw [hsymbol f]
        refine hlambda.bind fun fn hfn => ?_
        rw [hfn]
        exact apply_lambda_ends (hparams f params body hf) hforms
          (hbody body ⟨f, forms, params, rfl, hspecial, hf⟩)
      · have hhead : head.IsFirstOrder env.Defines := by
          refine hform.of_mem List.mem_cons_self ?_
          rintro name rfl ⟨params, body, hf⟩
          exact hcall ⟨name, params, body, rfl, hf⟩
        refine (hitems _ rfl head List.mem_cons_self hhead).bind fun fn hfn => ?_
        exact apply_data_ends hfn hforms
  · split
    · rename_i hconstant
      refine .pure ?_
      cases form with
      | lambda => cases hconstant
      | number | integer | flag | text | symbol | list | nil | truth | builtin | absent => trivial
    · exact (printed_ends _).bind fun _ _ => .throw nofun

/-! ### Limits -/

open Filter in
theorem eventually_of_succ {p : Nat → Prop} (h : ∀ᶠ n in atTop, p (n + 1)) : ∀ᶠ n in atTop, p n := by
  obtain ⟨start, hstart⟩ := eventually_atTop.1 h
  refine eventually_atTop.2 ⟨start + 1, fun n hn => ?_⟩
  obtain ⟨n, rfl⟩ := Nat.exists_eq_add_of_le' (Nat.le_of_add_left_le hn)
  exact hstart n (Nat.le_of_succ_le_succ hn)

open Filter in
theorem eventually_of_unique {α : Type} {P : α → Prop} {p : Nat → α → Prop}
    (hP : ∀ a b, P a → P b → a = b) (h : ∀ a, P a → ∀ᶠ n in atTop, p n a) :
    ∀ᶠ n in atTop, ∀ a, P a → p n a := by
  by_cases hex : ∃ a, P a
  · obtain ⟨a, ha⟩ := hex
    exact (h a ha).mono fun n hn b hb => hP a b ha hb ▸ hn
  · exact .of_forall fun n a ha => absurd ⟨a, ha⟩ hex

section
variable {rank : String → Nat} (hranked : env.IsRanked rank)
include hranked
open Filter

-- By induction on the form. The bodies are no part of it; that they end comes from their ranks.
theorem eval_ends_of_bodies (verbose : Bool) {form : Value} (hform : form.IsFirstOrder env.Defines)
    (hbodies : ∀ f params body, form.Applies f → env.get? (.symbol f) = some (.lambda params body) →
      ∀ᶠ limit in atTop, Ends env Value.IsData (eval verbose limit body)) :
    ∀ᶠ limit in atTop, Ends env Value.IsData (eval verbose limit form) := by
  have hitems : ∀ᶠ limit in atTop, ∀ items, form = .list items → ∀ v ∈ items,
      v.IsFirstOrder env.Defines → Ends env Value.IsData (eval verbose limit v) := by
    refine eventually_of_unique (fun _ _ h h' => Value.list.inj (h.symm.trans h')) fun items heq => ?_
    refine (eventually_all_finite (List.finite_toSet items)).2 fun v hv => ?_
    refine eventually_imp_distrib_left.2 fun hfirst => ?_
    refine eval_ends_of_bodies verbose hfirst fun f params body hf => hbodies f params body ?_
    exact heq ▸ hf.of_mem hv
  have hbody : ∀ᶠ limit in atTop, ∀ body, env.Runs form body →
      Ends env Value.IsData (eval verbose limit body) := by
    refine eventually_of_unique (fun _ _ h h' => h.unique h') fun body hruns => ?_
    obtain ⟨f, forms, params, rfl, hspecial, hf⟩ := hruns
    exact hbodies f params body ⟨hspecial, _, Value.mem_lists_self, rfl⟩ hf
  have hstep : ∀ᶠ limit in atTop, Ends env Value.IsData (eval verbose (limit + 1) form) := by
    filter_upwards [hitems, hbody, eventually_ge_atTop 1] with limit hitems hbody hlimit
    obtain ⟨limit, rfl⟩ := Nat.exists_eq_add_of_le' hlimit
    exact step_ends hform (fun _ _ _ => hranked.params) (fun _ => rfl) hitems hbody
  exact eventually_of_succ hstep
termination_by form
decreasing_by exact heq ▸ Value.sizeOf_item_lt hv

/-- By induction on the rank, the bodies of all functions end from some limit on. -/
theorem body_ends (verbose : Bool) {f : String} {params : List String} {body : Value}
    (hf : env.get? (.symbol f) = some (.lambda params body)) :
    ∀ᶠ limit in atTop, Ends env Value.IsData (eval verbose limit body) := by
  induction hrank : rank f using Nat.strong_induction_on generalizing f params body with
  | _ r ih =>
    refine eval_ends_of_bodies hranked verbose (hranked.firstOrder hf) fun g params' body' hg hbody => ?_
    have hlt : rank g < r := hrank ▸ hranked.below hf g hg ⟨params', body', hbody⟩
    exact ih (rank g) hlt hbody rfl

end

/-- If the functions of the environment can be ranked so that each applies functions of lower rank only,
and they and the form use functions in no other way, then the evaluation of the form stays below every
limit that is high enough. -/
theorem eval_ends {rank : String → Nat} (hranked : env.IsRanked rank) (verbose : Bool) {form : Value}
    (hform : form.IsFirstOrder env.Defines) : ∃ start, ∀ limit, start ≤ limit →
      ∀ journal s, eval verbose limit form ⟨env, journal⟩ ≠ .error .depthExceeded s := by
  obtain ⟨start, hends⟩ := Filter.eventually_atTop.1 <|
    eval_ends_of_bodies hranked verbose hform fun _ _ _ _ hf => body_ends hranked verbose hf
  refine ⟨start, fun limit hlimit journal s hrun => ?_⟩
  have hkept := hends limit hlimit ⟨env, journal⟩ fun _ _ _ => Iff.rfl
  rw [hrun] at hkept
  exact hkept.1 rfl

/-- G applies F twice and binds Z in between; F applies the operator `+`. -/
theorem eval_ends_twice :
    let f := Value.list [.symbol "+", .symbol "X", .symbol "X"]
    let g := Value.list [.symbol "F", .list [.symbol "SETQ", .symbol "Z",
      .list [.symbol "F", .symbol "Y"]]]
    let env := (Environment.empty.register.insert (.symbol "F") (.lambda ["X"] f)).insert
      (.symbol "G") (.lambda ["Y"] g)
    ∃ start, ∀ limit, start ≤ limit → ∀ journal s,
      eval false limit (.list [.symbol "G", .integer 2]) ⟨env, journal⟩ ≠ .error .depthExceeded s := by
  intro f g env
  have hget : ∀ {name params body}, env.get? (.symbol name) = some (.lambda params body) →
      name = "F" ∧ params = ["X"] ∧ body = f ∨ name = "G" ∧ params = ["Y"] ∧ body = g := by
    intro name params body h
    have hmem := Environment.get?_symbol_iff.1 h
    have hentries : env.entries = Operator.bindings ++
      [(.symbol "F", .lambda ["X"] f), (.symbol "G", .lambda ["Y"] g)] := rfl
    rw [hentries] at hmem
    simpa [Operator.bindings] using hmem
  have hdata : ∀ {name}, name ≠ "F" → name ≠ "G" → ¬ env.Defines name := by
    rintro name hf hg ⟨params, body, h⟩
    exact (hget h).elim (hf ·.1) (hg ·.1)
  have hfirst : ∀ form ∈ [f, g, .list [.symbol "G", .integer 2]], form.IsFirstOrder env.Defines := by
    intro form hform
    refine ⟨fun name hname => by simp [hname, f, g] at hform, ?_, ?_⟩
    · revert form
      simp [f, g, Value.lists, Value.itemLists, hdata, -Prod.forall]
    · revert form
      decide
  have hranked : env.IsRanked fun name => if name = "G" then 1 else 0 := by
    constructor
    · intro name params body h
      obtain ⟨-, rfl, -⟩ | ⟨-, rfl, -⟩ := hget h <;> simp [hdata]
    · intro name params body h
      obtain ⟨-, -, rfl⟩ | ⟨-, -, rfl⟩ := hget h <;> exact hfirst _ (by simp)
    · rintro name params body h callee ⟨hspecial, hcallee⟩ hdefines
      obtain ⟨rfl, -, rfl⟩ | ⟨rfl, -, rfl⟩ := hget h
      · have hhead : "+" = callee := by
          simpa [f, Value.lists, Value.itemLists, -Prod.exists] using hcallee
        exact absurd hdefines (hhead ▸ hdata (by simp) (by simp))
      · have hhead : "F" = callee ∨ "SETQ" = callee ∨ "F" = callee := by
          simpa [g, Value.lists, Value.itemLists, -Prod.exists] using hcallee
        obtain rfl | rfl | rfl := hhead
        · simp
        · cases hspecial
        · simp
  exact eval_ends hranked false (hfirst _ (by simp))

end Evaluation
end SnapLisp
