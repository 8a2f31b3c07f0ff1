import SnapLisp.Proofs.Evaluation.Agree

/-!
# The order of bindings

Evaluation does not tell environments apart that hold the same bindings in different orders
(`sameBindings_indistinct`): only a dump shows the order. Binding two names in either order gives the
same bindings, so the functions that a list of DEFUN forms defines can be defined in any order
(`stateAfterAll_perm`). Both are in `eval_binding_order`.
-/

namespace SnapLisp

theorem Value.isClosed_true : Value.IsClosed (fun _ => True) fun _ => True := by
  constructor <;> intros <;> trivial

theorem Environment.sameBindings_indistinct :
    Environment.Indistinct (fun _ => True) (fun _ => True) SameBindings where
  get?_eq := fun h _ => h.get?_eq _
  value := fun _ _ _ => ⟨⟩
  exists_printed?_iff := fun h => h.exists_printed?_iff
  insert := fun h name _ _ => h.insert name _

/-- Nothing but the environment decides about an evaluation. -/
theorem Environment.eq_indistinct :
    Indistinct (fun _ => True) (fun _ => True) (· = ·) where
  get?_eq := fun h _ => h ▸ rfl
  value := fun _ _ _ => ⟨⟩
  exists_printed?_iff := fun h => h ▸ Iff.rfl
  insert := fun h _ _ _ => h ▸ rfl

/-- A function as a DEFUN form defines it. -/
structure Definition where
  name : String
  params : List String
  body : Value

namespace Definition

def form (d : Definition) : Value :=
  .list [.symbol SpecialForm.defun.name, .symbol d.name, .list (d.params.map .symbol), d.body]

def bindTo (d : Definition) (env : Environment) : Environment :=
  env.insert (.symbol d.name) (.lambda d.params d.body)

end Definition

namespace Evaluation
open EvalM Environment
variable {verbose : Bool} {limit : Nat}

theorem eval_sameBindings (verbose : Bool) (limit : Nat) (form : Value) :
    Agree SameBindings (Fault.SameButDump SameBindings) (fun _ => True)
      (eval verbose limit form) (eval verbose limit form) :=
  eval_agrees Value.isClosed_true sameBindings_indistinct verbose limit ⟨⟩

/-! ### Definitions -/

theorem paramNames_symbols (names : List String) : paramNames (names.map .symbol) = pure names := by
  induction names with
  | nil => rfl
  | cons name names ih =>
    rw [List.map_cons, paramNames, ih]
    rfl

theorem env_after_definition (verbose : Bool) (limit : Nat) (d : Definition) (s : State) :
    (stateAfter (eval verbose (limit + 1) d.form) s).env = d.bindTo s.env := by
  have hspecial : SpecialForm.ofHead? (.symbol SpecialForm.defun.name) = some .defun := rfl
  simp only [eval, Definition.form, step, hspecial, defun, paramNames_symbols]
  cases verbose with
  | false => rfl
  | true => rfl

/-- The state after forms have been evaluated one by one, however each of them ended. -/
def stateAfterAll (verbose : Bool) (limit : Nat) (forms : List Value) (s : State) : State :=
  forms.foldl (fun s form => stateAfter (eval verbose limit form) s) s

theorem stateAfterAll_append (forms forms' : List Value) (s : State) :
    stateAfterAll verbose limit (forms ++ forms') s =
      stateAfterAll verbose limit forms' (stateAfterAll verbose limit forms s) :=
  List.foldl_append ..

theorem stateAfterAll_sameBindings (forms : List Value) {s s' : State}
    (h : s.env.SameBindings s'.env) : (stateAfterAll verbose limit forms s).env.SameBindings
      (stateAfterAll verbose limit forms s').env := by
  induction forms generalizing s s' with
  | nil => exact h
  | cons form forms ih => exact ih (eval_sameBindings verbose limit form s s' h).stateAfter

theorem env_after_definitions (verbose : Bool) (limit : Nat) (ds : List Definition) (s : State) :
    (stateAfterAll verbose (limit + 1) (ds.map (·.form)) s).env =
      ds.foldl (fun env d => d.bindTo env) s.env := by
  induction ds generalizing s with
  | nil => rfl
  | cons d ds ih =>
    rw [List.foldl_cons, ← env_after_definition verbose limit, ← ih]
    rfl

theorem definitions_comm (verbose : Bool) (limit : Nat) {d d' : Definition} (hne : d.name ≠ d'.name)
    {s s' : State} (h : s.env.SameBindings s'.env) :
    (stateAfterAll verbose limit ([d, d'].map (·.form)) s).env.SameBindings
      (stateAfterAll verbose limit ([d', d].map (·.form)) s').env := by
  cases limit with
  | zero => exact h
  | succ limit =>
    rw [env_after_definitions, env_after_definitions]
    have hswap := SameBindings.insert_comm s.env hne (.lambda d'.params d'.body)
      (.lambda d.params d.body)
    exact hswap.trans ((h.insert d'.name _).insert d.name _)

/-- Definitions of different names in either of two orders. -/
theorem stateAfterAll_perm {ds ds' : List Definition} (hperm : ds.Perm ds')
    (hnodup : (ds.map (·.name)).Nodup) {s s' : State} (h : s.env.SameBindings s'.env) :
    (stateAfterAll verbose limit (ds.map (·.form)) s).env.SameBindings
      (stateAfterAll verbose limit (ds'.map (·.form)) s').env := by
  induction hperm generalizing s s' with
  | nil => exact h
  | cons d _ ih =>
    exact ih (List.nodup_cons.1 hnodup).2 (eval_sameBindings verbose limit d.form s s' h).stateAfter
  | swap d d' ds =>
    have hne : d'.name ≠ d.name := fun heq => (List.nodup_cons.1 hnodup).1 (by simp [heq])
    exact stateAfterAll_sameBindings _ (definitions_comm verbose limit hne h)
  | trans hperm _ ih ih' =>
    have hsame : s'.env.SameBindings s'.env := .refl _
    exact (ih hnodup h).trans (ih' ((hperm.map _).nodup_iff.1 hnodup) hsame)

/-- In environments with the same bindings a form ends alike, and leaves the same bindings; so whatever
is evaluated after definitions of different names ends alike in whichever order they were made. -/
theorem eval_binding_order (verbose : Bool) (limit : Nat) :
    (∀ form s s', s.env.SameBindings s'.env →
      Alike SameBindings (Fault.SameButDump SameBindings) (fun _ => True)
        (eval verbose limit form s) (eval verbose limit form s')) ∧
    ∀ ds ds' : List Definition, ds.Perm ds' → (ds.map (·.name)).Nodup → ∀ s forms form,
      Alike SameBindings (Fault.SameButDump SameBindings) (fun _ => True)
        (eval verbose limit form (stateAfterAll verbose limit (ds.map (·.form) ++ forms) s))
        (eval verbose limit form (stateAfterAll verbose limit (ds'.map (·.form) ++ forms) s)) := by
  refine ⟨fun form => eval_sameBindings verbose limit form, ?_⟩
  intro ds ds' hperm hnodup s forms form
  refine eval_sameBindings verbose limit form _ _ ?_
  rw [stateAfterAll_append, stateAfterAll_append]
  exact stateAfterAll_sameBindings forms (stateAfterAll_perm hperm hnodup (.refl _))

/-- F and G defined in both orders, and then a name looked up that neither of them defines. -/
theorem eval_binding_order_unbound :
    let f : Definition := ⟨"F", ["X"], .list [.symbol "G", .symbol "X"]⟩
    let g : Definition := ⟨"G", ["X"], .symbol "H"⟩
    let s : State := ⟨Environment.empty, []⟩
    let call := Value.list [.symbol "F", .truth]
    Alike SameBindings (Fault.SameButDump SameBindings) (fun _ => True)
      (eval false 9 call (stateAfterAll false 9 [f.form, g.form] s))
      (eval false 9 call (stateAfterAll false 9 [g.form, f.form] s)) := by
  intro f g s call
  exact (eval_binding_order false 9).2 [f, g] [g, f] (.swap ..) (by decide) s [] call

end Evaluation
end SnapLisp
