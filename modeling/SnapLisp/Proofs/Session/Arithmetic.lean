import SnapLisp.Proofs.Evaluation.Result
import SnapLisp.Proofs.Session.Line
import SnapLisp.Proofs.Source.Form

/-!
# Arithmetic

A line that holds an arithmetic expression is answered with its value. The stages are followed one by
one: the text of an expression reads as its form (`Term.read_text`), the form evaluates to the number
that the expression denotes (`eval_form`), and the number is printed. All of it is stated with the
invariant that the environment is the one at the start, and for every limit: an expression nested more
deeply than the limit ends the session.
-/

namespace SnapLisp

/-- An arithmetic expression: a finite number, or an operator with one operand or more. -/
inductive Term
  | number (x : Binary64) (finite : x.IsFinite)
  | application (op : Operator) (first : Term) (rest : List Term)

namespace Term

/-- The number that an expression denotes: the operator folds its operands from the left, and the
first operand alone is its own result. -/
def value : Term → Binary64
  | number x _ => x
  | application op first rest => (rest.map value).foldl op.apply first.value

/-- Numbers in the plain layout, applications in parentheses with single blanks between the items. -/
def text : Term → List Char
  | number x _ => Layout.plain.write x
  | application op first rest =>
    '(' :: ([' '].intercalate (op.name.toList :: first.text :: rest.map text) ++ [')'])

def form : Term → Value
  | number x _ => .number x
  | application op first rest => .list (.symbol op.name :: first.form :: rest.map form)

/-- How many evaluations are inside one another when an expression is evaluated. -/
def depth : Term → Nat
  | number _ _ => 1
  | application _ first rest => (rest.map depth).foldl max first.depth + 1

variable {op : Operator} {first : Term} {rest : List Term}

theorem sizeOf_operand_lt (op : Operator) {e : Term} (he : e ∈ first :: rest) :
    sizeOf e < sizeOf (application op first rest) := by
  rw [application.sizeOf_spec]
  rcases List.mem_cons.1 he with rfl | he
  · omega
  · have := List.sizeOf_lt_of_mem he
    omega

theorem induct {P : Term → Prop} (number : ∀ x finite, P (number x finite))
    (application : ∀ op first rest, (∀ e ∈ first :: rest, P e) → P (application op first rest)) :
    ∀ e, P e
  | .number x finite => number x finite
  | .application op first rest =>
    application op first rest fun e he =>
      have := sizeOf_operand_lt op he
      induct number application e
termination_by e => sizeOf e

theorem foldl_max_le_iff {ds : List Nat} {d limit : Nat} :
    ds.foldl max d ≤ limit ↔ ∀ x ∈ d :: ds, x ≤ limit := by
  induction ds generalizing d with
  | nil => simp
  | cons x ds ih =>
    rw [List.foldl_cons, ih]
    simp [and_assoc]

theorem depth_application_le_iff {limit : Nat} :
    (application op first rest).depth ≤ limit + 1 ↔ ∀ e ∈ first :: rest, e.depth ≤ limit := by
  rw [depth, Nat.add_le_add_iff_right, foldl_max_le_iff, ← List.map_cons, List.forall_mem_map]

theorem depth_pos (e : Term) : 0 < e.depth := by
  cases e with
  | number x finite => rw [depth]; exact Nat.one_pos
  | application op first rest => rw [depth]; exact Nat.succ_pos _

/-! ### Reading -/

theorem isName_op (op : Operator) : IsName op.name :=
  .operator (by cases op <;> decide)

/-- The items of an application, each with its text. -/
def items (op : Operator) (operands : List Term) : List (List Char × Value) :=
  (op.name.toList, .symbol op.name) :: operands.map fun e => (e.text, e.form)

theorem text_application :
    (application op first rest).text =
      '(' :: ([' '].intercalate ((items op (first :: rest)).map (·.1)) ++ [')']) := by
  simp [text, items, Function.comp_def]

theorem form_application :
    (application op first rest).form = .list ((items op (first :: rest)).map (·.2)) := by
  simp [form, items, Function.comp_def]

theorem readsAs_items {operands : List Term} (h : ∀ e ∈ operands, Form.ReadsAs e.text e.form) :
    ∀ i ∈ items op operands, Form.ReadsAs i.1 i.2 := by
  refine List.forall_mem_cons.2 ⟨Form.readsAs_name (isName_op op), fun i hi => ?_⟩
  obtain ⟨e, he, rfl⟩ := List.mem_map.1 hi
  exact h e he

theorem readsAs_text (e : Term) : Form.ReadsAs e.text e.form := by
  induction e using induct with
  | number x finite =>
    rw [text, form]
    exact Form.readsAs_number finite
  | application op first rest ih =>
    rw [text_application, form_application]
    exact .list (readsAs_items ih)

/-- The text of an expression is read as its form, to the end. -/
theorem read_text (e : Term) : Form.read e.text = (.value e.form, []) := by
  cases e with
  | number x finite =>
    have hnext := Reading.next?_write finite .nil
    rw [List.append_nil] at hnext
    rw [text, form]
    exact Form.read_of_atom? hnext rfl
  | application op first rest =>
    rw [text_application, form_application]
    exact Form.read_list (readsAs_items fun e _ => readsAs_text e)

end Term

open EvalM

namespace Evaluation
variable {env : Environment} {verbose : Bool} {limit : Nat}

/-- In `env`, which it leaves as it is, `m` gives `a`, or is too deep in case of `deep`. -/
abbrev Yields {α : Type} (env : Environment) (deep : Prop) (a : α) (m : EvalM α) : Prop :=
  Keeps (· = env) (fun fault => deep ∧ fault = .depthExceeded) (fun a' => ¬ deep ∧ a' = a) m

theorem evalArgs_terms {ev : Value → EvalM Value} {operands : List Term}
    (h : ∀ e ∈ operands, Yields env (limit < e.depth) (.number e.value) (ev e.form)) :
    Yields env (∃ e ∈ operands, limit < e.depth) ((operands.map Term.value).map .number)
      (evalArgs ev (operands.map Term.form)) := by
  induction operands with
  | nil => exact .pure ⟨by simp, rfl⟩
  | cons e operands ih =>
    obtain ⟨he, hoperands⟩ := List.forall_mem_cons.1 h
    refine (he.faults ?_).bind ?_
    · rintro fault ⟨hdeep, rfl⟩
      exact ⟨⟨e, List.mem_cons_self, hdeep⟩, rfl⟩
    · rintro v ⟨hlimit, rfl⟩
      refine ((ih hoperands).faults ?_).bind ?_
      · rintro fault ⟨⟨e', he', hdeep⟩, rfl⟩
        exact ⟨⟨e', List.mem_cons_of_mem _ he', hdeep⟩, rfl⟩
      · rintro vs ⟨hlimits, rfl⟩
        exact .pure ⟨by simpa [hlimit] using hlimits, rfl⟩

theorem eval_symbol {name : String} {v : Value} (hname : env.get? (.symbol name) = some v) :
    Yields env (limit = 0) v (eval verbose limit (.symbol name)) := by
  cases limit with
  | zero => exact .throw ⟨rfl, rfl⟩
  | succ limit =>
    refine Keeps.lookup fun env' henv' => ?_
    rw [henv', Environment.lookup, hname]
    exact ⟨Nat.succ_ne_zero limit, rfl⟩

theorem apply_terms {ev : Value → EvalM Value} {op : Operator} {index : Int} {first : Term}
    {rest : List Term} (hindex : Operator.ofIndex index = .ok op)
    (h : ∀ e ∈ first :: rest, Yields env (limit < e.depth) (.number e.value) (ev e.form)) :
    Yields env (∃ e ∈ first :: rest, limit < e.depth) (.number (Term.application op first rest).value)
      (apply verbose ev (.builtin index) ((first :: rest).map Term.form)) := by
  refine (evalArgs_terms h).bind ?_
  rintro args ⟨hlimits, rfl⟩
  have hprint : ∀ v ∈ ((first :: rest).map Term.value).map Value.number,
      ∃ text, v.print? = some text :=
    List.forall_mem_map.2 fun _ _ => ⟨_, rfl⟩
  have hargs := Value.exists_printed?_of_print? (Value.exists_print?_list hprint)
  refine (Keeps.note (builtinNote_keeps hindex hargs)).bind fun _ _ => ?_
  rw [hindex]
  refine .bind (.pure rfl) fun op' (hop : op = op') => ?_
  rw [← hop, List.map_cons, Operator.run_numbers]
  refine .pure ⟨hlimits, ?_⟩
  rw [Term.value]

theorem eval_form (hops : env.HasOperators) (e : Term) :
    Yields env (limit < e.depth) (.number e.value) (eval verbose limit e.form) := by
  induction limit generalizing e with
  | zero => exact .throw ⟨e.depth_pos, rfl⟩
  | succ limit ih =>
    cases e with
    | number x finite =>
      rw [Term.form]
      exact .pure ⟨by simp [Term.depth], by rw [Term.value]⟩
    | application op first rest =>
      obtain ⟨index, hbinding, hindex⟩ := op.exists_binding
      have hdeep : (∃ e ∈ first :: rest, limit < e.depth) ↔
          limit + 1 < (Term.application op first rest).depth := by
        rw [← Nat.not_le, Term.depth_application_le_iff]
        simp only [not_forall, Nat.not_le, exists_prop]
      rw [Term.form, ← List.map_cons, eval_application (ofHead?_operator op)]
      refine ((eval_symbol (hops _ hbinding)).faults ?_).bind ?_
      · rintro fault ⟨rfl, rfl⟩
        -- The head alone takes one evaluation, and so does the first operand.
        exact ⟨hdeep.1 ⟨first, List.mem_cons_self, first.depth_pos⟩, rfl⟩
      · rintro fn ⟨_, rfl⟩
        rw [← hdeep]
        exact apply_terms hindex fun e _ => ih e

end Evaluation

namespace Session
variable {env : Environment}

theorem evalLine_text (hops : env.HasOperators) (mode : Mode)
    (e : Term) :
    Evaluation.Yields env (mode.limit < e.depth) (.number e.value) (evalLine mode e.text) := by
  have hread : Keeps (· = env) (fun fault => mode.limit < e.depth ∧ fault = .depthExceeded)
      (· = e.form) (readLine mode e.text) := by
    rw [readLine, readAt, e.read_text]
    exact (Keeps.note (.pure ⟨⟩)).bind fun _ _ => .pure rfl
  refine hread.bind ?_
  rintro form rfl
  exact Evaluation.eval_form hops e

theorem runLine_text (hops : env.HasOperators) (mode : Mode)
    (e : Term) :
    Evaluation.Yields env (mode.limit < e.depth) (String.ofList (Layout.plain.write e.value))
      (runLine mode e.text) := by
  refine runLine_keeps (evalLine_text hops mode e) ?_ ?_ fun fault hfault _ => hfault
  · rintro v ⟨hlimit, rfl⟩
    exact ⟨_, rfl, hlimit, rfl⟩
  · rintro fault ⟨_, rfl⟩ hreported
    cases hreported

theorem initial_hasOperators : Environment.initial.HasOperators :=
  Environment.register_hasOperators

theorem write_infinity (negative : Bool) (h : infinityRank ≤ infinityRank) :
    Layout.plain.write (.signed negative infinityRank h) =
      (if negative then "-inf" else "inf").toList := by
  rw [Layout.write, Layout.magnitude, if_pos rfl]
  cases negative <;> rfl

/-- Where the operators have their first meaning, the text of an expression is answered with the text
of the number that it denotes, which need not be finite, and the environment stays as it is. -/
theorem answer_text (hops : env.HasOperators) (mode : Mode)
    (e : Term) :
    answer mode (.runLine e.text) env =
        (if e.depth ≤ mode.limit then .text (String.ofList (Layout.plain.write e.value))
          else .fault .depthExceeded, env) ∧
      (e.value = .nan → Layout.plain.write e.value = "NaN".toList) ∧
      ∀ negative h, e.value = .signed negative infinityRank h →
        Layout.plain.write e.value = (if negative then "-inf" else "inf").toList := by
  refine ⟨?_, fun hnan => by rw [hnan]; rfl, fun negative h hinf => by rw [hinf, write_infinity]⟩
  generalize hexpected : (if e.depth ≤ mode.limit then
    Answer.text (String.ofList (Layout.plain.write e.value)) else .fault .depthExceeded) = expected
  have hrun : Keeps (· = env) (fun fault => .fault fault = expected) (· = expected)
      (Request.run mode (.runLine e.text)) := by
    refine ((runLine_text hops mode e).faults ?_).bind ?_
    · rintro fault ⟨hdeep, rfl⟩
      rw [← hexpected, if_neg (Nat.not_le.2 hdeep)]
    · rintro text ⟨hlimit, rfl⟩
      refine .pure ?_
      rw [← hexpected, if_pos (Nat.not_lt.1 hlimit)]
  obtain ⟨hanswer, henv⟩ := answer_keeps (I := (· = env)) (P := (· = expected)) hrun rfl
  exact Prod.ext hanswer henv

/-- In a new session, `(- (/ 1 -0) 1)`. -/
theorem answer_text_initial :
    let one := Term.number (.signed false 4607182418800017408 (by decide)) (by decide)
    let zero := Term.number (.signed true 0 (by decide)) (by decide)
    let e := Term.application .subtract (.application .divide one [zero]) [one]
    (Environment.initial.HasOperators) ∧
      answer ⟨true, 3⟩ (.runLine e.text) .initial =
        (.text (String.ofList (Layout.plain.write e.value)), .initial) := by
  intro one zero e
  have hdepth : e.depth ≤ 3 := by simp [e, one, zero, Term.depth]
  have hanswer := (answer_text initial_hasOperators ⟨true, 3⟩ e).1
  rw [if_pos hdepth] at hanswer
  exact ⟨initial_hasOperators, hanswer⟩

end Session
end SnapLisp
