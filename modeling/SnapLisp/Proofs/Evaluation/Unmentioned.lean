import SnapLisp.Proofs.Evaluation.Agree
import SnapLisp.Proofs.Evaluation.Frame

/-!
# Names that are not mentioned

`Value.mentioned` lists the symbols that occur in a value, in the bodies and parameters of lambdas too,
without those that only head a special form. If neither a form nor any value bound in the environment
mentions a name, then no evaluation looks it up, whatever bodies it runs through, and it makes no
difference whether the name is bound (`eval_unmentioned`). The two environments, and the copies of them
in which bodies run, are the same apart from the name (`sameApartFrom_indistinct`); that a binding of the
name itself stays what it is comes from the frame of the form, whose targets are mentioned.
-/

namespace SnapLisp
namespace Value

/-- A parameter list is a list, so its first name may be that of a special form as well. -/
def mentionedParams : List String → List String
  | [] => []
  | name :: names => if (SpecialForm.ofHead? (symbol name)).isSome then names else name :: names

mutual

/-- The symbols in a value other than those at the head of a special form. -/
def mentioned : Value → List String
  | symbol name => [name]
  | list (head :: forms) =>
    if (SpecialForm.ofHead? head).isSome then mentionedItems forms
    else mentioned head ++ mentionedItems forms
  | lambda params body => mentionedParams params ++ mentioned body
  | _ => []

def mentionedItems : List Value → List String
  | [] => []
  | v :: vs => mentioned v ++ mentionedItems vs

end

-- In `(DEFUN F (X) (SETQ A X))` the special forms are not mentioned.
example : mentioned (list [symbol "DEFUN", symbol "F", list [symbol "X"],
    list [symbol "SETQ", symbol "A", symbol "X"]]) = ["F", "X", "A", "X"] := rfl

variable {name : String}

theorem mem_mentionedItems_iff {forms : List Value} :
    name ∈ mentionedItems forms ↔ ∃ v ∈ forms, name ∈ v.mentioned := by
  induction forms with
  | nil => simp [mentionedItems]
  | cons v forms ih => simp [mentionedItems, ih]

theorem mentionedItems_symbols (names : List String) :
    mentionedItems (names.map .symbol) = names := by
  induction names with
  | nil => rfl
  | cons name names ih => rw [List.map_cons, mentionedItems, ih, mentioned, List.singleton_append]

theorem mentioned_symbols (names : List String) :
    (list (names.map .symbol)).mentioned = mentionedParams names := by
  cases names with
  | nil => simp [mentioned, mentionedParams]
  | cons name names => simp [mentioned, mentionedParams, mentionedItems_symbols]

/-- What is evaluated of a form, or comes from it, mentions no more than the form. -/
theorem mentioned_isClosed (name : String) :
    IsClosed (fun v => name ∉ v.mentioned) fun v => name ∉ v.mentioned where
  head := by
    intro head forms hlist hspecial hname
    refine hlist ?_
    simp [mentioned, hspecial, hname]
  item := by
    intro head forms hlist v hv hname
    refine hlist ?_
    have hitems : name ∈ mentionedItems forms := mem_mentionedItems_iff.2 ⟨v, hv, hname⟩
    rw [mentioned]
    split
    · exact hitems
    · exact List.mem_append_right _ hitems
  constant := fun h _ => h
  body := by
    intro params body hlambda hname
    exact hlambda (List.mem_append_right _ hname)
  lambda := by
    intro params body hparams hbody hname
    rw [mentioned_symbols] at hparams
    exact (List.mem_append.1 hname).elim hparams hbody
  number := by simp [mentioned]
  text := by simp [mentioned]

theorem mem_mentionedItems_of_setqTargets {forms : List Value} (h : name ∈ setqTargets forms)
    (ih : ∀ v ∈ forms, name ∈ v.targets → name ∈ v.mentioned) : name ∈ mentionedItems forms := by
  unfold setqTargets at h
  split at h
  · rename_i n form rest
    rcases List.mem_cons.1 h with rfl | hform
    · simp [mentionedItems, mentioned]
    · exact mem_mentionedItems_iff.2 ⟨form, by simp, ih form (by simp) hform⟩
  · obtain rfl := List.mem_singleton.1 h
    simp [mentionedItems, mentioned]
  · cases h

theorem mem_mentionedItems_of_defunTargets {forms : List Value} (h : name ∈ defunTargets forms) :
    name ∈ mentionedItems forms := by
  unfold defunTargets at h
  split at h
  · obtain rfl := List.mem_singleton.1 h
    simp [mentionedItems, mentioned]
  · cases h

/-- What a form binds it mentions. -/
theorem mem_mentioned_of_targets {v : Value} (h : name ∈ v.targets) : name ∈ v.mentioned := by
  match v with
  | list (head :: forms) =>
    have ih : ∀ w ∈ head :: forms, name ∈ w.targets → name ∈ w.mentioned :=
      fun w _ hw => mem_mentioned_of_targets hw
    obtain ⟨hhead, hforms⟩ := List.forall_mem_cons.1 ih
    rw [targets] at h
    rw [mentioned]
    cases hspecial : SpecialForm.ofHead? head with
    | some special =>
      rw [hspecial] at h
      cases special with
      | setq => simpa using mem_mentionedItems_of_setqTargets h hforms
      | defun => simpa using mem_mentionedItems_of_defunTargets h
    | none =>
      rw [hspecial] at h
      rcases List.mem_append.1 h with h | h
      · simp [hhead h]
      · obtain ⟨w, hw, hname⟩ := mem_itemTargets_iff.1 h
        have hitems := mem_mentionedItems_iff.2 ⟨w, hw, hforms w hw hname⟩
        simp [hitems]
termination_by v
decreasing_by exact sizeOf_item_lt ‹w ∈ _›

end Value

namespace Environment
variable {env env' : Environment} {name : String} {v : Value}

/-- No value is bound that mentions the name, unless the name itself is bound to it. -/
def Ignores (env : Environment) (name : String) : Prop :=
  ∀ e ∈ otherEntries name env.entries, name ∉ e.2.mentioned

theorem Ignores.insert (h : env.Ignores name) (n : String) (hv : name ∉ v.mentioned) :
    (env.insert (.symbol n) v).Ignores name := by
  intro e he
  by_cases hn : n = name
  · subst hn
    change e ∈ otherEntries n (insertEntry ..) at he
    rw [otherEntries_insertEntry_self] at he
    exact h e he
  · change e ∈ otherEntries name (insertEntry ..) at he
    rw [otherEntries_insertEntry_of_ne hn] at he
    rcases mem_of_mem_insertEntry he with rfl | he
    · exact hv
    · exact h e he

/-- Forms and values that do not mention the name do not see what it is bound to. -/
theorem sameApartFrom_indistinct (name : String) :
    Indistinct (fun v => name ∉ v.mentioned) (fun v => name ∉ v.mentioned)
      fun env env' => env.Ignores name ∧ SameApartFrom name env env' where
  get?_eq := by
    intro env env' n h hn
    have hne : n ≠ name := by
      rintro rfl
      exact hn (List.mem_singleton_self _)
    exact h.2.get?_eq hne
  value := by
    intro env env' n v h hn hv
    refine h.1 (.symbol n, v) (mem_otherEntries.2 ⟨get?_symbol_iff.1 hv, ?_⟩)
    rintro heq
    cases heq
    exact hn (List.mem_singleton_self _)
  exists_printed?_iff := fun h => h.2.exists_printed?_iff
  insert := fun h n _ hv => ⟨h.1.insert n hv, h.2.insert n _⟩

/-- `env'` is `env` with one more binding, at some place of the order. -/
structure ExtendedBy (name : String) (v : Value) (env env' : Environment) : Prop where
  unbound : env.get? (.symbol name) = none
  bound : env'.get? (.symbol name) = some v
  others : otherEntries name env'.entries = env.entries

namespace ExtendedBy

theorem insert (h : env.get? (.symbol name) = none) (v : Value) :
    ExtendedBy name v env (env.insert (.symbol name) v) := by
  refine ⟨h, get?_insert_self, ?_⟩
  show otherEntries name (insertEntry ..) = env.entries
  rw [otherEntries_insertEntry_self, otherEntries_eq_self (get?_eq_none_iff.1 h)]

theorem sameApartFrom (h : ExtendedBy name v env env') (hv : ∃ text, v.print? = some text) :
    SameApartFrom name env env' := by
  refine ⟨?_, ?_⟩
  · rw [h.others, otherEntries_eq_self (get?_eq_none_iff.1 h.unbound)]
  · have hshown : env.Shows name := by
      intro w hw
      rw [h.unbound] at hw
      cases hw
    have hshown' : env'.Shows name := by
      intro w hw
      rw [h.bound] at hw
      cases hw
      exact hv
    exact iff_of_true hshown hshown'

theorem of_sameApartFrom (h : SameApartFrom name env env') (hunbound : env.get? (.symbol name) = none)
    (hbound : env'.get? (.symbol name) = some v) : ExtendedBy name v env env' :=
  ⟨hunbound, hbound, by rw [← h.others, otherEntries_eq_self (get?_eq_none_iff.1 hunbound)]⟩

end ExtendedBy
end Environment

namespace Evaluation
open EvalM Environment
variable {name : String}

theorem get?_stateAfter_eval {form : Value} (hform : name ∉ form.mentioned) (verbose : Bool)
    (limit : Nat) (s : State) :
    (stateAfter (eval verbose limit form) s).env.get? (.symbol name) = s.env.get? (.symbol name) := by
  have hextends := (eval_confined verbose limit form s.env).stateAfter (.refl _ s.env)
  refine hextends.get?_eq _ fun n hn heq => ?_
  cases heq
  exact hform (Value.mem_mentioned_of_targets hn)

/-- A name that neither the form nor a bound value mentions can be bound to any value that has a text:
the form ends with the same value or fault, but for the name in the dump of a fault, and the name stays
the only difference between the environments. -/
theorem eval_unmentioned (verbose : Bool) (limit : Nat) {form v : Value} {s : State}
    (hunbound : s.env.get? (.symbol name) = none) (hv : ∃ text, v.print? = some text)
    (hform : name ∉ form.mentioned) (henv : ∀ e ∈ s.env.entries, name ∉ e.2.mentioned) :
    Alike (ExtendedBy name v) (Fault.SameButDump (SameApartFrom name)) (fun _ => True)
      (eval verbose limit form s)
      (eval verbose limit form { s with env := s.env.insert (.symbol name) v }) := by
  have hextended := ExtendedBy.insert hunbound v
  have hignores : s.env.Ignores name := fun e he => henv e (mem_otherEntries.1 he).1
  have halike := eval_agrees (Value.mentioned_isClosed name) (sameApartFrom_indistinct name) verbose
    limit hform s { s with env := s.env.insert (.symbol name) v }
    ⟨hignores, hextended.sameApartFrom hv⟩
  have hleft := get?_stateAfter_eval hform verbose limit s
  have hright := get?_stateAfter_eval hform verbose limit
    { s with env := s.env.insert (.symbol name) v }
  rw [hunbound] at hleft
  rw [hextended.bound] at hright
  refine .mono (halike.relate ?_) (fun _ _ => .mono fun _ _ h => h.2) fun _ _ => ⟨⟩
  exact .of_sameApartFrom halike.stateAfter.2 hleft hright

/-- F runs a SETQ form and then looks up a name that is unbound; SETQ itself is bound as well, to a
lambda that mentions it. -/
theorem eval_unmentioned_setq :
    let body := Value.list [.symbol "SETQ", .symbol "X", .symbol "Y"]
    let s : State := ⟨Environment.empty.insert (.symbol "F") (.lambda ["X"] body), []⟩
    let form := Value.list [.symbol "F", .nil]
    let v := Value.lambda [] (.symbol "SETQ")
    Alike (ExtendedBy "SETQ" v) (Fault.SameButDump (SameApartFrom "SETQ")) (fun _ => True)
      (eval false 4 form s) (eval false 4 form { s with env := s.env.insert (.symbol "SETQ") v }) := by
  intro body s form v
  have hv : ∃ text, v.print? = some text := ⟨_, rfl⟩
  refine eval_unmentioned false 4 rfl hv (by decide) fun e he => ?_
  obtain rfl := List.mem_singleton.1 he
  decide

end Evaluation
end SnapLisp
