import SnapLisp.Proofs.Evaluation.Keeps
import SnapLisp.Proofs.Evaluation.Result

/-!
# Sound evaluations

In a sound environment the evaluation of a tree gives a result or a fault that can arise, and the
environment stays sound (`eval_sound`). The bodies of lambdas are trees, so they are evaluated like
the forms of a source; `step_sound` is the inductive step, for any sound evaluation of trees. The
names of symbols also come back as texts, so their characters must have the property that the
characters of texts have.
-/

namespace SnapLisp
namespace EvalM

/-- In sound environments `m` has values in `Q`, ends with no fault but those that can arise, and keeps
the environment sound. -/
abbrev Sound {α : Type} (p : Char → Prop) (Q : α → Prop) (m : EvalM α) : Prop :=
  Keeps (Environment.IsSound p) (Fault.Arises p) Q m

variable {p : Char → Prop}

theorem printed_sound {v : Value} (h : ∃ text, v.printed? = some text) :
    Sound p (fun text => v.printed? = some text) (printed v) := by
  obtain ⟨text, htext⟩ := h
  exact (Keeps.printed_some htext).imp fun _ htext' => htext' ▸ htext

theorem lookup_sound {name : String} (hname : IsName name) :
    Sound p (·.IsResult p) (lookup name) := by
  refine .lookup fun env henv => ?_
  unfold Environment.lookup
  cases hget : env.get? (.symbol name) with
  | some v => exact henv.get? hget
  | none =>
    obtain ⟨dump, hdump⟩ := henv.exists_printed?
    rw [hdump]
    show Fault.Arises p (.unbound (String.ofList name.toList) dump)
    rw [String.ofList_toList]
    exact .unbound hname henv hdump

theorem bindSymbol_sound {name : String} {v : Value} (hname : IsName name) (hv : v.IsResult p) :
    Sound p (fun _ => True) (bindSymbol name v) :=
  .bindSymbol fun _ henv => henv.insert hname hv

end EvalM

namespace Evaluation
open EvalM
variable {p : Char → Prop} {verbose : Bool} {ev : Value → EvalM Value}

theorem setq_sound (hev : ∀ form, form.IsTree p → Sound p (·.IsResult p) (ev form))
    {forms : List Value} (hforms : ∀ v ∈ forms, v.IsTree p) :
    Sound p (·.IsResult p) (setq ev forms) := by
  unfold setq
  split
  · exact .throw .setqWithoutTarget
  · rename_i name form _
    obtain ⟨hsymbol, hform, _⟩ := by simpa using hforms
    cases hsymbol with
    | symbol isName =>
      exact (hev form hform).bind fun v hv => (bindSymbol_sound isName hv).bind fun _ _ => .pure hv
  · exact .throw .setqWithoutValue
  · exact .throw .setqTarget

theorem paramNames_sound {params : List Value} (h : ∀ v ∈ params, v.IsTree p) :
    Sound p (fun names => ∀ name ∈ names, IsName name) (paramNames params) := by
  refine Keeps.imp (paramNames_keeps fun v hv => ?_) fun names hnames name hname => ?_
  · exact (printed_sound (h v hv).exists_printed?).imp fun _ htext => .defunParam (h v hv) htext
  · cases h _ (hnames name hname) with
    | symbol isName => exact isName

theorem defun_sound (hp : SpellsNames p) {forms : List Value}
    (hforms : ∀ v ∈ forms, v.IsTree p) : Sound p (·.IsResult p) (defun forms) := by
  unfold defun
  split
  · rename_i name params body
    obtain ⟨hsymbol, hparams, hbody⟩ := by simpa using hforms
    cases hsymbol with
    | symbol isName =>
      cases hparams with
      | list each =>
        refine (paramNames_sound each).bind fun names hnames => ?_
        refine (bindSymbol_sound isName (.lambda hnames hbody)).bind fun _ _ => ?_
        exact .pure (.text (hp name isName))
  · rename_i params _ _
    have hparams := hforms params (by simp)
    exact (printed_sound hparams.exists_printed?).bind fun _ htext =>
      .throw (.defunParams hparams htext)
  · rename_i name _ _ _ _
    have hname := hforms name (by simp)
    exact (printed_sound hname.exists_printed?).bind fun _ htext => .throw (.defunName hname htext)
  · exact .throw .defunLength

theorem evalArgs_sound (hev : ∀ form, form.IsTree p → Sound p (·.IsResult p) (ev form))
    {forms : List Value} (hforms : ∀ v ∈ forms, v.IsTree p) :
    Sound p (fun args => ∀ v ∈ args, v.IsResult p) (evalArgs ev forms) :=
  evalArgs_keeps fun form hform => hev form (hforms form hform)

theorem exists_printed?_args {args : List Value} (h : ∀ v ∈ args, v.IsResult p) :
    ∃ text, (Value.list args).printed? = some text :=
  Value.exists_printed?_of_print? (Value.exists_print?_list fun v hv => (h v hv).exists_print?)

theorem apply_sound (hev : ∀ form, form.IsTree p → Sound p (·.IsResult p) (ev form)) {head : Value}
    (hhead : head.IsResult p) {forms : List Value} (hforms : ∀ v ∈ forms, v.IsTree p) :
    Sound p (·.IsResult p) (apply verbose ev head forms) := by
  have hresult := hhead
  cases hhead with
  | builtin nonneg lt =>
    obtain ⟨op, hop⟩ := Operator.exists_ofIndex nonneg lt
    refine (evalArgs_sound hev hforms).bind fun args hargs => ?_
    refine (Keeps.note (builtinNote_keeps hop (exists_printed?_args hargs))).bind fun _ _ => ?_
    rw [hop]
    refine .bind (.pure rfl) fun op' (_ : op = op') => ?_
    have hrun := Operator.run_sound op' hargs
    refine .ofExcept (fun v hv => ?_) fun fault hfault => ?_
    · rw [hv] at hrun
      exact hrun
    · rw [hfault] at hrun
      exact hrun
  | lambda areNames tree =>
    simp only [apply]
    split
    · refine (evalArgs_sound hev hforms).bind fun args hargs => ?_
      -- The copy is sound with the parameters bound, so the body is evaluated like any tree.
      refine (Keeps.note (lambdaNote_keeps (exists_printed?_args hargs))).bind fun _ _ => ?_
      exact .inCopy (hev _ tree) fun env henv => henv.bindParams areNames hargs
    · exact .throw .argumentCount
  | number | text | nil | truth =>
    exact (printed_sound hresult.exists_printed?).bind fun _ htext =>
      .throw (.notApplicable hresult htext)

theorem step_sound (hp : SpellsNames p)
    (hev : ∀ form, form.IsTree p → Sound p (·.IsResult p) (ev form)) {form : Value}
    (hform : form.IsTree p) : Sound p (·.IsResult p) (step verbose ev form) := by
  cases hform with
  | symbol isName => exact lookup_sound isName
  | list each =>
    rename_i items
    cases items with
    | nil => exact .throw .emptyForm
    | cons head forms =>
      obtain ⟨hhead, hforms⟩ := List.forall_mem_cons.1 each
      simp only [step]
      cases SpecialForm.ofHead? head with
      | some special =>
        refine (Keeps.note (.pure ⟨⟩)).bind fun _ _ => ?_
        cases special with
        | setq => exact setq_sound hev hforms
        | defun => exact defun_sound hp hforms
      | none => exact (hev head hhead).bind fun fn hfn => apply_sound hev hfn hforms
  | number x => exact .pure (.number x)
  | text chars => exact .pure (.text chars)
  | nil => exact .pure .nil
  | truth => exact .pure .truth

theorem eval_sound (hp : SpellsNames p) (verbose : Bool) (limit : Nat)
    {form : Value} (hform : form.IsTree p) :
    Sound p (·.IsResult p) (eval verbose limit form) := by
  induction limit generalizing form with
  | zero => exact .throw .depthExceeded
  | succ limit ih => exact step_sound hp (fun _ h => ih h) hform

end Evaluation
end SnapLisp
