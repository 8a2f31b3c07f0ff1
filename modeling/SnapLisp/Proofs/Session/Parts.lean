import Mathlib.Data.List.DropRight
import SnapLisp.Proofs.Session.Ahead
import SnapLisp.Proofs.Session.Journal
import SnapLisp.Proofs.Session.Transcript
import SnapLisp.Proofs.Source.Span

/-!
# Conversations in parts

A conversation over some lines and then others is the one followed by the other, from the environment
that the first one leaves, unless a fault ends the first (`outcome_replies_append`). The lines that are
skipped are those of trimmed characters only (`isSkipped_eq_all`); they can stand anywhere, and a session
would have answered them without changing anything (`runLine_of_trimmed`). The main statement is
`ofLines_append`.
-/

namespace SnapLisp

/-! ### Trimmed lines -/

theorem trim_eq_nil_iff {cs : List Char} : trim cs = [] ↔ ∀ c ∈ cs, isTrimmed c = true := by
  have htrim : trim cs = (cs.dropWhile isTrimmed).rdropWhile isTrimmed := rfl
  rw [htrim, List.rdropWhile_eq_nil_iff]
  refine ⟨fun h c hc => ?_, fun h c hc => h c ((List.dropWhile_suffix _).subset hc)⟩
  rw [← List.takeWhile_append_dropWhile (p := isTrimmed) (l := cs)] at hc
  rcases List.mem_append.1 hc with hc | hc
  · exact List.all_eq_true.1 List.all_takeWhile c hc
  · exact h c hc

theorem isTrimmed_of_isLineEnd {c : Char} (h : isLineEnd c = true) : isTrimmed c = true := by
  have hc : c = '\n' ∨ c = '\r' := by simpa [isLineEnd] using h
  rcases hc with rfl | rfl <;> rfl

namespace Transcript

theorem mem_of_mem_content {raw : List Char} {c : Char} (h : c ∈ content raw) : c ∈ raw := by
  have hprefix : content raw <+: raw := List.rdropWhile_prefix isLineEnd raw
  exact hprefix.subset h

/-- What is taken off a line is trimmed anyway. -/
theorem forall_mem_content_iff {raw : List Char} :
    (∀ c ∈ content raw, isTrimmed c = true) ↔ ∀ c ∈ raw, isTrimmed c = true := by
  refine ⟨fun h c hc => ?_, fun h c hc => h c (mem_of_mem_content hc)⟩
  have hraw : content raw ++ raw.rtakeWhile isLineEnd = raw := List.rdropWhile_append_rtakeWhile
  rw [← hraw] at hc
  rcases List.mem_append.1 hc with hc | hc
  · exact h c hc
  · exact isTrimmed_of_isLineEnd (List.mem_rtakeWhile_imp hc)

theorem isSkipped_eq_all (raw : List Char) : isSkipped raw = raw.all isTrimmed := by
  rw [Bool.eq_iff_iff, isSkipped, decide_eq_true_iff, trim_eq_nil_iff, forall_mem_content_iff,
    List.all_eq_true]

end Transcript

namespace Session
open EvalM
variable {mode : Mode} {line : List Char}

theorem isStray_of_isInfoSeparator {c : Char} (h : isInfoSeparator c = true) : IsStray c := by
  have hrange : 28 ≤ c.toNat ∧ c.toNat ≤ 31 := by simpa [isInfoSeparator] using h
  have hother : ∀ d : Char, 32 ≤ d.toNat → c ≠ d := by
    rintro d hd rfl
    omega
  refine ⟨?_, ?_, ?_, ?_⟩
  · simp [isBlank]
    omega
  · simp only [List.mem_cons, List.not_mem_nil, or_false, not_or]
    exact ⟨hother _ (by decide), hother _ (by decide), hother _ (by decide), hother _ (by decide),
      hother _ (by decide), hother _ (by decide), hother _ (by decide)⟩
  · rw [Bool.eq_false_iff, ne_eq, isDigit_iff]
    omega
  · rw [Bool.eq_false_iff, ne_eq, isLetter_iff]
    omega

/-- Behind its blanks a trimmed line ends or goes on with an information separator. -/
theorem read_of_trimmed (h : ∀ c ∈ line, isTrimmed c = true) :
    Form.read line = (.stop, []) ∨ ∃ c ∈ line, isInfoSeparator c = true ∧
      ∃ left, Form.read line = (.fault (.illegalCharacter c), left) := by
  have hline := List.takeWhile_append_dropWhile (p := isBlank) (l := line)
  have hblank : ∀ c ∈ line.takeWhile isBlank, isBlank c = true := List.all_eq_true.1 List.all_takeWhile
  have hhead := any_head?_dropWhile isBlank line
  cases hdrop : line.dropWhile isBlank with
  | nil =>
    rw [hdrop, List.append_nil] at hline
    rw [hline] at hblank
    exact .inl (Form.read_eq_stop_iff.2 (.inl ⟨Reading.next?_eq_none_iff.2 hblank, rfl⟩))
  | cons c left =>
    rw [hdrop] at hline hhead
    have hmem : c ∈ line := by
      rw [← hline]
      exact List.mem_append_right _ List.mem_cons_self
    have hseparator : isInfoSeparator c = true := by
      have htrimmed : isBlank c = true ∨ isInfoSeparator c = true := by
        simpa [isTrimmed] using h c hmem
      exact htrimmed.resolve_left (Bool.eq_false_iff.1 (by simpa using hhead))
    have hnext : Reading.next? line = some (.token (.illegal c), left) := by
      rw [← hline, Reading.next?_blanks_append hblank]
      exact Reading.next?_of_isStray (isStray_of_isInfoSeparator hseparator) left
    refine .inr ⟨c, hmem, hseparator, left, ?_⟩
    exact Form.read_of_fault? (.nil line) (Token.isUnfinished_nil 0) hnext rfl

/-- The answers to lines that a conversation skips. -/
def IsIdle (line : List Char) (answer : String) : Prop :=
  answer = "NIL" ∨ ∃ c ∈ line, isInfoSeparator c = true ∧ answer = "invalid token: " ++ c.toString

theorem runLine_of_trimmed (h : ∀ c ∈ line, isTrimmed c = true) (hlimit : 0 < mode.limit)
    (env : Environment) : Keeps (· = env) (fun _ => False) (IsIdle line) (runLine mode line) := by
  have hnil : Keeps (· = env) (fun _ => False) (· = .nil)
      (Evaluation.eval mode.verbose mode.limit .nil) := by
    obtain ⟨limit, hsucc⟩ := Nat.exists_eq_add_of_le' hlimit
    rw [hsucc]
    exact .pure rfl
  have htext : ∀ v : Value, v = .nil → ∃ text, v.printed? = some text ∧ IsIdle line text := by
    rintro v rfl
    exact ⟨"NIL", rfl, .inl rfl⟩
  rcases read_of_trimmed h with hstop | ⟨c, hmem, hseparator, left, hfault⟩
  · have heval : Keeps (· = env) (fun _ => False) (· = .nil) (evalLine mode line) := by
      rw [evalLine, readLine_of_stop hstop, pure_bind]
      exact hnil
    exact runLine_keeps heval htext (fun _ => False.elim) fun _ => False.elim
  · have heval : Keeps (· = env) (· = .unreadable (.illegalCharacter c)) (· = .nil)
        (evalLine mode line) := by
      rw [evalLine, readLine_of_fault hfault, refuse_bind]
      exact refuse_keeps rfl
    refine runLine_keeps heval htext ?_ ?_
    · rintro fault rfl -
      exact .inr ⟨c, hmem, hseparator, rfl⟩
    · rintro fault rfl hreported
      cases hreported

theorem runLine_self (mode : Mode) (line : List Char) :
    Same (runLine mode line) (runLine mode line) :=
  runLine_same rfl

/-- A run that cannot fail ends with a value. -/
theorem exists_outcome_of_keeps {α : Type} {m : EvalM α} {Q : α → Prop} {s : State}
    (h : Keeps (· = s.env) (fun _ => False) Q m) : ∃ a, outcome (m s) = (.ok a, s.env) ∧ Q a := by
  have hrun := h s rfl
  cases hm : m s with
  | ok a s' =>
    rw [hm] at hrun
    exact ⟨a, congrArg _ hrun.2, hrun.1⟩
  | error fault s' =>
    rw [hm] at hrun
    exact hrun.1.elim

end Session

/-! ### Lines in parts -/

namespace Transcript
variable {mode : Mode} {prompt : List Char} {raws raws' : List (List Char)} {t t' : Transcript}
  {s s' : State}

/-- What is left of a stretch of conversation besides the journal. -/
def outcome (t : Transcript) : List Char × Environment × Option Fault :=
  (t.out, t.state.env, t.fault)

section
variable {next next' : State → Transcript}

theorem andThen_of_fault {fault : Fault} (h : t.fault = some fault) : t.andThen next = t := by
  rw [andThen, h]

theorem andThen_of_end (h : t.fault = none) :
    t.andThen next = ⟨t.out ++ (next t.state).out, (next t.state).state, (next t.state).fault⟩ := by
  rw [andThen, h]

theorem andThen_assoc (t : Transcript) (next next' : State → Transcript) :
    (t.andThen next).andThen next' = t.andThen fun s => (next s).andThen next' := by
  cases hfault : t.fault with
  | some fault => rw [andThen_of_fault hfault, andThen_of_fault hfault, andThen_of_fault hfault]
  | none =>
    rw [andThen_of_end hfault, andThen_of_end hfault]
    generalize next t.state = second
    obtain ⟨out, s, fault⟩ := second
    cases fault with
    | some fault => rfl
    | none => exact congrArg (Transcript.mk · _ _) (List.append_assoc ..)

theorem outcome_andThen (h : outcome t = outcome t')
    (hnext : ∀ s s', s.env = s'.env → outcome (next s) = outcome (next' s')) :
    outcome (t.andThen next) = outcome (t'.andThen next') := by
  obtain ⟨out, s, fault⟩ := t
  obtain ⟨out', s', fault'⟩ := t'
  simp only [outcome, Prod.mk.injEq] at h
  obtain ⟨rfl, henv, rfl⟩ := h
  cases fault with
  | some fault => simp [andThen, outcome, henv]
  | none =>
    have hrest := hnext s s' henv
    simp only [outcome, Prod.mk.injEq] at hrest
    simp [andThen, outcome, hrest]

end

theorem outcome_reply (mode : Mode) (prompt raw : List Char) (hs : s.env = s'.env) :
    outcome (reply mode prompt raw s) = outcome (reply mode prompt raw s') := by
  unfold reply
  split
  · simp [outcome, hs]
  · have hrun := Session.runLine_self mode (content raw) s s' hs
    generalize Session.runLine mode (content raw) s = r at hrun ⊢
    generalize Session.runLine mode (content raw) s' = r' at hrun ⊢
    cases hrun with
    | ok _ envs => simp [outcome, envs]
    | error faults envs => simp [outcome, faults, envs]

/-- The journal makes no difference. -/
theorem outcome_replies (mode : Mode) (prompt : List Char) (raws : List (List Char))
    (hs : s.env = s'.env) :
    outcome (replies mode prompt raws s) = outcome (replies mode prompt raws s') := by
  induction raws generalizing s s' with
  | nil => simp [replies, outcome, close_env, hs]
  | cons raw raws ih => exact outcome_andThen (outcome_reply mode prompt raw hs) fun _ _ => ih

theorem outcome_replies_append (mode : Mode) (prompt : List Char) (raws raws' : List (List Char))
    (s : State) : outcome (replies mode prompt (raws ++ raws') s) =
      outcome ((replies mode prompt raws s).andThen (replies mode prompt raws')) := by
  induction raws generalizing s with
  | nil =>
    -- The end of the first part is noted, which no answer depends on.
    have hclose : s.env = (close mode s).env := (close_env mode s).symm
    exact outcome_replies mode prompt raws' hclose
  | cons raw raws ih =>
    rw [List.cons_append, replies, replies, andThen_assoc]
    refine outcome_andThen rfl fun s s' hs => ?_
    rw [ih]
    exact outcome_andThen (outcome_replies mode prompt raws hs) fun _ _ =>
      outcome_replies mode prompt raws'

theorem reply_of_isSkipped {raw : List Char} (h : isSkipped raw = true) :
    reply mode prompt raw s = ⟨[], s, none⟩ := by
  rw [reply, if_pos h]

/-- A conversation is about the lines that are not skipped. -/
theorem replies_filter (mode : Mode) (prompt : List Char) (raws : List (List Char)) (s : State) :
    replies mode prompt (raws.filter fun raw => !isSkipped raw) s = replies mode prompt raws s := by
  induction raws generalizing s with
  | nil => rfl
  | cons raw raws ih =>
    by_cases hskip : isSkipped raw = true
    · rw [List.filter_cons_of_neg (by simp [hskip]), replies, reply_of_isSkipped hskip]
      exact ih s
    · rw [List.filter_cons_of_pos (by simpa using hskip), replies, replies]
      exact congrArg _ (funext ih)

/-- The line that a conversation ends with, and the part in front of it. -/
theorem exists_failing {fault : Fault} (h : (replies mode prompt raws s).fault = some fault) :
    ∃ before raw after, raws = before ++ raw :: after ∧
      (replies mode prompt before s).fault = none ∧
      (replies mode prompt before s).out = (replies mode prompt raws s).out ∧
      Session.outcome (Session.runLine mode (content raw) (replies mode prompt before s).state) =
        (.error fault, (replies mode prompt raws s).state.env) := by
  induction raws generalizing s with
  | nil => cases h
  | cons raw raws ih =>
    rw [replies, reply] at h ⊢
    by_cases hskip : isSkipped raw = true
    · rw [if_pos hskip] at h ⊢
      obtain ⟨before, failing, after, rfl, hend, hout, hrun⟩ := ih h
      refine ⟨raw :: before, failing, after, rfl, ?_⟩
      rw [replies, reply_of_isSkipped hskip]
      exact ⟨hend, hout, hrun⟩
    · rw [if_neg hskip] at h ⊢
      cases hline : Session.runLine mode (content raw) s with
      | error fault' s' =>
        rw [hline] at h
        cases h
        have hsame := (Session.runLine_self mode (content raw)).outcome_eq (close_env mode s)
        rw [hline] at hsame
        exact ⟨[], raw, raws, rfl, rfl, rfl, hsame⟩
      | ok answer s' =>
        rw [hline] at h
        obtain ⟨before, failing, after, rfl, hend, hout, hrun⟩ := ih h
        refine ⟨raw :: before, failing, after, rfl, ?_⟩
        rw [replies, reply, if_neg hskip, hline]
        exact ⟨hend, congrArg (answer.toList ++ '\n' :: prompt ++ ·) hout, hrun⟩

theorem prompt_isSuffix (answers : List String) : prompt <:+ prompt ++ answersText prompt answers := by
  induction answers with
  | nil => simp [answersText]
  | cons answer answers ih =>
    refine ih.trans ⟨prompt ++ answer.toList ++ ['\n'], ?_⟩
    simp [answersText]

/-- If the first lines are answered, then the conversation goes on with the other lines as a conversation
about them does behind its prompt. If they are not, it ends in the same way without the other lines: at a
line that raises the fault, behind the prompt for this line. Skipped lines make no difference; they are
the lines of trimmed characters only, and a session answers these with `nil` or with the message for an
information separator, and keeps its environment. -/
theorem ofLines_append (mode : Mode) (prompt : List Char) (raws raws' : List (List Char)) (s : State) :
    let first := ofLines mode prompt raws s
    let second := ofLines mode prompt raws' first.state
    let both := ofLines mode prompt (raws ++ raws') s
    (first.fault = none → ∃ rest, second.out = prompt ++ rest ∧
      outcome both = (first.out ++ rest, second.state.env, second.fault)) ∧
    (∀ fault, first.fault = some fault → outcome both = outcome first ∧
      ∃ before raw after, raws = before ++ raw :: after ∧
        (ofLines mode prompt before s).fault = none ∧
        (ofLines mode prompt before s).out = first.out ∧ prompt <:+ first.out ∧
        Session.outcome (Session.runLine mode (content raw) (ofLines mode prompt before s).state) =
          (.error fault, first.state.env)) ∧
    ((raws.filter fun raw => !raw.all isTrimmed) = (raws'.filter fun raw => !raw.all isTrimmed) →
      first = ofLines mode prompt raws' s) ∧
    ∀ raw, raw.all isTrimmed = true → 0 < mode.limit → ∀ line ∈ [raw, content raw], ∃ answer,
      Session.outcome (Session.runLine mode line s) = (.ok answer, s.env) ∧
        Session.IsIdle line answer := by
  intro first second both
  have hparts := outcome_replies_append mode prompt raws raws' s
  have hboth : outcome both = (prompt ++ (outcome (replies mode prompt (raws ++ raws') s)).1,
      (outcome (replies mode prompt (raws ++ raws') s)).2) := rfl
  refine ⟨fun hend => ?_, fun fault hfault => ?_, fun hlines => ?_, fun raw hraw hlimit line hline => ?_⟩
  · have hfirst : (replies mode prompt raws s).fault = none := hend
    refine ⟨(replies mode prompt raws' first.state).out, rfl, ?_⟩
    rw [hboth, hparts, andThen_of_end hfirst]
    exact congrArg (·, _) (List.append_assoc ..).symm
  · have hfirst : (replies mode prompt raws s).fault = some fault := hfault
    constructor
    · rw [hboth, hparts, andThen_of_fault hfirst]
      rfl
    · obtain ⟨before, raw, after, hraws, hend, hout, hrun⟩ := exists_failing hfirst
      obtain ⟨answers, -, -, -, htext⟩ := replies_answers hend
      refine ⟨before, raw, after, hraws, hend, congrArg (prompt ++ ·) hout, ?_, hrun⟩
      show prompt <:+ prompt ++ (replies mode prompt raws s).out
      rw [← hout, htext]
      exact prompt_isSuffix answers
  · simp only [← isSkipped_eq_all] at hlines
    have hreplies : replies mode prompt raws s = replies mode prompt raws' s := by
      rw [← replies_filter mode prompt raws, ← replies_filter mode prompt raws', hlines]
    exact congrArg (fun t => { t with out := prompt ++ t.out }) hreplies
  · have htrimmed : ∀ c ∈ raw, isTrimmed c = true := List.all_eq_true.1 hraw
    have hchars : ∀ c ∈ line, isTrimmed c = true := by
      rcases (by simpa using hline : line = raw ∨ line = content raw) with rfl | rfl
      · exact htrimmed
      · exact forall_mem_content_iff.2 htrimmed
    exact Session.exists_outcome_of_keeps (Session.runLine_of_trimmed hchars hlimit s.env)

/-- A numeral with two points ends the conversation, and the separator U+001C alone in a line does not. -/
theorem ofLines_append_malformed :
    let mode : Mode := ⟨false, 3⟩
    let prompt := ['>', ' ']
    let raws := [['N', 'I', 'L'], ['\x1c', '\n']]
    let faulty := [['1', '.', '2', '.', '3', '\n']]
    let first := ofLines mode prompt raws .initial
    (first.fault = none ∧ ∃ rest, (ofLines mode prompt faulty first.state).out = prompt ++ rest ∧
      (ofLines mode prompt (raws ++ faulty) .initial).out = first.out ++ rest) ∧
    (∃ fault, (ofLines mode prompt faulty .initial).fault = some fault ∧
      outcome (ofLines mode prompt (faulty ++ raws) .initial) =
        outcome (ofLines mode prompt faulty .initial)) ∧
    ((raws.filter fun raw => !raw.all isTrimmed) =
        ([['N', 'I', 'L']].filter fun raw => !raw.all isTrimmed) ∧
      first = ofLines mode prompt [['N', 'I', 'L']] .initial) ∧
    ['\x1c', '\n'].all isTrimmed = true ∧ 0 < mode.limit ∧ ∃ answer,
      Session.outcome (Session.runLine mode ['\x1c', '\n'] .initial) = (.ok answer, .initial) ∧
        Session.IsIdle ['\x1c', '\n'] answer := by
  intro mode prompt raws faulty first
  have hend : first.fault = none := by decide +kernel
  have hfault : (ofLines mode prompt faulty .initial).fault =
      some (.unreadable (.malformedNumeral "1.2.3")) := by decide +kernel
  obtain ⟨rest, hsecond, hboth⟩ := (ofLines_append mode prompt raws faulty .initial).1 hend
  obtain ⟨hsame, -⟩ := (ofLines_append mode prompt faulty raws .initial).2.1 _ hfault
  have hlines := (ofLines_append mode prompt raws [['N', 'I', 'L']] .initial).2.2.1 rfl
  have hidle := (ofLines_append mode prompt raws faulty .initial).2.2.2 ['\x1c', '\n'] rfl
    (Nat.succ_pos 2) _ List.mem_cons_self
  exact ⟨⟨hend, rest, hsecond, congrArg (·.1) hboth⟩, ⟨_, hfault, hsame⟩, ⟨rfl, hlines⟩, rfl,
    Nat.succ_pos 2, hidle⟩

end Transcript
end SnapLisp
