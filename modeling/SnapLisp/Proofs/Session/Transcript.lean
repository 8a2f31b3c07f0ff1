import SnapLisp.Proofs.Session.Message
import SnapLisp.Session.Transcript

/-!
# Transcripts line by line

A conversation that runs to the end asks the lines that are not blank, one after the other, and writes
the prompt, and behind each answer a newline and the prompt again (`replies_answers`). If the lines have
no newline but at their ends, no answer has one (`answers_sound`), so the newlines of the output are
those behind the answers (`splitOn_ofLines`).
-/

namespace SnapLisp
namespace EvalM

theorem mapM_keeps {α β : Type} {I : Environment → Prop} {F : Fault → Prop} {Q : β → Prop}
    {f : α → EvalM β} {as : List α} (h : ∀ a ∈ as, Keeps I F Q (f a)) :
    Keeps I F (fun bs => ∀ b ∈ bs, Q b) (as.mapM f) := by
  induction as with
  | nil => exact .pure (by simp)
  | cons a as ih =>
    obtain ⟨ha, has⟩ := List.forall_mem_cons.1 h
    rw [List.mapM_cons]
    exact ha.bind fun b hb => (ih has).bind fun bs hbs => .pure (List.forall_mem_cons.2 ⟨hb, hbs⟩)

end EvalM

namespace Transcript
open EvalM
variable {mode : Mode} {prompt : List Char} {raws : List (List Char)}

/-- A newline in the line has line ends only behind it. -/
def EndsInNewlines (raw : List Char) : Prop :=
  ∃ line ending, raw = line ++ ending ∧ '\n' ∉ line ∧ ∀ c ∈ ending, isLineEnd c = true

/-- The lines that are answered. -/
def asked (raws : List (List Char)) : List (List Char) :=
  (raws.filter fun raw => !isSkipped raw).map content

theorem EndsInNewlines.content {raw : List Char} (h : EndsInNewlines raw) : '\n' ∉ content raw := by
  obtain ⟨line, ending, rfl, hline, hending⟩ := h
  have hdrop : (line ++ ending).reverse.dropWhile isLineEnd = line.reverse.dropWhile isLineEnd := by
    rw [List.reverse_append]
    exact List.dropWhile_append_of_pos fun c hc => hending c (List.mem_reverse.1 hc)
  unfold Transcript.content trimEnd
  rw [hdrop, List.mem_reverse]
  intro hmem
  exact hline (List.mem_reverse.1 ((List.dropWhile_suffix isLineEnd).subset hmem))

theorem mem_asked {line : List Char} (h : line ∈ asked raws) : ∃ raw ∈ raws, content raw = line := by
  obtain ⟨raw, hraw, rfl⟩ := List.mem_map.1 h
  exact ⟨raw, List.mem_of_mem_filter hraw, rfl⟩

/-! ### Answers -/

/-- What is written after the first prompt. -/
def answersText (prompt : List Char) (answers : List String) : List Char :=
  answers.flatMap fun answer => answer.toList ++ '\n' :: prompt

theorem replies_answers {s : State} (hend : (replies mode prompt raws s).fault = none) :
    ∃ answers s', (asked raws).mapM (Session.runLine mode) s = .ok answers s' ∧
      answers.length = (asked raws).length ∧
      (replies mode prompt raws s).out = answersText prompt answers := by
  induction raws generalizing s with
  | nil => exact ⟨[], s, rfl, rfl, rfl⟩
  | cons raw raws ih =>
    rw [replies, reply] at hend ⊢
    by_cases hskip : isSkipped raw = true
    · rw [if_pos hskip] at hend ⊢
      have hasked : asked (raw :: raws) = asked raws := by simp [asked, hskip]
      rw [hasked]
      exact ih hend
    · rw [if_neg hskip] at hend ⊢
      have hasked : asked (raw :: raws) = content raw :: asked raws := by simp [asked, hskip]
      rw [hasked, List.mapM_cons, bind_run]
      cases hrun : Session.runLine mode (content raw) s with
      | error fault s' =>
        rw [hrun] at hend
        cases hend
      | ok answer s' =>
        rw [hrun] at hend
        obtain ⟨answers, s'', hanswers, hlength, hout⟩ := ih hend
        refine ⟨answer :: answers, s'', ?_, congrArg (· + 1) hlength, ?_⟩
        · dsimp only
          rw [bind_run, hanswers]
          rfl
        · exact congrArg (answer.toList ++ '\n' :: prompt ++ ·) hout

theorem prompt_append_answersText (answers : List String) :
    prompt ++ answersText prompt answers =
      ['\n'].intercalate (answers.map (prompt ++ ·.toList) ++ [prompt]) := by
  induction answers with
  | nil => simp [answersText]
  | cons answer answers ih =>
    have hne : answers.map (prompt ++ ·.toList) ++ [prompt] ≠ [] := by simp
    rw [List.map_cons, List.cons_append, List.intercalate_cons_of_ne_nil hne, ← ih]
    simp [answersText]

/-- The lines of a conversation leave the environment sound, so every answer is one in a sound
environment. -/
theorem answers_sound (mode : Mode) {p : Char → Prop} (hp : HoldsOnVisible p) {lines : List (List Char)}
    (hlines : ∀ line ∈ lines, ∀ c ∈ line, p c) :
    Keeps (Environment.IsSound p) (fun _ => True)
      (fun answers => ∀ answer ∈ answers, ∀ c ∈ answer.toList, p c)
      (lines.mapM (Session.runLine mode)) := by
  refine mapM_keeps fun line hline => ?_
  exact (Session.runLine_sound hp.spellsNames (hlines line hline)).mono (fun _ _ => ⟨⟩)
    fun _ hanswer => hanswer.chars hp

/-- If newlines stand at the ends of lines only, then the output of a conversation that runs to the end,
split at its newlines, is the prompt in front of each answer, and the prompt alone: no answer has a
newline in it, be it a result or a message. -/
theorem splitOn_ofLines (mode : Mode) (hprompt : '\n' ∉ prompt)
    (hraws : ∀ raw ∈ raws, EndsInNewlines raw)
    (hend : (ofLines mode prompt raws .initial).fault = none) :
    ∃ answers s, (asked raws).mapM (Session.runLine mode) .initial = .ok answers s ∧
      answers.length = (asked raws).length ∧ (∀ answer ∈ answers, '\n' ∉ answer.toList) ∧
      (ofLines mode prompt raws .initial).out.splitOn '\n' =
        answers.map (prompt ++ ·.toList) ++ [prompt] := by
  obtain ⟨answers, s, hrun, hlength, hout⟩ := replies_answers hend
  have hvisible : HoldsOnVisible (· ≠ '\n') := by
    rintro c hc rfl
    cases hc
  have hlines : ∀ line ∈ asked raws, ∀ c ∈ line, c ≠ '\n' := by
    intro line hline c hc hnewline
    obtain ⟨raw, hraw, rfl⟩ := mem_asked hline
    exact (hraws raw hraw).content (hnewline ▸ hc)
  have hsound := answers_sound mode hvisible hlines .initial (Session.initial_isSound _)
  rw [hrun] at hsound
  have hanswers : ∀ answer ∈ answers, '\n' ∉ answer.toList := fun answer hanswer hmem =>
    hsound.1 answer hanswer '\n' hmem rfl
  refine ⟨answers, s, hrun, hlength, hanswers, ?_⟩
  have hsegments : ∀ segment ∈ answers.map (prompt ++ ·.toList) ++ [prompt], '\n' ∉ segment := by
    refine List.forall_mem_append.2 ⟨List.forall_mem_map.2 fun answer hanswer => ?_, ?_⟩
    · exact List.not_mem_append hprompt (hanswers answer hanswer)
    · exact List.forall_mem_singleton.2 hprompt
  have htext : (ofLines mode prompt raws .initial).out = prompt ++ answersText prompt answers :=
    congrArg (prompt ++ ·) hout
  rw [htext, prompt_append_answersText]
  exact List.splitOn_intercalate '\n' hsegments (by simp)

/-- A message with a dump: the name B is unbound when A is bound to a text. -/
theorem splitOn_ofLines_unbound :
    let prompt := ['>', ' ']
    let raws := ["(SETQ A \"x\")\r\n".toList, ['\n'], ['B']]
    '\n' ∉ prompt ∧ (∀ raw ∈ raws, EndsInNewlines raw) ∧
      (ofLines ⟨false, 3⟩ prompt raws .initial).fault = none ∧
      ∃ answers s, (asked raws).mapM (Session.runLine ⟨false, 3⟩) .initial = .ok answers s ∧
        answers.length = (asked raws).length ∧ (∀ answer ∈ answers, '\n' ∉ answer.toList) ∧
        (ofLines ⟨false, 3⟩ prompt raws .initial).out.splitOn '\n' =
          answers.map (prompt ++ ·.toList) ++ [prompt] := by
  intro prompt raws
  have hprompt : '\n' ∉ prompt := by simp [prompt]
  have hraws : ∀ raw ∈ raws, EndsInNewlines raw := by
    refine List.forall_mem_cons.2 ⟨⟨"(SETQ A \"x\")".toList, ['\r', '\n'], rfl, ?_, ?_⟩, ?_⟩
    · simp
    · simp [isLineEnd]
    · refine List.forall_mem_cons.2 ⟨⟨[], ['\n'], rfl, by simp, by simp [isLineEnd]⟩, ?_⟩
      exact List.forall_mem_singleton.2 ⟨['B'], [], rfl, by simp, by simp⟩
  have hend : (ofLines ⟨false, 3⟩ prompt raws .initial).fault = none := by decide +kernel
  exact ⟨hprompt, hraws, hend, splitOn_ofLines ⟨false, 3⟩ hprompt hraws hend⟩

end Transcript
end SnapLisp
