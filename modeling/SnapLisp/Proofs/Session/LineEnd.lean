import SnapLisp.Proofs.Session.Parts

/-!
# Line ends

A text spells lines if these stand in it one after the other, each with an end behind it, the last one
perhaps without (`Spells`). It need not have them as its lines: a carriage return behind one line and the
newline behind an empty one after it are the end of one line. The line that is lost is blank, and the lines
that are asked are the same (`asked_lines`). Main statement: texts that spell the same lines make the
program do the same (`run_line_ends`).
-/

namespace SnapLisp

/-- A newline, a carriage return, or the two together. -/
inductive IsLineEnding : List Char → Prop
  | newline : IsLineEnding ['\n']
  | carriageReturn : IsLineEnding ['\r']
  | both : IsLineEnding ['\r', '\n']

/-- The text is these lines, each with an end of its own behind it, which the last one may lack. -/
inductive Spells : List (List Char) → List Char → Prop
  | nil : Spells [] []
  | last {line : List Char} (noEnd : ∀ c ∈ line, isLineEnd c = false) : Spells [line] line
  | cons {line ending : List Char} {rest : List (List Char)} {text : List Char}
      (noEnd : ∀ c ∈ line, isLineEnd c = false) (isEnding : IsLineEnding ending)
      (spells : Spells rest text) : Spells (line :: rest) (line ++ (ending ++ text))

variable {line ending text cs first : List Char} {rest : List (List Char)}

theorem IsLineEnding.isLineEnd (h : IsLineEnding ending) : ∀ c ∈ ending, isLineEnd c = true := by
  cases h <;> simp [SnapLisp.isLineEnd]

/-! ### The lines of a text -/

theorem lines_newline (cs : List Char) : lines ('\n' :: cs) = ['\n'] :: lines cs := by
  simp [lines]

theorem lines_both (cs : List Char) : lines ('\r' :: '\n' :: cs) = ['\n'] :: lines cs := by
  simp [lines]

theorem lines_carriageReturn (h : cs.head? ≠ some '\n') : lines ('\r' :: cs) = ['\n'] :: lines cs := by
  cases cs with
  | nil => rfl
  | cons c cs => simp_all [lines]

theorem lines_cons {c : Char} (hc : isLineEnd c = false) (cs : List Char) :
    lines (c :: cs) = consFirst c (lines cs) := by
  have hne : c ≠ '\n' ∧ c ≠ '\r' := by simpa [isLineEnd] using hc
  rw [lines, if_neg (by tauto)]
  exact fun _ h _ => hne.2 h

/-- The characters of a line extend the first line behind them. -/
theorem lines_append (hline : ∀ c ∈ line, isLineEnd c = false) (h : lines text = first :: rest) :
    lines (line ++ text) = (line ++ first) :: rest := by
  induction line with
  | nil => exact h
  | cons c line ih =>
    obtain ⟨hc, hline⟩ := List.forall_mem_cons.1 hline
    rw [List.cons_append, lines_cons hc, ih hline]
    rfl

theorem lines_of_noEnd (hline : ∀ c ∈ line, isLineEnd c = false) (hne : line ≠ []) :
    lines line = [line] := by
  induction line with
  | nil => exact absurd rfl hne
  | cons c line ih =>
    obtain ⟨hc, hline⟩ := List.forall_mem_cons.1 hline
    rw [lines_cons hc]
    by_cases hnil : line = []
    · rw [hnil]
      rfl
    · rw [ih hline hnil]
      rfl

namespace Transcript
variable {mode : Mode} {prompt : List Char} {raw raw' : List Char} {raws raws' : List (List Char)}

/-! ### The lines that are asked -/

theorem content_append (hline : ∀ c ∈ line, isLineEnd c = false) (hend : ∀ c ∈ ending, isLineEnd c = true) :
    content (line ++ ending) = line := by
  have hreverse : line.reverse.dropWhile isLineEnd = line.reverse := by
    refine List.dropWhile_eq_self_iff.2 fun h => ?_
    rw [hline _ (List.mem_reverse.1 (List.getElem_mem h))]
    exact Bool.false_ne_true
  rw [content, trimEnd, List.reverse_append, List.dropWhile_append_of_pos fun c hc =>
    hend c (List.mem_reverse.1 hc), hreverse, List.reverse_reverse]

theorem content_of_noEnd (hline : ∀ c ∈ line, isLineEnd c = false) : content line = line := by
  have hcontent := content_append hline (List.forall_mem_nil (isLineEnd · = true))
  rwa [List.append_nil] at hcontent

theorem asked_cons_of_isSkipped (h : isSkipped raw = true) : asked (raw :: raws) = asked raws := by
  simp [asked, h]

theorem asked_cons_of_not_isSkipped (h : isSkipped raw = false) :
    asked (raw :: raws) = content raw :: asked raws := by
  simp [asked, h]

theorem asked_cons_congr (hcontent : content raw = content raw') (h : asked raws = asked raws') :
    asked (raw :: raws) = asked (raw' :: raws') := by
  have hskipped : isSkipped raw = isSkipped raw' := by rw [isSkipped, isSkipped, hcontent]
  cases hraw : isSkipped raw with
  | true => rw [asked_cons_of_isSkipped hraw, asked_cons_of_isSkipped (hskipped ▸ hraw), h]
  | false =>
    rw [asked_cons_of_not_isSkipped hraw, asked_cons_of_not_isSkipped (hskipped ▸ hraw), hcontent, h]

/-- Behind an end the lines of the text go on, perhaps without a blank one. -/
theorem exists_lines_ending (h : IsLineEnding ending) (text : List Char) : ∃ raws,
    lines (ending ++ text) = ['\n'] :: raws ∧ asked raws = asked (lines text) := by
  cases h with
  | newline => exact ⟨_, lines_newline text, rfl⟩
  | both => exact ⟨_, lines_both text, rfl⟩
  | carriageReturn =>
    by_cases hfuse : text.head? = some '\n'
    · obtain ⟨cs, rfl⟩ := List.head?_eq_some_iff.1 hfuse
      refine ⟨_, lines_both cs, ?_⟩
      rw [lines_newline, asked_cons_of_isSkipped (by decide)]
    · exact ⟨_, lines_carriageReturn hfuse, rfl⟩

theorem asked_lines {ls : List (List Char)} (h : Spells ls text) : asked (lines text) = asked ls := by
  induction h with
  | nil => rfl
  | @last line hline =>
    by_cases hne : line = []
    · rw [hne]
      decide
    · rw [lines_of_noEnd hline hne]
  | cons hline hending hspells ih =>
    obtain ⟨raws, hlines, hasked⟩ := exists_lines_ending hending _
    rw [lines_append hline hlines]
    refine asked_cons_congr ?_ (hasked.trans ih)
    rw [content_append hline (by simp [isLineEnd]), content_of_noEnd hline]

/-! ### The conversation about them -/

theorem reply_congr (hcontent : content raw = content raw') (s : State) :
    reply mode prompt raw s = reply mode prompt raw' s := by
  rw [reply, reply, isSkipped, isSkipped, hcontent]

theorem replies_map_content (mode : Mode) (prompt : List Char) (raws : List (List Char)) (s : State) :
    replies mode prompt (raws.map content) s = replies mode prompt raws s := by
  induction raws generalizing s with
  | nil => rfl
  | cons raw raws ih =>
    have hcontent : content (content raw) = content raw := List.rdropWhile_idempotent isLineEnd raw
    rw [List.map_cons, replies, replies, reply_congr hcontent]
    exact congrArg _ (funext ih)

/-- A conversation is about the lines that are asked. -/
theorem replies_asked (mode : Mode) (prompt : List Char) (raws : List (List Char)) (s : State) :
    replies mode prompt (asked raws) s = replies mode prompt raws s := by
  rw [asked, replies_map_content, replies_filter]

end Transcript

namespace Program

/-- The program has the conversation about the lines that are spelt. -/
theorem run_of_spells (limit : Nat) (settings : Settings) {ls : List (List Char)} {input : String}
    (h : Spells ls input.toList) : run limit settings input =
      outcome settings.promptText.toList (replies limit settings settings.promptText.toList ls) := by
  rw [run_eq]
  unfold replies
  rw [← Transcript.replies_asked _ _ (lines input.toList), Transcript.asked_lines h, Transcript.replies_asked]

/-- How the lines of the input end makes no difference: the program writes the same text, logs the same
and ends with the same fault, as in the conversation about these lines. -/
theorem run_line_ends (limit : Nat) (settings : Settings) {ls : List (List Char)} {input input' : String}
    (h : Spells ls input.toList) (h' : Spells ls input'.toList) :
    run limit settings input = run limit settings input' ∧ run limit settings input =
      outcome settings.promptText.toList (replies limit settings settings.promptText.toList ls) := by
  have hrun := run_of_spells limit settings h
  exact ⟨hrun.trans (run_of_spells limit settings h').symm, hrun⟩

/-- The carriage return behind A and the newline behind the empty line are one end. -/
theorem run_line_ends_fused :
    let ls := [['A'], [], ['B']]
    Spells ls "A\r\nB".toList ∧ Spells ls "A\n\r\nB\r".toList ∧
      lines "A\r\nB".toList ≠ lines "A\n\r\nB\r".toList ∧
      run 9 ⟨none, some "DEBUG"⟩ "A\r\nB" = run 9 ⟨none, some "DEBUG"⟩ "A\n\r\nB\r" := by
  intro ls
  have hA : ∀ c ∈ ['A'], isLineEnd c = false := by simp [isLineEnd]
  have hB : ∀ c ∈ ['B'], isLineEnd c = false := by simp [isLineEnd]
  have hempty : ∀ c ∈ [], isLineEnd c = false := List.forall_mem_nil _
  have h : Spells ls "A\r\nB".toList := .cons hA .carriageReturn (.cons hempty .newline (.last hB))
  have h' : Spells ls "A\n\r\nB\r".toList :=
    .cons hA .newline (.cons hempty .both (.cons hB .carriageReturn .nil))
  exact ⟨h, h', by decide, (run_line_ends 9 _ h h').1⟩

end Program
end SnapLisp
