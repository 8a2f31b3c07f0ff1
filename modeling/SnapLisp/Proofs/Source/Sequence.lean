import SnapLisp.Proofs.Source.Grammar
import SnapLisp.Proofs.Source.Number

/-!
# The grammar of sources

The expressions of a source have all its tokens but the closing parentheses that close nothing
(`Token.matched`), and a closing parenthesis more for each list that is open at the end. A reading that
is no legal token ends the expressions in front of the one that it stands in. `Sequence.Spells` says
both; a stretch of tokens that leaves no list open can be put in front (`Spells.skip`), which carries the
induction over the expressions. The main statement is `readAll_grammar`.
-/

namespace SnapLisp

namespace Token
variable {d : Nat} {t : Token} {ts ts' : List Token}

/-- The tokens without the closing parentheses that close no list. -/
def matched : Nat → List Token → List Token
  | _, [] => []
  | d, t :: ts =>
    if t = .rparen ∧ d = 0 then matched d ts else t :: matched (depthAfter d t) ts

-- `) ( NIL ) )`.
example : matched 0 [.rparen, .lparen, .nil, .rparen, .rparen] = [.lparen, .nil, .rparen] := rfl

theorem matched_append : matched d (ts ++ ts') = matched d ts ++ matched (depth d ts) ts' := by
  induction ts generalizing d with
  | nil => rfl
  | cons t ts ih =>
    rw [List.cons_append, matched, matched, depth_cons]
    split
    · rename_i hstray
      obtain ⟨rfl, rfl⟩ := hstray
      exact ih
    · rw [ih, List.cons_append]

theorem matched_replicate_rparen (k : Nat) :
    matched k (.replicate k rparen) = .replicate k rparen := by
  induction k with
  | zero => rfl
  | succ k ih =>
    rw [List.replicate_succ, matched, if_neg (fun h => Nat.succ_ne_zero k h.2)]
    exact congrArg _ ih

/-- The tokens without the closing parentheses that close no list, and with one more for each list that
is open behind them. -/
def balanced (ts : List Token) : List Token :=
  matched 0 ts ++ .replicate (depth 0 ts) rparen

end Token

namespace Value
open Token
variable {p : Char → Prop} {v : Value} {items : List Value}

theorem matched_itemTokens (h : ∀ v ∈ items, ∀ d, matched d v.tokens = v.tokens ∧ depth d v.tokens = d)
    (d : Nat) : matched d (itemTokens items) = itemTokens items ∧ depth d (itemTokens items) = d := by
  induction items with
  | nil => exact ⟨rfl, rfl⟩
  | cons v items ih =>
    obtain ⟨hv, hitems⟩ := List.forall_mem_cons.1 h
    rw [itemTokens, matched_append, depth_append, (hv d).1, (hv d).2, (ih hitems).1, (ih hitems).2]
    exact ⟨rfl, rfl⟩

/-- The tokens of a tree close exactly the lists that they open. -/
theorem IsTree.matched_tokens (h : v.IsTree p) (d : Nat) :
    matched d v.tokens = v.tokens ∧ depth d v.tokens = d := by
  induction h using IsTree.spelling_induct generalizing d with
  | atom v t h ht hatom =>
    rw [ht]
    cases t with
    | lparen | rparen | illegal => cases hatom
    | number | text | literal | plus | minus | asterisk | slash | truth | nil => exact ⟨rfl, rfl⟩
  | list items each ih =>
    obtain ⟨hmatched, hdepth⟩ := matched_itemTokens ih (d + 1)
    have hbody : matched (d + 1) (itemTokens items ++ [.rparen]) = itemTokens items ++ [.rparen] := by
      rw [matched_append, hmatched, hdepth]
      rfl
    constructor
    · have hkept : ¬ (Token.lparen = .rparen ∧ d = 0) := by simp
      rw [tokens, matched, if_neg hkept]
      exact congrArg _ hbody
    · rw [tokens, depth_cons]
      show depth (d + 1) (itemTokens items ++ [.rparen]) = d
      rw [depth_append, hdepth]
      rfl

end Value

/-! ### The readings of a text -/

namespace Reading
variable {cs rest left : List Char} {ts : List Token} {r : Reading}

theorem fault?_token_eq_none {t : Token} (h : ∀ c, t ≠ .illegal c) : (token t).fault? = none := by
  cases t with
  | illegal c => exact absurd rfl (h c)
  | number | text | literal | plus | minus | asterisk | slash | lparen | rparen | truth | nil => rfl

theorem eq_cons_of_tokens (hnext : next? cs = some (r, rest)) (h : tokens (all cs) = .ok ts) :
    ∃ t ts', r = .token t ∧ ts = t :: ts' ∧ tokens (all rest) = .ok ts' := by
  rw [all_of_next? hnext] at h
  cases r with
  | malformed numeral => cases h
  | token t =>
    rw [tokens] at h
    cases htail : tokens (all rest) with
    | error f => rw [htail] at h; cases h
    | ok ts' =>
      rw [htail] at h
      cases h
      exact ⟨t, ts', rfl, rfl, rfl⟩

/-- A text whose readings are all legal tokens begins with all of them. -/
theorem begins_of_tokens (h : tokens (all cs) = .ok ts) (hlegal : ∀ c, .illegal c ∉ ts) :
    ∃ left, Begins cs ts left ∧ next? left = none := by
  induction ts generalizing cs with
  | nil =>
    cases hnext : next? cs with
    | none => exact ⟨cs, .nil cs, hnext⟩
    | some p =>
      obtain ⟨t, ts', -, hnil, -⟩ := eq_cons_of_tokens hnext h
      cases hnil
  | cons t ts ih =>
    cases hnext : next? cs with
    | none =>
      rw [all_of_next?_eq_none hnext] at h
      cases h
    | some p =>
      obtain ⟨r, rest⟩ := p
      obtain ⟨t', ts', rfl, hcons, htail⟩ := eq_cons_of_tokens hnext h
      cases hcons
      obtain ⟨left, hbegins, hended⟩ := ih htail fun c hc => hlegal c (List.mem_cons_of_mem _ hc)
      have hhead : ∀ c, t ≠ .illegal c := fun c hc => hlegal c (hc ▸ List.mem_cons_self)
      exact ⟨left, .cons hnext (fault?_token_eq_none hhead) hbegins, hended⟩

/-- Nothing but those tokens is read of it. -/
theorem Begins.fault?_of_ended (h : Begins cs ts left) (hended : next? left = none) :
    ∀ p ∈ all cs, p.1.fault? = none := by
  induction h with
  | nil cs => rw [all_of_next?_eq_none hended]; exact fun _ h => absurd h List.not_mem_nil
  | cons next legal _ ih =>
    rw [all_of_next? next]
    exact List.forall_mem_cons.2 ⟨legal, ih hended⟩

end Reading

/-! ### All expressions of a text -/

namespace Form
open Reading Token
variable {cs rest left : List Char} {ts us : List Token} {r : Reading} {f : ReadFault}
  {sequence : Sequence}

namespace Sequence

def values (sequence : Sequence) : List Value :=
  sequence.forms.map (·.1)

/-- The tokens of all expressions that were read. -/
def tokens (sequence : Sequence) : List Token :=
  Value.itemTokens sequence.values

/-- The ways in which the reading of all expressions can end, with the tokens of the expressions. -/
inductive Spells (cs : List Char) (sequence : Sequence) : Prop
  | ended {ts : List Token} {rest : List Char} (begins : Begins cs ts rest) (ended : next? rest = none)
    (fault : sequence.fault = none) (left : sequence.left = [])
    (tokens : sequence.tokens = balanced ts)
  /-- The tokens `ts'` are those of the expression with the fault in it. -/
  | faulted {ts ts' : List Token} {rest : List Char} {r : Reading} {f : ReadFault}
    (begins : Begins cs (ts ++ ts') rest) (whole : depth 0 ts = 0) (unfinished : IsUnfinished 0 ts')
    (next : next? rest = some (r, sequence.left)) (reading : r.fault? = some f)
    (fault : sequence.fault = some f) (tokens : sequence.tokens = matched 0 ts)

/-- Tokens in front that leave no list open, and the expressions of those tokens. -/
theorem Spells.skip {sequence' : Sequence} (h : sequence.Spells left) (hbegins : Begins cs us left)
    (hwhole : depth 0 us = 0) (hfault : sequence'.fault = sequence.fault)
    (hleft : sequence'.left = sequence.left)
    (htokens : sequence'.tokens = matched 0 us ++ sequence.tokens) : sequence'.Spells cs := by
  cases h with
  | @ended ts rest begins ended fault left tokens =>
    refine .ended (hbegins.append begins) ended (hfault.trans fault) (hleft.trans left) ?_
    rw [htokens, tokens, balanced, balanced, matched_append, depth_append, hwhole, List.append_assoc]
  | @faulted ts ts' rest r f begins whole unfinished next reading fault tokens =>
    have hbegins' : Begins cs (us ++ ts ++ ts') rest := by
      rw [List.append_assoc]
      exact hbegins.append begins
    refine .faulted hbegins' ?_ unfinished (hleft.symm ▸ next) reading (hfault.trans fault) ?_
    · rw [depth_append, hwhole, whole]
    · rw [htokens, tokens, matched_append, hwhole]

theorem Spells.empty : Spells [] ⟨[], none, []⟩ :=
  .ended (.nil []) rfl rfl rfl rfl

theorem Spells.of_fault (h : read cs = (.fault f, left)) : Spells cs ⟨[], some f, left⟩ := by
  cases read_spelt h with
  | @fault ts rest left r f begins unfinished next fault =>
    have hbegins : Begins cs ([] ++ ts) rest := begins
    exact .faulted hbegins rfl unfinished next fault rfl rfl

theorem Spells.of_value {v : Value} (hbegins : Begins cs us left) (hwhole : depth 0 us = 0)
    (hspelt : v.tokens = us) (hv : v.IsTree fun _ => True) (h : sequence.Spells left) :
    Spells cs { sequence with forms := (v, left) :: sequence.forms } := by
  refine h.skip hbegins hwhole rfl rfl ?_
  rw [← hspelt, (hv.matched_tokens 0).1]
  rfl

/-- The last expression, where the end of the text closes its lists. -/
theorem Spells.of_cut {v : Value} (hbegins : Begins cs ts rest) (hended : next? rest = none)
    (hspelt : v.tokens = ts ++ .replicate (depth 0 ts) .rparen) (hv : v.IsTree fun _ => True) :
    Spells cs ⟨[(v, [])], none, []⟩ := by
  refine .ended hbegins hended rfl rfl ?_
  have hmatched := (hv.matched_tokens 0).1
  rw [hspelt, matched_append, matched_replicate_rparen] at hmatched
  show v.tokens ++ [] = balanced ts
  rw [balanced, hmatched, List.append_nil, ← hspelt]

end Sequence

theorem readAll_nil : readAll [] = ⟨[], none, []⟩ := by
  have hread : read [] = (.stop, []) := read_eq_stop_iff.2 (.inl ⟨rfl, rfl⟩)
  rw [readAll]
  split <;> rename_i h <;> rw [hread] at h <;> cases h
  rfl

theorem readAll_of_fault (h : read cs = (.fault f, left)) : readAll cs = ⟨[], some f, left⟩ := by
  rw [readAll]
  split <;> rename_i hread <;> rw [h] at hread <;> cases hread
  rfl

theorem readAll_of_stop (h : read cs = (.stop, left)) : readAll cs = readAll left := by
  rw [readAll]
  split <;> rename_i hread <;> rw [h] at hread <;> cases hread
  split
  · rename_i hnil
    rw [hnil, readAll_nil]
  · rfl

theorem readAll_of_value {v : Value} (h : read cs = (.value v, left)) :
    readAll cs = { readAll left with forms := (v, left) :: (readAll left).forms } := by
  rw [readAll]
  split <;> rename_i hread <;> rw [h] at hread <;> cases hread
  split
  · rename_i hnil
    rw [hnil, readAll_nil]
  · rfl

theorem readAll_spells (cs : List Char) : (readAll cs).Spells cs := by
  fun_induction readAll cs with
  | case1 cs f rest hread => exact Sequence.Spells.of_fault hread
  | case2 cs hread =>
    cases read_spelt hread with
    | ended _ hended => exact .ended (.nil cs) hended rfl rfl rfl
    | stray _ next => exact Sequence.Spells.empty.skip (.singleton next rfl) rfl rfl rfl rfl
  | case3 cs rest hread hne ih =>
    cases read_spelt hread with
    | ended => exact absurd rfl hne
    | stray _ next => exact ih.skip (.singleton next rfl) rfl rfl rfl rfl
  | case4 cs v hread =>
    have hv := isTree_of_read hread
    cases read_spelt hread with
    | closed begins depth tokens => exact .of_value begins depth tokens hv .empty
    | cut begins ended _ tokens => exact .of_cut begins ended tokens hv
  | case5 cs v rest hread hne sequence ih =>
    have hv := isTree_of_read hread
    cases read_spelt hread with
    | closed begins depth tokens => exact .of_value begins depth tokens hv ih
    | cut => exact absurd rfl hne

/-- All expressions of a text are trees. -/
theorem readAll_isTree (cs : List Char) : ∀ v ∈ (readAll cs).values, v.IsTree fun _ => True := by
  fun_induction readAll cs with
  | case1 | case2 => exact fun _ h => absurd h List.not_mem_nil
  | case3 cs rest hread hne ih => exact ih
  | case4 cs v hread => exact List.forall_mem_singleton.2 (isTree_of_read hread)
  | case5 cs v rest hread hne sequence ih =>
    exact List.forall_mem_cons.2 ⟨isTree_of_read hread, ih⟩

/-- The expressions of a text are trees with all its tokens but the closing parentheses that close
nothing, and with those that are missing at the end. If the text has a reading that is no legal token,
they have the tokens in front of the expression with the first of these readings in it, and its fault
ends them. No other trees have the same tokens. -/
theorem readAll_grammar (cs : List Char) :
    (∀ v ∈ (readAll cs).values, v.IsTree fun _ => True) ∧
    (∀ vs : List Value, (∀ v ∈ vs, v.IsTree fun _ => True) →
      Value.itemTokens vs = (readAll cs).tokens → vs = (readAll cs).values) ∧
    (∀ ts, Reading.tokens (Reading.all cs) = .ok ts → (∀ c, .illegal c ∉ ts) →
      (readAll cs).fault = none ∧ (readAll cs).tokens = balanced ts) ∧
    ∀ p ∈ Reading.all cs, p.1.fault? ≠ none →
      ∃ ts ts' rest r f, Begins cs (ts ++ ts') rest ∧ depth 0 ts = 0 ∧ IsUnfinished 0 ts' ∧
        next? rest = some (r, (readAll cs).left) ∧ r.fault? = some f ∧ (readAll cs).fault = some f ∧
        (readAll cs).tokens = matched 0 ts := by
  have htrees := readAll_isTree cs
  have hspells := readAll_spells cs
  refine ⟨htrees, ?unique, ?legal, ?fault⟩
  case unique =>
    intro vs hvs hsame
    have hclosed : Value.itemTokens vs ++ .rparen :: [] =
        Value.itemTokens (readAll cs).values ++ .rparen :: [] := congrArg (· ++ [.rparen]) hsame
    exact (Value.itemTokens_append_inj (fun v hv v' a b => (hvs v hv).tokens_append_inj)
      hvs htrees hclosed).1
  case legal =>
    intro ts hts hlegal
    obtain ⟨left, hbegins, hended⟩ := begins_of_tokens hts hlegal
    cases hspells with
    | ended begins ended fault _ tokens =>
      obtain ⟨rfl, -⟩ := hbegins.eq_of_ended hended begins ended
      exact ⟨fault, tokens⟩
    | faulted begins whole unfinished next reading fault tokens =>
      rw [hbegins.fault?_eq_none_of_ended hended begins next] at reading
      cases reading
  case fault =>
    intro p hp hfault
    cases hspells with
    | ended begins ended => exact absurd (begins.fault?_of_ended ended p hp) hfault
    | faulted begins whole unfinished next reading fault tokens =>
      exact ⟨_, _, _, _, _, begins, whole, unfinished, next, reading, fault, tokens⟩

/-- The source `)(` has the empty list for its only expression, and a fault ends that of `)#`. -/
theorem readAll_grammar_stray :
    (Reading.tokens (Reading.all [')', '(']) = .ok [.rparen, .lparen] ∧
      (readAll [')', '(']).tokens = [.lparen, .rparen]) ∧
    (.token (.illegal '#'), []) ∈ Reading.all [')', '#'] ∧ ∃ f, (readAll [')', '#']).fault = some f := by
  have hall : ∀ c r, next? [c] = some (r, []) →
      Reading.all [')', c] = [(.token .rparen, [c]), (r, [])] := by
    intro c r hnext
    rw [all_of_next? next?_rparen, all_of_next? hnext, all_nil]
  have htokens : Reading.tokens (Reading.all [')', '(']) = .ok [.rparen, .lparen] := by
    rw [hall '(' (.token .lparen) rfl]
    rfl
  have hmem : (.token (.illegal '#'), []) ∈ Reading.all [')', '#'] := by
    rw [hall '#' (.token (.illegal '#')) rfl]
    exact List.mem_cons_of_mem _ List.mem_cons_self
  refine ⟨⟨htokens, ((readAll_grammar [')', '(']).2.2.1 _ htokens (by simp)).2⟩, hmem, ?_⟩
  obtain ⟨_, _, _, _, f, _, _, _, _, _, hf, _⟩ := (readAll_grammar [')', '#']).2.2.2 _ hmem nofun
  exact ⟨f, hf⟩

end Form
end SnapLisp
