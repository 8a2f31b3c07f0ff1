import SnapLisp.Proofs.Source.Form
import SnapLisp.Proofs.Source.Tokens
import SnapLisp.Proofs.Source.Tree

/-!
# The grammar of expressions

`Value.tokens` are the tokens that spell a tree, and no two trees have the same ones
(`tokens_append_inj`). The reader keeps the open lists so that the tokens behind it spell them
(`step_spells`), and the number of open lists is the depth of those tokens.
-/

namespace SnapLisp

/-- The token of a symbol. -/
def Token.ofName (name : String) : Token :=
  if name = "+" then plus
  else if name = "-" then minus
  else if name = "*" then asterisk
  else if name = "/" then slash
  else literal name

namespace Value

mutual

/-- The tokens of an expression; values that a reader does not make have none. -/
def tokens : Value → List Token
  | number x => [.number x]
  | text s => [.text s]
  | symbol name => [.ofName name]
  | nil => [.nil]
  | truth => [.truth]
  | list items => .lparen :: (itemTokens items ++ [.rparen])
  | integer _ | flag _ | builtin _ | lambda _ _ | absent => []

def itemTokens : List Value → List Token
  | [] => []
  | v :: vs => tokens v ++ itemTokens vs

end

-- `(+ NIL ())`.
example : (list [symbol "+", nil, list []]).tokens =
    [.lparen, .plus, .nil, .lparen, .rparen, .rparen] := rfl

variable {p : Char → Prop} {v v' : Value} {items items' : List Value}

theorem itemTokens_eq (items : List Value) : itemTokens items = items.flatMap tokens := by
  induction items with
  | nil => rfl
  | cons v items ih => rw [itemTokens, ih, List.flatMap_cons]

theorem itemTokens_append : itemTokens (items ++ items') = itemTokens items ++ itemTokens items' := by
  simp [itemTokens_eq]

theorem atom?_ofName (name : String) : Form.atom? (.ofName name) = some (.symbol name) := by
  unfold Token.ofName
  repeat' split
  all_goals first | rfl | (subst name; rfl)

/-- A tree is spelt with one token, or it is a list of trees. -/
@[elab_as_elim]
theorem IsTree.spelling_induct {motive : (v : Value) → v.IsTree p → Prop}
    (atom : ∀ v t (h : v.IsTree p), v.tokens = [t] → Form.atom? t = some v → motive v h)
    (list : ∀ items (each : ∀ v ∈ items, v.IsTree p), (∀ v hv, motive v (each v hv)) →
      motive (.list items) (.list each)) {v : Value} (h : v.IsTree p) : motive v h := by
  induction h with
  | number x => exact atom _ _ _ rfl rfl
  | text chars => exact atom _ _ _ rfl rfl
  | @symbol name isName => exact atom _ _ _ rfl (atom?_ofName name)
  | nil => exact atom _ _ _ rfl rfl
  | truth => exact atom _ _ _ rfl rfl
  | list each ih => exact list _ each ih

/-- The tokens of a tree do not start with a closing parenthesis. -/
theorem IsTree.tokens_append_ne (h : v.IsTree p) (a b : List Token) :
    v.tokens ++ a ≠ .rparen :: b ∧ v.tokens ++ a ≠ [] := by
  induction h using IsTree.spelling_induct with
  | atom v t h ht hatom =>
    rw [ht]
    refine ⟨fun heq => ?_, List.cons_ne_nil _ _⟩
    cases heq
    cases hatom
  | list items each ih => exact ⟨nofun, nofun⟩

theorem itemTokens_append_inj {a b : List Token}
    (h : ∀ v ∈ items, ∀ v' a b, v'.IsTree p → v.tokens ++ a = v'.tokens ++ b → v = v' ∧ a = b)
    (hitems : ∀ v ∈ items, v.IsTree p) (hitems' : ∀ v ∈ items', v.IsTree p)
    (heq : itemTokens items ++ .rparen :: a = itemTokens items' ++ .rparen :: b) :
    items = items' ∧ a = b := by
  induction items generalizing items' with
  | nil =>
    cases items' with
    | nil => exact ⟨rfl, by simpa [itemTokens] using heq⟩
    | cons v' items' =>
      rw [itemTokens, itemTokens, List.append_assoc] at heq
      exact absurd heq.symm ((hitems' v' List.mem_cons_self).tokens_append_ne _ _).1
  | cons v items ih =>
    obtain ⟨hv, hrest⟩ := List.forall_mem_cons.1 h
    obtain ⟨htree, htrees⟩ := List.forall_mem_cons.1 hitems
    cases items' with
    | nil =>
      rw [itemTokens, itemTokens, List.append_assoc] at heq
      exact absurd heq (htree.tokens_append_ne _ _).1
    | cons v' items' =>
      obtain ⟨htree', htrees'⟩ := List.forall_mem_cons.1 hitems'
      simp only [itemTokens, List.append_assoc] at heq
      obtain ⟨rfl, htail⟩ := hv v' _ _ htree' heq
      obtain ⟨rfl, rfl⟩ := ih hrest htrees htrees' htail
      exact ⟨rfl, rfl⟩

/-- The tokens of a tree tell where they end and which tree it is. -/
theorem IsTree.tokens_append_inj (hv : v.IsTree p) {a b : List Token} (hv' : v'.IsTree p)
    (h : v.tokens ++ a = v'.tokens ++ b) : v = v' ∧ a = b := by
  induction hv using IsTree.spelling_induct generalizing v' a b with
  | atom v t hv ht hatom =>
    rw [ht] at h
    induction hv' using IsTree.spelling_induct with
    | atom v' t' hv' ht' hatom' =>
      rw [ht'] at h
      cases h
      rw [hatom] at hatom'
      cases hatom'
      exact ⟨rfl, rfl⟩
    | list items' each' _ =>
      cases h
      cases hatom
  | list items each ih =>
    induction hv' using IsTree.spelling_induct with
    | atom v' t' hv' ht' hatom' =>
      rw [ht'] at h
      cases h
      cases hatom'
    | list items' each' _ =>
      have hitems : itemTokens items ++ .rparen :: a = itemTokens items' ++ .rparen :: b := by
        simpa [tokens] using h
      obtain ⟨rfl, rfl⟩ := itemTokens_append_inj (fun v hv v' a b => ih v hv) each each' hitems
      exact ⟨rfl, rfl⟩

end Value

/-! ### Open lists -/

namespace Form
open Reading Token
variable {p : Char → Prop} {opened : Open} {cs rest left : List Char} {r : Reading} {t : Token}
  {ts : List Token} {v : Value} {form : Form} {f : ReadFault}

/-- The tokens behind which these lists are open. -/
def Open.tokens : Open → List Token
  | [] => []
  | items :: outer => Open.tokens outer ++ .lparen :: Value.itemTokens items.reverse

theorem step_of_fault? (h : r.fault? = some f) : step opened r = .inl (.fault f) := by
  cases r with
  | malformed numeral => cases h; rfl
  | token t => cases t <;> cases h; rfl

theorem exists_token_of_fault? (h : r.fault? = none) : ∃ t, r = .token t := by
  cases r with
  | malformed numeral => cases h
  | token t => exact ⟨t, rfl⟩

theorem ofName_of_literal {name : String}
    (h : next? cs = some (.token (.literal name), rest)) : Token.ofName name = .literal name := by
  obtain ⟨lexeme, hsplit, hreading⟩ := exists_lexeme_of_next? h
  obtain ⟨letters, rfl, rfl, -⟩ := Lexeme.eq_word_of_reading hreading
  have hcapitals : ∀ c ∈ (String.ofList (letters.map Char.toUpper)).toList, isCapital c = true := by
    intro c hc
    rw [String.toList_ofList] at hc
    obtain ⟨x, hx, rfl⟩ := List.mem_map.1 hc
    exact isCapital_toUpper ((letters_of_split? hsplit).2 x hx)
  have hne : ∀ c : Char, isCapital c = false →
      String.ofList (letters.map Char.toUpper) ≠ String.ofList [c] := by
    intro c hc heq
    rw [heq] at hcapitals
    have hcapital := hcapitals c (by simp)
    rw [hc] at hcapital
    cases hcapital
  rw [Token.ofName, if_neg (hne '+' rfl), if_neg (hne '-' rfl), if_neg (hne '*' rfl),
    if_neg (hne '/' rfl)]

theorem tokens_of_atom? (h : next? cs = some (.token t, rest)) (hatom : atom? t = some v) :
    v.tokens = [t] := by
  cases t with
  | literal name =>
    cases hatom
    rw [Value.tokens, ofName_of_literal h]
  | number | text | plus | minus | asterisk | slash | truth | nil => cases hatom; rfl
  | lparen | rparen | illegal => cases hatom

theorem place_spells (v : Value) (opened : Open) :
    match place v opened with
    | .inl form => opened = [] ∧ form = .value v
    | .inr opened' => opened' ≠ [] ∧ opened'.length = opened.length ∧
        Open.tokens opened' = Open.tokens opened ++ v.tokens := by
  cases opened with
  | nil => exact ⟨rfl, rfl⟩
  | cons items outer =>
    refine ⟨List.cons_ne_nil _ _, rfl, ?_⟩
    simp [Open.tokens, Value.itemTokens_append, Value.itemTokens]

/-- What a step with a token leads to is spelt with one token more. -/
def StepSpells (opened : Open) (t : Token) : Form ⊕ Open → Prop
  | .inl .stop => opened = [] ∧ t = .rparen
  | .inl (.value v) => depthAfter opened.length t = 0 ∧ v.tokens = Open.tokens opened ++ [t]
  | .inl (.fault _) => False
  | .inr opened' => opened' ≠ [] ∧ opened'.length = depthAfter opened.length t ∧
      Open.tokens opened' = Open.tokens opened ++ [t]

theorem place_stepSpells {outer : Open} (hdepth : outer.length = depthAfter opened.length t)
    (htokens : Open.tokens outer ++ v.tokens = Open.tokens opened ++ [t]) :
    StepSpells opened t (place v outer) := by
  have hplace := place_spells v outer
  cases hcase : place v outer with
  | inl form =>
    rw [hcase] at hplace
    obtain ⟨rfl, rfl⟩ := hplace
    exact ⟨hdepth.symm, htokens⟩
  | inr opened' =>
    rw [hcase] at hplace
    obtain ⟨hne, hlength, hspelt⟩ := hplace
    exact ⟨hne, hlength.trans hdepth, hspelt.trans htokens⟩

theorem step_spells (h : next? cs = some (.token t, rest)) (legal : (Reading.token t).fault? = none)
    (opened : Open) : StepSpells opened t (step opened (.token t)) := by
  cases t with
  | illegal c => cases legal
  | lparen => exact ⟨List.cons_ne_nil _ _, rfl, by simp [Open.tokens, Value.itemTokens]⟩
  | rparen =>
    cases opened with
    | nil => exact ⟨rfl, rfl⟩
    | cons items outer =>
      exact place_stepSpells rfl (by simp [Open.tokens, Value.tokens])
  | number | text | literal | plus | minus | asterisk | slash | truth | nil =>
    exact place_stepSpells rfl (by rw [tokens_of_atom? h rfl])

theorem foldl_tokens (v : Value) (outer : Open) :
    (outer.foldl (fun v items => Value.list (v :: items).reverse) v).tokens =
      Open.tokens outer ++ v.tokens ++ .replicate outer.length .rparen := by
  induction outer generalizing v with
  | nil => simp [Open.tokens]
  | cons items outer ih =>
    rw [List.foldl_cons, ih]
    simp [Open.tokens, Value.tokens, Value.itemTokens_append, Value.itemTokens,
      List.replicate_succ]

/-- The end of a source closes each open list as a closing parenthesis does. -/
theorem closeAll_spells (hne : opened ≠ []) :
    ∃ v, closeAll opened = .value v ∧
      v.tokens = Open.tokens opened ++ .replicate opened.length .rparen := by
  cases opened with
  | nil => exact absurd rfl hne
  | cons items outer =>
    refine ⟨_, rfl, ?_⟩
    rw [foldl_tokens]
    simp [Open.tokens, Value.tokens, List.replicate_succ]

/-! ### What the reader reads -/

/-- The ways in which an expression can end that has been begun with open lists. -/
inductive Spelt (opened : Open) (cs : List Char) : Form → List Char → Prop
  | ended (outside : opened = []) (ended : next? cs = none) : Spelt opened cs .stop []
  | stray {left : List Char} (outside : opened = [])
    (next : next? cs = some (.token .rparen, left)) : Spelt opened cs .stop left
  | fault {ts : List Token} {rest left : List Char} {r : Reading} {f : ReadFault}
    (begins : Begins cs ts rest) (unfinished : IsUnfinished opened.length ts)
    (next : next? rest = some (r, left)) (fault : r.fault? = some f) :
    Spelt opened cs (.fault f) left
  | closed {v : Value} {ts : List Token} {left : List Char} (begins : Begins cs ts left)
    (depth : depth opened.length ts = 0) (tokens : v.tokens = Open.tokens opened ++ ts) :
    Spelt opened cs (.value v) left
  /-- The end of the text stands for the closing parentheses that are missing. -/
  | cut {v : Value} {ts : List Token} {rest : List Char} (begins : Begins cs ts rest)
    (ended : next? rest = none) (depth : 0 < depth opened.length ts)
    (tokens : v.tokens =
      Open.tokens opened ++ ts ++ .replicate (Token.depth opened.length ts) .rparen) :
    Spelt opened cs (.value v) []

theorem Spelt.cons {opened' : Open} (hnext : next? cs = some (.token t, rest))
    (legal : (Reading.token t).fault? = none)
    (hstep : StepSpells opened t (.inr opened')) (h : Spelt opened' rest form left) :
    Spelt opened cs form left := by
  obtain ⟨hne, hlength, htokens⟩ := hstep
  have hpos : 0 < depthAfter opened.length t := hlength ▸ List.length_pos_iff.2 hne
  cases h with
  | ended outside => exact absurd outside hne
  | stray outside => exact absurd outside hne
  | fault begins unfinished next fault =>
    rw [hlength] at unfinished
    exact .fault (.cons hnext legal begins) (isUnfinished_cons_iff.2 ⟨hpos, unfinished⟩) next fault
  | closed begins depth tokens =>
    rw [hlength] at depth
    exact .closed (.cons hnext legal begins) depth (by rw [tokens, htokens]; simp)
  | cut begins ended depth tokens =>
    rw [hlength] at depth tokens
    exact .cut (.cons hnext legal begins) ended depth (by rw [tokens, htokens]; simp [depth_cons])

theorem readFrom_spelt (h : readFrom opened cs = (form, left)) : Spelt opened cs form left := by
  fun_induction readFrom opened cs with
  | case1 opened cs hnone =>
    cases h
    cases opened with
    | nil => exact .ended rfl hnone
    | cons items outer =>
      obtain ⟨v, hclose, htokens⟩ := closeAll_spells (List.cons_ne_nil items outer)
      rw [hclose]
      exact .cut (.nil cs) hnone (Nat.succ_pos _) (by rw [List.append_nil]; exact htokens)
  | case2 opened cs r rest hnext form' hstep =>
    cases h
    cases hfault : r.fault? with
    | some f =>
      rw [step_of_fault? hfault] at hstep
      cases hstep
      exact .fault (.nil cs) (isUnfinished_nil _) hnext hfault
    | none =>
      obtain ⟨t, rfl⟩ := exists_token_of_fault? hfault
      have hspells := step_spells hnext hfault opened
      rw [hstep] at hspells
      cases form with
      | value v => exact .closed (.singleton hnext hfault) hspells.1 hspells.2
      | stop =>
        obtain ⟨rfl, rfl⟩ := hspells
        exact .stray rfl hnext
      | fault f => exact hspells.elim
  | case3 opened cs r rest hnext opened' hstep ih =>
    cases hfault : r.fault? with
    | some f =>
      rw [step_of_fault? hfault] at hstep
      cases hstep
    | none =>
      obtain ⟨t, rfl⟩ := exists_token_of_fault? hfault
      have hspells := step_spells hnext hfault opened
      rw [hstep] at hspells
      exact .cons hnext hfault hspells (ih h)

theorem read_spelt (h : read cs = (form, left)) : Spelt [] cs form left :=
  readFrom_spelt h

theorem readFrom_of_begins (h : Begins cs ts rest) (hopen : IsUnfinished opened.length ts) :
    ∃ opened', readFrom opened cs = readFrom opened' rest := by
  induction h generalizing opened with
  | nil cs => exact ⟨opened, rfl⟩
  | @cons cs rest left t ts next legal tail ih =>
    obtain ⟨hpos, hopen⟩ := isUnfinished_cons_iff.1 hopen
    have hspells := step_spells next legal opened
    rw [readFrom_of_next? next]
    cases hstep : step opened (.token t) with
    | inl form =>
      rw [hstep] at hspells
      cases form with
      | value v => exact absurd hspells.1 hpos.ne'
      | stop =>
        obtain ⟨rfl, rfl⟩ := hspells
        exact absurd hpos (Nat.lt_irrefl 0)
      | fault f => exact hspells.elim
    | inr opened' =>
      rw [hstep] at hspells
      rw [← hspells.2.1] at hopen
      exact ih hopen

theorem read_of_fault? (h : Begins cs ts rest) (hopen : IsUnfinished 0 ts)
    (hnext : next? rest = some (r, left)) (hfault : r.fault? = some f) :
    read cs = (.fault f, left) := by
  have hopen' : IsUnfinished (List.length ([] : Open)) ts := hopen
  obtain ⟨opened', hread⟩ := readFrom_of_begins h hopen'
  rw [read, hread, readFrom_of_next? hnext, step_of_fault? hfault]

/-- Goes on behind a step, unless the step ended the expression. -/
def resume (rest : List Char) : Form ⊕ Open → Form × List Char
  | .inl form => (form, rest)
  | .inr opened => readFrom opened rest

theorem readFrom_eq_resume (h : next? cs = some (r, rest)) :
    readFrom opened cs = resume rest (step opened r) := by
  rw [readFrom_of_next? h]
  cases step opened r <;> rfl

theorem readFrom_itemTokens {items : List Value}
    (h : ∀ v ∈ items, ∀ opened cs rest, Begins cs v.tokens rest →
      readFrom opened cs = resume rest (place v opened))
    (inner : List Value) (outer : Open) (hbegins : Begins cs (Value.itemTokens items) rest) :
    readFrom (inner :: outer) cs = readFrom ((items.reverse ++ inner) :: outer) rest := by
  induction items generalizing inner cs with
  | nil =>
    cases hbegins
    rfl
  | cons v items ih =>
    obtain ⟨hv, hitems⟩ := List.forall_mem_cons.1 h
    obtain ⟨mid, hmid, hrest⟩ := hbegins.split
    rw [hv (inner :: outer) cs mid hmid]
    show readFrom ((v :: inner) :: outer) mid = _
    rw [ih hitems (v :: inner) hrest]
    simp

/-- The tokens of a tree are read as the tree, whatever lists are open. -/
theorem readFrom_tokens (hv : v.IsTree p) (h : Begins cs v.tokens rest) :
    readFrom opened cs = resume rest (place v opened) := by
  induction hv using Value.IsTree.spelling_induct generalizing opened cs rest with
  | atom v t hv ht hatom =>
    rw [ht] at h
    cases h with
    | cons next legal tail =>
      cases tail
      rw [readFrom_eq_resume next, step_of_atom? hatom]
  | list items each ih =>
    cases h with
    | cons next legal tail =>
      obtain ⟨mid, hitems, hclose⟩ := tail.split
      cases hclose with
      | cons next' legal' tail' =>
        cases tail'
        rw [readFrom_eq_resume next]
        show readFrom ([] :: opened) _ = _
        rw [readFrom_itemTokens (fun v hv opened cs rest => ih v hv) [] opened hitems,
          readFrom_eq_resume next', step_rparen, List.append_nil, List.reverse_reverse]

theorem read_of_tokens (hv : v.IsTree p) (h : Begins cs v.tokens rest) :
    read cs = (.value v, rest) := by
  rw [read, readFrom_tokens hv h]
  rfl

/-- So are they where the end of the text cuts off closing parentheses. -/
theorem read_of_cut_tokens {k : Nat} (hv : v.IsTree fun _ => True) (h : Begins cs ts rest)
    (hended : next? rest = none) (htokens : v.tokens = ts ++ .replicate (k + 1) .rparen) :
    read cs = (.value v, []) := by
  have hfirst : ∀ us, ts ++ .replicate (k + 1) .rparen ≠ .rparen :: us := fun us heq =>
    (hv.tokens_append_ne [] us).1 (by rw [List.append_nil, htokens, heq])
  cases hread : read cs with
  | mk form left =>
    cases read_spelt hread with
    | ended _ hnone =>
      cases h with
      | nil => exact absurd rfl (hfirst _)
      | cons next => rw [next] at hnone; cases hnone
    | stray _ next =>
      obtain ⟨us, rfl, -⟩ := h.exists_append_of_ended hended (.singleton next rfl)
      exact absurd rfl (hfirst _)
    | fault begins unfinished next fault =>
      rw [h.fault?_eq_none_of_ended hended begins next] at fault
      cases fault
    | @closed v' ts' left begins depth tokens =>
      obtain ⟨us, rfl, -⟩ := h.exists_append_of_ended hended begins
      have htail := (hv.tokens_append_inj (a := []) (isTree_of_read hread) (b := us ++ .replicate (k + 1) .rparen)
        (by rw [List.append_nil, htokens, tokens]; simp [Open.tokens])).2
      simp [List.replicate_succ] at htail
    | @cut v' ts' rest' begins ended depth tokens =>
      obtain ⟨rfl, -⟩ := h.eq_of_ended hended begins ended
      -- As many closing parentheses behind each of the two as the other has more.
      generalize Token.depth 0 ts = d at tokens
      have hsame : v.tokens ++ .replicate (d - (k + 1)) .rparen =
          v'.tokens ++ .replicate (k + 1 - d) .rparen := by
        have hcount : k + 1 + (d - (k + 1)) = d + (k + 1 - d) := by omega
        rw [htokens, tokens]
        simp only [Open.tokens, List.nil_append, List.append_assoc,
          ← List.replicate_add, hcount]
      obtain ⟨rfl, -⟩ := hv.tokens_append_inj (isTree_of_read hread) hsame
      rfl

/-! ### The three outcomes -/

/-- There is no expression where the text ends or a list is closed that is not open. -/
theorem read_eq_stop_iff : read cs = (.stop, left) ↔
    next? cs = none ∧ left = [] ∨ next? cs = some (.token .rparen, left) := by
  constructor
  · intro hread
    cases read_spelt hread with
    | ended _ hnone => exact .inl ⟨hnone, rfl⟩
    | stray _ next => exact .inr next
  · rintro (⟨hnone, rfl⟩ | hnext)
    · rw [read, readFrom_of_next?_eq_none hnone]
      rfl
    · rw [read, readFrom_of_next? hnext]
      rfl

/-- Faults are met where the tokens before them are no whole expression yet. -/
theorem read_eq_fault_iff : read cs = (.fault f, left) ↔
    ∃ ts rest r, Begins cs ts rest ∧ IsUnfinished 0 ts ∧ next? rest = some (r, left) ∧
      r.fault? = some f := by
  constructor
  · intro hread
    cases read_spelt hread with
    | fault begins unfinished next fault => exact ⟨_, _, _, begins, unfinished, next, fault⟩
  · rintro ⟨ts, rest, r, hbegins, hopen, hnext, hfault⟩
    exact read_of_fault? hbegins hopen hnext hfault

/-- What is read is the one tree whose tokens are those of the text, up to closing parentheses that the
end of the text cuts off. -/
theorem read_eq_value_iff : read cs = (.value v, left) ↔
    v.IsTree (fun _ => True) ∧ ∃ ts rest k, Begins cs ts rest ∧
      v.tokens = ts ++ .replicate k .rparen ∧
      (k = 0 ∧ left = rest ∨ 0 < k ∧ next? rest = none ∧ left = []) := by
  constructor
  · intro hread
    refine ⟨isTree_of_read hread, ?_⟩
    cases read_spelt hread with
    | @closed v ts left begins depth tokens =>
      exact ⟨ts, left, 0, begins, by rw [tokens]; simp [Open.tokens], .inl ⟨rfl, rfl⟩⟩
    | @cut v ts rest begins ended depth tokens =>
      exact ⟨ts, rest, _, begins, by rw [tokens]; simp [Open.tokens], .inr ⟨depth, ended, rfl⟩⟩
  · rintro ⟨htree, ts, rest, k, hbegins, htokens, ⟨rfl, rfl⟩ | ⟨hk, hended, rfl⟩⟩
    · rw [List.replicate_zero, List.append_nil] at htokens
      rw [← htokens] at hbegins
      exact read_of_tokens htree hbegins
    · obtain ⟨k, rfl⟩ := Nat.exists_eq_add_of_le' hk
      exact read_of_cut_tokens htree hbegins hended htokens

end Form
end SnapLisp
