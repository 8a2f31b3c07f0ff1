import SnapLisp.Proofs.Environment.Insert

/-!
# Two environments side by side

`SameBindings` relates environments that differ in the order of their bindings only, `SameApartFrom`
those that differ in one name only. A symbol has the value that it is an entry with (`get?_symbol_iff`),
and binding it is, up to the order, adding an entry to those of the other keys (`insertEntry_perm`). So
binding the same in both environments keeps either relation, and related environments give a symbol the
same value; whether there is a dump depends on the values alone (`exists_printed?_iff`).
-/

namespace SnapLisp

variable {entries : List (Key × Value)} {name : String} {v : Value}

/-- The entries of all keys but the symbol. -/
def otherEntries (name : String) (entries : List (Key × Value)) : List (Key × Value) :=
  entries.filter fun e => !e.1.same (.symbol name)

theorem mem_otherEntries {e : Key × Value} :
    e ∈ otherEntries name entries ↔ e ∈ entries ∧ e.1 ≠ .symbol name := by
  rw [otherEntries, List.mem_filter, Bool.not_eq_true', Bool.eq_false_iff, ne_eq,
    Key.same_symbol_iff]

theorem otherEntries_eq_self (h : ∀ e ∈ entries, e.1 ≠ .symbol name) :
    otherEntries name entries = entries := by
  refine List.filter_eq_self.2 fun e he => ?_
  rw [Bool.not_eq_true', Bool.eq_false_iff, ne_eq, Key.same_symbol_iff]
  exact h e he

theorem otherEntries_insertEntry_self (value : Value) :
    otherEntries name (insertEntry (.symbol name) value entries) = otherEntries name entries :=
  filter_insertEntry_of_same (Key.same_symbol_iff.2 rfl)

theorem otherEntries_insertEntry_of_ne {n : String} (hne : n ≠ name) (value : Value) :
    otherEntries name (insertEntry (.symbol n) value entries) =
      insertEntry (.symbol n) value (otherEntries name entries) := by
  refine filter_insertEntry_of_not_same ?_
  rw [Bool.eq_false_iff, ne_eq, Key.same_symbol_iff]
  exact fun heq => hne (Key.symbol_inj.1 heq)

/-- The entry of a symbol that is bound, in front of the others. -/
theorem insertEntry_perm (h : KeysDistinct entries) (name : String) (value : Value) :
    (insertEntry (.symbol name) value entries).Perm
      ((.symbol name, value) :: otherEntries name entries) := by
  induction entries with
  | nil => exact .refl _
  | cons e entries ih =>
    obtain ⟨k, w⟩ := e
    obtain ⟨hk, hentries⟩ := List.pairwise_cons.1 h
    rw [insertEntry]
    split
    · rename_i hsame
      obtain rfl := Key.same_symbol_iff.1 hsame
      have hothers : otherEntries name entries = entries := by
        refine otherEntries_eq_self fun e he hkey => ?_
        have hne := hk e he
        rw [hkey, hsame] at hne
        cases hne
      have hdrop : otherEntries name ((.symbol name, w) :: entries) = otherEntries name entries := by
        simp [otherEntries, hsame]
      rw [hdrop, hothers]
    · rename_i hsame
      have hkeep : otherEntries name ((k, w) :: entries) = (k, w) :: otherEntries name entries := by
        simp [otherEntries, hsame]
      rw [hkeep]
      exact ((ih hentries).cons (k, w)).trans (.swap ..)

theorem find?_symbol_iff (h : KeysDistinct entries) :
    (entries.find? fun e => e.1.same (.symbol name)).map (·.2) = some v ↔
      (.symbol name, v) ∈ entries := by
  induction entries with
  | nil => simp
  | cons e entries ih =>
    obtain ⟨k, w⟩ := e
    obtain ⟨hk, hentries⟩ := List.pairwise_cons.1 h
    by_cases hsame : k.same (.symbol name) = true
    · obtain rfl := Key.same_symbol_iff.1 hsame
      have hnot : (Key.symbol name, v) ∉ entries := fun hmem => by
        have hne := hk _ hmem
        rw [hsame] at hne
        cases hne
      simp [hsame, hnot, eq_comm]
    · have hne : Key.symbol name ≠ k := fun heq => hsame (Key.same_symbol_iff.2 heq.symm)
      simp [hsame, hne, ih hentries]

namespace Environment
variable {env env' : Environment}

theorem get?_symbol_iff : env.get? (.symbol name) = some v ↔ (.symbol name, v) ∈ env.entries :=
  find?_symbol_iff env.distinct

theorem get?_eq_none_iff :
    env.get? (.symbol name) = none ↔ ∀ e ∈ env.entries, e.1 ≠ .symbol name := by
  simp only [get?, Option.map_eq_none_iff, List.find?_eq_none, Key.same_symbol_iff, ne_eq]

/-! ### Dumps -/

theorem exists_printEntries?_iff :
    (∃ texts, printEntries? entries = some texts) ↔ ∀ e ∈ entries, ∃ text, e.2.print? = some text := by
  induction entries with
  | nil => simp [printEntries?]
  | cons e entries ih =>
    rw [List.forall_mem_cons, ← ih, printEntries?]
    cases e.2.print? with
    | none => simp
    | some text => cases printEntries? entries <;> simp

theorem exists_printed?_iff :
    (∃ dump, env.printed? = some dump) ↔ ∀ e ∈ env.entries, ∃ text, e.2.print? = some text := by
  rw [← exists_printEntries?_iff, printed?]
  cases printEntries? env.entries <;> simp

theorem printed?_eq_none (hget : env.get? (.symbol name) = some v) (hv : v.print? = none) :
    env.printed? = none := by
  refine Option.eq_none_iff_forall_ne_some.2 fun dump hdump => ?_
  obtain ⟨text, htext⟩ := exists_printed?_iff.1 ⟨dump, hdump⟩ _ (get?_symbol_iff.1 hget)
  cases hv.symm.trans htext

/-! ### The same bindings in another order -/

def SameBindings (env env' : Environment) : Prop :=
  env.entries.Perm env'.entries

namespace SameBindings

theorem get?_eq (h : env.SameBindings env') (name : String) :
    env.get? (.symbol name) = env'.get? (.symbol name) := by
  refine Option.ext fun v => ?_
  rw [get?_symbol_iff, get?_symbol_iff, h.mem_iff]

theorem exists_printed?_iff (h : env.SameBindings env') :
    (∃ dump, env.printed? = some dump) ↔ ∃ dump, env'.printed? = some dump := by
  rw [Environment.exists_printed?_iff, Environment.exists_printed?_iff]
  constructor
  · intro hall e he
    exact hall e (h.mem_iff.2 he)
  · intro hall e he
    exact hall e (h.mem_iff.1 he)

theorem insert (h : env.SameBindings env') (name : String) (v : Value) :
    (env.insert (.symbol name) v).SameBindings (env'.insert (.symbol name) v) := by
  have hothers : (otherEntries name env.entries).Perm (otherEntries name env'.entries) := h.filter _
  refine (insertEntry_perm env.distinct name v).trans ((hothers.cons _).trans ?_)
  exact (insertEntry_perm env'.distinct name v).symm

/-- Two symbols can be bound in either order. -/
theorem insert_comm (env : Environment) {n : String} (hne : n ≠ name) (v w : Value) :
    ((env.insert (.symbol n) w).insert (.symbol name) v).SameBindings
      ((env.insert (.symbol name) v).insert (.symbol n) w) := by
  have hsecond : ∀ {a b : String}, a ≠ b → ∀ x y : Value,
      ((env.insert (.symbol a) x).insert (.symbol b) y).entries.Perm
        ((.symbol b, y) :: (.symbol a, x) :: otherEntries a (otherEntries b env.entries)) := by
    intro a b hab x y
    refine (insertEntry_perm (env.insert (.symbol a) x).distinct b y).trans (.cons _ ?_)
    show (otherEntries b (insertEntry (.symbol a) x env.entries)).Perm _
    rw [otherEntries_insertEntry_of_ne hab]
    exact insertEntry_perm (env.distinct.filter _) a x
  have hothers : otherEntries n (otherEntries name env.entries) =
      otherEntries name (otherEntries n env.entries) := by
    simp only [otherEntries, List.filter_filter, Bool.and_comm]
  refine (hsecond hne w v).trans (.trans ?_ (hsecond hne.symm v w).symm)
  rw [hothers]
  exact .swap ..

end SameBindings

/-! ### The same bindings apart from one name -/

/-- If the name is bound, its value has a text. -/
def Shows (env : Environment) (name : String) : Prop :=
  ∀ v, env.get? (.symbol name) = some v → ∃ text, v.print? = some text

/-- The entries of other names are the same, and the value of this one does not stand in the way of a
dump in one environment only. -/
structure SameApartFrom (name : String) (env env' : Environment) : Prop where
  others : otherEntries name env.entries = otherEntries name env'.entries
  shown : env.Shows name ↔ env'.Shows name

theorem exists_printed?_iff_shows (env : Environment) (name : String) :
    (∃ dump, env.printed? = some dump) ↔
      (∀ e ∈ otherEntries name env.entries, ∃ text, e.2.print? = some text) ∧ env.Shows name := by
  rw [exists_printed?_iff]
  constructor
  · intro hall
    exact ⟨fun e he => hall e (mem_otherEntries.1 he).1,
      fun v hv => hall _ (get?_symbol_iff.1 hv)⟩
  · rintro ⟨hothers, hshown⟩ ⟨key, v⟩ he
    by_cases hkey : key = .symbol name
    · subst hkey
      exact hshown v (get?_symbol_iff.2 he)
    · exact hothers _ (mem_otherEntries.2 ⟨he, hkey⟩)

namespace SameApartFrom

theorem get?_eq (h : SameApartFrom name env env') {n : String} (hne : n ≠ name) :
    env.get? (.symbol n) = env'.get? (.symbol n) := by
  have hkey : Key.symbol n ≠ .symbol name := fun heq => hne (Key.symbol_inj.1 heq)
  have hmem : ∀ {env : Environment} {v : Value}, (.symbol n, v) ∈ env.entries ↔
      (.symbol n, v) ∈ otherEntries name env.entries := by
    intro env v
    rw [mem_otherEntries]
    exact (and_iff_left hkey).symm
  refine Option.ext fun v => ?_
  rw [get?_symbol_iff, get?_symbol_iff, hmem, h.others, hmem]

theorem exists_printed?_iff (h : SameApartFrom name env env') :
    (∃ dump, env.printed? = some dump) ↔ ∃ dump, env'.printed? = some dump := by
  rw [exists_printed?_iff_shows env name, exists_printed?_iff_shows env' name, h.others,
    h.shown]

theorem of_insert (henv : env.Shows name) (hv : ∃ text, v.print? = some text) :
    SameApartFrom name env (env.insert (.symbol name) v) := by
  refine ⟨(otherEntries_insertEntry_self v).symm, iff_of_true henv fun w hw => ?_⟩
  rw [get?_insert_self] at hw
  cases hw
  exact hv

theorem insert (h : SameApartFrom name env env') (n : String) (v : Value) :
    SameApartFrom name (env.insert (.symbol n) v) (env'.insert (.symbol n) v) := by
  by_cases hn : n = name
  · subst hn
    refine ⟨?_, ?_⟩
    · show otherEntries n (insertEntry ..) = otherEntries n (insertEntry ..)
      rw [otherEntries_insertEntry_self, otherEntries_insertEntry_self, h.others]
    · simp only [Shows, get?_insert_self]
  · have hkey : Key.symbol name ≠ .symbol n := fun heq => hn (Key.symbol_inj.1 heq).symm
    refine ⟨?_, ?_⟩
    · show otherEntries name (insertEntry ..) = otherEntries name (insertEntry ..)
      rw [otherEntries_insertEntry_of_ne hn, otherEntries_insertEntry_of_ne hn, h.others]
    · simp only [Shows, get?_insert_of_ne hkey]
      exact h.shown

end SameApartFrom

end Environment
end SnapLisp
