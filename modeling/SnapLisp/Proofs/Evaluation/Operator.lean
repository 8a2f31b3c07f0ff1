import SnapLisp.Evaluation.Operator

/-!
# Operators on numbers

The builtins are the four operators at their places of the table (`exists_binding`). An operator has a
result if there are arguments and each of them stands for a number, and then it folds these numbers from
the left (`run_eq_ok_iff`).
-/

namespace SnapLisp

/-- The names of the operators have the meaning that they have at first. -/
def Environment.HasOperators (env : Environment) : Prop :=
  ∀ b ∈ Operator.bindings, env.get? b.1 = some b.2

/-- The number that a number or an integer stands for as an argument. -/
def Value.toNumber? : Value → Option Binary64
  | number x => some x
  | integer n => Binary64.ofInt? n
  | _ => none

/-- What a builtin can refuse. -/
inductive Fault.IsRefusal : Fault → Prop
  | notNumber (argument : String) : IsRefusal (.notNumber argument)
  | noNumbers : IsRefusal .noNumbers
  | integerTooLarge : IsRefusal .integerTooLarge
  | noSuchBuiltin : IsRefusal .noSuchBuiltin

theorem Fault.IsRefusal.ne_depthExceeded {fault : Fault} (h : fault.IsRefusal) :
    fault ≠ .depthExceeded := by
  rintro rfl
  cases h

namespace Operator

theorem bindings_eq : bindings = [(.symbol "+", .builtin 0), (.symbol "-", .builtin 1),
    (.symbol "*", .builtin 2), (.symbol "/", .builtin 3)] := rfl

theorem exists_ofIndex {index : Int} (hnonneg : 0 ≤ index) (hlt : index < 4) :
    ∃ op, ofIndex index = .ok op := by
  have hlength : index.toNat < table.length := by
    show index.toNat < 4
    omega
  refine ⟨table[index.toNat], ?_⟩
  simp only [ofIndex, ofIndex?, if_pos hnonneg, List.getElem?_eq_getElem hlength]

theorem exists_binding (op : Operator) :
    ∃ i, (Key.symbol op.name, Value.builtin i) ∈ bindings ∧ ofIndex i = .ok op := by
  rw [bindings_eq]
  cases op with
  | add => exact ⟨0, by simp [name], rfl⟩
  | subtract => exact ⟨1, by simp [name], rfl⟩
  | multiply => exact ⟨2, by simp [name], rfl⟩
  | divide => exact ⟨3, by simp [name], rfl⟩

theorem numbers_number (x : Binary64) (args : List Value) :
    numbers (.number x :: args) = (numbers args).map (x :: ·) := rfl

theorem numbers_integer (n : Int) (args : List Value) : numbers (.integer n :: args) =
    (Binary64.ofInt? n).elim (.error .integerTooLarge) fun x => (numbers args).map (x :: ·) := rfl

/-- Arguments are taken if each stands for a number. -/
theorem checked_numbers_iff {args : List Value} {xs : List Binary64} :
    checkNumbers args = .ok () ∧ numbers args = .ok xs ↔ args.map Value.toNumber? = xs.map some := by
  have hcons : ∀ {args xs} {x : Binary64},
      (numbers args).map (x :: ·) = .ok xs ↔ ∃ xs', numbers args = .ok xs' ∧ x :: xs' = xs := by
    intro args xs x
    cases numbers args <;> simp [Except.map]
  induction args generalizing xs with
  | nil => cases xs <;> simp [checkNumbers, numbers]
  | cons v args ih =>
    have hrest : ∀ {x}, (checkNumbers args = .ok () ∧ (numbers args).map (x :: ·) = .ok xs) ↔
        some x :: args.map Value.toNumber? = xs.map some := by
      intro x
      rw [hcons]
      constructor
      · rintro ⟨hcheck, xs', hxs', rfl⟩
        rw [List.map_cons, ih.1 ⟨hcheck, hxs'⟩]
      · intro hmap
        obtain ⟨x', xs', rfl, hx', hxs'⟩ := List.map_eq_cons_iff.1 hmap.symm
        cases hx'
        obtain ⟨hcheck, hnumbers⟩ := ih.2 hxs'.symm
        exact ⟨hcheck, xs', hnumbers, rfl⟩
    cases v with
    | number x => exact hrest
    | integer n =>
      rw [numbers_integer, List.map_cons, Value.toNumber?]
      cases Binary64.ofInt? n with
      | some x => exact hrest
      | none => cases xs <;> simp
    | flag | text | symbol | list | nil | truth | builtin | lambda | absent =>
      constructor
      · rintro ⟨hcheck, -⟩
        rw [checkNumbers] at hcheck
        · split at hcheck <;> cases hcheck
        all_goals exact nofun
      · intro hmap
        cases xs <;> simp [Value.toNumber?] at hmap

/-- An operator gives a result if there is an argument and each stands for a number. -/
theorem run_eq_ok_iff {op : Operator} {args : List Value} {v : Value} : op.run args = .ok v ↔
    ∃ x xs, args.map Value.toNumber? = (x :: xs).map some ∧ v = .number (xs.foldl op.apply x) := by
  constructor
  · intro h
    unfold run at h
    cases hcheck : checkNumbers args with
    | error fault =>
      rw [hcheck] at h
      cases h
    | ok u =>
      rw [hcheck] at h
      cases hnumbers : numbers args with
      | error fault =>
        rw [hnumbers] at h
        cases h
      | ok xs =>
        rw [hnumbers] at h
        cases xs with
        | nil => cases h
        | cons x xs =>
          cases h
          exact ⟨x, xs, checked_numbers_iff.1 ⟨hcheck, hnumbers⟩, rfl⟩
  · rintro ⟨x, xs, hargs, rfl⟩
    obtain ⟨hcheck, hnumbers⟩ := checked_numbers_iff.2 hargs
    rw [run, hcheck, hnumbers]
    rfl

theorem run_numbers (op : Operator) (x : Binary64) (xs : List Binary64) :
    op.run ((x :: xs).map .number) = .ok (.number (xs.foldl op.apply x)) := by
  refine run_eq_ok_iff.2 ⟨x, xs, ?_, rfl⟩
  rw [List.map_map]
  rfl

/-- Whatever the arguments are, a result is a number. -/
theorem exists_number_of_run {op : Operator} {args : List Value} {v : Value}
    (h : op.run args = .ok v) : ∃ x, v = .number x := by
  obtain ⟨x, xs, -, rfl⟩ := run_eq_ok_iff.1 h
  exact ⟨_, rfl⟩

/-- The last argument can be left to a second run. -/
theorem run_concat_iff {op : Operator} {args : List Value} {last v : Value} (hne : args ≠ []) :
    op.run (args ++ [last]) = .ok v ↔ ∃ u, op.run args = .ok u ∧ op.run [u, last] = .ok v := by
  obtain ⟨first, args, rfl⟩ := List.exists_cons_of_ne_nil hne
  constructor
  · intro h
    obtain ⟨x, xs, hmap, rfl⟩ := run_eq_ok_iff.1 h
    rw [List.map_append] at hmap
    obtain ⟨l, l', hxs, hl, hl'⟩ := List.map_eq_append_iff.1 hmap.symm
    obtain ⟨x', ys, rfl, -, -⟩ := List.map_eq_cons_iff.1 hl
    obtain ⟨z, rfl, hz⟩ := List.map_eq_singleton_iff.1 hl'
    rw [List.cons_append] at hxs
    obtain ⟨rfl, rfl⟩ := List.cons.inj hxs
    refine ⟨.number (ys.foldl op.apply x), run_eq_ok_iff.2 ⟨x, ys, hl.symm, rfl⟩, ?_⟩
    refine run_eq_ok_iff.2 ⟨ys.foldl op.apply x, [z], ?_, ?_⟩
    · simp [Value.toNumber?, hz]
    · rw [List.foldl_append]
  · rintro ⟨u, hu, hv⟩
    obtain ⟨x, ys, hmap, rfl⟩ := run_eq_ok_iff.1 hu
    obtain ⟨y, zs, hlast, rfl⟩ := run_eq_ok_iff.1 hv
    obtain ⟨z, rfl, hz⟩ := List.map_eq_singleton_iff.1 (List.cons.inj hlast).2.symm
    obtain rfl : ys.foldl op.apply x = y := Option.some.inj (List.cons.inj hlast).1
    refine run_eq_ok_iff.2 ⟨x, ys ++ [z], ?_, ?_⟩
    · rw [List.map_append, hmap, ← List.cons_append, List.map_append, List.map_singleton, ← hz]
      rfl
    · rw [List.foldl_append]

/-- An integer is converted, and one that has no number is refused. -/
theorem run_integer (op : Operator) (n : Int) : op.run [.integer n] =
    (Binary64.ofInt? n).elim (.error .integerTooLarge) fun x => .ok (.number x) := by
  unfold run
  rw [numbers_integer]
  cases Binary64.ofInt? n <;> rfl

/-! ### Faults -/

theorem ofIndex_fault {index : Int} {fault : Fault} (h : ofIndex index = .error fault) :
    fault.IsRefusal := by
  unfold ofIndex at h
  split at h
  · cases h
  · cases h
    exact .noSuchBuiltin

theorem checkNumbers_fault {args : List Value} {fault : Fault} (h : checkNumbers args = .error fault) :
    fault.IsRefusal := by
  fun_induction checkNumbers args with
  | case1 => cases h
  | case2 rest x ih => exact ih h
  | case3 rest n ih => exact ih h
  | case4 v rest _ _ text htext =>
    cases h
    exact .notNumber text
  | case5 =>
    cases h
    exact .integerTooLarge

theorem numbers_fault {args : List Value} {fault : Fault} (h : numbers args = .error fault) :
    fault = .integerTooLarge := by
  have hmap : ∀ {rest : List Value} {x : Binary64}, (numbers rest).map (x :: ·) = .error fault →
      numbers rest = .error fault := by
    intro rest x hrest
    cases hnumbers : numbers rest with
    | ok xs =>
      rw [hnumbers] at hrest
      cases hrest
    | error fault' =>
      rw [hnumbers] at hrest
      cases hrest
      rfl
  fun_induction numbers args with
  | case1 => cases h
  | case2 x rest ih => exact ih (hmap h)
  | case3 n rest ih =>
    cases hn : Binary64.ofInt? n with
    | some x =>
      rw [hn] at h
      exact ih (hmap h)
    | none =>
      rw [hn] at h
      cases h
      rfl
  | case4 v rest _ _ ih => exact ih h

theorem run_fault {op : Operator} {args : List Value} {fault : Fault} (h : op.run args = .error fault) :
    fault.IsRefusal := by
  unfold run at h
  cases hcheck : checkNumbers args with
  | error fault' =>
    rw [hcheck] at h
    cases h
    exact checkNumbers_fault hcheck
  | ok u =>
    rw [hcheck] at h
    cases hnumbers : numbers args with
    | error fault' =>
      rw [hnumbers] at h
      cases h
      rw [numbers_fault hnumbers]
      exact .integerTooLarge
    | ok xs =>
      rw [hnumbers] at h
      cases xs with
      | nil =>
        cases h
        exact .noNumbers
      | cons x xs => cases h

end Operator

theorem Environment.register_hasOperators : empty.register.HasOperators := by
  intro b hb
  rw [Operator.bindings_eq] at hb
  simp only [List.mem_cons, List.not_mem_nil, or_false] at hb
  rcases hb with rfl | rfl | rfl | rfl <;> rfl

end SnapLisp
