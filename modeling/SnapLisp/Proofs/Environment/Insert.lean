import SnapLisp.Environment.Basic
import SnapLisp.Proofs.Environment.Key

/-!
# Binding keys

What `Environment.insert` does to the entries, the names and the values. Binding a symbol touches one entry
at most, as no other key is the same; binding any key gives the value to the keys that are the same
(`Environment.get?_insert`).
-/

namespace SnapLisp
variable {entries : List (Key × Value)} {name : String} {key key' : Key} {value : Value}

theorem mem_insertEntry_cases {e : Key × Value} (h : e ∈ insertEntry key value entries) :
    e.2 = value ∧ (e.1 = key ∨ e.1.same key = true) ∨ e ∈ entries := by
  induction entries with
  | nil =>
    obtain rfl := List.mem_singleton.1 h
    exact .inl ⟨rfl, .inl rfl⟩
  | cons p rest ih =>
    obtain ⟨k, v⟩ := p
    rw [insertEntry] at h
    split at h
    · rename_i hk
      rcases List.mem_cons.1 h with rfl | h
      · exact .inl ⟨rfl, .inr hk⟩
      · exact .inr (List.mem_cons_of_mem _ h)
    · rcases List.mem_cons.1 h with rfl | h
      · exact .inr List.mem_cons_self
      · exact (ih h).imp_right (List.mem_cons_of_mem _)

theorem mem_of_mem_insertEntry {e : Key × Value}
    (h : e ∈ insertEntry (.symbol name) value entries) :
    e = (.symbol name, value) ∨ e ∈ entries := by
  refine (mem_insertEntry_cases h).imp_left fun ⟨hvalue, hkey⟩ => Prod.ext ?_ hvalue
  exact hkey.elim id Key.same_symbol_iff.1

theorem map_fst_insertEntry :
    (insertEntry key value entries).map (·.1) = entries.map (·.1) ∨
      (insertEntry key value entries).map (·.1) = entries.map (·.1) ++ [key] := by
  induction entries with
  | nil => exact .inr rfl
  | cons p rest ih =>
    obtain ⟨k, v⟩ := p
    rw [insertEntry]
    split
    · exact .inl rfl
    · rcases ih with ih | ih
      · exact .inl (by rw [List.map_cons, List.map_cons, ih])
      · exact .inr (by rw [List.map_cons, List.map_cons, ih, List.cons_append])

/-! ### Any keys -/

theorem find?_insertEntry (key : Key) (value : Value) (key' : Key) (entries : List (Key × Value)) :
    ((insertEntry key value entries).find? fun e => e.1.same key').map (·.2) =
      if key.same key' then some value else (entries.find? fun e => e.1.same key').map (·.2) := by
  induction entries with
  | nil => cases h : key.same key' <;> simp [insertEntry, h]
  | cons p rest ih =>
    obtain ⟨k, v⟩ := p
    rw [insertEntry]
    split
    · rename_i hk
      have hkey := Key.same_congr_left hk key'
      cases h : key.same key' <;> simp [hkey, h]
    · rename_i hk
      cases hkey : k.same key' with
      | true =>
        have hne : key.same key' = false :=
          Bool.eq_false_iff.2 fun h => hk (Key.same_trans hkey (Key.same_symm h))
        simp [hkey, hne]
      | false => simpa [hkey] using ih

/-- The entries of the keys apart from this one are not touched. -/
theorem filter_insertEntry_of_same (h : key.same key' = true) :
    ((insertEntry key value entries).filter fun e => !e.1.same key') =
      entries.filter fun e => !e.1.same key' := by
  induction entries with
  | nil => simp [insertEntry, h]
  | cons p rest ih =>
    obtain ⟨k, v⟩ := p
    rw [insertEntry]
    split
    · rename_i hk
      simp [Key.same_trans hk h]
    · cases hkey : k.same key' <;> simp [hkey, ih]

theorem filter_insertEntry_of_not_same (h : key.same key' = false) :
    ((insertEntry key value entries).filter fun e => !e.1.same key') =
      insertEntry key value (entries.filter fun e => !e.1.same key') := by
  induction entries with
  | nil => simp [insertEntry, h]
  | cons p rest ih =>
    obtain ⟨k, v⟩ := p
    rw [insertEntry]
    split
    · rename_i hk
      have hkey : k.same key' = false := (Key.same_congr_left hk key').trans h
      simp [hkey, insertEntry, hk]
    · rename_i hk
      cases hkey : k.same key' <;> simp [hkey, insertEntry, hk, ih]

namespace Environment
variable {env : Environment}

theorem names_insert (env : Environment) (key : Key) (value : Value) :
    (env.insert key value).names = env.names ∨ (env.insert key value).names = env.names ++ [key] :=
  map_fst_insertEntry

theorem get?_insert (env : Environment) (key : Key) (value : Value) (key' : Key) :
    (env.insert key value).get? key' = if key.same key' then some value else env.get? key' :=
  find?_insertEntry key value key' env.entries

theorem get?_insert_of_ne (hne : key ≠ .symbol name) :
    (env.insert (.symbol name) value).get? key = env.get? key := by
  rw [get?_insert, if_neg fun h => hne (Key.symbol_same_iff.1 h)]

theorem get?_insert_self : (env.insert (.symbol name) value).get? (.symbol name) = some value := by
  rw [get?_insert, if_pos (Key.same_symbol_iff.2 rfl)]

end Environment
end SnapLisp
