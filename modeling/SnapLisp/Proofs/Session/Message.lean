import SnapLisp.Proofs.Number.RoundTrip
import SnapLisp.Proofs.Session.Sound

/-!
# Characters of answers

What a session writes of its own is visible ASCII: the words of a message, the digits and points of a
number, the parentheses and blanks of a list, the names in a dump. All other characters of an answer
come from texts, and those are characters of sources. So a property of the visible characters and of
all sources is one of the answers as well (`Session.Answer.IsSound.chars`).
-/

namespace SnapLisp

/-- Whether a character is one from the space to the tilde. -/
def isVisible (c : Char) : Bool :=
  ' ' ≤ c && c ≤ '~'

/-- The visible characters have the property. -/
def HoldsOnVisible (p : Char → Prop) : Prop :=
  ∀ c, isVisible c = true → p c

theorem isVisible_iff {c : Char} : isVisible c = true ↔ 32 ≤ c.toNat ∧ c.toNat ≤ 126 := by
  simp [isVisible, Char.le_def, UInt32.le_iff_toNat_le]

theorem isVisible_of_continues {c : Char} (h : Numeral.continues c = true) : isVisible c = true := by
  rcases Bool.or_eq_true_iff.1 h with hdigit | hpoint
  · have hc := isDigit_iff.1 hdigit
    exact isVisible_iff.2 (by omega)
  · rw [eq_of_beq hpoint]
    decide

theorem isVisible_write (x : Binary64) : (Layout.plain.write x).all isVisible = true := by
  cases x with
  | nan => decide
  | signed negative rank hle =>
    by_cases hfinite : (Binary64.signed negative rank hle).IsFinite
    · obtain ⟨whole, fraction, htext, -, hwhole, hfraction, -⟩ := exists_write hfinite
      have hsign : (signText negative).all isVisible = true := by cases negative <;> decide
      have hpointed := Numeral.continues_of_mem_pointed hwhole hfraction
      rw [htext, List.all_append, hsign]
      exact List.all_eq_true.2 fun c hc => isVisible_of_continues (hpointed c hc)
    · have hrank : rank = infinityRank := by
        have hnot : ¬ rank < infinityRank := hfinite
        omega
      subst hrank
      rw [Layout.write, Layout.magnitude, if_pos rfl]
      cases negative <;> decide

theorem mem_of_mem_intercalate {sep : List Char} {texts : List (List Char)} {c : Char}
    (h : c ∈ sep.intercalate texts) : c ∈ sep ∨ ∃ text ∈ texts, c ∈ text := by
  induction texts with
  | nil => cases h
  | cons text texts ih =>
    by_cases hne : texts = []
    · subst hne
      rw [List.intercalate_singleton] at h
      exact .inr ⟨text, List.mem_cons_self, h⟩
    · rw [List.intercalate_cons_of_ne_nil hne, List.mem_append, List.mem_append] at h
      rcases h with (htext | hsep) | hrest
      · exact .inr ⟨text, List.mem_cons_self, htext⟩
      · exact .inl hsep
      · exact (ih hrest).imp_right fun ⟨t, ht, hc⟩ => ⟨t, List.mem_cons_of_mem _ ht, hc⟩

namespace HoldsOnVisible
variable {p : Char → Prop} (hp : HoldsOnVisible p)
include hp

theorem all {cs : List Char} (h : cs.all isVisible = true) : ∀ c ∈ cs, p c :=
  fun c hc => hp c (List.all_eq_true.1 h c hc)

theorem spellsNames : SpellsNames p := by
  intro name hname
  cases hname with
  | operator mem =>
    simp only [List.mem_cons, List.not_mem_nil, or_false] at mem
    rcases mem with rfl | rfl | rfl | rfl <;> exact hp.all rfl
  | word _ capitals _ =>
    intro c hc
    have hcapital := isCapital_iff.1 (capitals c hc)
    exact hp c (isVisible_iff.2 (by omega))

theorem intercalate_blank {texts : List (List Char)} (h : ∀ text ∈ texts, ∀ c ∈ text, p c) :
    ∀ c ∈ [' '].intercalate texts, p c := by
  intro c hc
  rcases mem_of_mem_intercalate hc with hblank | ⟨text, htext, hc⟩
  · rw [List.mem_singleton.1 hblank]
    exact hp ' ' (by decide)
  · exact h text htext c hc

end HoldsOnVisible

/-! ### Texts -/

namespace Value
variable {p : Char → Prop}

/-- The characters of the value's text have the property. -/
def PrintsIn (p : Char → Prop) (v : Value) : Prop :=
  ∀ text, v.print? = some text → ∀ c ∈ text, p c

theorem PrintsIn.printed? {v : Value} (h : v.PrintsIn p) {text : String}
    (htext : v.printed? = some text) : ∀ c ∈ text.toList, p c := by
  obtain ⟨cs, hcs, rfl⟩ := Option.map_eq_some_iff.1 htext
  rw [String.toList_ofList]
  exact h cs hcs

theorem PrintsIn.of_print? {v : Value} {text : List Char} (hprint : v.print? = some text)
    (h : ∀ c ∈ text, p c) : v.PrintsIn p := by
  intro text' htext'
  cases hprint.symm.trans htext'
  exact h

theorem PrintsIn.items {items : List Value} (h : ∀ v ∈ items, v.PrintsIn p) {texts : List (List Char)}
    (htexts : printItems? items = some texts) : ∀ text ∈ texts, ∀ c ∈ text, p c := by
  induction items generalizing texts with
  | nil =>
    cases htexts
    simp
  | cons v items ih =>
    obtain ⟨hv, hitems⟩ := List.forall_mem_cons.1 h
    rw [printItems?] at htexts
    split at htexts
    · rename_i text texts' htext htexts'
      cases htexts
      exact List.forall_mem_cons.2 ⟨hv text htext, ih hitems htexts'⟩
    · cases htexts

variable (hp : HoldsOnVisible p)
include hp

theorem PrintsIn.list {items : List Value} (h : ∀ v ∈ items, v.PrintsIn p) :
    (list items).PrintsIn p := by
  intro text htext
  rw [print?] at htext
  obtain ⟨texts, htexts, rfl⟩ := Option.map_eq_some_iff.1 htext
  have hitems := hp.intercalate_blank (PrintsIn.items h htexts)
  have hclose : ∀ c ∈ [')'], p c := hp.all (by decide)
  exact List.forall_mem_cons.2 ⟨hp '(' (by decide), List.forall_mem_append.2 ⟨hitems, hclose⟩⟩

theorem IsTree.printsIn {v : Value} (h : v.IsTree p) : v.PrintsIn p := by
  induction h with
  | number x => exact .of_print? rfl (hp.all (isVisible_write x))
  | text chars => exact .of_print? rfl chars
  | symbol isName => exact .of_print? rfl (hp.spellsNames _ isName)
  | nil | truth => exact .of_print? rfl (hp.all (by decide))
  | list _ ih => exact .list hp ih

theorem IsResult.printsIn {v : Value} (h : v.IsResult p) : v.PrintsIn p := by
  cases h with
  | number x => exact .of_print? rfl (hp.all (isVisible_write x))
  | text chars => exact .of_print? rfl chars
  | nil | truth | builtin | lambda => exact .of_print? rfl (hp.all (by decide))

end Value

variable {p : Char → Prop} (hp : HoldsOnVisible p)
include hp

namespace Environment

theorem chars_printEntries? {entries : List (Key × Value)}
    (hkeys : ∀ e ∈ entries, ∃ name, e.1 = .symbol name ∧ IsName name)
    (hvalues : ∀ e ∈ entries, e.2.PrintsIn p) {texts : List (List Char)}
    (htexts : printEntries? entries = some texts) : ∀ text ∈ texts, ∀ c ∈ text, p c := by
  induction entries generalizing texts with
  | nil =>
    cases htexts
    simp
  | cons e entries ih =>
    obtain ⟨⟨name, hname, isName⟩, hkeys⟩ := List.forall_mem_cons.1 hkeys
    obtain ⟨hv, hvalues⟩ := List.forall_mem_cons.1 hvalues
    rw [printEntries?] at htexts
    split at htexts
    · rename_i text texts' htext htexts'
      cases htexts
      refine List.forall_mem_cons.2 ⟨?_, ih hkeys hvalues htexts'⟩
      rw [hname]
      refine List.forall_mem_append.2 ⟨hp.spellsNames name isName, ?_⟩
      exact List.forall_mem_cons.2 ⟨hp '=' (by decide), hv text htext⟩
    · cases htexts

theorem IsSound.chars_printed? {env : Environment} (h : env.IsSound p) {dump : String}
    (hdump : env.printed? = some dump) : ∀ c ∈ dump.toList, p c := by
  obtain ⟨texts, htexts, rfl⟩ := Option.map_eq_some_iff.1 hdump
  rw [String.toList_ofList]
  refine hp.intercalate_blank (chars_printEntries? hp (fun e he => (h e he).1) ?_ htexts)
  exact fun e he => (h e he).2.printsIn hp

end Environment

/-! ### Messages -/

omit hp in
theorem chars_append {s t : String} (hs : ∀ c ∈ s.toList, p c) (ht : ∀ c ∈ t.toList, p c) :
    ∀ c ∈ (s ++ t).toList, p c := by
  rw [String.toList_append]
  exact List.forall_mem_append.2 ⟨hs, ht⟩

theorem Fault.Arises.chars_message {fault : Fault} (h : fault.Arises p) :
    ∀ c ∈ fault.message.toList, p c := by
  cases h with
  | unbound isName sound printed =>
    refine chars_append ?_ (sound.chars_printed? hp printed)
    refine chars_append ?_ (hp.all (by decide))
    exact chars_append (hp.all (by decide)) (hp.spellsNames _ isName)
  | emptyForm | setqWithoutTarget | setqTarget | setqWithoutValue | defunLength | argumentCount
  | noNumbers | depthExceeded => exact hp.all (by decide)
  | notApplicable head printed =>
    exact chars_append (hp.all (by decide)) ((head.printsIn hp).printed? printed)
  | defunName tree printed | defunParams tree printed =>
    exact chars_append (hp.all (by decide)) ((tree.printsIn hp).printed? printed)
  | defunParam tree printed =>
    exact chars_append ((tree.printsIn hp).printed? printed) (hp.all (by decide))
  | notNumber argument printed =>
    exact chars_append ((argument.printsIn hp).printed? printed) (hp.all (by decide))

/-- Of the faults in reading only the illegal characters are reported. -/
theorem Fault.IsMet.chars_message {fault : Fault} (h : fault.IsMet p)
    (hreported : fault.kind.isReported = true) : ∀ c ∈ fault.message.toList, p c := by
  cases fault with
  | unreadable fault =>
    cases fault with
    | illegalCharacter c =>
      refine chars_append (hp.all (by decide)) ?_
      rw [Char.toString, String.toList_singleton]
      exact List.forall_mem_singleton.2 h
    | malformedNumeral numeral => cases hreported
  | _ => exact Fault.Arises.chars_message hp h

/-- The characters of an answer to a line have every property that the visible characters and those of
all sources have. -/
theorem Session.Answer.IsSound.chars {line : List Char} {text : String}
    (h : Answer.IsSound p (.runLine line) (.text text)) : ∀ c ∈ text.toList, p c := by
  rcases h with ⟨v, hv, htext⟩ | ⟨fault, hfault, hreported, rfl⟩
  · exact (hv.printsIn hp).printed? htext
  · exact hfault.chars_message hp hreported

end SnapLisp
