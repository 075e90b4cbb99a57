/-
  Expressions — which placeholders calls and conversions carry.

  The names of functions and of types are written as they are.  Such a text is
  `Unmarked` if it leaves no quote open and spells no placeholder; then all that is
  carried by a call or a conversion is carried by what is put into it.

  * `Unmarked.carries` and `Unmarked.carries_open`: such a text carries nothing, also
    right in front of a parenthesis;
  * `Carries.convert`, `CarryAll.call` and `Carries.aggregate` say what is carried by
    what is written with such names.
-/
import SqlCompose.Proofs.Growth
import Mathlib.Data.List.Infix

namespace SqlCompose

namespace Template

open Fragment

/-! ## Texts that are written as they are -/

/-- A text that, outside of its spans, has no quote and neither of the signs that
    begin a placeholder. -/
structure Unmarked (t : Text) : Prop where
  unquoted : (outside (ofText t)).Unquoted
  ordinalSign : ¬ Marking.standard.ordinalSign <:+: outside (ofText t)
  namedSign : ¬ Marking.standard.namedSign <:+: outside (ofText t)

instance (t : Text) : Decidable (Unmarked t) :=
  decidable_of_iff ((outside (ofText t)).Unquoted ∧
      ¬ Marking.standard.ordinalSign <:+: outside (ofText t) ∧
        ¬ Marking.standard.namedSign <:+: outside (ofText t))
    ⟨fun ⟨h, ho, hn⟩ => ⟨h, ho, hn⟩, fun ⟨h, ho, hn⟩ => ⟨h, ho, hn⟩⟩

theorem isInfix_outside {w : Text} {ps : Template} (h : .word w ∈ ps) : w <:+: outside ps := by
  obtain ⟨qs, rs, rfl⟩ := List.append_of_mem h
  refine ⟨outside qs, outside rs, ?_⟩
  simp only [outside, List.flatMap_append, List.flatMap_cons, List.append_assoc]

theorem closed_of_unquoted {ps : Template} (h : (outside ps).Unquoted) : Closed ps := by
  intro w hw
  have hmem := (isInfix_outside hw).subset
  exact ⟨fun hc => h.1 (hmem hc), fun hc => h.2 (hmem hc)⟩

variable {t u : Text} {ms ns : List Text}

theorem Unmarked.carries (h : Unmarked t) : Carries t [] where
  closed := closed_of_unquoted h.unquoted
  placeholders_eq := by
    apply placeholders_eq_nil
    intro w hw h'
    rcases Marking.isPrefix_of_isPlaceholder h' with hs | hs
    · exact h.ordinalSign (hs.isInfix.trans (isInfix_outside hw))
    · exact h.namedSign (hs.isInfix.trans (isInfix_outside hw))

/-- A text that carries nothing because all its characters are bare. -/
theorem Inert.unmarked (h : Inert t) : Unmarked t where
  unquoted := ⟨fun hc => (h _ hc).1 rfl, fun hc => (h _ hc).2.1 rfl⟩
  ordinalSign hs := (h '$' (hs.subset (by simp [Marking.standard]))).2.2 rfl
  namedSign hs := (h '$' (hs.subset (by simp [Marking.standard]))).2.2 rfl

/-- Behind a text without open quotes a character is read as it stands there. -/
theorem outside_ofText_concat {c : Char} (hspace : c ≠ ' ') (h₁ : c ≠ '\'') (h₂ : c ≠ '"')
    (h : (outside (ofText t)).Unquoted) :
    outside (ofText (t ++ [c])) = outside (ofText t) ++ [c] := by
  fun_induction ofText t with
  | case1 =>
    rw [List.nil_append, ofText_of_span?_eq_none (span?_eq_none_of_ne h₁ h₂), if_neg hspace,
      outside_consChar, ofText]
    rfl
  | case2 d r p hs ih =>
    have halike : Alike p.2 (p.2 ++ [c]) := alike_append (by simp [h₁.symm]) (by simp [h₂.symm])
    have htext := eq_append_of_span? hs
    rw [htext] at hs
    rw [htext, List.append_assoc, ofText_of_span? (span?_append_of_alike halike hs)]
    exact ih h
  | case3 r hs ih =>
    rw [List.cons_append, ofText_space]
    exact ih h
  | case4 d r hs hd ih =>
    rw [outside_consChar] at h
    have hd₁ : d ≠ '\'' := fun he => h.1 (by simp [he])
    have hd₂ : d ≠ '"' := fun he => h.2 (by simp [he])
    have hr : (outside (ofText r)).Unquoted :=
      ⟨fun hc => h.1 (List.mem_cons_of_mem d hc), fun hc => h.2 (List.mem_cons_of_mem d hc)⟩
    rw [List.cons_append, ofText_of_span?_eq_none (span?_eq_none_of_ne hd₁ hd₂), if_neg hd,
      outside_consChar, outside_consChar, ih hr, List.cons_append]

/-- A sign does not begin in a text and end with a parenthesis behind it. -/
theorem not_isInfix_concat {sign : Text} (hne : sign ≠ []) (hp : sign.getLast? ≠ some '(')
    (h : ¬ sign <:+: t) : ¬ sign <:+: t ++ ['('] := by
  rw [List.infix_concat_iff]
  rintro (hs | hs)
  · rcases List.suffix_concat_iff.1 hs with he | ⟨s, rfl, -⟩
    · exact hne he
    · exact hp (by simp)
  · exact h hs

/-- A name stays unmarked in front of its opening parenthesis. -/
theorem Unmarked.carries_open (h : Unmarked t) : Carries (t ++ ['(']) [] := by
  have hout := outside_ofText_concat (c := '(') (by decide) (by decide) (by decide) h.unquoted
  refine Unmarked.carries ⟨?_, ?_, ?_⟩
  · rw [hout]
    constructor
    · simpa using h.unquoted.1
    · simpa using h.unquoted.2
  · rw [hout]
    exact not_isInfix_concat (by decide) (by decide) h.ordinalSign
  · rw [hout]
    exact not_isInfix_concat (by decide) (by decide) h.namedSign

/-! ## Conversions and calls -/

theorem carries_word {w : Text} (h : ∀ c ∈ w, IsBare c) : Carries w [] := (inert_of_isBare h).carries

theorem Carries.convert (h : Carries t ms) {type : Text} (ht : Unmarked type) :
    Carries (convert t type) ms := by
  have hclose := ht.carries.append_space (u := [')']) (carries_word (by decide))
  have has := h.append_space ((carries_word (w := ['A', 'S']) (by decide)).append_space hclose)
  have := (carries_word (w := ['C', 'A', 'S', 'T', '(']) (by decide)).append_space has
  unfold Fragment.convert
  simpa using this

theorem CarryAll.call {ts : List Text} (h : CarryAll ts ms) {name : Text} (hn : Unmarked name) :
    Carries (call name ts) ms := by
  have hclose : Carries [')'] [] := carries_word (by decide)
  have := hn.carries_open.append_space ((h.intercalate Carries.append_comma).append_space hclose)
  simpa [Fragment.call] using this

theorem Carries.aggregate (h : Carries t ms) {name : Text} (hn : Unmarked name) (distinct : Bool) :
    Carries (aggregate name t distinct) ms := by
  have hclose := h.append_space (u := [')']) (carries_word (by decide))
  cases distinct with
  | false =>
    have := hn.carries_open.append_space hclose
    simpa [Fragment.aggregate] using this
  | true =>
    have hword : Carries ['D', 'I', 'S', 'T', 'I', 'N', 'C', 'T'] [] := carries_word (by decide)
    have := hn.carries_open.append_space (hword.append_space hclose)
    simpa [Fragment.aggregate] using this

end Template

end SqlCompose
