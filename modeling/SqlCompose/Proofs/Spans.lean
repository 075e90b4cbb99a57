/-
  Spans — where quoted spans end, whatever follows them.

  A span is found by looking ahead, so a change of the text behind it could move
  its end, and a change behind a stray quote could make it open a span.

  * `literalTail?_append`: the end of a literal does not depend on what follows;
  * `isSome_nameTail?`: a name closes iff a double quote is left, and
    `nameTail?_append` that its end stays unless what follows `Reopens` it;
  * `quotes_of_span?`: a span ends with the quote that it begins with;
  * `Alike` holds of two texts that no quote in front of them tells apart, and
    `span?_append_of_alike` and `span?_eq_none_of_alike` exchange such texts
    behind a span and behind a stray quote;
  * `alike_runs`: runs of plain characters may be exchanged, and `alike_append`:
    a text without quotes may be added at the end.
-/
import SqlCompose.Template
import Mathlib.Data.List.Basic

namespace SqlCompose.Template

/-! ## Literals -/

theorem literalTail?_cons {c : Char} (h : c ≠ '\\') (r : Text) :
    literalTail? (c :: r) =
      if c = '\'' then some ([c], r) else (literalTail? r).map fun p => (c :: p.1, p.2) := by
  cases r <;> simp [literalTail?, h]

/-- A backslash that is no escape is the last character of its text. -/
theorem ne_backslash {c : Char} {r : Text} (h₁ : c = '\\' → r = [] → False)
    (h₂ : ∀ d s, c = '\\' → r = d :: s → False) : c ≠ '\\' := by
  intro hc
  cases r with
  | nil => exact h₁ hc rfl
  | cons d s => exact h₂ d s hc rfl

theorem literalTail?_eq_none {t : Text} (h : '\'' ∉ t) : literalTail? t = none := by
  fun_induction literalTail? t with
  | case1 | case2 | case3 => rfl
  | case4 c r _ ih =>
    have hr : '\'' ∉ r := by
      intro hr
      simp [hr] at h
    rw [ih hr]
    rfl
  | case5 => simp at h
  | case6 c r _ _ _ ih =>
    have hr : '\'' ∉ r := by
      intro hr
      simp [hr] at h
    rw [ih hr]
    rfl

/-- The end of a literal does not depend on what follows. -/
theorem literalTail?_append {t : Text} {p : Text × Text} (h : literalTail? t = some p) (u : Text) :
    literalTail? (p.1 ++ u) = some (p.1, u) := by
  fun_induction literalTail? t generalizing p with
  | case1 | case2 | case3 => cases h
  | case4 c r hc ih =>
    obtain ⟨q, hq, rfl⟩ := Option.map_eq_some_iff.1 h
    simp [literalTail?, hc, ih hq]
  | case5 => cases h; simp [literalTail?]
  | case6 c r h₁ h₂ hc ih =>
    obtain ⟨q, hq, rfl⟩ := Option.map_eq_some_iff.1 h
    rw [List.cons_append, literalTail?_cons (ne_backslash h₁ h₂), if_neg hc, ih hq]
    rfl

/-- A text without single quotes closes no literal that is open in front of it. -/
theorem isSome_literalTail?_append {t v : Text} (h : '\'' ∉ v) :
    (literalTail? (t ++ v)).isSome = (literalTail? t).isSome := by
  fun_induction literalTail? t with
  | case1 => simp [literalTail?_eq_none h]
  | case2 =>
    cases v with
    | nil => rfl
    | cons c r =>
      have hr : '\'' ∉ r := by
        intro hr
        simp [hr] at h
      simp [literalTail?, literalTail?_eq_none hr]
  | case3 => simp [literalTail?]
  | case4 c r hc ih => simp [literalTail?, hc, ih]
  | case5 => simp [literalTail?]
  | case6 c r h₁ h₂ hc ih =>
    rw [List.cons_append, literalTail?_cons (ne_backslash h₁ h₂), if_neg hc]
    simp [ih]

/-! ## Quoted names -/

/-- A text that begins with a double quote and holds another: behind a name it
    makes the name go on. -/
def Reopens (u : Text) : Prop := ∃ r, u = '"' :: r ∧ '"' ∈ r

theorem not_reopens_nil : ¬ Reopens [] := by
  rintro ⟨r, hr, -⟩
  cases hr

theorem not_reopens_cons {c : Char} (h : c ≠ '"') (u : Text) : ¬ Reopens (c :: u) := by
  rintro ⟨r, hr, -⟩
  exact h (List.cons.inj hr).1

/-- A name closes iff a double quote is left. -/
theorem isSome_nameTail? (t : Text) : (nameTail? t).isSome ↔ '"' ∈ t := by
  fun_induction nameTail? t with
  | case1 => simp
  | case2 | case3 | case4 => simp
  | case5 c r _ hc ih => simp [ih, Ne.symm hc]

theorem nameTail?_quote {u : Text} (h : ¬ Reopens u) : nameTail? ('"' :: u) = some (['"'], u) := by
  cases u with
  | nil => rfl
  | cons c r =>
    by_cases hc : c = '"'
    · subst hc
      have hr : nameTail? r = none := by
        rw [← Option.not_isSome_iff_eq_none, isSome_nameTail?]
        intro hr
        exact h ⟨r, rfl, hr⟩
      simp [nameTail?, hr]
    · simp [nameTail?, hc]

theorem nameTail?_cons {c : Char} (h : c ≠ '"') (r : Text) :
    nameTail? (c :: r) = (nameTail? r).map fun p => (c :: p.1, p.2) := by
  cases r <;> simp [nameTail?, h]

theorem nameTail?_doubled {r : Text} {p : Text × Text} (h : nameTail? r = some p) :
    nameTail? ('"' :: '"' :: r) = some ('"' :: '"' :: p.1, p.2) := by
  simp [nameTail?, h]

/-- What follows a name does not reopen it. -/
theorem not_reopens_of_nameTail? {t : Text} {p : Text × Text} (h : nameTail? t = some p) :
    ¬ Reopens p.2 := by
  fun_induction nameTail? t generalizing p with
  | case1 => cases h
  | case2 r q hq ih =>
    have := ih hq
    cases h
    exact this
  | case3 r hr =>
    cases h
    rintro ⟨s, hs, hmem⟩
    cases hs
    rw [← isSome_nameTail?, hr] at hmem
    cases hmem
  | case4 r hr =>
    cases h
    rintro ⟨s, rfl, -⟩
    exact hr s rfl rfl
  | case5 c r _ hc ih =>
    obtain ⟨q, hq, rfl⟩ := Option.map_eq_some_iff.1 h
    have := ih hq
    exact this

theorem nameTail?_append {t : Text} {p : Text × Text} (h : nameTail? t = some p) {u : Text}
    (hu : ¬ Reopens u) : nameTail? (p.1 ++ u) = some (p.1, u) := by
  fun_induction nameTail? t generalizing p with
  | case1 => cases h
  | case2 r q hq ih => cases h; exact nameTail?_doubled (ih hq)
  | case3 | case4 => cases h; exact nameTail?_quote hu
  | case5 c r _ hc ih =>
    obtain ⟨q, hq, rfl⟩ := Option.map_eq_some_iff.1 h
    rw [List.cons_append, nameTail?_cons hc, ih hq]
    rfl

/-! ## Spans -/

theorem span?_eq_none_of_ne {c : Char} {r : Text} (h₁ : c ≠ '\'') (h₂ : c ≠ '"') :
    span? (c :: r) = none := by
  rw [span?, if_neg h₁, if_neg h₂]

/-- A text without quotes opens no span. -/
theorem span?_eq_none_of_not_mem {w a s : Text} {c : Char} (h₁ : '\'' ∉ w) (h₂ : '"' ∉ w)
    (hw : w = a ++ c :: s) (rest : Text) : span? (c :: (s ++ rest)) = none := by
  subst hw
  apply span?_eq_none_of_ne
  · rintro rfl
    simp at h₁
  · rintro rfl
    simp at h₂

/-- A quote opens no span iff nothing behind it closes one. -/
theorem span?_eq_none_iff {c : Char} {r : Text} :
    span? (c :: r) = none ↔
      (c = '\'' → (literalTail? r).isSome = false) ∧ (c = '"' → '"' ∉ r) := by
  by_cases h₁ : c = '\''
  · subst h₁
    simp [span?]
  · by_cases h₂ : c = '"'
    · subst h₂
      rw [span?, if_neg h₁, if_pos rfl, Option.map_eq_none_iff, ← Option.not_isSome_iff_eq_none,
        isSome_nameTail?]
      simp
    · simp [span?_eq_none_of_ne h₁ h₂, h₁, h₂]

/-- The end of a span stays, for a name if nothing that follows reopens it. -/
theorem span?_append {t : Text} {p : Text × Text} (h : span? t = some p) {u : Text}
    (hu : p.1.head? = some '"' → ¬ Reopens u) : span? (p.1 ++ u) = some (p.1, u) := by
  cases t with
  | nil => cases h
  | cons c r =>
    by_cases h₁ : c = '\''
    · subst h₁
      rw [span?, if_pos rfl] at h
      obtain ⟨q, hq, rfl⟩ := Option.map_eq_some_iff.1 h
      simp [span?, literalTail?_append hq]
    · by_cases h₂ : c = '"'
      · subst h₂
        rw [span?, if_neg h₁, if_pos rfl] at h
        obtain ⟨q, hq, rfl⟩ := Option.map_eq_some_iff.1 h
        simp [span?, nameTail?_append hq (hu rfl)]
      · rw [span?_eq_none_of_ne h₁ h₂] at h
        cases h

theorem getLast?_of_literalTail? {t : Text} {p : Text × Text} (h : literalTail? t = some p) :
    p.1.getLast? = some '\'' := by
  fun_induction literalTail? t generalizing p with
  | case1 | case2 | case3 => cases h
  | case4 c r _ ih =>
    obtain ⟨q, hq, rfl⟩ := Option.map_eq_some_iff.1 h
    simp [List.getLast?_cons, ih hq]
  | case5 => cases h; rfl
  | case6 c r _ _ _ ih =>
    obtain ⟨q, hq, rfl⟩ := Option.map_eq_some_iff.1 h
    simp [List.getLast?_cons, ih hq]

theorem getLast?_of_nameTail? {t : Text} {p : Text × Text} (h : nameTail? t = some p) :
    p.1.getLast? = some '"' := by
  fun_induction nameTail? t generalizing p with
  | case1 => cases h
  | case2 r q hq ih => cases h; simp [List.getLast?_cons, ih hq]
  | case3 | case4 => cases h; rfl
  | case5 c r _ hc ih =>
    obtain ⟨q, hq, rfl⟩ := Option.map_eq_some_iff.1 h
    simp [List.getLast?_cons, ih hq]

/-- A span begins and ends with the same quote. -/
theorem quotes_of_span? {t : Text} {p : Text × Text} (h : span? t = some p) :
    ∃ c, (c = '\'' ∨ c = '"') ∧ p.1.head? = some c ∧ p.1.getLast? = some c := by
  cases t with
  | nil => cases h
  | cons c r =>
    by_cases h₁ : c = '\''
    · subst h₁
      rw [span?, if_pos rfl] at h
      obtain ⟨q, hq, rfl⟩ := Option.map_eq_some_iff.1 h
      exact ⟨_, .inl rfl, rfl, by simp [List.getLast?_cons, getLast?_of_literalTail? hq]⟩
    · by_cases h₂ : c = '"'
      · subst h₂
        rw [span?, if_neg h₁, if_pos rfl] at h
        obtain ⟨q, hq, rfl⟩ := Option.map_eq_some_iff.1 h
        exact ⟨_, .inr rfl, rfl, by simp [List.getLast?_cons, getLast?_of_nameTail? hq]⟩
      · rw [span?_eq_none_of_ne h₁ h₂] at h
        cases h

theorem not_reopens_of_span? {t : Text} {p : Text × Text} (h : span? t = some p)
    (hp : p.1.head? = some '"') : ¬ Reopens p.2 := by
  cases t with
  | nil => cases h
  | cons c r =>
    by_cases h₁ : c = '\''
    · subst h₁
      rw [span?, if_pos rfl] at h
      obtain ⟨q, hq, rfl⟩ := Option.map_eq_some_iff.1 h
      cases hp
    · by_cases h₂ : c = '"'
      · subst h₂
        rw [span?, if_neg h₁, if_pos rfl] at h
        obtain ⟨q, hq, rfl⟩ := Option.map_eq_some_iff.1 h
        exact not_reopens_of_nameTail? (p := q) hq
      · rw [span?_eq_none_of_ne h₁ h₂] at h
        cases h

/-! ## Texts that no quote tells apart -/

/-- Two texts that no quote in front of them tells apart: it closes in both or in
    none, and both or none make a name go on. -/
structure Alike (u v : Text) : Prop where
  literal : ∀ a, (literalTail? (a ++ u)).isSome = (literalTail? (a ++ v)).isSome
  name : '"' ∈ u ↔ '"' ∈ v
  reopens : Reopens u ↔ Reopens v

theorem Alike.refl (u : Text) : Alike u u := ⟨fun _ => rfl, Iff.rfl, Iff.rfl⟩

theorem Alike.append {u v : Text} (h : Alike u v) (a : Text) : Alike (a ++ u) (a ++ v) where
  literal b := by rw [← List.append_assoc, ← List.append_assoc, h.literal]
  name := by rw [List.mem_append, List.mem_append, h.name]
  reopens := by
    cases a with
    | nil => exact h.reopens
    | cons c a => simp [Reopens, h.name]

/-- A quote that opens no span opens none in front of an alike text. -/
theorem span?_eq_none_of_alike {c : Char} {a u v : Text} (h : Alike u v)
    (hn : span? (c :: (a ++ u)) = none) : span? (c :: (a ++ v)) = none := by
  rw [span?_eq_none_iff] at hn ⊢
  rw [← h.literal, List.mem_append, ← h.name, ← List.mem_append]
  exact hn

theorem span?_append_of_alike {q u v : Text} (h : Alike u v) (hs : span? (q ++ u) = some (q, u)) :
    span? (q ++ v) = some (q, v) := by
  apply span?_append hs
  intro hq hv
  exact not_reopens_of_span? hs hq (h.reopens.2 hv)

/-- A text without quotes may be added at the end. -/
theorem alike_append {u v : Text} (h₁ : '\'' ∉ v) (h₂ : '"' ∉ v) : Alike u (u ++ v) where
  literal a := by rw [← List.append_assoc, isSome_literalTail?_append h₁]
  name := by simp [h₂]
  reopens := by
    cases u with
    | nil =>
      constructor
      · exact fun h => absurd h not_reopens_nil
      · rintro ⟨r, rfl, -⟩
        simp at h₂
    | cons c u => simp [Reopens, h₂]

/-- A character that neither opens, closes nor escapes anything in a span. -/
def IsPlain (c : Char) : Prop := c ≠ '\'' ∧ c ≠ '"' ∧ c ≠ '\\' ∧ c ≠ '\n'

theorem isSome_literalTail?_plain {ds : Text} (h : ∀ d ∈ ds, IsPlain d) (u : Text) :
    (literalTail? (ds ++ u)).isSome = (literalTail? u).isSome := by
  induction ds with
  | nil => rfl
  | cons d ds ih =>
    obtain ⟨h₁, -, h₃, -⟩ := h d (by simp)
    rw [List.cons_append, literalTail?_cons h₃, if_neg h₁, Option.isSome_map]
    apply ih
    intro e he
    exact h e (by simp [he])

/-- Two runs of plain characters close alike behind any text: a backslash in
    front takes one character of either. -/
theorem isSome_literalTail?_runs {d e : Char} {ds es u v : Text} (hd : ∀ c ∈ d :: ds, IsPlain c)
    (he : ∀ c ∈ e :: es, IsPlain c) (h : (literalTail? u).isSome = (literalTail? v).isSome) (a : Text) :
    (literalTail? (a ++ (d :: ds ++ u))).isSome = (literalTail? (a ++ (e :: es ++ v))).isSome := by
  have hds : (literalTail? (ds ++ u)).isSome = (literalTail? (es ++ v)).isSome := by
    have hds : ∀ c ∈ ds, IsPlain c := by
      intro c hc
      exact hd c (by simp [hc])
    have hes : ∀ c ∈ es, IsPlain c := by
      intro c hc
      exact he c (by simp [hc])
    rw [isSome_literalTail?_plain hds, isSome_literalTail?_plain hes, h]
  fun_induction literalTail? a with
  | case1 => rw [List.nil_append, List.nil_append, isSome_literalTail?_plain hd,
      isSome_literalTail?_plain he, h]
  | case2 =>
    -- the backslash takes the first character of either run
    obtain ⟨-, -, -, hd'⟩ := hd d (by simp)
    obtain ⟨-, -, -, he'⟩ := he e (by simp)
    simpa [literalTail?, hd', he'] using hds
  | case3 => simp [literalTail?]
  | case4 c r hc ih => simpa [literalTail?, hc] using ih
  | case5 => simp [literalTail?]
  | case6 c r h₁ h₂ hc ih =>
    have hne := ne_backslash h₁ h₂
    simp only [List.cons_append] at ih ⊢
    rw [literalTail?_cons hne, literalTail?_cons hne, if_neg hc, if_neg hc, Option.isSome_map,
      Option.isSome_map, ih]

theorem alike_runs {ds es u v : Text} (hd : ∀ c ∈ ds, IsPlain c) (he : ∀ c ∈ es, IsPlain c)
    (hd₀ : ds ≠ []) (he₀ : es ≠ []) (h : Alike u v) : Alike (ds ++ u) (es ++ v) := by
  obtain ⟨d, ds, rfl⟩ := List.exists_cons_of_ne_nil hd₀
  obtain ⟨e, es, rfl⟩ := List.exists_cons_of_ne_nil he₀
  have hnot : ∀ {cs : Text}, (∀ c ∈ cs, IsPlain c) → '"' ∉ cs := by
    intro cs hcs hmem
    exact (hcs _ hmem).2.1 rfl
  refine ⟨isSome_literalTail?_runs hd he (h.literal []), ?_, ?_⟩
  · rw [List.mem_append, List.mem_append, h.name]
    simp only [hnot hd, hnot he]
  · have hd₁ := (hd d (by simp)).2.1
    have he₁ := (he e (by simp)).2.1
    simp [Reopens, hd₁, he₁]

end SqlCompose.Template
