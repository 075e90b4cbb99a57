/-
  Template.Span — the quoted spans of a statement.

  A literal stands between single quotes; inside it a backslash escapes the
  character behind it, which may be any but a newline.  A quoted name stands
  between double quotes; inside it a double quote is written twice.  A quote
  that opens no span is a character like any other.

  * `literalTail?` and `nameTail?` find the end of a span behind its opening
    quote, `span?` finds the span at the beginning of a text;
  * `eq_append_of_span?` and `length_of_span?` say that a span and what follows
    it make up the text, and that what follows is shorter.
-/
import SqlCompose.Text

namespace SqlCompose.Template

/-- The rest of a literal up to its closing quote, and what follows. -/
def literalTail? : Text → Option (Text × Text)
  | [] => none
  | ['\\'] => none
  | '\\' :: c :: r =>
    if c = '\n' then none else (literalTail? r).map fun p => ('\\' :: c :: p.1, p.2)
  | c :: r => if c = '\'' then some ([c], r) else (literalTail? r).map fun p => (c :: p.1, p.2)

/-- The rest of a quoted name up to its closing quote, and what follows.  Two
    quotes in a row stand for one inside the name if the name closes later, and
    the first of them closes it otherwise. -/
def nameTail? : Text → Option (Text × Text)
  | [] => none
  | '"' :: '"' :: r =>
    match nameTail? r with
    | some p => some ('"' :: '"' :: p.1, p.2)
    | none => some (['"'], '"' :: r)
  | c :: r => if c = '"' then some ([c], r) else (nameTail? r).map fun p => (c :: p.1, p.2)

/-- The quoted span at the beginning of a text, and what follows it. -/
def span? : Text → Option (Text × Text)
  | [] => none
  | c :: r =>
    if c = '\'' then (literalTail? r).map fun p => (c :: p.1, p.2)
    else if c = '"' then (nameTail? r).map fun p => (c :: p.1, p.2)
    else none

/-! ## Nothing is lost -/

theorem eq_append_of_literalTail? {t : Text} {p : Text × Text} (h : literalTail? t = some p) :
    t = p.1 ++ p.2 := by
  fun_induction literalTail? t generalizing p with
  | case1 | case2 | case3 => cases h
  | case4 c r _ ih =>
    obtain ⟨q, hq, rfl⟩ := Option.map_eq_some_iff.1 h
    simp [← ih hq]
  | case5 => cases h; rfl
  | case6 c r _ _ _ ih =>
    obtain ⟨q, hq, rfl⟩ := Option.map_eq_some_iff.1 h
    simp [← ih hq]

theorem eq_append_of_nameTail? {t : Text} {p : Text × Text} (h : nameTail? t = some p) :
    t = p.1 ++ p.2 := by
  fun_induction nameTail? t generalizing p with
  | case1 => cases h
  | case2 r q hq ih => cases h; simp [← ih hq]
  | case3 => cases h; rfl
  | case4 => cases h; rfl
  | case5 c r _ _ ih =>
    obtain ⟨q, hq, rfl⟩ := Option.map_eq_some_iff.1 h
    simp [← ih hq]

/-- A span begins with its quote, goes on to its end, and what follows it is what
    follows there. -/
theorem span?_eq_some {t : Text} {p : Text × Text} (h : span? t = some p) :
    ∃ c r q, t = c :: r ∧ (literalTail? r = some q ∨ nameTail? r = some q) ∧
      p = (c :: q.1, q.2) := by
  cases t with
  | nil => cases h
  | cons c r =>
    rw [span?] at h
    split at h
    · obtain ⟨q, hq, rfl⟩ := Option.map_eq_some_iff.1 h
      exact ⟨c, r, q, rfl, .inl hq, rfl⟩
    · split at h
      · obtain ⟨q, hq, rfl⟩ := Option.map_eq_some_iff.1 h
        exact ⟨c, r, q, rfl, .inr hq, rfl⟩
      · cases h

/-- A span and what follows it make up the text. -/
theorem eq_append_of_span? {t : Text} {p : Text × Text} (h : span? t = some p) :
    t = p.1 ++ p.2 := by
  obtain ⟨c, r, q, rfl, hq | hq, rfl⟩ := span?_eq_some h
  · simp [← eq_append_of_literalTail? hq]
  · simp [← eq_append_of_nameTail? hq]

/-- A span is not empty. -/
theorem ne_nil_of_span? {t : Text} {p : Text × Text} (h : span? t = some p) : p.1 ≠ [] := by
  obtain ⟨c, r, q, -, -, rfl⟩ := span?_eq_some h
  exact List.cons_ne_nil _ _

/-- What follows a span is shorter than the text. -/
theorem length_of_span? {t : Text} {p : Text × Text} (h : span? t = some p) :
    p.2.length < t.length := by
  have hpos := List.length_pos_iff.2 (ne_nil_of_span? h)
  have hlen := congrArg List.length (eq_append_of_span? h)
  rw [List.length_append] at hlen
  omega

end SqlCompose.Template
