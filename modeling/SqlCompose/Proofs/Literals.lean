/-
  Literals — a string literal is copied as it stands, whoever wrote it.

  A literal is a row of units between single quotes: a backslash with the character that it
  escapes, or any other character but the single quote.  `Fragment.escape` writes only some of
  these literals; a text that is written as it is may hold all of them.

  * `LiteralUnit` are the units, and `literalOf` is the literal that a row of them makes up;
  * `span?_literalOf`: a literal is one span, whatever follows it, unless one of its units
    escapes a newline; then its first quote opens no span at all;
  * `closed_of_unquoted_text`: a text without quotes leaves none open, so what follows it is
    read by itself;
  * `fillFrom_append`: two rows of pieces are compiled one after the other;
  * `literal_copied` puts these together: reading, compiling and taking in leave a literal as
    it is.
-/
import SqlCompose.Proofs.Associativity
import SqlCompose.Proofs.Expressions

namespace SqlCompose

namespace Template

/-! ## Units -/

/-- A unit of a literal: a backslash with the character that it escapes, or a character that
    is neither a backslash nor a single quote. -/
inductive LiteralUnit where
  | escape (c : Char)
  | plain (c : Char) (h : c ≠ '\\' ∧ c ≠ '\'' := by decide)
  deriving DecidableEq

/-- The text of a unit. -/
def LiteralUnit.text : LiteralUnit → Text
  | escape c => ['\\', c]
  | plain c _ => [c]

/-- The literal of a row of units. -/
def literalOf (us : List LiteralUnit) : Text := ['\''] ++ us.flatMap LiteralUnit.text ++ ['\'']

theorem literalOf_append (us : List LiteralUnit) (u : Text) :
    literalOf us ++ u = '\'' :: (us.flatMap LiteralUnit.text ++ '\'' :: u) := by
  simp [literalOf]

/-- Behind its first quote a literal goes on to its last one, unless a newline is escaped. -/
theorem literalTail?_units (us : List LiteralUnit) (u : Text) :
    literalTail? (us.flatMap LiteralUnit.text ++ '\'' :: u) =
      if .escape '\n' ∈ us then none else some (us.flatMap LiteralUnit.text ++ ['\''], u) := by
  induction us with
  | nil => simp [literalTail?]
  | cons x us ih =>
    cases x with
    | escape c =>
      by_cases hc : c = '\n'
      · simp [LiteralUnit.text, literalTail?, hc]
      · by_cases hus : .escape '\n' ∈ us <;>
          simp [LiteralUnit.text, literalTail?, hc, Ne.symm hc, ih, hus]
    | plain c h =>
      by_cases hus : .escape '\n' ∈ us <;>
        simp [LiteralUnit.text, literalTail?_cons h.1, h.2, ih, hus]

/-- **A literal is one span in front of anything, unless it escapes a newline.** -/
theorem span?_literalOf (us : List LiteralUnit) (u : Text) :
    span? (literalOf us ++ u) =
      if .escape '\n' ∈ us then none else some (literalOf us, u) := by
  rw [literalOf_append, span?, if_pos rfl, literalTail?_units]
  by_cases hus : .escape '\n' ∈ us <;> simp [hus, literalOf]

/-- A literal that escapes a newline is read from its first quote on like any other text. -/
theorem ofText_literalOf_of_escape {us : List LiteralUnit} (hus : .escape '\n' ∈ us) (u : Text) :
    ofText (literalOf us ++ u) =
      consChar '\'' (ofText (us.flatMap LiteralUnit.text ++ '\'' :: u)) := by
  have hnone := span?_literalOf us u
  rw [if_pos hus, literalOf_append] at hnone
  rw [literalOf_append, ofText_of_span?_eq_none hnone, if_neg (by decide)]

/-! ## Texts without quotes -/

theorem outside_subset (ps : Template) : outside ps ⊆ text ps := by
  intro c hc
  obtain ⟨p, hp, hc⟩ := List.mem_flatMap.1 hc
  cases p with
  | word w => exact List.mem_flatMap.2 ⟨_, hp, hc⟩
  | space | quoted => simp at hc

/-- A text without quotes leaves no quote open. -/
theorem closed_of_unquoted_text {t : Text} (ht : t.Unquoted) : Closed (ofText t) := by
  have hsub : outside (ofText t) ⊆ t := by
    simpa only [text_ofText] using outside_subset (ofText t)
  exact closed_of_unquoted ⟨fun hc => ht.1 (hsub hc), fun hc => ht.2 (hsub hc)⟩

/-- A literal is read apart from what is in front of it and behind it. -/
theorem ofText_append_literalOf {t : Text} (ht : Closed (ofText t)) {us : List LiteralUnit}
    (hus : .escape '\n' ∉ us) (u : Text) :
    ofText (t ++ (literalOf us ++ u)) = ofText t ++ .quoted (literalOf us) :: ofText u := by
  apply ofText_append_span ht
  · rw [span?_literalOf, if_neg hus]
  · simp [literalOf]

theorem substitute_append (m : Marking) (f : Text → Text) (ps qs : Template) :
    substitute m f (ps ++ qs) = substitute m f ps ++ substitute m f qs :=
  List.flatMap_append

theorem substitute_quoted (m : Marking) (f : Text → Text) (q : Text) (ps : Template) :
    substitute m f (.quoted q :: ps) = q ++ substitute m f ps := rfl

end Template

open Template

/-! ## Compiling and taking in -/

namespace Parameters

variable {p : Parameters}

theorem fillFrom_word {t : Text} (ht : p.marking.isPlaceholder t = true) (position : Nat)
    (ps : Template) : p.fillFrom position (.word t :: ps) = do
      let value ← p.valueAt position t
      let rest ← p.fillFrom (position + 1) ps
      return value ++ rest := by
  rw [fillFrom, if_pos ht]

theorem fillFrom_word_of_not {t : Text} (ht : ¬ p.marking.isPlaceholder t) (position : Nat)
    (ps : Template) : p.fillFrom position (.word t :: ps) = do
      let rest ← p.fillFrom position ps
      return t ++ rest := by
  rw [fillFrom, if_neg ht]

theorem fillFrom_quoted (position : Nat) (q : Text) (ps : Template) :
    p.fillFrom position (.quoted q :: ps) = do
      let rest ← p.fillFrom position ps
      return q ++ rest := rfl

/-- **Two rows of pieces are compiled one after the other**: the second one goes on counting
    where the first one ends. -/
theorem fillFrom_append (p : Parameters) (position : Nat) (ps qs : Template) :
    p.fillFrom position (ps ++ qs) = do
      let a ← p.fillFrom position ps
      let b ← p.fillFrom (position + (placeholders p.marking ps).length) qs
      return a ++ b := by
  induction ps generalizing position with
  | nil =>
    rw [List.nil_append, fillFrom]
    exact (bind_pure _).symm
  | cons q ps ih =>
    rw [List.cons_append]
    cases q with
    | word t =>
      by_cases ht : p.marking.isPlaceholder t
      · have hplace : position + 1 + (placeholders p.marking ps).length =
            position + (placeholders p.marking (.word t :: ps)).length := by
          rw [placeholders_word, if_pos ht, List.length_cons]
          omega
        rw [fillFrom_word ht, fillFrom_word ht, ih, hplace]
        simp only [bind_assoc, pure_bind, List.append_assoc]
      · rw [fillFrom_word_of_not ht, fillFrom_word_of_not ht, ih, placeholders_word, if_neg ht]
        simp only [bind_assoc, pure_bind, List.append_assoc]
    | space =>
      simp only [fillFrom, ih, placeholders_space, bind_assoc, pure_bind, List.append_assoc]
    | quoted q =>
      simp only [fillFrom, ih, placeholders_quoted, bind_assoc, pure_bind, List.append_assoc]

section
variable {t : Text} (ht : Closed (ofText t)) {us : List LiteralUnit} (hus : .escape '\n' ∉ us)
include ht hus

/-- What stands in front of a literal is compiled, and then what stands behind it. -/
theorem compile_append_literalOf (hp : 0 < p.slotCount) (u : Text) :
    compile (t ++ (literalOf us ++ u)) (some p) = do
      let a ← p.fillFrom 0 (ofText t)
      let b ← p.fillFrom (placeholders p.marking (ofText t)).length (ofText u)
      return a ++ (literalOf us ++ b) := by
  rw [compile, if_neg (by omega), ofText_append_literalOf ht hus, fillFrom_append, Nat.zero_add]
  simp only [fillFrom_quoted, bind_assoc, pure_bind]

/-- Ordinals are moved on in front of a literal and behind it. -/
theorem merge_append_literalOf (p inner : Parameters) (u : Text) :
    p.merge (t ++ (literalOf us ++ u)) inner = do
      let (a, _) ← p.merge t inner
      let (b, q) ← p.merge u inner
      return (a ++ (literalOf us ++ b), q) := by
  have hread := ofText_append_literalOf ht hus u
  by_cases hm : p.marking = inner.marking
  · rw [merge_eq hm, merge_eq hm, merge_eq hm]
    by_cases h₀ : p.ordinals = 0
    · simp only [h₀, if_true]
      rfl
    · simp only [h₀, if_false, movedOn, hread, substitute_append, substitute_quoted]
      rfl
  · rw [merge_of_marking_ne hm, merge_of_marking_ne hm]
    rfl

end

end Parameters

namespace Template

/-- **A literal is copied as it stands, unless it escapes a newline.**  Whatever its units and
    whatever follows it, a scanner that comes to a literal reads it as one span exactly if none
    of its units escapes a newline.  Behind a text without quotes, or one that closes its quotes,
    such a literal has no part in what happens to the statement: the placeholders are those in
    front of it and behind it, and replacing them, compiling and taking the statement in work on
    these two texts and leave the literal between them.  A literal that escapes a newline is read
    like any other text, its first quote being a character of a word. -/
theorem literal_copied (us : List LiteralUnit) :
    let q := literalOf us
    (∀ u, span? (q ++ u) = if .escape '\n' ∈ us then none else some (q, u)) ∧
      (.escape '\n' ∈ us → ∀ u,
        ofText (q ++ u) = consChar '\'' (ofText (us.flatMap LiteralUnit.text ++ '\'' :: u))) ∧
      (.escape '\n' ∉ us → ∀ t u, t.Unquoted ∨ Closed (ofText t) →
        (∀ m, placeholders m (ofText (t ++ (q ++ u))) =
          placeholders m (ofText t) ++ placeholders m (ofText u)) ∧
        (∀ m f, substitute m f (ofText (t ++ (q ++ u))) =
          substitute m f (ofText t) ++ (q ++ substitute m f (ofText u))) ∧
        (∀ p : Parameters, 0 < p.slotCount → Parameters.compile (t ++ (q ++ u)) (some p) = do
          let a ← p.fillFrom 0 (ofText t)
          let b ← p.fillFrom (placeholders p.marking (ofText t)).length (ofText u)
          return a ++ (q ++ b)) ∧
        ∀ p inner : Parameters, p.merge (t ++ (q ++ u)) inner = do
          let (a, _) ← p.merge t inner
          let (b, p') ← p.merge u inner
          return (a ++ (q ++ b), p')) := by
  intro q
  refine ⟨span?_literalOf us, fun hus => ofText_literalOf_of_escape hus, ?_⟩
  intro hus t u hquotes
  have ht : Closed (ofText t) := hquotes.elim closed_of_unquoted_text id
  have hread : ofText (t ++ (q ++ u)) = ofText t ++ .quoted q :: ofText u :=
    ofText_append_literalOf ht hus u
  refine ⟨?_, ?_, ?_, ?_⟩
  · intro m
    rw [hread, placeholders_append, placeholders_quoted]
  · intro m f
    rw [hread, substitute_append, substitute_quoted]
  · intro p hp
    exact Parameters.compile_append_literalOf ht hus hp u
  · intro p inner
    exact Parameters.merge_append_literalOf ht hus p inner u

/-- A literal with an escaped quote and what looks like a placeholder in it, between two
    placeholders and in front of a quote that is never closed. -/
theorem literal_copied_with_escaped_quote :
    let us : List LiteralUnit := [.plain 'a', .escape '\'', .plain ' ', .plain '$', .plain '$',
      .plain '1', .plain ' ']
    let t : Text := "SELECT $$1 , "
    let u : Text := " , $?x 'b"
    let p := ((Parameters.empty .standard).after (.declareAll [.null, .text "x"])).after
      (.setAll [.int 1, .int 2])
    .escape '\n' ∉ us ∧ t.Unquoted ∧ literalOf us = "'a\\' $$1 '".toList ∧
      placeholders .standard (ofText (t ++ (literalOf us ++ u))) =
        ["$$1".toList, "$?x".toList] ∧
      Parameters.compile (t ++ (literalOf us ++ u)) (some p) =
        .ok "SELECT 1 , 'a\\' $$1 ' , 2 'b" ∧
      p.merge (t ++ (literalOf us ++ u)) p =
        .ok ("SELECT $$2 , 'a\\' $$1 ' , $?x 'b".toList, p.absorb p) := by
  intro us t u p
  have hus : .escape '\n' ∉ us := by simp [us]
  have ht : t.Unquoted := by decide
  obtain ⟨-, -, hcopied⟩ := literal_copied us
  obtain ⟨hread, -, hcompile, hmerge⟩ := hcopied hus t u (.inl ht)
  refine ⟨hus, ht, by decide, ?_, ?_, ?_⟩
  · rw [hread]
    decide +kernel
  · rw [hcompile p (by decide +kernel)]
    decide +kernel
  · rw [hmerge]
    decide +kernel

/-- **A literal that escapes a newline is read in parts.**  What looks like a placeholder in it
    is one, and is replaced. -/
theorem literal_replaced_behind_newline :
    let us : List LiteralUnit :=
      [.escape '\n', .plain ' ', .plain '$', .plain '$', .plain '1', .plain ' ']
    literalOf us = "'\\\n $$1 '".toList ∧
      placeholders .standard (ofText (literalOf us)) = ["$$1".toList] ∧
      substitute .standard (fun _ => "b") (ofText (literalOf us)) = "'\\\n b '".toList := by
  decide +kernel

end Template

end SqlCompose
