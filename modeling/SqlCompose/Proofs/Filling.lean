/-
  Filling — compiling is looking values up and then filling them in.

  * `Template.filled` is the text in which given texts stand for the placeholders,
    in order, and `valuesFrom` looks the texts for placeholders up;
  * `fillFrom_eq`: compiling is the one after the other;
  * `valuesFrom_append` and `filled_append` take them apart where a row of pieces
    is put together, and `filled_mapWords_shift` says that moving ordinals on does
    not change what is filled in.
-/
import SqlCompose.Parameters.Compilation
import SqlCompose.Proofs.Reading

namespace SqlCompose

namespace Marking

variable {m : Marking}

theorem isPlaceholder_iff {t : Text} :
    m.isPlaceholder t = true ↔ (∃ n, m.ordinal? t = some n) ∨ ∃ name, m.name? t = some name := by
  unfold isPlaceholder read?
  cases m.ordinal? t <;> simp [Option.isSome_iff_exists]

/-- A placeholder begins with one of the signs. -/
theorem isPrefix_of_isPlaceholder {t : Text} (h : m.isPlaceholder t = true) :
    m.ordinalSign <+: t ∨ m.namedSign <+: t := by
  rcases isPlaceholder_iff.1 h with ⟨n, hn⟩ | ⟨name, hname⟩
  · obtain ⟨ds, rfl, -⟩ := ordinal?_eq_some_iff.1 hn
    exact .inl (List.prefix_append _ _)
  · obtain ⟨rfl, -⟩ := name?_eq_some_iff.1 hname
    exact .inr (List.prefix_append _ _)

theorem two_le_length_of_isPlaceholder {t : Text} (h : m.isPlaceholder t = true) : 2 ≤ t.length := by
  rcases isPlaceholder_iff.1 h with ⟨n, hn⟩ | ⟨name, hname⟩
  · obtain ⟨ds, rfl, hds⟩ := ordinal?_eq_some_iff.1 hn
    have h₁ := List.length_pos_iff.2 m.ordinalSign_isWord.1
    have h₂ := List.length_pos_iff.2 (Numeral.digit?_of_nat? hds).1
    rw [List.length_append]
    omega
  · obtain ⟨rfl, hw⟩ := name?_eq_some_iff.1 hname
    have h₁ := List.length_pos_iff.2 m.namedSign_isWord.1
    have h₂ := List.length_pos_iff.2 hw.1
    rw [List.length_append]
    omega

theorem isPlaceholder_shift (m : Marking) (k : Nat) (t : Text) :
    m.isPlaceholder (m.shift k t) = m.isPlaceholder t := by
  unfold shift
  split
  · next n hn =>
    rw [isPlaceholder, m.read?_ordinalMarker, isPlaceholder, read?, hn]
    rfl
  · rfl

end Marking

/-! ## Filling in -/

namespace Template

/-- The text in which the placeholders are replaced, in order, by the given texts;
    placeholders for which none is left stay. -/
def filled (m : Marking) : List Text → Template → Text
  | _, [] => []
  | v :: vs, .word t :: ps =>
    if m.isPlaceholder t then v ++ filled m vs ps else t ++ filled m (v :: vs) ps
  | vs, p :: ps => p.text ++ filled m vs ps

variable {m : Marking}

theorem placeholders_append (m : Marking) (ps qs : Template) :
    placeholders m (ps ++ qs) = placeholders m ps ++ placeholders m qs :=
  List.filterMap_append

theorem placeholders_word (t : Text) (ps : Template) :
    placeholders m (.word t :: ps) =
      if m.isPlaceholder t then t :: placeholders m ps else placeholders m ps := by
  unfold placeholders
  by_cases h : m.isPlaceholder t <;> simp [h]

theorem placeholders_space (ps : Template) : placeholders m (.space :: ps) = placeholders m ps := rfl

theorem placeholders_quoted (q : Text) (ps : Template) :
    placeholders m (.quoted q :: ps) = placeholders m ps := rfl

theorem placeholders_eq_nil {ps : Template} (h : ∀ w, .word w ∈ ps → ¬ m.isPlaceholder w) :
    placeholders m ps = [] := by
  rw [placeholders, List.filterMap_eq_nil_iff]
  intro p hp
  cases p with
  | word w => simp [h w hp]
  | space | quoted => rfl

theorem filled_nil (m : Marking) (ps : Template) : filled m [] ps = text ps := by
  induction ps with
  | nil => rfl
  | cons p ps ih => rw [filled, ih, text_cons]; simp

theorem filled_word (v : Text) (vs : List Text) (t : Text) (ps : Template) :
    filled m (v :: vs) (.word t :: ps) =
      if m.isPlaceholder t then v ++ filled m vs ps else t ++ filled m (v :: vs) ps := rfl

theorem filled_word_of_not {t : Text} (h : ¬ m.isPlaceholder t) (vs : List Text) (ps : Template) :
    filled m vs (.word t :: ps) = t ++ filled m vs ps := by
  cases vs with
  | nil => rfl
  | cons v vs => rw [filled_word, if_neg h]

theorem filled_space (vs : List Text) (ps : Template) :
    filled m vs (.space :: ps) = ' ' :: filled m vs ps := by
  cases vs <;> rfl

theorem filled_quoted (vs : List Text) (q : Text) (ps : Template) :
    filled m vs (.quoted q :: ps) = q ++ filled m vs ps := by
  cases vs <;> rfl

/-- What is filled into a row of pieces is filled into its parts. -/
theorem filled_append {vs : List Text} {ps : Template} (h : vs.length = (placeholders m ps).length)
    (ws : List Text) (qs : Template) :
    filled m (vs ++ ws) (ps ++ qs) = filled m vs ps ++ filled m ws qs := by
  induction ps generalizing vs with
  | nil =>
    rw [List.eq_nil_of_length_eq_zero h]
    rfl
  | cons p ps ih =>
    rw [List.cons_append]
    cases p with
    | word t =>
      rw [placeholders_word] at h
      by_cases ht : m.isPlaceholder t
      · rw [if_pos ht] at h
        obtain ⟨v, vs, rfl⟩ := List.exists_cons_of_length_eq_add_one h
        rw [List.cons_append, filled_word, if_pos ht, filled_word, if_pos ht,
          ih (Nat.succ.inj h), List.append_assoc]
      · rw [if_neg ht] at h
        rw [filled_word_of_not ht, filled_word_of_not ht, ih h, List.append_assoc]
    | space => rw [filled_space, filled_space, ih h]; rfl
    | quoted q => rw [filled_quoted, filled_quoted, ih h, List.append_assoc]

/-! ## Moved ordinals -/

theorem mapWords_cons (f : Text → Text) (p : Piece) (ps : Template) :
    mapWords f (p :: ps) = mapWords f [p] ++ mapWords f ps := rfl

theorem placeholders_mapWords_shift (m : Marking) (k : Nat) (ps : Template) :
    placeholders m (mapWords (m.shift k) ps) = (placeholders m ps).map (m.shift k) := by
  induction ps with
  | nil => rfl
  | cons p ps ih =>
    rw [mapWords_cons, placeholders_append, ih]
    cases p with
    | word t =>
      rw [placeholders_word, mapWords, List.map_singleton, placeholders_word,
        m.isPlaceholder_shift]
      by_cases h : m.isPlaceholder t <;> simp [h, placeholders]
    | space | quoted => rfl

theorem filled_mapWords_shift (k : Nat) {vs : List Text} {ps : Template}
    (h : vs.length = (placeholders m ps).length) :
    filled m vs (mapWords (m.shift k) ps) = filled m vs ps := by
  induction ps generalizing vs with
  | nil => rfl
  | cons p ps ih =>
    cases p with
    | word t =>
      rw [placeholders_word] at h
      rw [show mapWords (m.shift k) (.word t :: ps) = .word (m.shift k t) :: mapWords (m.shift k) ps
        from rfl]
      by_cases ht : m.isPlaceholder t
      · rw [if_pos ht] at h
        obtain ⟨v, vs, rfl⟩ := List.exists_cons_of_length_eq_add_one h
        rw [filled_word, filled_word, m.isPlaceholder_shift, if_pos ht, if_pos ht,
          ih (Nat.succ.inj h)]
      · rw [if_neg ht] at h
        rw [Marking.shift_of_not_isPlaceholder k ht, filled_word_of_not ht, filled_word_of_not ht, ih h]
    | space => rw [filled_space, ← ih h, ← filled_space]; rfl
    | quoted q => rw [filled_quoted, ← ih h, ← filled_quoted]; rfl

end Template

/-! ## Looking values up -/

namespace Parameters

/-- The values for placeholders in a row, the first of which is number `position`;
    the first placeholder without one decides the error. -/
def valuesFrom (p : Parameters) (position : Nat) : List Text → Except Error (List Text)
  | [] => .ok []
  | t :: ts => do
    let value ← p.valueAt position t
    let values ← p.valuesFrom (position + 1) ts
    return value :: values

theorem append_map {α : Type} (a : Text) (x : Except Error α) (f : α → Text) :
    (do return a ++ (← x.map f)) = x.map fun y => a ++ f y := by
  cases x <;> rfl

/-- **Compiling looks the values up and fills them in.** -/
theorem fillFrom_eq (p : Parameters) (position : Nat) (ps : Template) :
    p.fillFrom position ps =
      (p.valuesFrom position (ps.placeholders p.marking)).map fun vs => ps.filled p.marking vs := by
  induction ps generalizing position with
  | nil => rfl
  | cons q ps ih =>
    cases q with
    | word t =>
      rw [fillFrom, Template.placeholders_word]
      by_cases ht : p.marking.isPlaceholder t
      · rw [if_pos ht, if_pos ht, valuesFrom, ih]
        cases p.valueAt position t with
        | error e => rfl
        | ok v =>
          cases hvs : p.valuesFrom (position + 1) (Template.placeholders p.marking ps) with
          | error e => rfl
          | ok vs =>
            show Except.ok _ = Except.ok (Template.filled _ (v :: vs) _)
            rw [Template.filled_word, if_pos ht]
      · rw [if_neg ht, if_neg ht, ih, append_map]
        simp only [Template.filled_word_of_not ht]
    | space =>
      simp only [fillFrom, Template.placeholders_space, ih, append_map, Template.filled_space]
      rfl
    | quoted q =>
      simp only [fillFrom, Template.placeholders_quoted, ih, append_map, Template.filled_quoted]
      rfl

variable {p : Parameters}

theorem valueAt_eq_ok_iff {position : Nat} {t v : Text} :
    p.valueAt position t = .ok v ↔
      p.isBound t position = true ∧ p.values[position]? = some (some v) := by
  unfold valueAt
  by_cases hlt : p.slotCount ≤ position
  · simp [hlt, List.getElem?_eq_none (show p.values.length ≤ position from hlt)]
  · rw [if_neg hlt]
    by_cases hb : p.isBound t position = true
    · simp only [hb, not_true, if_false, true_and]
      cases p.values[position]? with
      | none => simp
      | some o => cases o <;> simp
    · simp [hb]

theorem valuesFrom_cons_eq_ok_iff {position : Nat} {t : Text} {ts vs : List Text} :
    p.valuesFrom position (t :: ts) = .ok vs ↔ ∃ v ws, p.valueAt position t = .ok v ∧
      p.valuesFrom (position + 1) ts = .ok ws ∧ vs = v :: ws := by
  rw [valuesFrom]
  cases p.valueAt position t with
  | error e => exact ⟨nofun, nofun⟩
  | ok v =>
    cases p.valuesFrom (position + 1) ts with
    | error e => exact ⟨nofun, nofun⟩
    | ok ws =>
      constructor
      · intro h; cases h; exact ⟨v, ws, rfl, rfl, rfl⟩
      · rintro ⟨_, _, hv, hws, rfl⟩; cases hv; cases hws; rfl

theorem length_of_valuesFrom {position : Nat} {ts vs : List Text}
    (h : p.valuesFrom position ts = .ok vs) : vs.length = ts.length := by
  induction ts generalizing position vs with
  | nil => cases h; rfl
  | cons t ts ih =>
    obtain ⟨v, ws, -, hws, rfl⟩ := valuesFrom_cons_eq_ok_iff.1 h
    rw [List.length_cons, List.length_cons, ih hws]

theorem valuesFrom_append {position : Nat} {ts us vs ws : List Text}
    (h : p.valuesFrom position ts = .ok vs) (h' : p.valuesFrom (position + ts.length) us = .ok ws) :
    p.valuesFrom position (ts ++ us) = .ok (vs ++ ws) := by
  induction ts generalizing position vs with
  | nil => cases h; exact h'
  | cons t ts ih =>
    obtain ⟨v, xs, hv, hxs, rfl⟩ := valuesFrom_cons_eq_ok_iff.1 h
    have hrest : p.valuesFrom (position + 1 + ts.length) us = .ok ws := by
      rwa [Nat.add_assoc, Nat.add_comm 1]
    exact valuesFrom_cons_eq_ok_iff.2 ⟨v, _, hv, ih hxs hrest, rfl⟩

/-- Values found in other parameters, further on and for other placeholders, are
    the same ones. -/
theorem valuesFrom_map {q : Parameters} {f : Text → Text} {k : Nat}
    (h : ∀ position t v, p.valueAt position t = .ok v → q.valueAt (k + position) (f t) = .ok v)
    {position : Nat} {ts vs : List Text} (hvs : p.valuesFrom position ts = .ok vs) :
    q.valuesFrom (k + position) (ts.map f) = .ok vs := by
  induction ts generalizing position vs with
  | nil => exact hvs
  | cons t ts ih =>
    obtain ⟨v, ws, hv, hws, rfl⟩ := valuesFrom_cons_eq_ok_iff.1 hvs
    exact valuesFrom_cons_eq_ok_iff.2 ⟨v, ws, h _ _ _ hv, ih hws, rfl⟩

end Parameters

end SqlCompose
