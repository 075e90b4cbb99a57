/-
  Distinction — placeholders are told apart by what they refer to.

  The signs of a marking may be any words, digits and minus signs among them, as long as neither
  begins with the other.  This alone keeps ordinals and names apart; numbers are told from each
  other by their digits.

  * `Marking.ofSigns_eq_ok_iff`: the markings are what signs are accepted as;
  * `Marking.isPlaceholder_namedMarker_iff`: behind the named sign words are names, and nothing
    else is;
  * `Value.SameReference` says when two values refer to the same placeholders, and
    `Marking.marker_ofValue_eq_iff` that they are then written alike, and only then;
  * `markers_told_apart` puts these together, and says it of the slots, too.
-/
import SqlCompose.Proofs.Agreement
import SqlCompose.Proofs.Respelling

namespace SqlCompose

/-! ## Signs -/

namespace Marking

/-- A marking is what its own signs are accepted as, and no others. -/
theorem ofSigns_eq_ok_iff {o n d : Text} {m : Marking} :
    ofSigns o n d = .ok m ↔ m.ordinalSign = o ∧ m.namedSign = n ∧ m.displaySign = d := by
  constructor
  · intro h
    unfold ofSigns at h
    split_ifs at h
    cases h
    exact ⟨rfl, rfl, rfl⟩
  · rintro ⟨rfl, rfl, rfl⟩
    rw [ofSigns, dif_pos m.ordinalSign_isWord, dif_pos m.namedSign_isWord,
      dif_pos ⟨m.ordinalSign_not_isPrefixOf, m.namedSign_not_isPrefixOf⟩]

variable {m : Marking} {token x : Text}

/-- No token is both an ordinal and a name. -/
theorem ordinal?_eq_none_or (m : Marking) (token : Text) :
    m.ordinal? token = none ∨ m.name? token = none := by
  cases h : m.ordinal? token with
  | none => exact .inl rfl
  | some n => exact .inr (name?_eq_none_of_ordinal? h)

/-- **Behind the named sign words are names, and nothing else is a placeholder.** -/
theorem isPlaceholder_namedMarker_iff :
    m.isPlaceholder (m.namedMarker x) = true ↔ x.IsWord := by
  rw [isPlaceholder_iff]
  constructor
  · rintro (⟨n, hn⟩ | ⟨name, hname⟩)
    · rw [ordinal?_namedMarker] at hn
      cases hn
    · obtain ⟨he, hword⟩ := name?_eq_some_iff.1 hname
      rwa [List.append_cancel_left he]
  · exact fun hx => .inr ⟨x, name?_eq_some_iff.2 ⟨rfl, hx⟩⟩

end Marking

/-! ## References -/

namespace Value

/-- Two values refer to the same placeholders: both are the same integer, or none is an integer
    and they are displayed alike. -/
def SameReference (v w : Value) : Prop :=
  (∃ n, v = int n ∧ w = int n) ∨ (∀ n, v ≠ int n ∧ w ≠ int n) ∧ v.display = w.display

end Value

/-- Values that are no integers refer to the names that they display. -/
theorem Key.ofValue_eq_named {v : Value} (h : ∀ n, v ≠ .int n) :
    Key.ofValue v = .named v.display := by
  cases v with
  | int n => exact absurd rfl (h n)
  | null | bool | float | text | statement => rfl

theorem Key.ofValue_eq_iff {v w : Value} : Key.ofValue v = Key.ofValue w ↔ v.SameReference w := by
  by_cases hv : ∃ n, v = .int n
  · obtain ⟨n, rfl⟩ := hv
    by_cases hw : ∃ k, w = .int k
    · obtain ⟨k, rfl⟩ := hw
      constructor
      · rintro ⟨⟩
        exact .inl ⟨n, rfl, rfl⟩
      · rintro (⟨i, hi, hk⟩ | ⟨h, -⟩)
        · rw [hi, hk]
        · exact absurd rfl (h n).1
    · have hw := not_exists.1 hw
      rw [ofValue_eq_named hw]
      simp [Key.ofValue, Value.SameReference, hw]
  · have hv := not_exists.1 hv
    rw [ofValue_eq_named hv]
    by_cases hw : ∃ k, w = .int k
    · obtain ⟨k, rfl⟩ := hw
      simp [Key.ofValue, Value.SameReference, hv]
    · have hw := not_exists.1 hw
      rw [ofValue_eq_named hw]
      simp [Value.SameReference, hv, hw]

theorem Marking.marker_ofValue_eq_iff {m : Marking} {v w : Value} :
    m.marker (.ofValue v) = m.marker (.ofValue w) ↔ v.SameReference w := by
  rw [marker_inj, Key.ofValue_eq_iff]

/-! ## Slots -/

namespace Parameters

/-- References that are not the same share no slot. -/
theorem Consistent.disjoint_slots {p : Parameters} (hp : p.Consistent) {v w : Value}
    (h : ¬ v.SameReference w) {vs ws : List Nat} (hv : p.slots? v = some vs)
    (hw : p.slots? w = some ws) : vs.Disjoint ws := by
  intro s hvs hws
  have hbv : p.isBound (p.marker v) s = true := isBound_iff.2 ⟨vs, hv, hvs⟩
  have hbw : p.isBound (p.marker w) s = true := isBound_iff.2 ⟨ws, hw, hws⟩
  exact h (Marking.marker_ofValue_eq_iff.1 (hp.isBound_inj hbv hbw))

/-- **Placeholders are told apart by what they refer to.**  Whatever signs are accepted for a
    marking: no token is both an ordinal and a name; the placeholder of an ordinal reads as this
    ordinal; behind the named sign exactly the words are placeholders, which never read as an
    ordinal, do not begin with the ordinal sign and are not renumbered when they are taken in.
    Two references are written alike exactly if they are the same integer, or none is an integer
    and they are displayed alike; then they have the same slots, and otherwise, in parameters
    that come from nothing, they share none. -/
theorem markers_told_apart (m : Marking) :
    (∀ o n d, Marking.ofSigns o n d = .ok m ↔
        m.ordinalSign = o ∧ m.namedSign = n ∧ m.displaySign = d) ∧
      (∀ token, m.ordinal? token = none ∨ m.name? token = none) ∧
      (∀ n : Nat, m.ordinal? (m.ordinalMarker n) = some n) ∧
      (∀ x, (m.isPlaceholder (m.namedMarker x) = true ↔ x.IsWord) ∧
        m.ordinal? (m.namedMarker x) = none ∧ ¬ m.ordinalSign <+: m.namedMarker x ∧
        ∀ p : Parameters, p.marking = m → p.renumber (m.namedMarker x) = m.namedMarker x) ∧
      (∀ p : Parameters, p.marking = m → ∀ v w, (p.marker v = p.marker w ↔ v.SameReference w) ∧
        (v.SameReference w → p.slots? v = p.slots? w)) ∧
      ∀ p, Evolves m (empty m) p → ∀ v w vs ws, p.slots? v = some vs → p.slots? w = some ws →
        ¬ v.SameReference w → vs.Disjoint ws := by
  refine ⟨fun _ _ _ => Marking.ofSigns_eq_ok_iff, m.ordinal?_eq_none_or,
    m.ordinal?_ordinalMarker, ?_, ?_, ?_⟩
  · intro x
    refine ⟨Marking.isPlaceholder_namedMarker_iff, m.ordinal?_namedMarker x,
      Marking.not_isPrefix_namedMarker x, ?_⟩
    rintro p rfl
    exact p.renumber_namedMarker x
  · rintro p rfl v w
    refine ⟨Marking.marker_ofValue_eq_iff, ?_⟩
    intro h
    rw [slots?, slots?, marker, marker, Marking.marker_ofValue_eq_iff.2 h]
  · intro p h v w vs ws hv hw hne
    obtain ⟨hp, -⟩ := h.consistent (consistent_empty m) rfl
    exact hp.disjoint_slots hne hv hw

/-- Signs made of digits and a minus sign; the integer 1 and the text, and true and its text,
    are declared in one batch. -/
theorem markers_told_apart_digit_signs :
    ∃ m, Marking.ofSigns "1" "-" "#" = .ok m ∧ m.ordinal? (m.ordinalMarker 12) = some 12 ∧
      m.isPlaceholder (m.namedMarker "1") = true ∧
      let p := (empty m).after (.declareAll [.null, .text "1", .bool true, .text "True", .int 1])
      p.slots? (.int 1) = some [0, 4] ∧ p.slots? (.text "1") = some [1] ∧
        [0, 4].Disjoint [1] ∧ p.slots? (.bool true) = p.slots? (.text "True") := by
  let m : Marking := ⟨"1", "-", "#", by decide, by decide, by decide, by decide⟩
  obtain ⟨hsigns, -, hnumber, hname, hsame, hapart⟩ := markers_told_apart m
  refine ⟨m, (hsigns _ _ _).2 ⟨rfl, rfl, rfl⟩, hnumber 12, (hname "1").1.2 (by decide), ?_⟩
  intro p
  have hp : Evolves m (empty m) p := .change _ (.refl _)
  have hint : p.slots? (.int 1) = some [0, 4] := by decide +kernel
  have htext : p.slots? (.text "1") = some [1] := by decide +kernel
  refine ⟨hint, htext, hapart p hp _ _ _ _ hint htext ?_, ?_⟩
  · simp [Value.SameReference]
  · refine (hsame p rfl _ _).2 (.inr ⟨?_, rfl⟩)
    simp

end Parameters

end SqlCompose
