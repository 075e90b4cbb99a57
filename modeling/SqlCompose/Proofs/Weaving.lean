/-
  Weaving — a compiled statement is its own text with values woven in.

  Placeholders divide a statement into gaps.  Compiling puts a value between every two of
  them; it does not look into the values, and does not change the gaps.

  * `gaps` are the stretches in front of, between and behind the placeholders, and `woven`
    is what gaps and other texts make up in turn;
  * `filled_eq_woven` and `substitute_eq_woven`: what is filled into a template is woven into
    its gaps, and so is what a function makes of its placeholders;
  * `Fills` says that a placeholder of a certain number finds its value, and
    `valuesFrom_eq_error` that the first one that does not decides the error;
  * `compile_woven` puts these together.
-/
import SqlCompose.Proofs.Replacement

namespace SqlCompose

/-! ## Gaps -/

namespace Template

/-- The stretches of a template in front of, between and behind its placeholders. -/
def gaps (m : Marking) : Template → List Text
  | [] => [[]]
  | .word t :: ps =>
    if m.isPlaceholder t then [] :: gaps m ps else (gaps m ps).modifyHead (t ++ ·)
  | p :: ps => (gaps m ps).modifyHead (p.text ++ ·)

/-- The gaps with the given texts between them, one after each gap but the last. -/
def woven : List Text → List Text → Text
  | [], _ => []
  | c :: _, [] => c
  | c :: cs, v :: vs => c ++ v ++ woven cs vs

variable {m : Marking}

theorem gaps_word (t : Text) (ps : Template) : gaps m (.word t :: ps) =
    if m.isPlaceholder t then [] :: gaps m ps else (gaps m ps).modifyHead (t ++ ·) := rfl

theorem gaps_space (ps : Template) :
    gaps m (.space :: ps) = (gaps m ps).modifyHead ([' '] ++ ·) := rfl

theorem gaps_quoted (q : Text) (ps : Template) :
    gaps m (.quoted q :: ps) = (gaps m ps).modifyHead (q ++ ·) := rfl

/-- There is one gap more than there are placeholders. -/
theorem length_gaps (m : Marking) (ps : Template) :
    (gaps m ps).length = (placeholders m ps).length + 1 := by
  induction ps with
  | nil => rfl
  | cons p ps ih =>
    cases p with
    | word t =>
      rw [gaps_word, placeholders_word]
      split
      · rw [List.length_cons, List.length_cons, ih]
      · rw [List.length_modifyHead, ih]
    | space => rw [gaps_space, List.length_modifyHead, ih, placeholders_space]
    | quoted q => rw [gaps_quoted, List.length_modifyHead, ih, placeholders_quoted]

theorem woven_modifyHead (a : Text) {cs : List Text} (h : cs ≠ []) (vs : List Text) :
    woven (cs.modifyHead (a ++ ·)) vs = a ++ woven cs vs := by
  obtain ⟨c, cs, rfl⟩ := List.exists_cons_of_ne_nil h
  cases vs <;> simp [woven]

theorem gaps_ne_nil (m : Marking) (ps : Template) : gaps m ps ≠ [] := by
  intro h
  have hlen := length_gaps m ps
  rw [h] at hlen
  cases hlen

/-- **What is filled into a template is woven into its gaps.** -/
theorem filled_eq_woven {vs : List Text} {ps : Template}
    (h : vs.length = (placeholders m ps).length) : filled m vs ps = woven (gaps m ps) vs := by
  induction ps generalizing vs with
  | nil =>
    rw [List.eq_nil_of_length_eq_zero h]
    rfl
  | cons p ps ih =>
    cases p with
    | word t =>
      rw [placeholders_word] at h
      by_cases ht : m.isPlaceholder t
      · rw [if_pos ht] at h
        obtain ⟨v, vs, rfl⟩ := List.exists_cons_of_length_eq_add_one h
        rw [filled_word, if_pos ht, gaps_word, if_pos ht, ih (Nat.succ.inj h), woven, List.nil_append]
      · rw [if_neg ht] at h
        rw [filled_word_of_not ht, gaps_word, if_neg ht, woven_modifyHead t (gaps_ne_nil m ps), ih h]
    | space =>
      rw [filled_space, gaps_space, woven_modifyHead _ (gaps_ne_nil m ps), ih h]
      rfl
    | quoted q =>
      rw [filled_quoted, gaps_quoted, woven_modifyHead _ (gaps_ne_nil m ps), ih h]

/-- Substitution weaves what is made of the placeholders into the gaps. -/
theorem substitute_eq_woven (m : Marking) (f : Text → Text) (ps : Template) :
    substitute m f ps = woven (gaps m ps) ((placeholders m ps).map f) := by
  induction ps with
  | nil => rfl
  | cons p ps ih =>
    have hcons : substitute m f (p :: ps) = substitute m f [p] ++ substitute m f ps :=
      @List.flatMap_append _ _ [p] ps _
    cases p with
    | word t =>
      rw [hcons, ih, gaps_word, placeholders_word]
      by_cases ht : m.isPlaceholder t
      · rw [if_pos ht, if_pos ht, List.map_cons, woven]
        simp [substitute, ht]
      · rw [if_neg ht, if_neg ht, woven_modifyHead t (gaps_ne_nil m ps)]
        simp [substitute, ht]
    | space =>
      rw [hcons, ih, gaps_space, woven_modifyHead _ (gaps_ne_nil m ps), placeholders_space]
      rfl
    | quoted q =>
      rw [hcons, ih, gaps_quoted, woven_modifyHead _ (gaps_ne_nil m ps), placeholders_quoted]
      congr 1
      exact List.append_nil q

/-- With the placeholders themselves between them, the gaps are the text. -/
theorem woven_placeholders (m : Marking) (ps : Template) :
    woven (gaps m ps) (placeholders m ps) = text ps := by
  rw [← substitute_id m, substitute_eq_woven, List.map_id]

end Template

/-! ## Values -/

namespace Parameters

open Template

variable {p : Parameters} {position : Nat} {t : Text} {ts : List Text}

/-- The placeholder `t`, if it is number `position`, finds its value: the slot of this
    number is there, belongs to its reference and holds a value. -/
def Fills (p : Parameters) (position : Nat) (t : Text) : Prop :=
  position < p.slotCount ∧ p.isBound t position = true ∧ ∃ v, p.values[position]? = some (some v)

/-- What is wrong with a placeholder that does not find its value. -/
def fault (p : Parameters) (position : Nat) (t : Text) : Error :=
  if p.slotCount ≤ position then .outOfBounds position p.slotCount (p.marking.display t)
  else if p.isBound t position = false then .outOfOrder position (p.marking.display t)
  else .missingValue (p.marking.display t)

theorem exists_valueAt_iff : (∃ v, p.valueAt position t = .ok v) ↔ p.Fills position t := by
  simp only [valueAt_eq_ok_iff, Fills, exists_and_left]
  refine ⟨?_, And.right⟩
  rintro ⟨hb, v, hv⟩
  exact ⟨(List.getElem?_eq_some_iff.1 hv).1, hb, v, hv⟩

theorem valueAt_eq_fault (h : ¬ p.Fills position t) :
    p.valueAt position t = .error (p.fault position t) := by
  unfold valueAt fault
  split
  · rfl
  · next hlt =>
    split
    · next hb => simp [hb]
    · next hb =>
      have hb : p.isBound t position = true := by simpa using hb
      split
      · next v hv => exact absurd ⟨Nat.lt_of_not_le hlt, hb, v, hv⟩ h
      · simp [hb]

/-- **The first placeholder that does not find its value decides the error.** -/
theorem valuesFrom_eq_error {i : Nat} (hi : ts[i]? = some t) (ht : ¬ p.Fills (position + i) t)
    (hall : ∀ j < i, ∀ u, ts[j]? = some u → p.Fills (position + j) u) :
    p.valuesFrom position ts = .error (p.fault (position + i) t) := by
  induction ts generalizing position i with
  | nil => cases hi
  | cons u ts ih =>
    rw [valuesFrom]
    cases i with
    | zero =>
      cases hi
      rw [Nat.add_zero] at ht ⊢
      rw [valueAt_eq_fault ht]
      rfl
    | succ i =>
      have hplace : ∀ j, position + 1 + j = position + (j + 1) := by
        intro j
        omega
      obtain ⟨v, hv⟩ := exists_valueAt_iff.2 (hall 0 (Nat.succ_pos i) u rfl)
      have hrest : p.valuesFrom (position + 1) ts = .error (p.fault (position + 1 + i) t) := by
        apply ih hi
        · rwa [hplace]
        · intro j hj w hw
          rw [hplace]
          exact hall (j + 1) (Nat.succ_lt_succ hj) w hw
      rw [show p.valueAt position u = .ok v from hv, hrest, hplace]
      rfl

/-- If all placeholders find their values, these are the values of the slots in a row. -/
theorem exists_valuesFrom (h : ∀ (i : Nat) (t : Text), ts[i]? = some t → p.Fills (position + i) t) :
    ∃ vs, p.valuesFrom position ts = .ok vs ∧ vs.length = ts.length ∧
      ∀ i < ts.length, p.values[position + i]? = some vs[i]? := by
  cases hvs : p.valuesFrom position ts with
  | ok vs =>
    obtain ⟨hlen, hall⟩ := valuesFrom_eq_ok_iff.1 hvs
    refine ⟨vs, rfl, hlen, ?_⟩
    intro i hi
    exact (hall i ts[i] (List.getElem?_eq_getElem hi)).2
  | error e =>
    obtain ⟨i, t, hi, he⟩ := exists_of_valuesFrom_error hvs
    obtain ⟨v, hv⟩ := exists_valueAt_iff.2 (h i t hi)
    rw [hv] at he
    cases he

/-- **Compiling weaves values into a text and does not change the rest.**  The gaps between
    the placeholders depend on the text and the marking only, and with the placeholders
    between them they are the text.  If every placeholder owns the slot of its number and
    this holds a value, the statement compiles to the gaps with the values of the slots in
    a row between them, whatever these values look like.  Otherwise the first placeholder
    for which this fails decides the error: its number is too high, or the slot belongs to
    another reference, or it holds no value. -/
theorem compile_woven {p : Parameters} (hpos : 0 < p.slotCount) (raw : Text) :
    let ts := placeholders p.marking (ofText raw)
    let cs := gaps p.marking (ofText raw)
    cs.length = ts.length + 1 ∧ woven cs ts = raw ∧
      ((∀ i t, ts[i]? = some t → p.Fills i t) →
        ∃ vs, vs.length = ts.length ∧ (∀ i < ts.length, p.values[i]? = some vs[i]?) ∧
          compile raw (some p) = .ok (woven cs vs)) ∧
      ∀ i t, ts[i]? = some t → ¬ p.Fills i t → (∀ j < i, ∀ u, ts[j]? = some u → p.Fills j u) →
        compile raw (some p) = .error
          (if p.slotCount ≤ i then .outOfBounds i p.slotCount (p.marking.display t)
          else if p.isBound t i = false then .outOfOrder i (p.marking.display t)
          else .missingValue (p.marking.display t)) := by
  intro ts cs
  have hcompile : compile raw (some p) =
      (p.valuesFrom 0 ts).map fun vs => filled p.marking vs (ofText raw) :=
    compile_eq_map fun h₀ => absurd h₀ (by omega)
  refine ⟨length_gaps _ _, ?_, ?_, ?_⟩
  · rw [woven_placeholders, text_ofText]
  · intro hall
    have hall : ∀ (i : Nat) (t : Text), ts[i]? = some t → p.Fills (0 + i) t := by
      simpa only [Nat.zero_add] using hall
    obtain ⟨vs, hvs, hlen, hvalues⟩ := exists_valuesFrom hall
    refine ⟨vs, hlen, by simpa only [Nat.zero_add] using hvalues, ?_⟩
    rw [hcompile, hvs, ← filled_eq_woven hlen]
    rfl
  · intro i t hi ht hall
    have hfault : p.valuesFrom 0 ts = .error (p.fault (0 + i) t) := by
      apply valuesFrom_eq_error hi
      · rwa [Nat.zero_add]
      · simpa only [Nat.zero_add] using hall
    rw [hcompile, hfault, Nat.zero_add]
    rfl

/-- A placeholder right behind a literal that looks like it, with a value that looks like
    another placeholder and has a quote in it; and a statement with a placeholder too many. -/
theorem compile_woven_marker_as_value :
    let p := (((empty .standard).after (.declareAll [.text "x", .null])).after
      (.set (.text "x") (.text "$$1 '"))).after (.set (.int 1) (.text "b"))
    let raw : Text := "'$?x'$?x , $$1"
    0 < p.slotCount ∧ gaps .standard (ofText raw) = ["'$?x'".toList, " , ".toList, []] ∧
      (∃ vs, vs.length = 2 ∧ compile raw (some p) =
        .ok (woven ["'$?x'".toList, " , ".toList, []] vs)) ∧
      compile raw (some p) = .ok "'$?x'$$1 ' , b" ∧
      compile "$?x $$1 $$1" (some p) = .error (.outOfBounds 2 2 "$1") := by
  intro p raw
  have hm : p.marking = .standard := rfl
  have hpos : 0 < p.slotCount := by decide +kernel
  have hgaps : gaps .standard (ofText raw) = ["'$?x'".toList, " , ".toList, []] := by
    decide +kernel
  have hreads : placeholders .standard (ofText raw) = ["$?x".toList, "$$1".toList] := by
    decide +kernel
  have hreads' : placeholders .standard (ofText "$?x $$1 $$1") =
      ["$?x".toList, "$$1".toList, "$$1".toList] := by decide +kernel
  have hx : p.Fills 0 "$?x" := ⟨by decide +kernel, by decide +kernel, "$$1 '".toList, by decide +kernel⟩
  have h₁ : p.Fills 1 "$$1" := ⟨by decide +kernel, by decide +kernel, "b".toList, by decide +kernel⟩
  refine ⟨hpos, hgaps, ?_, by decide +kernel, ?_⟩
  · obtain ⟨-, -, hok, -⟩ := compile_woven hpos raw
    obtain ⟨vs, hlen, -, hvs⟩ := hok (by
      intro i t hi
      rw [hm, hreads] at hi
      match i, hi with
      | 0, rfl => exact hx
      | 1, rfl => exact h₁)
    rw [hm] at hlen hvs
    rw [hreads] at hlen
    rw [hgaps] at hvs
    exact ⟨vs, hlen, hvs⟩
  · obtain ⟨-, -, -, herr⟩ := compile_woven hpos "$?x $$1 $$1"
    refine (herr 2 "$$1" ?_ ?_ ?_).trans (by decide +kernel)
    · rw [hm, hreads']
      rfl
    · intro h₂
      exact absurd h₂.1 (by decide +kernel)
    · intro j hj u hu
      rw [hm, hreads'] at hu
      match j, hj, hu with
      | 0, _, rfl => exact hx
      | 1, _, rfl => exact h₁

end Parameters

end SqlCompose
