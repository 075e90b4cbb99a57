/-
  Merging — a statement taken into another compiles to what it compiled to.

  * `valueAt_absorb_outer` and `valueAt_absorb_inner`: the placeholders of either
    side find their values where they were, the inner ones behind the outer slots;
  * `merge_eq_ok`: the text that is taken in has the inner pieces with their
    placeholders renumbered;
  * `compile_merge` puts both together.
-/
import SqlCompose.Proofs.Evolution
import SqlCompose.Proofs.Filling

namespace SqlCompose.Parameters

open Template

variable {p c : Parameters}

/-! ## Values -/

theorem valueAt_absorb_outer (hc : c.Consistent) (hm : c.marking = p.marking) {position : Nat}
    {t v : Text} (h : p.valueAt position t = .ok v) :
    (p.absorb c).valueAt position t = .ok v := by
  obtain ⟨hb, hv⟩ := valueAt_eq_ok_iff.1 h
  obtain ⟨hlt, -⟩ := List.getElem?_eq_some_iff.1 hv
  refine valueAt_eq_ok_iff.2 ⟨?_, ?_⟩
  · rw [(continues_absorb hc hm).isBound_eq position hlt, hb]
  · rw [← hv]
    exact List.getElem?_append_left hlt

theorem valueAt_absorb_inner (hc : c.Consistent) (hm : c.marking = p.marking) {position : Nat}
    {t v : Text} (h : c.valueAt position t = .ok v) :
    (p.absorb c).valueAt (p.slotCount + position) (p.renumber t) = .ok v := by
  obtain ⟨hb, hv⟩ := valueAt_eq_ok_iff.1 h
  refine valueAt_eq_ok_iff.2 ⟨isBound_absorb hc hm hb, ?_⟩
  rw [← hv]
  show (p.values ++ c.values)[p.values.length + position]? = _
  rw [List.getElem?_append_right (by omega), Nat.add_sub_cancel_left]

theorem valuesFrom_absorb_outer (hc : c.Consistent) (hm : c.marking = p.marking) {position : Nat}
    {ts vs : List Text} (h : p.valuesFrom position ts = .ok vs) :
    (p.absorb c).valuesFrom position ts = .ok vs := by
  have hstep : ∀ i t v, p.valueAt i t = .ok v → (p.absorb c).valueAt (0 + i) (id t) = .ok v := by
    intro i t v hv
    rw [Nat.zero_add]
    exact valueAt_absorb_outer hc hm hv
  have := valuesFrom_map hstep h
  rwa [Nat.zero_add, List.map_id] at this

theorem valuesFrom_absorb_inner (hc : c.Consistent) (hm : c.marking = p.marking)
    {ts vs : List Text} (h : c.valuesFrom 0 ts = .ok vs) :
    (p.absorb c).valuesFrom p.slotCount (ts.map p.renumber) = .ok vs := by
  refine valuesFrom_map (k := p.slotCount) ?_ h
  intro i t v hv
  exact valueAt_absorb_inner hc hm hv

/-- A declared placeholder is moved on as a reference is. -/
theorem shift_of_isKey {ordinals : Nat} {t : Text} (h : p.marking.IsKey ordinals t) :
    p.marking.shift p.ordinals t = p.renumber t := by
  rcases h with ⟨n, -, -, rfl⟩ | ⟨name, -, rfl⟩
  · rw [renumber_ordinalMarker, Marking.shift, Marking.ordinal?_ordinalMarker]
  · rw [renumber_namedMarker, Marking.shift, Marking.ordinal?_namedMarker]

theorem renumber_of_isKey_of_ordinals {ordinals : Nat} {t : Text} (h : p.marking.IsKey ordinals t)
    (h₀ : p.ordinals = 0) : p.renumber t = t := by
  rcases h with ⟨n, -, -, rfl⟩ | ⟨name, -, rfl⟩
  · rw [renumber_ordinalMarker, h₀, Nat.add_zero]
  · rw [renumber_namedMarker]

/-! ## Texts -/

/-- **What is taken in reads as the inner text with its placeholders renumbered**, if
    these are declared. -/
theorem merge_eq_ok (hm : c.marking = p.marking) {ordinals : Nat} {raw : Text}
    (hkey : ∀ t ∈ placeholders p.marking (ofText raw), p.marking.IsKey ordinals t) :
    ∃ text, p.merge raw c = .ok (text, p.absorb c) ∧
      placeholders p.marking (ofText text) =
        (placeholders p.marking (ofText raw)).map p.renumber ∧
      ∀ vs : List Text, vs.length = (placeholders p.marking (ofText raw)).length →
        filled p.marking vs (ofText text) = filled p.marking vs (ofText raw) := by
  rw [merge_eq hm.symm]
  by_cases h₀ : p.ordinals = 0
  · have hid : ∀ t ∈ placeholders p.marking (ofText raw), p.renumber t = t := by
      intro t ht
      exact renumber_of_isKey_of_ordinals (hkey t ht) h₀
    refine ⟨raw, by rw [if_pos h₀], ?_, ?_⟩
    · rw [List.map_congr_left hid, List.map_id']
    · intro vs _
      rfl
  · have hshift : ∀ t ∈ placeholders p.marking (ofText raw),
        p.marking.shift p.ordinals t = p.renumber t := by
      intro t ht
      exact shift_of_isKey (hkey t ht)
    refine ⟨_, by rw [if_neg h₀], ?_, ?_⟩
    · rw [ofText_movedOn, placeholders_mapWords_shift]
      exact List.map_congr_left hshift
    · intro vs hvs
      rw [ofText_movedOn, filled_mapWords_shift _ hvs]

theorem not_isPlaceholder_singleton (m : Marking) (a : Char) : ¬ m.isPlaceholder [a] := by
  intro h
  have hlen := Marking.two_le_length_of_isPlaceholder h
  simp at hlen

/-- The pieces of a statement in parentheses behind a closed text. -/
theorem ofText_group {before : Text} (h : Closed (ofText before)) (text : Text) :
    ofText (before ++ " ( " ++ text ++ " )") =
      ofText before ++ ([.space, .word ['('], .space] ++ ofText text ++ [.space, .word [')']]) := by
  have hopen : ofText ['('] = [.word ['(']] :=
    ofText_word (by simp) (by simp) (by simp) (by simp)
  have hclose : ofText [')'] = [.word [')']] :=
    ofText_word (by simp) (by simp) (by simp) (by simp)
  have hwhole : before ++ " ( " ++ text ++ " )" =
      before ++ ' ' :: (['('] ++ ' ' :: (text ++ ' ' :: [')'])) := by simp
  rw [hwhole, ofText_append_space h, ofText_append_space (by rw [hopen]; simp [Closed]),
    ofText_append_of_not_mem text (by simp) (by simp), hopen, hclose]
  simp

section
variable {m : Marking} {before : Text} (h : Closed (ofText before))
include h

theorem placeholders_group (text : Text) :
    placeholders m (ofText (before ++ " ( " ++ text ++ " )")) =
      placeholders m (ofText before) ++ placeholders m (ofText text) := by
  have hp₁ := not_isPlaceholder_singleton m '('
  have hp₂ := not_isPlaceholder_singleton m ')'
  rw [ofText_group h]
  simp [placeholders, hp₁, hp₂]

theorem filled_group {vs ws : List Text} {text : Text}
    (hv : vs.length = (placeholders m (ofText before)).length)
    (hw : ws.length = (placeholders m (ofText text)).length) :
    filled m (vs ++ ws) (ofText (before ++ " ( " ++ text ++ " )")) =
      filled m vs (ofText before) ++ " ( " ++ filled m ws (ofText text) ++ " )" := by
  have hend : filled m [] [.space, .word [')']] = " )".toList := filled_nil m _
  rw [ofText_group h, filled_append hv, List.append_assoc, List.cons_append, List.cons_append,
    List.cons_append, List.nil_append, filled_space,
    filled_word_of_not (not_isPlaceholder_singleton m '('), filled_space, ← List.append_nil ws,
    filled_append hw, hend]
  simp

end

/-! ## Compiling -/

/-- **Compiling fills in the values of the placeholders**, unless there are some and
    no slots. -/
theorem compile_eq_map {raw : Text}
    (h : p.slotCount = 0 → placeholders p.marking (ofText raw) = []) :
    compile raw (some p) = (p.valuesFrom 0 (placeholders p.marking (ofText raw))).map
      fun vs => filled p.marking vs (ofText raw) := by
  rw [compile]
  split
  · next h₀ =>
    rw [h h₀]
    show Except.ok raw = Except.ok (filled p.marking [] (ofText raw))
    rw [filled_nil, text_ofText]
  · rw [fillFrom_eq]

theorem compile_eq_ok_iff {raw s : Text}
    (h : p.slotCount = 0 → placeholders p.marking (ofText raw) = []) :
    compile raw (some p) = .ok s ↔ ∃ vs,
      p.valuesFrom 0 (placeholders p.marking (ofText raw)) = .ok vs ∧
        s = filled p.marking vs (ofText raw) := by
  rw [compile_eq_map h]
  cases p.valuesFrom 0 (placeholders p.marking (ofText raw)) with
  | error e =>
    constructor
    · rintro ⟨⟩
    · rintro ⟨_, ⟨⟩, -⟩
  | ok vs =>
    constructor
    · intro h; cases h; exact ⟨vs, rfl, rfl⟩
    · rintro ⟨_, hvs, rfl⟩; cases hvs; rfl

theorem isKey_of_valuesFrom (hp : p.Consistent) {position : Nat} {ts vs : List Text}
    (h : p.valuesFrom position ts = .ok vs) : ∀ t ∈ ts, p.marking.IsKey p.ordinals t := by
  induction ts generalizing position vs with
  | nil =>
    intro t ht
    cases ht
  | cons t ts ih =>
    intro u hu
    obtain ⟨v, ws, hv, hws, -⟩ := valuesFrom_cons_eq_ok_iff.1 h
    rcases List.mem_cons.1 hu with rfl | hu
    · exact hp.isKey_of_isBound (valueAt_eq_ok_iff.1 hv).1
    · exact ih hws u hu

/-- **A statement taken into another compiles to what it compiled to**, and so does
    the text in front of it: whatever ordinals and names both sides use, `before`
    with the inner statement behind it compiles to what `before` and the inner
    statement compile to by themselves. -/
theorem compile_merge {m : Marking} (hp : Evolves m (empty m) p) (hc : Evolves m (empty m) c)
    (hslots : 0 < c.slotCount) {raw s before b : Text} (hs : compile raw (some c) = .ok s)
    (hclosed : Closed (ofText before))
    (hcount : (placeholders m (ofText before)).length = p.slotCount)
    (hb : compile before (some p) = .ok b) :
    ∃ text q, p.merge raw c = .ok (text, q) ∧
      compile (before ++ " ( " ++ text ++ " )") (some q) = .ok (b ++ " ( " ++ s ++ " )") := by
  obtain ⟨hpc, hpm⟩ := hp.consistent (consistent_empty m) rfl
  obtain ⟨hcc, hcm⟩ := hc.consistent (consistent_empty m) rfl
  have hpm : p.marking = m := hpm.marking_eq
  have hcm : c.marking = m := hcm.marking_eq
  have hm : c.marking = p.marking := hcm.trans hpm.symm
  -- what both sides find by themselves
  obtain ⟨ws, hws, rfl⟩ := (compile_eq_ok_iff (by omega)).1 hs
  rw [← hpm] at hcount
  have hnone : p.slotCount = 0 → placeholders p.marking (ofText before) = [] := by
    intro h₀
    exact List.eq_nil_of_length_eq_zero (hcount.trans h₀)
  obtain ⟨vs, hvs, rfl⟩ := (compile_eq_ok_iff hnone).1 hb
  have hkey := isKey_of_valuesFrom hcc hws
  rw [hm] at hws hkey ⊢
  obtain ⟨text, hmerge, hph, hfill⟩ := merge_eq_ok hm hkey
  refine ⟨text, _, hmerge, ?_⟩
  have houter := valuesFrom_absorb_outer hcc hm hvs
  have hinner := valuesFrom_absorb_inner hcc hm hws
  have hpos : 0 < (p.absorb c).slotCount := by rw [slotCount_absorb]; omega
  refine (compile_eq_ok_iff (by omega)).2 ⟨vs ++ ws, ?_, ?_⟩
  · rw [marking_absorb, placeholders_group hclosed, hph]
    exact valuesFrom_append houter (by rwa [Nat.zero_add, hcount])
  · have hwlen := length_of_valuesFrom hws
    rw [marking_absorb, filled_group hclosed (length_of_valuesFrom hvs) (by simp [hph, hwlen]),
      hfill ws hwlen]

/-- Both sides use an ordinal and the name `x`, and both have a placeholder in quotes
    that is none. -/
theorem compile_merge_sharing_name :
    let p := (((empty .standard).after (.declare .null)).after (.declare (.text "x"))).after
      (.setAll [.int 1, .text "a"])
    let c := ((empty .standard).after (.declareAll [.text "x", .null])).after
      (.setAll [.text "b", .int 2])
    ∃ text q, p.merge "$?x = $$1 , '$$1'".toList c = .ok (text, q) ∧
      compile ("\"$$1 \" = $$1 , $?x" ++ " ( " ++ text ++ " )") (some q) =
        .ok ("\"$$1 \" = 1 , a" ++ " ( " ++ "b = 2 , '$$1'" ++ " )") := by
  intro p c
  have hp : Evolves .standard (empty .standard) p :=
    .change _ (.change _ (.change _ (.refl _)))
  have hc : Evolves .standard (empty .standard) c := .change _ (.change _ (.refl _))
  refine compile_merge hp hc (by decide) (by decide +kernel) ?_ (by decide +kernel) (by decide +kernel)
  intro w hw
  have hpieces : ofText "\"$$1 \" = $$1 , $?x" = [.quoted "\"$$1 \"", .space, .word "=", .space,
      .word "$$1", .space, .word ",", .space, .word "$?x"] := by decide +kernel
  rw [hpieces] at hw
  revert w
  simp

end SqlCompose.Parameters
