/-
  Shortcut — a statement without slots is taken as it is, and not read.

  Compiling reads the placeholders of a statement one after the other and looks for the slot of
  each.  Without slots it does not even begin to read, so a placeholder that was written by
  hand is left where it is.

  * `Parameters.walk` compiles without this shortcut;
  * `exists_first_fault`: if there are more placeholders than slots, one of them does not find
    its value, at the latest the one behind the last slot;
  * `compile_eq_walk_iff`: the shortcut makes a difference if a statement without slots has
    placeholders, and never else;
  * `compiled_within_slots` puts these together, and says that builders whose own texts spell no
    placeholder compile as if there were no shortcut.
-/
import SqlCompose.Proofs.Weaving
import Mathlib.Data.Nat.Find

namespace SqlCompose

open Template

namespace Parameters

/-! ## Without the shortcut -/

/-- The statement with every placeholder replaced, read even if there are no slots. -/
def walk (p : Parameters) (raw : Text) : Except Error Text := p.fillFrom 0 (ofText raw)

variable {p : Parameters} {raw : Text} {ts : List Text}

/-- The first placeholder that does not find its value decides the error. -/
theorem walk_eq_error {i : Nat} {t : Text} (hi : (placeholders p.marking (ofText raw))[i]? = some t)
    (ht : ¬ p.Fills i t)
    (hall : ∀ j < i, ∀ u, (placeholders p.marking (ofText raw))[j]? = some u → p.Fills j u) :
    p.walk raw = .error (p.fault i t) := by
  have hfault : p.valuesFrom 0 (placeholders p.marking (ofText raw)) =
      .error (p.fault (0 + i) t) := by
    apply valuesFrom_eq_error hi
    · rwa [Nat.zero_add]
    · simpa only [Nat.zero_add] using hall
  rw [walk, fillFrom_eq, hfault, Nat.zero_add]
  rfl

/-- Behind the last slot no placeholder finds its value. -/
theorem not_fills {i : Nat} (h : p.slotCount ≤ i) (t : Text) : ¬ p.Fills i t := by
  rintro ⟨hlt, -⟩
  omega

/-- Among placeholders that do not find their values there is a first one. -/
theorem exists_first_unfilled (h : ∃ i t, ts[i]? = some t ∧ ¬ p.Fills i t) :
    ∃ i t, ts[i]? = some t ∧ ¬ p.Fills i t ∧ ∀ j < i, ∀ u, ts[j]? = some u → p.Fills j u := by
  classical
  obtain ⟨t, ht, hfault⟩ := Nat.find_spec h
  refine ⟨Nat.find h, t, ht, hfault, ?_⟩
  intro j hj u hu
  by_contra hn
  exact Nat.find_min h hj ⟨u, hu, hn⟩

/-- **With more placeholders than slots one of them does not find its value**, at the latest
    the one behind the last slot. -/
theorem exists_first_fault (h : p.slotCount < ts.length) :
    ∃ i ≤ p.slotCount, ∃ t, ts[i]? = some t ∧ ¬ p.Fills i t ∧
      ∀ j < i, ∀ u, ts[j]? = some u → p.Fills j u := by
  have hlast : ts[p.slotCount]? = some ts[p.slotCount] := List.getElem?_eq_getElem h
  have hfault : ¬ p.Fills p.slotCount ts[p.slotCount] := not_fills (Nat.le_refl _) _
  obtain ⟨i, t, ht, hn, hall⟩ := exists_first_unfilled ⟨p.slotCount, _, hlast, hfault⟩
  refine ⟨i, ?_, t, ht, hn, hall⟩
  by_contra hi
  exact hfault (hall p.slotCount (Nat.lt_of_not_le hi) _ hlast)

/-- Without the shortcut what compiles has no more placeholders than slots. -/
theorem length_le_of_walk {s : Text} (h : p.walk raw = .ok s) :
    (placeholders p.marking (ofText raw)).length ≤ p.slotCount := by
  by_contra hn
  obtain ⟨i, -, t, hi, ht, hall⟩ := exists_first_fault (Nat.lt_of_not_le hn)
  rw [walk_eq_error hi ht hall] at h
  cases h

/-! ## With the shortcut -/

theorem compile_of_slotCount (h₀ : p.slotCount = 0) : compile raw (some p) = .ok raw := by
  rw [compile, if_pos h₀]

/-- With slots or without placeholders the shortcut makes no difference. -/
theorem compile_eq_walk (h : 0 < p.slotCount ∨ placeholders p.marking (ofText raw) = []) :
    compile raw (some p) = p.walk raw := by
  rw [walk, fillFrom_eq]
  apply compile_eq_map
  intro h₀
  rcases h with hpos | hts
  · omega
  · exact hts

/-- What compiles has no more placeholders than slots iff there are slots or no placeholders. -/
theorem length_le_of_compile_iff :
    (∀ s, compile raw (some p) = .ok s →
        (placeholders p.marking (ofText raw)).length ≤ p.slotCount) ↔
      0 < p.slotCount ∨ placeholders p.marking (ofText raw) = [] := by
  constructor
  · intro h
    by_contra hn
    obtain ⟨h₀, hts⟩ := not_or.1 hn
    have hlen := h raw (compile_of_slotCount (by omega))
    exact hts (List.eq_nil_of_length_eq_zero (by omega))
  · intro h s hs
    rw [compile_eq_walk h] at hs
    exact length_le_of_walk hs

/-- **The shortcut is exact iff there are slots or no placeholders.** -/
theorem compile_eq_walk_iff : compile raw (some p) = p.walk raw ↔
    0 < p.slotCount ∨ placeholders p.marking (ofText raw) = [] := by
  refine ⟨?_, compile_eq_walk⟩
  intro h
  apply length_le_of_compile_iff.1
  intro s hs
  rw [h] at hs
  exact length_le_of_walk hs

end Parameters

/-- A builder that keeps track of its placeholders compiles as if there were no shortcut. -/
theorem Tracks.compile_eq_walk {b : Builder} {h : History} (ht : Tracks b.draft h)
    (hc : b.Coherent) : b.compile.1 = (held b.draft.parameters).walk b.draft.raw := by
  rw [ht.compile_eq hc, Parameters.walk, Parameters.fillFrom_eq, ht.ready.parameters.spec.2,
    ht.carries_raw.placeholders_eq]

namespace Parameters

/-- **A statement that has slots compiles only if it has no more placeholders than these.**  No
    parameters are as good as parameters without slots.  When it is read, a statement with more
    placeholders than slots is refused by the first placeholder that does not find its value,
    at the latest by the one behind the last slot.  Compiling has the same outcome as reading,
    and keeps to the number of slots, exactly if there are slots or the statement has no
    placeholders.  Otherwise the statement is given back with its placeholders, while reading
    it would refuse the first of them.  For builders this does not happen, as long as no text
    that they are given to write as it is spells a placeholder. -/
theorem compiled_within_slots (m : Marking) (raw : Text) (o : Option Parameters) :
    let p := orEmpty m o
    let ts := placeholders p.marking (ofText raw)
    (∀ s, p.walk raw = .ok s → ts.length ≤ p.slotCount) ∧
      (p.slotCount < ts.length → ∃ i ≤ p.slotCount, ∃ t, ts[i]? = some t ∧
        (∀ j < i, ∀ u, ts[j]? = some u → p.Fills j u) ∧ p.walk raw = .error (p.fault i t)) ∧
      (compile raw o = p.walk raw ↔ 0 < p.slotCount ∨ ts = []) ∧
      ((∀ s, compile raw o = .ok s → ts.length ≤ p.slotCount) ↔ 0 < p.slotCount ∨ ts = []) ∧
      (p.slotCount = 0 → compile raw o = .ok raw ∧ ∀ t ∈ ts.head?,
        p.walk raw = .error (.outOfBounds 0 0 (p.marking.display t))) ∧
      ∀ run : List (Text × Call Text), (∀ c ∈ run, c.2.Composed) → ∀ name,
        let b := Session.start.after run name
        b.compile.1 = (held b.draft.parameters).walk b.draft.raw := by
  intro p ts
  rw [compile_orEmpty m raw o]
  refine ⟨fun s => length_le_of_walk, ?_, compile_eq_walk_iff, length_le_of_compile_iff, ?_, ?_⟩
  · intro hlt
    obtain ⟨i, hi, t, ht, hfault, hall⟩ := exists_first_fault hlt
    exact ⟨i, hi, t, ht, hall, walk_eq_error ht hfault hall⟩
  · intro h₀
    refine ⟨compile_of_slotCount h₀, ?_⟩
    intro t ht
    rw [Option.mem_def, List.head?_eq_getElem?] at ht
    have hfault : ¬ p.Fills 0 t := not_fills (Nat.le_of_eq h₀) t
    rw [walk_eq_error ht hfault (by omega), fault, h₀, if_pos (Nat.le_refl 0)]
  · intro run hrun name
    obtain ⟨hcoh, ht⟩ := Session.tracked_start.after hrun name
    exact ht.compile_eq_walk hcoh

/-- One slot and two placeholders; no slots, and what looks like a placeholder in a literal; and
    a builder that writes such a literal next to a placeholder without a value. -/
theorem compiled_within_slots_of_one :
    let p := ((empty .standard).after (.declareAll [.null])).after (.setAll [.int 5])
    let run : List (Text × Call Text) := [
      ("q", .say (.clause .select)),
      ("q", .say (.function "F" none none [.value (.value (.text "$$1")), .param (.value .null)]))]
    p.slotCount = 1 ∧ placeholders .standard (ofText "$$1 $$1") = ["$$1".toList, "$$1".toList] ∧
      (∃ i ≤ 1, ∃ t, p.walk "$$1 $$1" = .error (p.fault i t)) ∧
      compile "$$1 $$1" (some p) = .error (.outOfBounds 1 1 "$1") ∧
      compile "'$$1'" none = (empty .standard).walk "'$$1'" ∧
      (∀ c ∈ run, c.2.Composed) ∧ (Session.start.after run "q").compile.1 =
        .error (.missingValue "$1") := by
  intro p run
  have hslots : p.slotCount = 1 := by decide +kernel
  have hread : placeholders p.marking (ofText "$$1 $$1") = ["$$1".toList, "$$1".toList] := by
    decide +kernel
  have hliteral : placeholders .standard (ofText "'$$1'") = [] := by decide +kernel
  have hrun : ∀ c ∈ run, c.2.Composed := by decide +kernel
  obtain ⟨-, hmore, heq, -⟩ := compiled_within_slots .standard "$$1 $$1" (some p)
  obtain ⟨-, -, hnone, -⟩ := compiled_within_slots .standard "'$$1'" none
  obtain ⟨-, -, -, -, -, hbuilt⟩ := compiled_within_slots .standard [] none
  refine ⟨hslots, hread, ?_, ?_, hnone.2 (.inr hliteral), hrun, ?_⟩
  · rw [orEmpty, Option.getD_some, hslots, hread] at hmore
    obtain ⟨i, hi, t, -, -, ht⟩ := hmore (by simp)
    exact ⟨i, hi, t, ht⟩
  · rw [heq.2 (by simp [hslots])]
    decide +kernel
  · rw [hbuilt run hrun "q"]
    decide +kernel

/-- **A placeholder of a statement without slots is left in it**, where reading the statement
    refuses it. -/
theorem placeholder_left_without_slots :
    let raw : Text := "SELECT $$1"
    let run : List (Text × Call Text) := [
      ("q", .say (.clause .select)), ("q", .say (.verbatim "$$1"))]
    (empty .standard).slotCount < (placeholders .standard (ofText raw)).length ∧
      (empty .standard).walk raw = .error (.outOfBounds 0 0 "$1") ∧
      compile raw (some (empty .standard)) = .ok raw ∧ compile raw none = .ok raw ∧
      (Session.start.after run "q").compile.1 = .ok raw := by
  decide +kernel

end Parameters

end SqlCompose
