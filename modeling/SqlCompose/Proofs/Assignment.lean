/-
  Assignment — which write the value of a slot comes from.

  A write gives values to some of the slots: to those of one reference, to all that there
  are, or to new ones.  To give no value is a write, too.

  * `Change.write` is what a change writes if it does not fail, `taking` what is written
    where parameters are taken in, and `Course.writes` lists the writes of a course;
  * `getElem?_of_changed?` and `getElem?_absorb`: one step gives the slots that it covers
    what it writes, and leaves the others;
  * `last_write_counts`: so a slot holds what the last write gave that covers it, and
    writes to different references may change places.
-/
import SqlCompose.Proofs.Agreement

namespace SqlCompose.Parameters

variable {p q : Parameters}

/-! ## Writes -/

/-- What is given to every slot: a value or none to a slot that is covered, and nothing to
    the others. -/
abbrev Write := Nat → Option (Option Text)

/-- What a change writes to the slots of `p` if it does not fail.  A declaration makes new
    slots without a value; a reference covers the slots that it has by now; a row of values
    covers all slots, those behind its end without a value. -/
def Change.write (p : Parameters) : Change → Write
  | declare _, s => if s = p.slotCount then some none else none
  | declareAll references, s =>
    if p.slotCount ≤ s ∧ s < p.slotCount + references.length then some none else none
  | set reference value, s =>
    if p.isBound (p.marker reference) s then some (some value.injected) else none
  | setAll values, s => if s < p.slotCount then some (values[s]?.map (·.injected)) else none
  | clear, s => if s < p.slotCount then some none else none

/-- What is written where `p` takes in `inner`: the inner values, behind the slots of `p`. -/
def taking (p inner : Parameters) : Write := fun s =>
  if p.slotCount ≤ s then inner.values[s - p.slotCount]? else none

/-- The writes of a course, the oldest first.  A change that fails writes nothing. -/
def Course.writes (m : Marking) : Course → List Write
  | start => []
  | change course c =>
    course.writes m ++ match (course.parameters m).changed? c with
      | .ok _ => [c.write (course.parameters m)]
      | .error _ => []
  | absorb outer inner => outer.writes m ++ [taking (outer.parameters m) (inner.parameters m)]

/-! ## One step -/

/-- Setting a reference gives its slots the value; a reference without slots has none to
    give it to. -/
theorem after_set (p : Parameters) (reference value : Value) :
    p.after (.set reference value) = { p with
      values := p.values.mapIdx fun s old =>
        if p.isBound (p.marker reference) s then some value.injected else old } := by
  unfold Parameters.after changed? Parameters.set slotsFor slots?
  cases hss : p.references.slots? (p.marker reference) with
  | none =>
    have hid : p.values.mapIdx (fun _ old => old) = p.values := by
      ext1 s
      simp
    simp [isBound, hss, hid]
  | some ss =>
    simp only [isBound, hss, List.contains_iff_mem]
    rfl

theorem values_declareAll (p : Parameters) (ds : List Declaration) :
    (p.declareAll ds).2.values = p.values ++ List.replicate ds.length none := by
  induction ds generalizing p with
  | nil => exact (List.append_nil _).symm
  | cons d ds ih =>
    show ((p.declare d).declareAll ds).2.values = _
    rw [ih, declare, List.append_assoc, List.length_cons, List.replicate_succ]
    rfl

theorem getElem?_declareAll (p : Parameters) (references : List Value) (s : Nat) :
    (p.declareAll (references.map .ofValue)).2.values[s]? =
      ((Change.declareAll references).write p s).or p.values[s]? := by
  rw [values_declareAll, List.length_map, Change.write]
  have hcount : p.slotCount = p.values.length := rfl
  rcases Nat.lt_or_ge s p.slotCount with hlt | hge
  · rw [List.getElem?_append_left hlt, if_neg (by omega), Option.none_or]
  · rw [List.getElem?_append_right hge, List.getElem?_replicate,
      List.getElem?_eq_none (show p.values.length ≤ s from hge), Option.or_none]
    congr 1
    simp only [hge, true_and, eq_iff_iff]
    omega

/-- **A change gives the slots that it covers what it writes, and leaves the others.** -/
theorem getElem?_of_changed? (hp : p.Consistent) {c : Change} (h : p.changed? c = .ok q) (s : Nat) :
    q.values[s]? = (c.write p s).or p.values[s]? := by
  cases c with
  | declare reference =>
    rw [changed?_declare] at h
    obtain ⟨-, rfl⟩ := changed?_declareAll_eq_ok_iff.1 h
    have hone : (Change.declare reference).write p s = (Change.declareAll [reference]).write p s := by
      simp only [Change.write, List.length_singleton]
      congr 1
      simp only [eq_iff_iff]
      omega
    rw [hone]
    exact getElem?_declareAll p [reference] s
  | declareAll references =>
    obtain ⟨-, rfl⟩ := changed?_declareAll_eq_ok_iff.1 h
    exact getElem?_declareAll p references s
  | set reference value =>
    have hq : q = p.after (.set reference value) := by rw [Parameters.after, h]
    rw [hq, after_set, Change.write, List.getElem?_mapIdx]
    by_cases hs : p.isBound (p.marker reference) s = true
    · have hlt : s < p.values.length := hp.lt_of_isBound hs
      simp [hs, List.getElem?_eq_getElem hlt]
    · simp [hs]
  | setAll values =>
    have h : p.setAll values = .ok q := h
    unfold Parameters.setAll at h
    split at h
    · cases h
    · next hle =>
      cases h
      rw [Change.write]
      rcases Nat.lt_or_ge s values.length with hlt | hge
      · rw [List.getElem?_append_left (by simpa using hlt), if_pos (by omega)]
        simp [List.getElem?_eq_getElem hlt]
      · rw [List.getElem?_append_right (by simpa using hge), List.getElem?_replicate,
          List.length_map, List.getElem?_eq_none hge]
        rcases Nat.lt_or_ge s p.slotCount with hlt | hge'
        · rw [if_pos (by omega), if_pos hlt]
          rfl
        · rw [if_neg (by omega), if_neg (by omega), List.getElem?_eq_none hge']
          rfl
  | clear =>
    cases h
    rw [Change.write, Parameters.clear, List.getElem?_replicate]
    split
    · rfl
    · next hge => rw [List.getElem?_eq_none (Nat.le_of_not_lt hge)]; rfl

theorem getElem?_absorb (p inner : Parameters) (s : Nat) :
    (p.absorb inner).values[s]? = (taking p inner s).or p.values[s]? := by
  rw [absorb, taking]
  rcases Nat.lt_or_ge s p.slotCount with hlt | hge
  · rw [List.getElem?_append_left hlt, if_neg (by omega), Option.none_or]
  · rw [List.getElem?_append_right hge, if_pos hge, List.getElem?_eq_none hge, Option.or_none]
    rfl

/-! ## Courses -/

/-- The newest write that covers a slot is the one that counts. -/
theorem Course.getElem?_parameters (m : Marking) (course : Course) (s : Nat) :
    (course.parameters m).values[s]? = (course.writes m).reverse.findSome? (· s) := by
  induction course with
  | start => rfl
  | change course c ih =>
    rw [parameters, writes, Parameters.after]
    cases hq : (course.parameters m).changed? c with
    | ok q =>
      rw [List.reverse_append, List.findSome?_append, ← ih]
      simpa using getElem?_of_changed? (course.consistent m).1 hq s
    | error e => simpa using ih
  | absorb outer inner ih _ =>
    rw [parameters, writes, List.reverse_append, List.findSome?_append, ← ih]
    simpa using getElem?_absorb (outer.parameters m) (inner.parameters m) s

/-- Values for different references can be set in either order. -/
theorem Consistent.after_set_comm (hp : p.Consistent) {r₁ r₂ : Value}
    (hne : p.marker r₁ ≠ p.marker r₂) (v₁ v₂ : Value) :
    (p.after (.set r₁ v₁)).after (.set r₂ v₂) = (p.after (.set r₂ v₂)).after (.set r₁ v₁) := by
  simp only [after_set]
  congr 1
  ext1 s
  simp only [List.getElem?_mapIdx, Option.map_map]
  congr 1
  funext old
  -- no slot belongs to both references
  have hone : ¬ (p.isBound (p.marker r₁) s = true ∧ p.isBound (p.marker r₂) s = true) :=
    fun ⟨h₁, h₂⟩ => hne (hp.isBound_inj h₁ h₂)
  show (if p.isBound (p.marker r₂) s then _ else if p.isBound (p.marker r₁) s then _ else old) =
    if p.isBound (p.marker r₁) s then _ else if p.isBound (p.marker r₂) s then _ else old
  split
  · next h₂ => rw [if_neg fun h₁ => hone ⟨h₁, h₂⟩]
  · rfl

/-- **The last write counts.**  After every course of changes and of taking in, failed
    changes included, a slot is there exactly if some write of the course covers it, and
    holds what the last of these gave it: nothing where it was declared, cleared or left
    over by a row of values, the value that was set last for its reference or in its place,
    or the one that it came with.  So values for different references can be set in either
    order. -/
theorem last_write_counts (m : Marking) (course : Course) :
    let p := course.parameters m
    (∀ s v, p.values[s]? = some v ↔ ∃ earlier w later,
      course.writes m = earlier ++ w :: later ∧ w s = some v ∧ ∀ w' ∈ later, w' s = none) ∧
      ∀ r₁ r₂ v₁ v₂, p.marker r₁ ≠ p.marker r₂ →
        (p.after (.set r₁ v₁)).after (.set r₂ v₂) = (p.after (.set r₂ v₂)).after (.set r₁ v₁) := by
  intro p
  refine ⟨?_, ?_⟩
  · intro s v
    rw [Course.getElem?_parameters, List.findSome?_eq_some_iff]
    constructor
    · rintro ⟨later, w, earlier, heq, hw, hlater⟩
      refine ⟨earlier.reverse, w, later.reverse, ?_, hw, ?_⟩
      · rw [← List.reverse_reverse (course.writes m), heq]
        simp
      · intro w' hw'
        exact hlater w' (List.mem_reverse.1 hw')
    · rintro ⟨earlier, w, later, heq, hw, hlater⟩
      refine ⟨later.reverse, w, earlier.reverse, ?_, hw, ?_⟩
      · rw [heq]
        simp
      · intro w' hw'
        exact hlater w' (List.mem_reverse.1 hw')
  · intro r₁ r₂ v₁ v₂ hne
    exact (course.consistent m).1.after_set_comm hne v₁ v₂

/-- The name `x` is set, taken in with another value and joined with it; a name that is not
    declared is set in vain, a row of values that is too long fails, and the ordinal is set. -/
theorem last_write_counts_taken_in :
    let outer : Course := .change (.change .start (.declareAll [.text "x", .null]))
      (.set (.text "x") (.text "a"))
    let inner : Course := .change (.change .start (.declare (.text "x")))
      (.set (.text "x") (.text "b"))
    let course : Course := .change (.change (.change (.absorb outer inner)
      (.set (.text "y") (.text "z"))) (.setAll [.null, .null, .null, .null])) (.set (.int 1) (.text "c"))
    let p := course.parameters .standard
    p.values = [some "a".toList, some "c".toList, some "b".toList] ∧
      (∃ earlier w later, course.writes .standard = earlier ++ w :: later ∧
        w 2 = some (some "b".toList) ∧ ∀ w' ∈ later, w' 2 = none) ∧
      p.marker (.text "x") ≠ p.marker (.int 1) ∧
      (p.after (.set (.text "x") .null)).after (.set (.int 1) .null) =
        (p.after (.set (.int 1) .null)).after (.set (.text "x") .null) := by
  intro outer inner course p
  have hvalues : p.values = [some "a".toList, some "c".toList, some "b".toList] := by
    decide +kernel
  have hne : p.marker (.text "x") ≠ p.marker (.int 1) := by decide +kernel
  obtain ⟨hlast, hcomm⟩ := last_write_counts .standard course
  exact ⟨hvalues, (hlast 2 _).1 (by rw [hvalues]; rfl), hne, hcomm _ _ _ _ hne⟩

end SqlCompose.Parameters
