/-
  Agreement — when all placeholders of a reference hold one value.

  Values are kept slot by slot.  Setting a reference writes to all of its slots, and a slot
  that is declared later is empty, so the slots of a reference can only come to hold
  different values where a name is taken in with another value than it has outside.

  * `Holds` is a value in some slot of a reference, and `Disputed` says that there are two;
  * `holds_declareAll`, `holds_set`, `holds_clear` and `holds_absorb` say what each change
    makes of the values that a reference holds;
  * `Course` is how parameters came about, and `Course.Disputes` reads off it which
    references are disputed;
  * `agree_iff_not_disputes`: after every course without values by position these are the
    disputed ones, and every other reference is compiled with one value.
-/
import SqlCompose.Proofs.Evolution
import SqlCompose.Proofs.Merging
import SqlCompose.Proofs.Replacement

namespace SqlCompose.Parameters

open Template

variable {p q c : Parameters} {marker v w : Text}

/-! ## The values of a reference -/

/-- A slot of the reference holds the value. -/
def Holds (p : Parameters) (marker v : Text) : Prop :=
  ∃ s, p.isBound marker s = true ∧ p.values[s]? = some (some v)

/-- Two slots of the reference hold different values. -/
def Disputed (p : Parameters) (marker : Text) : Prop :=
  ∃ v w, p.Holds marker v ∧ p.Holds marker w ∧ v ≠ w

theorem not_disputed_iff : ¬ p.Disputed marker ↔ ∀ v w, p.Holds marker v → p.Holds marker w → v = w := by
  simp only [Disputed, not_exists, not_and, not_not]

theorem lt_of_value {s : Nat} (h : p.values[s]? = some (some v)) : s < p.slotCount := by
  rw [slotCount]
  by_contra hle
  rw [List.getElem?_eq_none (Nat.le_of_not_lt hle)] at h
  cases h

theorem Consistent.isBound_inj (hp : p.Consistent) {marker' : Text} {s : Nat}
    (h : p.isBound marker s = true) (h' : p.isBound marker' s = true) : marker = marker' := by
  obtain ⟨owner, -, hunique⟩ := hp.existsUnique_isBound (hp.lt_of_isBound h)
  exact (hunique marker h).trans (hunique marker' h').symm

theorem Consistent.isKey_of_holds (hp : p.Consistent) (h : p.Holds marker v) :
    p.marking.IsKey p.ordinals marker := by
  obtain ⟨s, hs, -⟩ := h
  exact hp.isKey_of_isBound hs

/-! ## Changes -/

/-- A new slot is empty, so no reference holds more. -/
theorem holds_declare {d : Declaration} (hd : check p.ordinals d = .ok ()) :
    (p.declare d).Holds marker v ↔ p.Holds marker v := by
  have hbound := (continues_declare hd).isBound_eq
  constructor
  · rintro ⟨s, hs, hv⟩
    have hlt : s < p.slotCount := by
      have hlt := lt_of_value hv
      rw [slotCount_declare] at hlt
      by_contra hle
      obtain rfl : s = p.values.length := by rw [slotCount] at *; omega
      rw [declare, List.getElem?_concat_length] at hv
      cases hv
    refine ⟨s, hbound s hlt marker ▸ hs, ?_⟩
    rwa [declare, List.getElem?_append_left hlt] at hv
  · rintro ⟨s, hs, hv⟩
    have hlt := lt_of_value hv
    refine ⟨s, (hbound s hlt marker).trans hs, ?_⟩
    rwa [declare, List.getElem?_append_left hlt]

theorem holds_declareAll (hp : p.Consistent) {ds : List Declaration}
    (h : checkAll p.ordinals ds = .ok ()) : (p.declareAll ds).2.Holds marker v ↔ p.Holds marker v := by
  induction ds generalizing p with
  | nil => rfl
  | cons d ds ih =>
    obtain ⟨hd, hds⟩ := checkAll_cons_eq_ok_iff.1 h
    exact (ih (hp.declare hd) hds).trans (holds_declare hd)

/-- A reference that is set holds that value only, and the others what they held. -/
theorem holds_set (hp : p.Consistent) {reference value : Value} (h : p.set reference value = .ok q) :
    q.Holds marker v ↔
      if marker = p.marker reference then v = value.injected else p.Holds marker v := by
  unfold Parameters.set slotsFor at h
  cases hss : p.slots? reference with
  | none => rw [hss] at h; cases h
  | some ss =>
    rw [hss] at h
    cases h
    have hvalue : ∀ s, (p.values.mapIdx fun i old => if i ∈ ss then some value.injected else old)[s]? =
        p.values[s]?.map fun old => if s ∈ ss then some value.injected else old :=
      fun s => List.getElem?_mapIdx
    have hmem : ∀ s, p.isBound (p.marker reference) s = true ↔ s ∈ ss := by
      intro s
      rw [isBound_iff, show p.references.slots? (p.marker reference) = some ss from hss]
      exact ⟨fun ⟨_, h, hs⟩ => Option.some.inj h ▸ hs, fun hs => ⟨ss, rfl, hs⟩⟩
    show (∃ s, p.isBound marker s = true ∧ _) ↔ _
    simp only [hvalue]
    split
    · next he =>
      rw [he]
      constructor
      · rintro ⟨s, hs, hv⟩
        obtain ⟨old, -, hv⟩ := Option.map_eq_some_iff.1 hv
        rw [if_pos ((hmem s).1 hs)] at hv
        exact (Option.some.inj hv).symm
      · rintro rfl
        obtain ⟨s, hs⟩ := List.exists_mem_of_ne_nil ss
          (hp.slots_ne_nil _ (References.mem_of_slots? hss))
        have hlt : s < p.values.length := hp.lt_of_isBound ((hmem s).2 hs)
        exact ⟨s, (hmem s).2 hs, by rw [List.getElem?_eq_getElem hlt, Option.map_some, if_pos hs]⟩
    · next hne =>
      refine exists_congr fun s => and_congr_right fun hs => ?_
      have hs : s ∉ ss := fun hin => hne (hp.isBound_inj hs ((hmem s).2 hin))
      simp only [if_neg hs, Option.map_id_fun', id_eq]

theorem holds_clear : ¬ p.clear.Holds marker v := by
  rintro ⟨s, -, hv⟩
  rw [clear, List.getElem?_replicate] at hv
  split at hv
  · cases hv
  · cases hv

/-! ## Taking in -/

section
variable (hp : p.Consistent) (hc : c.Consistent) (hm : c.marking = p.marking)
include hp hc hm

/-- What is taken in brings its values along, each for the reference that its own becomes. -/
theorem holds_absorb : (p.absorb c).Holds marker v ↔
    p.Holds marker v ∨ ∃ k, marker = p.renumber k ∧ c.Holds k v := by
  have hbound := (continues_absorb hc hm).isBound_eq
  have hright : ∀ s, (p.absorb c).values[p.slotCount + s]? = c.values[s]? := by
    intro s
    rw [absorb, slotCount, List.getElem?_append_right (Nat.le_add_right _ _), Nat.add_sub_cancel_left]
  constructor
  · rintro ⟨s, hs, hv⟩
    rcases Nat.lt_or_ge s p.slotCount with hlt | hge
    · refine .inl ⟨s, hbound s hlt marker ▸ hs, ?_⟩
      rwa [absorb, List.getElem?_append_left hlt] at hv
    · obtain ⟨j, rfl⟩ := Nat.exists_eq_add_of_le hge
      rw [hright] at hv
      -- the slot belongs to what its inner owner becomes, and to nothing else
      obtain ⟨k, hk, -⟩ := hc.existsUnique_isBound (lt_of_value hv)
      exact .inr ⟨k, (hp.absorb hc hm).isBound_inj hs (isBound_absorb hc hm hk), j, hk, hv⟩
  · rintro (⟨s, hs, hv⟩ | ⟨k, rfl, s, hs, hv⟩)
    · have hlt := lt_of_value hv
      refine ⟨s, (hbound s hlt marker).trans hs, ?_⟩
      rwa [absorb, List.getElem?_append_left hlt]
    · exact ⟨p.slotCount + s, isBound_absorb hc hm hs, (hright s).trans hv⟩

/-- A reference of both sides is a name. -/
theorem exists_name_of_holds {k : Text} (h : p.Holds (p.renumber k) v) (hk : c.Holds k w) :
    ∃ name, k = p.marking.namedMarker name := by
  have hinner := hc.isKey_of_holds hk
  rw [hm] at hinner
  rcases hinner with ⟨n, h₁, -, rfl⟩ | ⟨name, -, rfl⟩
  · -- an inner ordinal comes behind all outer ones
    rw [renumber_ordinalMarker] at h
    have houter := (Marking.isKey_ordinalMarker_iff.1 (hp.isKey_of_holds h)).2
    omega
  · exact ⟨name, rfl⟩

/-- **A reference is disputed afterwards if it was on one of the sides, or if it is a name
    that holds one value outside and another one inside.** -/
theorem disputed_absorb : (p.absorb c).Disputed marker ↔
    p.Disputed marker ∨ (∃ k, marker = p.renumber k ∧ c.Disputed k) ∨
      ∃ name v w, marker = p.marking.namedMarker name ∧ p.Holds marker v ∧ c.Holds marker w ∧ v ≠ w := by
  simp only [Disputed, holds_absorb hp hc hm]
  constructor
  · -- the two values are both outer ones, both inner ones, or one of each
    rintro ⟨v, w, hv | ⟨k, rfl, hv⟩, hw | ⟨k', he, hw⟩, hne⟩
    · exact .inl ⟨v, w, hv, hw, hne⟩
    · rw [he] at hv
      obtain ⟨name, rfl⟩ := exists_name_of_holds hp hc hm hv hw
      rw [renumber_namedMarker] at he hv
      exact .inr (.inr ⟨name, v, w, he, he ▸ hv, he ▸ hw, hne⟩)
    · obtain ⟨name, rfl⟩ := exists_name_of_holds hp hc hm hw hv
      rw [renumber_namedMarker] at hw ⊢
      exact .inr (.inr ⟨name, w, v, rfl, hw, hv, hne.symm⟩)
    · obtain rfl := renumber_inj (hm ▸ hc.isKey_of_holds hv) (hm ▸ hc.isKey_of_holds hw) he
      exact .inr (.inl ⟨k, rfl, v, w, hv, hw, hne⟩)
  · rintro (⟨v, w, hv, hw, hne⟩ | ⟨k, rfl, v, w, hv, hw, hne⟩ | ⟨name, v, w, rfl, hv, hw, hne⟩)
    · exact ⟨v, w, .inl hv, .inl hw, hne⟩
    · exact ⟨v, w, .inr ⟨k, rfl, hv⟩, .inr ⟨k, rfl, hw⟩, hne⟩
    · exact ⟨v, w, .inl hv, .inr ⟨_, (renumber_namedMarker p name).symm, hw⟩, hne⟩

end

/-! ## Disputes -/

/-- Whether a change reaches slots by their references: setting values in a row does not. -/
def Change.ByReference : Change → Prop
  | setAll _ => False
  | _ => True

/-- Whether a change leaves the placeholder with one value at most. -/
def Change.Settles (p : Parameters) : Change → Text → Prop
  | set reference _, marker => marker = p.marker reference
  | clear, _ => True
  | _, _ => False

/-- A reference that cannot be set holds nothing. -/
theorem not_holds_of_set_error {reference value : Value} {e : Error}
    (h : p.set reference value = .error e) : ¬ p.Holds (p.marker reference) v := by
  rintro ⟨s, hs, -⟩
  obtain ⟨ss, hss, -⟩ := isBound_iff.1 hs
  have hss : p.slots? reference = some ss := hss
  rw [Parameters.set, slotsFor, hss] at h
  cases h

/-- **No change makes a reference disputed**, and the references that it settles are not. -/
theorem disputed_after (hp : p.Consistent) {change : Change} (h : change.ByReference) :
    (p.after change).Disputed marker ↔ p.Disputed marker ∧ ¬ change.Settles p marker := by
  unfold Parameters.after
  cases hq : p.changed? change with
  | ok q =>
    cases change with
    | declare reference =>
      rw [changed?_declare] at hq
      obtain ⟨hd, rfl⟩ := changed?_declareAll_eq_ok_iff.1 hq
      simp only [Disputed, holds_declareAll hp hd, Change.Settles, not_false_eq_true, and_true]
    | declareAll references =>
      obtain ⟨hd, rfl⟩ := changed?_declareAll_eq_ok_iff.1 hq
      simp only [Disputed, holds_declareAll hp hd, Change.Settles, not_false_eq_true, and_true]
    | set reference value =>
      simp only [Disputed, holds_set hp hq, Change.Settles]
      split
      · next he => simp +contextual [he]
      · next hne => simp [hne]
    | setAll values => exact h.elim
    | clear =>
      cases hq
      simp [Disputed, holds_clear, Change.Settles]
  | error e =>
    cases change with
    | set reference value =>
      refine ⟨fun hd => ⟨hd, ?_⟩, And.left⟩
      rintro rfl
      obtain ⟨v, -, hv, -⟩ := hd
      exact not_holds_of_set_error hq hv
    | setAll values => exact h.elim
    | clear => cases hq
    | declare reference => simp [Change.Settles]
    | declareAll references => simp [Change.Settles]

/-! ## Courses -/

/-- How parameters came about: by changes, and by taking in others, which came about in the
    same way. -/
inductive Course where
  | start
  | change (course : Course) (c : Change)
  | absorb (outer inner : Course)

namespace Course

/-- The parameters at the end of a course. -/
def parameters (m : Marking) : Course → Parameters
  | start => empty m
  | change course c => (course.parameters m).after c
  | absorb outer inner => (outer.parameters m).absorb (inner.parameters m)

/-- Whether no values were set in a row, in whatever was taken in neither. -/
def ByReference : Course → Prop
  | start => True
  | change course c => course.ByReference ∧ c.ByReference
  | absorb outer inner => outer.ByReference ∧ inner.ByReference

/-- The references that a course leaves disputed: a name is from where it is taken in with
    another value than it holds outside, until it is set or everything is cleared. -/
def Disputes (m : Marking) : Course → Text → Prop
  | start, _ => False
  | change course c, marker => course.Disputes m marker ∧ ¬ c.Settles (course.parameters m) marker
  | absorb outer inner, marker =>
    outer.Disputes m marker ∨
      (∃ k, marker = (outer.parameters m).renumber k ∧ inner.Disputes m k) ∨
        ∃ name v w, marker = m.namedMarker name ∧ (outer.parameters m).Holds marker v ∧
          (inner.parameters m).Holds marker w ∧ v ≠ w

theorem evolves (m : Marking) : ∀ course : Course, Evolves m (empty m) (course.parameters m)
  | start => .refl _
  | change course c => .change c (course.evolves m)
  | absorb outer inner => .absorb (outer.evolves m) (inner.evolves m)

theorem consistent (m : Marking) (course : Course) :
    (course.parameters m).Consistent ∧ (course.parameters m).marking = m := by
  obtain ⟨hc, hcont⟩ := (course.evolves m).consistent (consistent_empty m) rfl
  exact ⟨hc, hcont.marking_eq⟩

/-- **The disputed references are those that the course leaves disputed.** -/
theorem disputed_iff {m : Marking} {course : Course} (h : course.ByReference) (marker : Text) :
    (course.parameters m).Disputed marker ↔ course.Disputes m marker := by
  induction course generalizing marker with
  | start =>
    refine ⟨?_, False.elim⟩
    rintro ⟨v, -, ⟨s, -, hv⟩, -⟩
    cases hv
  | change course c ih =>
    rw [parameters, disputed_after (course.consistent m).1 h.2, ih h.1]
    rfl
  | absorb outer inner iho ihi =>
    obtain ⟨hoc, hom⟩ := outer.consistent m
    obtain ⟨hic, him⟩ := inner.consistent m
    rw [parameters, disputed_absorb hoc hic (him.trans hom.symm), hom]
    simp only [iho h.1, ihi h.2]
    rfl

end Course

/-! ## Compiling -/

/-- **A placeholder that is not disputed is compiled with one value**, wherever it stands. -/
theorem exists_filled_of_compile {raw text : Text} (hpos : 0 < p.slotCount)
    (h : compile raw (some p) = .ok text) :
    ∃ vs, text = filled p.marking vs (ofText raw) ∧
      vs.length = (placeholders p.marking (ofText raw)).length ∧
      ∀ (i j : Nat) (t : Text), (placeholders p.marking (ofText raw))[i]? = some t →
        (placeholders p.marking (ofText raw))[j]? = some t → ¬ p.Disputed t → vs[i]? = vs[j]? := by
  obtain ⟨vs, hvs, rfl⟩ := (compile_eq_ok_iff (by omega)).1 h
  obtain ⟨hlen, hall⟩ := valuesFrom_eq_ok_iff.1 hvs
  refine ⟨vs, rfl, hlen, ?_⟩
  have hheld : ∀ (i : Nat) (t : Text), (placeholders p.marking (ofText raw))[i]? = some t →
      ∃ v, vs[i]? = some v ∧ p.Holds t v := by
    intro i t ht
    obtain ⟨hb, hv⟩ := hall i t ht
    have hlt : i < vs.length := by
      rw [hlen]
      exact (List.getElem?_eq_some_iff.1 ht).1
    rw [List.getElem?_eq_getElem hlt] at hv ⊢
    exact ⟨_, rfl, 0 + i, hb, hv⟩
  intro i j t hi hj hagreed
  obtain ⟨v, hv, hi⟩ := hheld i t hi
  obtain ⟨w, hw, hj⟩ := hheld j t hj
  rw [hv, hw, not_disputed_iff.1 hagreed v w hi hj]

/-- **A reference carries one value unless it was taken in with another.**  After every
    course without values by position, the slots of a reference that hold values hold the
    same, except exactly for the names that the course leaves disputed; and in a statement
    that compiles, placeholders of any other reference show one value.

    Declaring disputes nothing, nor does setting or clearing, which settle; so taking in
    is the only cause, and the next value that is set for the name settles it. -/
theorem agree_iff_not_disputes {m : Marking} {course : Course} (h : course.ByReference) :
    let p := course.parameters m
    (∀ marker, (∀ v w, p.Holds marker v → p.Holds marker w → v = w) ↔ ¬ course.Disputes m marker) ∧
      ∀ raw text, compile raw (some p) = .ok text → 0 < p.slotCount →
        ∃ vs, text = filled m vs (ofText raw) ∧
          vs.length = (placeholders m (ofText raw)).length ∧
          ∀ (i j : Nat) (t : Text), (placeholders m (ofText raw))[i]? = some t →
            (placeholders m (ofText raw))[j]? = some t → ¬ course.Disputes m t → vs[i]? = vs[j]? := by
  intro p
  refine ⟨?_, ?_⟩
  · intro marker
    rw [← Course.disputed_iff h, not_disputed_iff]
  · intro raw text hok hpos
    have hfilled := exists_filled_of_compile hpos hok
    simp only [p, Course.disputed_iff h, (course.consistent m).2] at hfilled
    exact hfilled

/-- The name `x` is taken in with another value than it has outside, and set again. -/
theorem agree_iff_not_disputes_set_again :
    let outer : Course := .change (.change .start (.declareAll [.text "x", .null]))
      (.set (.text "x") (.text "a"))
    let inner : Course := .change (.change .start (.declareAll [.null, .text "x"]))
      (.set (.text "x") (.text "b"))
    let course : Course := .change (.absorb outer inner) (.set (.text "x") (.text "c"))
    let p := course.parameters .standard
    course.ByReference ∧ p.references.slots? "$?x" = some [0, 3] ∧
      ∀ v w, p.Holds "$?x" v → p.Holds "$?x" w → v = w := by
  intro outer inner course p
  have hcourse : course.ByReference := by
    simp only [course, outer, inner, Course.ByReference, Change.ByReference, and_self]
  have hsettled : ¬ course.Disputes .standard "$?x" := by
    rintro ⟨-, hnot⟩
    exact hnot rfl
  exact ⟨hcourse, by decide +kernel, ((agree_iff_not_disputes hcourse).1 _).2 hsettled⟩

/-- The outer side has set the name `x`, the inner one to another value.  Once taken in,
    one statement shows both. -/
theorem holds_two_values_of_a_name :
    let outer : Course := .change (.change .start (.declare (.text "x")))
      (.set (.text "x") (.text "a"))
    let inner : Course := .change (.change .start (.declare (.text "x")))
      (.set (.text "x") (.text "b"))
    let p := (Course.absorb outer inner).parameters .standard
    (Course.absorb outer inner).ByReference ∧ p.Holds "$?x" "a" ∧ p.Holds "$?x" "b" ∧
      compile "$?x $?x" (some p) = .ok "a b" := by
  intro outer inner p
  refine ⟨?_, ⟨0, by decide +kernel, by decide +kernel⟩, ⟨1, by decide +kernel, by decide +kernel⟩,
    by decide +kernel⟩
  simp only [outer, inner, Course.ByReference, Change.ByReference, and_self]

end SqlCompose.Parameters
