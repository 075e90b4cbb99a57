/-
  Replacement — no placeholder is left in a statement that compiles.

  Values are looked up by the places of the placeholders in the text.  Whatever the
  order in which they were declared, a statement compiles only if each of them owns
  the slot of its place and a value is set there.

  * `Parameters.valuesFrom_eq_ok_iff` says when values are found, and `valueAt_eq_error`
    what can be wrong with one;
  * `Tracks.shown` and `Tracks.refused`: what it means for a builder to answer with a
    text or with an error;
  * `placeholders_replaced`: after every composed run each placeholder that still
    stands is declared, and is replaced by a value if the statement compiles.
-/
import SqlCompose.Proofs.Alignment

namespace SqlCompose

open Template

/-! ## Looking values up -/

namespace Parameters

variable {p : Parameters} {position : Nat} {t : Text} {ts vs : List Text} {e : Error}

/-- Values are found iff every placeholder owns the slot of its place and this holds
    the value. -/
theorem valuesFrom_eq_ok_iff : p.valuesFrom position ts = .ok vs ↔ vs.length = ts.length ∧
    ∀ (i : Nat) (t : Text), ts[i]? = some t →
      p.isBound t (position + i) = true ∧ p.values[position + i]? = some vs[i]? := by
  induction ts generalizing position vs with
  | nil =>
    constructor
    · intro h
      cases h
      exact ⟨rfl, nofun⟩
    · rintro ⟨hlen, -⟩
      rw [List.eq_nil_of_length_eq_zero hlen]
      rfl
  | cons t ts ih =>
    rw [valuesFrom_cons_eq_ok_iff]
    constructor
    · rintro ⟨v, ws, hv, hws, rfl⟩
      obtain ⟨hlen, hrest⟩ := ih.1 hws
      refine ⟨congrArg Nat.succ hlen, ?_⟩
      intro i u hu
      cases i with
      | zero =>
        cases hu
        exact valueAt_eq_ok_iff.1 hv
      | succ i =>
        have hplace : position + (i + 1) = position + 1 + i := by omega
        rw [hplace]
        exact hrest i u hu
    · rintro ⟨hlen, hall⟩
      obtain ⟨v, ws, rfl⟩ := List.exists_cons_of_length_eq_add_one hlen
      refine ⟨v, ws, valueAt_eq_ok_iff.2 (hall 0 t rfl), ih.2 ⟨Nat.succ.inj hlen, ?_⟩, rfl⟩
      intro i u hu
      have hplace : position + 1 + i = position + (i + 1) := by omega
      rw [hplace]
      exact hall (i + 1) u hu

/-- If values are not found, something is wrong with one placeholder. -/
theorem exists_of_valuesFrom_error (h : p.valuesFrom position ts = .error e) :
    ∃ (i : Nat) (t : Text), ts[i]? = some t ∧ p.valueAt (position + i) t = .error e := by
  induction ts generalizing position with
  | nil => cases h
  | cons t ts ih =>
    rw [valuesFrom] at h
    cases hv : p.valueAt position t with
    | error e' =>
      rw [hv] at h
      cases h
      exact ⟨0, t, rfl, hv⟩
    | ok v =>
      rw [hv] at h
      cases hws : p.valuesFrom (position + 1) ts with
      | ok ws => rw [hws] at h; cases h
      | error e' =>
        rw [hws] at h
        cases h
        obtain ⟨i, u, hu, he⟩ := ih hws
        have hplace : position + (i + 1) = position + 1 + i := by omega
        exact ⟨i + 1, u, hu, hplace ▸ he⟩

/-- What can be wrong with a placeholder: there is no slot for its place, or the slot
    belongs to another one, or it holds no value. -/
theorem valueAt_eq_error (h : p.valueAt position t = .error e) :
    p.slotCount ≤ position ∨
      e = .outOfOrder position (p.marking.display t) ∧ p.isBound t position = false ∨
        e = .missingValue (p.marking.display t) ∧ p.isBound t position = true ∧
          p.values[position]? = some none := by
  unfold valueAt at h
  split at h
  · next hle => exact .inl hle
  · next hlt =>
    split at h
    · next hb =>
      cases h
      exact .inr (.inl ⟨rfl, by simpa using hb⟩)
    · next hb =>
      have hb : p.isBound t position = true := by simpa using hb
      split at h
      · cases h
      · next hv =>
        cases h
        refine .inr (.inr ⟨rfl, hb, ?_⟩)
        -- the slot is there, so it can only be that it holds nothing
        have hlt : position < p.values.length := Nat.lt_of_not_le hlt
        rw [List.getElem?_eq_getElem hlt] at hv ⊢
        cases hval : p.values[position] with
        | none => rfl
        | some v => exact absurd (by rw [hval]) (hv v)

end Parameters

/-! ## What a builder answers -/

namespace Reply

variable {x : Except Error Text}

theorem eq_ok_of_map_text {t : Text} (h : x.map text = .ok (text t)) : x = .ok t := by
  cases x with
  | error e => cases h
  | ok t' => cases h; rfl

theorem eq_error_of_map_text {e : Error} (h : x.map text = .error e) : x = .error e := by
  cases x with
  | error e' => cases h; rfl
  | ok t => cases h

end Reply

/-- The slot belongs to the reference of the placeholder. -/
def Builder.Owns (b : Builder) (t : Text) (slot : Nat) : Prop :=
  (held b.draft.parameters).isBound t slot = true

instance (b : Builder) (t : Text) (slot : Nat) : Decidable (b.Owns t slot) :=
  inferInstanceAs (Decidable (_ = true))

namespace Tracks

variable {b : Builder} {h : History} (ht : Tracks b.draft h) (hc : b.Coherent)
include ht

theorem exists_owns {t : Text} (hm : t ∈ h.markers) : ∃ slot, b.Owns t slot := by
  obtain ⟨p, s, hp, hb⟩ := ht.owned t hm
  refine ⟨s, ?_⟩
  rw [Builder.Owns, hp]
  exact hb

include hc

/-- A builder answers with the values that are found for its placeholders. -/
theorem compile_eq : b.compile.1 = ((held b.draft.parameters).valuesFrom 0 h.markers).map
    fun vs => filled .standard vs (ofText b.draft.raw) := by
  rw [hc.compile_eq]
  refine Parameters.compile_eq_valuesFrom ht.ready.parameters ht.carries_raw.placeholders_eq ?_
  intro h₀
  rw [List.eq_nil_iff_forall_not_mem]
  intro t hm
  obtain ⟨s, hs⟩ := ht.exists_owns hm
  have hlt := ht.ready.parameters.spec.1.lt_of_isBound hs
  omega

/-- **If a builder answers with a text, every placeholder owns the slot of its place
    and is replaced by the value of that slot.** -/
theorem shown {text : Text} (hok : b.compile.1 = .ok text) :
    ∃ vs : List Text, vs.length = h.markers.length ∧
      text = filled .standard vs (ofText b.draft.raw) ∧
      ∀ (i : Nat) (t : Text), h.markers[i]? = some t → b.Owns t i ∧ b.slots[i]? = some vs[i]? := by
  rw [ht.compile_eq hc] at hok
  cases hvs : (held b.draft.parameters).valuesFrom 0 h.markers with
  | error e => rw [hvs] at hok; cases hok
  | ok vs =>
    rw [hvs] at hok
    cases hok
    obtain ⟨hlen, hall⟩ := Parameters.valuesFrom_eq_ok_iff.1 hvs
    refine ⟨vs, hlen, rfl, ?_⟩
    intro i t hi
    have hplace := hall i t hi
    rw [Nat.zero_add, values_held] at hplace
    exact hplace

/-- A placeholder none of whose slots holds a value is refused. -/
theorem exists_error_of_unset {t : Text} (hm : t ∈ h.markers)
    (hunset : ∀ slot, b.Owns t slot → b.slots[slot]? = some none) : ∃ e, b.compile.1 = .error e := by
  cases hcomp : b.compile.1 with
  | error e => exact ⟨e, rfl⟩
  | ok text =>
    -- a value would stand for the placeholder, from a slot of its own
    obtain ⟨vs, hlen, -, hall⟩ := ht.shown hc hcomp
    obtain ⟨i, hi⟩ := List.mem_iff_getElem?.1 hm
    obtain ⟨hown, hslot⟩ := hall i t hi
    rw [hunset i hown] at hslot
    have hlt := (List.getElem?_eq_some_iff.1 hi).1
    have hle : vs.length ≤ i := List.getElem?_eq_none_iff.1 (Option.some.inj hslot).symm
    omega

/-- If it answers with an error, this is about one of the placeholders. -/
theorem refused {e : Error} (he : b.compile.1 = .error e) :
    ∃ (i : Nat) (t : Text), h.markers[i]? = some t ∧
      (held b.draft.parameters).valueAt i t = .error e := by
  rw [ht.compile_eq hc] at he
  cases hvs : (held b.draft.parameters).valuesFrom 0 h.markers with
  | ok vs => rw [hvs] at he; cases he
  | error e' =>
    rw [hvs] at he
    cases he
    obtain ⟨i, t, hi, hv⟩ := Parameters.exists_of_valuesFrom_error hvs
    rw [Nat.zero_add] at hv
    exact ⟨i, t, hi, hv⟩

end Tracks

namespace Session

/-- **No placeholder is left in a statement that compiles.**  After every composed run
    what is read as placeholders in the text of a builder are those that its journal
    lists, and each of them owns a slot.  If none of the slots of one of them holds a
    value, the builder answers with an error.  If it answers with a text, this is the
    text in which a value stands for every placeholder: the value of the slot of its
    place, which the placeholder owns. -/
theorem placeholders_replaced {run : List (Text × Call Text)} (hrun : ∀ c ∈ run, c.2.Composed)
    (name : Text) :
    let b := start.after run name
    let reply := ((start.after run).step name (.compiled false)).1
    let markers := ((start.journal (fun _ => []) run) name).markers
    ∃ raw, ((start.after run).step name (.raw false)).1 = .ok (.text raw) ∧
      placeholders .standard (ofText raw) = markers ∧
      (∀ t ∈ markers, (∃ slot, b.Owns t slot) ∧
        ((∀ slot, b.Owns t slot → b.slots[slot]? = some none) → ∃ e, reply = .error e)) ∧
      ∀ text, reply = .ok (.text text) → ∃ vs : List Text, vs.length = markers.length ∧
        text = filled .standard vs (ofText raw) ∧
        ∀ (i : Nat) (t : Text), markers[i]? = some t → b.Owns t i ∧ b.slots[i]? = some vs[i]? := by
  intro b reply markers
  obtain ⟨hcoh, ht⟩ := tracked_start.after hrun name
  have hreply : reply = b.compile.1.map .text := rfl
  refine ⟨b.draft.raw, ?_, ht.carries_raw.placeholders_eq, ?_, ?_⟩
  · show Except.ok (Reply.text b.text) = _
    rw [hcoh.text_eq]
  · intro t hm
    refine ⟨ht.exists_owns hm, ?_⟩
    intro hunset
    obtain ⟨e, he⟩ := ht.exists_error_of_unset hcoh hm hunset
    rw [hreply, he]
    exact ⟨e, rfl⟩
  · intro text hok
    exact ht.shown hcoh (Reply.eq_ok_of_map_text hok)

/-- Placeholders in a call and in `IN`, a name that both use, and its sign in a literal. -/
theorem placeholders_replaced_in_call :
    let run : List (Text × Call Text) := [
      ("q", .say (.clause .where_)),
      ("q", .say (.function "\"ops\".\"age\"".toList (some "INT".toList) none
        [.column "t.born".toList, .param (.value (.text "day")), .value (.value (.text "$?day"))])),
      ("q", .say (.membership [.value .null, .value (.text "day")])),
      ("q", .setParams [.value (.int 1), .value (.int 2), .value .null])]
    (∀ c ∈ run, c.2.Composed) ∧
      ∃ raw, ((start.after run).step "q" (.raw false)).1 = .ok (.text raw) ∧
        placeholders .standard (ofText raw) =
          ["$?day".toList, "$$1".toList, "$?day".toList] ∧
        ∃ vs : List Text, vs.length = 3 ∧
          ((start.after run).step "q" (.compiled false)).1 =
            .ok (.text (filled .standard vs (ofText raw))) := by
  intro run
  have hrun : ∀ c ∈ run, c.2.Composed := by decide +kernel
  have hmarkers : ((start.journal (fun _ => []) run) "q").markers =
      ["$?day".toList, "$$1".toList, "$?day".toList] := by decide +kernel
  have hok : ((start.after run).step "q" (.compiled false)).1 = .ok (.text
      "WHERE CAST( \"ops\".\"age\"( \"t\".\"born\" , 1 , '$?day' ) AS INT ) IN ( 2 , NULL )") := by
    decide +kernel
  obtain ⟨raw, hraw, hread, -, hfilled⟩ := placeholders_replaced hrun "q"
  obtain ⟨vs, hlen, htext, -⟩ := hfilled _ hok
  refine ⟨hrun, raw, hraw, hread.trans hmarkers, vs, ?_, ?_⟩
  · rw [hlen, hmarkers]
    rfl
  · rw [hok, htext]

/-- A name with quotes in it is accepted, and its placeholder is declared; but then it is
    read as a literal, and the statement compiles with the placeholder left in it. -/
theorem placeholder_left_between_quotes :
    let run : List (Text × Call Text) := [
      ("q", .say (.clause .select)), ("q", .say (.param (.value (.text "'a'"))))]
    ((start.after run).step "q" (.raw false)).1 = .ok (.text "SELECT $?'a'") ∧
      (start.after run "q").Owns "$?'a'" 0 ∧ (start.after run "q").slots = [none] ∧
      ((start.after run).step "q" (.compiled false)).1 = .ok (.text "SELECT $?'a'") := by
  decide +kernel

end Session

end SqlCompose
