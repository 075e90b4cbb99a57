/-
  Numbering — placeholders, and the declarations that wrote them.

  Declarations are numbered as they are made, and the placeholder that is written by the
  declaration of number `k` is given the slot `k`.  In the text placeholders may stand in
  another order.

  * `History.marks` lists the placeholders that still stand, each with the number of its
    declaration, and `Numbered` says that these numbers are slots of theirs;
  * `Numbered.moves`: a composed call that names no other statement keeps this, and
    `numbered_after` that a run of such calls does;
  * `compiled_as_declared` says what a builder answers in terms of these numbers.
-/
import SqlCompose.Proofs.Dependence
import SqlCompose.Proofs.Replacement
import Mathlib.Data.List.Flatten

namespace SqlCompose

open Template

/-! ## Numbered declarations -/

namespace History

/-- How many placeholders were declared. -/
def declared : History → Nat
  | [] => 0
  | .opened _ :: h => declared h
  | .wrote _ ms :: h => declared h + ms.length

/-- The placeholders written to a clause since it was opened last, each with the number
    of its declaration. -/
def standing (k : Clause) : History → List (Text × Nat)
  | [] => []
  | .opened k' :: h => if k' = k then [] else standing k h
  | .wrote k' ms :: h => if k' = k then standing k h ++ ms.zipIdx (declared h) else standing k h

/-- The placeholders that still stand in the statement, each with the number of its
    declaration. -/
def marks (h : History) : List (Text × Nat) := Clause.all.flatMap fun k => standing k h

theorem standing_fst (k : Clause) (h : History) : (standing k h).map Prod.fst = surviving k h := by
  induction h with
  | nil => rfl
  | cons entry h ih =>
    cases entry with
    | opened k' =>
      rw [standing, surviving]
      split
      · rfl
      · exact ih
    | wrote k' ms =>
      rw [standing, surviving]
      split
      · rw [List.map_append, ih, List.zipIdx_map_fst]
      · exact ih

/-- The placeholders with numbers are the placeholders. -/
theorem marks_fst (h : History) : (marks h).map Prod.fst = markers h := by
  unfold marks markers
  rw [List.map_flatMap]
  congr 1
  funext k
  exact standing_fst k h

theorem mem_marks {h : History} {mark : Text × Nat} :
    mark ∈ marks h ↔ ∃ k, mark ∈ standing k h := by
  simp only [marks, List.mem_flatMap]
  constructor
  · rintro ⟨k, -, hm⟩
    exact ⟨k, hm⟩
  · rintro ⟨k, hm⟩
    exact ⟨k, k.mem_all, hm⟩

/-- Opening a clause leaves marks out. -/
theorem marks_opened_sublist (k : Clause) (h : History) :
    (marks (.opened k :: h)).Sublist (marks h) := by
  refine List.Sublist.flatMap_right _ ?_
  intro k' _
  rw [standing]
  split
  · exact List.nil_sublist _
  · exact .refl _

theorem mem_marks_of_wrote {h : History} {k : Clause} {ms : List Text} {mark : Text × Nat}
    (hm : mark ∈ marks (.wrote k ms :: h)) : mark ∈ marks h ∨ mark ∈ ms.zipIdx (declared h) := by
  obtain ⟨k', hm⟩ := mem_marks.1 hm
  rw [standing] at hm
  split at hm
  · rcases List.mem_append.1 hm with hm | hm
    · exact .inl (mem_marks.2 ⟨k', hm⟩)
    · exact .inr hm
  · exact .inl (mem_marks.2 ⟨k', hm⟩)

/-- No more placeholders stand than were declared. -/
theorem length_markers_le (h : History) : (markers h).length ≤ declared h := by
  induction h with
  | nil => exact Nat.le_refl 0
  | cons entry h ih =>
    cases entry with
    | opened k =>
      have hlen := length_markers_opened k h
      rw [declared]
      omega
    | wrote k ms =>
      rw [length_markers_wrote, declared]
      omega

end History

/-! ## Numbers and slots -/

/-- Parameters that take in no other statement get a slot for every placeholder, in the
    order in which these are declared. -/
theorem Grows.numbered {source : Text → Source} {carried : Text → List Text}
    {o o' : Option Parameters} {ms : List Text} (h : Grows source carried o ms o') (ho : Sane o)
    (halone : ∀ r raw p, source r ≠ .other raw p) :
    (held o').slotCount = (held o).slotCount + ms.length ∧
      ∀ (i : Nat) (t : Text), ms[i]? = some t → (held o').isBound t ((held o).slotCount + i) = true := by
  cases h with
  | same => exact ⟨rfl, nofun⟩
  | @declared ds hc =>
    obtain ⟨hlen, hcount⟩ := (held o).length_declareAll ds
    refine ⟨?_, fun i t => Parameters.isBound_declareAll ho.spec.1 hc⟩
    rw [hlen]
    exact hcount
  | absorbed hr => exact absurd hr (halone _ _ _)

/-- The slots of a draft are numbered like the declarations in its history. -/
structure Numbered (d : Draft) (h : History) : Prop where
  slotCount_eq : (held d.parameters).slotCount = h.declared
  isBound : ∀ t k, (t, k) ∈ h.marks → (held d.parameters).isBound t k = true

theorem numbered_empty : Numbered (Draft.empty .standard) [] := ⟨rfl, nofun⟩

namespace Numbered

variable {d d' : Draft} {h : History} (hn : Numbered d h) (hd : d.Ready)
include hn

theorem opened (k : Clause) : Numbered { d with statement := d.statement.start k } (.opened k :: h) where
  slotCount_eq := hn.slotCount_eq
  isBound t n hm := hn.isBound t n ((History.marks_opened_sublist k h).subset hm)

include hd

/-- Slots that are there keep their owners and numbers. -/
theorem of_continues {p : Parameters} (hc : (held d.parameters).Continues p) {t : Text} {k : Nat}
    (hm : (t, k) ∈ h.marks) : p.isBound t k = true := by
  have hb := hn.isBound t k hm
  rw [hc.isBound_eq k (hd.parameters.spec.1.lt_of_isBound hb)]
  exact hb

theorem wrote {source : Text → Source} {carried : Text → List Text}
    (hs : ∀ r, (source r).Sound (carried r)) (halone : ∀ r raw p, source r ≠ .other raw p)
    {ms : List Text} (hg : d.Grown source carried d' ms) (k : Clause) :
    Numbered d' (.wrote k ms :: h) := by
  obtain ⟨hcount, hnew⟩ := hg.grows.numbered hd.parameters halone
  have hcont := (hg.grows.continues hd.parameters hs).2
  constructor
  · rw [hcount, hn.slotCount_eq, History.declared]
  · intro t n hm
    rcases History.mem_marks_of_wrote hm with hm | hm
    · exact hn.of_continues hd hcont hm
    · obtain ⟨hle, hi⟩ := List.mk_mem_zipIdx_iff_le_and_getElem?_sub.1 hm
      have hb := hnew _ t hi
      rwa [hn.slotCount_eq, Nat.add_sub_cancel' hle] at hb

/-- **A composed call that names no other statement keeps the numbers.** -/
theorem moves {source : Text → Source} {carried : Text → List Text}
    (hs : ∀ r, (source r).Sound (carried r)) (halone : ∀ r raw p, source r ≠ .other raw p)
    {news : List Entry} (hm : d.Moves source carried h d' news) : Numbered d' (news ++ h) := by
  cases hm with
  | refilled hr =>
    obtain ⟨-, hcount, hcont, -⟩ := hd.parameters.refilled hr.parameters
    exact ⟨hcount.trans hn.slotCount_eq, fun t k => hn.of_continues hd hcont⟩
  | kept hk =>
    have hsame := hd.held_eq hk
    exact ⟨hsame ▸ hn.slotCount_eq, hsame ▸ hn.isBound⟩
  | opened k => exact hn.opened k
  | grown hk hg => exact hn.wrote hd hs halone hg _
  | paged k hg => exact (hn.opened k).wrote (hd.start k) hs halone hg k

end Numbered

/-! ## What a builder answers -/

theorem History.markers_getElem? {h : History} {i : Nat} {t : Text} {k : Nat}
    (hi : h.marks[i]? = some (t, k)) : h.markers[i]? = some t := by
  rw [← marks_fst, List.getElem?_map, hi]
  rfl

namespace Tracks

variable {b : Builder} {h : History} (ht : Tracks b.draft h) (hc : b.Coherent)
include ht hc

/-- A placeholder that is shown owns the slot of its place.  It shows the value of the slot
    of its declaration, too, if all of its slots hold the same. -/
theorem marks_shown {text : Text} (hok : b.compile.1 = .ok text) :
    ∃ vs : List Text, vs.length = h.marks.length ∧
      text = filled .standard vs (ofText b.draft.raw) ∧
      ∀ (i : Nat) (t : Text) (k : Nat), h.marks[i]? = some (t, k) →
        b.Owns t i ∧ b.slots[i]? = some vs[i]? ∧
          ((∀ slot, b.Owns t slot → b.slots[slot]? = b.slots[k]?) → b.slots[k]? = some vs[i]?) := by
  obtain ⟨vs, hlen, htext, hall⟩ := ht.shown hc hok
  rw [← h.marks_fst, List.length_map] at hlen
  refine ⟨vs, hlen, htext, ?_⟩
  intro i t k hi
  obtain ⟨hown, hslot⟩ := hall i t (History.markers_getElem? hi)
  refine ⟨hown, hslot, ?_⟩
  intro hsame
  rw [← hsame i hown, hslot]

/-- A placeholder with one slot is refused in every other place. -/
theorem exists_error_of_misplaced {i : Nat} {t : Text} {k : Nat} (hi : h.marks[i]? = some (t, k))
    (hne : k ≠ i) (honly : ∀ slot, b.Owns t slot → slot = k) : ∃ e, b.compile.1 = .error e := by
  cases hcomp : b.compile.1 with
  | error e => exact ⟨e, rfl⟩
  | ok text =>
    -- then the placeholder would own the slot of its place
    obtain ⟨vs, -, -, hall⟩ := ht.marks_shown hc hcomp
    exact absurd (honly i (hall i t k hi).1).symm hne

/-- An error is about a placeholder that stands in a place of which it does not own the
    slot, or for which no value is set. -/
theorem marks_refused (hn : Numbered b.draft h) {e : Error} (he : b.compile.1 = .error e) :
    ∃ (i : Nat) (t : Text) (k : Nat), h.marks[i]? = some (t, k) ∧
      (e = .outOfOrder i (Marking.standard.display t) ∧ ¬ b.Owns t i ∨
        e = .missingValue (Marking.standard.display t) ∧ b.Owns t i ∧ b.slots[i]? = some none) := by
  obtain ⟨i, t, hi, hv⟩ := ht.refused hc he
  rw [← h.marks_fst, List.getElem?_map, Option.map_eq_some_iff] at hi
  obtain ⟨⟨_, k⟩, hi, rfl⟩ := hi
  refine ⟨i, _, k, hi, ?_⟩
  rw [← ht.ready.parameters.spec.2]
  rcases Parameters.valueAt_eq_error hv with hle | ⟨rfl, hb⟩ | ⟨rfl, hb, hslot⟩
  · -- no more placeholders stand than there are slots
    have hlt := (List.getElem?_eq_some_iff.1 (History.markers_getElem? hi)).1
    have hcount := h.length_markers_le
    rw [hn.slotCount_eq] at hle
    omega
  · refine .inl ⟨rfl, ?_⟩
    rw [Builder.Owns, hb]
    exact Bool.false_ne_true
  · rw [values_held] at hslot
    exact .inr ⟨rfl, hb, hslot⟩

end Tracks

/-! ## Runs -/

/-- Values that are accepted in a row are the values of the first slots. -/
theorem Builder.slots_of_setParams {b b' : Builder} {values : List Value}
    (h : b.setParams values = (.ok (), b')) {k : Nat} {v : Value} (hk : values[k]? = some v) :
    b'.slots[k]? = some (some v.injected) := by
  obtain ⟨w, ws, rfl⟩ : ∃ w ws, values = w :: ws := by
    cases values with
    | nil => cases hk
    | cons w ws => exact ⟨w, ws, rfl⟩
  unfold setParams Draft.setParams at h
  cases hp : b.draft.parameters with
  | none =>
    simp only [hp] at h
    cases h
  | some p =>
    simp only [hp, Parameters.setAll] at h
    split at h
    · cases h
    · cases h
      show ((w :: ws).map (some ·.injected) ++ List.replicate _ none)[k]? = _
      have hlt : k < ((w :: ws).map (some ·.injected)).length := by
        rw [List.length_map]
        exact (List.getElem?_eq_some_iff.1 hk).1
      rw [List.getElem?_append_left hlt, List.getElem?_map, hk]
      rfl

namespace Session

variable {s : Session} {j : Journal}

/-- After values were set in a row, the first slots of the builder hold them. -/
theorem slots_setParams {name : Text} {values : List Value}
    (h : (s.step name (.setParams (values.map .value))).1 = .ok .done) {k : Nat} {v : Value}
    (hk : values[k]? = some v) :
    ((s.step name (.setParams (values.map .value))).2 name).slots[k]? = some (some v.injected) := by
  have hvalues : ((values.map Given.value).map (·.map (s.source name))).map (·.toValue) = values := by
    rw [List.map_map, List.map_map]
    exact List.map_id values
  have hanswer : (s name).respond ((Call.setParams (values.map .value)).map (s.source name)) =
      Builder.acknowledge ((s name).setParams values) :=
    congrArg (fun vs => Builder.acknowledge ((s name).setParams vs)) hvalues
  have hreply : (s.step name (.setParams (values.map .value))).1 =
      (Builder.acknowledge ((s name).setParams values)).1 := congrArg Prod.fst hanswer
  have hbuilder : (s.step name (.setParams (values.map .value))).2 name =
      (Builder.acknowledge ((s name).setParams values)).2 := by
    rw [← hanswer]
    exact if_pos rfl
  rw [hbuilder]
  rw [hreply] at h
  cases hr : (s name).setParams values with
  | mk r b' =>
    rw [hr] at h
    cases r with
    | error e => cases h
    | ok u => exact Builder.slots_of_setParams hr hk

/-- A source in which all that is seen of other statements is that there is nothing. -/
def unseen (_ : Text) : Source := .own []

theorem sound_unseen (r : Text) : (unseen r).Sound [] := by
  intro hw
  exact absurd rfl hw.1

theorem numbered_step (ht : s.Tracked j) {name n : Text} (hn : Numbered (s n).draft (j n))
    {call : Call Text} (hc : call.Composed) (halone : name = n → call.statements = []) :
    Numbered ((s.step name call).2 n).draft (s.noted j name call n) := by
  by_cases he : n = name
  · subst he
    have hnone := halone rfl
    have hmap : call.map (s.source n) = call.map unseen := by
      apply Call.map_congr
      rw [hnone]
      exact nofun
    have hentries : call.entries (held (s n).draft.parameters) (s.source n) (fun r => (j r).markers) (j n)
        = call.entries (held (s n).draft.parameters) unseen (fun _ => []) (j n) := by
      apply Call.entries_congr
      rw [hnone]
      exact nofun
    have ha : (s n).draft.Answers unseen (fun _ => []) (j n) ((s n).respond (call.map unseen))
        (call.entries (held (s n).draft.parameters) unseen (fun _ => []) (j n)) :=
      answers_respond sound_unseen (ht n).2.toFollows hc
    rw [← hmap, ← hentries] at ha
    have hnumbered := hn.moves (ht n).2.ready sound_unseen nofun (moves_of_answers ha)
    rw [noted_self]
    exact hnumbered
  · rw [step_of_ne he, noted_of_ne he]
    exact hn

theorem numbered_after {run : List (Text × Call Text)} (hrun : ∀ c ∈ run, c.2.Composed) {n : Text}
    (halone : ∀ c ∈ run, c.1 = n → c.2.statements = []) (ht : s.Tracked j)
    (hn : Numbered (s n).draft (j n)) : Numbered (s.after run n).draft (s.journal j run n) := by
  induction run generalizing s j with
  | nil => exact hn
  | cons c run ih =>
    have hc := hrun c (by simp)
    refine ih ?_ ?_ (ht.step c.1 hc) (numbered_step ht hn hc (halone c (by simp)))
    · intro c' hc'
      exact hrun c' (by simp [hc'])
    · intro c' hc'
      exact halone c' (by simp [hc'])

/-- **What a statement compiles to, by the numbers of the declarations.**  Take a composed
    run in which the builder `name` names no other statement.  What is read in its text
    are the placeholders of the declarations that still stand, and the placeholder of the
    declaration `k` owns the slot `k`.

    If the builder answers with a text, every placeholder is replaced by the value of the
    slot of its place, which is one of its own; this is the value of the slot `k` if all of
    its slots hold the same.  A placeholder that owns no slot but `k` and stands in another
    place than `k` makes the builder answer with an error.  An error is about a placeholder
    that does not own the slot of its place, or about one for which no value is set there.

    Values that are set in a row are those of the declarations, in their order. -/
theorem compiled_as_declared {run : List (Text × Call Text)} (hrun : ∀ c ∈ run, c.2.Composed)
    {name : Text} (halone : ∀ c ∈ run, c.1 = name → c.2.statements = []) :
    let b := start.after run name
    let reply := ((start.after run).step name (.compiled false)).1
    let marks := ((start.journal (fun _ => []) run) name).marks
    ∃ raw, ((start.after run).step name (.raw false)).1 = .ok (.text raw) ∧
      placeholders .standard (ofText raw) = marks.map Prod.fst ∧
      (∀ t k, (t, k) ∈ marks → b.Owns t k) ∧
      (∀ text, reply = .ok (.text text) → ∃ vs : List Text, vs.length = marks.length ∧
        text = filled .standard vs (ofText raw) ∧
        ∀ (i : Nat) (t : Text) (k : Nat), marks[i]? = some (t, k) →
          b.Owns t i ∧ b.slots[i]? = some vs[i]? ∧
            ((∀ slot, b.Owns t slot → b.slots[slot]? = b.slots[k]?) → b.slots[k]? = some vs[i]?)) ∧
      (∀ (i : Nat) (t : Text) (k : Nat), marks[i]? = some (t, k) → k ≠ i →
        (∀ slot, b.Owns t slot → slot = k) → ∃ e, reply = .error e) ∧
      (∀ e, reply = .error e → ∃ (i : Nat) (t : Text) (k : Nat), marks[i]? = some (t, k) ∧
        (e = .outOfOrder i (Marking.standard.display t) ∧ ¬ b.Owns t i ∨
          e = .missingValue (Marking.standard.display t) ∧ b.Owns t i ∧ b.slots[i]? = some none)) ∧
      ∀ values : List Value,
        let set := (start.after run).step name (.setParams (values.map .value))
        set.1 = .ok .done → ∀ (k : Nat) (v : Value), values[k]? = some v →
          (set.2 name).slots[k]? = some (some v.injected) := by
  intro b reply marks
  obtain ⟨hcoh, ht⟩ := tracked_start.after hrun name
  have hn : Numbered b.draft ((start.journal (fun _ => []) run) name) :=
    numbered_after hrun halone tracked_start numbered_empty
  have hreply : reply = b.compile.1.map .text := rfl
  refine ⟨b.draft.raw, ?_, ?_, hn.isBound, ?_, ?_, ?_, ?_⟩
  · show Except.ok (Reply.text b.text) = _
    rw [hcoh.text_eq]
  · rw [History.marks_fst]
    exact ht.carries_raw.placeholders_eq
  · intro text hok
    exact ht.marks_shown hcoh (Reply.eq_ok_of_map_text hok)
  · intro i t k hi hne honly
    obtain ⟨e, he⟩ := ht.exists_error_of_misplaced hcoh hi hne honly
    rw [hreply, he]
    exact ⟨e, rfl⟩
  · intro e he
    exact ht.marks_refused hcoh hn (Reply.eq_error_of_map_text he)
  · intro values set hset k v hk
    exact slots_setParams hset hk

/-- A call is written in front of the clause in which the first name was declared. -/
theorem compiled_as_declared_in_front :
    let run : List (Text × Call Text) := [
      ("q", .say (.clause .where_)), ("q", .say (.param (.value (.text "x")))),
      ("q", .say (.clause .select)),
      ("q", .say (.function "COALESCE" none none
        [.param (.value (.text "y")), .given (.value (.int 0))])),
      ("q", .setParams [.value (.int 1), .value (.int 2)])]
    (∀ c ∈ run, c.2.Composed) ∧ (∀ c ∈ run, c.1 = "q".toList → c.2.statements = []) ∧
      ((start.journal (fun _ => []) run) "q").marks = [("$?y".toList, 1), ("$?x".toList, 0)] ∧
      ∃ i t, ((start.after run).step "q" (.compiled false)).1 =
        .error (.outOfOrder i (Marking.standard.display t)) := by
  intro run
  have hrun : ∀ c ∈ run, c.2.Composed := by decide +kernel
  have halone : ∀ c ∈ run, c.1 = "q".toList → c.2.statements = [] := by decide +kernel
  have hmarks : ((start.journal (fun _ => []) run) "q").marks =
      [("$?y".toList, 1), ("$?x".toList, 0)] := by decide +kernel
  have hslots : (start.after run "q").slots = [some "1".toList, some "2".toList] := by
    decide +kernel
  have hreference : (held (start.after run "q").draft.parameters).references.slots? "$?y" = some [1] := by
    decide +kernel
  have honly : ∀ slot, (start.after run "q").Owns "$?y" slot → slot = 1 := by
    intro slot hown
    rw [Builder.Owns, Parameters.isBound, hreference] at hown
    simpa using hown
  obtain ⟨raw, -, -, -, -, hmisplaced, hrefused, -⟩ := compiled_as_declared hrun halone
  obtain ⟨e, he⟩ := hmisplaced 0 "$?y" 1 (by rw [hmarks]; rfl) (by decide) honly
  obtain ⟨i, t, k, -, ⟨rfl, -⟩ | ⟨-, -, hnone⟩⟩ := hrefused e he
  · exact ⟨hrun, halone, hmarks, i, t, he⟩
  · rw [hslots] at hnone
    rcases i with _ | _ | i <;> cases hnone

/-- One name is declared twice, the second time in the clause that stands in front.  The
    values that are set in a row are exchanged, for both slots belong to the name. -/
theorem compiled_with_values_exchanged :
    let run : List (Text × Call Text) := [
      ("q", .say (.clause .where_)), ("q", .say (.column ["a".toList] none none)),
      ("q", .say (.keyword .equal)), ("q", .say (.param (.value (.text "x")))),
      ("q", .say (.clause .select)), ("q", .say (.param (.value (.text "x")))),
      ("q", .setParams [.value (.text "v0"), .value (.text "v1")])]
    ((start.journal (fun _ => []) run) "q").marks = [("$?x".toList, 1), ("$?x".toList, 0)] ∧
      (start.after run "q").slots = [some "v0".toList, some "v1".toList] ∧
      ((start.after run).step "q" (.compiled false)).1 =
        .ok (.text "SELECT v0 WHERE \"a\" = v1") := by
  decide +kernel

end Session

end SqlCompose
