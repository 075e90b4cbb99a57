/-
  Growth — how the parameters of a statement grow while it is written.

  * `Source.Sound` is what has to be known of a statement that is taken in;
  * `Grows` says that parameters get placeholders: they are declared, or they come
    with a statement that is taken in;
  * `Grows.continues` and `Grows.owned_of_mem`: old slots keep their owners, and the
    new placeholders own slots.
-/
import SqlCompose.Draft
import SqlCompose.Proofs.Carrying
import SqlCompose.Proofs.Merging

namespace SqlCompose

open Template

/-- A text without quotes. -/
def Text.Unquoted (t : Text) : Prop := '\'' ∉ t ∧ '"' ∉ t

instance (t : Text) : Decidable t.Unquoted := inferInstanceAs (Decidable (_ ∧ _))

/-! ## Parameters that may not be there -/

/-- The parameters of a draft with the standard marking: those there are, or new ones. -/
abbrev held (o : Option Parameters) : Parameters := .orEmpty .standard o

/-- Parameters, if there are any, are consistent and have the standard marking. -/
def Sane (o : Option Parameters) : Prop := ∀ p, o = some p → p.Consistent ∧ p.marking = .standard

/-- The placeholder has a slot. -/
def Owned (o : Option Parameters) (t : Text) : Prop := ∃ p s, o = some p ∧ p.isBound t s = true

theorem Sane.spec {o : Option Parameters} (h : Sane o) :
    (held o).Consistent ∧ (held o).marking = .standard := by
  cases o with
  | none => exact ⟨Parameters.consistent_empty _, rfl⟩
  | some p => exact h p rfl

/-- An inner slot belongs, behind the outer slots, to the placeholder that stands in
    the text then. -/
theorem Sane.isBound_absorb {o : Option Parameters} (h : Sane o) {inner : Parameters}
    (hi : inner.Consistent) (hm : inner.marking = .standard) {t : Text} {s : Nat}
    (hb : inner.isBound t s = true) :
    ((held o).absorb inner).isBound (Marking.standard.shift (held o).ordinals t)
      ((held o).slotCount + s) = true := by
  have hm := hm.trans h.spec.2.symm
  have hkey := hi.isKey_of_isBound hb
  rw [hm] at hkey
  have hshift := Parameters.shift_of_isKey hkey
  rw [h.spec.2] at hshift
  rw [hshift]
  exact Parameters.isBound_absorb hi hm hb

theorem Sane.refilled {o o' : Option Parameters} (h : Sane o)
    (hr : Option.Rel Parameters.Refills o o') :
    Sane o' ∧ (held o').slotCount = (held o).slotCount ∧ (held o).Continues (held o') ∧
      ∀ t, Owned o t → Owned o' t := by
  cases hr with
  | none => exact ⟨h, rfl, .refl _, fun _ ht => ht⟩
  | @some p q hr =>
    obtain ⟨hp, hm⟩ := h p rfl
    obtain ⟨hq, hcont⟩ := hp.refill hr
    obtain ⟨values, hv, rfl⟩ := hr
    refine ⟨?_, hv, hcont, ?_⟩
    · rintro _ ⟨⟩
      exact ⟨hq, hm⟩
    · rintro t ⟨_, s, ⟨⟩, hb⟩
      exact ⟨_, s, rfl, hb⟩

/-- What has to hold of a statement that is taken in and carries `ms`. -/
def Source.Sound (ms : List Text) : Source → Prop
  | .own raw => raw.IsWord → raw.Unquoted
  | .other raw o => (raw.IsWord → raw.Unquoted) ∧ Carries raw ms ∧ Sane o ∧ ∀ t ∈ ms, Owned o t

theorem Source.Sound.inner {ms : List Text} {raw : Text} {inner : Parameters}
    (h : (Source.other raw (some inner)).Sound ms) :
    inner.Consistent ∧ inner.marking = .standard ∧ ∀ t ∈ ms, ∃ s, inner.isBound t s = true := by
  obtain ⟨-, -, hsane, hown⟩ := h
  obtain ⟨hi, hm⟩ := hsane inner rfl
  refine ⟨hi, hm, ?_⟩
  intro t ht
  obtain ⟨_, s, ⟨⟩, hb⟩ := hown t ht
  exact ⟨s, hb⟩

/-! ## Growth -/

/-- How parameters get the placeholders `ms`: they are declared, or they come with
    the parameters of a statement that is taken in. -/
inductive Grows (source : Text → Source) (carried : Text → List Text) (o : Option Parameters) :
    List Text → Option Parameters → Prop where
  | same : Grows source carried o [] o
  | declared {ds : List Declaration} : Parameters.checkAll (held o).ordinals ds = .ok () →
    Grows source carried o ((held o).declareAll ds).1 (some ((held o).declareAll ds).2)
  | absorbed {r raw : Text} {inner : Parameters} : source r = .other raw (some inner) →
    Grows source carried o ((carried r).map (Marking.standard.shift (held o).ordinals))
      (some ((held o).absorb inner))

namespace Grows

variable {source : Text → Source} {carried : Text → List Text} {o o' : Option Parameters}
  {ms : List Text} (h : Grows source carried o ms o') (ho : Sane o)
  (hs : ∀ r, (source r).Sound (carried r))
include h ho hs

theorem continues : Sane o' ∧ (held o).Continues (held o') := by
  obtain ⟨hp, hm⟩ := ho.spec
  cases h with
  | same => exact ⟨ho, .refl _⟩
  | declared hc =>
    obtain ⟨hq, hcont⟩ := hp.declareAll hc
    refine ⟨?_, hcont⟩
    rintro _ ⟨⟩
    exact ⟨hq, hcont.marking_eq.trans hm⟩
  | @absorbed r raw inner hr =>
    obtain ⟨hi, him, -⟩ := Source.Sound.inner (hr ▸ hs r)
    have him := him.trans hm.symm
    refine ⟨?_, Parameters.continues_absorb hi him⟩
    rintro _ ⟨⟩
    exact ⟨hp.absorb hi him, hm⟩

theorem owned_of_owned {t : Text} (ht : Owned o t) : Owned o' t := by
  obtain ⟨p, s, rfl, hb⟩ := ht
  have hlt := (ho p rfl).1.lt_of_isBound hb
  have hb' : (held o').isBound t s = true := by
    rw [(h.continues ho hs).2.isBound_eq s hlt]
    exact hb
  cases h with
  | same => exact ⟨p, s, rfl, hb⟩
  | declared | absorbed => exact ⟨_, s, rfl, hb'⟩

/-- What grows owns the placeholders that it got. -/
theorem owned_of_mem {t : Text} (ht : t ∈ ms) : Owned o' t := by
  cases h with
  | same => cases ht
  | declared hc =>
    obtain ⟨i, hi⟩ := List.mem_iff_getElem?.1 ht
    exact ⟨_, _, rfl, Parameters.isBound_declareAll ho.spec.1 hc hi⟩
  | @absorbed r raw inner hr =>
    obtain ⟨hi, him, hown⟩ := Source.Sound.inner (hr ▸ hs r)
    obtain ⟨u, hu, rfl⟩ := List.mem_map.1 ht
    obtain ⟨s, hb⟩ := hown u hu
    exact ⟨_, _, rfl, ho.isBound_absorb hi him hb⟩

end Grows

end SqlCompose
