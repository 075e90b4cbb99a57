/-
  Parameters.Embedding — the placeholders of a statement inside another.

  When a statement is put into another, its slots follow the slots of the outer
  one and its ordinals the ordinals of the outer one.  Names stay as they are,
  so a name used in both has one reference.

  * `renumber` is the placeholder that an inner one becomes, and `absorb` takes
    the inner slots, references and ordinals over;
  * `takeIn` does so and gives the number by which the inner ordinals moved on;
  * `merge` moves the ordinals in the text of the inner statement on by it.
-/
import SqlCompose.Parameters
import SqlCompose.Template

namespace SqlCompose.Parameters

/-- The outer placeholder for an inner one: an ordinal is moved on by the outer
    ordinals, any other placeholder stays. -/
def renumber (p : Parameters) (marker : Text) : Text :=
  match (Text.after? p.marking.ordinalSign marker).bind Numeral.int? with
  | some n => p.marking.ordinalMarker (n + p.ordinals)
  | none => marker

/-- The references of `p` together with inner ones, renumbered and with their
    slots behind those of `p`. -/
def absorbReferences (p : Parameters) (inner : References) : References :=
  inner.foldl (fun refs r => refs.extend (p.renumber r.1) (r.2.map (· + p.slotCount))) p.references

/-- The parameters of the outer statement together with those of the inner one. -/
def absorb (p inner : Parameters) : Parameters where
  marking := p.marking
  values := p.values ++ inner.values
  references := p.absorbReferences inner.references
  ordinals := p.ordinals + inner.ordinals

@[simp] theorem marking_absorb (p inner : Parameters) : (p.absorb inner).marking = p.marking := rfl

@[simp] theorem slotCount_absorb (p inner : Parameters) :
    (p.absorb inner).slotCount = p.slotCount + inner.slotCount := List.length_append

@[simp] theorem ordinals_absorb (p inner : Parameters) :
    (p.absorb inner).ordinals = p.ordinals + inner.ordinals := rfl

/-- Takes the inner parameters over and gives the number by which their ordinals
    were moved on: the outer ordinals that there were before. -/
def takeIn (p inner : Parameters) : Nat × Parameters := (p.ordinals, p.absorb inner)

/-- Takes over the parameters of a statement with the same marking, and gives its
    text with the ordinals moved on.  Where they stay the text does. -/
def merge (p : Parameters) (raw : Text) (inner : Parameters) : Except Error (Text × Parameters) :=
  if p.marking ≠ inner.marking then .error .otherMarking
  else
    let (offset, q) := p.takeIn inner
    .ok (if offset = 0 then raw else Template.movedOn p.marking offset raw, q)

theorem merge_eq {p inner : Parameters} (hm : p.marking = inner.marking) (raw : Text) :
    p.merge raw inner = .ok
      (if p.ordinals = 0 then raw else Template.movedOn p.marking p.ordinals raw,
        p.absorb inner) :=
  if_neg (not_not_intro hm)

theorem merge_of_marking_ne {p inner : Parameters} (hm : p.marking ≠ inner.marking) (raw : Text) :
    p.merge raw inner = .error .otherMarking :=
  if_pos hm

theorem merge_eq_ok_iff {p inner q : Parameters} {raw t : Text} :
    p.merge raw inner = .ok (t, q) ↔ p.marking = inner.marking ∧ q = p.absorb inner ∧
      t = if p.ordinals = 0 then raw else Template.movedOn p.marking p.ordinals raw := by
  by_cases hm : p.marking = inner.marking
  · rw [merge_eq hm, Except.ok.injEq, Prod.mk.injEq, eq_comm, @eq_comm _ (p.absorb inner)]
    simp only [hm, true_and, and_comm]
  · rw [merge_of_marking_ne hm]
    exact iff_of_false nofun fun h => hm h.1

/-- The placeholder of an inner ordinal becomes that of the ordinal moved on. -/
theorem renumber_ordinalMarker (p : Parameters) (n : Nat) :
    p.renumber (p.marking.ordinalMarker n) = p.marking.ordinalMarker (n + p.ordinals : Nat) := by
  have h : Text.after? p.marking.ordinalSign (p.marking.ordinalMarker n) = some (Numeral.ofNat n) :=
    Text.after?_eq_some_iff.2 rfl
  rw [renumber, h, Option.bind_some, Numeral.int?_ofNat]
  rfl

/-- The placeholder of an inner name stays. -/
theorem renumber_namedMarker (p : Parameters) (name : Text) :
    p.renumber (p.marking.namedMarker name) = p.marking.namedMarker name := by
  have h : Text.after? p.marking.ordinalSign (p.marking.namedMarker name) = none := by
    refine Option.eq_none_iff_forall_ne_some.2 fun t ht => ?_
    exact p.marking.ordinalSign_append_ne_namedSign_append t name (Text.after?_eq_some_iff.1 ht).symm
  rw [renumber, h]
  rfl

end SqlCompose.Parameters
