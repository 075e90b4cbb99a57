/-
  Evolution — what every course of changes keeps of parameters.

  * `Change` lists what can be done to parameters by themselves, and `refills_of_changed?`
    says all that a change can do;
  * `Evolves` is a course of changes and of absorptions, failed changes included;
  * `Evolves.consistent`: parameters that come from nothing are consistent, and no
    slot ever changes its owner; `evolves_owned_once` is the same in full.
-/
import SqlCompose.Proofs.Consistency

namespace SqlCompose.Parameters

/-- What can be done to parameters by themselves. -/
inductive Change where
  | declare (reference : Value)
  | declareAll (references : List Value)
  | set (reference value : Value)
  | setAll (values : List Value)
  | clear

/-- The references that a change declares. -/
def Change.references : Change → List Value
  | .declare reference => [reference]
  | .declareAll references => references
  | _ => []

/-- The changed parameters, if the change does not fail. -/
def changed? (p : Parameters) : Change → Except Error Parameters
  | .declare reference => (p.allocate (.ofValue reference)).map Prod.snd
  | .declareAll references => (p.allocateAll (references.map .ofValue)).map Prod.snd
  | .set reference value => p.set reference value
  | .setAll values => p.setAll values
  | .clear => .ok p.clear

/-- The parameters after a change; one that fails leaves them. -/
def after (p : Parameters) (c : Change) : Parameters :=
  match p.changed? c with
  | .ok q => q
  | .error _ => p

/-- The parameters `q` come from `p` by changes and by absorbing parameters that
    themselves come from nothing, all with the marking `m`. -/
inductive Evolves (m : Marking) : Parameters → Parameters → Prop where
  | refl (p : Parameters) : Evolves m p p
  | change {p q : Parameters} (c : Change) : Evolves m p q → Evolves m p (q.after c)
  | absorb {p q inner : Parameters} :
    Evolves m p q → Evolves m (empty m) inner → Evolves m p (q.absorb inner)

/-- Declaring one reference is declaring a row of one. -/
theorem changed?_declare (p : Parameters) (reference : Value) :
    p.changed? (.declare reference) = p.changed? (.declareAll [reference]) := by
  show (p.allocate _).map Prod.snd = (p.allocateAll [.ofValue reference]).map Prod.snd
  rw [allocate, allocateAll, checkAll]
  cases check p.ordinals (.ofValue reference) <;> rfl

/-- Declaring a row succeeds exactly if it is accepted. -/
theorem changed?_declareAll_eq_ok_iff {p q : Parameters} {references : List Value} :
    p.changed? (.declareAll references) = .ok q ↔
      checkAll p.ordinals (references.map .ofValue) = .ok () ∧
        q = (p.declareAll (references.map .ofValue)).2 := by
  rw [changed?, allocateAll]
  cases checkAll p.ordinals (references.map .ofValue) with
  | error e => exact ⟨nofun, nofun⟩
  | ok u =>
    constructor
    · rintro ⟨⟩
      exact ⟨rfl, rfl⟩
    · rintro ⟨-, rfl⟩
      rfl

/-- A change declares its references in a row and gives the slots other values. -/
theorem refills_of_changed? {p q : Parameters} {c : Change} (h : p.changed? c = .ok q) :
    checkAll p.ordinals (c.references.map .ofValue) = .ok () ∧
      (p.declareAll (c.references.map .ofValue)).2.Refills q := by
  cases c with
  | declare reference =>
    rw [changed?_declare] at h
    obtain ⟨hc, rfl⟩ := changed?_declareAll_eq_ok_iff.1 h
    exact ⟨hc, .refl _⟩
  | declareAll references =>
    obtain ⟨hc, rfl⟩ := changed?_declareAll_eq_ok_iff.1 h
    exact ⟨hc, .refl _⟩
  | set reference value => exact ⟨rfl, refills_of_set h⟩
  | setAll values => exact ⟨rfl, refills_of_setAll h⟩
  | clear =>
    cases h
    exact ⟨rfl, refills_clear p⟩

/-- **A change keeps consistency and owners.** -/
theorem Consistent.after {p : Parameters} (hp : p.Consistent) (c : Change) :
    (p.after c).Consistent ∧ p.Continues (p.after c) := by
  unfold Parameters.after
  split
  · next q hq =>
    obtain ⟨hds, hr⟩ := refills_of_changed? hq
    obtain ⟨hc, hcont⟩ := hp.declareAll hds
    obtain ⟨hq, hcont'⟩ := hc.refill hr
    exact ⟨hq, hcont.trans hcont'⟩
  · exact ⟨hp, .refl p⟩

/-- **A course of changes keeps consistency and owners.** -/
theorem Evolves.consistent {m : Marking} {p q : Parameters} (h : Evolves m p q) (hp : p.Consistent)
    (hm : p.marking = m) : q.Consistent ∧ p.Continues q := by
  induction h with
  | refl p => exact ⟨hp, .refl p⟩
  | change c _ ih =>
    obtain ⟨hq, hcont⟩ := ih hp hm
    exact ⟨(hq.after c).1, hcont.trans (hq.after c).2⟩
  | absorb _ _ ih ih' =>
    obtain ⟨hq, hcont⟩ := ih hp hm
    obtain ⟨hi, hcont'⟩ := ih' (consistent_empty m) rfl
    have hmark := hcont'.marking_eq.trans (hcont.marking_eq.trans hm).symm
    exact ⟨hq.absorb hi hmark, hcont.trans (continues_absorb hi hmark)⟩

/-- **Every slot has one owner for good.**  Parameters that come from nothing are
    consistent: their slot lists hold slots only, every slot stands in one of them
    and once, and whatever happens later no slot goes over to another reference. -/
theorem evolves_owned_once {m : Marking} {p : Parameters} (h : Evolves m (empty m) p) :
    p.Consistent ∧ (∀ r ∈ p.references, ∀ s ∈ r.2, s < p.slotCount) ∧
      (∀ s < p.slotCount, p.references.slots.count s = 1 ∧
        ∃! marker, p.isBound marker s = true) ∧
      ∀ q, Evolves m p q → ∀ s < p.slotCount, ∀ marker, q.isBound marker s = p.isBound marker s := by
  obtain ⟨hp, hcont⟩ := h.consistent (consistent_empty m) rfl
  refine ⟨hp, ?_, ?_, ?_⟩
  · intro r hr s hs
    exact hp.slot_lt hr hs
  · intro s hs
    exact ⟨hp.count_eq_one hs, hp.existsUnique_isBound hs⟩
  · intro q hq
    exact (hq.consistent hp hcont.marking_eq).2.isBound_eq

/-- The name `x` and the first ordinal, and behind them an inner statement with an
    ordinal and the same name: the name owns the first and the last slot. -/
theorem evolves_owned_once_sharing_name :
    let inner := (empty .standard).after (.declareAll [.null, .text "x"])
    let outer := ((empty .standard).after (.declare (.text "x"))).after (.declare .null)
    let p := outer.absorb inner
    Evolves .standard (empty .standard) p ∧
      p.references = [("$?x".toList, [0, 3]), ("$$1".toList, [1]), ("$$2".toList, [2])] ∧
      p.Consistent ∧ p.references.slots.count 3 = 1 := by
  intro inner outer p
  have hp : Evolves .standard (empty .standard) p :=
    .absorb (.change _ (.change _ (.refl _))) (.change _ (.refl _))
  obtain ⟨hc, -, hslot, -⟩ := evolves_owned_once hp
  exact ⟨hp, by decide +kernel, hc, (hslot 3 (by decide +kernel)).1⟩

end SqlCompose.Parameters
