/-
  Parameters — the placeholders declared in a statement, and their values.

  Every declared placeholder has a slot; slots are numbered from zero in the
  order of declaration and may hold a value.  Placeholders that are written the
  same share a reference: the list of their slots.  A fresh ordinal is one more
  than the ordinals declared so far; an ordinal can be declared again, and a
  name at any time.

  * `References` keeps the slots of every reference in the order of its first
    declaration, and `slots?_extend` says what a new slot changes;
  * `allocate` declares one placeholder, `allocateAll` several or none;
  * `set`, `setAll` and `clear` change the values.
-/
import SqlCompose.Error
import SqlCompose.Marking

namespace SqlCompose

/-! ## References -/

/-- The slots of every declared placeholder text, in the order of the first
    declarations. -/
abbrev References := List (Text × List Nat)

namespace References

/-- The slots of a reference, if it was declared. -/
def slots? (refs : References) (marker : Text) : Option (List Nat) :=
  match refs with
  | [] => none
  | (m, slots) :: rest => if m = marker then some slots else slots? rest marker

/-- Adds slots to a reference, behind all others if it is new. -/
def extend (marker : Text) (slots : List Nat) : References → References
  | [] => [(marker, slots)]
  | (m, ss) :: refs =>
    if m = marker then (m, ss ++ slots) :: refs else (m, ss) :: extend marker slots refs

theorem slots?_extend (refs : References) (marker m : Text) (slots : List Nat) :
    (refs.extend marker slots).slots? m =
      if m = marker then some ((refs.slots? marker).getD [] ++ slots) else refs.slots? m := by
  induction refs with
  | nil => grind [extend, slots?]
  | cons r refs ih => grind [extend, slots?]

end References

/-! ## Parameters -/

/-- The slots, references and ordinals of a statement. -/
structure Parameters where
  marking : Marking
  /-- The value of every slot, `none` while it is not set. -/
  values : List (Option Text)
  references : References
  /-- How many ordinals were declared. -/
  ordinals : Nat
  deriving DecidableEq

/-- What a placeholder is declared for: a key, or the next ordinal. -/
abbrev Declaration := Option Key

/-- Null declares the next ordinal, every other value the key it refers to. -/
def Declaration.ofValue : Value → Declaration
  | .null => none
  | v => some (Key.ofValue v)

/-- How many ordinals a declaration adds. -/
def Declaration.fresh (d : Declaration) : Nat := if d.isNone then 1 else 0

namespace Parameters

/-- Nothing is declared. -/
def empty (m : Marking) : Parameters := ⟨m, [], [], 0⟩

/-- The parameters if there are any, and otherwise new ones. -/
abbrev orEmpty (m : Marking) (o : Option Parameters) : Parameters := o.getD (empty m)

/-- The number of slots. -/
def slotCount (p : Parameters) : Nat := p.values.length

/-- The placeholder that a value refers to. -/
def marker (p : Parameters) (reference : Value) : Text := p.marking.marker (.ofValue reference)

/-- The slots that a value refers to. -/
def slots? (p : Parameters) (reference : Value) : Option (List Nat) :=
  p.references.slots? (p.marker reference)

/-- The slots that a value refers to; a failure if it refers to none. -/
def slotsFor (p : Parameters) (reference : Value) : Except Error (List Nat) :=
  match p.slots? reference with
  | some slots => .ok slots
  | none => .error (.unknownReference reference)

/-- Whether a slot belongs to the reference of a placeholder. -/
def isBound (p : Parameters) (token : Text) (slot : Nat) : Bool :=
  match p.references.slots? token with
  | some slots => slots.contains slot
  | none => false

/-! ## Declaring placeholders -/

/-- Accepts a declaration when `declared` ordinals exist: the next ordinal always,
    an ordinal if it exists, a name if it is a word. -/
def check (declared : Nat) : Declaration → Except Error Unit
  | none => .ok ()
  | some (.ordinal n) =>
    if 1 ≤ n ∧ n ≤ declared then .ok () else .error (.undeclaredOrdinal n declared)
  | some (.named name) => if name.IsWord then .ok () else .error (.unusableName name)

/-- The placeholder of a declaration. -/
def markerFor (p : Parameters) : Declaration → Text
  | none => p.marking.ordinalMarker (p.ordinals + 1 : Nat)
  | some k => p.marking.marker k

/-- Adds a slot without a value for an accepted declaration. -/
def declare (p : Parameters) (d : Declaration) : Parameters where
  marking := p.marking
  values := p.values ++ [none]
  references := p.references.extend (p.markerFor d) [p.slotCount]
  ordinals := p.ordinals + d.fresh

/-- Declares one placeholder and gives its text. -/
def allocate (p : Parameters) (d : Declaration) : Except Error (Text × Parameters) := do
  check p.ordinals d
  return (p.markerFor d, p.declare d)

/-- Accepts declarations that are made one after the other. -/
def checkAll (declared : Nat) : List Declaration → Except Error Unit
  | [] => .ok ()
  | d :: ds => do
    check declared d
    checkAll (declared + d.fresh) ds

/-- Adds a slot for every one of the accepted declarations. -/
def declareAll (p : Parameters) : List Declaration → List Text × Parameters
  | [] => ([], p)
  | d :: ds =>
    let (markers, p') := (p.declare d).declareAll ds
    (p.markerFor d :: markers, p')

/-- Declares placeholders in a row and gives their texts; if one declaration is
    refused, nothing is declared. -/
def allocateAll (p : Parameters) (ds : List Declaration) :
    Except Error (List Text × Parameters) := do
  checkAll p.ordinals ds
  return p.declareAll ds

@[simp] theorem marking_declare (p : Parameters) (d : Declaration) :
    (p.declare d).marking = p.marking := rfl

@[simp] theorem slotCount_declare (p : Parameters) (d : Declaration) :
    (p.declare d).slotCount = p.slotCount + 1 := by
  simp only [declare, slotCount, List.length_append, List.length_singleton]

@[simp] theorem ordinals_declare (p : Parameters) (d : Declaration) :
    (p.declare d).ordinals = p.ordinals + d.fresh := rfl

/-- A declaration succeeds exactly if it is accepted. -/
theorem allocate_eq_ok_iff {p p' : Parameters} {d : Declaration} {marker : Text} :
    p.allocate d = .ok (marker, p') ↔
      check p.ordinals d = .ok () ∧ marker = p.markerFor d ∧ p' = p.declare d := by
  unfold allocate
  cases check p.ordinals d with
  | error e => exact ⟨nofun, nofun⟩
  | ok u =>
    constructor
    · intro h; cases h; exact ⟨rfl, rfl, rfl⟩
    · rintro ⟨-, rfl, rfl⟩; rfl

/-- A row succeeds exactly if all of it is accepted. -/
theorem allocateAll_eq_ok_iff {p : Parameters} {ds : List Declaration} {r : List Text × Parameters} :
    p.allocateAll ds = .ok r ↔ checkAll p.ordinals ds = .ok () ∧ r = p.declareAll ds := by
  unfold allocateAll
  cases checkAll p.ordinals ds with
  | error e => exact ⟨nofun, nofun⟩
  | ok u =>
    constructor
    · intro h; cases h; exact ⟨rfl, rfl⟩
    · rintro ⟨-, rfl⟩; rfl

/-! ## Setting values -/

/-- Sets the value of every slot that a value refers to. -/
def set (p : Parameters) (reference value : Value) : Except Error Parameters := do
  let slots ← p.slotsFor reference
  return { p with
    values := p.values.mapIdx fun i old => if i ∈ slots then some value.injected else old }

/-- Sets the first slots to the given values, in order, and clears the others. -/
def setAll (p : Parameters) (values : List Value) : Except Error Parameters :=
  if p.slotCount < values.length then .error (.tooManyValues values.length p.slotCount)
  else .ok { p with
    values := values.map (some ·.injected) ++ List.replicate (p.slotCount - values.length) none }

/-- Clears every slot. -/
def clear (p : Parameters) : Parameters :=
  { p with values := List.replicate p.slotCount none }

@[simp] theorem slotCount_clear (p : Parameters) : p.clear.slotCount = p.slotCount :=
  List.length_replicate

/-- Setting a reference keeps the slots. -/
theorem slotCount_set {p p' : Parameters} {reference value : Value}
    (h : p.set reference value = .ok p') : p'.slotCount = p.slotCount := by
  unfold set at h
  cases hs : p.slotsFor reference with
  | error e => rw [hs] at h; cases h
  | ok slots => rw [hs] at h; cases h; exact List.length_mapIdx

/-- Setting values in a row keeps the slots. -/
theorem slotCount_setAll {p p' : Parameters} {values : List Value}
    (h : p.setAll values = .ok p') : p'.slotCount = p.slotCount := by
  unfold setAll at h
  split at h
  · cases h
  · cases h
    simp only [slotCount, List.length_append, List.length_map, List.length_replicate] at *
    omega

end Parameters

end SqlCompose
