/-
  Counterparts — statements that are the same but for their marking.

  What is declared with one marking and what is declared with another are related if they
  have the same keys with the same slots and values.

  * `Jointly` relates results: both are there and related, or both fail in the same way;
    `SameOutcome` lets failures show different placeholders;
  * `Parameters.Respelled` relates parameters; setting values, declaring placeholders and
    taking statements in keep them related (`Respelled.set`, `respelled_declareAll`,
    `respelled_merge`);
  * `sameOutcome_compile`: related statements compile to the same text, or fail for the same
    cause;
  * `Draft.Respelled` and `Source.Respelled` relate statements under way, and what others see
    of them.
-/
import SqlCompose.Proofs.Atomicity
import SqlCompose.Proofs.Respelling

namespace SqlCompose

open Template

variable {m m' : Marking}

/-! ## Results -/

/-- Both are there and related, or both fail in the same way. -/
inductive Jointly {α : Type} (R : α → α → Prop) : Except Error α → Except Error α → Prop where
  | ok {a a' : α} : R a a' → Jointly R (.ok a) (.ok a')
  | error (e : Error) : Jointly R (.error e) (.error e)

theorem Jointly.map {α β : Type} {R : α → α → Prop} {S : β → β → Prop} {x x' : Except Error α}
    (h : Jointly R x x') {f f' : α → β} (hf : ∀ a a', R a a' → S (f a) (f' a')) :
    Jointly S (x.map f) (x'.map f') := by
  cases h with
  | ok ha => exact .ok (hf _ _ ha)
  | error e => exact .error e

/-- The cause, whatever placeholder it shows. -/
def Error.unspelled : Error → Error
  | .outOfBounds position slots _ => .outOfBounds position slots []
  | .outOfOrder position _ => .outOfOrder position []
  | .missingValue _ => .missingValue []
  | e => e

/-- The same result, or failures with the same cause. -/
def SameOutcome {α : Type} (x x' : Except Error α) : Prop :=
  x.mapError Error.unspelled = x'.mapError Error.unspelled

theorem SameOutcome.bind {α β : Type} {x x' : Except Error α} {f f' : α → Except Error β}
    (hx : SameOutcome x x') (hf : ∀ a, SameOutcome (f a) (f' a)) : SameOutcome (x >>= f) (x' >>= f') := by
  cases x with
  | error e =>
    cases x' with
    | error e' => exact congrArg Except.error (Except.error.inj hx)
    | ok a' => cases hx
  | ok a =>
    cases x' with
    | error e' => cases hx
    | ok a' =>
      cases hx
      exact hf a

theorem SameOutcome.map {α β : Type} {x x' : Except Error α} (h : SameOutcome x x') (f : α → β) :
    SameOutcome (x.map f) (x'.map f) := by
  have hmap : ∀ y : Except Error α, y.map f = y >>= fun a => .ok (f a) := by
    intro y
    cases y <;> rfl
  rw [hmap, hmap]
  exact h.bind fun _ => rfl

/-! ## References -/

namespace References

/-- The slots of one key, whose placeholder is written with each marking. -/
inductive RespelledEntry (m m' : Marking) : Text × List Nat → Text × List Nat → Prop where
  | mk {key : Key} (slots : List Nat) : key.Readable →
    RespelledEntry m m' (m.marker key, slots) (m'.marker key, slots)

/-- The same keys with the same slots. -/
def Respelled (m m' : Marking) (refs refs' : References) : Prop :=
  List.Forall₂ (RespelledEntry m m') refs refs'

variable {refs refs' : References}

theorem Respelled.slots?_eq (h : refs.Respelled m m' refs') (key : Key) :
    refs'.slots? (m'.marker key) = refs.slots? (m.marker key) := by
  induction h with
  | nil => rfl
  | cons hr _ ih =>
    cases hr with
    | mk slots hk => simp only [slots?, Marking.marker_inj, ih]

theorem Respelled.extend (h : refs.Respelled m m' refs') {key : Key} (hk : key.Readable)
    (slots : List Nat) :
    (refs.extend (m.marker key) slots).Respelled m m' (refs'.extend (m'.marker key) slots) := by
  induction h with
  | nil => exact .cons (.mk slots hk) .nil
  | @cons r r' refs refs' hr hrefs ih =>
    cases hr with
    | @mk key' ss hk' =>
      simp only [References.extend, Marking.marker_inj]
      split
      · exact .cons (.mk _ hk') hrefs
      · exact .cons (.mk _ hk') ih

end References

/-! ## Parameters -/

/-- The same slots with the same values, and the same keys for them. -/
structure Parameters.Respelled (m m' : Marking) (p p' : Parameters) : Prop where
  marking_left : p.marking = m
  marking_right : p'.marking = m'
  values_eq : p'.values = p.values
  ordinals_eq : p'.ordinals = p.ordinals
  references : p.references.Respelled m m' p'.references

/-- The key that is declared when `declared` ordinals exist. -/
def Declaration.key (declared : Nat) (d : Declaration) : Key := d.getD (.ordinal (declared + 1 : Nat))

namespace Parameters

variable {p p' c c' : Parameters}

theorem respelled_empty (m m' : Marking) : (empty m).Respelled m m' (empty m') :=
  ⟨rfl, rfl, rfl, rfl, .nil⟩

theorem readable_key {declared : Nat} {d : Declaration} (hc : check declared d = .ok ())
    (hd : PlainDeclaration d) : (d.key declared).Readable := by
  rw [check_eq_ok_iff] at hc
  rcases d with _ | n | name
  · exact Int.natCast_nonneg _
  · exact Int.le_trans (by decide) hc.1
  · exact ⟨hc, hd name rfl hc⟩

theorem markerFor_eq (p : Parameters) (d : Declaration) :
    p.markerFor d = p.marking.marker (d.key p.ordinals) := by
  cases d <;> rfl

namespace Respelled

variable (h : p.Respelled m m' p')
include h

theorem slotCount_eq : p'.slotCount = p.slotCount := congrArg List.length h.values_eq

theorem isBound_eq (key : Key) (slot : Nat) :
    p'.isBound (m'.marker key) slot = p.isBound (m.marker key) slot := by
  unfold isBound
  rw [h.references.slots?_eq]

/-! ### Values -/

/-- Other values in the same slots. -/
theorem refill (values : List (Option Text)) :
    { p with values }.Respelled m m' { p' with values } :=
  ⟨h.marking_left, h.marking_right, rfl, h.ordinals_eq, h.references⟩

theorem set (reference value : Value) :
    Jointly (fun q q' => q.Respelled m m' q' ∧ q.slotCount = p.slotCount) (p.set reference value)
      (p'.set reference value) := by
  have hslots : p'.slots? reference = p.slots? reference := by
    unfold slots? marker
    rw [h.marking_left, h.marking_right, h.references.slots?_eq]
  unfold Parameters.set slotsFor
  rw [hslots, h.values_eq]
  cases p.slots? reference with
  | none => exact .error _
  | some slots => exact .ok ⟨h.refill _, List.length_mapIdx⟩

theorem setAll (values : List Value) :
    Jointly (fun q q' => q.Respelled m m' q' ∧ q.slotCount = p.slotCount) (p.setAll values)
      (p'.setAll values) := by
  unfold Parameters.setAll
  rw [h.slotCount_eq]
  split
  · exact .error _
  · next hle => exact .ok ⟨h.refill _, slotCount_setAll (p := p) (if_neg hle)⟩

theorem clear : p.clear.Respelled m m' p'.clear := by
  unfold Parameters.clear
  rw [h.slotCount_eq]
  exact h.refill _

/-! ### Declaring -/

theorem declare {d : Declaration} (hk : (d.key p.ordinals).Readable) :
    (p.declare d).Respelled m m' (p'.declare d) where
  marking_left := h.marking_left
  marking_right := h.marking_right
  values_eq := congrArg (· ++ [none]) h.values_eq
  ordinals_eq := congrArg (· + d.fresh) h.ordinals_eq
  references := by
    show (p.references.extend (p.markerFor d) [p.slotCount]).Respelled m m'
      (p'.references.extend (p'.markerFor d) [p'.slotCount])
    rw [markerFor_eq, markerFor_eq, h.marking_left, h.marking_right, h.ordinals_eq, h.slotCount_eq]
    exact h.references.extend hk _

/-! ### Taking in -/

theorem absorb (hc : c.Respelled m m' c') : (p.absorb c).Respelled m m' (p'.absorb c') where
  marking_left := h.marking_left
  marking_right := h.marking_right
  values_eq := by
    show p'.values ++ c'.values = p.values ++ c.values
    rw [h.values_eq, hc.values_eq]
  ordinals_eq := by
    rw [ordinals_absorb, ordinals_absorb, h.ordinals_eq, hc.ordinals_eq]
  references := by
    refine List.rel_foldl ?_ h.references hc.references
    intro refs refs' hrefs r r' hr
    cases hr with
    | @mk key slots hk =>
      have hleft := p.renumber_marker hk
      have hright := p'.renumber_marker hk
      rw [h.marking_left] at hleft
      rw [h.marking_right, h.ordinals_eq] at hright
      show References.Respelled m m'
        (refs.extend (p.renumber (m.marker key)) (slots.map (· + p.slotCount)))
        (refs'.extend (p'.renumber (m'.marker key)) (slots.map (· + p'.slotCount)))
      rw [hleft, hright, h.slotCount_eq]
      exact References.Respelled.extend hrefs (hk.movedOn _) _

end Respelled

/-- Related statements are taken in alike. -/
theorem respelled_merge (h : p.Respelled m m' p') (hc : c.Respelled m m' c') {raw raw' : Text}
    (hraw : raw.Respelled m m' c.slotCount raw') :
    ∃ t t', p.merge raw c = .ok (t, p.absorb c) ∧ p'.merge raw' c' = .ok (t', p'.absorb c') ∧
      t.Respelled m m' (p.absorb c).slotCount t' := by
  have hleft := merge_eq (h.marking_left.trans hc.marking_left.symm) raw
  have hright := merge_eq (h.marking_right.trans hc.marking_right.symm) raw'
  rw [h.marking_left] at hleft
  rw [h.marking_right, h.ordinals_eq] at hright
  refine ⟨_, _, hleft, hright, ?_⟩
  have hle : c.slotCount ≤ (p.absorb c).slotCount := by
    rw [slotCount_absorb]
    omega
  split
  · exact hraw.mono hle
  · exact (hraw.movedOn _).mono hle

section
variable (hm : m.Legible) (hm' : m'.Legible)
include hm hm'

theorem respelled_markerFor (h : p.Respelled m m' p') {slots : Nat} (h₀ : 0 < slots) {d : Declaration}
    (hk : (d.key p.ordinals).Readable) :
    Text.Respelled m m' slots (p.markerFor d) (p'.markerFor d) := by
  rw [markerFor_eq, markerFor_eq, h.marking_left, h.marking_right, h.ordinals_eq]
  exact respelled_marker hm hm' h₀ hk

theorem respelled_declareAll (h : p.Respelled m m' p') {ds : List Declaration}
    (hc : checkAll p.ordinals ds = .ok ()) (hd : ∀ d ∈ ds, PlainDeclaration d) :
    List.Forall₂ (Text.Respelled m m' (p.declareAll ds).2.slotCount) (p.declareAll ds).1
        (p'.declareAll ds).1 ∧
      (p.declareAll ds).2.Respelled m m' (p'.declareAll ds).2 := by
  induction ds generalizing p p' with
  | nil => exact ⟨.nil, h⟩
  | cons d ds ih =>
    obtain ⟨hc₁, hc₂⟩ := checkAll_cons_eq_ok_iff.1 hc
    have hk := readable_key hc₁ (hd d (by simp))
    have hds : ∀ e ∈ ds, PlainDeclaration e := by
      intro e he
      exact hd e (by simp [he])
    obtain ⟨hmarkers, hp⟩ := ih (h.declare hk) hc₂ hds
    have h₀ : 0 < ((p.declare d).declareAll ds).2.slotCount := by
      rw [(length_declareAll _ _).2, slotCount_declare]
      omega
    exact ⟨.cons (respelled_markerFor hm hm' h h₀ hk) hmarkers, hp⟩

end

/-! ## Compiling -/

theorem sameOutcome_valueAt (h : p.Respelled m m' p') (position : Nat) (key : Key) :
    SameOutcome (p.valueAt position (m.marker key)) (p'.valueAt position (m'.marker key)) := by
  unfold valueAt
  rw [h.slotCount_eq, h.isBound_eq, h.values_eq]
  split
  · rfl
  · split
    · rfl
    · rcases p.values[position]? with _ | _ | v <;> rfl

/-- Related pieces are filled in alike. -/
theorem sameOutcome_fillFrom (h : p.Respelled m m' p') {slots : Nat} {ps ps' : Template}
    (hps : List.Forall₂ (Piece.Respelled m m' slots) ps ps') (position : Nat) :
    SameOutcome (p.fillFrom position ps) (p'.fillFrom position ps') := by
  induction hps generalizing position with
  | nil => rfl
  | cons hp _ ih =>
    cases hp with
    | space => exact (ih position).bind fun _ => rfl
    | quoted q => exact (ih position).bind fun _ => rfl
    | word hu hw hw' =>
      simp only [fillFrom, h.marking_left, h.marking_right, hw, hw']
      exact (ih position).bind fun _ => rfl
    | @marker key h₀ hk =>
      simp only [fillFrom, h.marking_left, h.marking_right, m.isPlaceholder_marker hk,
        m'.isPlaceholder_marker hk]
      exact (sameOutcome_valueAt h position key).bind fun v =>
        (ih (position + 1)).bind fun _ => rfl

theorem respelled_orEmpty {o o' : Option Parameters} (h : Option.Rel (Respelled m m') o o') :
    (orEmpty m o).Respelled m m' (orEmpty m' o') := by
  cases h with
  | some hp => exact hp
  | none => exact respelled_empty m m'

/-- **Related statements compile to the same text, or fail for the same cause.** -/
theorem sameOutcome_compile {o o' : Option Parameters} (h : Option.Rel (Respelled m m') o o')
    {raw raw' : Text} (hraw : raw.Respelled m m' (orEmpty m o).slotCount raw') :
    SameOutcome (compile raw o) (compile raw' o') := by
  cases h with
  | none =>
    rw [eq_of_respelled hraw]
    rfl
  | @some p p' hp =>
    simp only [compile, hp.slotCount_eq]
    split
    · next h₀ =>
      have hraw : raw.Respelled m m' p.slotCount raw' := hraw
      rw [h₀] at hraw
      rw [eq_of_respelled hraw]
      rfl
    · exact sameOutcome_fillFrom hp hraw 0

end Parameters

/-! ## Drafts -/

/-- The same statement under way, written with each marking. -/
structure Draft.Respelled (m m' : Marking) (d d' : Draft) : Prop where
  marking_left : d.marking = m
  marking_right : d'.marking = m'
  current_eq : d'.statement.current = d.statement.current
  tokens : ∀ k, Option.Rel (List.Forall₂ (Text.Respelled m m' d.ownParameters.slotCount))
    (d.statement.tokens? k) (d'.statement.tokens? k)
  parameters : Option.Rel (Parameters.Respelled m m') d.parameters d'.parameters

/-- The same statement as others see it, written with each marking. -/
inductive Source.Respelled (m m' : Marking) : Source → Source → Prop where
  | own (raw raw' : Text) : Respelled m m' (.own raw) (.own raw')
  | other {raw raw' : Text} {o o' : Option Parameters} : Option.Rel (Parameters.Respelled m m') o o' →
    raw.Respelled m m' (Parameters.orEmpty m o).slotCount raw' → Respelled m m' (.other raw o) (.other raw' o')

namespace Draft

variable {d d' : Draft}

theorem respelled_empty (m m' : Marking) : (empty m).Respelled m m' (empty m') :=
  ⟨rfl, rfl, rfl, fun _ => .none, .none⟩

namespace Respelled

variable (h : d.Respelled m m' d')
include h

theorem ownParameters : d.ownParameters.Respelled m m' d'.ownParameters := by
  unfold Draft.ownParameters
  rw [h.marking_left, h.marking_right]
  exact Parameters.respelled_orEmpty h.parameters

theorem ownParameters_eq : d.ownParameters = Parameters.orEmpty m d.parameters := by
  unfold Draft.ownParameters
  rw [h.marking_left]

theorem raw (hm : m.Legible) (hm' : m'.Legible) :
    d.raw.Respelled m m' d.ownParameters.slotCount d'.raw :=
  respelled_render hm hm' h.tokens

theorem compiled (hm : m.Legible) (hm' : m'.Legible) : SameOutcome d.compiled d'.compiled :=
  Parameters.sameOutcome_compile h.parameters (h.ownParameters_eq ▸ h.raw hm hm')

/-- Other parameters with no fewer slots. -/
theorem holding {q q' : Parameters} (hq : q.Respelled m m' q')
    (hle : d.ownParameters.slotCount ≤ q.slotCount) :
    (d.holding q).Respelled m m' (d'.holding q') where
  marking_left := h.marking_left
  marking_right := h.marking_right
  current_eq := h.current_eq
  tokens k := by
    have hk := h.tokens k
    show Option.Rel (List.Forall₂ (Text.Respelled m m' q.slotCount)) (d.statement.tokens? k)
      (d'.statement.tokens? k)
    generalize d.statement.tokens? k = o, d'.statement.tokens? k = o' at hk
    cases hk with
    | some hts => exact .some (hts.imp fun _ _ ht => ht.mono hle)
    | none => exact .none
  parameters := .some hq

/-- A clause is opened. -/
theorem start (k : Clause) : { d with statement := d.statement.start k }.Respelled m m'
    { d' with statement := d'.statement.start k } where
  marking_left := h.marking_left
  marking_right := h.marking_right
  current_eq := rfl
  tokens k' := by
    show Option.Rel _ (if k' = k then some [] else d.statement.tokens? k')
      (if k' = k then some [] else d'.statement.tokens? k')
    split
    · exact .some .nil
    · exact h.tokens k'
  parameters := h.parameters

/-- A clause gets other tokens. -/
theorem setTokens (k : Clause) {ts ts' : List Text}
    (hts : List.Forall₂ (Text.Respelled m m' d.ownParameters.slotCount) ts ts') :
    { d with statement := d.statement.setTokens k ts }.Respelled m m'
      { d' with statement := d'.statement.setTokens k ts' } where
  marking_left := h.marking_left
  marking_right := h.marking_right
  current_eq := h.current_eq
  tokens k' := by
    show Option.Rel _ (if k' = k then some ts else d.statement.tokens? k')
      (if k' = k then some ts' else d'.statement.tokens? k')
    split
    · exact .some hts
    · exact h.tokens k'
  parameters := h.parameters

theorem tokens_getD (k : Clause) : List.Forall₂ (Text.Respelled m m' d.ownParameters.slotCount)
    ((d.statement.tokens? k).getD []) ((d'.statement.tokens? k).getD []) := by
  have hk := h.tokens k
  generalize d.statement.tokens? k = o, d'.statement.tokens? k = o' at hk
  cases hk with
  | some hts => exact hts
  | none => exact .nil

end Respelled

end Draft

end SqlCompose
