/-
  Consistency — what holds of the slots and references of a statement.

  * `Consistent` says that every slot belongs to one reference, that the ordinals
    are numbered in a row in the order of their first slots, and that every other
    reference is a name;
  * `Adds` says what references with new slots have to be like, and
    `Consistent.extended` that adding them keeps consistency: declaring a
    placeholder and absorbing an inner statement are both of this kind;
  * `Continues` says that every slot keeps its owner, and `isBound_declare` and
    `isBound_absorb` who owns the new ones.
-/
import SqlCompose.Parameters.Embedding
import SqlCompose.Proofs.References
import Mathlib.Data.List.Pairwise

namespace SqlCompose

/-! ## Markers -/

namespace Marking

variable {m : Marking}

theorem ordinalMarker_inj {n k : Nat} : m.ordinalMarker n = m.ordinalMarker k ↔ n = k := by
  constructor
  · intro h
    have hn := m.read?_ordinalMarker n
    have hk := m.read?_ordinalMarker k
    rw [h, hk] at hn
    cases hn
    rfl
  · rintro rfl
    rfl

theorem ordinal?_ordinalMarker (m : Marking) (n : Nat) : m.ordinal? (m.ordinalMarker n) = some n :=
  ordinal?_eq_some_iff.2 ⟨Numeral.ofNat n, rfl, Numeral.nat?_ofNat n⟩

theorem ordinal?_namedMarker (m : Marking) (name : Text) : m.ordinal? (m.namedMarker name) = none := by
  rw [Option.eq_none_iff_forall_ne_some]
  intro n hn
  obtain ⟨ds, hds, -⟩ := ordinal?_eq_some_iff.1 hn
  exact m.ordinalSign_append_ne_namedSign_append ds name hds.symm

theorem ordinalMarker_ne_namedMarker (n : Nat) (name : Text) :
    m.ordinalMarker n ≠ m.namedMarker name :=
  m.ordinalSign_append_ne_namedSign_append (Numeral.ofInt n) name

theorem isPrefix_ordinalMarker (n : Int) : m.ordinalSign <+: m.ordinalMarker n :=
  List.prefix_append _ _

theorem not_isPrefix_namedMarker (name : Text) : ¬ m.ordinalSign <+: m.namedMarker name := by
  rintro ⟨t, ht⟩
  exact m.ordinalSign_append_ne_namedSign_append t name ht

/-- What can be declared when `ordinals` ordinals exist: one of these, or a word. -/
def IsKey (m : Marking) (ordinals : Nat) (marker : Text) : Prop :=
  (∃ n : Nat, 1 ≤ n ∧ n ≤ ordinals ∧ marker = m.ordinalMarker n) ∨
    ∃ name : Text, name.IsWord ∧ marker = m.namedMarker name

theorem IsKey.mono {a b : Nat} (hab : a ≤ b) {marker : Text} (h : m.IsKey a marker) :
    m.IsKey b marker := by
  rcases h with ⟨n, h₁, hn, he⟩ | h
  · exact .inl ⟨n, h₁, by omega, he⟩
  · exact .inr h

theorem isKey_ordinalMarker_iff {ordinals n : Nat} :
    m.IsKey ordinals (m.ordinalMarker n) ↔ 1 ≤ n ∧ n ≤ ordinals := by
  constructor
  · rintro (⟨k, h₁, hk, he⟩ | ⟨name, -, he⟩)
    · rw [ordinalMarker_inj.1 he]; exact ⟨h₁, hk⟩
    · exact absurd he (ordinalMarker_ne_namedMarker n name)
  · rintro ⟨h₁, hn⟩
    exact .inl ⟨n, h₁, hn, rfl⟩

end Marking

namespace Parameters

/-! ## Consistency -/

/-- The references of `p` share its slots out and number its ordinals. -/
structure Consistent (p : Parameters) : Prop where
  keys_nodup : p.references.keys.Nodup
  /-- Every slot stands once in the slots of one reference. -/
  slots_perm : p.references.slots.Perm (List.range p.slotCount)
  slots_ne_nil : ∀ r ∈ p.references, r.2 ≠ []
  slots_increasing : ∀ r ∈ p.references, r.2.Pairwise (· < ·)
  /-- A key with the ordinal sign is the marker of a declared ordinal. -/
  ordinal_of_key : ∀ r ∈ p.references, p.marking.ordinalSign <+: r.1 →
    ∃ n : Nat, 1 ≤ n ∧ n ≤ p.ordinals ∧ r.1 = p.marking.ordinalMarker n
  /-- Any other key is the marker of a word. -/
  name_of_key : ∀ r ∈ p.references, ¬ p.marking.ordinalSign <+: r.1 →
    ∃ name : Text, name.IsWord ∧ r.1 = p.marking.namedMarker name
  /-- Every declared ordinal has its key. -/
  key_of_ordinal : ∀ n : Nat, 1 ≤ n → n ≤ p.ordinals →
    ∃ ss, (p.marking.ordinalMarker n, ss) ∈ p.references
  /-- The first slots of the ordinals ascend. -/
  ascending : ∀ (n a b : Nat) (ss ts : List Nat),
    (p.marking.ordinalMarker n, a :: ss) ∈ p.references →
      (p.marking.ordinalMarker (n + 1 : Nat), b :: ts) ∈ p.references → a < b

theorem consistent_empty (m : Marking) : (empty m).Consistent where
  keys_nodup := List.nodup_nil
  slots_perm := .refl _
  slots_ne_nil := nofun
  slots_increasing := nofun
  ordinal_of_key := nofun
  name_of_key := nofun
  key_of_ordinal n h₁ hn := by
    have hn : n ≤ 0 := hn
    omega
  ascending := nofun

theorem isBound_iff {p : Parameters} {marker : Text} {s : Nat} :
    p.isBound marker s = true ↔ ∃ ss, p.references.slots? marker = some ss ∧ s ∈ ss := by
  unfold isBound
  split
  · next ss hs => simp [hs]
  · next hs => simp [hs]

namespace Consistent

variable {p : Parameters} (h : p.Consistent)
include h

theorem isKey {r : Text × List Nat} (hr : r ∈ p.references) : p.marking.IsKey p.ordinals r.1 := by
  by_cases hs : p.marking.ordinalSign <+: r.1
  · exact .inl (h.ordinal_of_key r hr hs)
  · exact .inr (h.name_of_key r hr hs)

theorem slot_lt {r : Text × List Nat} (hr : r ∈ p.references) {s : Nat} (hs : s ∈ r.2) :
    s < p.slotCount :=
  List.mem_range.1 (h.slots_perm.mem_iff.1 (List.mem_flatMap.2 ⟨r, hr, hs⟩))

theorem lt_of_isBound {marker : Text} {s : Nat} (hb : p.isBound marker s = true) :
    s < p.slotCount := by
  obtain ⟨ss, hss, hs⟩ := isBound_iff.1 hb
  exact h.slot_lt (References.mem_of_slots? hss) hs

theorem count_eq_one {s : Nat} (hs : s < p.slotCount) : p.references.slots.count s = 1 := by
  rw [h.slots_perm.count_eq]
  exact List.count_eq_one_of_mem List.nodup_range (List.mem_range.2 hs)

/-- Every slot has one owner. -/
theorem existsUnique_isBound {s : Nat} (hs : s < p.slotCount) :
    ∃! marker, p.isBound marker s = true := by
  obtain ⟨r, hr, hsr⟩ := List.mem_flatMap.1 (h.slots_perm.mem_iff.2 (List.mem_range.2 hs))
  have hss := (References.slots?_eq_some_iff h.keys_nodup).2 hr
  refine ⟨r.1, isBound_iff.2 ⟨r.2, hss, hsr⟩, ?_⟩
  intro marker hm
  obtain ⟨ss, hss, hs'⟩ := isBound_iff.1 hm
  by_contra hne
  have hdisj := (List.nodup_flatMap.1 (h.slots_perm.nodup_iff.2 List.nodup_range)).2
  have : Std.Symm (Function.onFun List.Disjoint (Prod.snd : Text × List Nat → List Nat)) :=
    ⟨fun _ _ hd _ ha hb => hd hb ha⟩
  exact hdisj.forall (References.mem_of_slots? hss) hr (fun he => hne (congrArg Prod.fst he)) hs' hsr

theorem isKey_of_isBound {marker : Text} {s : Nat} (hb : p.isBound marker s = true) :
    p.marking.IsKey p.ordinals marker := by
  obtain ⟨ss, hss, -⟩ := isBound_iff.1 hb
  exact h.isKey (References.mem_of_slots? hss)

end Consistent

/-! ## New slots -/

/-- References with `count` new slots of `p` and with the `fresh` next ordinals. -/
structure Adds (p : Parameters) (count fresh : Nat) (added : References) : Prop where
  keys_nodup : added.keys.Nodup
  slots_perm : added.slots.Perm ((List.range count).map (p.slotCount + ·))
  slots_ne_nil : ∀ r ∈ added, r.2 ≠ []
  slots_increasing : ∀ r ∈ added, r.2.Pairwise (· < ·)
  isKey : ∀ r ∈ added, p.marking.IsKey (p.ordinals + fresh) r.1
  key_of_fresh : ∀ n : Nat, p.ordinals < n → n ≤ p.ordinals + fresh →
    ∃ ss, (p.marking.ordinalMarker n, ss) ∈ added
  ascending : ∀ (n a b : Nat) (ss ts : List Nat), p.ordinals < n →
    (p.marking.ordinalMarker n, a :: ss) ∈ added →
      (p.marking.ordinalMarker (n + 1 : Nat), b :: ts) ∈ added → a < b

/-- The parameters with new slots, their references and new ordinals. -/
def extended (p : Parameters) (values : List (Option Text)) (fresh : Nat) (added : References) :
    Parameters where
  marking := p.marking
  values := p.values ++ values
  references := p.references.extendAll added
  ordinals := p.ordinals + fresh

section
variable {p : Parameters} {values : List (Option Text)} {count fresh : Nat} {added : References}

theorem slotCount_extended : (p.extended values fresh added).slotCount =
    p.slotCount + values.length := List.length_append

theorem Adds.le_slot (ha : p.Adds count fresh added) {r : Text × List Nat} (hr : r ∈ added)
    {s : Nat} (hs : s ∈ r.2) : p.slotCount ≤ s := by
  have := ha.slots_perm.mem_iff.1 (List.mem_flatMap.2 ⟨r, hr, hs⟩)
  obtain ⟨k, -, rfl⟩ := List.mem_map.1 this
  omega

/-- A reference holds slots it had, new ones, or both. -/
theorem mem_extended (hp : p.Consistent) (ha : p.Adds count fresh added)
    {r : Text × List Nat} (hr : r ∈ p.references.extendAll added) :
    r ∈ p.references ∨ r ∈ added ∨
      ∃ ss ts, (r.1, ss) ∈ p.references ∧ (r.1, ts) ∈ added ∧ r.2 = ss ++ ts := by
  obtain ⟨k, ss⟩ := r
  have hn := References.nodup_extendAll hp.keys_nodup added
  have hs := (References.slots?_eq_some_iff hn).2 hr
  rw [References.slots?_extendAll _ ha.keys_nodup] at hs
  cases ht : added.slots? k with
  | none =>
    rw [ht] at hs
    exact .inl (References.mem_of_slots? hs)
  | some ts =>
    rw [ht] at hs
    have hts := References.mem_of_slots? ht
    cases ho : p.references.slots? k with
    | none => rw [ho] at hs; cases hs; exact .inr (.inl hts)
    | some os =>
      rw [ho] at hs
      cases hs
      exact .inr (.inr ⟨os, ts, References.mem_of_slots? ho, hts, rfl⟩)

theorem mem_extended_of_mem (hp : p.Consistent) (ha : p.Adds count fresh added)
    {k : Text} {ss : List Nat} (hr : (k, ss) ∈ p.references) :
    ∃ ts, (k, ss ++ ts) ∈ p.references.extendAll added := by
  have hs := (References.slots?_eq_some_iff hp.keys_nodup).2 hr
  have := References.slots?_extendAll p.references ha.keys_nodup k
  cases ht : added.slots? k with
  | none =>
    rw [ht, hs] at this
    exact ⟨[], by rw [List.append_nil]; exact References.mem_of_slots? this⟩
  | some ts =>
    rw [ht, hs] at this
    exact ⟨ts, References.mem_of_slots? this⟩

theorem mem_extended_of_mem_added (ha : p.Adds count fresh added)
    {k : Text} {ss : List Nat} (hr : (k, ss) ∈ added) :
    ∃ os, (k, os ++ ss) ∈ p.references.extendAll added := by
  have := References.slots?_extendAll p.references ha.keys_nodup k
  rw [(References.slots?_eq_some_iff ha.keys_nodup).2 hr] at this
  exact ⟨_, References.mem_of_slots? this⟩

theorem isKey_extended (hp : p.Consistent) (ha : p.Adds count fresh added)
    {r : Text × List Nat} (hr : r ∈ p.references.extendAll added) :
    p.marking.IsKey (p.ordinals + fresh) r.1 := by
  rcases mem_extended hp ha hr with h | h | ⟨ss, ts, -, h, -⟩
  · exact (hp.isKey h).mono (by omega)
  · exact ha.isKey r h
  · exact ha.isKey (r.1, ts) h

theorem increasing_extended (hp : p.Consistent) (ha : p.Adds count fresh added)
    {r : Text × List Nat} (hr : r ∈ p.references.extendAll added) :
    r.2.Pairwise (· < ·) := by
  rcases mem_extended hp ha hr with h | h | ⟨ss, ts, hs, ht, he⟩
  · exact hp.slots_increasing r h
  · exact ha.slots_increasing r h
  · rw [he, List.pairwise_append]
    refine ⟨hp.slots_increasing _ hs, ha.slots_increasing _ ht, ?_⟩
    intro a ha' b hb
    have hold := hp.slot_lt hs ha'
    have hnew := ha.le_slot ht hb
    omega

/-- The first slot of an old ordinal stays, and that of a new one is new. -/
theorem head_extended (hp : p.Consistent) (ha : p.Adds count fresh added)
    {n a : Nat} {ss : List Nat}
    (hr : (p.marking.ordinalMarker n, a :: ss) ∈ p.references.extendAll added) :
    (n ≤ p.ordinals → ∃ os, (p.marking.ordinalMarker n, a :: os) ∈ p.references) ∧
      (p.ordinals < n → (p.marking.ordinalMarker n, a :: ss) ∈ added) := by
  have hnot : ∀ {os : List Nat}, p.ordinals < n →
      (p.marking.ordinalMarker n, os) ∉ p.references := by
    intro os hn hos
    have hle := (Marking.isKey_ordinalMarker_iff.1 (hp.isKey hos)).2
    omega
  constructor
  · intro hn
    have h₁ := (Marking.isKey_ordinalMarker_iff.1 (isKey_extended hp ha hr)).1
    obtain ⟨os, hos⟩ := hp.key_of_ordinal n h₁ hn
    obtain ⟨ts, hts⟩ := mem_extended_of_mem hp ha hos
    have hnd := References.nodup_extendAll hp.keys_nodup added
    have hsame := ((References.slots?_eq_some_iff hnd).2 hr).symm.trans
      ((References.slots?_eq_some_iff hnd).2 hts)
    cases os with
    | nil => exact absurd rfl (hp.slots_ne_nil _ hos)
    | cons o os => cases hsame; exact ⟨os, hos⟩
  · intro hn
    rcases mem_extended hp ha hr with h | h | ⟨os, ts, h, -, -⟩
    · exact absurd h (hnot hn)
    · exact h
    · exact absurd h (hnot hn)

/-- **Adding references with new slots keeps consistency.** -/
theorem Consistent.extended (hp : p.Consistent) (ha : p.Adds values.length fresh added) :
    (p.extended values fresh added).Consistent where
  keys_nodup := References.nodup_extendAll hp.keys_nodup added
  slots_perm := by
    rw [slotCount_extended, List.range_add]
    exact (References.perm_extendAll _ _).trans (hp.slots_perm.append ha.slots_perm)
  slots_ne_nil r hr := by
    rcases mem_extended hp ha hr with h | h | ⟨ss, ts, hs, -, he⟩
    · exact hp.slots_ne_nil r h
    · exact ha.slots_ne_nil r h
    · rw [he]
      exact List.append_ne_nil_of_left_ne_nil (hp.slots_ne_nil _ hs) _
  slots_increasing _ hr := increasing_extended hp ha hr
  ordinal_of_key r hr hs := by
    rcases isKey_extended hp ha hr with h | ⟨name, -, he⟩
    · exact h
    · exact absurd (he ▸ hs) (Marking.not_isPrefix_namedMarker name)
  name_of_key r hr hs := by
    rcases isKey_extended hp ha hr with ⟨n, -, -, he⟩ | h
    · exact absurd (he ▸ Marking.isPrefix_ordinalMarker (n : Int)) hs
    · exact h
  key_of_ordinal n h₁ hn := by
    by_cases hold : n ≤ p.ordinals
    · obtain ⟨ss, hss⟩ := hp.key_of_ordinal n h₁ hold
      obtain ⟨ts, hts⟩ := mem_extended_of_mem hp ha hss
      exact ⟨_, hts⟩
    · obtain ⟨ss, hss⟩ := ha.key_of_fresh n (by omega) hn
      obtain ⟨os, hos⟩ := mem_extended_of_mem_added ha hss
      exact ⟨_, hos⟩
  ascending n a b ss ts hn hn' := by
    have hfirst := head_extended hp ha hn
    have hnext := head_extended hp ha hn'
    rcases Nat.lt_trichotomy n p.ordinals with hlt | heq | hgt
    · obtain ⟨os, hos⟩ := hfirst.1 (by omega)
      obtain ⟨os', hos'⟩ := hnext.1 hlt
      exact hp.ascending n a b os os' hos hos'
    · -- the last old ordinal in front of the first new one
      obtain ⟨os, hos⟩ := hfirst.1 (by omega)
      have hb := hnext.2 (by omega)
      have hold : a < p.slotCount := hp.slot_lt hos (by simp)
      have hnew : p.slotCount ≤ b := ha.le_slot hb (by simp)
      omega
    · exact ha.ascending n a b ss ts hgt (hfirst.2 hgt) (hnext.2 (by omega))

/-- New slots change no owner of an old one. -/
theorem isBound_extended_of_lt (ha : p.Adds values.length fresh added) {s : Nat}
    (hs : s < p.slotCount) (marker : Text) :
    (p.extended values fresh added).isBound marker s = p.isBound marker s := by
  have hnew : ∀ {ts : List Nat}, added.slots? marker = some ts → s ∉ ts := by
    intro ts ht hmem
    have hle := ha.le_slot (References.mem_of_slots? ht) hmem
    omega
  rw [Bool.eq_iff_iff, isBound_iff, isBound_iff]
  simp only [Parameters.extended, References.slots?_extendAll _ ha.keys_nodup]
  cases ht : added.slots? marker with
  | none => rfl
  | some ts =>
    have := hnew ht
    cases p.references.slots? marker <;> simp [this]

theorem isBound_extended_of_mem (ha : p.Adds values.length fresh added) {marker : Text}
    {ss : List Nat} (hr : (marker, ss) ∈ added) {s : Nat} (hs : s ∈ ss) :
    (p.extended values fresh added).isBound marker s = true := by
  rw [isBound_iff]
  simp only [Parameters.extended, References.slots?_extendAll _ ha.keys_nodup]
  rw [(References.slots?_eq_some_iff ha.keys_nodup).2 hr]
  exact ⟨_, rfl, List.mem_append_right _ hs⟩

end

/-! ## Declaring and absorbing -/

theorem check_eq_ok_iff {declared : Nat} {d : Declaration} :
    check declared d = .ok () ↔ match d with
      | none => True
      | some (.ordinal n) => 1 ≤ n ∧ n ≤ declared
      | some (.named name) => name.IsWord := by
  rcases d with _ | n | name
  · simp [check]
  · simp [check]
  · simp [check]

theorem isKey_markerFor {p : Parameters} {d : Declaration} (h : check p.ordinals d = .ok ()) :
    p.marking.IsKey (p.ordinals + d.fresh) (p.markerFor d) := by
  rw [check_eq_ok_iff] at h
  rcases d with _ | n | name
  · exact .inl ⟨p.ordinals + 1, by omega, by simp [Declaration.fresh], rfl⟩
  · obtain ⟨h₁, hn⟩ := h
    obtain ⟨k, rfl⟩ := Int.eq_ofNat_of_zero_le (by omega : 0 ≤ n)
    exact .inl ⟨k, by omega, by simp [Declaration.fresh]; omega, rfl⟩
  · exact .inr ⟨name, h, rfl⟩

theorem declare_eq_extended (p : Parameters) (d : Declaration) :
    p.declare d = p.extended [none] d.fresh [(p.markerFor d, [p.slotCount])] := rfl

theorem adds_declare {p : Parameters} {d : Declaration} (h : check p.ordinals d = .ok ()) :
    p.Adds 1 d.fresh [(p.markerFor d, [p.slotCount])] where
  keys_nodup := List.nodup_singleton _
  slots_perm := .refl _
  slots_ne_nil r hr := by cases List.mem_singleton.1 hr; exact List.cons_ne_nil _ _
  slots_increasing r hr := by cases List.mem_singleton.1 hr; exact List.pairwise_singleton _ _
  isKey r hr := by cases List.mem_singleton.1 hr; exact isKey_markerFor h
  key_of_fresh n hn hle := by
    cases d with
    | none =>
      have : n = p.ordinals + 1 := by simp [Declaration.fresh] at hle; omega
      subst this
      exact ⟨_, List.mem_singleton_self _⟩
    | some k => exact absurd hle (by simp [Declaration.fresh]; omega)
  ascending n a b ss ts _ hn hn' := by
    have h₁ := congrArg Prod.fst (List.mem_singleton.1 hn)
    have h₂ := congrArg Prod.fst (List.mem_singleton.1 hn')
    exact absurd (Marking.ordinalMarker_inj.1 (h₁.trans h₂.symm)) (by omega)

/-- **A declaration keeps consistency.** -/
theorem Consistent.declare {p : Parameters} (hp : p.Consistent) {d : Declaration}
    (h : check p.ordinals d = .ok ()) : (p.declare d).Consistent := by
  rw [declare_eq_extended]
  exact hp.extended (adds_declare h)

/-- Inner references as the outer statement takes them over. -/
def takenOver (p : Parameters) (inner : References) : References :=
  inner.map fun r => (p.renumber r.1, r.2.map (p.slotCount + ·))

theorem absorb_eq_extended (p inner : Parameters) :
    p.absorb inner = p.extended inner.values inner.ordinals (p.takenOver inner.references) := by
  unfold absorb extended absorbReferences References.extendAll takenOver
  simp only [List.foldl_map, Nat.add_comm]

/-- An ordinal of the inner statement is moved on by the outer ordinals, a name stays. -/
theorem isKey_renumber {p : Parameters} {ordinals : Nat} {marker : Text}
    (h : p.marking.IsKey ordinals marker) : p.marking.IsKey (p.ordinals + ordinals) (p.renumber marker) := by
  rcases h with ⟨n, h₁, hn, rfl⟩ | ⟨name, hw, rfl⟩
  · rw [renumber_ordinalMarker]
    exact .inl ⟨n + p.ordinals, by omega, by omega, rfl⟩
  · rw [renumber_namedMarker]
    exact .inr ⟨name, hw, rfl⟩

theorem renumber_inj {p : Parameters} {a b : Nat} {k k' : Text} (h : p.marking.IsKey a k)
    (h' : p.marking.IsKey b k') (he : p.renumber k = p.renumber k') : k = k' := by
  rcases h with ⟨n, -, -, rfl⟩ | ⟨name, -, rfl⟩ <;> rcases h' with ⟨n', -, -, rfl⟩ | ⟨name', -, rfl⟩
  · rw [renumber_ordinalMarker, renumber_ordinalMarker, Marking.ordinalMarker_inj] at he
    rw [Nat.add_right_cancel he]
  · rw [renumber_ordinalMarker, renumber_namedMarker] at he
    exact absurd he (Marking.ordinalMarker_ne_namedMarker _ _)
  · rw [renumber_ordinalMarker, renumber_namedMarker] at he
    exact absurd he.symm (Marking.ordinalMarker_ne_namedMarker _ _)
  · rwa [renumber_namedMarker, renumber_namedMarker] at he

/-- What becomes an ordinal was one, and is moved on by the outer ordinals. -/
theorem exists_ordinal_of_renumber {p : Parameters} {ordinals n : Nat} {k : Text}
    (h : p.marking.IsKey ordinals k) (he : p.marking.ordinalMarker n = p.renumber k) :
    ∃ j : Nat, n = j + p.ordinals ∧ k = p.marking.ordinalMarker j := by
  rcases h with ⟨j, -, -, rfl⟩ | ⟨name, -, rfl⟩
  · rw [renumber_ordinalMarker, Marking.ordinalMarker_inj] at he
    exact ⟨j, he, rfl⟩
  · rw [renumber_namedMarker] at he
    exact absurd he (Marking.ordinalMarker_ne_namedMarker _ _)

theorem mem_takenOver {p : Parameters} {inner : References} {r : Text × List Nat} :
    r ∈ p.takenOver inner ↔
      ∃ k ss, (k, ss) ∈ inner ∧ r = (p.renumber k, ss.map (p.slotCount + ·)) := by
  simp only [takenOver, List.mem_map, Prod.exists, eq_comm]

theorem adds_absorb {p inner : Parameters} (hi : inner.Consistent) (hm : inner.marking = p.marking) :
    p.Adds inner.values.length inner.ordinals (p.takenOver inner.references) where
  keys_nodup := by
    have hkey : ∀ r ∈ inner.references, p.marking.IsKey inner.ordinals r.1 :=
      fun r hr => hm ▸ hi.isKey hr
    have : (p.takenOver inner.references).keys = inner.references.keys.map p.renumber := by
      simp [takenOver, References.keys]
    rw [this]
    refine List.Nodup.map_on ?_ hi.keys_nodup
    intro k hk k' hk' he
    obtain ⟨r, hr, rfl⟩ := List.mem_map.1 hk
    obtain ⟨r', hr', rfl⟩ := List.mem_map.1 hk'
    exact renumber_inj (hkey r hr) (hkey r' hr') he
  slots_perm := by
    have : (p.takenOver inner.references).slots = inner.references.slots.map (p.slotCount + ·) := by
      simp [takenOver, References.slots, List.flatMap_map, List.map_flatMap]
    rw [this]
    exact hi.slots_perm.map _
  slots_ne_nil r hr := by
    obtain ⟨k, ss, hk, rfl⟩ := mem_takenOver.1 hr
    intro h
    exact hi.slots_ne_nil _ hk (List.map_eq_nil_iff.1 h)
  slots_increasing r hr := by
    obtain ⟨k, ss, hk, rfl⟩ := mem_takenOver.1 hr
    rw [List.pairwise_map]
    refine (hi.slots_increasing _ hk).imp ?_
    intro a b hab
    omega
  isKey r hr := by
    obtain ⟨k, ss, hk, rfl⟩ := mem_takenOver.1 hr
    exact isKey_renumber (hm ▸ hi.isKey hk)
  key_of_fresh n hn hle := by
    obtain ⟨ss, hss⟩ := hi.key_of_ordinal (n - p.ordinals) (by omega) (by omega)
    have he : p.renumber (inner.marking.ordinalMarker (n - p.ordinals : Nat)) =
        p.marking.ordinalMarker n := by
      rw [hm, renumber_ordinalMarker, Nat.sub_add_cancel (by omega)]
    exact ⟨ss.map (p.slotCount + ·), mem_takenOver.2 ⟨_, ss, hss, by rw [he]⟩⟩
  ascending n a b ss ts hn ha hb := by
    obtain ⟨k, os, hk, he⟩ := mem_takenOver.1 ha
    obtain ⟨k', os', hk', he'⟩ := mem_takenOver.1 hb
    obtain ⟨j, hj, rfl⟩ := exists_ordinal_of_renumber (hm ▸ hi.isKey hk) (congrArg Prod.fst he)
    obtain ⟨j', hj', rfl⟩ := exists_ordinal_of_renumber (hm ▸ hi.isKey hk') (congrArg Prod.fst he')
    rw [← hm] at hk hk'
    cases os with
    | nil => cases congrArg Prod.snd he
    | cons o os =>
      cases os' with
      | nil => cases congrArg Prod.snd he'
      | cons o' os' =>
        obtain rfl : j' = j + 1 := by omega
        have := hi.ascending j o o' os os' hk hk'
        have ha : a = p.slotCount + o := (List.cons.inj (congrArg Prod.snd he)).1
        have hb : b = p.slotCount + o' := (List.cons.inj (congrArg Prod.snd he')).1
        omega

/-- **Absorbing consistent parameters keeps consistency.** -/
theorem Consistent.absorb {p inner : Parameters} (hp : p.Consistent) (hi : inner.Consistent)
    (hm : inner.marking = p.marking) : (p.absorb inner).Consistent := by
  rw [absorb_eq_extended]
  exact hp.extended (adds_absorb hi hm)

/-! ## Steps that keep owners -/

/-- The parameters `q` go on from `p`: they may have more slots, but every slot of
    `p` has the owner it had. -/
structure Continues (p q : Parameters) : Prop where
  marking_eq : q.marking = p.marking
  slotCount_le : p.slotCount ≤ q.slotCount
  isBound_eq : ∀ s < p.slotCount, ∀ marker, q.isBound marker s = p.isBound marker s

theorem Continues.refl (p : Parameters) : p.Continues p := ⟨rfl, Nat.le_refl _, fun _ _ _ => rfl⟩

theorem Continues.trans {p q r : Parameters} (h : p.Continues q) (h' : q.Continues r) :
    p.Continues r where
  marking_eq := h'.marking_eq.trans h.marking_eq
  slotCount_le := Nat.le_trans h.slotCount_le h'.slotCount_le
  isBound_eq s hs marker := by
    have hlt : s < q.slotCount := by
      have := h.slotCount_le
      omega
    rw [h'.isBound_eq s hlt, h.isBound_eq s hs]

theorem continues_extended {p : Parameters} {values : List (Option Text)} {fresh : Nat}
    {added : References} (ha : p.Adds values.length fresh added) :
    p.Continues (p.extended values fresh added) where
  marking_eq := rfl
  slotCount_le := by
    rw [slotCount_extended]
    omega
  isBound_eq _ hs := isBound_extended_of_lt ha hs

theorem continues_declare {p : Parameters} {d : Declaration} (h : check p.ordinals d = .ok ()) :
    p.Continues (p.declare d) := by
  rw [declare_eq_extended]
  exact continues_extended (adds_declare h)

theorem continues_absorb {p inner : Parameters} (hi : inner.Consistent)
    (hm : inner.marking = p.marking) : p.Continues (p.absorb inner) := by
  rw [absorb_eq_extended]
  exact continues_extended (adds_absorb hi hm)

theorem isBound_declare {p : Parameters} {d : Declaration} (h : check p.ordinals d = .ok ()) :
    (p.declare d).isBound (p.markerFor d) p.slotCount = true :=
  isBound_extended_of_mem (adds_declare h) (List.mem_singleton_self _) (List.mem_singleton_self _)

/-- An inner slot belongs, behind the outer slots, to the marker that its owner becomes. -/
theorem isBound_absorb {p inner : Parameters} (hi : inner.Consistent)
    (hm : inner.marking = p.marking) {marker : Text} {s : Nat} (hb : inner.isBound marker s = true) :
    (p.absorb inner).isBound (p.renumber marker) (p.slotCount + s) = true := by
  obtain ⟨ss, hss, hs⟩ := isBound_iff.1 hb
  rw [absorb_eq_extended]
  refine isBound_extended_of_mem (adds_absorb hi hm)
    (mem_takenOver.2 ⟨marker, ss, References.mem_of_slots? hss, rfl⟩) ?_
  exact List.mem_map_of_mem hs

theorem checkAll_cons_eq_ok_iff {declared : Nat} {d : Declaration} {ds : List Declaration} :
    checkAll declared (d :: ds) = .ok () ↔
      check declared d = .ok () ∧ checkAll (declared + d.fresh) ds = .ok () := by
  rw [checkAll]
  cases check declared d with
  | error e => exact ⟨nofun, nofun⟩
  | ok u =>
    constructor
    · intro h
      exact ⟨rfl, h⟩
    · rintro ⟨-, h⟩
      exact h

/-- **Accepted declarations keep consistency and owners.** -/
theorem Consistent.declareAll {p : Parameters} (hp : p.Consistent) {ds : List Declaration}
    (h : checkAll p.ordinals ds = .ok ()) :
    (p.declareAll ds).2.Consistent ∧ p.Continues (p.declareAll ds).2 := by
  induction ds generalizing p with
  | nil => exact ⟨hp, .refl p⟩
  | cons d ds ih =>
    obtain ⟨hd, hds⟩ := checkAll_cons_eq_ok_iff.1 h
    obtain ⟨hc, hcont⟩ := ih (hp.declare hd) hds
    exact ⟨hc, (continues_declare hd).trans hcont⟩

/-- Every declaration gives one placeholder and one slot. -/
theorem length_declareAll (p : Parameters) (ds : List Declaration) :
    (p.declareAll ds).1.length = ds.length ∧
      (p.declareAll ds).2.slotCount = p.slotCount + ds.length := by
  induction ds generalizing p with
  | nil => exact ⟨rfl, rfl⟩
  | cons d ds ih =>
    obtain ⟨h₁, h₂⟩ := ih (p.declare d)
    rw [slotCount_declare] at h₂
    constructor
    · show ((p.declare d).declareAll ds).1.length + 1 = _
      rw [h₁, List.length_cons]
    · show ((p.declare d).declareAll ds).2.slotCount = _
      rw [h₂, List.length_cons]
      omega

/-- Declared slots belong to the markers of their declarations, one after the other. -/
theorem isBound_declareAll {p : Parameters} (hp : p.Consistent) {ds : List Declaration}
    (h : checkAll p.ordinals ds = .ok ()) {i : Nat} {t : Text}
    (ht : (p.declareAll ds).1[i]? = some t) :
    (p.declareAll ds).2.isBound t (p.slotCount + i) = true := by
  induction ds generalizing p i with
  | nil => cases ht
  | cons d ds ih =>
    obtain ⟨hd, hds⟩ := checkAll_cons_eq_ok_iff.1 h
    cases i with
    | zero =>
      cases ht
      have hlt : p.slotCount < (p.declare d).slotCount := by rw [slotCount_declare]; omega
      have hcont := ((hp.declare hd).declareAll hds).2
      show ((p.declare d).declareAll ds).2.isBound _ _ = true
      rw [Nat.add_zero, hcont.isBound_eq _ hlt]
      exact isBound_declare hd
    | succ i =>
      have := ih (hp.declare hd) hds ht
      rwa [slotCount_declare, Nat.add_assoc, Nat.add_comm 1 i] at this

/-! ## Values -/

/-- The parameters `q` are `p` with other values in the same slots. -/
def Refills (p q : Parameters) : Prop :=
  ∃ values : List (Option Text), values.length = p.slotCount ∧ q = { p with values := values }

theorem Refills.refl (p : Parameters) : p.Refills p := ⟨p.values, rfl, rfl⟩

theorem refills_of_set {p q : Parameters} {reference value : Value}
    (h : p.set reference value = .ok q) : p.Refills q := by
  refine ⟨q.values, slotCount_set h, ?_⟩
  unfold Parameters.set at h
  cases hs : p.slotsFor reference with
  | error e => rw [hs] at h; cases h
  | ok slots => rw [hs] at h; cases h; rfl

theorem refills_of_setAll {p q : Parameters} {values : List Value} (h : p.setAll values = .ok q) :
    p.Refills q := by
  refine ⟨q.values, slotCount_setAll h, ?_⟩
  unfold setAll at h
  split at h
  · cases h
  · cases h; rfl

theorem refills_clear (p : Parameters) : p.Refills p.clear := ⟨_, slotCount_clear p, rfl⟩

/-- Consistency and owners do not depend on the values. -/
theorem Consistent.refill {p q : Parameters} (hp : p.Consistent) (h : p.Refills q) :
    q.Consistent ∧ p.Continues q := by
  obtain ⟨values, hv, rfl⟩ := h
  refine ⟨{ hp with slots_perm := ?_ }, ⟨rfl, Nat.le_of_eq hv.symm, fun _ _ _ => rfl⟩⟩
  show p.references.slots.Perm (List.range values.length)
  rw [hv]
  exact hp.slots_perm

end Parameters

end SqlCompose
