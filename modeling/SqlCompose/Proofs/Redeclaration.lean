/-
  Redeclaration — taking parameters in is declaring their placeholders once more.

  Parameters that are taken in were built by declarations, with values set in between.
  Declaring the same again behind the outer parameters, with the ordinals moved on, gives
  the same slots and references.

  * `declared` lists the references that a row of changes declares, and `movedOn` moves
    ordinals on;
  * `absorb_declareAll`: it makes no difference whether placeholders are declared before or
    after the parameters are taken in;
  * `slots?_absorb` is what every reference holds then;
  * `absorb_redeclared` puts both together, for whole histories of changes.
-/
import SqlCompose.Proofs.Associativity

namespace SqlCompose

/-! ## Ordinals moved on -/

/-- The reference to the ordinal that comes `k` later; any other reference stays. -/
def Value.movedOn (k : Nat) : Value → Value
  | int n => int (n + k)
  | v => v

/-- The declaration of the ordinal that comes `k` later; any other declaration stays. -/
def Declaration.movedOn (k : Nat) : Declaration → Declaration
  | some (.ordinal n) => some (.ordinal (n + k))
  | d => d

theorem Declaration.movedOn_ofValue (k : Nat) (v : Value) :
    (ofValue v).movedOn k = ofValue (v.movedOn k) := by
  cases v <;> rfl

@[simp] theorem Declaration.fresh_movedOn (k : Nat) (d : Declaration) : (d.movedOn k).fresh = d.fresh := by
  rcases d with _ | _ | _ <;> rfl

namespace Parameters

/-- An accepted declaration is accepted behind `k` more ordinals when it is moved on. -/
theorem check_movedOn {declared : Nat} {d : Declaration} (h : check declared d = .ok ()) (k : Nat) :
    check (k + declared) (d.movedOn k) = .ok () := by
  rw [check_eq_ok_iff] at h ⊢
  rcases d with _ | n | name
  · trivial
  · obtain ⟨h₁, hn⟩ := h
    show 1 ≤ n + (k : Int) ∧ n + (k : Int) ≤ (k + declared : Nat)
    omega
  · exact h

theorem checkAll_movedOn {declared : Nat} {ds : List Declaration} (h : checkAll declared ds = .ok ())
    (k : Nat) : checkAll (k + declared) (ds.map (·.movedOn k)) = .ok () := by
  induction ds generalizing declared with
  | nil => rfl
  | cons d ds ih =>
    obtain ⟨hd, hds⟩ := checkAll_cons_eq_ok_iff.1 h
    refine checkAll_cons_eq_ok_iff.2 ⟨check_movedOn hd k, ?_⟩
    rw [Declaration.fresh_movedOn, Nat.add_assoc]
    exact ih hds

/-! ## Declarations in a row -/

theorem declareAll_append (p : Parameters) (ds es : List Declaration) :
    p.declareAll (ds ++ es) = ((p.declareAll ds).1 ++ ((p.declareAll ds).2.declareAll es).1,
      ((p.declareAll ds).2.declareAll es).2) := by
  induction ds generalizing p with
  | nil => rfl
  | cons d ds ih =>
    show (p.markerFor d :: ((p.declare d).declareAll (ds ++ es)).1,
      ((p.declare d).declareAll (ds ++ es)).2) = _
    rw [ih]
    rfl

theorem checkAll_append {p : Parameters} {ds es : List Declaration}
    (hds : checkAll p.ordinals ds = .ok ())
    (hes : checkAll (p.declareAll ds).2.ordinals es = .ok ()) :
    checkAll p.ordinals (ds ++ es) = .ok () := by
  induction ds generalizing p with
  | nil => exact hes
  | cons d ds ih =>
    obtain ⟨hd, hds⟩ := checkAll_cons_eq_ok_iff.1 hds
    exact checkAll_cons_eq_ok_iff.2 ⟨hd, ih hds hes⟩

/-- Declaring does not depend on the values. -/
theorem Refills.declareAll {p q : Parameters} (h : p.Refills q) (ds : List Declaration) :
    (p.declareAll ds).2.Refills (q.declareAll ds).2 := by
  induction ds generalizing p q with
  | nil => exact h
  | cons d ds ih =>
    obtain ⟨values, hv, rfl⟩ := h
    apply ih
    refine ⟨values ++ [none], ?_, ?_⟩
    · rw [List.length_append, hv, slotCount_declare]
      rfl
    · show Parameters.mk _ _ (p.references.extend _ [values.length]) _ = _
      rw [hv]
      rfl

theorem Refills.absorb {p c c' : Parameters} (h : c.Refills c') : (p.absorb c).Refills (p.absorb c') := by
  obtain ⟨values, hv, rfl⟩ := h
  refine ⟨p.values ++ values, ?_, rfl⟩
  rw [slotCount_absorb, List.length_append, hv]
  rfl

theorem Refills.trans {p q r : Parameters} (h : p.Refills q) (h' : q.Refills r) : p.Refills r := by
  obtain ⟨values, hv, rfl⟩ := h
  obtain ⟨values', hv', rfl⟩ := h'
  exact ⟨values', hv'.trans hv, rfl⟩

/-! ## Declaring and taking in -/

theorem references_absorb (p c : Parameters) :
    (p.absorb c).references = p.references.extendAll (p.takenOver c.references) :=
  congrArg references (absorb_eq_extended p c)

/-- A marker that becomes one of a name was it before. -/
theorem eq_namedMarker_of_renumber {p : Parameters} {ordinals : Nat} {k name : Text}
    (h : p.marking.IsKey ordinals k) (he : p.renumber k = p.marking.namedMarker name) :
    k = p.marking.namedMarker name := by
  rcases h with ⟨n, -, -, rfl⟩ | ⟨name', -, rfl⟩
  · rw [renumber_ordinalMarker] at he
    exact absurd he (Marking.ordinalMarker_ne_namedMarker _ _)
  · rwa [renumber_namedMarker] at he

/-- References that are renumbered hold their slots, moved on. -/
theorem slots?_takenOver {p : Parameters} {refs : References} {k : Text}
    (hk : ∀ l ∈ refs.keys, p.renumber l = p.renumber k → l = k) :
    (p.takenOver refs).slots? (p.renumber k) = (refs.slots? k).map (·.map (p.slotCount + ·)) := by
  induction refs with
  | nil => rfl
  | cons r refs ih =>
    have hrest := ih fun l hl => hk l (List.mem_cons_of_mem _ hl)
    show (if p.renumber r.1 = p.renumber k then some (r.2.map (p.slotCount + ·))
      else (p.takenOver refs).slots? (p.renumber k)) = _
    rw [References.slots?, hrest]
    by_cases hr : r.1 = k
    · rw [if_pos hr, if_pos (congrArg p.renumber hr)]
      rfl
    · rw [if_neg hr, if_neg fun he => hr (hk r.1 (by simp) he)]

section
variable {p c : Parameters} (hc : c.Consistent) (hm : c.marking = p.marking)
include hc hm

/-- It makes no difference whether a placeholder is declared before or after. -/
theorem absorb_declare {d : Declaration} (hd : check c.ordinals d = .ok ()) :
    p.absorb (c.declare d) = (p.absorb c).declare (d.movedOn p.ordinals) ∧
      (p.absorb c).markerFor (d.movedOn p.ordinals) = p.renumber (c.markerFor d) := by
  have hmarker : (p.absorb c).markerFor (d.movedOn p.ordinals) = p.renumber (c.markerFor d) := by
    rcases d with _ | n | name
    · show p.marking.ordinalMarker ((p.ordinals + c.ordinals + 1 : Nat) : Int) =
        p.renumber (c.marking.ordinalMarker ((c.ordinals + 1 : Nat) : Int))
      rw [hm, renumber_ordinalMarker, Nat.add_comm (c.ordinals + 1), Nat.add_assoc]
    · obtain ⟨h₁, -⟩ := check_eq_ok_iff.1 hd
      obtain ⟨k, rfl⟩ := Int.eq_ofNat_of_zero_le (by omega : 0 ≤ n)
      show p.marking.ordinalMarker ((k : Int) + (p.ordinals : Int)) =
        p.renumber (c.marking.ordinalMarker (k : Int))
      rw [hm, renumber_ordinalMarker]
      rfl
    · show p.marking.namedMarker name = p.renumber (c.marking.namedMarker name)
      rw [hm, renumber_namedMarker]
  refine ⟨?_, hmarker⟩
  -- no key of the inner parameters is renumbered onto the new one
  have hnew := isKey_markerFor hd
  rw [hm] at hnew
  have hinj : ∀ l ∈ c.references.keys, p.renumber l = p.renumber (c.markerFor d) → l = c.markerFor d := by
    intro l hl
    obtain ⟨r, hr, rfl⟩ := List.mem_map.1 hl
    exact renumber_inj (hm ▸ hc.isKey hr) hnew
  have hrefs : (p.absorb (c.declare d)).references =
      (p.absorb c).references.extend (p.renumber (c.markerFor d)) [(p.absorb c).slotCount] := by
    rw [references_absorb, references_absorb, slotCount_absorb,
      ← References.extendAll_extend _ (adds_absorb hc hm).keys_nodup]
    exact congrArg p.references.extendAll (takenOver_extend hinj _)
  show Parameters.mk p.marking (p.values ++ (c.values ++ [none])) (p.absorb (c.declare d)).references
    (p.ordinals + (c.ordinals + d.fresh)) = _
  rw [hrefs, ← hmarker, ← List.append_assoc, ← Nat.add_assoc, ← d.fresh_movedOn p.ordinals]
  rfl

/-- **It makes no difference whether placeholders are declared before or after their
    parameters are taken in**: their texts are those that the inner ones become. -/
theorem absorb_declareAll {ds : List Declaration} (hds : checkAll c.ordinals ds = .ok ()) :
    (p.absorb c).declareAll (ds.map (·.movedOn p.ordinals)) =
      ((c.declareAll ds).1.map p.renumber, p.absorb (c.declareAll ds).2) := by
  induction ds generalizing c with
  | nil => rfl
  | cons d ds ih =>
    obtain ⟨hd, hds⟩ := checkAll_cons_eq_ok_iff.1 hds
    obtain ⟨hsame, hmarker⟩ := absorb_declare hc hm hd
    have hrest := ih (hc.declare hd) hm hds
    rw [hsame] at hrest
    show (_ :: (((p.absorb c).declare _).declareAll _).1, (((p.absorb c).declare _).declareAll _).2) = _
    rw [hrest, hmarker]
    rfl

/-- What is taken in adds its slots to the reference that its own becomes. -/
theorem slots?_absorb {k : Text}
    (hk : ∀ l ∈ c.references.keys, p.renumber l = p.renumber k → l = k) :
    (p.absorb c).references.slots? (p.renumber k) = match c.references.slots? k with
      | some ss => some ((p.references.slots? (p.renumber k)).getD [] ++ ss.map (p.slotCount + ·))
      | none => p.references.slots? (p.renumber k) := by
  rw [references_absorb, References.slots?_extendAll _ (adds_absorb hc hm).keys_nodup,
    slots?_takenOver hk]
  cases c.references.slots? k <;> rfl

/-- No ordinal of the outer parameters gets a slot. -/
theorem slots?_absorb_outer {n : Nat} (hn : n ≤ p.ordinals) :
    (p.absorb c).references.slots? (p.marking.ordinalMarker n) =
      p.references.slots? (p.marking.ordinalMarker n) := by
  have hnone : (p.takenOver c.references).slots? (p.marking.ordinalMarker n) = none := by
    apply References.slots?_eq_none
    intro hmem
    obtain ⟨_, hr, he⟩ := List.mem_map.1 hmem
    obtain ⟨l, ss, hl, rfl⟩ := mem_takenOver.1 hr
    obtain ⟨j, rfl, rfl⟩ := exists_ordinal_of_renumber (hm ▸ hc.isKey hl) he.symm
    have hpos := (Marking.isKey_ordinalMarker_iff.1 (hm ▸ hc.isKey hl)).1
    omega
  rw [references_absorb, References.slots?_extendAll _ (adds_absorb hc hm).keys_nodup, hnone]

/-- An ordinal that is taken in has its slots, behind those of the outer parameters. -/
theorem slots?_absorb_inner (hp : p.Consistent) {n : Nat} (h₁ : 1 ≤ n) (hn : n ≤ c.ordinals) :
    ∃ ss, c.references.slots? (p.marking.ordinalMarker n) = some ss ∧
      (p.absorb c).references.slots? (p.marking.ordinalMarker (n + p.ordinals : Nat)) =
        some (ss.map (p.slotCount + ·)) := by
  obtain ⟨ss, hss⟩ := hc.key_of_ordinal n h₁ hn
  have hinner := (References.slots?_eq_some_iff hc.keys_nodup).2 hss
  rw [hm] at hinner hss
  have hinj : ∀ l ∈ c.references.keys, p.renumber l = p.renumber (p.marking.ordinalMarker n) →
      l = p.marking.ordinalMarker n := by
    intro l hl
    obtain ⟨r, hr, rfl⟩ := List.mem_map.1 hl
    exact renumber_inj (hm ▸ hc.isKey hr) (hm ▸ hc.isKey hss)
  have hnone : p.references.slots? (p.marking.ordinalMarker (n + p.ordinals : Nat)) = none := by
    apply References.slots?_eq_none
    intro hmem
    obtain ⟨r, hr, he⟩ := List.mem_map.1 hmem
    have hle := (Marking.isKey_ordinalMarker_iff.1 (he ▸ hp.isKey hr)).2
    omega
  have hall := slots?_absorb hc hm hinj
  rw [renumber_ordinalMarker, hinner, hnone] at hall
  exact ⟨ss, hinner, hall⟩

/-- A name has the slots of both sides, those of the outer parameters first. -/
theorem slots?_absorb_named (name : Text) :
    (p.absorb c).references.slots? (p.marking.namedMarker name) =
      match c.references.slots? (p.marking.namedMarker name) with
      | some ss => some ((p.references.slots? (p.marking.namedMarker name)).getD [] ++
          ss.map (p.slotCount + ·))
      | none => p.references.slots? (p.marking.namedMarker name) := by
  have hinj : ∀ l ∈ c.references.keys, p.renumber l = p.renumber (p.marking.namedMarker name) →
      l = p.marking.namedMarker name := by
    intro l hl he
    obtain ⟨r, hr, rfl⟩ := List.mem_map.1 hl
    rw [renumber_namedMarker] at he
    exact eq_namedMarker_of_renumber (hm ▸ hc.isKey hr) he
  have hall := slots?_absorb hc hm hinj
  rwa [renumber_namedMarker] at hall

end

/-! ## Histories of changes -/

/-- The parameters after changes, one after the other. -/
def afterAll (p : Parameters) (cs : List Change) : Parameters := cs.foldl after p

/-- The references that a change declares; one that fails declares none. -/
def declares (p : Parameters) (c : Change) : List Value :=
  match p.changed? c with
  | .ok _ => c.references
  | .error _ => []

/-- The references that changes declare, one after the other. -/
def declared (p : Parameters) : List Change → List Value
  | [] => []
  | c :: cs => p.declares c ++ declared (p.after c) cs

theorem Evolves.afterAll {m : Marking} {p q : Parameters} (h : Evolves m p q) (cs : List Change) :
    Evolves m p (q.afterAll cs) := by
  induction cs generalizing q with
  | nil => exact h
  | cons c cs ih => exact ih (h.change c)

/-- A change comes to declarations in a row, and to other values. -/
theorem refills_after (p : Parameters) (c : Change) :
    checkAll p.ordinals ((p.declares c).map .ofValue) = .ok () ∧
      (p.declareAll ((p.declares c).map .ofValue)).2.Refills (p.after c) := by
  unfold declares Parameters.after
  cases hc : p.changed? c with
  | error e => exact ⟨rfl, .refl p⟩
  | ok q => exact refills_of_changed? hc

/-- **Changes come to declarations in a row, and to other values.** -/
theorem refills_afterAll (p : Parameters) (cs : List Change) :
    checkAll p.ordinals ((p.declared cs).map .ofValue) = .ok () ∧
      (p.declareAll ((p.declared cs).map .ofValue)).2.Refills (p.afterAll cs) := by
  induction cs generalizing p with
  | nil => exact ⟨rfl, .refl p⟩
  | cons c cs ih =>
    obtain ⟨hfirst, hc⟩ := p.refills_after c
    obtain ⟨hrest, hcs⟩ := ih (p.after c)
    have hordinals : (p.after c).ordinals =
        (p.declareAll ((p.declares c).map .ofValue)).2.ordinals := by
      obtain ⟨values, -, he⟩ := hc
      rw [he]
    rw [hordinals] at hrest
    rw [declared, List.map_append]
    refine ⟨checkAll_append hfirst hrest, ?_⟩
    rw [declareAll_append]
    exact (hc.declareAll _).trans hcs

/-! ## Taking in -/

theorem absorb_empty (p : Parameters) (m : Marking) : p.absorb (empty m) = p := by
  unfold absorb absorbReferences empty
  rw [List.append_nil]
  rfl

/-- What empty parameters accept, any parameters accept with its ordinals moved on, and it
    comes to taking in what was declared. -/
theorem allocateAll_movedOn {m : Marking} {p : Parameters} (hm : p.marking = m) {ds : List Declaration}
    (h : checkAll (empty m).ordinals ds = .ok ()) :
    p.allocateAll (ds.map (·.movedOn p.ordinals)) =
      .ok (((empty m).declareAll ds).1.map p.renumber, p.absorb ((empty m).declareAll ds).2) := by
  have haccepted : checkAll p.ordinals (ds.map (·.movedOn p.ordinals)) = .ok () :=
    checkAll_movedOn h p.ordinals
  have hdeclared := absorb_declareAll (p := p) (consistent_empty m) hm.symm h
  rw [absorb_empty] at hdeclared
  rw [allocateAll, haccepted, hdeclared]
  rfl

/-- **Taking parameters in is declaring their placeholders once more.**  Let the inner
    parameters be built by changes, whichever fail.  What these declared is accepted behind
    `p`, with its ordinals moved on by those of `p`, and gives the slots, ordinals and
    references that `p` has after it took the inner parameters in; the values are those of
    `p` and then the inner ones.

    Taking in cannot fail, for every inner key with the ordinal sign has a number.  It gives the
    ordinals of `p` as the offset by which the text is moved on.  References to the ordinals of
    `p` keep their slots, the inner ordinals are found behind them, and a name has the slots of
    both sides. -/
theorem absorb_redeclared {m : Marking} {p : Parameters} (hp : Evolves m (empty m) p)
    (changes : List Change) :
    let inner := (empty m).afterAll changes
    let q := p.absorb inner
    let references := ((empty m).declared changes).map (·.movedOn (p.takeIn inner).1)
    p.takeIn inner = (p.ordinals, q) ∧
    (∃ markers r, p.allocateAll (references.map .ofValue) = .ok (markers, r) ∧
      q.slotCount = r.slotCount ∧ q.ordinals = r.ordinals ∧ q.references = r.references) ∧
    q.values = p.values ++ inner.values ∧
    (∀ r ∈ inner.references, m.ordinalSign <+: r.1 →
      ∃ n, (Text.after? m.ordinalSign r.1).bind Numeral.int? = some n) ∧
    (∀ raw, p.merge raw inner =
      .ok (if p.ordinals = 0 then raw else Template.movedOn m p.ordinals raw, q)) ∧
    (∀ n : Nat, n ≤ p.ordinals → q.slots? (.int n) = p.slots? (.int n)) ∧
    (∀ n : Nat, 1 ≤ n → n ≤ inner.ordinals → ∃ ss, inner.slots? (.int n) = some ss ∧
      q.slots? (.int (n + p.ordinals : Nat)) = some (ss.map (p.slotCount + ·))) ∧
    ∀ v : Value, (Key.ofValue v).isOrdinal = false → q.slots? v = match inner.slots? v with
      | some ss => some ((p.slots? v).getD [] ++ ss.map (p.slotCount + ·))
      | none => p.slots? v := by
  intro inner q references
  obtain ⟨hpc, hpm⟩ := hp.consistent (consistent_empty m) rfl
  obtain ⟨hic, him⟩ := ((Evolves.refl (empty m)).afterAll changes).consistent (consistent_empty m) rfl
  have hpm : p.marking = m := hpm.marking_eq
  have him : inner.marking = m := him.marking_eq
  have hm : inner.marking = p.marking := him.trans hpm.symm
  obtain ⟨hcheck, hrefills⟩ := (empty m).refills_afterAll changes
  refine ⟨rfl, ?_, rfl, ?_, ?_, ?_, ?_, ?_⟩
  · have hmoved : (((empty m).declared changes).map .ofValue).map (Declaration.movedOn p.ordinals) =
        references.map .ofValue := by
      simp only [references, takeIn, List.map_map, Function.comp_def, Declaration.movedOn_ofValue]
    have hallocate := allocateAll_movedOn hpm hcheck
    rw [hmoved] at hallocate
    obtain ⟨values, hv, hq⟩ := hrefills.absorb (p := p)
    have hq : q = { p.absorb ((empty m).declareAll _).2 with values := values } := hq
    rw [hq]
    exact ⟨_, _, hallocate, hv, rfl, rfl⟩
  · intro r hr hs
    rw [← him] at hs ⊢
    obtain ⟨n, -, -, he⟩ := hic.ordinal_of_key r hr hs
    refine ⟨n, ?_⟩
    rw [he, Marking.ordinalMarker, Text.after?_eq_some_iff.2 rfl, Option.bind_some]
    exact Numeral.int?_ofNat n
  · intro raw
    rw [merge_eq hm.symm, hpm]
  · intro n hn
    exact slots?_absorb_outer hic hm hn
  · intro n h₁ hn
    obtain ⟨ss, hss, hmoved⟩ := slots?_absorb_inner hic hm hpc h₁ hn
    rw [← hm] at hss
    exact ⟨ss, hss, hmoved⟩
  · intro v hv
    obtain ⟨name, hname⟩ : ∃ name, Key.ofValue v = .named name := by
      cases hk : Key.ofValue v with
      | ordinal n => rw [hk] at hv; cases hv
      | named name => exact ⟨name, rfl⟩
    have hnamed := slots?_absorb_named hic hm name
    simp only [slots?, marker, hname, Marking.marker, hm]
    exact hnamed

/-- The outer side has two ordinals and the name `x`.  The inner one declares an ordinal,
    tries one that does not exist, sets the first, and declares it again beside `x`. -/
theorem absorb_redeclared_sharing_name :
    let p := ((empty .standard).after (.declareAll [.null, .text "x", .null])).after
      (.set (.text "x") (.text "a"))
    let changes : List Change := [.declare .null, .declare (.int 2), .set (.int 1) (.text "b"),
      .declareAll [.text "x", .int 1, .null]]
    let inner := (empty .standard).afterAll changes
    Evolves .standard (empty .standard) p ∧
      p.takeIn inner = (2, p.absorb inner) ∧
      (∃ markers r, p.allocateAll ([.null, .text "x", .int 3, .null].map .ofValue) =
        .ok (markers, r) ∧ (p.absorb inner).references = r.references) ∧
      (p.absorb inner).values =
        [none, some "a".toList, none, some "b".toList, none, none, none] ∧
      (p.absorb inner).slots? (.text "x") = some [1, 4] := by
  intro p changes inner
  have hp : Evolves .standard (empty .standard) p := .change _ (.change _ (.refl _))
  obtain ⟨hoffset, ⟨markers, r, hr, -, -, hreferences⟩, hvalues, -, -, -, -, hname⟩ :=
    absorb_redeclared hp changes
  have hordinals : p.ordinals = 2 := by decide +kernel
  have hdeclared : ((empty .standard).declared changes).map (·.movedOn (p.takeIn inner).1) =
      [.null, .text "x", .int 3, .null] := by decide +kernel
  rw [hdeclared] at hr
  refine ⟨hp, hordinals ▸ hoffset, ⟨markers, r, hr, hreferences⟩, ?_, ?_⟩
  · rw [hvalues]
    decide +kernel
  · rw [hname _ rfl]
    decide +kernel

end Parameters

end SqlCompose
