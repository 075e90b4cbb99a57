/-
  Associativity — it does not matter in which order statements are taken in.

  A statement that is taken into one that is taken into a third ends up as if the
  third had taken in both, one after the other.

  * `References.extendAll_extendAll`: slots may be added to slots that are still to
    be added themselves;
  * `absorb_assoc`: absorbed parameters may absorb others before or after;
  * `movedOn_movedOn`: moving the ordinals of a text on twice is moving them on once,
    by both numbers;
  * `merge_assoc` puts parameters and texts together.
-/
import SqlCompose.Proofs.Evolution
import SqlCompose.Proofs.Filling

namespace SqlCompose

/-! ## References -/

namespace References

theorem mem_keys_extend (refs : References) (k : Text) (ss : List Nat) : k ∈ (refs.extend k ss).keys := by
  rw [keys_extend]
  split
  · assumption
  · simp

theorem extend_extend (refs : References) (k : Text) (ss ts : List Nat) :
    (refs.extend k ss).extend k ts = refs.extend k (ss ++ ts) := by
  induction refs with
  | nil => simp [extend]
  | cons r refs ih =>
    by_cases hk : r.1 = k
    · simp [extend, hk]
    · simp [extend, hk, ih]

/-- A reference that is there keeps its place, so slots may be added to another one
    before or after. -/
theorem extend_comm {refs : References} {k l : Text} (hk : k ∈ refs.keys) (hne : l ≠ k)
    (ss ts : List Nat) : (refs.extend l ts).extend k ss = (refs.extend k ss).extend l ts := by
  induction refs with
  | nil => cases hk
  | cons r refs ih =>
    by_cases hl : r.1 = l
    · have hrk : r.1 ≠ k := by rwa [hl]
      simp [extend, hl, hne]
    · by_cases hrk : r.1 = k
      · simp [extend, hrk, Ne.symm hne]
      · have hrest : k ∈ keys refs := by
          rcases List.mem_cons.1 hk with h | h
          · exact absurd h.symm hrk
          · exact h
        simp [extend, hl, hrk, ih hrest]

theorem extendAll_extend_of_mem {refs added : References} {k : Text} (hk : k ∈ refs.keys)
    (hnot : k ∉ added.keys) (ss : List Nat) :
    (refs.extend k ss).extendAll added = (refs.extendAll added).extend k ss := by
  induction added generalizing refs with
  | nil => rfl
  | cons r added ih =>
    obtain ⟨hr, hadded⟩ := not_or.1 (List.mem_cons.not.1 hnot)
    have hmem : k ∈ (refs.extend r.1 r.2).keys := by
      rw [keys_extend]
      split
      · exact hk
      · exact List.mem_append_left _ hk
    rw [extendAll, List.foldl_cons, ← extendAll, ← extend_comm hk (Ne.symm hr), ih hmem hadded]
    rfl

/-- Slots may be added to a reference before it is added itself. -/
theorem extendAll_extend (refs : References) {added : References} (h : added.keys.Nodup) (k : Text)
    (ss : List Nat) : refs.extendAll (added.extend k ss) = (refs.extendAll added).extend k ss := by
  induction added generalizing refs with
  | nil => rfl
  | cons r added ih =>
    obtain ⟨hr, hadded⟩ := List.nodup_cons.1 h
    by_cases hk : r.1 = k
    · subst hk
      rw [extend, if_pos rfl, extendAll, List.foldl_cons, ← extendAll, ← extend_extend,
        extendAll_extend_of_mem (mem_keys_extend refs _ _) hr]
      rfl
    · rw [extend, if_neg hk]
      exact ih _ hadded

theorem extendAll_extendAll (refs : References) {added : References} (h : added.keys.Nodup)
    (more : References) : refs.extendAll (added.extendAll more) = (refs.extendAll added).extendAll more := by
  induction more generalizing added with
  | nil => rfl
  | cons r more ih =>
    have hr := ih (nodup_extend h r.1 r.2)
    rw [extendAll_extend refs h] at hr
    exact hr

end References

/-! ## Parameters -/

namespace Parameters

theorem takenOver_extend {p : Parameters} {refs : References} {k : Text}
    (h : ∀ l ∈ refs.keys, p.renumber l = p.renumber k → l = k) (ss : List Nat) :
    p.takenOver (refs.extend k ss) =
      (p.takenOver refs).extend (p.renumber k) (ss.map (p.slotCount + ·)) := by
  induction refs with
  | nil => rfl
  | cons r refs ih =>
    have hrest : ∀ l ∈ References.keys refs, p.renumber l = p.renumber k → l = k := by
      intro l hl
      exact h l (List.mem_cons_of_mem _ hl)
    by_cases hk : r.1 = k
    · simp [takenOver, References.extend, hk]
    · have hne : p.renumber r.1 ≠ p.renumber k := by
        intro he
        exact hk (h r.1 (by simp) he)
      have hih := ih hrest
      simp only [takenOver] at hih
      simp [takenOver, References.extend, hk, hne, hih]

theorem takenOver_extendAll {p : Parameters} {refs added : References}
    (h : ∀ k ∈ refs.keys ++ added.keys, ∀ l ∈ refs.keys ++ added.keys,
      p.renumber k = p.renumber l → k = l) :
    p.takenOver (refs.extendAll added) = (p.takenOver refs).extendAll (p.takenOver added) := by
  induction added generalizing refs with
  | nil => rfl
  | cons r added ih =>
    have hsub : ∀ k ∈ (refs.extend r.1 r.2).keys ++ References.keys added,
        k ∈ refs.keys ++ References.keys (r :: added) := by
      intro k hk
      rw [References.keys_extend] at hk
      split at hk
      all_goals
        simp only [List.mem_append, References.keys_cons, List.mem_cons, List.not_mem_nil] at hk ⊢
        tauto
    have hinj : ∀ l ∈ refs.keys, p.renumber l = p.renumber r.1 → l = r.1 := by
      intro l hl
      exact h l (by simp [hl]) r.1 (by simp)
    have hih := ih fun k hk l hl => h k (hsub k hk) l (hsub l hl)
    rw [takenOver_extend hinj] at hih
    exact hih

section
variable {a b c : Parameters} (hab : b.marking = a.marking)
include hab

/-- A marker that is renumbered twice is renumbered by both numbers of ordinals. -/
theorem renumber_renumber {ordinals : Nat} {k : Text} (h : a.marking.IsKey ordinals k) :
    a.renumber (b.renumber k) = (a.absorb b).renumber k := by
  rcases h with ⟨n, -, -, rfl⟩ | ⟨name, -, rfl⟩
  · have houter := (a.absorb b).renumber_ordinalMarker n
    have hinner := b.renumber_ordinalMarker n
    rw [hab] at hinner
    rw [marking_absorb, ordinals_absorb] at houter
    rw [hinner, renumber_ordinalMarker, houter, Nat.add_comm a.ordinals, Nat.add_assoc]
  · have houter := (a.absorb b).renumber_namedMarker name
    have hinner := b.renumber_namedMarker name
    rw [hab] at hinner
    rw [marking_absorb] at houter
    rw [hinner, renumber_namedMarker, houter]

theorem takenOver_takenOver {ordinals : Nat} {refs : References}
    (h : ∀ r ∈ refs, a.marking.IsKey ordinals r.1) :
    a.takenOver (b.takenOver refs) = (a.absorb b).takenOver refs := by
  unfold takenOver
  rw [List.map_map]
  refine List.map_congr_left ?_
  intro r hr
  simp only [Function.comp_apply, renumber_renumber hab (h r hr), List.map_map, slotCount_absorb]
  congr 2
  funext s
  simp [Nat.add_assoc]

/-- **Absorbed parameters may absorb others before or after.** -/
theorem absorb_assoc (hbc : c.marking = b.marking) (hb : b.Consistent) (hc : c.Consistent) :
    a.absorb (b.absorb c) = (a.absorb b).absorb c := by
  -- all keys are moved on by `a`, and none onto another
  have hkb : ∀ r ∈ b.references, a.marking.IsKey (b.ordinals + c.ordinals) r.1 := by
    intro r hr
    rw [← hab]
    exact (hb.isKey hr).mono (by omega)
  have hkc : ∀ r ∈ c.references, a.marking.IsKey c.ordinals r.1 := by
    intro r hr
    rw [← hab, ← hbc]
    exact hc.isKey hr
  have hkey : ∀ k ∈ b.references.keys ++ (b.takenOver c.references).keys,
      a.marking.IsKey (b.ordinals + c.ordinals) k := by
    intro k hk
    rcases List.mem_append.1 hk with hk | hk
    · obtain ⟨r, hr, rfl⟩ := List.mem_map.1 hk
      exact hkb r hr
    · obtain ⟨_, hr, rfl⟩ := List.mem_map.1 hk
      obtain ⟨l, ss, hl, rfl⟩ := mem_takenOver.1 hr
      have hinner := hkc _ hl
      rw [← hab] at hinner ⊢
      exact isKey_renumber hinner
  have hinj : ∀ k ∈ b.references.keys ++ (b.takenOver c.references).keys,
      ∀ l ∈ b.references.keys ++ (b.takenOver c.references).keys,
        a.renumber k = a.renumber l → k = l := by
    intro k hk l hl
    exact renumber_inj (hkey k hk) (hkey l hl)
  have hnodup : (a.takenOver b.references).keys.Nodup := (adds_absorb hb hab).keys_nodup
  have hrefs : a.references.extendAll (a.takenOver (b.references.extendAll (b.takenOver c.references))) =
      (a.references.extendAll (a.takenOver b.references)).extendAll ((a.absorb b).takenOver c.references) := by
    rw [takenOver_extendAll hinj, takenOver_takenOver hab hkc, References.extendAll_extendAll _ hnodup]
  simp only [absorb_eq_extended, extended, Parameters.mk.injEq, true_and]
  refine ⟨(List.append_assoc _ _ _).symm, ?_, (Nat.add_assoc _ _ _).symm⟩
  simpa only [absorb_eq_extended, extended] using hrefs

end

end Parameters

/-! ## Texts -/

theorem Marking.shift_shift (m : Marking) (j k : Nat) (t : Text) :
    m.shift j (m.shift k t) = m.shift (j + k) t := by
  cases hn : m.ordinal? t with
  | none => simp only [shift, hn]
  | some n => simp only [shift, hn, ordinal?_ordinalMarker, Nat.add_assoc, Nat.add_comm k]

namespace Template

/-- Substitution in moved words is substitution behind moving them on. -/
theorem substitute_mapWords_shift (m : Marking) (j k : Nat) (ps : Template) :
    substitute m (m.shift j) (mapWords (m.shift k) ps) = substitute m (m.shift (j + k)) ps := by
  unfold substitute mapWords
  rw [List.flatMap_map]
  congr 1
  funext p
  cases p with
  | word t =>
    by_cases ht : m.isPlaceholder t
    · simp [m.isPlaceholder_shift, ht, m.shift_shift]
    · simp [Marking.shift_of_not_isPlaceholder k ht, ht]
  | space | quoted => rfl

theorem movedOn_movedOn (m : Marking) (j k : Nat) (t : Text) :
    movedOn m j (movedOn m k t) = movedOn m (j + k) t := by
  rw [movedOn, ofText_movedOn, substitute_mapWords_shift]
  rfl

end Template

/-! ## Statements -/

namespace Parameters

/-- **Taking statements in is associative.**  If `b` takes in a text with its
    parameters `c`, and then `a` takes in the result, the text and the parameters are
    those that come out when `a` takes in `b` and then the text with `c`.  This holds
    of every text, whatever is quoted in it and however its ordinals are written. -/
theorem merge_assoc {m : Marking} {a b c : Parameters} (ha : Evolves m (empty m) a)
    (hb : Evolves m (empty m) b) (hc : Evolves m (empty m) c) (raw : Text) :
    ∃ t q t' p, b.merge raw c = .ok (t, q) ∧ a.merge t q = .ok (t', p) ∧
      (a.absorb b).merge raw c = .ok (t', p) := by
  have ham : a.marking = m := (ha.consistent (consistent_empty m) rfl).2.marking_eq
  obtain ⟨hbc, hbm⟩ := hb.consistent (consistent_empty m) rfl
  obtain ⟨hcc, hcm⟩ := hc.consistent (consistent_empty m) rfl
  have hbm : b.marking = m := hbm.marking_eq
  have hcm : c.marking = m := hcm.marking_eq
  have hab : a.marking = (b.absorb c).marking := ham.trans hbm.symm
  refine ⟨_, _, _, _, merge_eq (hbm.trans hcm.symm) raw, merge_eq hab _, ?_⟩
  have hac : (a.absorb b).marking = c.marking := ham.trans hcm.symm
  rw [merge_eq hac, absorb_assoc (hbm.trans ham.symm) (hcm.trans hbm.symm) hbc hcc,
    marking_absorb, ordinals_absorb, ham, hbm]
  -- a text is left alone where there are no ordinals, which is moving it on by none
  by_cases h₀ : a.ordinals = 0
  · simp [h₀]
  · by_cases h₁ : b.ordinals = 0
    · simp [h₀, h₁]
    · simp [h₀, h₁, Template.movedOn_movedOn]

/-- All three sides use an ordinal and the name `x`; the text has an ordinal with a
    leading zero, one in other digits, one in a literal, and a stray quote. -/
theorem merge_assoc_sharing_name :
    let a := ((empty .standard).after (.declareAll [.null, .text "x", .null])).after
      (.set (.text "x") (.text "a"))
    let b := (empty .standard).after (.declareAll [.text "x", .null])
    let c := (empty .standard).after (.declareAll [.null, .text "y", .text "x", .int 1])
    let raw := "$$01 , '$$1 ' , $?x $$٢ it's $$1".toList
    ∃ t q p, b.merge raw c = .ok (t, q) ∧
      a.merge t q = .ok ("$$4 , '$$1 ' , $?x $$5 it's $$4".toList, p) ∧
      (a.absorb b).merge raw c = .ok ("$$4 , '$$1 ' , $?x $$5 it's $$4".toList, p) := by
  intro a b c raw
  have ha : Evolves .standard (empty .standard) a := .change _ (.change _ (.refl _))
  have hb : Evolves .standard (empty .standard) b := .change _ (.refl _)
  have hc : Evolves .standard (empty .standard) c := .change _ (.refl _)
  obtain ⟨t, q, t', p, h₁, h₂, h₃⟩ := merge_assoc ha hb hc raw
  have ht : (a.absorb b).merge raw c =
      .ok ("$$4 , '$$1 ' , $?x $$5 it's $$4".toList, (a.absorb b).absorb c) := by decide +kernel
  cases ht.symm.trans h₃
  exact ⟨t, q, _, h₁, h₂, h₃⟩

end Parameters

end SqlCompose
