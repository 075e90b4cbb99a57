/-
  Canonical — which ordinals are written as they are read.

  An ordinal is read from digits of any script and with any number of zeros in front, but
  written in the digits of ASCII and without them.  So reading an ordinal and writing it again
  can change it, even if it is moved on by nothing.

  * `Numeral.ofNat_eq_iff`: the digits that come back are those of ASCII without a zero in front
    of others;
  * `Marking.Canonical` holds of the tokens that come back, and `Template.movedOn_zero_eq_iff`
    says that a text stays when it is moved on by nothing iff all its placeholders do;
  * `Parameters.Declares` says what is declared, and `declares_absorb_ordinal` and
    `declares_absorb_name` what has become of a placeholder that is taken in;
  * `unmoved_iff_canonical` puts these together, and says that the texts of builders whose own
    texts spell no placeholder are canonical.
-/
import SqlCompose.Proofs.Redeclaration
import SqlCompose.Proofs.Weaving

namespace SqlCompose

open Template

/-! ## Digits -/

namespace Numeral

/-- Digits of ASCII, with no zero in front of others. -/
def IsDecimal (ds : Text) : Prop :=
  (∀ c ∈ ds, c.isDigit = true) ∧ (ds.head? = some '0' → ds = ['0'])

instance (ds : Text) : Decidable (IsDecimal ds) :=
  @instDecidableAnd _ _ (List.decidableBAll _ ds) inferInstance

/-- A digit of ASCII is written for its own value. -/
theorem ofNat_of_isDigit {c : Char} (h : c.isDigit = true) : ofNat (c.toNat - '0'.toNat) = [c] := by
  obtain ⟨hzero, -⟩ := Char.isDigit_iff_toNat.1 h
  have hlt : c.toNat - '0'.toNat < 10 := by
    have hle := Text.le_nine_of_digit? (Text.digit?_of_isDigit h)
    omega
  have hrow : ∀ d < 10, Nat.digitChar d = Char.ofNat ('0'.toNat + d) := by decide
  rw [ofNat, Nat.toDigits_of_lt_base hlt, hrow _ hlt, Nat.add_sub_cancel' hzero, Char.ofNat_toNat]

/-- Digits of ASCII behind a number other than zero continue it. -/
theorem ofNat_append_of_isDigit {ds : Text} (hd : ∀ c ∈ ds, c.isDigit = true) {n : Nat} (hn : 0 < n) :
    ofNat n ++ ds = ofNat (Nat.ofDigitChars 10 ds n) := by
  induction ds generalizing n with
  | nil => exact List.append_nil _
  | cons c ds ih =>
    have hc := hd c List.mem_cons_self
    have hlt : c.toNat - '0'.toNat < 10 := by
      have hle := Text.le_nine_of_digit? (Text.digit?_of_isDigit hc)
      omega
    have hone : ofNat n ++ [c] = ofNat (10 * n + (c.toNat - '0'.toNat)) := by
      rw [← ofNat_of_isDigit hc]
      exact Nat.toDigits_append_toDigits (by decide) hn hlt
    rw [List.append_cons, hone, Nat.ofDigitChars_cons]
    exact ih (fun d hd' => hd d (List.mem_cons_of_mem c hd')) (by omega)

/-- What is written begins with a zero for zero only. -/
theorem head?_ofNat {n : Nat} (hn : 0 < n) : (ofNat n).head? ≠ some '0' := by
  induction n using Nat.strong_induction_on with
  | h n ih =>
    by_cases hlt : n < 10
    · rw [ofNat, Nat.toDigits_of_lt_base hlt, List.head?_cons, ne_eq, Option.some.injEq,
        Nat.digitChar_eq_zero]
      omega
    · have hstep : ofNat n = ofNat (n / 10) ++ [Nat.digitChar (n % 10)] :=
        Nat.toDigits_of_base_le (by decide) (by omega)
      rw [hstep, List.head?_append_of_ne_nil _ (ofNat_ne_nil _)]
      exact ih (n / 10) (by omega) (by omega)

/-- **Digits are written as they were read iff they are those of ASCII, with no zero in front of
    others.** -/
theorem ofNat_eq_iff {ds : Text} {n : Nat} (h : nat? ds = some n) : ofNat n = ds ↔ IsDecimal ds := by
  constructor
  · rintro rfl
    refine ⟨fun c => isDigit_of_mem_ofNat, ?_⟩
    intro hzero
    rcases Nat.eq_zero_or_pos n with rfl | hn
    · decide
    · exact absurd hzero (head?_ofNat hn)
  · rintro ⟨hdigit, hzero⟩
    have hread := natFrom?_of_isDigit hdigit 0
    unfold nat? at h
    split at h
    · cases h
    · next hne =>
      obtain rfl := Option.some.inj (hread.symm.trans h)
      obtain ⟨c, ds, rfl⟩ := List.exists_cons_of_ne_nil hne
      have hc := hdigit c List.mem_cons_self
      rw [Nat.ofDigitChars_cons, Nat.mul_zero, Nat.zero_add]
      by_cases h₀ : c = '0'
      · cases h₀
        cases hzero rfl
        decide
      · have hpos : 0 < c.toNat - '0'.toNat := by
          by_contra hn
          have hwritten := ofNat_of_isDigit hc
          rw [Nat.eq_zero_of_not_pos hn] at hwritten
          cases hwritten
          exact h₀ rfl
        have hds : ∀ d ∈ ds, d.isDigit = true := fun d hd => hdigit d (List.mem_cons_of_mem c hd)
        -- the first digit is a number other than zero, which the others continue
        rw [← ofNat_append_of_isDigit hds hpos, ofNat_of_isDigit hc]
        rfl

example : IsDecimal "10" ∧ ¬ IsDecimal "010" ∧ ¬ IsDecimal "٣" := by decide

end Numeral

/-! ## Tokens and texts -/

namespace Marking

variable {m : Marking} {t : Text} {n : Nat}

/-- A token that is written as it is read: if it is an ordinal, it is the one that is written
    for its number. -/
def Canonical (m : Marking) (t : Text) : Prop := ∀ n ∈ m.ordinal? t, t = m.ordinalMarker (n : Nat)

instance (m : Marking) (t : Text) : Decidable (m.Canonical t) :=
  inferInstanceAs (Decidable (∀ n ∈ m.ordinal? t, _))

theorem canonical_ordinalMarker (m : Marking) (n : Nat) : m.Canonical (m.ordinalMarker n) := by
  intro k hk
  rw [Option.mem_def, ordinal?_ordinalMarker] at hk
  rw [Option.some.inj hk]

theorem canonical_of_ordinal?_eq_none (h : m.ordinal? t = none) : m.Canonical t := by
  intro k hk
  rw [Option.mem_def, h] at hk
  cases hk

theorem IsKey.canonical (h : m.IsKey n t) : m.Canonical t := by
  rcases h with ⟨k, -, -, rfl⟩ | ⟨name, -, rfl⟩
  · exact m.canonical_ordinalMarker k
  · exact canonical_of_ordinal?_eq_none (m.ordinal?_namedMarker name)

theorem IsKey.isPlaceholder (h : m.IsKey n t) : m.isPlaceholder t = true := by
  rcases h with ⟨k, -, -, rfl⟩ | ⟨name, hname, rfl⟩
  · rw [Marking.isPlaceholder, read?_ordinalMarker]
    rfl
  · rw [Marking.isPlaceholder, m.read?_namedMarker hname]
    rfl

theorem canonical_iff_isDecimal {ds : Text} (h : Numeral.nat? ds = some n) :
    m.Canonical (m.ordinalSign ++ ds) ↔ Numeral.IsDecimal ds := by
  have hread : m.ordinal? (m.ordinalSign ++ ds) = some n := ordinal?_eq_some_iff.2 ⟨ds, rfl, h⟩
  rw [← Numeral.ofNat_eq_iff h]
  constructor
  · intro hcan
    exact (List.append_cancel_left (hcan n hread)).symm
  · rintro hds k hk
    rw [← Option.some.inj (hread.symm.trans hk), ← hds]
    rfl

/-- Moving a token on by nothing writes it again. -/
theorem shift_zero_eq_iff : m.shift 0 t = t ↔ m.Canonical t := by
  cases hn : m.ordinal? t with
  | none =>
    rw [shift, hn]
    exact iff_of_true rfl (canonical_of_ordinal?_eq_none hn)
  | some n =>
    rw [shift, hn, Canonical, hn]
    simp [eq_comm]

end Marking

namespace Template

/-- What leaves every placeholder alone leaves the text alone. -/
theorem substitute_eq_text {m : Marking} {f : Text → Text} {ps : Template}
    (h : ∀ t ∈ placeholders m ps, f t = t) : substitute m f ps = text ps := by
  rw [← substitute_id m ps, substitute_eq_woven, substitute_eq_woven]
  congr 1
  exact List.map_congr_left h

theorem placeholders_movedOn (m : Marking) (k : Nat) (raw : Text) :
    placeholders m (ofText (movedOn m k raw)) = (placeholders m (ofText raw)).map (m.shift k) := by
  rw [ofText_movedOn, placeholders_mapWords_shift]

/-- **A text stays when it is moved on by nothing iff all its placeholders are canonical.** -/
theorem movedOn_zero_eq_iff {m : Marking} {raw : Text} :
    movedOn m 0 raw = raw ↔ ∀ t ∈ placeholders m (ofText raw), m.Canonical t := by
  constructor
  · intro h t ht
    have hmap := placeholders_movedOn m 0 raw
    rw [h] at hmap
    have hid := List.map_inj_left.1 ((List.map_id _).trans hmap) t ht
    exact Marking.shift_zero_eq_iff.1 hid.symm
  · intro h
    rw [movedOn, substitute_eq_text fun t ht => Marking.shift_zero_eq_iff.2 (h t ht), text_ofText]

end Template

/-! ## Declared placeholders -/

namespace References

theorem mem_keys_extendAll {refs added : References} {k : Text} :
    k ∈ (refs.extendAll added).keys ↔ k ∈ refs.keys ∨ k ∈ added.keys := by
  induction added generalizing refs with
  | nil => simp [extendAll, keys]
  | cons r added ih =>
    have hextend : k ∈ (refs.extend r.1 r.2).keys ↔ k ∈ refs.keys ∨ k = r.1 := by
      rw [keys_extend]
      split
      · next hr =>
        constructor
        · exact .inl
        · rintro (hk | rfl)
          · exact hk
          · exact hr
      · simp
    show k ∈ ((refs.extend r.1 r.2).extendAll added).keys ↔ _
    rw [ih, hextend, keys_cons, List.mem_cons, or_assoc]

end References

namespace Parameters

variable {p c : Parameters} {t : Text} {n : Nat}

/-- Parameters that come from nothing are consistent and have the marking of their course. -/
theorem Evolves.spec {m : Marking} (h : Evolves m (empty m) p) : p.Consistent ∧ p.marking = m := by
  obtain ⟨hcons, hcont⟩ := h.consistent (consistent_empty m) rfl
  exact ⟨hcons, hcont.marking_eq⟩

/-- The placeholder has slots. -/
def Declares (p : Parameters) (t : Text) : Prop := t ∈ p.references.keys

instance (p : Parameters) (t : Text) : Decidable (p.Declares t) :=
  inferInstanceAs (Decidable (t ∈ p.references.keys))

/-- What a token of a statement has become when the statement was taken in. -/
def taken (p : Parameters) (t : Text) : Text :=
  if p.ordinals = 0 then t else p.marking.shift p.ordinals t

theorem Consistent.isKey_of_declares (hp : p.Consistent) (h : p.Declares t) :
    p.marking.IsKey p.ordinals t := by
  obtain ⟨r, hr, rfl⟩ := List.mem_map.1 h
  exact hp.isKey hr

theorem Consistent.declares_ordinalMarker (hp : p.Consistent) :
    p.Declares (p.marking.ordinalMarker n) ↔ 1 ≤ n ∧ n ≤ p.ordinals := by
  constructor
  · intro h
    exact Marking.isKey_ordinalMarker_iff.1 (hp.isKey_of_declares h)
  · rintro ⟨h₁, hn⟩
    obtain ⟨ss, hss⟩ := hp.key_of_ordinal n h₁ hn
    exact References.mem_keys_of_mem hss

/-- An ordinal is declared if its number is, and if it is written as it is read. -/
theorem Consistent.declares_iff_of_ordinal? (hp : p.Consistent) (h : p.marking.ordinal? t = some n) :
    p.Declares t ↔ 1 ≤ n ∧ n ≤ p.ordinals ∧ p.marking.Canonical t := by
  constructor
  · intro ht
    have hcan := (hp.isKey_of_declares ht).canonical
    rw [hcan n h, hp.declares_ordinalMarker] at ht
    exact ⟨ht.1, ht.2, hcan⟩
  · rintro ⟨h₁, hn, hcan⟩
    rw [hcan n h, hp.declares_ordinalMarker]
    exact ⟨h₁, hn⟩

/-- What is declared behind is declared in front, or was declared inside. -/
theorem declares_absorb_iff :
    (p.absorb c).Declares t ↔ p.Declares t ∨ ∃ k, c.Declares k ∧ p.renumber k = t := by
  have hkeys : (p.takenOver c.references).keys = c.references.keys.map p.renumber := by
    simp [takenOver, References.keys]
  rw [Declares, references_absorb, References.mem_keys_extendAll, hkeys, List.mem_map]
  rfl

/-- What is taken in has the placeholders that those of the text have become. -/
theorem placeholders_of_merge {raw text : Text} {q : Parameters} (h : p.merge raw c = .ok (text, q)) :
    placeholders p.marking (ofText text) = (placeholders p.marking (ofText raw)).map p.taken := by
  obtain ⟨-, -, rfl⟩ := merge_eq_ok_iff.1 h
  by_cases h₀ : p.ordinals = 0
  · have htaken : p.taken = id := by
      funext t
      exact if_pos h₀
    rw [if_pos h₀, htaken, List.map_id]
  · have htaken : p.taken = p.marking.shift p.ordinals := by
      funext t
      exact if_neg h₀
    rw [if_neg h₀, htaken, placeholders_movedOn]

/-- **A statement is taken in as if it were always read iff there are outer ordinals or its
    placeholders are canonical.** -/
theorem merge_eq_movedOn_iff (hm : p.marking = c.marking) {raw : Text} :
    p.merge raw c = .ok (movedOn p.marking p.ordinals raw, p.absorb c) ↔
      0 < p.ordinals ∨ ∀ t ∈ placeholders p.marking (ofText raw), p.marking.Canonical t := by
  rw [merge_eq hm, ← movedOn_zero_eq_iff]
  by_cases h₀ : p.ordinals = 0
  · simp [h₀, eq_comm]
  · simp [h₀, Nat.pos_of_ne_zero h₀]

/-- **An ordinal that is taken in is declared if it was one of the inner ordinals**; without outer
    ordinals it also has to be canonical and not zero. -/
theorem declares_absorb_ordinal (hp : p.Consistent) (hc : c.Consistent) (hm : c.marking = p.marking)
    (h : p.marking.ordinal? t = some n) :
    (p.absorb c).Declares (p.taken t) ↔
      n ≤ c.ordinals ∧ (0 < p.ordinals ∨ 1 ≤ n ∧ p.marking.Canonical t) := by
  have hall : (p.absorb c).Consistent := hp.absorb hc hm
  by_cases h₀ : p.ordinals = 0
  · have htaken : p.taken t = t := if_pos h₀
    rw [htaken, hall.declares_iff_of_ordinal? h, ordinals_absorb, h₀, Nat.zero_add]
    simp only [Nat.lt_irrefl, false_or]
    exact and_left_comm
  · have htaken : p.taken t = p.marking.ordinalMarker (n + p.ordinals : Nat) := by
      rw [taken, if_neg h₀, Marking.shift, h]
    have hdecl : (p.absorb c).Declares (p.marking.ordinalMarker (n + p.ordinals : Nat)) ↔ _ :=
      hall.declares_ordinalMarker
    rw [htaken, hdecl, ordinals_absorb]
    omega

/-- A name that is taken in is declared if it is declared on either side. -/
theorem declares_absorb_name (hc : c.Consistent) (hm : c.marking = p.marking) {name : Text}
    (h : p.marking.name? t = some name) :
    (p.absorb c).Declares (p.taken t) ↔ p.Declares t ∨ c.Declares t := by
  obtain ⟨ht, -⟩ := Marking.name?_eq_some_iff.1 h
  have hname : t = p.marking.namedMarker name := ht
  have htaken : p.taken t = t := by
    rw [taken, Marking.shift, hname, p.marking.ordinal?_namedMarker, ite_self]
  rw [htaken, hname, declares_absorb_iff]
  constructor
  · rintro (hout | ⟨k, hk, he⟩)
    · exact .inl hout
    · rw [← eq_namedMarker_of_renumber (hm ▸ hc.isKey_of_declares hk) he]
      exact .inr hk
  · rintro (hout | hin)
    · exact .inl hout
    · exact .inr ⟨_, hin, p.renumber_namedMarker name⟩

/-- What is no placeholder is not declared. -/
theorem not_declares_absorb (hp : p.Consistent) (hc : c.Consistent) (hm : c.marking = p.marking)
    (h : p.marking.isPlaceholder t = false) :
    ¬ (p.absorb c).Declares (p.taken t) := by
  intro hdecl
  have htaken : p.taken t = t := by
    rw [taken, Marking.shift_of_not_isPlaceholder _ (by simp [h]), ite_self]
  rw [htaken] at hdecl
  have hkey : p.marking.IsKey (p.absorb c).ordinals t := (hp.absorb hc hm).isKey_of_declares hdecl
  rw [hkey.isPlaceholder] at h
  cases h

/-- What is declared inside is declared when it is taken in, with and without outer ordinals. -/
theorem Consistent.declares_taken (hc : c.Consistent) (hm : c.marking = p.marking)
    (h : c.Declares t) : (p.absorb c).Declares (p.taken t) := by
  have hkey := hc.isKey_of_declares h
  rw [hm] at hkey
  have htaken : p.renumber t = p.taken t := by
    unfold taken
    split
    · next h₀ => exact renumber_of_isKey_of_ordinals hkey h₀
    · exact (shift_of_isKey hkey).symm
  exact declares_absorb_iff.2 (.inr ⟨t, h, htaken⟩)

end Parameters

/-- A builder that keeps track of its placeholders has declared all that its text has. -/
theorem Tracks.declares {d : Draft} {h : History} (ht : Tracks d h) {t : Text}
    (hmem : t ∈ placeholders .standard (ofText d.raw)) : (held d.parameters).Declares t := by
  rw [ht.carries_raw.placeholders_eq] at hmem
  obtain ⟨p, s, hp, hb⟩ := ht.owned t hmem
  obtain ⟨ss, hss, -⟩ := Parameters.isBound_iff.1 hb
  rw [hp]
  exact References.mem_keys_of_mem (References.mem_of_slots? hss)

namespace Parameters

/-- **Moving on by nothing changes exactly the ordinals that are not written as they are read.**
    These are the ones with a digit that is not of ASCII or with a zero in front of others, and a
    text stays iff it has none of them.  So a statement is taken in as if it were always read iff
    there are outer ordinals or its placeholders are canonical.  An ordinal that is taken in is
    declared if its number is at most the number of inner ordinals; without outer ordinals it also
    has to be canonical and not zero, and if it is not, it matters whether there are any.  Names
    are declared if they are declared on either side, and what is no placeholder is not.  The
    placeholders of builders whose own texts spell none are canonical, and declared wherever they
    are taken in. -/
theorem unmoved_iff_canonical (m : Marking) :
    (∀ t, m.shift 0 t = t ↔ m.Canonical t) ∧
      (∀ ds n, Numeral.nat? ds = some n →
        (m.Canonical (m.ordinalSign ++ ds) ↔ Numeral.IsDecimal ds)) ∧
      (∀ raw, movedOn m 0 raw = raw ↔ ∀ t ∈ placeholders m (ofText raw), m.Canonical t) ∧
      (∀ p c, Evolves m (empty m) p → Evolves m (empty m) c →
        (∀ raw, p.merge raw c = .ok (movedOn m p.ordinals raw, p.absorb c) ↔
          0 < p.ordinals ∨ ∀ t ∈ placeholders m (ofText raw), m.Canonical t) ∧
        (∀ raw text q, p.merge raw c = .ok (text, q) → q = p.absorb c ∧
          placeholders m (ofText text) = (placeholders m (ofText raw)).map p.taken) ∧
        ∀ t,
          (∀ n, m.ordinal? t = some n →
            ((p.absorb c).Declares (p.taken t) ↔
              n ≤ c.ordinals ∧ (0 < p.ordinals ∨ 1 ≤ n ∧ m.Canonical t)) ∧
            ∀ p', Evolves m (empty m) p' → p.ordinals = 0 → 0 < p'.ordinals →
              (((p.absorb c).Declares (p.taken t) ↔ (p'.absorb c).Declares (p'.taken t)) ↔
                (n ≤ c.ordinals → 1 ≤ n ∧ m.Canonical t))) ∧
          (∀ name, m.name? t = some name →
            ((p.absorb c).Declares (p.taken t) ↔ p.Declares t ∨ c.Declares t)) ∧
          (m.isPlaceholder t = false → ¬ (p.absorb c).Declares (p.taken t))) ∧
      ∀ run : List (Text × Call Text), (∀ c ∈ run, c.2.Composed) → ∀ name,
        let d := (Session.start.after run name).draft
        ∀ t ∈ placeholders .standard (ofText d.raw), Marking.standard.Canonical t ∧
          ∀ p, Evolves .standard (empty .standard) p →
            (p.absorb (held d.parameters)).Declares (p.taken t) := by
  refine ⟨fun t => Marking.shift_zero_eq_iff, fun ds n => Marking.canonical_iff_isDecimal,
    fun raw => movedOn_zero_eq_iff, ?_, ?_⟩
  · intro p c hp hc
    obtain ⟨hpc, rfl⟩ := hp.spec
    obtain ⟨hcc, hm⟩ := hc.spec
    refine ⟨fun raw => merge_eq_movedOn_iff hm.symm, ?_, ?_⟩
    · intro raw text q hq
      obtain ⟨-, hq', -⟩ := merge_eq_ok_iff.1 hq
      exact ⟨hq', placeholders_of_merge hq⟩
    · intro t
      refine ⟨?_, fun name => declares_absorb_name hcc hm, not_declares_absorb hpc hcc hm⟩
      intro n hn
      have hdecl := declares_absorb_ordinal hpc hcc hm hn
      refine ⟨hdecl, ?_⟩
      intro p' hp' h₀ hpos
      obtain ⟨hpc', hm'⟩ := hp'.spec
      rw [← hm'] at hn
      have hdecl' := declares_absorb_ordinal hpc' hcc (hm.trans hm'.symm) hn
      rw [hdecl, hdecl', h₀]
      simp [hpos]
  · intro run hrun name d t ht
    obtain ⟨-, htracks⟩ := Session.tracked_start.after hrun name
    obtain ⟨hc, hm⟩ := htracks.ready.parameters.spec
    have hdecl := htracks.declares ht
    refine ⟨?_, ?_⟩
    · rw [← hm]
      exact (hc.isKey_of_declares hdecl).canonical
    · intro p hp
      obtain ⟨-, hmp⟩ := hp.spec
      exact hc.declares_taken (hm.trans hmp.symm) hdecl

/-- Outer parameters with and without ordinals, and an ordinal, a name and what is no placeholder;
    a text with a name and a canonical ordinal; and a builder with two ordinals. -/
theorem unmoved_iff_canonical_two_ordinals :
    let p := (empty .standard).after (.declareAll [.null, .text "x"])
    let p₀ := (empty .standard).after (.declare (.text "x"))
    let c := (empty .standard).after (.declareAll [.null, .text "y", .null])
    let run : List (Text × Call Text) := [
      ("q", .say (.clause .select)), ("q", .say (.param (.value .null))),
      ("q", .say (.param (.value .null)))]
    Numeral.nat? "10" = some 10 ∧ Marking.standard.Canonical "$$10" ∧
      movedOn .standard 0 "$?y = $$2 '$$02'" = "$?y = $$2 '$$02'" ∧
      p₀.merge "$?y = $$2" c = .ok (movedOn .standard 0 "$?y = $$2", p₀.absorb c) ∧
      ((p₀.absorb c).Declares (p₀.taken "$$2") ∧ (p.absorb c).Declares (p.taken "$$2")) ∧
      (p₀.absorb c).Declares (p₀.taken "$?y") ∧ ¬ (p₀.absorb c).Declares (p₀.taken "y") ∧
      (∀ c ∈ run, c.2.Composed) ∧
      (p.absorb (held (Session.start.after run "q").draft.parameters)).Declares (p.taken "$$2") := by
  intro p p₀ c run
  have hp : Evolves .standard (empty .standard) p := .change _ (.refl _)
  have hp₀ : Evolves .standard (empty .standard) p₀ := .change _ (.refl _)
  have hc : Evolves .standard (empty .standard) c := .change _ (.refl _)
  have hnum : Numeral.nat? "10" = some 10 := by decide
  have hrun : ∀ c ∈ run, c.2.Composed := by decide +kernel
  obtain ⟨-, hdigits, htext, hmerge, hbuilt⟩ := unmoved_iff_canonical .standard
  obtain ⟨hexact, -, htoken⟩ := hmerge p₀ c hp₀ hc
  have htwo := (htoken "$$2").1 2 (by decide)
  have hin : (p₀.absorb c).Declares (p₀.taken "$$2") := htwo.1.2 (by decide +kernel)
  refine ⟨hnum, (hdigits _ _ hnum).2 (by decide), (htext _).2 (by decide +kernel),
    (hexact _).2 (.inr (by decide +kernel)), ⟨hin, ?_⟩, ?_, ?_, hrun, ?_⟩
  · exact ((htwo.2 p hp (by decide +kernel) (by decide +kernel)).2 (by decide +kernel)).1 hin
  · exact ((htoken "$?y").2.1 "y" (by decide)).2 (by decide +kernel)
  · exact (htoken "y").2.2 (by decide)
  · exact (hbuilt run hrun "q" "$$2" (by decide +kernel)).2 p hp

/-- **An ordinal with a zero in front is rewritten by nothing.**  So it is declared if there are
    outer ordinals, and not if there are none. -/
theorem rewritten_by_nothing :
    let m := Marking.standard
    let p₀ := empty m
    let p := p₀.after (.declare .null)
    let c := p₀.after (.declare .null)
    m.ordinal? "$$01" = some 1 ∧ m.ordinalMarker 1 = "$$1".toList ∧
      movedOn m 0 "$$01" = "$$1".toList ∧
      p₀.merge "$$01" c = .ok ("$$01".toList, p₀.absorb c) ∧
        ¬ (p₀.absorb c).Declares "$$01" ∧
      p.merge "$$01" c = .ok ("$$2".toList, p.absorb c) ∧ (p.absorb c).Declares "$$2" := by
  decide +kernel

end Parameters

end SqlCompose
