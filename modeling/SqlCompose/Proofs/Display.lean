/-
  Display — how placeholders are shown in messages.

  A placeholder is shown as a whole statement is: both signs are replaced wherever they occur,
  and then some of the spaces are left out.  So more than the sign in front of a placeholder
  can change.

  * `Text.Shrinks` holds of functions that leave a text alone or make it shorter, as replacing
    by something shorter does; `Shrinks.append_eq_iff`: one after the other they leave alone
    what each of them does;
  * `Marking.shown` is the display sign in front of a number or name, and `Marking.Spares` says
    of which placeholders nothing but their sign is replaced;
  * `display_of_spares` and `display_eq_shown_iff`: these are shown as they should be, and no
    others if the display sign is the shortest and the signs cannot overlap;
  * `placeholder_shown` says so of the placeholder in the error of a statement that does not
    compile.
-/
import SqlCompose.Proofs.Canonical
import SqlCompose.Proofs.Quoting
import SqlCompose.Proofs.Respelling
import SqlCompose.Proofs.Shortcut

namespace SqlCompose

/-! ## Replacing -/

namespace Text

variable {old new t : Text}

theorem after?_eq_none_iff : after? old t = none ↔ ¬ old <+: t := by
  rw [Option.eq_none_iff_forall_ne_some]
  constructor
  · rintro h ⟨r, hr⟩
    exact h r (after?_eq_some_iff.2 hr.symm)
  · rintro h r hr
    exact h ⟨r, (after?_eq_some_iff.1 hr).symm⟩

/-- A text in front is replaced by itself. -/
theorem replaceAll_append_left (hne : old ≠ []) (new t : Text) :
    replaceAll old new (old ++ t) = new ++ replaceAll old new t :=
  replaceAll_of_after? (after?_eq_some_iff.2 rfl) hne new

/-- What does not occur is not replaced. -/
theorem replaceAll_of_not_isInfix (h : ¬ old <:+: t) (new : Text) : replaceAll old new t = t := by
  induction t with
  | nil => rw [replaceAll]
  | cons c t ih =>
    rw [List.infix_cons_iff, not_or] at h
    rw [replaceAll_cons (after?_eq_none_iff.2 h.1), ih h.2]

theorem replaceAll_self (old t : Text) : replaceAll old old t = t := by
  fun_induction replaceAll old old t with
  | case1 => rfl
  | case2 c r h ih => rw [ih]
  | case3 c r rest h hne ih => rw [ih, ← after?_eq_some_iff.1 h]
  | case4 c r rest h hne ih => rw [ih]

theorem length_replaceAll_le (hlen : new.length ≤ old.length) (t : Text) :
    (replaceAll old new t).length ≤ t.length := by
  fun_induction replaceAll old new t with
  | case1 => exact Nat.le_refl _
  | case2 c r h ih => exact Nat.succ_le_succ ih
  | case3 c r rest h hne ih =>
    rw [after?_eq_some_iff.1 h, List.length_append, List.length_append]
    exact Nat.add_le_add hlen ih
  | case4 c r rest h hne ih => exact Nat.succ_le_succ ih

/-- Replacing what occurs by something shorter makes a text shorter. -/
theorem length_replaceAll_lt (hlen : new.length < old.length) (h : old <:+: t) :
    (replaceAll old new t).length < t.length := by
  have hne : old ≠ [] := by
    rintro rfl
    exact Nat.not_lt_zero _ hlen
  induction t with
  | nil => exact absurd (List.infix_nil.1 h) hne
  | cons c t ih =>
    rcases List.infix_cons_iff.1 h with ⟨rest, hrest⟩ | hinfix
    · have hle := length_replaceAll_le (Nat.le_of_lt hlen) rest
      rw [← hrest, replaceAll_append_left hne, List.length_append, List.length_append]
      omega
    -- the occurrence is further on, but one at the front may be found before it
    · by_cases hprefix : old <+: c :: t
      · obtain ⟨rest, hrest⟩ := hprefix
        have hle := length_replaceAll_le (Nat.le_of_lt hlen) rest
        rw [← hrest, replaceAll_append_left hne, List.length_append, List.length_append]
        omega
      · rw [replaceAll_cons (after?_eq_none_iff.2 hprefix)]
        exact Nat.succ_lt_succ (ih hinfix)

/-- A text in front in which the replaced one neither is nor begins is left alone. -/
theorem replaceAll_append_of_apart {u : Text}
    (h : ∀ a ∈ u.tails, a ≠ [] → ¬ a <+: old ∧ ¬ old <+: a) (new t : Text) :
    replaceAll old new (u ++ t) = u ++ replaceAll old new t := by
  induction u with
  | nil => rfl
  | cons c u ih =>
    have hnone : after? old (c :: (u ++ t)) = none := by
      rw [after?_eq_none_iff]
      intro hold
      obtain ⟨hafter, hbefore⟩ := h (c :: u) (by simp) (by simp)
      rcases List.prefix_or_prefix_of_prefix hold (List.prefix_append (c :: u) t) with h' | h'
      · exact hbefore h'
      · exact hafter h'
    rw [List.cons_append, replaceAll_cons hnone, ih fun a ha => h a (by simp [ha])]
    rfl

/-- Replacing changes nothing: the new text is the old one, or the old one does not occur. -/
def Keeps (old new t : Text) : Prop := old = new ∨ ¬ old <:+: t

instance (old new t : Text) : Decidable (Keeps old new t) := inferInstanceAs (Decidable (_ ∨ _))

theorem Keeps.replaceAll_eq (h : Keeps old new t) : replaceAll old new t = t := by
  rcases h with rfl | h
  · exact replaceAll_self old t
  · exact replaceAll_of_not_isInfix h new

/-- A function that leaves a text alone or makes it shorter. -/
def Shrinks (f : Text → Text) : Prop := ∀ t, f t = t ∨ (f t).length < t.length

theorem shrinks_replaceAll (hlen : new.length < old.length) : Shrinks (replaceAll old new) := by
  intro t
  by_cases h : old <:+: t
  · exact .inr (length_replaceAll_lt hlen h)
  · exact .inl (replaceAll_of_not_isInfix h new)

theorem replaceAll_eq_self_iff (hlen : new.length < old.length) :
    replaceAll old new t = t ↔ Keeps old new t := by
  refine ⟨?_, Keeps.replaceAll_eq⟩
  intro h
  refine .inr fun hinfix => ?_
  have hlt := length_replaceAll_lt hlen hinfix
  rw [h] at hlt
  exact Nat.lt_irrefl _ hlt

namespace Shrinks

variable {f g : Text → Text} (hf : Shrinks f) (hg : Shrinks g)
include hf hg

/-- **What shrinks twice leaves a text alone iff it does both times**, also behind a text that
    is put in front between. -/
theorem append_eq_iff (d t : Text) : g (d ++ f t) = d ++ t ↔ f t = t ∧ g (d ++ t) = d ++ t := by
  rcases hf t with ht | hlt
  · simp [ht]
  · refine iff_of_false ?_ ?_
    · intro h
      have hlen := congrArg List.length h
      simp only [List.length_append] at hlen
      rcases hg (d ++ f t) with hd | hd
      · rw [hd, List.length_append] at hlen
        omega
      · rw [List.length_append] at hd
        omega
    · rintro ⟨h, -⟩
      rw [h] at hlt
      exact Nat.lt_irrefl _ hlt

theorem comp_eq_iff (t : Text) : g (f t) = t ↔ f t = t ∧ g t = t := hf.append_eq_iff hg [] t

theorem comp : Shrinks fun t => g (f t) := by
  intro t
  show g (f t) = t ∨ (g (f t)).length < t.length
  rcases hf t with ht | hlt
  · rw [ht]
    exact hg t
  · rcases hg (f t) with h | h
    · exact .inr (by rwa [h])
    · exact .inr (Nat.lt_trans h hlt)

end Shrinks

/-- The text without spaces in front of commas and inside parentheses. -/
def tightened (t : Text) : Text :=
  t
    |> replaceAll " , ".toList ", ".toList
    |> replaceAll "( ".toList "(".toList
    |> replaceAll " )".toList ")".toList

/-- No space is in front of a comma or inside parentheses. -/
def Tight (t : Text) : Prop :=
  ¬ " , ".toList <:+: t ∧ ¬ "( ".toList <:+: t ∧ ¬ " )".toList <:+: t

instance (t : Text) : Decidable (Tight t) := inferInstanceAs (Decidable (_ ∧ _))

theorem not_isInfix_of_mem {c : Char} (hold : c ∈ old) (ht : c ∉ t) : ¬ old <:+: t :=
  fun h => ht (h.subset hold)

theorem tight_of_not_mem (h : ' ' ∉ t) : Tight t :=
  ⟨not_isInfix_of_mem (by decide) h, not_isInfix_of_mem (by decide) h,
    not_isInfix_of_mem (by decide) h⟩

theorem Tight.tightened_eq (h : Tight t) : tightened t = t := by
  obtain ⟨hcomma, hopen, hclose⟩ := h
  rw [tightened, replaceAll_of_not_isInfix hcomma, replaceAll_of_not_isInfix hopen,
    replaceAll_of_not_isInfix hclose]

theorem shrinks_tightened : Shrinks tightened :=
  ((shrinks_replaceAll (by decide)).comp (shrinks_replaceAll (by decide))).comp
    (shrinks_replaceAll (by decide))

theorem tightened_eq_self_iff : tightened t = t ↔ Tight t := by
  refine ⟨?_, Tight.tightened_eq⟩
  intro h
  have hcomma : Shrinks (replaceAll " , ".toList ", ".toList) := shrinks_replaceAll (by decide)
  have hopen : Shrinks (replaceAll "( ".toList "(".toList) := shrinks_replaceAll (by decide)
  have hclose : Shrinks (replaceAll " )".toList ")".toList) := shrinks_replaceAll (by decide)
  obtain ⟨hfirst, h₃⟩ := ((hcomma.comp hopen).comp_eq_iff hclose t).1 h
  obtain ⟨h₁, h₂⟩ := (hcomma.comp_eq_iff hopen t).1 hfirst
  rw [replaceAll_eq_self_iff (by decide)] at h₁ h₂ h₃
  exact ⟨h₁.resolve_left (by decide), h₂.resolve_left (by decide), h₃.resolve_left (by decide)⟩

end Text

/-! ## Placeholders as they are shown -/

/-- The number or name of a key. -/
def Key.text : Key → Text
  | ordinal n => Numeral.ofInt n
  | named name => name

namespace Marking

open Text

variable {m : Marking} {k : Key}

/-- The display sign in front of a number or name. -/
def shown (m : Marking) (k : Key) : Text := m.displaySign ++ k.text

/-- Nothing but the sign in front of a number or name is replaced.  A name is replaced together
    with its sign first, while the sign of an ordinal is the display sign by the time when names
    are looked for. -/
def Spares (m : Marking) (k : Key) : Prop :=
  Tight (m.shown k) ∧ match k with
    | .ordinal n => Keeps m.ordinalSign m.displaySign (Numeral.ofInt n) ∧
        Keeps m.namedSign m.displaySign (m.shown (.ordinal n))
    | .named name => Keeps m.ordinalSign m.displaySign (m.namedMarker name) ∧
        Keeps m.namedSign m.displaySign name

instance (m : Marking) : (k : Key) → Decidable (m.Spares k)
  | .ordinal _ => inferInstanceAs (Decidable (_ ∧ _ ∧ _))
  | .named _ => inferInstanceAs (Decidable (_ ∧ _ ∧ _))

/-- The display sign is shorter than both other signs, and an ordinal sign cannot begin inside a
    named one. -/
def Separate (m : Marking) : Prop :=
  m.displaySign.length < m.ordinalSign.length ∧ m.displaySign.length < m.namedSign.length ∧
    ∀ a ∈ m.namedSign.tails, a ≠ [] → ¬ a <+: m.ordinalSign ∧ ¬ m.ordinalSign <+: a

instance (m : Marking) : Decidable m.Separate := inferInstanceAs (Decidable (_ ∧ _))

theorem display_eq_tightened (m : Marking) (t : Text) : m.display t =
    tightened (replaceAll m.namedSign m.displaySign (replaceAll m.ordinalSign m.displaySign t)) :=
  rfl

theorem display_ordinalMarker (m : Marking) (n : Int) : m.display (m.ordinalMarker n) =
    tightened (replaceAll m.namedSign m.displaySign
      (m.displaySign ++ replaceAll m.ordinalSign m.displaySign (Numeral.ofInt n))) := by
  rw [display_eq_tightened, ordinalMarker, replaceAll_append_left m.ordinalSign_isWord.1]

theorem display_namedMarker {name : Text}
    (h : replaceAll m.ordinalSign m.displaySign (m.namedMarker name) = m.namedMarker name) :
    m.display (m.namedMarker name) =
      tightened (m.displaySign ++ replaceAll m.namedSign m.displaySign name) := by
  rw [display_eq_tightened, h, namedMarker, replaceAll_append_left m.namedSign_isWord.1]

/-- **A placeholder of which only the sign is replaced is shown as its number or name** behind the
    display sign. -/
theorem display_of_spares (h : m.Spares k) : m.display (m.marker k) = m.shown k := by
  obtain ⟨htight, h⟩ := h
  cases k with
  | ordinal n =>
    obtain ⟨hordinal, hnamed⟩ := h
    show m.display (m.ordinalMarker n) = _
    rw [display_ordinalMarker, hordinal.replaceAll_eq]
    show tightened (replaceAll _ _ (m.shown (.ordinal n))) = _
    rw [hnamed.replaceAll_eq, htight.tightened_eq]
  | named name =>
    obtain ⟨hordinal, hnamed⟩ := h
    show m.display (m.namedMarker name) = _
    rw [display_namedMarker hordinal.replaceAll_eq, hnamed.replaceAll_eq]
    exact htight.tightened_eq

/-- **Other placeholders are shown as something else**, if the display sign is the shortest and
    the signs cannot overlap. -/
theorem display_eq_shown_iff (hm : m.Separate) : m.display (m.marker k) = m.shown k ↔ m.Spares k := by
  obtain ⟨ho, hn, hapart⟩ := hm
  refine ⟨?_, display_of_spares⟩
  intro h
  have hO : Shrinks (replaceAll m.ordinalSign m.displaySign) := shrinks_replaceAll ho
  have hN : Shrinks (replaceAll m.namedSign m.displaySign) := shrinks_replaceAll hn
  cases k with
  | ordinal n =>
    have h : m.display (m.ordinalMarker n) = m.shown (.ordinal n) := h
    rw [display_ordinalMarker] at h
    obtain ⟨hordinal, hrest⟩ := (hO.append_eq_iff (hN.comp shrinks_tightened) _ _).1 h
    obtain ⟨hnamed, htight⟩ := (hN.comp_eq_iff shrinks_tightened _).1 hrest
    exact ⟨tightened_eq_self_iff.1 htight, (replaceAll_eq_self_iff ho).1 hordinal,
      (replaceAll_eq_self_iff hn).1 hnamed⟩
  | named name =>
    have h : m.display (m.namedMarker name) = m.shown (.named name) := h
    -- the signs do not overlap, so the named sign is still there when names are looked for
    rw [display_eq_tightened, namedMarker, replaceAll_append_of_apart hapart,
      replaceAll_append_left m.namedSign_isWord.1] at h
    obtain ⟨hboth, htight⟩ := ((hO.comp hN).append_eq_iff shrinks_tightened _ _).1 h
    obtain ⟨hordinal, hnamed⟩ := (hO.comp_eq_iff hN _).1 hboth
    refine ⟨tightened_eq_self_iff.1 htight, ?_, (replaceAll_eq_self_iff hn).1 hnamed⟩
    rw [← replaceAll_eq_self_iff ho, namedMarker, replaceAll_append_of_apart hapart, hordinal]

-- where signs overlap, something else may be replaced and look the same
example :
    let m : Marking := ⟨"ba", "ab", "a", by decide, by decide, by decide, by decide⟩
    m.display (m.namedMarker "a") = m.shown (.named "a") ∧ ¬ m.Spares (.named "a") := by
  decide +kernel

/-! ### The standard signs -/

theorem separate_standard : standard.Separate := by decide

/-- Ordinals are shown as their numbers. -/
theorem spares_standard_ordinal (n : Int) : standard.Spares (.ordinal n) := by
  have hshown : ∀ c : Char, c.isDigit = false → c ≠ '-' → c ≠ '$' →
      c ∉ standard.shown (.ordinal n) := by
    intro c hdigit hminus hsign hc
    rcases List.mem_cons.1 hc with h | h
    · exact hsign h
    · exact not_mem_ofInt hdigit hminus h
  have hspace := hshown ' ' (by decide) (by decide) (by decide)
  have hmark := hshown '?' (by decide) (by decide) (by decide)
  have hdollar : '$' ∉ Numeral.ofInt n := not_mem_ofInt (by decide) (by decide)
  exact ⟨tight_of_not_mem hspace, .inr (not_isInfix_of_mem (by decide) hdollar),
    .inr (not_isInfix_of_mem (by decide) hmark)⟩

/-- Names are shown as they are if none of the signs occurs in them. -/
theorem spares_standard_named_iff {name : Text} (h : name.IsWord) :
    standard.Spares (.named name) ↔ ¬ "$$".toList <:+: name ∧ ¬ "$?".toList <:+: name := by
  have hspace : ' ' ∉ standard.shown (.named name) := by
    intro hs
    rcases List.mem_cons.1 hs with hs | hs
    · cases hs
    · exact h.not_mem_space hs
  have hordinal : "$$".toList <:+: standard.namedMarker name ↔ "$$".toList <:+: name := by
    show ['$', '$'] <:+: '$' :: '?' :: name ↔ _
    rw [List.infix_cons_iff, List.infix_cons_iff]
    simp [List.cons_prefix_cons]
  have hne : standard.ordinalSign ≠ standard.displaySign := by decide
  have hne' : standard.namedSign ≠ standard.displaySign := by decide
  constructor
  · rintro ⟨-, ho, hn⟩
    exact ⟨fun hin => ho.resolve_left hne (hordinal.2 hin), hn.resolve_left hne'⟩
  · rintro ⟨ho, hn⟩
    exact ⟨tight_of_not_mem hspace, .inr fun hin => ho (hordinal.1 hin), .inr hn⟩

end Marking

/-! ## Placeholders in errors -/

/-- The placeholder that an error shows. -/
def Error.placeholder? : Error → Option Text
  | outOfBounds _ _ placeholder => some placeholder
  | outOfOrder _ placeholder => some placeholder
  | missingValue placeholder => some placeholder
  | _ => none

namespace Parameters

open Template

variable {p : Parameters} {raw : Text} {e : Error}

theorem placeholder?_fault (p : Parameters) (i : Nat) (t : Text) :
    (p.fault i t).placeholder? = some (p.marking.display t) := by
  unfold fault
  split_ifs <;> rfl

/-- What does not compile has a first placeholder that does not find its value, and fails because
    of it. -/
theorem exists_of_compile_eq_error (h : compile raw (some p) = .error e) :
    ∃ i t, (placeholders p.marking (ofText raw))[i]? = some t ∧ ¬ p.Fills i t ∧
      (∀ j < i, ∀ u, (placeholders p.marking (ofText raw))[j]? = some u → p.Fills j u) ∧
      e = p.fault i t := by
  have hpos : 0 < p.slotCount := by
    by_contra h₀
    rw [compile_of_slotCount (by omega)] at h
    cases h
  have hwalk : p.walk raw = .error e := (compile_eq_walk (.inl hpos)).symm.trans h
  have hread := hwalk
  rw [walk, fillFrom_eq] at hread
  cases hvs : p.valuesFrom 0 (placeholders p.marking (ofText raw)) with
  | ok vs => rw [hvs] at hread; cases hread
  | error e' =>
    obtain ⟨i, t, hi, he⟩ := exists_of_valuesFrom_error hvs
    rw [Nat.zero_add] at he
    have hfault : ¬ p.Fills i t := by
      intro hfills
      obtain ⟨v, hv⟩ := exists_valueAt_iff.2 hfills
      rw [hv] at he
      cases he
    obtain ⟨i, t, hi, ht, hall⟩ := exists_first_unfilled ⟨i, t, hi, hfault⟩
    refine ⟨i, t, hi, ht, hall, ?_⟩
    exact Except.error.inj (hwalk.symm.trans (walk_eq_error hi ht hall))

/-- **The placeholder of a declared reference is shown in the error as its number or name behind
    the display sign, if nothing but its sign is replaced.**  What fails to compile fails because
    of the first placeholder that does not find its value, and the error shows this placeholder as
    statements are shown.  If it was declared, it is that of a number or name.  These stand as they
    are behind the display sign if neither sign occurs anew and no spaces are left out, and only
    then if the display sign is the shortest and the signs cannot overlap.  With the standard signs
    this is so for all numbers, and for the names in which none of the signs occurs. -/
theorem placeholder_shown {m : Marking} (hp : Evolves m (empty m) p)
    (h : compile raw (some p) = .error e) :
    ∃ i t, (placeholders m (ofText raw))[i]? = some t ∧ ¬ p.Fills i t ∧
      (∀ j < i, ∀ u, (placeholders m (ofText raw))[j]? = some u → p.Fills j u) ∧
      e = p.fault i t ∧ e.placeholder? = some (m.display t) ∧
      (p.Declares t → ∃ k : Key, t = m.marker k ∧
        (m.Spares k → e.placeholder? = some (m.displaySign ++ k.text)) ∧
        (m.Separate → (e.placeholder? = some (m.displaySign ++ k.text) ↔ m.Spares k)) ∧
        (m = .standard → (e.placeholder? = some (m.displaySign ++ k.text) ↔
          ∀ name, k = .named name → ¬ "$$".toList <:+: name ∧ ¬ "$?".toList <:+: name))) := by
  obtain ⟨hc, rfl⟩ := hp.spec
  obtain ⟨i, t, hi, ht, hall, rfl⟩ := exists_of_compile_eq_error h
  refine ⟨i, t, hi, ht, hall, rfl, p.placeholder?_fault i t, ?_⟩
  intro hdecl
  rw [placeholder?_fault]
  have hkey := hc.isKey_of_declares hdecl
  have hreads : ∃ k : Key, t = p.marking.marker k ∧ ∀ name, k = .named name → name.IsWord := by
    rcases hkey with ⟨n, -, -, rfl⟩ | ⟨name, hname, rfl⟩
    · exact ⟨.ordinal n, rfl, nofun⟩
    · exact ⟨.named name, rfl, fun _ hk => Key.named.inj hk ▸ hname⟩
  obtain ⟨k, rfl, hword⟩ := hreads
  have hspares : p.marking.Spares k → some (p.marking.display (p.marking.marker k)) =
      some (p.marking.displaySign ++ k.text) := fun hk => congrArg some (Marking.display_of_spares hk)
  have hiff : p.marking.Separate → (some (p.marking.display (p.marking.marker k)) =
      some (p.marking.displaySign ++ k.text) ↔ p.marking.Spares k) := by
    intro hsep
    rw [Option.some.injEq]
    exact Marking.display_eq_shown_iff hsep
  refine ⟨k, rfl, hspares, hiff, ?_⟩
  intro hstandard
  rw [hiff (hstandard ▸ Marking.separate_standard), hstandard]
  cases k with
  | ordinal n => exact iff_of_true (Marking.spares_standard_ordinal n) nofun
  | named name =>
    rw [Marking.spares_standard_named_iff (hword name rfl)]
    constructor
    · rintro hname _ ⟨⟩
      exact hname
    · exact fun hname => hname name rfl

/-- A name with one dollar sign, behind an ordinal that has its value. -/
theorem placeholder_shown_of_name :
    let p := ((empty .standard).after (.declareAll [.null, .text "a$b"])).after (.setAll [.int 5])
    Evolves .standard (empty .standard) p ∧
      compile "$$1 = $?a$b" (some p) = .error (.missingValue "$a$b") ∧
      ∃ k : Key, "$?a$b".toList = Marking.standard.marker k ∧
        (Error.missingValue "$a$b").placeholder? = some (Marking.standard.displaySign ++ k.text) := by
  intro p
  have hp : Evolves .standard (empty .standard) p := .change _ (.change _ (.refl _))
  have herror : compile "$$1 = $?a$b" (some p) = .error (.missingValue "$a$b") := by decide +kernel
  refine ⟨hp, herror, ?_⟩
  obtain ⟨i, t, hi, hfault, -, -, -, hshown⟩ := placeholder_shown hp herror
  have hreads : placeholders .standard (ofText "$$1 = $?a$b") = ["$$1".toList, "$?a$b".toList] := by
    decide +kernel
  rw [hreads] at hi
  match i, hi with
  | 0, rfl => exact absurd ⟨by decide +kernel, by decide +kernel, ['5'], by decide +kernel⟩ hfault
  | 1, rfl =>
    obtain ⟨k, hk, hspares, -⟩ := hshown (by decide +kernel)
    have hname : k = .named "a$b" := Marking.marker_inj.1 (hk.symm.trans rfl)
    rw [hname] at hspares
    exact ⟨.named "a$b", rfl, hspares (by decide +kernel)⟩

/-- **A sign that occurs in a name is replaced with the sign in front of it.** -/
theorem sign_in_name_replaced :
    let p := (empty .standard).after (.declare (.text "a$$b"))
    p.references = [("$?a$$b".toList, [0])] ∧
      compile "SELECT $?a$$b" (some p) = .error (.missingValue "$a$b") ∧
      Marking.standard.displaySign ++ (Key.named "a$$b").text = "$a$$b".toList ∧
      (Error.missingValue "$a$b").placeholder? ≠
        some (Marking.standard.displaySign ++ (Key.named "a$$b").text) := by
  decide +kernel

end Parameters

end SqlCompose
