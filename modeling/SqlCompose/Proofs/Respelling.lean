/-
  Respelling — the same text with two markings.

  Two texts are the same up to their marking if they have the same pieces, and placeholders
  of the same keys where they have placeholders.

  * `Key.Readable` holds of the keys whose placeholders are read back; `isPlaceholder_marker`,
    `shift_marker` and `renumber_marker` say what becomes of these placeholders;
  * `Marking.Legible` holds of a marking that has no quotes in its signs and takes none of the
    words of a statement for a placeholder;
  * `Text.Respelled` relates the texts, and `eq_of_respelled` says that they are equal if there
    are no slots for placeholders;
  * `Text.Respelled.group`, `respelled_list`, `respelled_render` and the others say that what
    is put together of related texts is related, and `Text.Respelled.movedOn` that moving
    ordinals on keeps this.
-/
import SqlCompose.Proofs.Associativity
import SqlCompose.Proofs.Vocabulary
import Mathlib.Data.List.Forall2

namespace SqlCompose

open Template

/-! ## Keys -/

theorem Numeral.ofInt_inj {n k : Int} : ofInt n = ofInt k ↔ n = k := by
  have hnat : ∀ {a b : Nat}, ofNat a = ofNat b → a = b := by
    intro a b h
    have := nat?_ofNat a
    rw [h, nat?_ofNat] at this
    exact (Option.some.inj this).symm
  have hsign : ∀ a b : Nat, ofNat a ≠ '-' :: ofNat b := by
    intro a b h
    have hdigit : '-'.isDigit = true := isDigit_of_mem_ofNat (h ▸ List.mem_cons_self : '-' ∈ ofNat a)
    exact absurd hdigit (by decide)
  constructor
  · intro h
    cases n with
    | ofNat a =>
      cases k with
      | ofNat b => rw [hnat h]
      | negSucc b => exact absurd h (hsign a (b + 1))
    | negSucc a =>
      cases k with
      | ofNat b => exact absurd h.symm (hsign b (a + 1))
      | negSucc b => rw [Nat.succ.inj (hnat (List.cons.inj h).2)]
  · rintro rfl
    rfl

namespace Key

/-- A key whose placeholder is read back: a number, or a word without quotes. -/
def Readable : Key → Prop
  | ordinal n => 0 ≤ n
  | named name => name.IsWord ∧ name.Unquoted

/-- The key of the ordinal that comes `k` later; a name stays. -/
def movedOn (k : Nat) : Key → Key
  | ordinal n => ordinal (n + k)
  | named name => named name

variable {key : Key}

theorem Readable.cases (h : key.Readable) :
    (∃ i : Nat, key = ordinal i) ∨ ∃ name : Text, name.IsWord ∧ name.Unquoted ∧ key = named name := by
  cases key with
  | ordinal n =>
    obtain ⟨i, rfl⟩ := Int.eq_ofNat_of_zero_le h
    exact .inl ⟨i, rfl⟩
  | named name => exact .inr ⟨name, h.1, h.2, rfl⟩

theorem Readable.movedOn (h : key.Readable) (k : Nat) : (key.movedOn k).Readable := by
  rcases h.cases with ⟨i, rfl⟩ | ⟨name, -, -, rfl⟩
  · exact Int.natCast_nonneg (i + k)
  · exact h

end Key

namespace Marking

variable {m : Marking} {key : Key}

/-- Only one key has a given placeholder. -/
theorem marker_inj {k l : Key} : m.marker k = m.marker l ↔ k = l := by
  constructor
  · intro h
    cases k with
    | ordinal n =>
      cases l with
      | ordinal i => rw [Numeral.ofInt_inj.1 (List.append_cancel_left h)]
      | named name => exact absurd h (m.ordinalSign_append_ne_namedSign_append _ _)
    | named name =>
      cases l with
      | ordinal i => exact absurd h.symm (m.ordinalSign_append_ne_namedSign_append _ _)
      | named name' => rw [List.append_cancel_left h]
  · rintro rfl
    rfl

theorem isPlaceholder_marker (m : Marking) (h : key.Readable) : m.isPlaceholder (m.marker key) = true := by
  rcases h.cases with ⟨i, rfl⟩ | ⟨name, hw, -, rfl⟩
  · rw [isPlaceholder, marker, read?_ordinalMarker]
    rfl
  · rw [isPlaceholder, marker, read?_namedMarker m hw]
    rfl

theorem shift_marker (m : Marking) (h : key.Readable) (k : Nat) :
    m.shift k (m.marker key) = m.marker (key.movedOn k) := by
  rcases h.cases with ⟨i, rfl⟩ | ⟨name, -, -, rfl⟩
  · rw [marker, shift, ordinal?_ordinalMarker]
    rfl
  · rw [marker, shift, ordinal?_namedMarker]
    rfl

/-- A marking whose placeholders can be told from all else in a statement: its signs have no
    quotes, and none of the words of a statement looks like a placeholder. -/
structure Legible (m : Marking) : Prop where
  ordinalSign : m.ordinalSign.Unquoted
  namedSign : m.namedSign.Unquoted
  apart : m.Apart

theorem legible_standard : standard.Legible := ⟨by decide, by decide, apart_standard⟩

/-- The placeholder of a readable key is one word. -/
theorem Legible.ofText_marker (hm : m.Legible) (h : key.Readable) :
    (m.marker key).Unquoted ∧ ofText (m.marker key) = [.word (m.marker key)] := by
  have hrest : ∃ sign rest, m.marker key = sign ++ rest ∧ sign ≠ [] ∧ ' ' ∉ sign ∧ sign.Unquoted ∧
      ' ' ∉ rest ∧ rest.Unquoted := by
    rcases h.cases with ⟨i, rfl⟩ | ⟨name, hw, hu, rfl⟩
    · exact ⟨_, _, rfl, m.ordinalSign_isWord.1, m.ordinalSign_isWord.not_mem_space, hm.ordinalSign,
        not_mem_of_nat? (Numeral.nat?_ofNat i)⟩
    · exact ⟨_, _, rfl, m.namedSign_isWord.1, m.namedSign_isWord.not_mem_space, hm.namedSign,
        hw.not_mem_space, hu⟩
  obtain ⟨sign, rest, he, hne, hs, hq, hs', hq'⟩ := hrest
  have hu : (sign ++ rest).Unquoted := by
    simp [Text.Unquoted, hq.1, hq.2, hq'.1, hq'.2]
  rw [he]
  exact ⟨hu, ofText_word (by simp [hne]) (by simp [hs, hs']) hu.1 hu.2⟩

end Marking

namespace Parameters

theorem renumber_marker (p : Parameters) {key : Key} (h : key.Readable) :
    p.renumber (p.marking.marker key) = p.marking.marker (key.movedOn p.ordinals) := by
  rcases h.cases with ⟨i, rfl⟩ | ⟨name, -, -, rfl⟩
  · exact p.renumber_ordinalMarker i
  · exact p.renumber_namedMarker name

end Parameters

/-! ## Related texts -/

/-- Two pieces that say the same, one with each marking.  Placeholders stand only where
    there are slots. -/
inductive Piece.Respelled (m m' : Marking) (slots : Nat) : Piece → Piece → Prop where
  | space : Respelled m m' slots .space .space
  | quoted (q : Text) : Respelled m m' slots (.quoted q) (.quoted q)
  | word {w : Text} : w.Unquoted → m.isPlaceholder w = false → m'.isPlaceholder w = false →
    Respelled m m' slots (.word w) (.word w)
  | marker {key : Key} : 0 < slots → key.Readable →
    Respelled m m' slots (.word (m.marker key)) (.word (m'.marker key))

/-- Two texts that say the same, one with each marking. -/
def Text.Respelled (m m' : Marking) (slots : Nat) (t t' : Text) : Prop :=
  List.Forall₂ (Piece.Respelled m m' slots) (ofText t) (ofText t')

variable {m m' : Marking} {slots : Nat} {t t' u u' : Text} {ts ts' : List Text}

theorem Piece.Respelled.symm {p p' : Piece} (h : p.Respelled m m' slots p') :
    p'.Respelled m' m slots p := by
  cases h with
  | space => exact .space
  | quoted q => exact .quoted q
  | word hu h h' => exact .word hu h' h
  | marker h₀ hk => exact .marker h₀ hk

theorem Text.Respelled.symm (h : t.Respelled m m' slots t') : t'.Respelled m' m slots t :=
  List.Forall₂.flip (h.imp fun _ _ hp => hp.symm)

theorem Text.Respelled.mono {slots' : Nat} (hle : slots ≤ slots') (h : t.Respelled m m' slots t') :
    t.Respelled m m' slots' t' := by
  refine h.imp ?_
  intro p p' hp
  cases hp with
  | space => exact .space
  | quoted q => exact .quoted q
  | word hu h h' => exact .word hu h h'
  | marker h₀ hk => exact .marker (Nat.lt_of_lt_of_le h₀ hle) hk

/-- Without slots there are no placeholders, and the texts are the same. -/
theorem eq_of_respelled (h : t.Respelled m m' 0 t') : t' = t := by
  have heq : ∀ p p', Piece.Respelled m m' 0 p p' → p = p' := by
    intro p p' hp
    cases hp with
    | space | quoted | word => rfl
    | marker h₀ => omega
  have hpieces : ofText t = ofText t' := by
    rw [← List.forall₂_eq_eq_eq]
    exact h.imp heq
  rw [← text_ofText t', ← hpieces, text_ofText]

/-- A text without placeholders says the same only as itself. -/
theorem Text.Respelled.eq_of_placeholders_eq_nil (h : t.Respelled m m' slots t')
    (hnone : placeholders m (ofText t) = []) : t' = t := by
  have hpieces : ofText t' = ofText t := by
    unfold Text.Respelled at h
    generalize ofText t = ps, ofText t' = ps' at h hnone
    induction h with
    | nil => rfl
    | cons hp _ ih =>
      cases hp with
      | space => rw [ih hnone]
      | quoted q => rw [ih hnone]
      | word _ hw =>
        rw [placeholders_word, hw] at hnone
        rw [ih hnone]
      | marker _ hk =>
        rw [placeholders_word, m.isPlaceholder_marker hk] at hnone
        cases hnone
  rw [← text_ofText t', hpieces, text_ofText]

theorem ofText_eq_nil_iff : ofText t = [] ↔ t = [] := by
  constructor
  · intro h
    rw [← text_ofText t, h]
    rfl
  · rintro rfl
    rw [ofText]

theorem Text.Respelled.eq_nil_iff (h : t.Respelled m m' slots t') : t' = [] ↔ t = [] := by
  rw [← ofText_eq_nil_iff, ← ofText_eq_nil_iff, ← List.length_eq_zero_iff, ← h.length_eq,
    List.length_eq_zero_iff]

theorem respelled_nil : Text.Respelled m m' slots [] [] := by
  rw [Text.Respelled, ofText]
  exact .nil

/-- Related texts are joined by whatever joins two of them. -/
theorem respelled_intercalate {sep : Text} (hsep : ∀ {t t' u u' : Text}, t.Respelled m m' slots t' →
    u.Respelled m m' slots u' → Text.Respelled m m' slots (t ++ sep ++ u) (t' ++ sep ++ u'))
    (h : List.Forall₂ (Text.Respelled m m' slots) ts ts') :
    Text.Respelled m m' slots (sep.intercalate ts) (sep.intercalate ts') := by
  induction h with
  | nil => exact respelled_nil
  | cons ht hts ih =>
    cases hts with
    | nil =>
      rw [List.intercalate_singleton, List.intercalate_singleton]
      exact ht
    | cons =>
      rw [List.intercalate_cons_cons, List.intercalate_cons_cons]
      exact hsep ht ih

section
variable (hm : m.Legible) (hm' : m'.Legible)
include hm

theorem Text.Respelled.closed (h : t.Respelled m m' slots t') : Closed (ofText t) := by
  unfold Text.Respelled at h
  generalize ofText t = ps, ofText t' = ps' at h
  induction h with
  | nil => exact nofun
  | cons hp _ ih =>
    intro w hw
    rcases List.mem_cons.1 hw with rfl | hw
    · cases hp with
      | word hu => exact hu
      | marker _ hk => exact (hm.ofText_marker hk).1
    · exact ih w hw

theorem Text.Respelled.eq_of_spoken (h : t.Respelled m m' slots t') (hs : Spoken t) : t' = t := by
  apply h.eq_of_placeholders_eq_nil
  apply placeholders_eq_nil
  intro w hw
  rw [hm.apart w (hs.vocabulary w hw)]
  exact Bool.false_ne_true

theorem Text.Respelled.isDirection (ht : t.Respelled m m' slots t') (h : IsDirection t) :
    IsDirection t' := by
  have hs : Spoken t := by
    rcases h with rfl | rfl
    · exact spoken_keyword .asc
    · exact spoken_keyword .desc
  rwa [ht.eq_of_spoken hm hs]

include hm'

/-- Words of a statement's own are written the same with every marking. -/
theorem Spoken.respelled (h : Spoken t) : t.Respelled m m' slots t := by
  rw [Text.Respelled, List.forall₂_same]
  intro p hp
  cases p with
  | space => exact .space
  | quoted q => exact .quoted q
  | word w => exact .word (h.closed w hp) (hm.apart w (h.vocabulary w hp)) (hm'.apart w (h.vocabulary w hp))

theorem respelled_marker {key : Key} (h₀ : 0 < slots) (hk : key.Readable) :
    Text.Respelled m m' slots (m.marker key) (m'.marker key) := by
  rw [Text.Respelled, (hm.ofText_marker hk).2, (hm'.ofText_marker hk).2]
  exact .cons (.marker h₀ hk) .nil

/-! ## Joining -/

namespace Text.Respelled

theorem append_space (ht : t.Respelled m m' slots t') (hu : u.Respelled m m' slots u') :
    Text.Respelled m m' slots (t ++ ' ' :: u) (t' ++ ' ' :: u') := by
  rw [Text.Respelled, ofText_append_space (ht.closed hm), ofText_append_space (ht.symm.closed hm')]
  exact List.rel_append ht (.cons .space hu)

theorem append_comma (ht : t.Respelled m m' slots t') (hu : u.Respelled m m' slots u') :
    Text.Respelled m m' slots (t ++ Fragment.comma ++ u) (t' ++ Fragment.comma ++ u') := by
  have hcomma : Text.Respelled m m' slots [','] [','] :=
    (spoken_punctuation _ (by simp)).respelled hm hm'
  have := ht.append_space hm hm' (hcomma.append_space hm hm' hu)
  simpa [Fragment.comma] using this

theorem group (ht : t.Respelled m m' slots t') :
    Text.Respelled m m' slots (Fragment.group t) (Fragment.group t') := by
  have hopen : Text.Respelled m m' slots ['('] ['('] :=
    (spoken_punctuation _ (by simp)).respelled hm hm'
  have hclose : Text.Respelled m m' slots [')'] [')'] :=
    (spoken_punctuation _ (by simp)).respelled hm hm'
  have := hopen.append_space hm hm' (ht.append_space hm hm' hclose)
  simpa [Fragment.group] using this

theorem aliased (ht : t.Respelled m m' slots t') {label : Option Text} (hl : Unwrapped label) :
    Text.Respelled m m' slots (Fragment.aliased label t) (Fragment.aliased label t') := by
  rcases label with _ | (_ | ⟨c, n⟩)
  · exact ht
  · exact ht
  · have has : Text.Respelled m m' slots ['A', 'S'] ['A', 'S'] :=
      (spoken_punctuation _ (by simp)).respelled hm hm'
    have hname : Text.Respelled m m' slots (Fragment.identifier (c :: n)) _ :=
      (spoken_identifier (hl _ rfl)).respelled hm hm'
    have := ht.append_space hm hm' (has.append_space hm hm' hname)
    simpa [Fragment.aliased] using this

theorem defining (ht : t.Respelled m m' slots t') {label : Option Text} (hl : Unwrapped label) :
    Text.Respelled m m' slots (Fragment.defining label t) (Fragment.defining label t') := by
  rcases label with _ | (_ | ⟨c, n⟩)
  · exact ht
  · exact ht
  · have has : Text.Respelled m m' slots ['A', 'S'] ['A', 'S'] :=
      (spoken_punctuation _ (by simp)).respelled hm hm'
    have hname : Text.Respelled m m' slots (Fragment.identifier (c :: n)) _ :=
      (spoken_identifier (hl _ rfl)).respelled hm hm'
    have := hname.append_space hm hm' (has.append_space hm hm' ht)
    simpa [Fragment.defining] using this

theorem isDirection_iff (ht : t.Respelled m m' slots t') : IsDirection t' ↔ IsDirection t :=
  ⟨ht.symm.isDirection hm', ht.isDirection hm⟩

end Text.Respelled

/-! ## Rows of texts -/

theorem respelled_list (h : List.Forall₂ (Text.Respelled m m' slots) ts ts') :
    Text.Respelled m m' slots (Fragment.list ts) (Fragment.list ts') :=
  (respelled_intercalate (fun ht hu => ht.append_comma hm hm' hu) h).group hm hm'

theorem respelled_intercalate_space (h : List.Forall₂ (Text.Respelled m m' slots) ts ts') :
    Text.Respelled m m' slots (List.intercalate [' '] ts) (List.intercalate [' '] ts') := by
  refine respelled_intercalate ?_ h
  intro t t' u u' ht hu
  simpa using ht.append_space hm hm' hu

theorem respelled_sortingKeys (h : List.Forall₂ (Text.Respelled m m' slots) ts ts') :
    Text.Respelled m m' slots (Clause.sortingKeys ts) (Clause.sortingKeys ts') := by
  -- what stands in front grows with every token, so it is general in the induction
  have hrest : ∀ {us us' : List Text}, List.Forall₂ (Text.Respelled m m' slots) us us' →
      ∀ {t t' : Text}, t.Respelled m m' slots t' → Text.Respelled m m' slots
        (t ++ us.flatMap fun u => (if IsDirection u then [' '] else Fragment.comma) ++ u)
        (t' ++ us'.flatMap fun u => (if IsDirection u then [' '] else Fragment.comma) ++ u) := by
    intro us us' hus
    induction hus with
    | nil => intro t t' ht; simpa using ht
    | @cons u u' us us' hu _ ih =>
      intro t t' ht
      rw [List.flatMap_cons, List.flatMap_cons, ← List.append_assoc t, ← List.append_assoc t']
      refine ih ?_
      simp only [hu.isDirection_iff hm hm']
      split
      · simpa using ht.append_space hm hm' hu
      · simpa using ht.append_comma hm hm' hu
  cases h with
  | nil => exact respelled_nil
  | cons ht hts => exact hrest hts ht

theorem respelled_body (h : List.Forall₂ (Text.Respelled m m' slots) ts ts') (k : Clause) :
    Text.Respelled m m' slots (k.body ts) (k.body ts') := by
  unfold Clause.body
  split
  · exact respelled_sortingKeys hm hm' h
  · have hcomma := respelled_intercalate (fun ht hu => ht.append_comma hm hm' hu) h
    have hspace := respelled_intercalate_space hm hm' h
    cases k <;> first | exact hcomma | exact hspace

theorem respelled_clause (h : List.Forall₂ (Text.Respelled m m' slots) ts ts') (k : Clause) :
    Text.Respelled m m' slots (k.render ts) (k.render ts') := by
  have hword : Text.Respelled m m' slots k.keyword k.keyword := (spoken_clause k).respelled hm hm'
  have hbody := respelled_body hm hm' h k
  unfold Clause.render
  simp only [hbody.eq_nil_iff]
  split
  · exact hword
  · simpa using hword.append_space hm hm' hbody

/-- A statement is related if the tokens of its clauses are. -/
theorem respelled_render {s s' : Statement}
    (h : ∀ k, Option.Rel (List.Forall₂ (Text.Respelled m m' slots)) (s.tokens? k) (s'.tokens? k)) :
    Text.Respelled m m' slots s.render s'.render := by
  apply respelled_intercalate_space hm hm'
  refine List.rel_filterMap ?_ (List.forall₂_same.2 fun k _ => (rfl : k = k))
  rintro k _ rfl
  show Option.Rel _ ((s.tokens? k).map k.render) ((s'.tokens? k).map k.render)
  have hk := h k
  generalize s.tokens? k = o, s'.tokens? k = o' at hk
  cases hk with
  | some hts => exact .some (respelled_clause hm hm' hts k)
  | none => exact .none

end

/-! ## Moving ordinals on -/

theorem Text.Respelled.movedOn (h : t.Respelled m m' slots t') (k : Nat) :
    Text.Respelled m m' slots (Template.movedOn m k t) (Template.movedOn m' k t') := by
  rw [Text.Respelled, ofText_movedOn, ofText_movedOn]
  refine List.rel_map ?_ h
  intro p p' hp
  cases hp with
  | space => exact .space
  | quoted q => exact .quoted q
  | word hu hw hw' =>
    show Piece.Respelled m m' slots (.word (m.shift k _)) (.word (m'.shift k _))
    rw [Marking.shift_of_not_isPlaceholder k (by simp [hw]),
      Marking.shift_of_not_isPlaceholder k (by simp [hw'])]
    exact .word hu hw hw'
  | marker h₀ hk =>
    show Piece.Respelled m m' slots (.word (m.shift k _)) (.word (m'.shift k _))
    rw [m.shift_marker hk, m'.shift_marker hk]
    exact .marker h₀ (hk.movedOn k)

end SqlCompose
