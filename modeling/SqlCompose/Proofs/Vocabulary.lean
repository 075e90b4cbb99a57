/-
  Vocabulary — the words that statements have besides their placeholders.

  Clauses, keywords and punctuation, the words for null and the booleans, integers, and the
  dots and stars of paths: these are written whatever the marking is.  A marking can be read
  back only if none of them looks like a placeholder.

  * `Template.words` are the words of a text, and `ownWords` those that statements have of
    their own; `Vocabulary` adds integers and what stands between the names of a path;
  * `Spoken` holds of a text that has words of the vocabulary only, with its quotes closed;
  * `Marking.Apart` says that a marking takes no word of the vocabulary for a placeholder,
    and `apart_of_foreign` that it is enough if each sign has a character that none of these
    words has.
-/
import SqlCompose.Proofs.Phrases

namespace SqlCompose

namespace Template

/-- The words of a text. -/
def words (t : Text) : List Text :=
  (ofText t).filterMap fun
    | .word w => some w
    | _ => none

theorem mem_words {t w : Text} : w ∈ words t ↔ .word w ∈ ofText t := by
  rw [words, List.mem_filterMap]
  constructor
  · rintro ⟨p, hp, he⟩
    cases p with
    | word w' => cases he; exact hp
    | space | quoted => cases he
  · intro hw
    exact ⟨_, hw, rfl⟩

end Template

open Template

/-! ## The vocabulary -/

/-- The words of the clauses and keywords, and those that hold expressions together. -/
def ownWords : List Text :=
  (Clause.all.map Clause.keyword ++ Keyword.all.map Keyword.text ++
    ["( , AS )".toList, "NULL TRUE FALSE".toList]).flatMap words

/-- The words that statements have besides their placeholders. -/
inductive Vocabulary : Text → Prop where
  | own {w : Text} : w ∈ ownWords → Vocabulary w
  | numeral (n : Int) : Vocabulary (Numeral.ofInt n)
  /-- What stands between the names of a path. -/
  | path {names : List Text} {w : Text} : (∀ n ∈ names, ¬ Text.WrappedIn '"' n) →
    w ∈ words (Fragment.qualified names) → Vocabulary w

/-- A text is read with its quotes closed, and all its words are of the vocabulary. -/
structure Spoken (t : Text) : Prop where
  closed : Closed (ofText t)
  vocabulary : ∀ w, .word w ∈ ofText t → Vocabulary w

theorem spoken_of_mem {t : Text} (hu : t.Unquoted) (h : ∀ w ∈ words t, Vocabulary w) : Spoken t where
  closed := by
    intro w hw
    have hsub : w ⊆ t := by
      intro c hc
      rw [← text_ofText t]
      exact List.mem_flatMap.2 ⟨_, hw, hc⟩
    exact ⟨fun hc => hu.1 (hsub hc), fun hc => hu.2 (hsub hc)⟩
  vocabulary w hw := h w (mem_words.2 hw)

theorem spoken_clause (k : Clause) : Spoken k.keyword := by
  apply spoken_of_mem
  · cases k <;> decide
  · intro w hw
    refine .own (List.mem_flatMap.2 ⟨k.keyword, ?_, hw⟩)
    rw [List.mem_append, List.mem_append]
    exact .inl (.inl (List.mem_map_of_mem k.mem_all))

theorem spoken_keyword (u : Keyword) : Spoken u.text := by
  apply spoken_of_mem
  · cases u <;> decide
  · intro w hw
    refine .own (List.mem_flatMap.2 ⟨u.text, ?_, hw⟩)
    rw [List.mem_append, List.mem_append]
    exact .inl (.inr (List.mem_map_of_mem u.mem_all))

theorem isDigit_or_eq_of_mem_ofInt {n : Int} {c : Char} (h : c ∈ Numeral.ofInt n) :
    c.isDigit = true ∨ c = '-' := by
  cases n with
  | ofNat k => exact .inl (Numeral.isDigit_of_mem_ofNat h)
  | negSucc k =>
    rcases List.mem_cons.1 h with rfl | h
    · exact .inr rfl
    · exact .inl (Numeral.isDigit_of_mem_ofNat h)

theorem not_mem_ofInt {n : Int} {c : Char} (hdigit : c.isDigit = false) (hminus : c ≠ '-') :
    c ∉ Numeral.ofInt n := by
  intro hc
  rcases isDigit_or_eq_of_mem_ofInt hc with h | h
  · exact absurd (hdigit.symm.trans h) (by decide)
  · exact hminus h

theorem spoken_ofInt (n : Int) : Spoken (Numeral.ofInt n) := by
  have hne : Numeral.ofInt n ≠ [] := by
    cases n with
    | ofNat k => exact Numeral.ofNat_ne_nil k
    | negSucc k => exact List.cons_ne_nil _ _
  have hunquoted : (Numeral.ofInt n).Unquoted :=
    ⟨not_mem_ofInt (by decide) (by decide), not_mem_ofInt (by decide) (by decide)⟩
  apply spoken_of_mem hunquoted
  intro w hw
  have hspace : ' ' ∉ Numeral.ofInt n := not_mem_ofInt (by decide) (by decide)
  rw [mem_words, ofText_word hne hspace hunquoted.1 hunquoted.2, List.mem_singleton] at hw
  cases hw
  exact .numeral n

/-- What stands between the names of a path are dots and stars. -/
theorem mem_word_of_path {names : List Text} (h : ∀ n ∈ names, ¬ Text.WrappedIn '"' n) {w : Text}
    (hw : w ∈ words (Fragment.qualified names)) : ∀ c ∈ w, c = '*' ∨ c = '.' := by
  intro c hc
  have hwithin := within_qualified (P := fun c => c = '*' ∨ c = '.') (.inl rfl) (.inr rfl) h
  exact hwithin c (List.mem_flatMap.2 ⟨_, mem_words.1 hw, hc⟩)

theorem spoken_qualified {path : List Text} (h : ∀ n ∈ path, ¬ Text.WrappedIn '"' n) :
    Spoken (Fragment.qualified path) where
  closed := by
    intro w hw
    have hmem := mem_word_of_path h (mem_words.2 hw)
    constructor
    · intro hc
      exact absurd (hmem _ hc) (by decide)
    · intro hc
      exact absurd (hmem _ hc) (by decide)
  vocabulary w hw := .path h (mem_words.2 hw)

theorem spoken_identifier {n : Text} (h : ¬ Text.WrappedIn '"' n) :
    Spoken (Fragment.identifier n) := by
  have := spoken_qualified (show ∀ k ∈ [n], ¬ Text.WrappedIn '"' k by simpa using h)
  rwa [Fragment.qualified, List.map_singleton, List.intercalate_singleton] at this

theorem spoken_scalar {v : Value} (h : (Given.value v).Scalar) : Spoken v.literal := by
  cases v with
  | null => exact spoken_of_mem (by decide) fun w hw => .own (by revert w; decide +kernel)
  | bool b => cases b <;> exact spoken_of_mem (by decide) fun w hw => .own (by revert w; decide +kernel)
  | int n => exact spoken_ofInt n
  | text t =>
    have hread : ofText (Value.text t).literal = [.quoted (Value.text t).literal] := by
      rw [Value.literal, ofText_of_span? (span?_literal t), ofText]
    constructor <;> intro w hw <;> rw [hread] at hw <;> cases List.mem_singleton.1 hw
  | float | statement => cases h

/-- Punctuation and the word in front of a name. -/
theorem spoken_punctuation : ∀ t ∈ [['('], [','], ['A', 'S'], [')']], Spoken t := by
  intro t ht
  refine spoken_of_mem ?_ fun w hw => .own ?_
  · revert t
    decide
  · revert t w
    decide +kernel

/-! ## Markings that stand apart -/

/-- No word of the vocabulary is taken for a placeholder. -/
def Marking.Apart (m : Marking) : Prop := ∀ w, Vocabulary w → m.isPlaceholder w = false

/-- The characters of the vocabulary. -/
def IsOwnChar (c : Char) : Prop :=
  (∃ w ∈ ownWords, c ∈ w) ∨ c.isDigit = true ∨ c = '-' ∨ c = '.' ∨ c = '*'

instance (c : Char) : Decidable (IsOwnChar c) := inferInstanceAs (Decidable (_ ∨ _))

theorem Vocabulary.isOwnChar {w : Text} (h : Vocabulary w) {c : Char} (hc : c ∈ w) : IsOwnChar c := by
  cases h with
  | own hw => exact .inl ⟨w, hw, hc⟩
  | numeral n =>
    rcases isDigit_or_eq_of_mem_ofInt hc with hd | rfl
    · exact .inr (.inl hd)
    · exact .inr (.inr (.inl rfl))
  | path hnames hw =>
    rcases mem_word_of_path hnames hw c hc with rfl | rfl
    · exact .inr (.inr (.inr (.inr rfl)))
    · exact .inr (.inr (.inr (.inl rfl)))

/-- **A marking stands apart if each of its signs has a character that no word of the
    vocabulary has.** -/
theorem Marking.apart_of_foreign {m : Marking} (ho : ∃ c ∈ m.ordinalSign, ¬ IsOwnChar c)
    (hn : ∃ c ∈ m.namedSign, ¬ IsOwnChar c) : m.Apart := by
  intro w hw
  obtain ⟨c, hc, hforeign⟩ := ho
  obtain ⟨d, hd, hforeign'⟩ := hn
  rw [Bool.eq_false_iff]
  intro hp
  rcases isPrefix_of_isPlaceholder hp with hs | hs
  · exact hforeign (hw.isOwnChar (hs.subset hc))
  · exact hforeign' (hw.isOwnChar (hs.subset hd))

theorem apart_standard : Marking.standard.Apart :=
  Marking.apart_of_foreign ⟨'$', by decide +kernel⟩ ⟨'$', by decide +kernel⟩

end SqlCompose
