/-
  Reading — which rows of pieces a text is read as.

  `Reads rest ps` says that the pieces `ps` are what is read in front of the text
  `rest`.  Every piece is checked with the text that really follows it, so rows
  of pieces can be put together and taken apart.

  * `reads_ofText`: a text reads as its pieces, and `Reads.ofText_append` that
    nothing else does;
  * `Reads.of_alike` and `Reads.of_closed` change what follows: it may be
    exchanged for an alike text, and for anything behind a space if the pieces
    are `Closed`, that is if every quote of theirs lies in a span;
  * `reads_shifted`: moving the ordinals of a text on keeps its pieces apart from
    the ordinals.
-/
import SqlCompose.Proofs.Spans

namespace SqlCompose

/-! ## Digits and signs -/

theorem Text.isPlain_of_digit? {c : Char} {n : Nat} (h : Text.digit? c = some n) :
    Template.IsPlain c ∧ c ≠ ' ' := by
  refine ⟨⟨?_, ?_, ?_, ?_⟩, ?_⟩ <;> rintro rfl <;> revert h <;> decide +revert

theorem Numeral.digit?_of_nat? {t : Text} {n : Nat} (h : nat? t = some n) :
    t ≠ [] ∧ ∀ c ∈ t, ∃ d, Text.digit? c = some d := by
  have hfrom : ∀ {t : Text} {start : Nat}, natFrom? start t = some n →
      ∀ c ∈ t, ∃ d, Text.digit? c = some d := by
    intro t
    induction t with
    | nil =>
      intro _ _ c hc
      cases hc
    | cons c r ih =>
      intro start h d hd
      obtain ⟨k, hk, hr⟩ := Option.bind_eq_some_iff.1 h
      rcases List.mem_cons.1 hd with rfl | hd
      · exact ⟨k, hk⟩
      · exact ih hr d hd
  unfold nat? at h
  split at h
  · cases h
  · next hne => exact ⟨hne, hfrom h⟩

namespace Marking

/-- Moving on changes nothing but the digits of an ordinal. -/
theorem shift_cases (m : Marking) (k : Nat) (t : Text) :
    m.shift k t = t ∨ ∃ n ds, t = m.ordinalSign ++ ds ∧ Numeral.nat? ds = some n ∧
      m.shift k t = m.ordinalSign ++ Numeral.ofNat (n + k) := by
  unfold shift
  split
  · next n hn =>
    obtain ⟨ds, rfl, hds⟩ := ordinal?_eq_some_iff.1 hn
    exact .inr ⟨n, ds, rfl, hds, rfl⟩
  · exact .inl rfl

theorem shift_of_not_isPlaceholder {m : Marking} {t : Text} (k : Nat) (h : ¬ m.isPlaceholder t) :
    m.shift k t = t := by
  unfold shift
  split
  · next n hn => exact absurd (by simp [isPlaceholder, read?, hn]) h
  · rfl

end Marking

namespace Template

/-! ## Rows of pieces -/

/-- Whether the first piece is a word. -/
def BeginsWord : Template → Prop
  | .word _ :: _ => True
  | _ => False

/-- In front of `rest`, no span begins inside `w`, and no space is in it. -/
structure IsStretch (w rest : Text) : Prop where
  ne_nil : w ≠ []
  not_mem_space : ' ' ∉ w
  span?_eq_none : ∀ a c s, w = a ++ c :: s → span? (c :: (s ++ rest)) = none

/-- The pieces read in front of the text `rest`. -/
inductive Reads (rest : Text) : Template → Prop where
  | nil : Reads rest []
  | space {ps : Template} : Reads rest ps → Reads rest (.space :: ps)
  | quoted {q : Text} {ps : Template} :
    span? (q ++ (text ps ++ rest)) = some (q, text ps ++ rest) → Reads rest ps →
      Reads rest (.quoted q :: ps)
  | word {w : Text} {ps : Template} :
    IsStretch w (text ps ++ rest) → ¬ BeginsWord (ps ++ ofText rest) → Reads rest ps →
      Reads rest (.word w :: ps)

@[simp] theorem text_append (ps qs : Template) : text (ps ++ qs) = text ps ++ text qs :=
  List.flatMap_append

@[simp] theorem ofText_space (t : Text) : ofText (' ' :: t) = .space :: ofText t := by
  rw [ofText_of_span?_eq_none (span?_eq_none_of_ne (by simp) (by simp)), if_pos rfl]

theorem consChar_of_not_beginsWord (c : Char) {ps : Template} (h : ¬ BeginsWord ps) :
    consChar c ps = .word [c] :: ps := by
  unfold consChar
  split
  · exact absurd trivial h
  · rfl

theorem IsStretch.tail {c d : Char} {w rest : Text} (h : IsStretch (c :: d :: w) rest) :
    IsStretch (d :: w) rest where
  ne_nil := List.cons_ne_nil d w
  not_mem_space hs := h.not_mem_space (List.mem_cons_of_mem c hs)
  span?_eq_none a e s hw := h.span?_eq_none (c :: a) e s (by rw [hw]; rfl)

theorem IsStretch.ofText_append {w rest : Text} (h : IsStretch w rest)
    (hr : ¬ BeginsWord (ofText rest)) : ofText (w ++ rest) = .word w :: ofText rest := by
  induction w with
  | nil => exact absurd rfl h.ne_nil
  | cons c w ih =>
    have hc : c ≠ ' ' := by
      rintro rfl
      exact h.not_mem_space (by simp)
    rw [List.cons_append, ofText_of_span?_eq_none (h.span?_eq_none [] c w rfl), if_neg hc]
    cases w with
    | nil => exact consChar_of_not_beginsWord c hr
    | cons d w => rw [ih h.tail]; rfl

/-- **What reads as the pieces has these pieces.** -/
theorem Reads.ofText_append {rest : Text} {ps : Template} (h : Reads rest ps) :
    ofText (text ps ++ rest) = ps ++ ofText rest := by
  induction h with
  | nil => rfl
  | space _ ih =>
    rw [text_cons, Piece.text, List.append_assoc, List.singleton_append, ofText_space, ih]
    rfl
  | quoted hs _ ih =>
    rw [text_cons, Piece.text, List.append_assoc, ofText_of_span? hs, ih]
    rfl
  | word hw hb _ ih =>
    rw [text_cons, Piece.text, List.append_assoc, hw.ofText_append (by rw [ih]; exact hb), ih]
    rfl

theorem Reads.ofText_text {ps : Template} (h : Reads [] ps) : ofText (text ps) = ps := by
  have := h.ofText_append
  rwa [List.append_nil, show ofText [] = [] by rw [ofText], List.append_nil] at this

theorem Reads.append {rest : Text} {ps qs : Template} (hp : Reads (text qs ++ rest) ps)
    (hq : Reads rest qs) : Reads rest (ps ++ qs) := by
  induction hp with
  | nil => exact hq
  | space _ ih => exact .space ih
  | quoted hs _ ih =>
    rw [List.cons_append]
    refine .quoted ?_ ih
    rwa [text_append, List.append_assoc]
  | word hw hb _ ih =>
    rw [List.cons_append]
    refine .word ?_ ?_ ih
    · rwa [text_append, List.append_assoc]
    · rwa [List.append_assoc, ← hq.ofText_append]

/-- A character that opens no span in front of pieces belongs to their first word. -/
theorem Reads.consChar {c : Char} {ps : Template} (h : Reads [] ps) (hc : c ≠ ' ')
    (hs : span? (c :: text ps) = none) : Reads [] (consChar c ps) := by
  have single : IsStretch [c] (text ps ++ []) := by
    refine ⟨by simp, by simpa using Ne.symm hc, ?_⟩
    intro a d s hw
    cases a with
    | nil => cases hw; simpa using hs
    | cons b a => cases a <;> cases hw
  cases h with
  | nil => exact .word single (by rw [ofText]; exact not_false) .nil
  | space h => exact .word single not_false (.space h)
  | quoted hq h => exact .word single not_false (.quoted hq h)
  | @word w ps hw hb h =>
    refine .word ⟨by simp, ?_, ?_⟩ hb h
    · simpa [Ne.symm hc] using hw.not_mem_space
    · intro a d s hcw
      cases a with
      | nil => cases hcw; simpa [Piece.text] using hs
      | cons b a => cases hcw; exact hw.span?_eq_none a d s rfl

/-- **A text reads as its pieces.** -/
theorem reads_ofText (t : Text) : Reads [] (ofText t) := by
  fun_induction ofText t with
  | case1 => exact .nil
  | case2 c r p h ih =>
    refine .quoted ?_ ih
    rwa [List.append_nil, text_ofText, ← eq_append_of_span? h]
  | case3 r h ih => exact .space ih
  | case4 c r h hc ih => exact ih.consChar hc (by rwa [text_ofText])

/-! ## What follows -/

/-- What follows may be exchanged for an alike text, if no word grows. -/
theorem Reads.of_alike {u v : Text} {ps : Template} (h : Reads u ps) (ha : Alike u v)
    (hb : BeginsWord (ofText v) → BeginsWord (ofText u)) : Reads v ps := by
  induction h with
  | nil => exact .nil
  | space _ ih => exact .space ih
  | quoted hs _ ih => exact .quoted (span?_append_of_alike (ha.append _) hs) ih
  | @word w ps hw hn _ ih =>
    refine .word ⟨hw.ne_nil, hw.not_mem_space, ?_⟩ ?_ ih
    · intro a c s hacs
      exact span?_eq_none_of_alike (ha.append _) (hw.span?_eq_none a c s hacs)
    · intro hv
      apply hn
      cases ps with
      | nil => exact hb hv
      | cons p ps => cases p <;> exact hv

theorem Reads.of_not_mem {ps : Template} (h : Reads [] ps) {v : Text} (h₁ : '\'' ∉ v) (h₂ : '"' ∉ v) :
    Reads (' ' :: v) ps :=
  h.of_alike (alike_append (by simp [h₁]) (by simp [h₂])) (by rw [ofText_space]; exact False.elim)

/-- Every quote of the pieces lies in a span. -/
def Closed (ps : Template) : Prop := ∀ w, .word w ∈ ps → '\'' ∉ w ∧ '"' ∉ w

theorem Closed.tail {p : Piece} {ps : Template} (h : Closed (p :: ps)) : Closed ps := by
  intro w hw
  exact h w (by simp [hw])

theorem Closed.append {ps qs : Template} (hp : Closed ps) (hq : Closed qs) : Closed (ps ++ qs) := by
  intro w hw
  rcases List.mem_append.1 hw with hw | hw
  · exact hp w hw
  · exact hq w hw

/-- In closed pieces a double quote at the beginning is not the last one. -/
theorem Reads.mem_of_text_eq {ps : Template} (h : Reads [] ps) (hc : Closed ps) {r : Text}
    (ht : text ps = '"' :: r) : '"' ∈ r := by
  cases h with
  | nil => cases ht
  | space => cases ht
  | @quoted q ps hs _ =>
    rw [List.append_nil, show q ++ text ps = '"' :: r from ht] at hs
    by_contra hr
    have hnone : span? ('"' :: r) = none := by
      rw [span?_eq_none_iff]
      simp [hr]
    rw [hnone] at hs
    cases hs
  | @word w ps hw =>
    obtain ⟨c, w, rfl⟩ := List.exists_cons_of_ne_nil hw.ne_nil
    cases ht
    have hw := (hc _ List.mem_cons_self).2
    simp at hw

/-- Closed pieces may be followed by anything in which neither their last name nor their last
    word goes on. -/
theorem Reads.of_closed_of_last {ps : Template} (h : Reads [] ps) (hc : Closed ps) {v : Text}
    (hv : (text ps).getLast? = some '"' → v.head? ≠ some '"') (hb : ¬ BeginsWord (ofText v)) :
    Reads v ps := by
  have hlater : ∀ {p : Piece} {ps : Template},
      ((text (p :: ps)).getLast? = some '"' → v.head? ≠ some '"') →
      (text ps).getLast? = some '"' → v.head? ≠ some '"' := by
    intro p ps hv hlast
    apply hv
    rw [text_cons, List.getLast?_append, hlast]
    rfl
  induction h with
  | nil => exact .nil
  | space _ ih => exact .space (ih hc.tail (hlater hv))
  | @quoted q ps hs hps ih =>
    refine .quoted (span?_append hs ?_) (ih hc.tail (hlater hv))
    intro hq
    -- what stood behind the name did not reopen it, and it had quotes in pairs
    have hnot := not_reopens_of_span? hs hq
    rw [List.append_nil] at hnot
    rintro ⟨r, hr, -⟩
    cases ht : text ps with
    | nil =>
      obtain ⟨c, -, hfirst, hlast⟩ := quotes_of_span? hs
      rw [hfirst] at hq
      rw [ht, List.nil_append] at hr
      rw [text_cons, ht, List.append_nil, hr] at hv
      exact hv (hlast.trans hq) rfl
    | cons c s =>
      rw [ht] at hr
      cases hr
      exact hnot ⟨s, ht, hps.mem_of_text_eq hc.tail ht⟩
  | @word w ps hw hn _ ih =>
    refine .word ⟨hw.ne_nil, hw.not_mem_space, ?_⟩ ?_ (ih hc.tail (hlater hv))
    · intro a c s hacs
      obtain ⟨h₁, h₂⟩ := hc w (by simp)
      exact span?_eq_none_of_not_mem h₁ h₂ hacs _
    · cases ps with
      | nil => exact hb
      | cons p ps => cases p <;> exact hn

/-- Anything may follow closed pieces behind a space. -/
theorem Reads.of_closed {ps : Template} (h : Reads [] ps) (hc : Closed ps) (v : Text) :
    Reads (' ' :: v) ps :=
  h.of_closed_of_last hc (by simp) (by rw [ofText_space]; exact id)

/-- **A text whose quotes are closed is read apart from a span behind it**, unless both quote
    names. -/
theorem ofText_append_span {t : Text} (h : Closed (ofText t)) {q u : Text}
    (hs : span? (q ++ u) = some (q, u)) (hq : t.getLast? = some '"' → q.head? ≠ some '"') :
    ofText (t ++ (q ++ u)) = ofText t ++ .quoted q :: ofText u := by
  have hread := ofText_of_span? hs
  have hhead : t.getLast? = some '"' → (q ++ u).head? ≠ some '"' := by
    rwa [List.head?_append_of_ne_nil _ (ne_nil_of_span? hs)]
  have := ((reads_ofText t).of_closed_of_last h (by rwa [text_ofText])
    (by rw [hread]; exact id)).ofText_append
  rwa [text_ofText, hread] at this

/-- **A text whose quotes are closed is read apart from what follows behind a space.** -/
theorem ofText_append_space {t : Text} (h : Closed (ofText t)) (u : Text) :
    ofText (t ++ ' ' :: u) = ofText t ++ .space :: ofText u := by
  have := ((reads_ofText t).of_closed h u).ofText_append
  rwa [text_ofText, ofText_space] at this

/-- A text without quotes behind a space is read apart from any text in front of it. -/
theorem ofText_append_of_not_mem (t : Text) {u : Text} (h₁ : '\'' ∉ u) (h₂ : '"' ∉ u) :
    ofText (t ++ ' ' :: u) = ofText t ++ .space :: ofText u := by
  have := ((reads_ofText t).of_not_mem h₁ h₂).ofText_append
  rwa [text_ofText, ofText_space] at this

theorem ofText_word {w : Text} (hne : w ≠ []) (hs : ' ' ∉ w) (h₁ : '\'' ∉ w) (h₂ : '"' ∉ w) :
    ofText w = [.word w] := by
  have hw : IsStretch w [] := by
    refine ⟨hne, hs, ?_⟩
    intro a c s hacs
    exact span?_eq_none_of_not_mem h₁ h₂ hacs _
  have := hw.ofText_append (by rw [ofText]; exact id)
  rwa [List.append_nil, ofText] at this

/-! ## Moving ordinals on -/

/-- The pieces with every word changed. -/
def mapWords (f : Text → Text) (ps : Template) : Template :=
  ps.map fun
    | .word t => .word (f t)
    | p => p

theorem isPlain_of_nat? {ds : Text} {n : Nat} (h : Numeral.nat? ds = some n) :
    ∀ c ∈ ds, IsPlain c := by
  intro c hc
  obtain ⟨d, hd⟩ := (Numeral.digit?_of_nat? h).2 c hc
  exact (Text.isPlain_of_digit? hd).1

/-- A number is one word without quotes. -/
theorem not_mem_of_nat? {ds : Text} {n : Nat} (h : Numeral.nat? ds = some n) :
    ' ' ∉ ds ∧ '\'' ∉ ds ∧ '"' ∉ ds := by
  refine ⟨?_, ?_, ?_⟩
  · intro hs
    obtain ⟨d, hd⟩ := (Numeral.digit?_of_nat? h).2 ' ' hs
    exact (Text.isPlain_of_digit? hd).2 rfl
  · intro hq
    exact (isPlain_of_nat? h _ hq).1 rfl
  · intro hq
    exact (isPlain_of_nat? h _ hq).2.1 rfl

theorem alike_digits {u v : Text} (h : Alike u v) {ds es : Text} {n k : Nat}
    (hd : Numeral.nat? ds = some n) (he : Numeral.nat? es = some k) : Alike (ds ++ u) (es ++ v) := by
  apply alike_runs (isPlain_of_nat? hd) (isPlain_of_nat? he) _ _ h
  · exact (Numeral.digit?_of_nat? hd).1
  · exact (Numeral.digit?_of_nat? he).1

theorem alike_shift {u v : Text} (h : Alike u v) (m : Marking) (k : Nat) (w : Text) :
    Alike (w ++ u) (m.shift k w ++ v) := by
  rcases m.shift_cases k w with hw | ⟨n, ds, rfl, hds, hw⟩
  · rw [hw]
    exact h.append w
  · rw [hw, List.append_assoc, List.append_assoc]
    exact (alike_digits h hds (Numeral.nat?_ofNat _)).append _

/-- A word with its ordinal moved on is still one word. -/
theorem IsStretch.shift {w u v : Text} (hw : IsStretch w u) (h : Alike u v) (m : Marking) (k : Nat) :
    IsStretch (m.shift k w) v := by
  rcases m.shift_cases k w with he | ⟨n, ds, rfl, hds, he⟩
  · rw [he]
    refine ⟨hw.ne_nil, hw.not_mem_space, ?_⟩
    intro a c s hacs
    exact span?_eq_none_of_alike h (hw.span?_eq_none a c s hacs)
  · have hes := Numeral.nat?_ofNat (n + k)
    have hruns : Alike (ds ++ u) (Numeral.ofNat (n + k) ++ v) := alike_digits h hds hes
    rw [he]
    generalize Numeral.ofNat (n + k) = es at hes hruns
    have hplain : ∀ {c : Char} {r : Text}, c ∈ es → span? (c :: r) = none := by
      intro c r hc
      obtain ⟨h₁, h₂, -, -⟩ := isPlain_of_nat? hes c hc
      exact span?_eq_none_of_ne h₁ h₂
    refine ⟨by simp [m.ordinalSign_isWord.1], ?_, ?_⟩
    · rw [List.mem_append]
      rintro (hs | hs)
      · exact hw.not_mem_space (List.mem_append_left _ hs)
      · exact (not_mem_of_nat? hes).1 hs
    · intro a c s hacs
      rcases List.append_eq_append_iff.1 hacs with ⟨b, -, hb⟩ | ⟨b, hb, hcs⟩
      · exact hplain (by simp [hb])
      · cases b with
        | nil => exact hplain (List.nil_append es ▸ hcs ▸ List.mem_cons_self)
        | cons e b =>
          -- the quote stands in the sign: behind it only the run of digits changed
          obtain ⟨rfl, rfl⟩ := List.cons.inj (show c :: s = e :: (b ++ es) from hcs)
          have hnone := hw.span?_eq_none a c (b ++ ds) (by rw [hb]; simp)
          rw [List.append_assoc] at hnone ⊢
          exact span?_eq_none_of_alike hruns hnone

/-- **Moving the ordinals of a text on keeps its pieces apart from the ordinals.** -/
theorem reads_shifted {ps : Template} (h : Reads [] ps) (m : Marking) (k : Nat) :
    Reads [] (mapWords (m.shift k) ps) ∧ Alike (text ps) (text (mapWords (m.shift k) ps)) := by
  induction h with
  | nil => exact ⟨.nil, .refl _⟩
  | space _ ih => exact ⟨.space ih.1, ih.2.append _⟩
  | quoted hs _ ih =>
    refine ⟨.quoted ?_ ih.1, ih.2.append _⟩
    rw [List.append_nil] at hs ⊢
    exact span?_append_of_alike ih.2 hs
  | @word w ps hw hn _ ih =>
    refine ⟨.word ?_ ?_ ih.1, alike_shift ih.2 m k w⟩
    · rw [List.append_nil] at hw ⊢
      exact hw.shift ih.2 m k
    · cases ps with
      | nil => exact hn
      | cons p ps => cases p <;> exact hn

/-- Moving the ordinals of a text on does so in its words, and cuts none anew. -/
theorem ofText_movedOn (m : Marking) (k : Nat) (t : Text) :
    ofText (movedOn m k t) = mapWords (m.shift k) (ofText t) := by
  have htext : movedOn m k t = text (mapWords (m.shift k) (ofText t)) := by
    unfold movedOn substitute text mapWords
    rw [List.flatMap_map]
    congr 1
    funext p
    cases p with
    | word w =>
      by_cases hw : m.isPlaceholder w
      · simp [hw, Piece.text]
      · simp [hw, Piece.text, Marking.shift_of_not_isPlaceholder k hw]
    | space | quoted => rfl
  rw [htext, (reads_shifted (reads_ofText t) m k).1.ofText_text]

end Template

end SqlCompose
