/-
  Tokens — which stretches of a text are taken for placeholders.

  A text is cut at its spans as well as at its spaces, so a span may stand right in front of
  a placeholder or right behind it.

  * `marked` tells the characters of the spans from the others, and `wordsFrom` are the words of
    a template with their places;
  * `Reads.exists_word` and `Reads.isBorder_of_word`: the words are the stretches outside the
    spans that only spaces and spans border on;
  * `IsApart` says this of a place of a text, `IsWhole` that only spaces border on it, and
    `IsTouched` that a span does;
  * `visited` are the placeholders with their places, and `visited_apart` puts these together.
-/
import SqlCompose.Proofs.Weaving

namespace SqlCompose

theorem Marking.not_mem_space_of_isPlaceholder {m : Marking} {w : Text}
    (h : m.isPlaceholder w = true) : ' ' ∉ w := by
  rcases isPlaceholder_iff.1 h with ⟨n, hn⟩ | ⟨name, hname⟩
  · obtain ⟨ds, rfl, hds⟩ := ordinal?_eq_some_iff.1 hn
    rw [List.mem_append]
    rintro (hs | hs)
    · exact m.ordinalSign_isWord.not_mem_space hs
    · exact (Template.not_mem_of_nat? hds).1 hs
  · obtain ⟨rfl, hword⟩ := name?_eq_some_iff.1 hname
    exact (m.namedSign_isWord.append hword.2).not_mem_space

/-- The characters of a piece, each with whether it lies in a span. -/
def Piece.marked : Piece → List (Char × Bool)
  | word w => w.map (·, false)
  | space => [(' ', false)]
  | quoted q => q.map (·, true)

namespace Template

/-! ## Marked texts -/

/-- The characters of a text, each with whether it lies in a span. -/
def marked : Text → List (Char × Bool)
  | [] => []
  | c :: r =>
    match _h : span? (c :: r) with
    | some p => p.1.map (·, true) ++ marked p.2
    | none => (c, false) :: marked r
termination_by t => t.length
decreasing_by
  · exact length_of_span? _h
  · exact Nat.lt_succ_self r.length

/-- The marked characters of the pieces. -/
def marks (ps : Template) : List (Char × Bool) := ps.flatMap Piece.marked

theorem marks_cons (p : Piece) (ps : Template) : marks (p :: ps) = p.marked ++ marks ps := rfl

theorem marks_append (ps qs : Template) : marks (ps ++ qs) = marks ps ++ marks qs :=
  List.flatMap_append

theorem marks_consChar (c : Char) (ps : Template) :
    marks (consChar c ps) = (c, false) :: marks ps := by
  unfold consChar
  split <;> rfl

theorem marks_ofText (t : Text) : marks (ofText t) = marked t := by
  fun_induction marked t with
  | case1 => rw [ofText]; rfl
  | case2 c r p h ih => rw [ofText_of_span? h, marks_cons, ih]; rfl
  | case3 c r h ih =>
    rw [ofText_of_span?_eq_none h]
    split
    · next hc => rw [marks_cons, ih, hc]; rfl
    · rw [marks_consChar, ih]

theorem map_fst_marks (ps : Template) : (marks ps).map Prod.fst = text ps := by
  induction ps with
  | nil => rfl
  | cons p ps ih =>
    rw [marks_cons, List.map_append, ih, text_cons]
    cases p <;> simp [Piece.marked, Piece.text, Function.comp_def]

/-- Without the marks a marked text is the text. -/
theorem map_fst_marked (t : Text) : (marked t).map Prod.fst = t := by
  rw [← marks_ofText, map_fst_marks, text_ofText]

theorem length_marks (ps : Template) : (marks ps).length = (text ps).length := by
  rw [← map_fst_marks, List.length_map]

/-! ## Words and their places -/

/-- The words of a template with their places, the first piece being at place `k`. -/
def wordsFrom (k : Nat) : Template → List (Nat × Text)
  | [] => []
  | .word w :: ps => (k, w) :: wordsFrom (k + w.length) ps
  | p :: ps => wordsFrom (k + p.text.length) ps

theorem mem_wordsFrom (k : Nat) (ps : Template) (w : Text) (qs : Template) :
    (k + (text ps).length, w) ∈ wordsFrom k (ps ++ .word w :: qs) := by
  induction ps generalizing k with
  | nil => exact List.mem_cons_self
  | cons p ps ih =>
    have := ih (k + p.text.length)
    rw [Nat.add_assoc, ← List.length_append, ← text_cons] at this
    cases p with
    | word v => exact List.mem_cons_of_mem _ this
    | space | quoted => exact this

theorem exists_of_mem_wordsFrom {k i : Nat} {w : Text} {ps : Template}
    (h : (i, w) ∈ wordsFrom k ps) :
    ∃ qs rs, ps = qs ++ .word w :: rs ∧ i = k + (text qs).length := by
  induction ps generalizing k with
  | nil => cases h
  | cons p ps ih =>
    have hlater : (i, w) ∈ wordsFrom (k + p.text.length) ps →
        ∃ qs rs, p :: ps = qs ++ .word w :: rs ∧ i = k + (text qs).length := by
      intro h
      obtain ⟨qs, rs, rfl, rfl⟩ := ih h
      refine ⟨p :: qs, rs, rfl, ?_⟩
      rw [text_cons, List.length_append, Nat.add_assoc]
    cases p with
    | word v =>
      rcases List.mem_cons.1 h with h | h
      · cases h
        exact ⟨[], ps, rfl, rfl⟩
      · exact hlater h
    | space | quoted => exact hlater h

/-- The words are listed in the order of the text, and none overlaps another. -/
theorem pairwise_wordsFrom (k : Nat) (ps : Template) :
    (wordsFrom k ps).Pairwise fun v v' => v.1 + v.2.length ≤ v'.1 := by
  induction ps generalizing k with
  | nil => exact .nil
  | cons p ps ih =>
    cases p with
    | word w =>
      refine .cons ?_ (ih _)
      rintro ⟨i, v⟩ hv
      obtain ⟨qs, rs, -, rfl⟩ := exists_of_mem_wordsFrom hv
      exact Nat.le_add_right _ _
    | space | quoted => exact ih _

/-! ## What borders on a word -/

/-- What borders on a word: a space, or a quote that belongs to a span. -/
def IsBorder : Char × Bool → Prop
  | (c, false) => c = ' '
  | (c, true) => c = '\'' ∨ c = '"'

theorem Reads.of_append {rest : Text} {ps qs : Template} (h : Reads rest (ps ++ qs)) :
    Reads rest qs := by
  induction ps with
  | nil => exact h
  | cons p ps ih =>
    cases h with
    | space h | quoted _ h | word _ _ h => exact ih h

theorem Reads.isBorder_head {ps : Template} (h : Reads [] ps) (hb : ¬ BeginsWord ps) :
    ∀ e ∈ (marks ps).head?, IsBorder e := by
  intro e he
  cases h with
  | nil => cases he
  | space => cases he; rfl
  | @quoted q ps hs =>
    obtain ⟨c, hc, hfirst, -⟩ := quotes_of_span? hs
    obtain ⟨r, rfl⟩ := List.head?_eq_some_iff.1 hfirst
    cases he
    exact hc
  | word => exact absurd trivial hb

theorem Reads.isBorder_getLast {ps : Template} {w : Text} {qs : Template}
    (h : Reads [] (ps ++ .word w :: qs)) : ∀ e ∈ (marks ps).getLast?, IsBorder e := by
  intro e he
  rcases List.eq_nil_or_concat' ps with rfl | ⟨ps, p, rfl⟩
  · cases he
  rw [List.append_assoc] at h
  rw [marks_append] at he
  cases h.of_append with
  | space =>
    cases List.getLast?_concat.symm.trans he
    rfl
  | @quoted q _ hs =>
    obtain ⟨c, hc, -, hlast⟩ := quotes_of_span? hs
    have hmarks : marks [.quoted q] = q.map (·, true) := List.append_nil _
    rw [List.getLast?_append, hmarks, List.getLast?_map, hlast] at he
    cases he
    exact hc
  | word _ hb => exact absurd trivial hb

/-- **Only spaces and spans border on a word.** -/
theorem Reads.isBorder_of_word {ps : Template} {w : Text} {qs : Template}
    (h : Reads [] (ps ++ .word w :: qs)) :
    (∀ e ∈ (marks ps).getLast?, IsBorder e) ∧ ∀ e ∈ (marks qs).head?, IsBorder e := by
  refine ⟨h.isBorder_getLast, ?_⟩
  cases h.of_append with
  | word _ hb h =>
    rw [ofText, List.append_nil] at hb
    exact h.isBorder_head hb

/-- Of two rows that are equal, either the first part of one begins with that of the other, or
    it goes on behind it. -/
theorem append_eq_append_cases {α : Type} {a b c d : List α} (h : a ++ b = c ++ d) :
    (∃ z, c = a ++ z ∧ b = z ++ d) ∨ ∃ e z, a = c ++ e :: z ∧ d = e :: (z ++ b) := by
  rcases List.append_eq_append_iff.1 h with h | ⟨z, ha, hd⟩
  · exact .inl h
  · cases z with
    | nil => exact .inl ⟨[], by simp [ha], by simp [hd]⟩
    | cons e z => exact .inr ⟨e, z, ha, hd⟩

/-- A word at the beginning is as long as the stretch there. -/
theorem Reads.eq_of_stretch {v w : Text} {ps : Template} (h : Reads [] (.word v :: ps))
    (hs : ' ' ∉ w) {y : List (Char × Bool)}
    (hps : v.map (·, false) ++ marks ps = w.map (·, false) ++ y)
    (hy : ∀ c, y.head? = some (c, false) → c = ' ') : v = w := by
  cases h with
  | word hv hb h =>
    rw [ofText, List.append_nil] at hb
    have hinj : Function.Injective fun c : Char => (c, false) := fun _ _ h => congrArg Prod.fst h
    rcases append_eq_append_cases hps with ⟨z, hw, hrest⟩ | ⟨e, z, hvw, hrest⟩
    · cases z with
      | nil => exact hinj.list_map (by simpa using hw.symm)
      | cons e z =>
        -- the stretch would go on with a character that borders on the word
        obtain ⟨c, hc, rfl⟩ : ∃ c ∈ w, (c, false) = e := List.mem_map.1 (hw ▸ by simp)
        have := h.isBorder_head hb (c, false) (by rw [hrest]; rfl)
        cases this
        exact absurd hc hs
    · -- the word would go on with a character that borders on the stretch
      obtain ⟨c, hc, rfl⟩ : ∃ c ∈ v, (c, false) = e := List.mem_map.1 (hvw ▸ by simp)
      have := hy c (by rw [hrest]; rfl)
      cases this
      exact absurd hc hv.not_mem_space

/-- **A stretch outside the spans that only spaces and spans border on is a word.** -/
theorem Reads.exists_word {ps : Template} (h : Reads [] ps) {w : Text} (hne : w ≠ [])
    (hs : ' ' ∉ w) {x y : List (Char × Bool)} (hps : marks ps = x ++ (w.map (·, false) ++ y))
    (hx : ∀ c, x.getLast? = some (c, false) → c = ' ')
    (hy : ∀ c, y.head? = some (c, false) → c = ' ') :
    ∃ qs rs, ps = qs ++ .word w :: rs ∧ marks qs = x := by
  induction ps generalizing x with
  | nil =>
    simp [marks, hne] at hps
  | cons p ps ih =>
    rw [marks_cons] at hps
    rcases append_eq_append_cases hps with ⟨z, rfl, hz⟩ | ⟨e, z, hp, hw⟩
    · have hlast : ∀ c, z.getLast? = some (c, false) → c = ' ' := by
        intro c hc
        apply hx
        rw [List.getLast?_append, hc]
        rfl
      obtain ⟨qs, rs, rfl, rfl⟩ := ih (@Reads.of_append [] [p] ps h) hz hlast
      exact ⟨p :: qs, rs, rfl, rfl⟩
    · -- the stretch begins inside the piece
      obtain ⟨c, w, rfl⟩ := List.exists_cons_of_ne_nil hne
      obtain rfl : (c, false) = e := (List.cons.inj hw).1
      have hmem : (c, false) ∈ p.marked := by simp [hp]
      cases p with
      | space =>
        cases List.mem_singleton.1 hmem
        simp at hs
      | quoted q => simp [Piece.marked] at hmem
      | word v =>
        have hv : ∀ d ∈ v, d ≠ ' ' := by
          rintro d hd rfl
          cases h with
          | word hv => exact hv.not_mem_space hd
        rcases List.eq_nil_or_concat' x with rfl | ⟨x, e, rfl⟩
        · exact ⟨[], ps, by rw [h.eq_of_stretch hs hps hy]; rfl, rfl⟩
        · rw [Piece.marked] at hp
          obtain ⟨d, hd, rfl⟩ : ∃ d ∈ v, (d, false) = e := List.mem_map.1 (hp ▸ by simp)
          exact absurd (hx d List.getLast?_concat) (hv d hd)

/-! ## Places of a text -/

/-- At place `i` of a text stands `w`, no part of it in a span, and only spaces and spans
    border on it. -/
structure IsApart (t : Text) (i : Nat) (w : Text) : Prop where
  outside : w.map (·, false) <+: (marked t).drop i
  before : ∀ c, ((marked t).take i).getLast? = some (c, false) → c = ' '
  behind : ∀ c, ((marked t).drop (i + w.length)).head? = some (c, false) → c = ' '

/-- At place `i` of a text stands `w`, no part of it in a span, between spaces or the ends of
    the text. -/
structure IsWhole (t : Text) (i : Nat) (w : Text) : Prop where
  outside : w.map (·, false) <+: (marked t).drop i
  before : ∀ c ∈ (t.take i).getLast?, c = ' '
  behind : ∀ c ∈ (t.drop (i + w.length)).head?, c = ' '

/-- A span ends right in front of `w` at place `i` of a text, or begins right behind it. -/
def IsTouched (t : Text) (i : Nat) (w : Text) : Prop :=
  ∃ c, ((marked t).take i).getLast? = some (c, true) ∨
    ((marked t).drop (i + w.length)).head? = some (c, true)

variable {t w : Text} {i : Nat}

theorem getLast?_take_eq (t : Text) (i : Nat) :
    (t.take i).getLast? = ((marked t).take i).getLast?.map Prod.fst := by
  rw [← List.getLast?_map, List.map_take, map_fst_marked]

theorem head?_drop_eq (t : Text) (i : Nat) :
    (t.drop i).head? = ((marked t).drop i).head?.map Prod.fst := by
  rw [← List.head?_map, List.map_drop, map_fst_marked]

/-- What a marked text is in front of a word, and from its end on. -/
theorem marked_of_word {qs rs : Template} (h : ofText t = qs ++ .word w :: rs) :
    (marked t).take (text qs).length = marks qs ∧
      (marked t).drop (text qs).length = w.map (·, false) ++ marks rs ∧
      (marked t).drop ((text qs).length + w.length) = marks rs := by
  have hm : marked t = marks qs ++ (w.map (·, false) ++ marks rs) := by
    rw [← marks_ofText, h, marks_append]
    rfl
  have hdrop : (marked t).drop (text qs).length = w.map (·, false) ++ marks rs := by
    rw [hm, ← length_marks, List.drop_left]
  refine ⟨?_, hdrop, ?_⟩
  · rw [hm, ← length_marks, List.take_left]
  · rw [← List.drop_drop, hdrop, List.drop_left' (List.length_map _)]

/-- **The words of a text are what stands apart in it.** -/
theorem isApart_iff (hne : w ≠ []) (hs : ' ' ∉ w) :
    IsApart t i w ↔ ∃ qs rs, ofText t = qs ++ .word w :: rs ∧ i = (text qs).length := by
  constructor
  · rintro ⟨⟨y, hy⟩, hbefore, hbehind⟩
    have hm : marks (ofText t) = (marked t).take i ++ (w.map (·, false) ++ y) := by
      rw [marks_ofText, hy, List.take_append_drop]
    have hrest : (marked t).drop (i + w.length) = y := by
      rw [← List.drop_drop, ← hy, List.drop_left' (List.length_map _)]
    rw [hrest] at hbehind
    obtain ⟨qs, rs, hqs, hmarks⟩ := (reads_ofText t).exists_word hne hs hm hbefore hbehind
    refine ⟨qs, rs, hqs, ?_⟩
    have hi : i ≤ (marked t).length := by
      by_contra hlt
      rw [List.drop_eq_nil_of_le (by omega)] at hy
      simp [hne] at hy
    rw [← length_marks, hmarks, List.length_take, Nat.min_eq_left hi]
  · rintro ⟨qs, rs, h, rfl⟩
    obtain ⟨htake, hdrop, hrest⟩ := marked_of_word h
    obtain ⟨hbefore, hbehind⟩ := (h ▸ reads_ofText t).isBorder_of_word
    refine ⟨by rw [hdrop]; exact List.prefix_append _ _, ?_, ?_⟩
    · intro c hc
      exact hbefore (c, false) (htake ▸ hc)
    · intro c hc
      exact hbehind (c, false) (hrest ▸ hc)

/-- What touches a word is a quote. -/
theorem IsApart.not_isWhole (h : IsApart t i w) (hne : w ≠ []) (hs : ' ' ∉ w)
    (ht : IsTouched t i w) : ¬ IsWhole t i w := by
  intro hw
  obtain ⟨qs, rs, hqs, rfl⟩ := (isApart_iff hne hs).1 h
  obtain ⟨htake, -, hrest⟩ := marked_of_word hqs
  obtain ⟨hbefore, hbehind⟩ := (hqs ▸ reads_ofText t).isBorder_of_word
  obtain ⟨c, hc | hc⟩ := ht
  · have hspace := hw.before c (by rw [getLast?_take_eq, hc]; rfl)
    have hquote := hbefore (c, true) (htake ▸ hc)
    subst hspace
    simp [IsBorder] at hquote
  · have hspace := hw.behind c (by rw [head?_drop_eq, hc]; rfl)
    have hquote := hbehind (c, true) (hrest ▸ hc)
    subst hspace
    simp [IsBorder] at hquote

theorem IsWhole.isApart (h : IsWhole t i w) : IsApart t i w where
  outside := h.outside
  before c hc := h.before c (by rw [getLast?_take_eq, hc]; rfl)
  behind c hc := h.behind c (by rw [head?_drop_eq, hc]; rfl)

/-- **What stands apart is a token of its own iff no span touches it.** -/
theorem IsApart.isWhole_iff (h : IsApart t i w) (hne : w ≠ []) (hs : ' ' ∉ w) :
    IsWhole t i w ↔ ¬ IsTouched t i w := by
  refine ⟨fun hw ht => h.not_isWhole hne hs ht hw, fun ht => ⟨h.outside, ?_, ?_⟩⟩
  · intro c hc
    rw [getLast?_take_eq] at hc
    obtain ⟨⟨c, b⟩, he, rfl⟩ := Option.map_eq_some_iff.1 hc
    cases b with
    | false => exact h.before c he
    | true => exact absurd ⟨c, .inl he⟩ ht
  · intro c hc
    rw [head?_drop_eq] at hc
    obtain ⟨⟨c, b⟩, he, rfl⟩ := Option.map_eq_some_iff.1 hc
    cases b with
    | false => exact h.behind c he
    | true => exact absurd ⟨c, .inr he⟩ ht

/-! ## Placeholders and their places -/

/-- The placeholders of a text with their places. -/
def visited (m : Marking) (t : Text) : List (Nat × Text) :=
  (wordsFrom 0 (ofText t)).filter fun v => m.isPlaceholder v.2

variable {m : Marking}

theorem ne_nil_of_isPlaceholder (h : m.isPlaceholder w = true) : w ≠ [] := by
  rintro rfl
  exact absurd (Marking.two_le_length_of_isPlaceholder h) (by simp)

theorem map_snd_filter_wordsFrom (m : Marking) (k : Nat) (ps : Template) :
    ((wordsFrom k ps).filter fun v => m.isPlaceholder v.2).map Prod.snd = placeholders m ps := by
  induction ps generalizing k with
  | nil => rfl
  | cons p ps ih =>
    cases p with
    | word w =>
      rw [wordsFrom, List.filter_cons, placeholders_word]
      split
      · rw [List.map_cons, ih]
      · exact ih _
    | space | quoted => exact ih _

/-- **The placeholders are what stands apart and is written like one.** -/
theorem mem_visited_iff : (i, w) ∈ visited m t ↔ m.isPlaceholder w = true ∧ IsApart t i w := by
  rw [visited, List.mem_filter, and_comm]
  refine and_congr_right fun h => ?_
  rw [isApart_iff (ne_nil_of_isPlaceholder h) (Marking.not_mem_space_of_isPlaceholder h)]
  constructor
  · intro hi
    obtain ⟨qs, rs, hqs, rfl⟩ := exists_of_mem_wordsFrom hi
    exact ⟨qs, rs, hqs, Nat.zero_add _⟩
  · rintro ⟨qs, rs, hqs, rfl⟩
    rw [hqs, ← Nat.zero_add (text qs).length]
    exact mem_wordsFrom 0 qs w rs

/-- **Placeholders are the tokens that are written like one, apart from spans that touch
    them.**  With their places, the placeholders of a text come one behind the other, and each
    is replaced once.  They are exactly the texts written like a placeholder that stand outside
    the spans with only spaces and spans in front of them and behind them.  So every such token
    between spaces or the ends of the text is one of them, and one of them is such a token
    exactly if no span touches it. -/
theorem visited_apart (m : Marking) (t : Text) :
    (visited m t).map Prod.snd = placeholders m (ofText t) ∧
      ((visited m t).Pairwise fun v v' => v.1 + v.2.length ≤ v'.1) ∧
      (∀ f, substitute m f (ofText t) =
        woven (gaps m (ofText t)) ((visited m t).map fun v => f v.2)) ∧
      (∀ i w, (i, w) ∈ visited m t ↔ m.isPlaceholder w = true ∧ IsApart t i w) ∧
      (∀ i w, m.isPlaceholder w = true → IsWhole t i w → (i, w) ∈ visited m t) ∧
      ∀ i w, (i, w) ∈ visited m t → (IsWhole t i w ↔ ¬ IsTouched t i w) := by
  have hsnd : (visited m t).map Prod.snd = placeholders m (ofText t) :=
    map_snd_filter_wordsFrom m 0 (ofText t)
  refine ⟨hsnd, (pairwise_wordsFrom 0 (ofText t)).filter _, ?_, fun _ _ => mem_visited_iff, ?_, ?_⟩
  · intro f
    rw [substitute_eq_woven, ← hsnd, List.map_map]
    rfl
  · intro i w h hw
    exact mem_visited_iff.2 ⟨h, hw.isApart⟩
  · intro i w h
    obtain ⟨h, hw⟩ := mem_visited_iff.1 h
    exact hw.isWhole_iff (ne_nil_of_isPlaceholder h) (Marking.not_mem_space_of_isPlaceholder h)

/-- Between two spans that hold texts like placeholders, the token between spaces is the only
    placeholder. -/
theorem visited_apart_between_spans :
    let t : Text := "'$$1 ' $?x \" $$2 \""
    let w : Text := "$?x"
    Marking.standard.isPlaceholder w = true ∧ IsWhole t 7 w ∧ (7, w) ∈ visited .standard t ∧
      ¬ IsTouched t 7 w ∧ visited .standard t = [(7, w)] := by
  intro t w
  have hw : Marking.standard.isPlaceholder w = true := by decide +kernel
  have hbefore : (t.take 7).getLast? = some ' ' := by decide +kernel
  have hbehind : (t.drop (7 + w.length)).head? = some ' ' := by decide +kernel
  have hwhole : IsWhole t 7 w := by
    refine ⟨by decide +kernel, ?_, ?_⟩
    · rw [hbefore]
      simp
    · rw [hbehind]
      simp
  obtain ⟨-, -, -, -, hmem, hiff⟩ := visited_apart .standard t
  have hvisited := hmem 7 w hw hwhole
  exact ⟨hw, hwhole, hvisited, (hiff 7 w hvisited).1 hwhole, by decide +kernel⟩

/-- **A placeholder that a literal touches is no token of its own**, and is replaced for all
    that. -/
theorem visited_behind_literal :
    let t : Text := "'a'$$1"
    visited .standard t = [(3, "$$1".toList)] ∧ (t.take 3).getLast? = some '\'' ∧
      ¬ IsWhole t 3 "$$1" ∧
      substitute .standard (fun _ => "b") (ofText t) = "'a'b".toList := by
  intro t
  have hlast : (t.take 3).getLast? = some '\'' := by decide +kernel
  refine ⟨by decide +kernel, hlast, ?_, by decide +kernel⟩
  intro h
  exact absurd (h.before _ hlast) (by decide)

end Template

end SqlCompose
