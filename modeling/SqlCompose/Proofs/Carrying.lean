/-
  Carrying — which placeholders the fragments of a statement carry.

  `Carries t ms` says that a fragment is read with its quotes closed and with the
  placeholders `ms`, in order.  Such fragments may be joined by spaces, so a
  statement carries what its tokens carry.

  * `within_literal`, `within_identifier` and `within_qualified`: outside their spans
    literals and names have stars and dots at most, whatever they hold, and so they carry
    nothing;
  * `Carries.group`, `CarryAll.list`, `CarryAll.body` and `carries_render` say what
    is carried by what is put together;
  * `Carries.movedOn`: moving the ordinals on moves what is carried.
-/
import SqlCompose.Proofs.Filling
import SqlCompose.Statement

namespace SqlCompose.Template

open Fragment

/-! ## Texts that carry nothing -/

/-- A character that neither opens a span nor begins a placeholder. -/
def IsBare (c : Char) : Prop := c ≠ '\'' ∧ c ≠ '"' ∧ c ≠ '$'

instance (c : Char) : Decidable (IsBare c) := inferInstanceAs (Decidable (_ ∧ _ ∧ _))

instance (t : Text) : Decidable (∀ c ∈ t, IsBare c) := List.decidableBAll _ t

/-- The characters of the words. -/
def outside (ps : Template) : Text :=
  ps.flatMap fun
    | .word t => t
    | _ => []

/-- A text that has bare characters only outside its spans. -/
def Inert (t : Text) : Prop := ∀ c ∈ outside (ofText t), IsBare c

theorem outside_consChar (c : Char) (ps : Template) : outside (consChar c ps) = c :: outside ps := by
  unfold consChar
  split <;> rfl

/-- A text whose characters outside its spans are all among those that satisfy `P`. -/
def Within (P : Char → Prop) (t : Text) : Prop := ∀ c ∈ outside (ofText t), P c

variable {P : Char → Prop}

theorem within_nil (P : Char → Prop) : Within P [] := by
  intro c hc
  rw [ofText] at hc
  cases hc

theorem Within.cons {c : Char} {t : Text} (ht : Within P t) (hc : P c) (h₁ : c ≠ '\'')
    (h₂ : c ≠ '"') : Within P (c :: t) := by
  intro d hd
  rw [ofText_of_span?_eq_none (span?_eq_none_of_ne h₁ h₂)] at hd
  split at hd
  · exact ht d hd
  · rw [outside_consChar] at hd
    rcases List.mem_cons.1 hd with rfl | hd
    · exact hc
    · exact ht d hd

theorem Within.span {q u : Text} (h : span? (q ++ u) = some (q, u)) (hu : Within P u) :
    Within P (q ++ u) := by
  intro c hc
  rw [ofText_of_span? h] at hc
  exact hu c hc

theorem inert_nil : Inert [] := within_nil IsBare

theorem Inert.cons {c : Char} {t : Text} (ht : Inert t) (hc : IsBare c) : Inert (c :: t) :=
  Within.cons ht hc hc.1 hc.2.1

theorem Inert.append {s t : Text} (hs : ∀ c ∈ s, IsBare c) (ht : Inert t) : Inert (s ++ t) := by
  induction s with
  | nil => exact ht
  | cons c s ih =>
    have hrest : ∀ d ∈ s, IsBare d := by
      intro d hd
      exact hs d (by simp [hd])
    exact (ih hrest).cons (hs c (by simp))

theorem inert_of_isBare {t : Text} (h : ∀ c ∈ t, IsBare c) : Inert t := by
  have := Inert.append h inert_nil
  rwa [List.append_nil] at this

/-! ## Literals and names -/

theorem literalTail?_escape (t u : Text) :
    literalTail? (escape t ++ '\'' :: u) = some (escape t ++ ['\''], u) := by
  induction t with
  | nil => simp [escape, literalTail?]
  | cons c t ih =>
    rw [escape, List.flatMap_cons, ← escape]
    by_cases hc : c = '\\' ∨ c = '\'' ∨ c = '"'
    · have hn : c ≠ '\n' := by rintro rfl; simp at hc
      simp [hc, literalTail?, hn, ih]
    · have h := not_or.1 hc
      rw [if_neg hc, List.singleton_append, List.cons_append, literalTail?_cons h.1,
        if_neg (not_or.1 h.2).1, ih]
      rfl

/-- An escaped text is no literal yet: it begins with no quote. -/
theorem not_wrappedIn_escape (t : Text) : ¬ Text.WrappedIn '\'' (escape t) := by
  rintro ⟨-, hhead, -⟩
  cases t with
  | nil => cases hhead
  | cons c t =>
    rw [escape, List.flatMap_cons] at hhead
    split at hhead
    · cases hhead
    · next hc =>
      cases hhead
      exact hc (by simp)

/-- A literal is a span. -/
theorem span?_literal (t : Text) : span? (literal (escape t)) = some (literal (escape t), []) := by
  rw [literal, if_neg (not_wrappedIn_escape t)]
  simp [span?, literalTail?_escape]

theorem within_literal (P : Char → Prop) (t : Text) : Within P (literal (escape t)) := by
  have h : span? (literal (escape t) ++ []) = some (literal (escape t), []) := by
    rw [List.append_nil, span?_literal]
  rw [← List.append_nil (literal (escape t))]
  exact (within_nil P).span h

theorem inert_literal (t : Text) : Inert (literal (escape t)) := within_literal IsBare t

theorem nameTail?_double (n : Text) {u : Text} (h : ¬ Reopens u) :
    nameTail? (Text.double '"' n ++ '"' :: u) = some (Text.double '"' n ++ ['"'], u) := by
  induction n with
  | nil => exact nameTail?_quote h
  | cons c n ih =>
    rw [Text.double, List.flatMap_cons, ← Text.double]
    by_cases hc : c = '"'
    · rw [if_pos hc]
      exact nameTail?_doubled ih
    · rw [if_neg hc, List.singleton_append, List.cons_append, nameTail?_cons hc, ih]
      rfl

/-- A name is read as a span of its own, or is the star. -/
theorem within_identifier (hstar : P '*') {n u : Text} (hn : ¬ Text.WrappedIn '"' n)
    (hr : ¬ Reopens u) (hu : Within P u) : Within P (identifier n ++ u) := by
  by_cases he : n = ['*']
  · subst he
    exact hu.cons hstar (by decide) (by decide)
  · refine hu.span ?_
    rw [identifier, if_neg (by simp [he, hn])]
    simp [span?, nameTail?_double n hr]

/-- Outside its spans a path has dots and stars only. -/
theorem within_qualified (hstar : P '*') (hdot : P '.') {path : List Text}
    (h : ∀ n ∈ path, ¬ Text.WrappedIn '"' n) : Within P (qualified path) := by
  induction path with
  | nil => exact within_nil P
  | cons n path ih =>
    have hn := h n (by simp)
    cases path with
    | nil =>
      rw [qualified, List.map_singleton, List.intercalate_singleton, ← List.append_nil (identifier n)]
      exact within_identifier hstar hn not_reopens_nil (within_nil P)
    | cons n' path =>
      have hpath : ∀ k ∈ n' :: path, ¬ Text.WrappedIn '"' k := by
        intro k hk
        exact h k (List.mem_cons_of_mem n hk)
      have hrest := (ih hpath).cons hdot (by decide) (by decide)
      have hopen := not_reopens_cons (by simp : '.' ≠ '"') (qualified (n' :: path))
      exact within_identifier hstar hn hopen hrest

theorem inert_identifier {n u : Text} (hn : ¬ Text.WrappedIn '"' n) (hr : ¬ Reopens u)
    (hu : Inert u) : Inert (identifier n ++ u) :=
  within_identifier (P := IsBare) (by decide) hn hr hu

theorem inert_qualified {path : List Text} (h : ∀ n ∈ path, ¬ Text.WrappedIn '"' n) :
    Inert (qualified path) :=
  within_qualified (P := IsBare) (by decide) (by decide) h

/-! ## What a fragment carries -/

/-- A fragment is read with its quotes closed and with the placeholders `ms`. -/
structure Carries (t : Text) (ms : List Text) : Prop where
  closed : Closed (ofText t)
  placeholders_eq : placeholders .standard (ofText t) = ms

theorem mem_of_isPlaceholder {w : Text} (h : Marking.standard.isPlaceholder w = true) : '$' ∈ w := by
  rcases Marking.isPrefix_of_isPlaceholder h with hs | hs
  · exact hs.subset (by simp [Marking.standard])
  · exact hs.subset (by simp [Marking.standard])

theorem Inert.carries {t : Text} (h : Inert t) : Carries t [] := by
  have hmem : ∀ {w : Text} {c : Char}, .word w ∈ ofText t → c ∈ w → IsBare c := by
    intro w c hw hc
    exact h c (List.mem_flatMap.2 ⟨_, hw, hc⟩)
  constructor
  · intro w hw
    constructor
    · intro hc
      exact (hmem hw hc).1 rfl
    · intro hc
      exact (hmem hw hc).2.1 rfl
  · apply placeholders_eq_nil
    intro w hw h'
    exact (hmem hw (mem_of_isPlaceholder h')).2.2 rfl

theorem carries_marker {t : Text} (h : Marking.standard.isPlaceholder t = true) (hs : ' ' ∉ t)
    (h₁ : '\'' ∉ t) (h₂ : '"' ∉ t) : Carries t [t] := by
  have hne : t ≠ [] := by
    rintro rfl
    exact absurd (Marking.two_le_length_of_isPlaceholder h) (by simp)
  have ht := ofText_word hne hs h₁ h₂
  constructor
  · rw [ht]
    intro w hw
    cases List.mem_singleton.1 hw
    exact ⟨h₁, h₂⟩
  · rw [ht, placeholders_word, if_pos h]
    rfl

/-! ## Joining -/

variable {t u : Text} {ms ns : List Text}

theorem Carries.append_space (ht : Carries t ms) (hu : Carries u ns) :
    Carries (t ++ ' ' :: u) (ms ++ ns) := by
  have hread := ofText_append_space ht.closed u
  constructor
  · rw [hread]
    apply ht.closed.append
    intro w hw
    rcases List.mem_cons.1 hw with hw | hw
    · cases hw
    · exact hu.closed w hw
  · rw [hread, placeholders_append, placeholders_space, ht.placeholders_eq, hu.placeholders_eq]

theorem Carries.append_comma (ht : Carries t ms) (hu : Carries u ns) :
    Carries (t ++ comma ++ u) (ms ++ ns) := by
  have hcomma : Carries [','] [] := (inert_of_isBare (by simp [IsBare])).carries
  have := ht.append_space (hcomma.append_space hu)
  rwa [List.nil_append, show t ++ ' ' :: ([','] ++ ' ' :: u) = t ++ comma ++ u by simp [comma]] at this

theorem Carries.group (ht : Carries t ms) : Carries (group t) ms := by
  have hopen : Carries ['('] [] := (inert_of_isBare (by simp [IsBare])).carries
  have hclose : Carries [')'] [] := (inert_of_isBare (by simp [IsBare])).carries
  have := hopen.append_space (ht.append_space hclose)
  rwa [List.nil_append, List.append_nil,
    show ['('] ++ ' ' :: (t ++ ' ' :: [')']) = Fragment.group t by simp [Fragment.group]] at this

theorem Carries.aliased (ht : Carries t ms) {label : Option Text}
    (hl : ∀ n, label = some n → ¬ Text.WrappedIn '"' n) : Carries (aliased label t) ms := by
  rcases label with _ | (_ | ⟨c, n⟩)
  · exact ht
  · exact ht
  · have hname : Inert ("AS ".toList ++ (identifier (c :: n) ++ [])) :=
      .append (by simp [IsBare]) (inert_identifier (hl _ rfl) not_reopens_nil inert_nil)
    have := ht.append_space hname.carries
    simpa [Fragment.aliased] using this

theorem Carries.defining (ht : Carries t ms) {label : Option Text}
    (hl : ∀ n, label = some n → ¬ Text.WrappedIn '"' n) : Carries (defining label t) ms := by
  rcases label with _ | (_ | ⟨c, n⟩)
  · exact ht
  · exact ht
  · have hspace := not_reopens_cons (by simp : ' ' ≠ '"') "AS".toList
    have hname := inert_identifier (hl _ rfl) hspace (inert_of_isBare (by simp [IsBare]))
    have := hname.carries.append_space ht
    simpa [Fragment.defining] using this

/-- The tokens `ts` carry, one after the other, the placeholders `ms`. -/
inductive CarryAll : List Text → List Text → Prop where
  | nil : CarryAll [] []
  | cons {t : Text} {ts ms ns : List Text} :
    Carries t ms → CarryAll ts ns → CarryAll (t :: ts) (ms ++ ns)

namespace CarryAll

variable {ts us : List Text}

theorem single (h : Carries t ms) : CarryAll [t] ms := by
  have := CarryAll.cons h .nil
  rwa [List.append_nil] at this

theorem eq_nil (h : CarryAll [] ms) : ms = [] := by
  cases h
  rfl

theorem append (h : CarryAll ts ms) (h' : CarryAll us ns) : CarryAll (ts ++ us) (ms ++ ns) := by
  induction h with
  | nil => exact h'
  | cons ht _ ih =>
    rw [List.append_assoc]
    exact .cons ht ih

theorem of_markers (h : ∀ t ∈ ts, Carries t [t]) : CarryAll ts ts := by
  induction ts with
  | nil => exact .nil
  | cons t ts ih =>
    refine .cons (h t (by simp)) (ih ?_)
    intro u hu
    exact h u (by simp [hu])

theorem of_inert (h : ∀ t ∈ ts, Inert t) : CarryAll ts [] := by
  induction ts with
  | nil => exact .nil
  | cons t ts ih =>
    refine .cons (h t (by simp)).carries (ih ?_)
    intro u hu
    exact h u (by simp [hu])

/-- Fragments are joined by whatever joins two of them. -/
theorem intercalate {sep : Text} (hsep : ∀ {t u : Text} {ms ns : List Text}, Carries t ms →
    Carries u ns → Carries (t ++ sep ++ u) (ms ++ ns)) (h : CarryAll ts ms) :
    Carries (sep.intercalate ts) ms := by
  induction h with
  | nil => exact inert_nil.carries
  | @cons t ts ms ns ht hts ih =>
    cases ts with
    | nil =>
      cases hts
      rw [List.append_nil, List.intercalate_singleton]
      exact ht
    | cons u us =>
      rw [List.intercalate_cons_cons]
      exact hsep ht ih

theorem list (h : CarryAll ts ms) : Carries (list ts) ms :=
  (h.intercalate Carries.append_comma).group

theorem intercalate_space (h : CarryAll ts ms) : Carries (List.intercalate [' '] ts) ms := by
  apply h.intercalate
  intro t u ms ns ht hu
  have := ht.append_space hu
  rwa [show t ++ ' ' :: u = t ++ [' '] ++ u by simp] at this

theorem sortingKeys (h : CarryAll ts ms) : Carries (Clause.sortingKeys ts) ms := by
  -- what stands in front grows with every token, so it is general in the induction
  have hrest : ∀ {us ns}, CarryAll us ns → ∀ {t ms}, Carries t ms →
      Carries (t ++ us.flatMap fun u => (if IsDirection u then [' '] else comma) ++ u)
        (ms ++ ns) := by
    intro us ns hus
    induction hus with
    | nil => intro t ms ht; simpa using ht
    | @cons u us ms' ns hu _ ih =>
      intro t ms ht
      rw [List.flatMap_cons, ← List.append_assoc, ← List.append_assoc t, ← List.append_assoc ms]
      refine ih ?_
      split
      · simpa using ht.append_space hu
      · simpa using ht.append_comma hu
  cases h with
  | nil => exact inert_nil.carries
  | cons ht hts => exact hrest hts ht

theorem body (h : CarryAll ts ms) (k : Clause) : Carries (k.body ts) ms := by
  unfold Clause.body
  split
  · exact h.sortingKeys
  · cases k
    all_goals first
      | exact h.intercalate Carries.append_comma
      | exact h.intercalate_space

theorem render (h : CarryAll ts ms) (k : Clause) : Carries (k.render ts) ms := by
  have hword : Carries k.keyword [] := by
    refine (inert_of_isBare ?_).carries
    cases k <;> decide
  have hbody := h.body k
  unfold Clause.render
  split
  · next he =>
    rw [he] at hbody
    have hms : ms = [] := hbody.placeholders_eq ▸ inert_nil.carries.placeholders_eq
    rw [hms]
    exact hword
  · simpa using hword.append_space hbody

end CarryAll

/-- A statement carries what its open clauses carry, in their fixed order. -/
theorem carries_render {s : Statement} {carried : Clause → List Text}
    (h : ∀ k, CarryAll ((s.tokens? k).getD []) (carried k)) :
    Carries s.render (Clause.all.flatMap carried) := by
  have hall : ∀ ks : List Clause, CarryAll (ks.filterMap fun k => (s.tokens? k).map k.render)
      (ks.flatMap carried) := by
    intro ks
    induction ks with
    | nil => exact .nil
    | cons k ks ih =>
      have hk := h k
      rw [List.flatMap_cons]
      cases ht : s.tokens? k with
      | none =>
        rw [ht] at hk
        rw [hk.eq_nil, List.nil_append]
        simpa [ht] using ih
      | some ts =>
        rw [ht] at hk
        simpa [ht] using CarryAll.cons (hk.render k) ih
  exact (hall Clause.all).intercalate_space

/-! ## Moving ordinals on -/

theorem Carries.movedOn (h : Carries t ms) (k : Nat) :
    Carries (Template.movedOn .standard k t) (ms.map (Marking.standard.shift k)) := by
  have hread := ofText_movedOn .standard k t
  constructor
  · rw [hread]
    intro w hw
    obtain ⟨p, hp, he⟩ := List.mem_map.1 hw
    cases p with
    | word w' =>
      cases he
      obtain ⟨h₁, h₂⟩ := h.closed w' hp
      rcases Marking.standard.shift_cases k w' with he | ⟨n, ds, rfl, -, he⟩
      · rw [he]
        exact ⟨h₁, h₂⟩
      · obtain ⟨-, hq₁, hq₂⟩ := not_mem_of_nat? (Numeral.nat?_ofNat (n + k))
        rw [he]
        simp [Marking.standard, hq₁, hq₂]
    | space | quoted => cases he
  · rw [hread, placeholders_mapWords_shift, h.placeholders_eq]

end SqlCompose.Template
