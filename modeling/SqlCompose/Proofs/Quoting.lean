/-
  Quoting — literals and names are read as the one span they were written as.

  A literal puts a backslash in front of whatever could end it, and a name doubles its
  quotes.  A scanner that comes to either reads all of it and nothing behind it, if nothing
  behind a name goes on with it.

  * `Text.replaceAll_singleton`: replacing a character is a change at each place by itself,
    so `escape` and `Text.double` are rows of replacements;
  * `unescape_escape` and `Text.replaceAll_double` read them back;
  * `Value.literal_read_whole`: a literal says which text it is of, and is read as one span
    in front of anything;
  * `IsQuotedName` holds of the spans of names, `identifier` makes one of every name that
    `KeepsQuotes`, and `ofText_qualified` is what a path of such names is read as;
  * `identifiers_read_whole` puts these together.
-/
import SqlCompose.Proofs.Carrying
import SqlCompose.Phrase

namespace SqlCompose

/-! ## Replacing a character -/

namespace Text

theorem replaceAll_of_after? {old t r : Text} (h : after? old t = some r) (hne : old ≠ [])
    (new : Text) : replaceAll old new t = new ++ replaceAll old new r := by
  cases t with
  | nil =>
    have := length_of_after? h hne
    cases this
  | cons c t =>
    rw [replaceAll]
    split
    · next hn => rw [h] at hn; cases hn
    · next hs => rw [h] at hs; cases hs; rw [dif_pos hne]

theorem replaceAll_cons {old t : Text} {c : Char} (h : after? old (c :: t) = none) (new : Text) :
    replaceAll old new (c :: t) = c :: replaceAll old new t := by
  rw [replaceAll]
  split
  · rfl
  · next hs => rw [h] at hs; cases hs

/-- A character is replaced at each place by itself. -/
theorem replaceAll_singleton (c : Char) (new t : Text) :
    replaceAll [c] new t = t.flatMap fun d => if d = c then new else [d] := by
  induction t with
  | nil => rw [replaceAll, List.flatMap_nil]
  | cons d t ih =>
    rw [List.flatMap_cons, ← ih]
    by_cases h : d = c
    · rw [if_pos h, replaceAll_of_after? (r := t) (by simp [after?, h]) (by simp)]
    · rw [if_neg h, replaceAll_cons (by simp [after?, Ne.symm h])]
      rfl

theorem double_eq_replaceAll (mark : Char) (t : Text) :
    double mark t = replaceAll [mark] [mark, mark] t := (replaceAll_singleton ..).symm

/-- Two marks for one are read back as one. -/
theorem replaceAll_double (mark : Char) (t : Text) :
    replaceAll [mark, mark] [mark] (double mark t) = t := by
  induction t with
  | nil => rw [double, List.flatMap_nil, replaceAll]
  | cons c t ih =>
    rw [double, List.flatMap_cons, ← double]
    by_cases h : c = mark
    · rw [if_pos h, replaceAll_of_after? (r := double mark t) (by simp [after?]) (by simp), ih, h]
      rfl
    · rw [if_neg h, List.singleton_append, replaceAll_cons (by simp [after?, Ne.symm h]), ih]

end Text

open Fragment Template

/-! ## Literals -/

namespace Fragment

/-- Escaping is three replacements in a row, that of the backslash first. -/
theorem escape_eq_replaceAll (t : Text) :
    escape t = (t
      |> Text.replaceAll ['\\'] ['\\', '\\']
      |> Text.replaceAll ['\''] ['\\', '\'']
      |> Text.replaceAll ['"'] ['\\', '"']) := by
  rw [Text.replaceAll_singleton, Text.replaceAll_singleton, Text.replaceAll_singleton,
    List.flatMap_assoc, List.flatMap_assoc, escape]
  congr 1
  funext c
  by_cases h₁ : c = '\\'
  · simp [h₁]
  · by_cases h₂ : c = '\''
    · simp [h₂]
    · by_cases h₃ : c = '"' <;> simp [h₁, h₂, h₃]

/-- The text in which every backslash is taken for the character behind it. -/
def unescape : Text → Text
  | [] => []
  | ['\\'] => ['\\']
  | '\\' :: c :: r => c :: unescape r
  | c :: r => c :: unescape r

theorem unescape_cons {c : Char} (h : c ≠ '\\') (r : Text) :
    unescape (c :: r) = c :: unescape r := by
  cases r <;> simp [unescape, h]

/-- **An escaped text says which text it is of.** -/
theorem unescape_escape (t : Text) : unescape (escape t) = t := by
  induction t with
  | nil => rfl
  | cons c t ih =>
    rw [escape, List.flatMap_cons, ← escape]
    split
    · rw [List.cons_append, List.singleton_append, unescape, ih]
    · next h => rw [List.singleton_append, unescape_cons (not_or.1 h).1, ih]

theorem literal_escape (t : Text) : literal (escape t) = ['\''] ++ escape t ++ ['\''] := by
  rw [literal, if_neg (not_wrappedIn_escape t)]

theorem unescape_literal (t : Text) : unescape (literal (escape t)).tail.dropLast = t := by
  rw [literal_escape, List.singleton_append, List.cons_append, List.tail_cons,
    List.dropLast_concat, unescape_escape]

/-- No two texts have the same literal. -/
theorem literal_escape_inj {s t : Text} : literal (escape s) = literal (escape t) ↔ s = t := by
  constructor
  · intro h
    rw [← unescape_literal s, h, unescape_literal]
  · rintro rfl
    rfl

end Fragment

namespace Template

/-- A literal is a span in front of anything. -/
theorem span?_literal_append (s u : Text) :
    span? (literal (escape s) ++ u) = some (literal (escape s), u) := by
  apply span?_append (span?_literal s)
  rw [literal_escape]
  nofun

/-- A literal is read apart from what is in front of it and behind it. -/
theorem ofText_append_literal {t : Text} (h : Closed (ofText t)) (s u : Text) :
    ofText (t ++ (literal (escape s) ++ u)) =
      ofText t ++ .quoted (literal (escape s)) :: ofText u := by
  apply ofText_append_span h (span?_literal_append s u)
  rw [literal_escape]
  nofun

end Template

theorem Value.varchar_eq (v : Value) :
    v.varchar = "CAST( " ++ (text v.display).literal ++ " AS TEXT )" := by
  have htail : " AS TEXT )".toList = " AS ".toList ++ "TEXT".toList ++ " )".toList := by
    decide +kernel
  rw [htail, ← List.append_assoc, ← List.append_assoc]
  rfl

/-- A literal that is converted is read as such. -/
theorem Value.ofText_varchar (v : Value) (u : Text) : ofText (v.varchar ++ u) =
    .word "CAST(" :: .space :: .quoted (text v.display).literal :: ofText (" AS TEXT )" ++ u) := by
  have hcast : ofText "CAST( " = [.word "CAST(", .space] := by decide +kernel
  have hclosed : Closed (ofText "CAST( ") := (inert_of_isBare (by simp [IsBare])).carries.closed
  have hread := ofText_append_literal hclosed v.display (" AS TEXT )" ++ u)
  rw [hcast] at hread
  rw [varchar_eq, List.append_assoc, List.append_assoc]
  exact hread

/-- **Literals are read whole.**  The literal of a text is the text between single quotes, with
    its backslashes, its single quotes and its double quotes escaped one after the other.
    Without its quotes and backslashes it is the text again, so no other text has this
    literal.  A scanner that comes to it reads it as one span, whatever follows, and goes on
    behind it: in front of it and behind it a statement is read, and its placeholders are
    replaced, as if it were not there.  The conversion of a text holds the same literal. -/
theorem Value.literal_read_whole (s : Text) :
    let q := (text s).literal
    q = ['\''] ++ escape s ++ ['\''] ∧
      escape s = (s
        |> Text.replaceAll ['\\'] ['\\', '\\']
        |> Text.replaceAll ['\''] ['\\', '\'']
        |> Text.replaceAll ['"'] ['\\', '"']) ∧
      unescape q.tail.dropLast = s ∧
      (∀ s', (text s').literal = q ↔ s' = s) ∧
      (∀ u, span? (q ++ u) = some (q, u)) ∧
      (∀ t u, Closed (ofText t) →
        ofText (t ++ (q ++ u)) = ofText t ++ .quoted q :: ofText u ∧
          (∀ m, placeholders m (ofText (t ++ (q ++ u))) =
            placeholders m (ofText t) ++ placeholders m (ofText u)) ∧
          ∀ m f, substitute m f (ofText (t ++ (q ++ u))) =
            substitute m f (ofText t) ++ (q ++ substitute m f (ofText u))) ∧
      (text s).varchar = "CAST( " ++ q ++ " AS TEXT )" ∧
      ∀ u, ofText ((text s).varchar ++ u) =
        .word "CAST(" :: .space :: .quoted q :: ofText (" AS TEXT )" ++ u) := by
  intro q
  refine ⟨literal_escape s, escape_eq_replaceAll s, unescape_literal s, fun _ => literal_escape_inj,
    span?_literal_append s, ?_, varchar_eq _, ofText_varchar _⟩
  intro t u ht
  have hread : ofText (t ++ (q ++ u)) = ofText t ++ .quoted q :: ofText u :=
    ofText_append_literal ht s u
  rw [hread]
  refine ⟨rfl, ?_, ?_⟩
  · intro m
    rw [placeholders_append, placeholders_quoted]
  · intro m f
    exact List.flatMap_append

/-- A literal with everything in it that could end it or look like a placeholder, between a
    name and a quote that is never closed. -/
theorem Value.literal_read_whole_between_quotes :
    let q := (text "'\\' $$1 \"").literal
    let t : Text := "\"n\" = "
    Closed (ofText t) ∧ q = "'\\'\\\\\\' $$1 \\\"'".toList ∧
      placeholders .standard (ofText (t ++ (q ++ " , $$2 'b"))) = ["$$2".toList] := by
  intro q t
  have ht : ofText t = [.quoted "\"n\"", .space, .word "=", .space] := by decide +kernel
  have hname : Inert (identifier "n" ++ " = ") :=
    inert_identifier (by decide) (not_reopens_cons (by decide) _) (inert_of_isBare (by simp [IsBare]))
  have hclosed : Closed (ofText t) := hname.carries.closed
  have hu : placeholders .standard (ofText " , $$2 'b") = ["$$2".toList] := by decide +kernel
  obtain ⟨-, -, -, -, -, hread, -⟩ := literal_read_whole "'\\' $$1 \""
  refine ⟨hclosed, by decide +kernel, ?_⟩
  rw [(hread t _ hclosed).2.1, ht, hu]
  rfl

/-! ## Names -/

namespace Fragment

/-- A name between double quotes, with its own double quotes doubled. -/
def IsQuotedName (t : Text) : Prop := ∃ n, t = ['"'] ++ Text.double '"' n ++ ['"']

/-- A name that is quoted properly if it begins and ends with a double quote. -/
def KeepsQuotes (n : Text) : Prop := Text.WrappedIn '"' n → IsQuotedName n

variable {n : Text}

theorem identifier_of_not_wrappedIn (hn : n ≠ ['*']) (h : ¬ Text.WrappedIn '"' n) :
    identifier n = ['"'] ++ Text.double '"' n ++ ['"'] := by
  rw [identifier, if_neg (not_or.2 ⟨hn, h⟩)]

theorem identifier_of_wrappedIn (h : Text.WrappedIn '"' n) : identifier n = n := by
  rw [identifier, if_pos (.inr h)]

theorem wrappedIn_identifier (hn : n ≠ ['*']) : Text.WrappedIn '"' (identifier n) := by
  by_cases h : Text.WrappedIn '"' n
  · rwa [identifier_of_wrappedIn h]
  · rw [identifier_of_not_wrappedIn hn h]
    refine ⟨by simp, rfl, List.getLast?_concat⟩

/-- A name that was quoted once is not quoted again. -/
theorem identifier_identifier (n : Text) : identifier (identifier n) = identifier n := by
  by_cases hn : n = ['*']
  · subst hn
    rfl
  · exact identifier_of_wrappedIn (wrappedIn_identifier hn)

theorem isQuotedName_identifier_iff (hn : n ≠ ['*']) :
    IsQuotedName (identifier n) ↔ KeepsQuotes n := by
  by_cases h : Text.WrappedIn '"' n
  · rw [identifier_of_wrappedIn h]
    exact ⟨fun hq _ => hq, fun hk => hk h⟩
  · rw [identifier_of_not_wrappedIn hn h]
    exact ⟨fun _ hw => absurd hw h, fun _ => ⟨n, rfl⟩⟩

end Fragment

namespace Template

theorem isQuotedName_of_nameTail? {t : Text} {p : Text × Text} (h : nameTail? t = some p) :
    ∃ n, p.1 = Text.double '"' n ++ ['"'] := by
  fun_induction nameTail? t generalizing p with
  | case1 => cases h
  | case2 r q hq ih =>
    obtain ⟨n, hn⟩ := ih hq
    cases h
    exact ⟨'"' :: n, by simp [hn, Text.double]⟩
  | case3 | case4 => cases h; exact ⟨[], rfl⟩
  | case5 c r _ hc ih =>
    obtain ⟨q, hq, rfl⟩ := Option.map_eq_some_iff.1 h
    obtain ⟨n, hn⟩ := ih hq
    exact ⟨c :: n, by simp [hn, Text.double, hc]⟩

/-- The spans that begin with a double quote are the quoted names. -/
theorem isQuotedName_of_span? {t : Text} {p : Text × Text} (h : span? t = some p)
    (hp : p.1.head? = some '"') : IsQuotedName p.1 := by
  cases t with
  | nil => cases h
  | cons c r =>
    rw [span?] at h
    split at h
    · next hc =>
      obtain ⟨q, -, rfl⟩ := Option.map_eq_some_iff.1 h
      rw [hc] at hp
      cases hp
    · split at h
      · next hc =>
        obtain ⟨q, hq, rfl⟩ := Option.map_eq_some_iff.1 h
        obtain ⟨n, hn⟩ := isQuotedName_of_nameTail? hq
        exact ⟨n, by rw [hc, hn]; rfl⟩
      · cases h

theorem span?_of_isQuotedName {q u : Text} (hq : IsQuotedName q) (hu : u.head? ≠ some '"') :
    span? (q ++ u) = some (q, u) := by
  obtain ⟨n, rfl⟩ := hq
  have hopen : ¬ Reopens u := by
    rintro ⟨r, rfl, -⟩
    exact hu rfl
  simp [span?, nameTail?_double n hopen]

/-- What is written for a name is a span in front of whatever does not go on with it iff it is
    a quoted name. -/
theorem span?_identifier_iff {n : Text} (hn : n ≠ ['*']) :
    (∀ u, u.head? ≠ some '"' → span? (identifier n ++ u) = some (identifier n, u)) ↔
      IsQuotedName (identifier n) := by
  constructor
  · intro h
    exact isQuotedName_of_span? (h [] nofun) (wrappedIn_identifier hn).2.1
  · intro h u hu
    exact span?_of_isQuotedName h hu

/-- A quoted name is read apart from what is in front of it and behind it. -/
theorem ofText_append_name {t q u : Text} (hq : IsQuotedName q) (ht : Closed (ofText t))
    (hlast : t.getLast? ≠ some '"') (hu : u.head? ≠ some '"') :
    ofText (t ++ (q ++ u)) = ofText t ++ .quoted q :: ofText u :=
  ofText_append_span ht (span?_of_isQuotedName hq hu) fun h => absurd h hlast

/-! ## Paths -/

/-- What a name is read as in front of `rest`. -/
def ofName (rest : Template) (n : Text) : Template :=
  if n = ['*'] then consChar '*' rest else .quoted (identifier n) :: rest

/-- What a path is read as in front of `rest`. -/
def ofPath (rest : Template) : List Text → Template
  | [] => rest
  | [n] => ofName rest n
  | n :: path => ofName (consChar '.' (ofPath rest path)) n

/-- What the naming of an expression is read as in front of `rest`. -/
def ofLabel (rest : Template) : Option Text → Template
  | none | some [] => rest
  | some n => .space :: .word "AS" :: .space :: ofName rest n

theorem ofText_char {c : Char} (h₁ : c ≠ '\'') (h₂ : c ≠ '"') (h₃ : c ≠ ' ') (u : Text) :
    ofText (c :: u) = consChar c (ofText u) := by
  rw [ofText_of_span?_eq_none (span?_eq_none_of_ne h₁ h₂), if_neg h₃]

theorem ofText_identifier {n u : Text} (hn : KeepsQuotes n) (hu : u.head? ≠ some '"') :
    ofText (identifier n ++ u) = ofName (ofText u) n := by
  unfold ofName
  split
  · next he =>
    subst he
    exact ofText_char (by decide) (by decide) (by decide) u
  · next he =>
    have hq := (isQuotedName_identifier_iff he).2 hn
    exact ofText_of_span? (span?_of_isQuotedName hq hu)

theorem ofText_qualified {path : List Text} {u : Text} (h : ∀ n ∈ path, KeepsQuotes n)
    (hu : u.head? ≠ some '"') : ofText (qualified path ++ u) = ofPath (ofText u) path := by
  induction path with
  | nil => rfl
  | cons n path ih =>
    have hn := h n List.mem_cons_self
    cases path with
    | nil =>
      rw [qualified, List.map_singleton, List.intercalate_singleton]
      exact ofText_identifier hn hu
    | cons n' path =>
      have hpath : ofText (qualified (n' :: path) ++ u) = ofPath (ofText u) (n' :: path) := by
        apply ih
        intro k hk
        exact h k (List.mem_cons_of_mem n hk)
      have hsplit : qualified (n :: n' :: path) ++ u =
          identifier n ++ '.' :: (qualified (n' :: path) ++ u) := by
        simp [qualified, List.intercalate_cons_cons]
      rw [hsplit, ofText_identifier hn (by simp), ofText_char (by decide) (by decide) (by decide),
        hpath]
      rfl

theorem ofText_label {label : Option Text} {e u : Text} (h : ∀ n ∈ label, KeepsQuotes n)
    (hu : u.head? ≠ some '"') :
    ∃ v, aliased label e ++ u = e ++ v ∧ v.head? ≠ some '"' ∧
      ofText v = ofLabel (ofText u) label := by
  rcases label with _ | (_ | ⟨c, n⟩)
  · exact ⟨u, rfl, hu, rfl⟩
  · exact ⟨u, rfl, hu, rfl⟩
  · refine ⟨" AS " ++ (identifier (c :: n) ++ u), by simp [aliased], by simp, ?_⟩
    change ofText (' ' :: 'A' :: 'S' :: ' ' :: (identifier (c :: n) ++ u)) = _
    rw [ofText_space, ofText_char (by decide) (by decide) (by decide),
      ofText_char (by decide) (by decide) (by decide), ofText_space, ofText_identifier (h _ rfl) hu]
    rfl

end Template

/-- **Names are read whole, if they keep their quotes.**  What is written for a name is not
    quoted again.  A name that does not look quoted stands between double quotes, with its own
    doubled, and says which name it is.  For a name that looks quoted this depends on what is
    between its quotes: it is a quoted name, and one span in front of whatever does not go on
    with it, exactly if its quotes in between come in pairs.  Such names are read apart from
    what is in front of them and behind them, and of a path of them, with or without a name
    given to it, only the dots, the stars and the word in front of that name are no span. -/
theorem identifier_read_whole {n : Text} (hn : n ≠ ['*']) :
    let q := identifier n
    identifier q = q ∧
      (¬ Text.WrappedIn '"' n → q = ['"'] ++ Text.replaceAll ['"'] ['"', '"'] n ++ ['"'] ∧
        Text.replaceAll ['"', '"'] ['"'] q.tail.dropLast = n) ∧
      (IsQuotedName q ↔ KeepsQuotes n) ∧
      ((∀ u, u.head? ≠ some '"' → span? (q ++ u) = some (q, u)) ↔ KeepsQuotes n) ∧
      (KeepsQuotes n → ∀ t u, Closed (ofText t) → t.getLast? ≠ some '"' → u.head? ≠ some '"' →
        ofText (t ++ (q ++ u)) = ofText t ++ .quoted q :: ofText u) ∧
      ∀ path label u, (∀ k ∈ path, KeepsQuotes k) → (∀ k ∈ label, KeepsQuotes k) →
        u.head? ≠ some '"' →
        ofText (Phrase.finished none label (qualified path) ++ u) =
          ofPath (ofLabel (ofText u) label) path := by
  intro q
  have hquoted := isQuotedName_identifier_iff hn
  refine ⟨identifier_identifier n, ?_, hquoted, (span?_identifier_iff hn).trans hquoted, ?_, ?_⟩
  · intro h
    have hq : q = ['"'] ++ Text.double '"' n ++ ['"'] := identifier_of_not_wrappedIn hn h
    constructor
    · rw [hq, Text.double_eq_replaceAll]
    · rw [hq, List.singleton_append, List.cons_append, List.tail_cons, List.dropLast_concat,
        Text.replaceAll_double]
  · intro h t u ht hlast hu
    exact ofText_append_name (hquoted.2 h) ht hlast hu
  · intro path label u hpath hlabel hu
    obtain ⟨v, hv, hhead, hread⟩ := ofText_label (e := qualified path) hlabel hu
    rw [Phrase.finished, hv, ofText_qualified hpath hhead, hread]

/-- A column with quotes in its name, behind its table and with a name given to it. -/
theorem identifier_read_whole_qualified :
    let n : Text := "a\" $$1 \"b"
    let path : List Text := ["\"t\"", n, ['*']]
    n ≠ ['*'] ∧ (¬ Text.WrappedIn '"' n ∧ KeepsQuotes n ∧ ∀ k ∈ path, KeepsQuotes k) ∧
      identifier n = "\"a\"\" $$1 \"\"b\"".toList ∧
      Text.replaceAll ['"', '"'] ['"'] (identifier n).tail.dropLast = n ∧
      ofText ("= " ++ (identifier n ++ " $$1")) =
        [.word "=", .space, .quoted "\"a\"\" $$1 \"\"b\"", .space, .word "$$1"] ∧
      ofText (Phrase.finished none (some "x") (qualified path) ++ " $$1") =
        [.quoted "\"t\"", .word ".", .quoted "\"a\"\" $$1 \"\"b\"", .word ".*", .space, .word "AS",
          .space, .quoted "\"x\"", .space, .word "$$1"] := by
  intro n path
  have hn : n ≠ ['*'] := by decide
  have hwrapped : ¬ Text.WrappedIn '"' n := by decide
  have hkeeps : ∀ {k : Text}, ¬ Text.WrappedIn '"' k → KeepsQuotes k := fun hk h => absurd h hk
  have hpath : ∀ k ∈ path, KeepsQuotes k := by
    intro k hk
    simp only [path, List.mem_cons, List.not_mem_nil, or_false] at hk
    rcases hk with rfl | rfl | rfl
    · exact fun _ => ⟨"t", rfl⟩
    · exact hkeeps hwrapped
    · exact hkeeps (by decide)
  have hlabel : ∀ k ∈ some "x".toList, KeepsQuotes k := by
    intro k hk
    obtain rfl : "x".toList = k := Option.mem_some_iff.1 hk
    exact hkeeps (by decide)
  have ht : ofText "= " = [.word "=", .space] := by decide +kernel
  have hclosed : Closed (ofText "= ") := (inert_of_isBare (by simp [IsBare])).carries.closed
  have hu : ofText " $$1" = [.space, .word "$$1"] := by decide +kernel
  obtain ⟨-, hback, -, -, hread, hnamed⟩ := identifier_read_whole hn
  refine ⟨hn, ⟨hwrapped, hkeeps hwrapped, hpath⟩, by decide +kernel, (hback hwrapped).2, ?_, ?_⟩
  · rw [hread (hkeeps hwrapped) _ _ hclosed (by decide) (by decide), ht, hu]
    decide +kernel
  · rw [hnamed path (some "x") _ hpath hlabel (by decide), hu]
    decide +kernel

/-- **A name that only looks quoted is read in parts.**  What stands between the second and
    the third of its quotes is in no span, and may be a placeholder. -/
theorem identifier_read_in_parts :
    let n : Text := "\"a\" $$1 \"b\""
    n ≠ ['*'] ∧ identifier n = n ∧ ¬ IsQuotedName (identifier n) ∧
      span? (identifier n ++ []) = some ("\"a\"".toList, " $$1 \"b\"".toList) ∧
      placeholders .standard (ofText (qualified [n])) = ["$$1".toList] := by
  intro n
  have hspan : span? (identifier n ++ []) = some ("\"a\"".toList, " $$1 \"b\"".toList) := by
    decide +kernel
  refine ⟨by decide, by decide, ?_, hspan, by decide +kernel⟩
  intro h
  rw [span?_of_isQuotedName h (by decide)] at hspan
  revert hspan
  decide +kernel

end SqlCompose
