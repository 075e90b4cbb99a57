/-
  Nesting — expressions of any depth are read with the placeholders that are their leaves.

  `Expression` are the trees that the functions of `Fragment` write, with placeholders, literals
  and names as leaves.  Whatever stands next to a placeholder, a space is between them.

  * `Becomes t ms vs t'` says that `t` carries the placeholders `ms` and becomes `t'` when the
    texts `vs` are filled in for these; `Becomes.framed` is the rule for what stands in front of
    an expression and behind it, and each function of `Fragment` is a case of it;
  * `Expression.becomes`: a well-formed tree carries its leaves, and becomes the same tree with
    other leaves;
  * `Expression.leaves_read` puts this together for placeholders that were declared.
-/
import SqlCompose.Proofs.Quoting
import SqlCompose.Proofs.Weaving

namespace SqlCompose

open Template Fragment

/-! ## Expressions -/

/-- An expression; `α` identifies its placeholders. -/
inductive Expression (α : Type) where
  | marker (a : α)
  | literal (v : Value)
  | path (names : List Text)
  | convert (e : Expression α) (type : Text)
  | group (e : Expression α)
  | list (items : List (Expression α))
  | call (name : Text) (arguments : List (Expression α))
  | aggregate (name : Text) (argument : Expression α) (distinct : Bool)
  | aliased (label : Option Text) (e : Expression α)
  | defining (label : Option Text) (e : Expression α)

namespace Expression

variable {α : Type}

mutual

/-- The text of an expression, if `text` gives those of its placeholders. -/
def render (text : α → Text) : Expression α → Text
  | marker a => text a
  | literal v => v.literal
  | path names => Fragment.qualified names
  | convert e type => Fragment.convert (e.render text) type
  | group e => Fragment.group (e.render text)
  | list items => Fragment.list (renderAll text items)
  | call name arguments => Fragment.call name (renderAll text arguments)
  | aggregate name argument distinct => Fragment.aggregate name (argument.render text) distinct
  | aliased label e => Fragment.aliased label (e.render text)
  | defining label e => Fragment.defining label (e.render text)

/-- The texts of expressions. -/
def renderAll (text : α → Text) : List (Expression α) → List Text
  | [] => []
  | e :: es => e.render text :: renderAll text es

end

mutual

/-- The placeholders of an expression, from left to right. -/
def leaves : Expression α → List α
  | marker a => [a]
  | literal _ | path _ => []
  | convert e _ | group e | aggregate _ e _ | aliased _ e | defining _ e => e.leaves
  | list es | call _ es => leavesAll es

/-- The placeholders of expressions. -/
def leavesAll : List (Expression α) → List α
  | [] => []
  | e :: es => e.leaves ++ leavesAll es

end

mutual

/-- No name in a path looks quoted, and an alias that does is quoted properly.  The numerals of
    floating point numbers and the names of types and functions are unmarked. -/
def WellFormed : Expression α → Prop
  | marker _ => True
  | literal v => (Given.value v).Literal
  | path names => ∀ n ∈ names, ¬ Text.WrappedIn '"' n
  | group e => e.WellFormed
  | convert e type => Unmarked type ∧ e.WellFormed
  | list items => AllWellFormed items
  | call name arguments => Unmarked name ∧ AllWellFormed arguments
  | aggregate name argument _ => Unmarked name ∧ argument.WellFormed
  | aliased label e | defining label e => (∀ n ∈ label, KeepsQuotes n) ∧ e.WellFormed

/-- All of the expressions are well-formed. -/
def AllWellFormed : List (Expression α) → Prop
  | [] => True
  | e :: es => e.WellFormed ∧ AllWellFormed es

end

end Expression

/-! ## Unmarked names -/

/-- A text without quotes and without dollar signs may name a type or a function. -/
theorem unmarked_of_isBare {t : Text} (h : ∀ c ∈ t, IsBare c) : Unmarked t :=
  (inert_of_isBare h).unmarked

/-- So may a path of names. -/
theorem unmarked_qualified {path : List Text} (h : ∀ n ∈ path, ¬ Text.WrappedIn '"' n) :
    Unmarked (qualified path) := (inert_qualified h).unmarked

/-- A name that keeps its quotes is read as a span, or is the star. -/
theorem inert_identifier_of_keepsQuotes {n u : Text} (hn : KeepsQuotes n)
    (hu : u.head? ≠ some '"') (h : Inert u) : Inert (identifier n ++ u) := by
  by_cases he : n = ['*']
  · subst he
    exact h.cons (by simp [IsBare])
  · have hq := (isQuotedName_identifier_iff he).2 hn
    exact Within.span (span?_of_isQuotedName hq hu) h

/-! ## Filling in -/

namespace Template

/-- Replacing placeholders one by one is filling in what is made of them. -/
theorem substitute_eq_filled (m : Marking) (f : Text → Text) (ps : Template) :
    substitute m f ps = filled m ((placeholders m ps).map f) ps := by
  rw [substitute_eq_woven, filled_eq_woven (List.length_map f)]

/-- The text `t` carries the placeholders `ms`, and with `vs` in place of these it is `t'`. -/
structure Becomes (t : Text) (ms vs : List Text) (t' : Text) : Prop where
  carries : Carries t ms
  length_eq : vs.length = ms.length
  filled_eq : filled .standard vs (ofText t) = t'

variable {t t' u u' v : Text} {ms ns vs ws : List Text}

/-- What carries nothing stays as it is. -/
theorem Carries.becomes (h : Carries t []) : Becomes t [] [] t where
  carries := h
  length_eq := rfl
  filled_eq := by rw [filled_nil, text_ofText]

/-- Where a text is one placeholder, nothing is left of it. -/
theorem Carries.becomes_marker (h : Carries t [t]) (v : Text) : Becomes t [t] [v] v := by
  refine ⟨h, rfl, ?_⟩
  have hlen := length_gaps .standard (ofText t)
  have htext := woven_placeholders .standard (ofText t)
  rw [h.placeholders_eq] at hlen htext
  obtain ⟨a, b, hab⟩ := List.length_eq_two.1 hlen
  rw [hab, text_ofText] at htext
  have hcount := congrArg List.length htext
  simp only [woven, List.length_append] at hcount
  obtain rfl : a = [] := List.eq_nil_of_length_eq_zero (by omega)
  obtain rfl : b = [] := List.eq_nil_of_length_eq_zero (by omega)
  rw [filled_eq_woven (by rw [h.placeholders_eq]; rfl), hab]
  simp [woven]

namespace Becomes

theorem append_space (ht : Becomes t ms vs t') (hu : Becomes u ns ws u') :
    Becomes (t ++ ' ' :: u) (ms ++ ns) (vs ++ ws) (t' ++ ' ' :: u') where
  carries := ht.carries.append_space hu.carries
  length_eq := by rw [List.length_append, List.length_append, ht.length_eq, hu.length_eq]
  filled_eq := by
    rw [ofText_append_space ht.carries.closed, filled_append, filled_space, ht.filled_eq,
      hu.filled_eq]
    rw [ht.length_eq, ht.carries.placeholders_eq]

theorem append_comma (ht : Becomes t ms vs t') (hu : Becomes u ns ws u') :
    Becomes (t ++ comma ++ u) (ms ++ ns) (vs ++ ws) (t' ++ comma ++ u') := by
  have hcomma : Becomes [','] [] [] [','] := (carries_word (by simp [IsBare])).becomes
  simpa [comma] using ht.append_space (hcomma.append_space hu)

/-- What carries nothing may stand in front of an expression, with a space between them. -/
theorem led (ht : Becomes t ms vs t') {a : Text} (ha : Carries a []) :
    Becomes (a ++ ' ' :: t) ms vs (a ++ ' ' :: t') := by
  simpa using ha.becomes.append_space ht

/-- What carries nothing may stand behind an expression, with a space between them. -/
theorem trailed (ht : Becomes t ms vs t') {b : Text} (hb : Carries b []) :
    Becomes (t ++ ' ' :: b) ms vs (t' ++ ' ' :: b) := by
  simpa using ht.append_space hb.becomes

/-- **An expression may be put between texts that carry nothing, with spaces around it.** -/
theorem framed (ht : Becomes t ms vs t') {a b : Text} (ha : Carries a []) (hb : Carries b []) :
    Becomes (a ++ ' ' :: (t ++ ' ' :: b)) ms vs (a ++ ' ' :: (t' ++ ' ' :: b)) :=
  (ht.trailed hb).led ha

theorem group (ht : Becomes t ms vs t') :
    Becomes (Fragment.group t) ms vs (Fragment.group t') := by
  have hopen : Carries ['('] [] := carries_word (by simp [IsBare])
  have hclose : Carries [')'] [] := carries_word (by simp [IsBare])
  simpa [Fragment.group] using ht.framed hopen hclose

theorem convert (ht : Becomes t ms vs t') {type : Text} (h : Unmarked type) :
    Becomes (Fragment.convert t type) ms vs (Fragment.convert t' type) := by
  have hopen : Carries ['C', 'A', 'S', 'T', '('] [] := carries_word (by simp [IsBare])
  have has : Carries ['A', 'S'] [] := carries_word (by simp [IsBare])
  have hclose : Carries [')'] [] := carries_word (by simp [IsBare])
  have htype := has.append_space (h.carries.append_space hclose)
  have := ht.framed hopen htype
  unfold Fragment.convert
  simpa using this

theorem call {args args' : List Text}
    (ht : Becomes (comma.intercalate args) ms vs (comma.intercalate args')) {name : Text}
    (h : Unmarked name) : Becomes (Fragment.call name args) ms vs (Fragment.call name args') := by
  have hclose : Carries [')'] [] := carries_word (by simp [IsBare])
  simpa [Fragment.call] using ht.framed h.carries_open hclose

theorem aggregate (ht : Becomes t ms vs t') {name : Text} (h : Unmarked name) (distinct : Bool) :
    Becomes (Fragment.aggregate name t distinct) ms vs (Fragment.aggregate name t' distinct) := by
  have hclose : Carries [')'] [] := carries_word (by simp [IsBare])
  cases distinct with
  | false => simpa [Fragment.aggregate] using ht.framed h.carries_open hclose
  | true =>
    have hword : Carries ['D', 'I', 'S', 'T', 'I', 'N', 'C', 'T'] [] :=
      carries_word (by simp [IsBare])
    simpa [Fragment.aggregate] using ht.framed (h.carries_open.append_space hword) hclose

theorem aliased (ht : Becomes t ms vs t') {label : Option Text} (h : ∀ n ∈ label, KeepsQuotes n) :
    Becomes (Fragment.aliased label t) ms vs (Fragment.aliased label t') := by
  rcases label with _ | (_ | ⟨c, n⟩)
  · exact ht
  · exact ht
  · have hname : Inert (identifier (c :: n) ++ []) :=
      inert_identifier_of_keepsQuotes (h _ rfl) nofun inert_nil
    have has : Carries "AS".toList [] := carries_word (by simp [IsBare])
    simpa [Fragment.aliased] using ht.trailed (has.append_space hname.carries)

theorem defining (ht : Becomes t ms vs t') {label : Option Text} (h : ∀ n ∈ label, KeepsQuotes n) :
    Becomes (Fragment.defining label t) ms vs (Fragment.defining label t') := by
  rcases label with _ | (_ | ⟨c, n⟩)
  · exact ht
  · exact ht
  · have has : Inert " AS".toList := inert_of_isBare (by simp [IsBare])
    have hname : Inert (identifier (c :: n) ++ " AS".toList) :=
      inert_identifier_of_keepsQuotes (h _ rfl) (by simp) has
    simpa [Fragment.defining] using ht.led hname.carries

end Becomes

end Template

/-! ## Trees -/

namespace Expression

variable {α : Type} {text g : α → Text}

mutual

/-- **A well-formed expression carries its leaves**, and with other texts filled in for them it is
    the expression with these leaves. -/
theorem becomes (e : Expression α) (he : e.WellFormed)
    (hm : ∀ a ∈ e.leaves, Carries (text a) [text a]) :
    Becomes (e.render text) (e.leaves.map text) (e.leaves.map g) (e.render g) := by
  cases e with
  | marker a => exact (hm a (by simp [leaves])).becomes_marker (g a)
  | literal v => exact (Given.Literal.unmarked he).carries.becomes
  | path names => exact (inert_qualified he).carries.becomes
  | convert e type => exact (becomes e he.2 hm).convert he.1
  | group e => exact (becomes e he hm).group
  | list items => exact (becomesJoined items he hm).group
  | call name arguments => exact (becomesJoined arguments he.2 hm).call he.1
  | aggregate name argument distinct => exact (becomes argument he.2 hm).aggregate he.1 distinct
  | aliased label e => exact (becomes e he.2 hm).aliased he.1
  | defining label e => exact (becomes e he.2 hm).defining he.1

/-- So do well-formed expressions with commas between them. -/
theorem becomesJoined (es : List (Expression α)) (hes : AllWellFormed es)
    (hm : ∀ a ∈ leavesAll es, Carries (text a) [text a]) :
    Becomes (comma.intercalate (renderAll text es)) ((leavesAll es).map text)
      ((leavesAll es).map g) (comma.intercalate (renderAll g es)) := by
  cases es with
  | nil => exact inert_nil.carries.becomes
  | cons e es =>
    have hfirst := becomes e hes.1 fun a ha => hm a (List.mem_append_left _ ha)
    have hrest := becomesJoined es hes.2 fun a ha => hm a (List.mem_append_right _ ha)
    rw [leavesAll, List.map_append, List.map_append]
    cases es with
    | nil => simpa [renderAll, leavesAll] using hfirst
    | cons e' es =>
      simp only [renderAll, List.intercalate_cons_cons] at hrest ⊢
      exact hfirst.append_comma hrest

end

end Expression

/-- A placeholder that was declared with the standard signs, and has no quotes if it is a name. -/
def Parameters.Declared (t : Text) : Prop :=
  ∃ (p : Parameters) (d : Declaration) (p' : Parameters),
    p.marking = .standard ∧ PlainDeclaration d ∧ p.allocate d = .ok (t, p')

theorem Parameters.Declared.carries {t : Text} (h : Declared t) : Carries t [t] := by
  obtain ⟨p, d, p', hm, hd, ht⟩ := h
  obtain ⟨hc, rfl, -⟩ := allocate_eq_ok_iff.1 ht
  exact carries_markerFor hm hc hd

namespace Expression

/-- **A well-formed expression is read with its leaves.**  Let the placeholders of an expression
    be declared ones, and let its aliases keep their quotes.  Then, whatever its literals, paths
    and aliases hold and however deep it is, the placeholders that are read in its text are its
    leaves from left to right, and no quote is left open.  Replacing them by a function gives
    the text of the expression whose leaves are replaced, and so does replacing each leaf by a
    text of its own. -/
theorem leaves_read {α : Type} {e : Expression α} (he : e.WellFormed) {text : α → Text}
    (hm : ∀ a ∈ e.leaves, Parameters.Declared (text a)) :
    placeholders .standard (ofText (e.render text)) = e.leaves.map text ∧
      Closed (ofText (e.render text)) ∧
      (∀ f : Text → Text, substitute .standard f (ofText (e.render text)) =
        e.render fun a => f (text a)) ∧
      ∀ g : α → Text, filled .standard (e.leaves.map g) (ofText (e.render text)) = e.render g := by
  have hread : ∀ g : α → Text,
      Becomes (e.render text) (e.leaves.map text) (e.leaves.map g) (e.render g) := by
    intro g
    apply e.becomes he
    intro a ha
    exact (hm a ha).carries
  obtain ⟨hclosed, hplaceholders⟩ := (hread text).carries
  refine ⟨hplaceholders, hclosed, ?_, fun g => (hread g).filled_eq⟩
  intro f
  rw [substitute_eq_filled, hplaceholders, List.map_map]
  exact (hread _).filled_eq

/-- The definition of an aggregate over distinct rows, with two placeholders, a literal and an
    alias that look like further ones, a number, a type of two words and a function in a
    schema. -/
theorem leaves_read_of_definition :
    let e : Expression Bool := defining (some "t") (group (aliased (some "a\" $$1")
      (aggregate "COUNT" (call (qualified ["ops", "$?x"]) [marker true,
        list [convert (marker false) "TIME ZONE", literal (.text "' $$1")],
        path ["u", "*"], literal (.float "1e-07")]) true)))
    let text : Bool → Text := fun b => if b then "$$1" else "$?x"
    e.WellFormed ∧ (∀ a ∈ e.leaves, Parameters.Declared (text a)) ∧
      e.render text = "\"t\" AS ( COUNT( DISTINCT \"ops\".\"$?x\"( ".toList ++
        "$$1 , ( CAST( $?x AS TIME ZONE ) , '\\' $$1' ) , ".toList ++
          "\"u\".* , 1e-07 ) ) AS \"a\"\" $$1\" )".toList ∧
      placeholders .standard (ofText (e.render text)) = ["$$1".toList, "$?x".toList] ∧
      filled .standard ["5".toList, "'b'".toList] (ofText (e.render text)) =
        e.render fun b => if b then "5" else "'b'" := by
  intro e text
  have hkeeps : ∀ {n : Text}, ¬ Text.WrappedIn '"' n → ∀ k ∈ some n, KeepsQuotes k := by
    rintro n hn k hk
    obtain rfl : n = k := Option.mem_some_iff.1 hk
    exact fun hw => absurd hw hn
  have htype : Unmarked "TIME ZONE" := unmarked_of_isBare (by decide)
  have hcount : Unmarked "COUNT" := unmarked_of_isBare (by decide)
  have hfloat : Unmarked "1e-07" := unmarked_of_isBare (by decide)
  have hschema : Unmarked (qualified ["ops", "$?x"]) := unmarked_qualified (by decide)
  have hstar : ∀ n ∈ ["u".toList, "*".toList], ¬ Text.WrappedIn '"' n := by decide
  have he : e.WellFormed :=
    ⟨hkeeps (by decide), hkeeps (by decide), hcount, hschema, trivial,
      ⟨⟨htype, trivial⟩, trivial, trivial⟩, hstar, hfloat, trivial⟩
  have hm : ∀ a ∈ e.leaves, Parameters.Declared (text a) := by
    intro a ha
    cases a with
    | true => exact ⟨.empty .standard, none, _, rfl, nofun, rfl⟩
    | false =>
      refine ⟨.empty .standard, some (.named "x"), _, rfl, ?_, rfl⟩
      rintro name ⟨⟩ -
      decide
  obtain ⟨hread, -, -, hfilled⟩ := leaves_read he hm
  exact ⟨he, hm, by decide +kernel, hread, hfilled fun b => if b then "5" else "'b'"⟩

/-- **An alias that only looks quoted adds a placeholder**, though it has no leaf. -/
theorem alias_read_as_marker :
    let e : Expression Unit :=
      aliased (some "\"x\" $$1 \"y\"") (aggregate "COUNT" (marker ()) false)
    let text : Unit → Text := fun () => "$$1"
    Parameters.Declared "$$1" ∧ e.leaves.length = 1 ∧
      e.render text = "COUNT( $$1 ) AS \"x\" $$1 \"y\"".toList ∧
      placeholders .standard (ofText (e.render text)) = ["$$1".toList, "$$1".toList] ∧
      substitute .standard (fun _ => "v") (ofText (e.render text)) ≠ e.render fun () => "v" := by
  refine ⟨⟨.empty .standard, none, _, rfl, nofun, rfl⟩, rfl, ?_, ?_, ?_⟩
  all_goals decide +kernel

end Expression

end SqlCompose
