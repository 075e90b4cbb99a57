/-
  Marking — how placeholders are written in a statement.

  A placeholder is a token of its own.  An ordinal placeholder is the ordinal
  sign and a number, a named placeholder is the named sign and a name.  Neither
  sign begins with the other, so no token is both.

  * `marker` writes the placeholder of a reference;
  * `read?` tells the placeholders among the tokens; `read?_ordinalMarker` and
    `read?_namedMarker` say that it reads back what was written;
  * `shift` moves an ordinal placeholder on by a number of ordinals;
  * `display` is the statement as it is shown to a reader;
  * `ofForm` makes a marking from its three fields or says what is wrong.
-/
import SqlCompose.Form
import SqlCompose.Text.Blank

namespace SqlCompose

/-- The signs that begin placeholders, and the sign that stands for both when a
    statement is shown. -/
structure Marking where
  ordinalSign : Text
  namedSign : Text
  displaySign : Text
  ordinalSign_isWord : ordinalSign.IsWord
  namedSign_isWord : namedSign.IsWord
  ordinalSign_not_isPrefixOf : ¬ ordinalSign <+: namedSign
  namedSign_not_isPrefixOf : ¬ namedSign <+: ordinalSign
  deriving DecidableEq

/-- What a placeholder refers to: an ordinal by its number, or a name. -/
inductive Key where
  | ordinal (n : Int)
  | named (name : Text)
  deriving DecidableEq, Repr

/-- Integers refer to ordinals, every other value to the name that it displays. -/
def Key.ofValue : Value → Key
  | .int n => .ordinal n
  | v => .named v.display

/-- Whether a key is an ordinal. -/
def Key.isOrdinal : Key → Bool
  | ordinal _ => true
  | named _ => false

/-- A token that was read as a placeholder. -/
inductive Placeholder where
  | ordinal (n : Nat)
  | named (name : Text)
  deriving DecidableEq, Repr

namespace Marking

/-- Ordinals are written `$$1`, names `$?name`, and both are shown as `$`. -/
def standard : Marking where
  ordinalSign := "$$"
  namedSign := "$?"
  displaySign := "$"
  ordinalSign_isWord := by decide
  namedSign_isWord := by decide
  ordinalSign_not_isPrefixOf := by decide
  namedSign_not_isPrefixOf := by decide

/-! ## Writing -/

/-- The placeholder of an ordinal. -/
def ordinalMarker (m : Marking) (n : Int) : Text := m.ordinalSign ++ Numeral.ofInt n

/-- The placeholder of a name. -/
def namedMarker (m : Marking) (name : Text) : Text := m.namedSign ++ name

/-- The placeholder of a reference. -/
def marker (m : Marking) : Key → Text
  | .ordinal n => m.ordinalMarker n
  | .named name => m.namedMarker name

/-! ## Reading -/

/-- The number of an ordinal placeholder: any decimal digits behind the sign. -/
def ordinal? (m : Marking) (token : Text) : Option Nat :=
  (Text.after? m.ordinalSign token).bind Numeral.nat?

/-- The name of a named placeholder: any word behind the sign. -/
def name? (m : Marking) (token : Text) : Option Text :=
  (Text.after? m.namedSign token).bind fun name =>
    if Text.IsWord name then some name else none

/-- The placeholder that a token is, if it is one. -/
def read? (m : Marking) (token : Text) : Option Placeholder :=
  match m.ordinal? token with
  | some n => some (.ordinal n)
  | none => (m.name? token).map .named

/-- Whether a token is a placeholder. -/
def isPlaceholder (m : Marking) (token : Text) : Bool := (m.read? token).isSome

/-- The token with an ordinal moved on by `offset`; no other token changes. -/
def shift (m : Marking) (offset : Nat) (token : Text) : Text :=
  match m.ordinal? token with
  | some n => m.ordinalMarker (n + offset : Nat)
  | none => token

/-! ## Reading what is written -/

/-- A text behind the ordinal sign is not behind the named sign, too. -/
theorem ordinalSign_append_ne_namedSign_append (m : Marking) (t u : Text) :
    m.ordinalSign ++ t ≠ m.namedSign ++ u := by
  intro h
  rcases List.prefix_or_prefix_of_prefix (List.prefix_append m.ordinalSign t)
      (h ▸ List.prefix_append m.namedSign u) with h' | h'
  · exact m.ordinalSign_not_isPrefixOf h'
  · exact m.namedSign_not_isPrefixOf h'

theorem ordinal?_eq_some_iff {m : Marking} {token : Text} {n : Nat} :
    m.ordinal? token = some n ↔ ∃ t, token = m.ordinalSign ++ t ∧ Numeral.nat? t = some n := by
  simp only [ordinal?, Option.bind_eq_some_iff, Text.after?_eq_some_iff]

theorem name?_eq_some_iff {m : Marking} {token name : Text} :
    m.name? token = some name ↔ token = m.namedSign ++ name ∧ name.IsWord := by
  simp only [name?, Option.bind_eq_some_iff, Text.after?_eq_some_iff,
    Option.ite_none_right_eq_some, Option.some.injEq]
  exact ⟨fun ⟨_, ht, hw, he⟩ => he ▸ ⟨ht, hw⟩, fun ⟨ht, hw⟩ => ⟨name, ht, hw, rfl⟩⟩

/-- An ordinal placeholder is no named one. -/
theorem name?_eq_none_of_ordinal? {m : Marking} {token : Text} {n : Nat}
    (h : m.ordinal? token = some n) : m.name? token = none := by
  obtain ⟨t, rfl, -⟩ := ordinal?_eq_some_iff.1 h
  refine Option.eq_none_iff_forall_ne_some.2 fun name hname => ?_
  exact m.ordinalSign_append_ne_namedSign_append t name (name?_eq_some_iff.1 hname).1

/-- The placeholder of an ordinal reads back as that ordinal. -/
theorem read?_ordinalMarker (m : Marking) (n : Nat) :
    m.read? (m.ordinalMarker n) = some (.ordinal n) := by
  have h : m.ordinal? (m.ordinalMarker n) = some n :=
    ordinal?_eq_some_iff.2 ⟨Numeral.ofNat n, rfl, Numeral.nat?_ofNat n⟩
  rw [read?, h]

/-- The placeholder of a word reads back as that name. -/
theorem read?_namedMarker (m : Marking) {name : Text} (h : name.IsWord) :
    m.read? (m.namedMarker name) = some (.named name) := by
  have hname : m.name? (m.namedMarker name) = some name := name?_eq_some_iff.2 ⟨rfl, h⟩
  cases hn : m.ordinal? (m.namedMarker name) with
  | some n => rw [name?_eq_none_of_ordinal? hn] at hname; cases hname
  | none => rw [read?, hn, hname]; rfl

/-! ## Showing -/

/-- A statement as it is shown: the display sign for both signs, and no space
    inside parentheses or in front of a comma.  It can no longer be compiled. -/
def display (m : Marking) (statement : Text) : Text :=
  statement
    |> Text.replaceAll m.ordinalSign m.displaySign
    |> Text.replaceAll m.namedSign m.displaySign
    |> Text.replaceAll " , ".toList ", ".toList
    |> Text.replaceAll "( ".toList "(".toList
    |> Text.replaceAll " )".toList ")".toList

/-! ## Making -/

/-- Why a sign cannot be used. -/
def unusable (field : Text) : Text := field ++ " must be non-empty and contain no whitespace."

/-- Why two signs cannot be used together. -/
def ambiguous (ordinalSign namedSign : Text) : Text :=
  "ordinal_prefix and named_prefix must not be prefixes of each other: " ++
    Text.Quoted.encode ordinalSign ++ " / " ++ Text.Quoted.encode namedSign ++ "."

/-- The marking with the given signs, if they are words and neither begins with
    the other; otherwise the first reason against it. -/
def ofSigns (ordinalSign namedSign displaySign : Text) : Except Text Marking :=
  if ho : ordinalSign.IsWord then
    if hn : namedSign.IsWord then
      if h : ¬ ordinalSign <+: namedSign ∧ ¬ namedSign <+: ordinalSign then
        .ok ⟨ordinalSign, namedSign, displaySign, ho, hn, h.1, h.2⟩
      else .error (ambiguous ordinalSign namedSign)
    else .error (unusable "named_prefix")
  else .error (unusable "ordinal_prefix")

/-- The names of the three fields of a marking. -/
def fields : List Text :=
  ["ordinal_prefix".toList, "named_prefix".toList, "display_marker".toList]

/-- The marking described by a form.  A field without an entry is that of the
    standard marking.  Whether the signs fit together is asked only of a form
    without other faults. -/
def ofForm (form : Form) : Except (List Fault) Marking :=
  let ordinalSign := form.textOr "ordinal_prefix" standard.ordinalSign
  let namedSign := form.textOr "named_prefix" standard.namedSign
  let displaySign := form.textOr "display_marker" standard.displaySign
  match ordinalSign, namedSign, displaySign, form.unexpected fields with
  | .ok o, .ok n, .ok d, [] => (ofSigns o n d).mapError fun reason => [.rejected reason]
  | _, _, _, faults =>
    .error (Form.faultOf ordinalSign ++ Form.faultOf namedSign ++ Form.faultOf displaySign ++ faults)

end Marking

end SqlCompose
