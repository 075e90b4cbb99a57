/-
  Template — a statement read as a row of pieces, with its placeholders told.

  Between the quoted spans of a statement the text is cut at every single space.
  The stretches between the cuts are its words, and a word that is written like
  a placeholder is one; nothing inside a span is.

  * `Piece` is a word, a space or a quoted span, and `ofText` the pieces of a
    text; `text_ofText` says that together they are the text;
  * `placeholders` lists the placeholders in the order of the text;
  * `substitute` replaces each by what a function makes of it, and `movedOn` moves
    the ordinals of a text on.
-/
import SqlCompose.Marking
import SqlCompose.Template.Span

namespace SqlCompose

/-- A piece of a statement. -/
inductive Piece where
  /-- A stretch without spaces outside the quoted spans. -/
  | word (t : Text)
  /-- A single space. -/
  | space
  /-- A literal or a quoted name, with its quotes. -/
  | quoted (t : Text)
  deriving DecidableEq, Repr

/-- The text of a piece. -/
def Piece.text : Piece → Text
  | word t => t
  | space => [' ']
  | quoted t => t

/-- The pieces of a statement, in the order of its text. -/
abbrev Template := List Piece

namespace Template

/-! ## Reading -/

/-- Puts a character in front of the word that the pieces begin with, or in front
    of them as a word of its own. -/
def consChar (c : Char) : Template → Template
  | .word t :: ps => .word (c :: t) :: ps
  | ps => .word [c] :: ps

/-- The pieces of a text: a span wherever one begins, then spaces, then words. -/
def ofText : Text → Template
  | [] => []
  | c :: r =>
    match _h : span? (c :: r) with
    | some p => .quoted p.1 :: ofText p.2
    | none => if c = ' ' then .space :: ofText r else consChar c (ofText r)
termination_by t => t.length
decreasing_by
  · exact length_of_span? _h
  · simp only [List.length_cons]; omega
  · simp only [List.length_cons]; omega

/-- The text of the pieces. -/
def text (ps : Template) : Text := ps.flatMap Piece.text

/-! ## Placeholders -/

/-- The placeholders among the words, in order. -/
def placeholders (m : Marking) (ps : Template) : List Text :=
  ps.filterMap fun
    | .word t => if m.isPlaceholder t then some t else none
    | _ => none

/-- The text in which every placeholder is replaced by what `f` makes of it. -/
def substitute (m : Marking) (f : Text → Text) (ps : Template) : Text :=
  ps.flatMap fun
    | .word t => if m.isPlaceholder t then f t else t
    | p => p.text

/-- The text with its ordinals moved on by `k`. -/
def movedOn (m : Marking) (k : Nat) (t : Text) : Text := (ofText t).substitute m (m.shift k)

/-! ## What reading keeps -/

theorem ofText_of_span? {t : Text} {p : Text × Text} (h : span? t = some p) :
    ofText t = .quoted p.1 :: ofText p.2 := by
  cases t with
  | nil => cases h
  | cons c r =>
    rw [ofText]
    split
    · next h' => rw [h] at h'; cases h'; rfl
    · next h' => rw [h] at h'; cases h'

theorem ofText_of_span?_eq_none {c : Char} {r : Text} (h : span? (c :: r) = none) :
    ofText (c :: r) = if c = ' ' then .space :: ofText r else consChar c (ofText r) := by
  rw [ofText]
  split
  · next h' => rw [h] at h'; cases h'
  · rfl

@[simp] theorem text_nil : text [] = [] := rfl

@[simp] theorem text_cons (p : Piece) (ps : Template) : text (p :: ps) = p.text ++ text ps := rfl

@[simp] theorem text_consChar (c : Char) (ps : Template) : text (consChar c ps) = c :: text ps := by
  unfold consChar
  split <;> simp [Piece.text]

/-- The pieces of a text make up the text. -/
theorem text_ofText (t : Text) : text (ofText t) = t := by
  fun_induction ofText t with
  | case1 => rfl
  | case2 c r p h ih => simp [Piece.text, ih, ← eq_append_of_span? h]
  | case3 r h ih => simp [Piece.text, ih]
  | case4 c r h hc ih => simp [ih]

/-- Substitution of every placeholder by itself keeps the text. -/
theorem substitute_id (m : Marking) (ps : Template) : substitute m id ps = text ps := by
  unfold substitute text
  congr 1
  funext p
  cases p <;> simp [Piece.text]

end Template

end SqlCompose
