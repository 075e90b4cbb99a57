/-
  Text — the sequences of characters that statements are made of.

  A text is a list of code points, so lengths, beginnings and cuts count code
  points and every function below is a recursion that proofs can follow.

  * `after? start` is what follows `start` in a text that begins with it;
  * `replaceAll old new` replaces the occurrences of `old` from left to right,
    none overlapping another;
  * `double mark` writes the character `mark` twice wherever it occurs;
  * `cutAt mark` cuts a text at the first occurrence of `mark`;
  * `WrappedIn mark` holds of the texts that begin and end with `mark`, at two
    different places.
-/
namespace SqlCompose

/-- A sequence of code points. -/
abbrev Text := List Char

/-- A string stands for the text of its characters. -/
instance : Coe String Text := ⟨String.toList⟩

namespace Text

/-! ## Beginnings -/

/-- What follows `start` in a text that begins with it. -/
def after? : Text → Text → Option Text
  | [], t => some t
  | _ :: _, [] => none
  | c :: start, d :: t => if c = d then after? start t else none

theorem after?_eq_some_iff {start t r : Text} : after? start t = some r ↔ t = start ++ r := by
  fun_induction after? start t with
  | case1 t => exact ⟨fun h => Option.some.inj h, fun h => congrArg some h⟩
  | case2 c start => exact ⟨nofun, nofun⟩
  | case3 c start t ih =>
    rw [ih, List.cons_append, List.cons.injEq]
    exact ⟨fun h => ⟨rfl, h⟩, fun h => h.2⟩
  | case4 c start d t hne => exact ⟨nofun, fun h => absurd (List.cons.inj h).1.symm hne⟩

/-- What follows a beginning that is not empty is shorter than the text. -/
theorem length_of_after? {start t r : Text} (h : after? start t = some r) (hne : start ≠ []) :
    r.length < t.length := by
  have hpos := List.length_pos_iff.2 hne
  have hlen := congrArg List.length (after?_eq_some_iff.1 h)
  rw [List.length_append] at hlen
  omega

/-! ## Replacement -/

/-- The text with every occurrence of `old` replaced by `new`: occurrences are
    found from the left, and the search goes on behind the one last found.  The
    empty text occurs nowhere. -/
def replaceAll (old new : Text) : Text → Text
  | [] => []
  | c :: r =>
    match _h : after? old (c :: r) with
    | none => c :: replaceAll old new r
    | some rest =>
      if _hne : old ≠ [] then new ++ replaceAll old new rest else c :: replaceAll old new r
termination_by t => t.length
decreasing_by
  · exact Nat.lt_succ_self r.length
  · exact length_of_after? _h _hne
  · exact Nat.lt_succ_self r.length

/-- The text with every occurrence of the character `mark` written twice. -/
def double (mark : Char) (t : Text) : Text :=
  t.flatMap fun c => if c = mark then [mark, mark] else [c]

/-! ## Cuts -/

/-- The parts before and behind the first `mark`; a text without one is its own
    only part. -/
def cutAt (mark : Char) (t : Text) : List Text :=
  match t.dropWhile (· ≠ mark) with
  | [] => [t]
  | _ :: r => [t.takeWhile (· ≠ mark), r]

/-- A text that begins and ends with `mark`, at two different places. -/
def WrappedIn (mark : Char) (t : Text) : Prop :=
  2 ≤ t.length ∧ t.head? = some mark ∧ t.getLast? = some mark

instance (mark : Char) (t : Text) : Decidable (WrappedIn mark t) :=
  inferInstanceAs (Decidable (_ ∧ _ ∧ _))

end Text

end SqlCompose
