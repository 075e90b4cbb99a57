/-
  Numeral — numbers as texts.

  * `ofNat` and `ofInt` write a number in decimal, without leading zeros;
  * `nat?` reads a run of decimal digits, of any script and with any number of
    leading zeros;
  * `int?` reads a number that may carry a sign and whose digits may be grouped
    by single underscores;
  * `nat?_ofNat` and `int?_ofNat` say that what is written reads back.
-/
import SqlCompose.Text.Digit

namespace SqlCompose.Numeral

/-! ## Writing -/

/-- The decimal digits of a natural number. -/
def ofNat (n : Nat) : Text := Nat.toDigits 10 n

/-- The decimal digits of an integer, behind a minus sign if it is negative. -/
def ofInt : Int → Text
  | .ofNat n => ofNat n
  | .negSucc n => '-' :: ofNat (n + 1)

@[simp] theorem ofInt_natCast (n : Nat) : ofInt n = ofNat n := rfl

theorem ofNat_ne_nil (n : Nat) : ofNat n ≠ [] := Nat.toDigits_ne_nil

/-! ## Reading -/

/-- The number that a run of digits continues from `start`; `none` if one of the
    characters is no digit. -/
def natFrom? (start : Nat) : Text → Option Nat
  | [] => some start
  | c :: r => (Text.digit? c).bind fun d => natFrom? (start * 10 + d) r

/-- The number written by a run of at least one decimal digit. -/
def nat? (t : Text) : Option Nat := if t = [] then none else natFrom? 0 t

/-- The digits of a run in which single underscores may stand between digits. -/
def ungrouped? : Text → Option Text
  | [] => none
  | [c] => if (Text.digit? c).isSome then some [c] else none
  | c :: '_' :: r => if (Text.digit? c).isSome then (ungrouped? r).map (c :: ·) else none
  | c :: r => if (Text.digit? c).isSome then (ungrouped? r).map (c :: ·) else none

/-- The number written by grouped digits behind an optional sign. -/
def int? : Text → Option Int
  | '-' :: r => ((ungrouped? r).bind nat?).map fun n => -(n : Int)
  | '+' :: r => ((ungrouped? r).bind nat?).map (↑·)
  | r => ((ungrouped? r).bind nat?).map (↑·)

/-! ## Reading what is written -/

theorem isDigit_of_mem_ofNat {n : Nat} {c : Char} (h : c ∈ ofNat n) : c.isDigit = true :=
  Nat.isDigit_of_mem_toDigits (by decide) (by decide) h

theorem natFrom?_of_isDigit {t : Text} (h : ∀ c ∈ t, c.isDigit = true) (start : Nat) :
    natFrom? start t = some (Nat.ofDigitChars 10 t start) := by
  induction t generalizing start with
  | nil => rfl
  | cons c r ih =>
    rw [natFrom?, Text.digit?_of_isDigit (h c List.mem_cons_self), Option.bind_some,
      ih (fun d hd => h d (List.mem_cons_of_mem c hd)), Nat.ofDigitChars_cons, Nat.mul_comm]

/-- A number reads back from its digits. -/
theorem nat?_ofNat (n : Nat) : nat? (ofNat n) = some n := by
  rw [nat?, if_neg (ofNat_ne_nil n), natFrom?_of_isDigit fun _ => isDigit_of_mem_ofNat]
  exact congrArg some Nat.ofDigitChars_ten_toDigits

/-- Digits without underscores are taken as they are. -/
theorem ungrouped?_of_isDigit {t : Text} (hne : t ≠ []) (h : ∀ c ∈ t, c.isDigit = true) :
    ungrouped? t = some t := by
  fun_induction ungrouped? t with
  | case1 => exact absurd rfl hne
  | case2 | case3 => simp_all [Text.digit?_of_isDigit]
  | case4 c r hc ih => exact absurd (h '_' (by simp)) (by decide)
  | case5 c r hc => exact absurd (h '_' (by simp)) (by decide)
  | case6 c r hr hr' hc ih =>
    rw [ih (fun hnil => hr hnil) fun d hd => h d (List.mem_cons_of_mem c hd)]
    rfl
  | case7 c r hr hr' hc =>
    exact absurd (by rw [Text.digit?_of_isDigit (h c List.mem_cons_self)]; rfl) hc

/-- A number reads back from its digits as an integer, too. -/
theorem int?_ofNat (n : Nat) : int? (ofNat n) = some (n : Int) := by
  have hdigit : ∀ c ∈ ofNat n, c.isDigit = true := fun _ => isDigit_of_mem_ofNat
  have hread : (ungrouped? (ofNat n)).bind nat? = some n := by
    rw [ungrouped?_of_isDigit (ofNat_ne_nil n) hdigit, Option.bind_some, nat?_ofNat]
  unfold int?
  split
  · next r hr => exact absurd (hdigit '-' (by simp [hr])) (by decide)
  · next r hr => exact absurd (hdigit '+' (by simp [hr])) (by decide)
  · rw [hread]; rfl

example : int? "-1_0".toList = some (-10) := by decide
example : int? "1__0".toList = none := by decide

end SqlCompose.Numeral
