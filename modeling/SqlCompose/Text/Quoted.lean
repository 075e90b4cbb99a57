/-
  Text.Quoted — texts as messages quote them.

  A text is shown between single quotes, or between double quotes if it holds a
  single quote and no double one.  The quote in use and the backslash are
  escaped, and every character that cannot be shown is named by its code point.

  * `hex width n` is `n` in hexadecimal, at least `width` digits wide;
  * `encodeChar quote c` is the form of one character;
  * `encode t` is the quoted text.
-/
import SqlCompose.Text.Printable

namespace SqlCompose.Text.Quoted

/-- The number `n` in lower-case hexadecimal, filled with zeros to `width`. -/
def hex (width n : Nat) : Text :=
  let digits := Nat.toDigits 16 n
  List.replicate (width - digits.length) '0' ++ digits

/-- The form of a character between `quote` marks: the shortest of `\t`, `\n`,
    `\r`, `\x`, `\u` and `\U` that can name it, if it cannot be shown as it is. -/
def encodeChar (quote c : Char) : Text :=
  if c = quote ∨ c = '\\' then ['\\', c]
  else if c = '\t' then ['\\', 't']
  else if c = '\n' then ['\\', 'n']
  else if c = '\r' then ['\\', 'r']
  else if isPrintable c then [c]
  else if c.toNat < 0x100 then ['\\', 'x'] ++ hex 2 c.toNat
  else if c.toNat < 0x10000 then ['\\', 'u'] ++ hex 4 c.toNat
  else ['\\', 'U'] ++ hex 8 c.toNat

/-- The quote mark for a text: the single one, unless only the double one is free. -/
def markFor (t : Text) : Char := if '\'' ∈ t ∧ '"' ∉ t then '"' else '\''

/-- The text between quote marks, with everything escaped that needs it. -/
def encode (t : Text) : Text :=
  let mark := markFor t
  [mark] ++ t.flatMap (encodeChar mark) ++ [mark]

example : encode "it's".toList = "\"it's\"".toList := by decide +kernel
example : encode "a\x00b".toList = "'a\\x00b'".toList := by decide +kernel

end SqlCompose.Text.Quoted
