/-
  Text.Blank — the blank characters, and the words without them.

  * `isBlank` holds of the white space of Unicode and of the four separators of
    ASCII (U+001C to U+001F);
  * `IsWord` holds of a text that is not empty and has no blank: what can stand
    in a statement as a single token.
-/
import SqlCompose.Text

namespace SqlCompose.Text

/-- White space: the controls U+0009 to U+000D, the separators U+001C to U+001F,
    the space, and the spaces and line ends beyond ASCII. -/
def isBlank (c : Char) : Bool :=
  let n := c.toNat
  (0x09 ≤ n && n ≤ 0x0D) || (0x1C ≤ n && n ≤ 0x20) || n == 0x85 || n == 0xA0 || n == 0x1680 ||
    (0x2000 ≤ n && n ≤ 0x200A) || n == 0x2028 || n == 0x2029 || n == 0x202F || n == 0x205F ||
    n == 0x3000

/-- A text that is not empty and holds no blank. -/
def IsWord (t : Text) : Prop := t ≠ [] ∧ ∀ c ∈ t, isBlank c = false

instance (t : Text) : Decidable (IsWord t) :=
  @instDecidableAnd _ _ inferInstance (List.decidableBAll _ t)

theorem isBlank_space : isBlank ' ' = true := by decide

/-- A word holds no space, so it is never cut. -/
theorem IsWord.not_mem_space {w : Text} (hw : IsWord w) : ' ' ∉ w := by
  intro hs
  have hblank := hw.2 ' ' hs
  rw [isBlank_space] at hblank
  cases hblank

/-- A word in front of a text without blanks makes a word. -/
theorem IsWord.append {w t : Text} (hw : IsWord w) (ht : ∀ c ∈ t, isBlank c = false) :
    IsWord (w ++ t) := by
  refine ⟨by simp [hw.1], fun c hc => ?_⟩
  rcases List.mem_append.1 hc with h | h
  · exact hw.2 c h
  · exact ht c h

end SqlCompose.Text
