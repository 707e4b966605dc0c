/-
White space.

A character is blank if it is a space, a line or paragraph separator of Unicode,
or a control character that moves to another place in the text: the tab and line
controls, the four information separators and the next line control.  The zero
width space, the byte order mark and the Mongolian vowel separator are not blank.

`isBlank_of_isWhitespace` says that what core counts as white space is blank.
-/
import PromptShelf.Text.Ranges

namespace PromptShelf.Text

def blanks : Ranges := [
  (0x9, 0xd), (0x1c, 0x20), (0x85, 0x85), (0xa0, 0xa0), (0x1680, 0x1680), (0x2000, 0x200a),
  (0x2028, 0x2029), (0x202f, 0x202f), (0x205f, 0x205f), (0x3000, 0x3000)]

/-- White space of Unicode. -/
def isBlank (c : Char) : Bool := blanks.has c

def isBlankText (s : String) : Bool := s.toList.all isBlank

/-- White space among bytes: the space and the tab and line controls of ASCII. -/
def isBlankByte (b : UInt8) : Bool := b == 0x20 || (0x9 ≤ b && b ≤ 0xd)

/-- White space of core is white space here. -/
theorem isBlank_of_isWhitespace {c : Char} (h : c.isWhitespace = true) : isBlank c = true := by
  simp only [Char.isWhitespace, Bool.or_eq_true, decide_eq_true_eq] at h
  rcases h with ((rfl | rfl) | rfl) | rfl <;> decide

/-- Braces are not blank. -/
theorem not_isBlank_brace : isBlank '{' = false ∧ isBlank '}' = false := by decide

end PromptShelf.Text
