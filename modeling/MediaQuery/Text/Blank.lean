import MediaQuery.Text.Span

/-!
# White space

The characters with the property `White_Space`; `isBlank_of_isWhitespace` says that the class holds every
blank of ASCII that the core library knows.
-/

namespace MediaQuery.Text

/-- The spans of `White_Space`. -/
def blankSpans : List Span := [
  (0x9, 0xd), (0x20, 0x20), (0x85, 0x85), (0xa0, 0xa0), (0x1680, 0x1680), (0x2000, 0x200a), (0x2028, 0x2029),
  (0x202f, 0x202f), (0x205f, 0x205f), (0x3000, 0x3000)]

/-- White space in the sense of the Unicode standard. -/
def isBlank (c : Char) : Bool := inSpans blankSpans c

/-- A text without the blanks at both ends. -/
def trim (s : List Char) : List Char := ((s.dropWhile isBlank).reverse.dropWhile isBlank).reverse

/-- The blanks of the core library are blanks here. -/
theorem isBlank_of_isWhitespace {c : Char} (h : c.isWhitespace = true) : isBlank c = true := by
  simp only [Char.isWhitespace, Bool.or_eq_true, decide_eq_true_eq] at h
  rcases h with ((rfl | rfl) | rfl) | rfl <;> decide

end MediaQuery.Text
