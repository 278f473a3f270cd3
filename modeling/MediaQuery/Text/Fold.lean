/-!
# Letters regardless of case

Two words of ASCII letters are the same regardless of case if their foldings are. Folding takes every letter to
small ones; beyond ASCII it knows the characters whose folding is ASCII.
-/

namespace MediaQuery.Text

/-- The characters beyond ASCII that fold to letters of ASCII. -/
def foldings : List (Char × List Char) := [
  ('\u00df', ['s', 's']), ('\u017f', ['s']), ('\u1e9e', ['s', 's']), ('\u212a', ['k']),
  ('\ufb00', ['f', 'f']), ('\ufb01', ['f', 'i']), ('\ufb02', ['f', 'l']), ('\ufb03', ['f', 'f', 'i']),
  ('\ufb04', ['f', 'f', 'l']), ('\ufb05', ['s', 't']), ('\ufb06', ['s', 't'])]

/-- The folding of one character. -/
def foldChar (c : Char) : List Char := (foldings.lookup c).getD [c.toLower]

/-- The folding of a text. -/
def fold (s : String) : String := String.ofList (s.toList.flatMap foldChar)

/-- A text in which the letters of ASCII are small. -/
def lowerAscii (s : String) : String := String.ofList (s.toList.map Char.toLower)

end MediaQuery.Text
