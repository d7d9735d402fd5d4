import PageCompiler.Text.CharRanges

/-!
# Blank characters

The characters that count as white space: the ASCII controls used for layout, the four information
separators, and the Unicode spaces. The byte order mark and the zero-width space are not blank.
-/

namespace PageCompiler

def blankRanges : CharRanges :=
  [(0x9, 0xd), (0x1c, 0x20), (0x85, 0x85), (0xa0, 0xa0), (0x1680, 0x1680), (0x2000, 0x200a),
   (0x2028, 0x2029), (0x202f, 0x202f), (0x205f, 0x205f), (0x3000, 0x3000)]

/-- Whether a character is white space. -/
def isBlank (c : Char) : Bool := blankRanges.contains c

end PageCompiler
