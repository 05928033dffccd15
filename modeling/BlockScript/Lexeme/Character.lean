import BlockScript.Text.Blank

namespace BlockScript.Lexeme

/-- Format and private use characters and those that are none; a name shows all its letters. -/
def shapeless : List Text.CharRange :=
  [⟨0xAD, 0xAD⟩, ⟨0x600, 0x605⟩, ⟨0x61C, 0x61C⟩, ⟨0x6DD, 0x6DD⟩, ⟨0x70F, 0x70F⟩,
    ⟨0x890, 0x891⟩, ⟨0x8E2, 0x8E2⟩, ⟨0x180E, 0x180E⟩, ⟨0x200B, 0x200F⟩, ⟨0x202A, 0x202E⟩,
    ⟨0x2060, 0x2064⟩, ⟨0x2066, 0x206F⟩, ⟨0xE000, 0xF8FF⟩, ⟨0xFEFF, 0xFEFF⟩, ⟨0xFFF9, 0xFFFB⟩,
    ⟨0xFFFE, 0xFFFF⟩, ⟨0x110BD, 0x110BD⟩, ⟨0x110CD, 0x110CD⟩, ⟨0x13430, 0x1343F⟩,
    ⟨0x1BCA0, 0x1BCA3⟩, ⟨0x1D173, 0x1D17A⟩, ⟨0xE0001, 0xE0001⟩, ⟨0xE0020, 0xE007F⟩,
    ⟨0xF0000, 0xFFFFD⟩, ⟨0x100000, 0x10FFFD⟩]

def controls : List Text.CharRange := [⟨0x0, 0x1F⟩, ⟨0x7F, 0x9F⟩]

def operatorChars : List Char := ['-', '+', '/', '*', '<', '>', '=']

def separatorChars : List Char := [';', ',', '(', ')', '{', '}', '[', ']']

/-- Whether a character can go on a name. A quote and a digit can. -/
def isNameChar (c : Char) : Bool :=
  !operatorChars.contains c && !separatorChars.contains c && !Text.isBlank c &&
    !Text.inRanges controls c && !Text.inRanges shapeless c

end BlockScript.Lexeme
